import Dap.Hub.Relay

/-! The hello handshake (`hub/auth.go`). -/
namespace Dap

variable (P : Platform)

def ownConn (c : ConnID) : HubProc Conn := Proc.read (.own c) fun h => h.conns c

def Hub.checkHelloLocked (f : Frame) (raw : Raw) (h : Hub) : Option ProtoError × Hub :=
  let r := checkHello P f raw h.clock h.nonces
  (r.1, { h with nonces := r.2 })

/-- The id of the agent a public key names; undecodable keys never get this far. -/
def helloAgentID (pubkey : String) : String := agentIDFor P ((Bytes.base64Decode pubkey).getD [])

def Conn.authenticated (k : Conn) (f : Frame) : Conn :=
  { k with
    agentID := helloAgentID P f.pubkey
    pubkey := f.pubkey
    x25519 := f.x25519
    name := f.name
    authed := true
    stage := .greeted }

def welcomeFrame (agentID : String) : Frame := { op := "welcome", agentID := agentID }

/-- Installs the authenticated connection. An issued secret only authenticates its enrolled name. -/
def welcome (c : ConnID) (f : Frame) : HubProc Unit := do
  let k ← ownConn c
  if k.auth = .agent ∧ f.name ≠ k.boundName then
    reject c codeDenied "hello name does not match the enrolled secret"
  else
    setOwn c fun k => k.authenticated P f
    register c
    let _ ← sendFrame c (.frame (welcomeFrame (helloAgentID P f.pubkey)))

/-- Trace lines name the agent by the still unverified key. -/
def Conn.traced (k : Conn) (f : Frame) : Conn :=
  match Bytes.base64Decode f.pubkey with
  | some pub => { k with helloID := agentIDFor P pub }
  | none => k

/-- Authenticates the first frame on a connection. -/
def handleHello (c : ConnID) (f : Frame) (raw : Raw) : HubProc Unit := do
  setOwn c fun k => k.traced P f
  logf "hello" fun h => [("agent", (h.conns c).logAgent), ("name", f.name)]
  let k ← ownConn c
  if k.authed then sendErr c codeBadFrame "already authenticated"
  else match ← Proc.atomically .nonces (Hub.checkHelloLocked P f raw) with
    | some e => reject c e.code e.msg
    | none => welcome P c f

end Dap
