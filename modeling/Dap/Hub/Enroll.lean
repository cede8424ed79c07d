import Dap.Hub.Channels

/-! Issued client secrets, their file, and the admin operations (`hub/enroll.go`, `hub/admin.go`,
`hub/store.go`). -/
namespace Dap
open GoJson

/-! ### The secrets file -/

structure SecretRecord where
  name : String := ""
  hash : String := ""
  deriving DecidableEq

def SecretRecord.json (r : SecretRecord) : Json String :=
  .obj [("name", .str r.name), ("hash", .str r.hash)]

def SecretRecord.decodeMember (r : SecretRecord) (member : String × Json String) :
    Option SecretRecord :=
  match matchField ["name", "hash"] member.1 with
  | some "name" => (decodeString r.name member.2).map fun s => { r with name := s }
  | some "hash" => (decodeString r.hash member.2).map fun s => { r with hash := s }
  | _ => some r

def secretFile (records : List SecretRecord) : Json String :=
  .obj [("secrets", .arr (records.map SecretRecord.json))]

def secretRecords (secrets : GoMap (List String)) : List SecretRecord :=
  secrets.toList.flatMap fun kv => kv.2.map fun hash => ⟨kv.1, hash⟩

/-- The records of a secrets file; `none` when it does not parse. -/
def parseSecretFile (file : Json String) : Option (List SecretRecord) :=
  (decodeStruct (fun (s : Slice SecretRecord) member =>
    match matchField ["secrets"] member.1 with
    | some _ => s.decode (decodeStruct SecretRecord.decodeMember) {} member.2
    | none => some s) {} file).map Slice.elems

def loadRecords (records : List SecretRecord) : GoMap (List String) :=
  records.foldl (fun m r => m.insert r.name (m[r.name]?.getD [] ++ [r.hash])) ∅

namespace Hub

def persistSecrets (h : Hub) : Hub :=
  { h with secretsFile := some (secretFile (secretRecords h.secrets)) }

/-- A missing or broken file leaves the secrets as they are. -/
def loadSecrets (h : Hub) : Hub :=
  match h.secretsFile.bind parseSecretFile with
  | some records => { h with secrets := loadRecords records }
  | none => h

end Hub

/-! ### The channel file, read back -/

structure ChannelRecord where
  name : String := ""
  pubkey : String := ""
  allowed : Slice String := {}

def ChannelRecord.decodeMember (r : ChannelRecord) (member : String × Json String) :
    Option ChannelRecord :=
  match matchField ["name", "pubkey", "allowed"] member.1 with
  | some "name" => (decodeString r.name member.2).map fun s => { r with name := s }
  | some "pubkey" => (decodeString r.pubkey member.2).map fun s => { r with pubkey := s }
  | some "allowed" =>
    (r.allowed.decode decodeString "" member.2).map fun s => { r with allowed := s }
  | _ => some r

def parseChannelStore (file : Json String) : Option (List ChannelRecord) :=
  (decodeStruct (fun (s : Slice ChannelRecord) member =>
    match matchField ["channels"] member.1 with
    | some _ => s.decode (decodeStruct ChannelRecord.decodeMember) {} member.2
    | none => some s) {} file).map Slice.elems

def restoreChannels (channels : GoMap Channel) (records : List ChannelRecord) : GoMap Channel :=
  records.foldl (fun m r =>
    m.insert r.name { name := r.name, pubkey := r.pubkey, allowed := r.allowed.elems }) channels

namespace Hub

def loadChannels (h : Hub) : Hub :=
  match h.channelsFile.bind parseChannelStore with
  | some records => { h with channels := restoreChannels h.channels records }
  | none => h

/-- `newHub` with the same configuration, over the same files. -/
def wiped (h : Hub) : Hub where
  adminToken := h.adminToken
  masterSecret := h.masterSecret
  channelsFile := h.channelsFile
  secretsFile := h.secretsFile
  log := h.log
  clock := h.clock
  entropy := h.entropy
  drawn := h.drawn

/-- A new process. -/
def restarted (h : Hub) : Hub := h.wiped.loadChannels.loadSecrets

end Hub

/-! ### Bearer credentials -/

variable (P : Platform)

namespace Hub

/-- Whether the token is the enrollment master secret. -/
def isMaster (h : Hub) (token : String) : Bool :=
  token ≠ "" ∧ h.masterSecret ≠ "" ∧ constEq P token h.masterSecret

/-- The enrolled name whose issued secret the token is. -/
def agentForSecret (h : Hub) (token : String) : Option String :=
  if token = "" then none
  else
    (h.secrets.toList.find? fun kv => kv.2.any fun hash => constEq P hash (sha256Hex P token)).map
      Prod.fst

/-- Classifies an upgrade token. -/
def matchBearer (h : Hub) (token : String) : Option (AuthKind × String) :=
  if h.isMaster P token then some (.master, "")
  else (h.agentForSecret P token).map fun name => (.agent, name)

/-- The connection an accepted upgrade leaves behind. -/
def openConn (c : ConnID) (auth : AuthKind) (boundName : String) (h : Hub) : Hub :=
  h.updConn c fun _ => { auth := auth, boundName := boundName, stage := .reading }

end Hub

/-! ### Enrollment -/

/-- The plaintext of the `i`th secret the hub draws. -/
def Hub.secretAt (h : Hub) (i : ℕ) : String :=
  String.ofList (Bytes.base64RawURL (h.entropy i).val)

inductive EnrollOp where
  | enroll | enrollCreate
  deriving DecidableEq

def EnrollOp.name : EnrollOp → String
  | .enroll => "enroll"
  | .enrollCreate => "enroll_create"

namespace Hub

def drawSecret (h : Hub) : String × Hub :=
  (h.secretAt h.drawn, { h with drawn := h.drawn + 1 })

/-- `enroll` replaces every hash of the name, `enroll_create` adds one. -/
def enrollLocked (op : EnrollOp) (name hash : String) (h : Hub) : Hub :=
  let old := match op with
    | .enroll => []
    | .enrollCreate => h.secrets[name]?.getD []
  Hub.persistSecrets { h with secrets := h.secrets.insert name (old ++ [hash]) }

end Hub

/-- Issues a fresh client secret and persists its hash; needs the master secret. -/
def enroll (c : ConnID) (op : EnrollOp) : HubProc Unit := do
  let k ← ownConn c
  if k.auth ≠ .master then
    sendErr c codeDenied (op.name ++ " requires the hub master secret")
  else
    let secret ← Proc.atomically .entropy Hub.drawSecret
    Proc.modify .mu (Hub.enrollLocked op k.name (sha256Hex P secret))
    logf op.name fun h => [("agent", (h.conns c).logAgent), ("name", k.name)]
    let _ ← sendFrame c (.enrolled secret)

def handleEnroll (c : ConnID) : HubProc Unit := enroll P c .enroll

def handleEnrollCreate (c : ConnID) : HubProc Unit := enroll P c .enrollCreate

/-! ### Admin -/

inductive EvictOutcome where
  | notFound | online | evicted
  deriving DecidableEq

namespace Hub

def adminOK (h : Hub) (token : String) : Bool :=
  token ≠ "" ∧ h.adminToken ≠ "" ∧ constEq P token h.adminToken

def nameHeld (agents : GoMap AgentEntry) (name : String) : Bool :=
  agents.toList.any fun kv => kv.2.name = name

/-- Removes an offline identity with its mailbox. The secrets of its name go with the last holder
of the name. -/
def adminEvictLocked (id : String) (h : Hub) : EvictOutcome × Hub :=
  match h.agents[id]? with
  | none => (.notFound, h)
  | some e =>
    if h.clients.contains id then (.online, h)
    else
      let h := { h with
        agents := h.agents.erase id
        evicted := h.evicted.insert id (h.evicted[id]?.getD [] ++ [e])
        mailbox := h.mailbox.erase id
        mailboxDropped := h.mailboxDropped.erase id }
      if h.secrets.contains e.name then
        if nameHeld h.agents e.name then
          (.evicted, h.logged "admin" [("action", "evict"), ("agent", id), ("name", e.name),
            ("secret_purge", "skipped"), ("reason", "name still held by another agent")])
        else (.evicted, Hub.persistSecrets { h with secrets := h.secrets.erase e.name })
      else (.evicted, h)

/-- Replaces a channel's ACL, creating the channel if need be. -/
def setACLLocked (name : String) (allowed : List String) (h : Hub) : Hub :=
  let ch := h.channels[name]?.getD { name := name }
  Hub.persistChannels { h with channels := h.channels.insert name { ch with allowed := allowed } }

end Hub

def EvictOutcome.status : EvictOutcome → ℕ
  | .notFound => 404
  | .online => 409
  | .evicted => 204

/-- `DELETE /api/agents/{agentId}` as it comes in. -/
structure EvictRequest where
  token : String
  id : String
  path : String
  remote : String

/-- Answers with the HTTP status. -/
def adminEvict (r : EvictRequest) : HubProc ℕ := do
  let ok ← Proc.read .config fun h => h.adminOK P r.token
  if ¬ ok then
    logf "admin" fun _ =>
      [("method", "DELETE"), ("path", r.path), ("remote", r.remote), ("result", "denied")]
    return 401
  else
    let outcome ← Proc.atomically .mu (Hub.adminEvictLocked r.id)
    if outcome = .evicted then
      logf "admin" fun _ => [("method", "DELETE"), ("path", r.path), ("result", "ok"),
        ("action", "evict"), ("agent", r.id)]
    return outcome.status

end Dap
