import Dap.Hub.Frames
import Dap.Lib.GoMap
import Dap.Lib.Interference
import Dap.Lib.Sha256

/-! The hub's state: identity registry, live connections, channels, mailboxes, caches, issued
secrets and the two files behind them (`hub/relay.go`, `hub/channels.go`, `hub/enroll.go`). -/
namespace Dap

/-- What the hub takes from outside its source: the hash, the signature scheme, and the text of
`encoding/json`'s errors. -/
structure Platform where
  sha256 : Bytes → Digest
  ed25519Verify : Bytes → Bytes → Bytes → Bool
  jsonError : Bytes → String

abbrev ConnID := ℕ

def maxFrameBytes : ℕ := 1048576
def sendBuffer : ℕ := 512
def maxQueuedBytes : ℤ := 4194304

inductive CloseReason where
  | unknown | eof | error | evicted | writeFail | pingTimeout | backpressure
  deriving DecidableEq

/-- How a connection authenticated at the upgrade. -/
inductive AuthKind where
  | none | master | agent
  deriving DecidableEq

/-- The durable identity record. -/
structure AgentEntry where
  pubkey : String := ""
  x25519 : String := ""
  name : String := ""
  online : Bool := false
  lastSeen : Int64 := 0
  deriving DecidableEq

/-- How far a connection has come. -/
inductive Stage where
  | absent | reading | greeted | serving | gone
  deriving DecidableEq

/-- One live WebSocket connection. `stage` is there to speak of, and no code reads it. `send` is the
content of the send channel, oldest first. -/
structure Conn where
  send : List Reply := []
  rejectCh : Option Reply := none
  closed : Bool := false
  queued : ℤ := 0
  reason : CloseReason := .unknown
  authed : Bool := false
  agentID : String := ""
  pubkey : String := ""
  x25519 : String := ""
  name : String := ""
  auth : AuthKind := .none
  boundName : String := ""
  errCode : String := ""
  helloID : String := ""
  stage : Stage := .absent
  deriving DecidableEq

structure Channel where
  name : String
  pubkey : String := ""
  allowed : List String := []
  members : GoMap Bool := ∅

/-- Hello nonces per pubkey, each with its expiry in nanoseconds. `lastSweep` starts at Go's zero
time, the first of January of the year 1. -/
structure NonceCache where
  seen : GoMap (GoMap ℤ) := ∅
  lastSweep : ℤ := -62135596800000000000

/-- A ring of accepted send ids per pubkey, with the next index to overwrite. -/
structure SendIDCache where
  ids : GoMap (List String) := ∅
  next : GoMap ℕ := ∅

/-- One trace line: the event and its `key=value` pairs. -/
abbrev LogLine := String × List (String × String)

/-- The draw of a source of randomness that gives zeros only. -/
def Digest.zero : Digest := ⟨List.replicate 32 0, rfl⟩

structure Hub where
  clients : GoMap ConnID := ∅
  agents : GoMap AgentEntry := ∅
  /-- The entries taken out of the registry, oldest first, which pointers may still lead to. -/
  evicted : GoMap (List AgentEntry) := ∅
  channels : GoMap Channel := ∅
  mailbox : GoMap (List Frame) := ∅
  mailboxDropped : GoMap Bool := ∅
  nonces : NonceCache := {}
  sendIDs : SendIDCache := {}
  adminToken : String := ""
  masterSecret : String := ""
  secrets : GoMap (List String) := ∅
  channelsFile : Option (Json String) := none
  secretsFile : Option (Json String) := none
  log : List LogLine := []
  /-- The clock, in nanoseconds since the epoch. -/
  clock : ℤ := 0
  /-- The 32-byte outcomes of `crypto/rand`, and how many have been drawn. -/
  entropy : ℕ → Digest := fun _ => Digest.zero
  drawn : ℕ := 0
  conns : ConnID → Conn := fun _ => {}

/-- The sections a goroutine's run is cut into. -/
inductive Label where
  | log
  | receive (c : ConnID)
  | own (c : ConnID)
  | clock
  | config
  | entry
  | entropy
  | mu
  | nonces
  | sendIDs
  | latch
  | targets
  | enqueue (agentID : String) (f : Frame)
  | load (c : ConnID) (r : Reply)
  | reserve (c : ConnID) (r : Reply)
  | release (c : ConnID) (r : Reply)
  | checkClosed (c : ConnID)
  | select (c : ConnID) (r : Reply)
  | closedAs (c : ConnID)
  | drop (c : ConnID)
  | reject (c : ConnID) (r : Reply)
  | awaitClosed (c : ConnID)
  deriving DecidableEq

abbrev HubProc := Proc Hub Label

abbrev HubSection := Section Hub Label

namespace Hub

def updConn (h : Hub) (c : ConnID) (f : Conn → Conn) : Hub :=
  { h with conns := Function.update h.conns c (f (h.conns c)) }

@[simp] theorem updConn_conns_self (h : Hub) (c : ConnID) (f : Conn → Conn) :
    (h.updConn c f).conns c = f (h.conns c) := by simp [updConn]

theorem updConn_conns_of_ne (h : Hub) {c d : ConnID} (f : Conn → Conn) (hd : d ≠ c) :
    (h.updConn c f).conns d = h.conns d := by simp [updConn, hd]

/-- `UnixMilli` of the clock. -/
def nowMS (h : Hub) : Int64 := Int64.ofInt (h.clock / 1000000)

end Hub

/-- Empty values print as `-`. -/
def dash (s : String) : String := if s = "" then "-" else s

def Conn.logAgent (c : Conn) : String := if c.agentID ≠ "" then c.agentID else dash c.helloID

def Hub.logged (h : Hub) (event : String) (kvs : List (String × String)) : Hub :=
  { h with log := h.log ++ [(event, kvs)] }

def logf (event : String) (kvs : Hub → List (String × String)) : HubProc Unit :=
  Proc.modify .log fun h => h.logged event (kvs h)

/-- The first cause of death wins. -/
def Hub.closedAs (h : Hub) (c : ConnID) (reason : CloseReason) : Hub :=
  h.updConn c fun k => if k.reason = .unknown then { k with reason := reason } else k

def Hub.dropped (h : Hub) (c : ConnID) : Hub := h.updConn c fun k => { k with closed := true }

def closedAs (c : ConnID) (reason : CloseReason) : HubProc Unit :=
  Proc.modify (.closedAs c) fun h => h.closedAs c reason

def drop (c : ConnID) : HubProc Unit := Proc.modify (.drop c) fun h => h.dropped c

/-- A write to fields only the connection's own read loop touches. -/
def setOwn (c : ConnID) (f : Conn → Conn) : HubProc Unit :=
  Proc.modify (.own c) fun h => h.updConn c f

end Dap
