import Dap.Lib.GoJson

/-! DAP/1 wire frames and their parsing (`hub/frames.go`). -/
namespace Dap
open GoJson

def codeBadSig := "bad_signature"
def codeStaleTS := "stale_ts"
def codeReplay := "replayed_nonce"
def codeNotAuth := "not_authenticated"
def codeDenied := "access_denied"
def codeUnknownChannel := "unknown_channel"
def codeUnknownAgent := "unknown_agent"
def codeMailboxFull := "mailbox_full"
def codeBadFrame := "bad_frame"

/-- One entry of a presence list. -/
structure AgentInfo where
  agentID : String := ""
  pubkey : String := ""
  x25519 : String := ""
  name : String := ""
  online : Bool := false
  lastSeen : Int64 := 0
  deriving DecidableEq

/-- The union of every DAP/1 frame. -/
structure Frame where
  op : String := ""
  v : Int64 := 0
  pubkey : String := ""
  x25519 : String := ""
  name : String := ""
  nonce : String := ""
  ts : Int64 := 0
  sig : String := ""
  agentID : String := ""
  online : Option Bool := none
  lastSeen : Int64 := 0
  channel : String := ""
  chanPubkey : String := ""
  «to» : String := ""
  «from» : String := ""
  id : String := ""
  replyTo : String := ""
  ciphertext : String := ""
  count : Int64 := 0
  agents : List AgentInfo := []
  code : String := ""
  msg : String := ""
  deriving DecidableEq

/-- The decoded object used for signature checks: keys in order, each once. -/
abbrev Raw := Members

/-! ### Encoding -/

def AgentInfo.members (a : AgentInfo) : Members :=
  ("agentId", .str a.agentID) :: ("pubkey", .str a.pubkey) ::
    (strOmitEmpty "x25519" a.x25519 ++ strOmitEmpty "name" a.name ++
      ("online", .bool a.online) :: intOmitEmpty "lastSeen" a.lastSeen)

def onlineMember : Option Bool → Members
  | none => []
  | some b => [("online", .bool b)]

def agentsMember (agents : List AgentInfo) : Members :=
  if agents = [] then [] else [("agents", .arr (agents.map fun a => .obj a.members))]

def Frame.members (f : Frame) : Members :=
  ("op", .str f.op) ::
    (intOmitEmpty "v" f.v ++ strOmitEmpty "pubkey" f.pubkey ++ strOmitEmpty "x25519" f.x25519 ++
      strOmitEmpty "name" f.name ++ strOmitEmpty "nonce" f.nonce ++ intOmitEmpty "ts" f.ts ++
      strOmitEmpty "sig" f.sig ++ strOmitEmpty "agentId" f.agentID ++ onlineMember f.online ++
      intOmitEmpty "lastSeen" f.lastSeen ++ strOmitEmpty "channel" f.channel ++
      strOmitEmpty "chanPubkey" f.chanPubkey ++ strOmitEmpty "to" f.to ++
      strOmitEmpty "from" f.from ++ strOmitEmpty "id" f.id ++ strOmitEmpty "replyTo" f.replyTo ++
      strOmitEmpty "ciphertext" f.ciphertext ++ intOmitEmpty "count" f.count ++
      agentsMember f.agents ++ strOmitEmpty "code" f.code ++ strOmitEmpty "msg" f.msg)

/-- Anything the hub queues for a connection: a frame, or the frozen enroll reply. -/
inductive Reply where
  | frame (f : Frame)
  | enrolled (secret : String)
  deriving DecidableEq

def Reply.json : Reply → Json String
  | .frame f => .obj f.members
  | .enrolled secret => .obj [("t", .str "enrolled"), ("secret", .str secret)]

/-- `len(json.Marshal(f))`. -/
def Reply.length (r : Reply) : ℕ := (Bytes.utf8 (marshal r.json)).length

/-! ### Decoding -/

def agentFields : List String := ["agentId", "pubkey", "x25519", "name", "online", "lastSeen"]

def AgentInfo.decodeMember (a : AgentInfo) (member : String × Json String) : Option AgentInfo :=
  match matchField agentFields member.1 with
  | some "agentId" => (decodeString a.agentID member.2).map fun s => { a with agentID := s }
  | some "pubkey" => (decodeString a.pubkey member.2).map fun s => { a with pubkey := s }
  | some "x25519" => (decodeString a.x25519 member.2).map fun s => { a with x25519 := s }
  | some "name" => (decodeString a.name member.2).map fun s => { a with name := s }
  | some "online" => (decodeBool a.online member.2).map fun b => { a with online := b }
  | some "lastSeen" => (decodeInt a.lastSeen member.2).map fun n => { a with lastSeen := n }
  | _ => some a

def AgentInfo.decode : AgentInfo → Json String → Option AgentInfo :=
  decodeStruct AgentInfo.decodeMember

/-- A frame being decoded, with the slice behind its `agents`. -/
structure Decoding where
  frame : Frame := {}
  agents : Slice AgentInfo := {}

def Decoding.decodeAgents (d : Decoding) (v : Json String) : Option Decoding :=
  (d.agents.decode AgentInfo.decode {} v).map fun s =>
    ⟨{ d.frame with agents := s.elems }, s⟩

def frameFields : List String :=
  ["op", "v", "pubkey", "x25519", "name", "nonce", "ts", "sig", "agentId", "online", "lastSeen",
    "channel", "chanPubkey", "to", "from", "id", "replyTo", "ciphertext", "count", "agents", "code",
    "msg"]

def Decoding.decodeMember (d : Decoding) (member : String × Json String) : Option Decoding :=
  let f := d.frame
  let v := member.2
  let str (old : String) (put : String → Frame) : Option Decoding :=
    (decodeString old v).map fun s => { d with frame := put s }
  let int (old : Int64) (put : Int64 → Frame) : Option Decoding :=
    (decodeInt old v).map fun n => { d with frame := put n }
  match matchField frameFields member.1 with
  | some "op" => str f.op fun s => { f with op := s }
  | some "v" => int f.v fun n => { f with v := n }
  | some "pubkey" => str f.pubkey fun s => { f with pubkey := s }
  | some "x25519" => str f.x25519 fun s => { f with x25519 := s }
  | some "name" => str f.name fun s => { f with name := s }
  | some "nonce" => str f.nonce fun s => { f with nonce := s }
  | some "ts" => int f.ts fun n => { f with ts := n }
  | some "sig" => str f.sig fun s => { f with sig := s }
  | some "agentId" => str f.agentID fun s => { f with agentID := s }
  | some "online" => (decodeBoolPtr v).map fun b => { d with frame := { f with online := b } }
  | some "lastSeen" => int f.lastSeen fun n => { f with lastSeen := n }
  | some "channel" => str f.channel fun s => { f with channel := s }
  | some "chanPubkey" => str f.chanPubkey fun s => { f with chanPubkey := s }
  | some "to" => str f.to fun s => { f with «to» := s }
  | some "from" => str f.from fun s => { f with «from» := s }
  | some "id" => str f.id fun s => { f with id := s }
  | some "replyTo" => str f.replyTo fun s => { f with replyTo := s }
  | some "ciphertext" => str f.ciphertext fun s => { f with ciphertext := s }
  | some "count" => int f.count fun n => { f with count := n }
  | some "agents" => d.decodeAgents v
  | some "code" => str f.code fun s => { f with code := s }
  | some "msg" => str f.msg fun s => { f with msg := s }
  | _ => some d

/-- The typed view and the raw object of one wire frame. -/
def parseFrame (data : Bytes) : Option (Frame × Raw) :=
  match Json.parse (Bytes.runes 0 data) with
  | some (.obj members) =>
    (members.foldlM Decoding.decodeMember {}).map fun d => (d.frame, toAnyMembers members)
  | some .null => some ({}, [])
  | _ => none

/-- The dispatch key: `op`, else the legacy `t` of the enrollment frames. -/
def frameOp (f : Frame) (raw : Raw) : String :=
  if f.op ≠ "" then f.op
  else match raw.lookup "t" with
    | some (.str t) => t
    | _ => ""

/-- An error carrying a spec error code. -/
structure ProtoError where
  code : String
  msg : String
  deriving DecidableEq

end Dap
