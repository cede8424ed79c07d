import Dap.Adapter.CanonicalJson
import Dap.Adapter.SharedFiles
import Dap.Lib.JsMap

/-! The state of the MCP bridge's hub client (`adapters/mcp-bridge/src/client.ts`): its sockets, its
timers, and the calls that wait for the hub. -/
namespace Dap

/-! ### What goes over the wire -/

structure PresenceEntry where
  agentId : String
  name : Option String := none
  online : Option Bool := none
  lastSeen : Option ℤ := none
  deriving DecidableEq

structure PresenceAgent extends PresenceEntry where
  self : Bool
  deriving DecidableEq

structure PeerInfo where
  agentId : String
  pubkey : String
  x25519 : String
  name : Option String
  online : Option Bool
  deriving DecidableEq

structure MsgFrame where
  id : String
  sender : String
  peer : Option String
  channel : Option String
  ciphertext : String
  ts : ℤ
  deriving DecidableEq

/-- A frame of the hub by its `op`, or its `t`. -/
inductive HubFrame where
  | welcome
  | joined (channel : String)
  | agentInfo (info : PeerInfo)
  | presence (replyTo : Option String) (agents : List PresenceEntry)
  | msg (m : MsgFrame)
  | error (code msg : String) (channel : Option String)
  | enrolled (secret : String)
  | other
  | notJson
  deriving DecidableEq

inductive ClientFrame where
  | hello (agentId : String) (name : Option String)
  | flush
  | enroll
  | whois (agentId : String)
  | join (channel chanPubkey : String)
  | presenceQuery (id : String)
  | send (peer channel : Option String) (id ciphertext : String)
  deriving DecidableEq

structure ChannelKey where
  name : String
  pub : String
  priv : Option String
  deriving DecidableEq

structure MsgEvent where
  dm : Bool
  channel : Option String
  sender : String
  text : String
  ts : ℤ
  invite : Option String := none
  deriving DecidableEq

structure HubErrorEvent where
  code : String
  msg : String
  ts : ℤ
  sender : Option String := none
  id : Option String := none
  deriving DecidableEq

/-! ### Calls -/

inductive ClientError where
  | unknownAgent (agentId : String)
  | hubError (code msg : String)
  | timeoutWhois (agentId : String)
  | timeoutJoin (channel : String)
  | timeoutPresence
  | hubNotReady
  | notConnected
  | notOpen
  | stillConnecting
  | retargeted
  | clientStopped
  deriving DecidableEq

def ClientError.message : ClientError → String
  | unknownAgent agentId => "unknown_agent: " ++ agentId
  | hubError code msg => "hub error " ++ code ++ ": " ++ msg
  | timeoutWhois agentId => "timeout whois " ++ agentId
  | timeoutJoin channel => "timeout joining " ++ channel
  | timeoutPresence => "timeout waiting for presence"
  | hubNotReady => "hub not ready"
  | notConnected => "not connected to the hub (reconnecting with backoff — retry in a moment)"
  | notOpen => "not connected"
  | stillConnecting => "WebSocket is not open: readyState 0 (CONNECTING)"
  | retargeted => "retargeted — in-flight hub call dropped, retry on the new connection"
  | clientStopped => "connection closed — client stopped"

/-- A promise the client has handed out, or awaits itself. -/
inductive Call where
  | ready
  | join (channel : String)
  | whois (agentId : String)
  | presence (id : String)
  deriving DecidableEq

inductive Settlement where
  | done
  | info (p : PeerInfo)
  | agents (as : List PresenceAgent)
  | rejected (e : ClientError)
  deriving DecidableEq

/-- `presence()` parks a call; the warm-up parks its attempt. -/
inductive PresenceWaiter where
  | call (r : ℕ)
  | warmUp (attempt : ℕ)
  deriving DecidableEq

/-- What runs once an awaited promise is settled. -/
inductive Kont where
  | join (r : ℕ) (name chanPubkey : String)
  | decrypt (m : MsgFrame)
  | deliverInvites
  deriving DecidableEq

/-! ### The state -/

inductive AuthSource where
  | env
  | config
  | master
  deriving DecidableEq

structure Auth where
  token : String
  enroll : Bool
  source : AuthSource

/-- The environment variables a dial reads. -/
structure Env where
  clientSecret : Option String := none
  masterSecret : Option String := none

def resolveAuthToken (env : Env) (config : Option DapFileConfig) : Option Auth :=
  match optStr env.clientSecret with
  | some token => some ⟨token, false, .env⟩
  | none =>
    match optStr (readDapConfig config).clientSecret with
    | some token => some ⟨token, false, .config⟩
    | none => (optStr env.masterSecret).map fun token => ⟨token, true, .master⟩

inductive ReadyState where
  | connecting
  | opened
  | closing
  | closed
  deriving DecidableEq

inductive SocketEvent where
  | opened
  | message (f : HubFrame)
  | closed
  | error (err : String)
  | unexpectedResponse (code : ℕ)
  deriving DecidableEq

/-- `attached` until the client removes its listeners. -/
structure Socket where
  url : String
  token : Option String
  readyState : ReadyState
  attached : Bool
  deriving DecidableEq

/-- `openMsg` is `open` of `crypto.ts` with the keys still in base64, `keyLength` the length of a
decoded key. -/
structure Codec where
  toLowerCase : String → String
  keyLength : String → ℕ
  openMsg : String → String → String → String → String → Except String String

/-- `parseChankeyInvite`. -/
def Codec.parseInvite (c : Codec) (text : String) : Option ChannelKey :=
  if text.toList.head? ≠ some '{' then none
  else match (JsParse.parse text.toList).map JsValue.ofJson with
    | some (.obj v) =>
      match JsFrame.get v "t", JsFrame.get v "channel", JsFrame.get v "pub",
        JsFrame.get v "priv" with
      | .str t, .str channel, .str pub, .str priv =>
        if t = JsString.ofString "chankey" ∧ c.keyLength pub.scalars = 32 ∧
            c.keyLength priv.scalars = 32 then
          some ⟨channel.scalars, pub.scalars, some priv.scalars⟩
        else none
      | _, _, _, _ => none
    | _ => none

/-- The options of a client, with what its key file and its channels file hold. -/
structure ClientOpts where
  url : String
  name : Option String := none
  invites : Bool := false
  agentId : String
  xpriv : String
  fileChannels : List ChannelKey := []
  channels : List ChannelKey := []
  initialMs : ℕ := 1000
  maxMs : ℕ := 30000
  codec : Codec
  uuid : ℕ → String

/-- Sockets, calls and timers are numbered in the order they are made. -/
structure BridgeClient where
  url : String
  name : Option String
  invites : Bool
  agentId : String
  xpriv : String
  initialMs : ℕ
  maxMs : ℕ
  codec : Codec
  uuid : ℕ → String
  env : Env := {}
  config : Option DapFileConfig := none
  now : ℤ := 0
  sockets : List Socket := []
  ws : Option ℕ := none
  watched : Option ℕ := none
  timers : List ℕ := []
  nextTimer : ℕ := 0
  retryTimer : Option ℕ := none
  inviteTimer : Bool := false
  delay : ℕ
  stopped : Bool := false
  welcomed : Bool := false
  hellos : ℕ := 0
  welcomes : ℕ := 0
  whoisCalls : ℕ := 0
  drawn : ℕ := 0
  enrollPending : Bool := false
  dialSource : Option AuthSource := none
  reEnrolled : Bool := false
  lastError : String := ""
  errorRing : List HubErrorEvent := []
  inboxMsgs : List MsgEvent := []
  channels : JsMap String ChannelKey := ∅
  joined : List String := []
  known : JsMap String PeerInfo := ∅
  echoSeen : Bool := false
  readyWaiters : List ℕ := []
  whoisWaiters : JsMap String (List ℕ) := ∅
  joinWaiters : JsMap String (List ℕ) := ∅
  presenceWaiters : JsMap String (List PresenceWaiter) := ∅
  pendingInvites : List PendingInvite := []
  deliveringInvites : Bool := false
  calls : List Call := []
  settled : List (ℕ × Settlement) := []
  tasks : List (ℕ × Kont) := []
  sent : List (ℕ × ClientFrame) := []
  uncaught : Bool := false

namespace BridgeClient

/-- The constructor. -/
def create (opts : ClientOpts) (env : Env) (config : Option DapFileConfig) (now : ℤ) :
    BridgeClient :=
  { url := opts.url
    name := opts.name
    invites := opts.invites
    agentId := opts.agentId
    xpriv := opts.xpriv
    initialMs := opts.initialMs
    maxMs := opts.maxMs
    codec := opts.codec
    uuid := opts.uuid
    env
    config
    now
    delay := opts.initialMs
    channels := (opts.fileChannels ++ opts.channels).foldl (fun m ch => m.set ch.name ch) ∅
    pendingInvites := if opts.invites then (readDapConfig config).invites.getD [] else [] }

def inboxCap : ℕ := 100
def errorsCap : ℕ := 20

def dial401Help : String :=
  "hub rejected connection (HTTP 401): set DAP_MASTER_SECRET to enroll, " ++
    "or DAP_CLIENT_SECRET / config clientSecret to connect"

/-! ### Sockets and timers -/

def readyState (s : BridgeClient) (i : ℕ) : Option ReadyState :=
  (s.sockets[i]?).map Socket.readyState

def setReadyState (s : BridgeClient) (i : ℕ) (st : ReadyState) : BridgeClient :=
  { s with sockets := s.sockets.modify i fun w => { w with readyState := st } }

def connected (s : BridgeClient) : Bool :=
  s.welcomed && s.ws.any fun i => s.readyState i = some .opened

/-- `close` and `terminate`: the `close` event is still to come. -/
def closeSocket (s : BridgeClient) (i : ℕ) : BridgeClient :=
  if s.readyState i = some .closed then s else s.setReadyState i .closing

/-- `this.ws?.send`: it throws on a socket that is still connecting. -/
def post (s : BridgeClient) (f : ClientFrame) : Option BridgeClient :=
  match s.ws with
  | none => some s
  | some i =>
    match s.readyState i with
    | some .opened => some { s with sent := s.sent ++ [(i, f)] }
    | some .connecting => none
    | _ => some s

/-- An exception in a handler ends it. -/
def throws (s : BridgeClient) : BridgeClient := { s with uncaught := true }

def sendFrame (s : BridgeClient) (f : ClientFrame) : Except ClientError BridgeClient :=
  match s.ws with
  | none => .error .notOpen
  | some i =>
    if s.readyState i = some .opened then .ok { s with sent := s.sent ++ [(i, f)] }
    else .error .notOpen

def clearRetry (s : BridgeClient) : BridgeClient :=
  { s with
    timers := s.retryTimer.elim s.timers fun t => s.timers.filter (· ≠ t)
    retryTimer := none }

def connect (s : BridgeClient) : BridgeClient :=
  if s.stopped then s
  else
    let auth := resolveAuthToken s.env s.config
    { s with
      enrollPending := auth.any Auth.enroll
      dialSource := auth.map Auth.source
      ws := some s.sockets.length
      sockets := s.sockets ++ [⟨s.url, auth.map Auth.token, .connecting, true⟩] }

/-! ### Settling calls -/

def isSettled (s : BridgeClient) (r : ℕ) : Bool := s.settled.any fun e => e.1 = r

/-- A promise is settled once. -/
def settle (s : BridgeClient) (o : Settlement) (r : ℕ) : BridgeClient :=
  if s.isSettled r then s else { s with settled := s.settled ++ [(r, o)] }

def settleAll (s : BridgeClient) (o : Settlement) (rs : List ℕ) : BridgeClient :=
  rs.foldl (fun s r => s.settle o r) s

def newCall (s : BridgeClient) (c : Call) : BridgeClient := { s with calls := s.calls ++ [c] }

def await (s : BridgeClient) (r : ℕ) (k : Kont) : BridgeClient :=
  { s with tasks := s.tasks ++ [(r, k)] }

def ringError (s : BridgeClient) (e : HubErrorEvent) : BridgeClient :=
  let ring := s.errorRing ++ [e]
  { s with errorRing := if ring.length > errorsCap then ring.drop 1 else ring }

def deliver (s : BridgeClient) (ev : MsgEvent) : BridgeClient :=
  let msgs := s.inboxMsgs ++ [ev]
  { s with inboxMsgs := if msgs.length > inboxCap then msgs.drop 1 else msgs }

end BridgeClient

end Dap
