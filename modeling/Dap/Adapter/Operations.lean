import Dap.Adapter.BridgeClient
import Dap.Adapter.Crypto

/-! The operations of the bridge that await others (`send`, `dm`, `invite`, `inviteByName` and the
delivery of pending invites in `adapters/mcp-bridge/src/client.ts`, `dap_connect` in `server.ts`),
over the calls of its client and the channels file. -/
namespace Dap

/-! ### What operations return -/

structure SendResult where
  id : String
  sender : String
  recipient : Option String := none
  channel : Option String := none
  chanPubkey : Option String := none
  created : Bool := false
  deriving DecidableEq

structure ArmedInvite where
  name : String
  channel : String
  connectLine : String
  deriving DecidableEq

inductive OpResult where
  | channel (ch : ChannelKey) (created : Bool)
  | sent (r : SendResult)
  | armed (r : ArmedInvite)
  deriving DecidableEq

inductive OpError where
  | client (e : ClientError)
  | noKey (agentId : String)
  | noPrivateKey (channel : String)
  | ambiguous (who : String) (ids : List String)
  | nothingToConnect
  | notSealed (msg : String)
  deriving DecidableEq

def OpError.message : OpError → String
  | client e => e.message
  | noKey agentId => "agent " ++ agentId ++ " has no x25519 key"
  | noPrivateKey channel =>
    "no private key for channel " ++ channel ++ " — ask a member to invite you"
  | ambiguous who ids => "\"" ++ who ++ "\" is ambiguous — use an id: " ++ ", ".intercalate ids
  | nothingToConnect => "host or name required"
  | notSealed msg => msg

/-! ### Operations at an `await` -/

/-- `armInvite` is private, and called by `inviteByName`. -/
inductive Op where
  | ensureChannel (name : String)
  | ensureChannelKeys (name : String)
  | send (channel text : String)
  | dm (recipient text : String)
  | invite (channel recipient : String)
  | inviteByName (channel who : String)
  | armInvite (name channel : String)
  | connect (url : Option String) (keys : Option (String × String)) (name channel : Option String)

/-- Who awaits an `invite`: the operation itself, or a delivery pass at its `i`th entry. -/
inductive InviteFor where
  | caller (op : ℕ)
  | pass (i : ℕ) (agents : List PresenceAgent)

inductive EnsureFor where
  | caller (op : ℕ)
  | send (op : ℕ) (text : String)
  | invite (recipient : String) (w : InviteFor)
  | arm (op : ℕ) (name : String)

inductive DmFor where
  | caller (op : ℕ)
  | invite (channel : String) (ch : ChannelKey) (created : Bool) (w : InviteFor)

/-- What is left of an operation once the call it awaits is settled. -/
inductive Flow where
  | ensure (channel : String) (ch : ChannelKey) (created : Bool) (w : EnsureFor)
  | send (op : ℕ) (channel : String) (ch : ChannelKey) (created : Bool) (text : String)
  | info (recipient text : String) (w : DmFor)
  | ready (recipient text xPub : String) (w : DmFor)
  | named (op : ℕ) (channel who : String)

/-- A delivery pass whose `invite` is settled. -/
structure InviteReturn where
  result : Except OpError SendResult
  i : ℕ
  agents : List PresenceAgent

/-- `channelsFile` is the file's content, where there is one. Keys, ids and ciphertexts are numbered
in the order they are made; `seal` throws on a key of the wrong length. -/
structure Bridge where
  client : BridgeClient
  channelsFile : Option (Option (Record StoredKeys)) := none
  newKeypair : ℕ → ChannelKeys
  msgId : ℕ → String
  sealMsg : ℕ → String → String → String → String → String → Except String String
  created : ℕ := 0
  posted : ℕ := 0
  ops : ℕ := 0
  results : List (ℕ × Except OpError OpResult) := []
  flows : List (ℕ × Flow) := []
  returns : List InviteReturn := []

/-- `JSON.stringify` of an invite. -/
def chankeyText (channel pub priv : String) : String :=
  ((JsValue.obj [("t", .str "chankey"), ("channel", .str channel), ("pub", .str pub),
    ("priv", .str priv)]).stringify.getD []).scalars

def isAgentId (who : String) : Bool :=
  who.length = 16 && who.toList.all fun c => ('0' ≤ c && c ≤ '9') || ('a' ≤ c && c ≤ 'f')

def dropStart (start l : List Char) : Option (List Char) :=
  if start.isPrefixOf l then some (l.drop start.length) else none

def hostOf (url : String) : String :=
  let l := url.toList
  let l := (dropStart "wss://".toList l <|> dropStart "ws://".toList l).getD l
  String.ofList (if "/ws".toList.isSuffixOf l then l.take (l.length - 3) else l)

namespace BridgeClient

/-- Whom `inviteByName` finds under a name. -/
def matching (s : BridgeClient) (who : String) (agents : List PresenceAgent) :
    List PresenceAgent :=
  agents.filter fun a => a.name.map s.codec.toLowerCase = some (s.codec.toLowerCase who)

/-- Whom the delivery pass finds for a pending invite. -/
def onlineFor (s : BridgeClient) (pending : PendingInvite) (agents : List PresenceAgent) :
    List PresenceAgent :=
  agents.filter fun a =>
    a.agentId ≠ s.agentId ∧ a.name.map s.codec.toLowerCase = some (s.codec.toLowerCase pending.name)

/-- The agents a delivery pass goes on with when an event resumes it. -/
def passOf (s : BridgeClient) : BridgeEvent → Option (List PresenceAgent)
  | .task n =>
    match s.tasks[n]? with
    | some (r, .deliverInvites) =>
      match s.settled.lookup r with
      | some (.agents agents) => some agents
      | _ => none
    | _ => none
  | _ => none

/-- The invite that an event decrypts. -/
def chankeyOf (s : BridgeClient) : BridgeEvent → Option ChannelKey
  | .task n =>
    match s.tasks[n]? with
    | some (r, .decrypt m) =>
      match s.settled.lookup r with
      | some (.info sender) =>
        match s.decryptMsg m sender with
        | .ok ev => if ev.dm then s.codec.parseInvite ev.text else none
        | .error _ => none
      | _ => none
    | _ => none
  | _ => none

/-- The events by which the operations below drive their client. -/
def drives : BridgeEvent → Bool
  | .armInvite _ _ | .invited _ | .invitesDone | .send _ _ _ _ => true
  | _ => false

end BridgeClient

namespace Bridge

/-! ### Ending an operation, and awaiting a call -/

def resolve (s : Bridge) (op : ℕ) (r : OpResult) : Bridge :=
  { s with results := s.results ++ [(op, .ok r)] }

def reject (s : Bridge) (op : ℕ) (e : OpError) : Bridge :=
  { s with results := s.results ++ [(op, .error e)] }

/-- The client makes a call, which is awaited. -/
def await (s : Bridge) (client : BridgeClient) (f : Flow) : Bridge :=
  { s with client, flows := s.flows ++ [(s.client.calls.length, f)] }

/-! ### Channels -/

def persistChannel (s : Bridge) (name : String) (keys : ChannelKeys) : Bridge :=
  { s with
    channelsFile := s.channelsFile.map fun file => some (persistChannelKeys file (name, keys)) }

/-- `ensureChannelKeys`, and the key it returns. -/
def ensureChannelKeys (s : Bridge) (name : String) : Bridge × ChannelKey :=
  match s.client.channels.get name with
  | some known => (s, known)
  | none =>
    let keys := s.newKeypair s.created
    let ch : ChannelKey := ⟨name, keys.pub, some keys.priv⟩
    let client := { s.client with channels := s.client.channels.set name ch }
    ({ s with client, created := s.created + 1 }.persistChannel name keys, ch)

/-- `ensureChannel` up to its `join`. -/
def ensureChannel (s : Bridge) (name : String) (w : EnsureFor) : Bridge :=
  match s.client.channels.get name with
  | some known => s.await (s.client.join name known.pub) (.ensure name known false w)
  | none =>
    let (s, ch) := s.ensureChannelKeys name
    s.await (s.client.join name ch.pub) (.ensure name ch true w)

def invite (s : Bridge) (channel recipient : String) (w : InviteFor) : Bridge :=
  s.ensureChannel channel (.invite recipient w)

/-! ### The delivery pass -/

def endPass (s : Bridge) : Bridge :=
  { s with client := { s.client with deliveringInvites := false } }

/-- The loop of `deliverPendingInvites` with `n` entries to go through, up to its next `await`. -/
def deliverFrom (s : Bridge) (agents : List PresenceAgent) : ℕ → Bridge
  | 0 => s.endPass
  | i + 1 =>
    match s.client.pendingInvites[i]? with
    | none => s.endPass
    | some pending =>
      match s.client.onlineFor pending agents with
      | [agent] => s.invite pending.channel agent.agentId (.pass i agents)
      | _ => s.deliverFrom agents i

/-- A pass goes on once its `invite` is settled. -/
def passOn (s : Bridge) (ret : InviteReturn) : Bridge :=
  match ret.result with
  | .ok _ => { s with client := s.client.invited ret.i }.deliverFrom ret.agents ret.i
  | .error _ => s.deliverFrom ret.agents ret.i

def inviteFailed (s : Bridge) (e : OpError) : InviteFor → Bridge
  | .caller op => s.reject op e
  | .pass i agents => { s with returns := s.returns ++ [⟨.error e, i, agents⟩] }

def inviteSent (s : Bridge) (r : SendResult) : InviteFor → Bridge
  | .caller op => s.resolve op (.sent r)
  | .pass i agents => { s with returns := s.returns ++ [⟨.ok r, i, agents⟩] }

/-! ### Messages -/

def signAndSend (s : Bridge) (peer channel : Option String) (text xPub : String) :
    Except OpError (Bridge × String) :=
  let id := s.msgId s.posted
  let aad := (peer <|> channel).getD ""
  match s.sealMsg s.posted text id aad s.client.xpriv xPub with
  | .error msg => .error (.notSealed msg)
  | .ok ciphertext =>
    match s.client.sendFrame (.send peer channel id ciphertext) with
    | .ok client => .ok ({ s with client, posted := s.posted + 1 }, id)
    | .error e => .error (.client e)

def dmFailed (s : Bridge) (e : OpError) : DmFor → Bridge
  | .caller op => s.reject op e
  | .invite _ _ _ w => s.inviteFailed e w

def dmSent (s : Bridge) (r : SendResult) : DmFor → Bridge
  | .caller op => s.resolve op (.sent r)
  | .invite channel ch created w =>
    s.inviteSent { r with channel := some channel, chanPubkey := some ch.pub, created } w

/-- `dm` up to its lookup. -/
def dm (s : Bridge) (recipient text : String) (w : DmFor) : Bridge :=
  if !s.client.connected then s.dmFailed (.client .notConnected) w
  else s.await (s.client.agentInfo recipient) (.info recipient text w)

/-- `dm` once the peer is known. -/
def dmInfo (s : Bridge) (recipient text : String) (info : PeerInfo) (w : DmFor) : Bridge :=
  if info.x25519 = "" ∨ s.client.codec.keyLength info.x25519 = 0 then
    s.dmFailed (.noKey recipient) w
  else s.await s.client.ready (.ready recipient text info.x25519 w)

/-- `dm` once the hub is ready. -/
def dmReady (s : Bridge) (recipient text xPub : String) (w : DmFor) : Bridge :=
  match s.signAndSend (some recipient) none text xPub with
  | .ok (s, id) => s.dmSent { id, sender := s.client.agentId, recipient := some recipient } w
  | .error e => s.dmFailed e w

/-- `send` once the hub is ready. -/
def sendReady (s : Bridge) (op : ℕ) (channel : String) (ch : ChannelKey) (created : Bool)
    (text : String) : Bridge :=
  match s.signAndSend none (some channel) text ch.pub with
  | .ok (s, id) =>
    s.resolve op (.sent
      { id
        sender := s.client.agentId
        channel := some channel
        chanPubkey := some ch.pub
        created })
  | .error e => s.reject op e

/-! ### After `ensureChannel` -/

def ensureFailed (s : Bridge) (e : ClientError) : EnsureFor → Bridge
  | .caller op | .send op _ | .arm op _ => s.reject op (.client e)
  | .invite _ w => s.inviteFailed (.client e) w

def ensured (s : Bridge) (channel : String) (ch : ChannelKey) (created : Bool) :
    EnsureFor → Bridge
  | .caller op => s.resolve op (.channel ch created)
  | .send op text => s.await s.client.ready (.send op channel ch created text)
  | .invite recipient w =>
    match optStr ch.priv with
    | none => s.inviteFailed (.noPrivateKey channel) w
    | some priv => s.dm recipient (chankeyText channel ch.pub priv) (.invite channel ch created w)
  | .arm op name =>
    { s with client := s.client.armInvite name channel }.resolve op (.armed
      { name
        channel
        connectLine := "send to " ++ name ++ ":  /dap " ++ hostOf s.client.url ++ " " ++ name })

/-- `inviteByName` once it knows who is there. -/
def inviteNamed (s : Bridge) (op : ℕ) (channel who : String) (agents : List PresenceAgent) :
    Bridge :=
  match s.client.matching who agents with
  | [] => s.ensureChannel channel (.arm op who)
  | [agent] => s.invite channel agent.agentId (.caller op)
  | agents => s.reject op (.ambiguous who (agents.map fun a => a.agentId))

def resume (s : Bridge) : Flow → Settlement → Bridge
  | .ensure _ _ _ w, .rejected e => s.ensureFailed e w
  | .ensure channel ch created w, _ => s.ensured channel ch created w
  | .send op _ _ _ _, .rejected e => s.reject op (.client e)
  | .send op channel ch created text, _ => s.sendReady op channel ch created text
  | .info recipient text w, .info info => s.dmInfo recipient text info w
  | .info _ _ w, .rejected e => s.dmFailed (.client e) w
  | .info _ _ _, _ => s
  | .ready _ _ _ w, .rejected e => s.dmFailed (.client e) w
  | .ready recipient text xPub w, _ => s.dmReady recipient text xPub w
  | .named op channel who, .agents agents => s.inviteNamed op channel who agents
  | .named op _ _, .rejected e => s.reject op (.client e)
  | .named _ _ _, _ => s

/-! ### Events -/

/-- `dap_connect`. -/
def connect (s : Bridge) (op : ℕ) (url : Option String) (keys : Option (String × String))
    (name channel : Option String) : Bridge :=
  if (optStr url).isNone ∧ (optStr name).isNone then s.reject op .nothingToConnect
  else
    let s := (optStr channel).elim s fun ch => (s.ensureChannelKeys ch).1
    let config := persistDapConfig s.client.config
      { url, name, channels := (optStr channel).map fun ch => [ch] }
    { s with client := { s.client with config := some config }.retarget { url, keys, name } }

def call (s : Bridge) (op : Op) : Bridge :=
  let n := s.ops
  let s := { s with ops := s.ops + 1 }
  match op with
  | .ensureChannel name => s.ensureChannel name (.caller n)
  | .ensureChannelKeys name => (s.ensureChannelKeys name).1
  | .send channel text =>
    if !s.client.connected then s.reject n (.client .notConnected)
    else s.ensureChannel channel (.send n text)
  | .dm recipient text => s.dm recipient text (.caller n)
  | .invite channel recipient => s.invite channel recipient (.caller n)
  | .inviteByName channel who =>
    if !s.client.connected then s.reject n (.client .notConnected)
    else if isAgentId who then s.invite channel who (.caller n)
    else s.await s.client.presence (.named n channel who)
  | .armInvite name channel => s.ensureChannel channel (.arm n name)
  | .connect url keys name channel => s.connect n url keys name channel

def runFlow (s : Bridge) (n : ℕ) : Bridge :=
  match s.flows[n]? with
  | none => s
  | some (r, f) =>
    match s.client.settled.lookup r with
    | none => s
    | some o => { s with flows := s.flows.eraseIdx n }.resume f o

def runPass (s : Bridge) (n : ℕ) : Bridge :=
  match s.returns[n]? with
  | none => s
  | some ret => { s with returns := s.returns.eraseIdx n }.passOn ret

/-- An event of the client, with what it leaves in the channels file and whom it wakes. -/
def clientStep (s : Bridge) (e : BridgeEvent) : Bridge :=
  let next := { s with client := s.client.step e }
  match s.client.passOf e, s.client.chankeyOf e with
  | some agents, _ => next.deliverFrom agents next.client.pendingInvites.length
  | none, some ⟨name, pub, some priv⟩ => next.persistChannel name ⟨pub, priv⟩
  | none, _ => next

end Bridge

/-- `restart` is a new process, which reads the two files. -/
inductive OpEvent where
  | client (e : BridgeEvent)
  | call (op : Op)
  | flow (n : ℕ)
  | pass (n : ℕ)
  | restart (opts : ClientOpts) (env : Env) (now : ℤ)

namespace Bridge

def storedChannels (s : Bridge) : List ChannelKey :=
  (s.channelsFile.elim ∅ loadChannelKeys).toList.map fun e => ⟨e.1, e.2.pub, some e.2.priv⟩

def restart (s : Bridge) (opts : ClientOpts) (env : Env) (now : ℤ) : Bridge :=
  { s with
    client := .create
      { opts with
        fileChannels := s.storedChannels
        codec := s.client.codec } env s.client.config now
    results := []
    flows := []
    returns := [] }

def step (s : Bridge) : OpEvent → Bridge
  | .client e => if BridgeClient.drives e then s else s.clientStep e
  | .call op => s.call op
  | .flow n => s.runFlow n
  | .pass n => s.runPass n
  | .restart opts env now => s.restart opts env now

def run (s : Bridge) (es : List OpEvent) : Bridge := es.foldl step s

end Bridge

end Dap
