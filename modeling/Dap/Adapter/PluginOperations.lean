import Dap.Adapter.Deliveries
import Dap.Adapter.PluginClient

/-! The operations of the dsh plugin that await others, and its delivery of pending invites
(`adapters/dsh-plugin/src/client.ts`, `index.ts`). -/
namespace Dap

inductive PluginResult where
  | done
  | armed (r : ArmedInvite) (hint : String)

/-- Who awaits a `dm`. -/
inductive PluginDmFor where
  | caller (op : ℕ)
  | invite (channel : String) (w : InviteFor)

/-- What is left of an operation at an `await`: of a `presence()` call, of `agentInfo` (with what it
had `cached`), or of `whenReady`. -/
inductive PluginFlow where
  | named (r op : ℕ) (who channel : String)
  | deliver (r : ℕ)
  | info (recipient text : String) (cached : Option PeerInfo) (w : PluginDmFor)
  | ready (recipient text xPub : String) (w : PluginDmFor)
  | send (op : ℕ) (channel text : String) (ch : ChannelKey)

/-- What `agentInfo` and `whenReady` come to. -/
inductive PluginAnswer where
  | info (p : PeerInfo)
  | ready
  | failed (msg : String)

/-- A delivery pass whose `invite` is settled: with the id of its message. -/
structure PluginReturn where
  result : Except String String
  i : ℕ
  agents : List PresenceAgent

inductive PluginOp where
  | send (channel text : String)
  | dm (recipient text : String)
  | invite (recipient channel : String)
  | dapInvite (who : String) (channel : Option String)
  | ensureChannel (channel : String)
  | connect (url : Option String) (keys : Option (String × String)) (name channel : Option String)

/-- `channelsFile` is the file's content, where the plugin uses one; `url` is that of its settings;
`seal` throws on a key of the wrong length. -/
structure Plugin where
  client : PluginClient
  codec : Codec
  url : String
  xPriv : String
  channels : JsMap String ChannelKey := ∅
  known : JsMap String PeerInfo := ∅
  channelsFile : Option (Option (Record StoredKeys)) := none
  config : Option DapFileConfig := none
  pendingInvites : List PendingInvite := []
  delivering : Bool := false
  newKeypair : ℕ → ChannelKeys
  msgId : ℕ → String
  sealMsg : ℕ → String → String → String → String → String → Except String String
  created : ℕ := 0
  posted : ℕ := 0
  ops : ℕ := 0
  results : List (ℕ × Except String PluginResult) := []
  flows : List PluginFlow := []
  returns : List PluginReturn := []

namespace Plugin

def hint : String := "first connect needs DAP_MASTER_SECRET set (enrolls once, then stored)"

def resolve (s : Plugin) (op : ℕ) (r : PluginResult) : Plugin :=
  { s with results := s.results ++ [(op, .ok r)] }

def reject (s : Plugin) (op : ℕ) (msg : String) : Plugin :=
  { s with results := s.results ++ [(op, .error msg)] }

def park (s : Plugin) (f : PluginFlow) : Plugin := { s with flows := s.flows ++ [f] }

/-! ### Channels -/

/-- `join`, and whether `ws.send` throws. -/
def join (s : Plugin) (channel pub : String) : Plugin × Bool :=
  ({ s with client := s.client.post (.join channel pub) },
    s.client.ws.any fun i => s.client.sockets[i]? = some .connecting)

def persistChannel (s : Plugin) (name : String) (keys : ChannelKeys) : Plugin :=
  { s with
    channelsFile := s.channelsFile.map fun file => some (persistChannelKeys file (name, keys)) }

/-- `createChannel` up to its `join`. -/
def createKeys (s : Plugin) (channel : String) : Plugin :=
  let keys := s.newKeypair s.created
  let channels := s.channels.set channel ⟨channel, keys.pub, some keys.priv⟩
  { s with channels, created := s.created + 1 }.persistChannel channel keys

def createChannel (s : Plugin) (channel : String) : Plugin × Bool :=
  (s.createKeys channel).join channel (s.newKeypair s.created).pub

def ensureChannel (s : Plugin) (channel : String) : Plugin × Bool :=
  match s.channels.get channel with
  | some _ => (s, false)
  | none => s.createChannel channel

/-- `acceptInvite`. -/
def acceptInvite (s : Plugin) (name pub priv : String) : Plugin :=
  let channels := s.channels.set name ⟨name, pub, some priv⟩
  (({ s with channels }.persistChannel name ⟨pub, priv⟩).join name pub).1

/-! ### Messages -/

def inviteFailed (s : Plugin) (msg : String) : InviteFor → Plugin
  | .caller op => s.reject op msg
  | .pass i agents => { s with returns := s.returns ++ [⟨.error msg, i, agents⟩] }

def inviteSent (s : Plugin) (id : String) : InviteFor → Plugin
  | .caller op => s.resolve op .done
  | .pass i agents => { s with returns := s.returns ++ [⟨.ok id, i, agents⟩] }

def dmFailed (s : Plugin) (msg : String) : PluginDmFor → Plugin
  | .caller op => s.reject op msg
  | .invite _ w => s.inviteFailed msg w

def dmSent (s : Plugin) (id : String) : PluginDmFor → Plugin
  | .caller op => s.resolve op .done
  | .invite _ w => s.inviteSent id w

def isOpen (s : Plugin) : Bool := s.client.ws.any fun i => s.client.sockets[i]? = some .opened

def notOpen : String := "not connected"

def signAndSend (s : Plugin) (recipient channel : Option String) (text xPub : String) :
    Except String (Plugin × String) :=
  let id := s.msgId s.posted
  let aad := (recipient <|> channel).getD ""
  match s.sealMsg s.posted text id aad s.xPriv xPub with
  | .error msg => .error msg
  | .ok ciphertext =>
    if s.isOpen then
      let client := s.client.post (.send recipient channel id ciphertext)
      .ok ({ s with client, posted := s.posted + 1 }, id)
    else .error notOpen

def noKey (recipient : String) : String := "agent " ++ recipient ++ " has no x25519 key"

/-- `dm` up to its lookup. -/
def dm (s : Plugin) (recipient text : String) (w : PluginDmFor) : Plugin :=
  if !s.client.connected then s.dmFailed PluginClient.notConnected w
  else
    match s.known.get recipient with
    | some info => s.park (.info recipient text (some info) w)
    | none =>
      { s with client := s.client.post (.whois recipient) }.park (.info recipient text none w)

def dmInfo (s : Plugin) (recipient text : String) (info : PeerInfo) (w : PluginDmFor) : Plugin :=
  if info.x25519 = "" ∨ s.codec.keyLength info.x25519 = 0 then s.dmFailed (noKey recipient) w
  else s.park (.ready recipient text info.x25519 w)

def dmReady (s : Plugin) (recipient text xPub : String) (w : PluginDmFor) : Plugin :=
  match s.signAndSend (some recipient) none text xPub with
  | .ok (s, id) => s.dmSent id w
  | .error msg => s.dmFailed msg w

def sendReady (s : Plugin) (op : ℕ) (channel text : String) (ch : ChannelKey) : Plugin :=
  match s.signAndSend none (some channel) text ch.pub with
  | .ok (s, _) => s.resolve op .done
  | .error msg => s.reject op msg

/-- The key that `invite` sends: a new one unless the channel's private key is held. -/
def inviteKeys (s : Plugin) (channel : String) : Plugin × ChannelKeys :=
  match s.channels.get channel with
  | some ⟨_, pub, some priv⟩ =>
    if priv = "" then ((s.createChannel channel).1, s.newKeypair s.created) else (s, ⟨pub, priv⟩)
  | _ => ((s.createChannel channel).1, s.newKeypair s.created)

def invite (s : Plugin) (recipient channel : String) (w : InviteFor) : Plugin :=
  if !s.client.connected then s.inviteFailed PluginClient.notConnected w
  else
    let (s, keys) := s.inviteKeys channel
    s.dm recipient (chankeyText channel keys.pub keys.priv) (.invite channel w)

/-! ### Pending invites -/

/-- Whom the delivery pass finds for a pending invite. -/
def onlineFor (s : Plugin) (pending : PendingInvite) (agents : List PresenceAgent) :
    List PresenceAgent :=
  agents.filter fun a => a.agentId ≠ s.client.agentId ∧
    a.name.map s.codec.toLowerCase = some (s.codec.toLowerCase pending.name)

/-- Whom `dap_invite` finds under a name. -/
def matching (s : Plugin) (who : String) (agents : List PresenceAgent) : List PresenceAgent :=
  agents.filter fun a => a.name.map s.codec.toLowerCase = some (s.codec.toLowerCase who)

/-- The loop of `deliverPending` with `n` entries to go through, up to its next `await`. -/
def deliverFrom (s : Plugin) (agents : List PresenceAgent) : ℕ → Plugin
  | 0 => { s with delivering := false }
  | i + 1 =>
    match s.pendingInvites[i]? with
    | none => { s with delivering := false }
    | some pending =>
      match s.onlineFor pending agents with
      | [agent] => s.invite agent.agentId pending.channel (.pass i agents)
      | _ => s.deliverFrom agents i

def setPendingInvites (s : Plugin) (pendingInvites : List PendingInvite) : Plugin :=
  { s with
    pendingInvites
    config := some (persistDapConfig s.config { invites := some pendingInvites }) }

/-- A pass goes on once its `invite` is settled. -/
def passOn (s : Plugin) (ret : PluginReturn) : Plugin :=
  match ret.result with
  | .ok _ => (s.setPendingInvites (s.pendingInvites.eraseIdx ret.i)).deliverFrom ret.agents ret.i
  | .error _ => s.deliverFrom ret.agents ret.i

/-- `deliverPending` up to its first `await`. -/
def pollPending (s : Plugin) : Plugin :=
  if s.delivering || s.pendingInvites = [] || !s.client.connected then s
  else
    let r := s.client.calls.length
    { s with delivering := true, client := s.client.presence }.park (.deliver r)

/-- `dap_invite` for a name that is not online; `ensureChannel` may throw. -/
def arm (s : Plugin) (op : ℕ) (who channel : String) : Plugin :=
  match s.ensureChannel channel with
  | (s, true) => s.reject op ClientError.stillConnecting.message
  | (s, false) =>
    let same := fun p : PendingInvite =>
      s.codec.toLowerCase p.name = s.codec.toLowerCase who ∧ p.channel = channel
    let s := if s.pendingInvites.any same then s
      else s.setPendingInvites (s.pendingInvites ++ [⟨who, channel⟩])
    s.pollPending.resolve op (.armed
      { name := who
        channel
        connectLine := "send to " ++ who ++ ":  /dap " ++ hostOf s.url ++ " " ++ who } hint)

/-- `dap_invite` once it knows who is there. -/
def inviteNamed (s : Plugin) (op : ℕ) (who channel : String) (agents : List PresenceAgent) :
    Plugin :=
  match s.matching who agents with
  | [] => s.arm op who channel
  | [agent] => s.invite agent.agentId channel (.caller op)
  | agents => s.reject op (OpError.ambiguous who (agents.map fun a => a.agentId)).message

/-! ### Events -/

/-- `dap_connect`. -/
def connect (s : Plugin) (op : ℕ) (url : Option String) (keys : Option (String × String))
    (name channel : Option String) : Plugin :=
  if (optStr url).isNone ∧ (optStr name).isNone then s.reject op OpError.nothingToConnect.message
  else
    let config := persistDapConfig s.config
      { url, name, channels := (optStr channel).map fun ch => [ch] }
    let s := { s with config := some config, url := (optStr url).getD s.url }
    match (optStr channel).elim (s, false) s.ensureChannel with
    | (s, true) => s.reject op ClientError.stillConnecting.message
    | (s, false) =>
      { s with
        client := s.client.retarget (keys.map Prod.fst) name
        known := ∅
        xPriv := (keys.map Prod.snd).getD s.xPriv }.resolve op .done

/-- `dap_send`, `dap_dm`, `dap_invite` and `dap_connect`, and the client's own `invite` and
`ensureChannel`. -/
def call (s : Plugin) (op : PluginOp) : Plugin :=
  let n := s.ops
  let s := { s with ops := s.ops + 1 }
  match op with
  | .send channel text =>
    if !s.client.connected then s.reject n PluginClient.notConnected
    else
      match s.channels.get channel with
      | some ch => s.park (.send n channel text ch)
      | none =>
        let keys := s.newKeypair s.created
        (s.createChannel channel).1.park
          (.send n channel text ⟨channel, keys.pub, some keys.priv⟩)
  | .dm recipient text => s.dm recipient text (.caller n)
  | .invite recipient channel => s.invite recipient channel (.caller n)
  | .dapInvite who channel =>
    let channel := (optStr channel).getD "general"
    if !s.client.connected then s.reject n PluginClient.notConnected
    else if isAgentId who then s.invite who channel (.caller n)
    else
      let r := s.client.calls.length
      { s with client := s.client.presence }.park (.named r n who channel)
  | .ensureChannel channel => (s.ensureChannel channel).1
  | .connect url keys name channel => s.connect n url keys name channel

def resume (s : Plugin) : PluginFlow → PluginAnswer → Plugin
  | .named r op who channel, _ =>
    match s.client.settled.lookup r with
    | some (.ok agents) => s.inviteNamed op who channel agents
    | some (.error msg) => s.reject op msg
    | none => s.park (.named r op who channel)
  | .deliver r, _ =>
    match s.client.settled.lookup r with
    | some (.ok agents) => s.deliverFrom agents s.pendingInvites.length
    | some (.error _) => { s with delivering := false }
    | none => s.park (.deliver r)
  | .info recipient text (some p) w, _ => s.dmInfo recipient text p w
  | .info recipient text none w, .info p => s.dmInfo recipient text p w
  | .info _ _ none w, .failed msg => s.dmFailed msg w
  | .info recipient text none w, .ready => s.park (.info recipient text none w)
  | .ready _ _ _ w, .failed msg => s.dmFailed msg w
  | .ready recipient text xPub w, _ => s.dmReady recipient text xPub w
  | .send op _ _ _, .failed msg => s.reject op msg
  | .send op channel text ch, _ => s.sendReady op channel text ch

def runFlow (s : Plugin) (n : ℕ) (a : PluginAnswer) : Plugin :=
  match s.flows[n]? with
  | none => s
  | some f => { s with flows := s.flows.eraseIdx n }.resume f a

def runPass (s : Plugin) (n : ℕ) : Plugin :=
  match s.returns[n]? with
  | none => s
  | some ret => { s with returns := s.returns.eraseIdx n }.passOn ret

/-- `onWelcome`, which joins every channel. -/
def onWelcome (s : Plugin) : Plugin :=
  let client := { s.client with welcomed := true, welcomes := s.client.welcomes + 1 }.post .flush
  let s := s.channels.entries.foldl (fun s e => (s.join e.2.name e.2.pub).1) { s with client }
  { s with client := s.client.warmUpEcho 0 }

def onAgentInfo (s : Plugin) (info : PeerInfo) : Plugin :=
  { s with known := s.known.set info.agentId info }

def clientStep (s : Plugin) : PluginEvent → Plugin
  | .socket i (.message .welcome) => if s.client.ws = some i then s.onWelcome else s
  | .socket i (.message (.agentInfo info)) =>
    if s.client.ws = some i then s.onAgentInfo info else s
  | .retarget agentId name => { s with client := s.client.retarget agentId name, known := ∅ }
  | e => { s with client := s.client.step e }

end Plugin

/-- `poll` is the timer, and `onReady`; `chankey` an invite that a message brings. -/
inductive PluginOpEvent where
  | client (e : PluginEvent)
  | call (op : PluginOp)
  | flow (n : ℕ) (a : PluginAnswer)
  | pass (n : ℕ)
  | poll
  | chankey (name pub priv : String)

namespace Plugin

def step (s : Plugin) : PluginOpEvent → Plugin
  | .client e => s.clientStep e
  | .call op => s.call op
  | .flow n a => s.runFlow n a
  | .pass n => s.runPass n
  | .poll => s.pollPending
  | .chankey name pub priv => s.acceptInvite name pub priv

def run (s : Plugin) (es : List PluginOpEvent) : Plugin := es.foldl step s

end Plugin

end Dap
