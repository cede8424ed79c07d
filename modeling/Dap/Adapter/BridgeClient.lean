import Dap.Adapter.ClientState

/-! The handlers and the calls of the bridge's client, up to each `await` and after it
(`adapters/mcp-bridge/src/client.ts`). -/
namespace Dap
namespace BridgeClient

/-! ### Presence -/

def parkPresenceWaiter (s : BridgeClient) (id : String) (w : PresenceWaiter) : BridgeClient :=
  { s with
    presenceWaiters := s.presenceWaiters.set id ((s.presenceWaiters.get id).getD [] ++ [w]) }

def unparkPresenceWaiter (s : BridgeClient) (id : String) (w : PresenceWaiter) : BridgeClient :=
  match s.presenceWaiters.get id with
  | none => s
  | some ws =>
    if w ∉ ws then s
    else if ws.erase w = [] then { s with presenceWaiters := s.presenceWaiters.delete id }
    else { s with presenceWaiters := s.presenceWaiters.set id (ws.erase w) }

def warmUpPresence (s : BridgeClient) (attempt : ℕ) : BridgeClient :=
  if s.echoSeen || !s.connected then s
  else
    let id := s.uuid s.drawn
    let s := { s with drawn := s.drawn + 1 }.parkPresenceWaiter id (.warmUp attempt)
    match s.sendFrame (.presenceQuery id) with
    | .ok s => s
    | .error _ => s.unparkPresenceWaiter id (.warmUp attempt)

def isOnline (a : PresenceAgent) : Bool := a.online = some true

/-- A waiter fires with the agents of a frame. -/
def donePresence (agents : List PresenceAgent) (s : BridgeClient)
    (waiter : String × PresenceWaiter) : BridgeClient :=
  let s := s.unparkPresenceWaiter waiter.1 waiter.2
  match waiter.2 with
  | .call r => s.settle (.agents (agents.filter isOnline)) r
  | .warmUp attempt =>
    if !s.echoSeen && attempt < 2 then s.warmUpPresence (attempt + 1) else s

/-- A waiter fires with an error. -/
def failPresence (e : ClientError) (s : BridgeClient) (waiter : String × PresenceWaiter) :
    BridgeClient :=
  let s := s.unparkPresenceWaiter waiter.1 waiter.2
  match waiter.2 with
  | .call r => s.settle (.rejected e) r
  | .warmUp _ => s

def allPresenceWaiters (s : BridgeClient) : List (String × PresenceWaiter) :=
  s.presenceWaiters.entries.flatMap fun e => e.2.map fun w => (e.1, w)

def completeRound (agents : List PresenceAgent) (s : BridgeClient) : BridgeClient :=
  s.allPresenceWaiters.foldl (donePresence agents) s

/-- A fired warm-up parks its next attempt, which the running loop visits too: two more rounds. -/
def completeAll (agents : List PresenceAgent) (s : BridgeClient) : BridgeClient :=
  completeRound agents (completeRound agents (completeRound agents s))

def markSelf (s : BridgeClient) (e : PresenceEntry) : PresenceAgent :=
  { e with self := e.agentId = s.agentId }

def onPresence (s : BridgeClient) (replyTo : Option String) (entries : List PresenceEntry) :
    BridgeClient :=
  let agents := entries.map s.markSelf
  match replyTo with
  | none => if s.echoSeen then s else s.completeAll agents
  | some id =>
    let s := { s with echoSeen := true }
    ((s.presenceWaiters.get id).getD []).foldl (fun s w => s.donePresence agents (id, w)) s

/-! ### The calls -/

def ready (s : BridgeClient) : BridgeClient :=
  let r := s.calls.length
  let s := s.newCall .ready
  if s.connected then s.settle .done r else { s with readyWaiters := s.readyWaiters ++ [r] }

/-- `join` up to its first `await`. -/
def join (s : BridgeClient) (name chanPubkey : String) : BridgeClient :=
  let r := s.calls.length
  let s := s.newCall (.join name)
  s.ready.await (r + 1) (.join r name chanPubkey)

def joinReady (s : BridgeClient) (r : ℕ) (name chanPubkey : String) : BridgeClient :=
  if name ∈ s.joined then s.settle .done r
  else
    let s := { s with
      joinWaiters := s.joinWaiters.set name ((s.joinWaiters.get name).getD [] ++ [r]) }
    match s.sendFrame (.join name chanPubkey) with
    | .ok s => s
    | .error e => s.settle (.rejected e) r

def agentInfo (s : BridgeClient) (agentId : String) : BridgeClient :=
  let r := s.calls.length
  let s := s.newCall (.whois agentId)
  match s.known.get agentId with
  | some info => s.settle (.info info) r
  | none =>
    let s := { s with
      whoisWaiters := s.whoisWaiters.set agentId ((s.whoisWaiters.get agentId).getD [] ++ [r])
      whoisCalls := s.whoisCalls + 1 }
    (s.post (.whois agentId)).getD (s.settle (.rejected .stillConnecting) r)

/-- A call that fails at once has an id too. -/
def presence (s : BridgeClient) : BridgeClient :=
  let r := s.calls.length
  let id := s.uuid s.drawn
  let s := { s with drawn := s.drawn + 1 }.newCall (.presence id)
  if !s.connected then s.settle (.rejected .notConnected) r
  else
    let s := s.parkPresenceWaiter id (.call r)
    match s.sendFrame (.presenceQuery id) with
    | .ok s => s
    | .error e => s.failPresence e (id, .call r)

/-- `deliverPendingInvites` up to its first `await`. -/
def pollPendingInvites (s : BridgeClient) : BridgeClient :=
  if s.deliveringInvites || s.pendingInvites = [] || !s.connected then s
  else
    let r := s.calls.length
    { s with deliveringInvites := true }.presence.await r .deliverInvites

/-! ### Pending invites -/

def setPendingInvites (s : BridgeClient) (pending : List PendingInvite) : BridgeClient :=
  { s with
    pendingInvites := pending
    config := some (persistDapConfig s.config { invites := some pending }) }

/-- `armInvite` once the channel is ensured. -/
def armInvite (s : BridgeClient) (name channel : String) : BridgeClient :=
  let same := fun p : PendingInvite =>
    s.codec.toLowerCase p.name = s.codec.toLowerCase name ∧ p.channel = channel
  let s := if s.pendingInvites.any same then s
    else s.setPendingInvites (s.pendingInvites ++ [⟨name, channel⟩])
  s.pollPendingInvites

/-- The loop of `deliverPendingInvites` got one of them delivered. -/
def invited (s : BridgeClient) (i : ℕ) : BridgeClient :=
  match s.pendingInvites[i]? with
  | none => s
  | some p =>
    (s.setPendingInvites (s.pendingInvites.eraseIdx i)).deliver
      { dm := false
        channel := some p.channel
        sender := s.agentId
        text := "[dap] invited " ++ p.name ++ " to #" ++ p.channel
        ts := s.now
        invite := some p.channel }

/-! ### Ending calls -/

def failWaiters (s : BridgeClient) (e : ClientError) : BridgeClient :=
  let s := s.settleAll (.rejected e) s.whoisWaiters.values.flatten
  let s := { s with whoisWaiters := ∅ }
  let s := s.allPresenceWaiters.foldl (failPresence e) s
  let s := { s with presenceWaiters := ∅ }
  { s with readyWaiters := [] }.settleAll (.rejected e) s.readyWaiters

def timeoutError : Call → ClientError
  | .ready => .hubNotReady
  | .join channel => .timeoutJoin channel
  | .whois agentId => .timeoutWhois agentId
  | .presence _ => .timeoutPresence

/-- The timer of a call fires. -/
def timeout (s : BridgeClient) (r : ℕ) : BridgeClient :=
  match s.calls[r]? with
  | none => s
  | some (.presence id) => s.failPresence .timeoutPresence (id, .call r)
  | some .ready =>
    { s with readyWaiters := s.readyWaiters.filter (· ≠ r) }.settle (.rejected .hubNotReady) r
  | some c => s.settle (.rejected (timeoutError c)) r

/-! ### Frames of the hub -/

def startInvitePoller (s : BridgeClient) : BridgeClient :=
  { s with inviteTimer := true }.pollPendingInvites

/-- What a welcome sets off once its frames are sent. -/
def afterWelcome (s : BridgeClient) : BridgeClient :=
  let s := { s with readyWaiters := [] }.settleAll .done s.readyWaiters
  let s := s.channels.entries.foldl (fun s e => s.join e.1 e.2.pub) s
  if s.invites then s.startInvitePoller else s

def onWelcome (s : BridgeClient) : BridgeClient :=
  let s := { s with
    welcomed := true
    welcomes := s.welcomes + 1
    delay := s.initialMs
    joined := [] }
  let s := s.warmUpPresence 0
  match s.post .flush with
  | none => s.throws
  | some s =>
    match if s.enrollPending then s.post .enroll else some s with
    | none => s.throws
    | some s => s.afterWelcome

def onEnrolled (s : BridgeClient) (secret : String) : BridgeClient :=
  if !s.enrollPending || secret = "" then s
  else
    { s with
      enrollPending := false
      config := some (persistDapConfig s.config { clientSecret := some (some secret) }) }

def onJoined (s : BridgeClient) (channel : String) : BridgeClient :=
  let s := { s with joined := if channel ∈ s.joined then s.joined else s.joined ++ [channel] }
  let s := s.settleAll .done ((s.joinWaiters.get channel).getD [])
  { s with joinWaiters := s.joinWaiters.delete channel }

def onAgentInfo (s : BridgeClient) (info : PeerInfo) : BridgeClient :=
  let s := { s with known := s.known.set info.agentId info }
  let s := s.settleAll (.info info) ((s.whoisWaiters.get info.agentId).getD [])
  { s with whoisWaiters := s.whoisWaiters.delete info.agentId }

/-- An error names a channel only if it has a nonempty one. -/
def failJoins (s : BridgeClient) (e : ClientError) (channel : Option String) : BridgeClient :=
  match optStr channel with
  | some ch =>
    let s := s.settleAll (.rejected e) ((s.joinWaiters.get ch).getD [])
    { s with joinWaiters := s.joinWaiters.delete ch }
  | none =>
    let s := s.settleAll (.rejected e) s.joinWaiters.values.flatten
    { s with joinWaiters := ∅ }

def failWhois (s : BridgeClient) : BridgeClient :=
  let s := s.whoisWaiters.entries.foldl
    (fun s e => s.settleAll (.rejected (.unknownAgent e.1)) e.2) s
  { s with whoisWaiters := ∅ }

def onError (s : BridgeClient) (code msg : String) (channel : Option String) : BridgeClient :=
  let s := { s with lastError := (ClientError.hubError code msg).message }
  let s := s.ringError { code, msg, ts := s.now }
  let s := if code = "unknown_channel" ∨ code = "access_denied" then
    s.failJoins (.hubError code msg) channel else s
  if code = "unknown_agent" then s.failWhois else s

/-- `onMsg` up to the lookup of the sender. -/
def onMsg (s : BridgeClient) (m : MsgFrame) : BridgeClient :=
  let r := s.calls.length
  (s.agentInfo m.sender).await r (.decrypt m)

def handleRaw (s : BridgeClient) : HubFrame → BridgeClient
  | .notJson => { s with lastError := "bad frame (not JSON)" }
  | .welcome => s.onWelcome
  | .joined channel => s.onJoined channel
  | .agentInfo info => s.onAgentInfo info
  | .presence replyTo agents => s.onPresence replyTo agents
  | .msg m => s.onMsg m
  | .error code msg channel => s.onError code msg channel
  | .enrolled secret => s.onEnrolled secret
  | .other => s

/-! ### After an `await` -/

def decryptMsg (s : BridgeClient) (m : MsgFrame) (sender : PeerInfo) : Except String MsgEvent :=
  match m.channel with
  | some channel =>
    match optStr ((s.channels.get channel).bind ChannelKey.priv) with
    | none => .error "no channel private key"
    | some priv =>
      (s.codec.openMsg m.ciphertext m.id channel priv sender.x25519).map fun text =>
        { dm := false, channel := some channel, sender := m.sender, text, ts := m.ts }
  | none =>
    if sender.x25519 = "" ∨ s.codec.keyLength sender.x25519 = 0 then
      .error "sender has no x25519 key"
    else
      (s.codec.openMsg m.ciphertext m.id (m.peer.getD "undefined") s.xpriv sender.x25519).map
        fun text => { dm := true, channel := none, sender := m.sender, text, ts := m.ts }

def undecryptable (s : BridgeClient) (m : MsgFrame) (reason : String) : BridgeClient :=
  let msg := "undecryptable msg: " ++ reason
  { s with lastError := msg }.ringError
    { code := "undecryptable", msg, ts := s.now, sender := some m.sender, id := some m.id }

/-- The rest of `onMsg`. -/
def received (s : BridgeClient) (m : MsgFrame) (sender : PeerInfo) : BridgeClient :=
  match s.decryptMsg m sender with
  | .error reason => s.undecryptable m reason
  | .ok ev =>
    match if ev.dm then s.codec.parseInvite ev.text else none with
    | none => s.deliver ev
    | some invite =>
      let s := { s with channels := s.channels.set invite.name invite }
      (s.join invite.name invite.pub).deliver { ev with
        invite := some invite.name
        text := "[dap] invited to #" ++ invite.name ++ " by " ++ ev.sender }

/-- A task goes on with what it waited for. -/
def resume (s : BridgeClient) (k : Kont) (o : Settlement) : BridgeClient :=
  match k, o with
  | .join r _ _, .rejected e => s.settle (.rejected e) r
  | .join r name chanPubkey, _ => s.joinReady r name chanPubkey
  | .decrypt m, .info sender => s.received m sender
  | .decrypt m, .rejected e => s.undecryptable m e.message
  | .decrypt _, _ => s
  | .deliverInvites, .rejected e =>
    let msg := "pending invite check failed: " ++ e.message
    { s with deliveringInvites := false, lastError := msg }.ringError
      { code := "invite_failed", msg, ts := s.now }
  | .deliverInvites, _ => s

def runTask (s : BridgeClient) (n : ℕ) : BridgeClient :=
  match s.tasks[n]? with
  | none => s
  | some (r, k) =>
    match s.settled.lookup r with
    | none => s
    | some o => { s with tasks := s.tasks.eraseIdx n }.resume k o

/-! ### Socket events and public operations -/

def sendHello (s : BridgeClient) : BridgeClient :=
  let s := { s with hellos := s.hellos + 1 }
  (s.post (.hello s.agentId s.name)).getD s.throws

/-- The handler acts on the current socket, whichever was opened; the watchdog's first ping throws
on one that is still connecting. -/
def onOpen (s : BridgeClient) : BridgeClient :=
  match s.ws with
  | none => s.throws
  | some i =>
    let s := { s with watched := some i }
    if s.readyState i = some .connecting then s.throws else s.sendHello

def onDisconnect (s : BridgeClient) : BridgeClient :=
  let s := { s with watched := none, welcomed := false }
  if s.stopped then s.failWaiters .clientStopped
  else
    { s with
      delay := min (s.delay * 2) s.maxMs
      timers := s.timers ++ [s.nextTimer]
      retryTimer := some s.nextTimer
      nextTimer := s.nextTimer + 1 }

def onUnexpectedResponse (s : BridgeClient) (code : ℕ) : BridgeClient :=
  let s := { s with
    lastError :=
      if code = 401 then dial401Help else "Unexpected server response: " ++ toString code }
  let s :=
    if code = 401 then
      let s := s.ringError { code := "unauthorized", msg := dial401Help, ts := s.now }
      if s.dialSource = some .config && !s.reEnrolled && (optStr s.env.masterSecret).isSome then
        { s with
          reEnrolled := true
          config := some (persistDapConfig s.config { clientSecret := some none }) }
      else s
    else s
  s.ws.elim s s.closeSocket

def onSocketError (s : BridgeClient) (err : String) : BridgeClient :=
  if s.ws.any fun i => s.readyState i = some .opened then { s with lastError := err } else s

def start (s : BridgeClient) : BridgeClient := { s with stopped := false }.connect

def stop (s : BridgeClient) : BridgeClient :=
  let s := { s with stopped := true, watched := none }.clearRetry
  let s := { s with inviteTimer := false }
  { s.ws.elim s s.closeSocket with ws := none }

structure Retarget where
  url : Option String := none
  keys : Option (String × String) := none
  name : Option String := none

def detach (s : BridgeClient) (i : ℕ) : BridgeClient :=
  { s with sockets := s.sockets.modify i fun w => { w with attached := false } }

/-- The current socket is given up with its listeners. -/
def silence (s : BridgeClient) : BridgeClient :=
  { s.ws.elim s fun i => (s.detach i).closeSocket i with ws := none }

def retarget (s : BridgeClient) (next : Retarget) : BridgeClient :=
  let s := { s.clearRetry with watched := none }.silence
  let s := s.failWaiters .retargeted
  { s with
    welcomed := false
    stopped := false
    url := (optStr next.url).getD s.url
    agentId := (next.keys.map Prod.fst).getD s.agentId
    xpriv := (next.keys.map Prod.snd).getD s.xpriv
    name := next.name <|> s.name
    known := ∅
    joined := []
    delay := s.initialMs }.connect

end BridgeClient

/-! ### Events -/

/-- `send`, `dm` and `invite` are the calls they are made of: a `join` or a `whois`, `ready`, and
then `send`, each at any time. `outside` is what other code does to the environment, the config file
and the clock. -/
inductive BridgeEvent where
  | start
  | stop
  | retarget (next : BridgeClient.Retarget)
  | socket (i : ℕ) (e : SocketEvent)
  | retry (t : ℕ)
  | pollInvites
  | pongMissed
  | ready
  | join (name chanPubkey : String)
  | whois (agentId : String)
  | presence
  | send (peer channel : Option String) (id ciphertext : String)
  | addChannel (ch : ChannelKey)
  | armInvite (name channel : String)
  | invited (i : ℕ)
  | invitesDone
  | timeout (r : ℕ)
  | task (n : ℕ)
  | outside (env : Env) (config : Option DapFileConfig) (now : ℤ)

namespace BridgeClient

/-- The socket's own state moves before its listeners hear of it. -/
def socketMoves (s : BridgeClient) (i : ℕ) : SocketEvent → BridgeClient
  | .opened => s.setReadyState i .opened
  | .closed => s.setReadyState i .closed
  | _ => s

def handleSocket (s : BridgeClient) : SocketEvent → BridgeClient
  | .opened => s.onOpen
  | .message f => s.handleRaw f
  | .closed => s.onDisconnect
  | .error err => s.onSocketError err
  | .unexpectedResponse code => s.onUnexpectedResponse code

def step (s : BridgeClient) : BridgeEvent → BridgeClient
  | .start => s.start
  | .stop => s.stop
  | .retarget next => s.retarget next
  | .socket i e =>
    let attached := (s.sockets[i]?).any Socket.attached
    let s := s.socketMoves i e
    if attached then s.handleSocket e else s
  | .retry t => { s with timers := s.timers.filter (· ≠ t) }.connect
  | .pollInvites => s.pollPendingInvites
  | .pongMissed => { s.watched.elim s s.closeSocket with watched := none }
  | .ready => s.ready
  | .join name chanPubkey => s.join name chanPubkey
  | .whois agentId => s.agentInfo agentId
  | .presence => s.presence
  | .send peer channel id ciphertext =>
    match s.sendFrame (.send peer channel id ciphertext) with
    | .ok s => s
    | .error _ => s
  | .addChannel ch => { s with channels := s.channels.set ch.name ch }
  | .armInvite name channel => s.armInvite name channel
  | .invited i => s.invited i
  | .invitesDone => { s with deliveringInvites := false }
  | .timeout r => s.timeout r
  | .task n => s.runTask n
  | .outside env config now => { s with env, config, now }

def run (s : BridgeClient) (es : List BridgeEvent) : BridgeClient := es.foldl step s

/-- The events the runtime can emit: a socket opens once, and closes once. -/
def Emits (s : BridgeClient) : BridgeEvent → Prop
  | .socket i .opened => s.readyState i = some .connecting
  | .socket i (.unexpectedResponse _) => s.readyState i = some .connecting
  | .socket i (.message _) => s.readyState i = some .opened ∨ s.readyState i = some .closing
  | .socket i _ => s.readyState i ≠ none ∧ s.readyState i ≠ some .closed
  | .retry t => t ∈ s.timers
  | .pollInvites => s.inviteTimer = true
  | .pongMissed => s.watched ≠ none
  | _ => True

end BridgeClient

end Dap
