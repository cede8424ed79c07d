import Dap.Hub.Hello

/-! Channels, their ACLs and their file, offline mailboxes and message routing (`hub/channels.go`,
`hub/mailbox.go`, `hub/store.go`). -/
namespace Dap

/-! ### Mailboxes -/

def mailboxCap : ℕ := 100

namespace Hub

/-- On overflow the oldest entry is dropped and the flag latches until the next drain. -/
def enqueueLocked (agentID : String) (f : Frame) (h : Hub) : ℕ × Hub :=
  let q := h.mailbox[agentID]?.getD [] ++ [f]
  if q.length > mailboxCap then
    let q := q.drop (q.length - mailboxCap)
    (q.length, { h with
      mailbox := h.mailbox.insert agentID q
      mailboxDropped := h.mailboxDropped.insert agentID true })
  else (q.length, { h with mailbox := h.mailbox.insert agentID q })

/-- Empties the mailbox, reporting whether overflow happened. -/
def drainLocked (agentID : String) (h : Hub) : (List Frame × Bool) × Hub :=
  ((h.mailbox[agentID]?.getD [], h.mailboxDropped[agentID]?.getD false),
    { h with
      mailbox := h.mailbox.erase agentID
      mailboxDropped := h.mailboxDropped.erase agentID })

end Hub

def enqueue (agentID : String) (f : Frame) : HubProc ℕ :=
  Proc.atomically (.enqueue agentID f) (Hub.enqueueLocked agentID f)

def drain (agentID : String) : HubProc (List Frame × Bool) :=
  Proc.atomically .mu (Hub.drainLocked agentID)

def flushedFrame (count : ℕ) : Frame := { op := "flushed", count := Int64.ofNat count }

/-- Streams the queued messages in order, reports an overflow, then confirms with a count. -/
def handleFlush (c : ConnID) : HubProc Unit := do
  let k ← ownConn c
  let (msgs, dropped) ← drain k.agentID
  msgs.forM fun m => do
    let _ ← sendFrame c (.frame m)
  if dropped then sendErr c codeMailboxFull "mailbox overflowed; oldest messages dropped"
  let _ ← sendFrame c (.frame (flushedFrame msgs.length))
  logf "flush" fun _ =>
    [("agent", k.agentID), ("count", toString msgs.length), ("overflowed", toString dropped)]

/-! ### The channel file -/

def allowedMember (allowed : List String) : GoJson.Members :=
  if allowed = [] then [] else [("allowed", .arr (allowed.map .str))]

def channelRecord (name : String) (ch : Channel) : Json String :=
  .obj (("name", .str name) ::
    (GoJson.strOmitEmpty "pubkey" ch.pubkey ++ allowedMember ch.allowed))

def channelStore (channels : GoMap Channel) : Json String :=
  .obj [("channels", .arr (channels.toList.map fun kv => channelRecord kv.1 kv.2))]

def Hub.persistChannels (h : Hub) : Hub :=
  { h with channelsFile := some (channelStore h.channels) }

/-! ### Joining -/

variable (P : Platform)

/-- An empty ACL admits any authenticated agent. -/
def Channel.allows (ch : Channel) (pubkey : String) : Bool :=
  if ch.allowed.isEmpty then true else ch.allowed.any fun allowed => constEq P allowed pubkey

inductive JoinOutcome where
  | noMaster
  | notAllowed
  | joined (created rejoin : Bool) (peers : List ConnID)
  deriving DecidableEq

def JoinOutcome.admitted : JoinOutcome → Prop
  | .joined _ _ _ => True
  | _ => False

namespace Hub

def newChannelLocked (h : Hub) (name chanPub : String) : Hub :=
  let ch : Channel := { name := name, pubkey := chanPub }
  Hub.persistChannels { h with channels := h.channels.insert name ch }

def addMember (h : Hub) (name : String) (ch : Channel) (agentID : String) : Hub :=
  let ch := { ch with members := ch.members.insert agentID true }
  { h with channels := h.channels.insert name ch }

/-- Creates or fetches the channel and adds the agent; creation needs the master secret. -/
def joinLocked (c : ConnID) (name chanPub : String) (h : Hub) : JoinOutcome × Hub :=
  let k := h.conns c
  match h.channels[name]? with
  | none =>
    if k.auth ≠ .master then (.noMaster, h)
    else
      let ch : Channel := { name := name, pubkey := chanPub }
      let h := (h.newChannelLocked name chanPub).addMember name ch k.agentID
      (.joined true false (h.presencePeersLocked k.agentID), h)
  | some ch =>
    if ch.allows P k.pubkey then
      let h := h.addMember name ch k.agentID
      (.joined false (ch.members.contains k.agentID) (h.presencePeersLocked k.agentID), h)
    else (.notAllowed, h)

/-- The four ways a join can go. -/
theorem joinLocked_cases (h : Hub) (c : ConnID) (name chanPub : String) :
    (h.channels[name]? = none ∧ (h.conns c).auth ≠ .master ∧
      h.joinLocked P c name chanPub = (.noMaster, h)) ∨
    (h.channels[name]? = none ∧ (h.conns c).auth = .master ∧
      ∃ peers, h.joinLocked P c name chanPub = (.joined true false peers,
        (h.newChannelLocked name chanPub).addMember name { name := name, pubkey := chanPub }
          (h.conns c).agentID)) ∨
    (∃ ch, h.channels[name]? = some ch ∧ ch.allows P (h.conns c).pubkey = true ∧
      ∃ rejoin peers, h.joinLocked P c name chanPub = (.joined false rejoin peers,
        h.addMember name ch (h.conns c).agentID)) ∨
    (∃ ch, h.channels[name]? = some ch ∧ ch.allows P (h.conns c).pubkey = false ∧
      h.joinLocked P c name chanPub = (.notAllowed, h)) := by
  cases hch : h.channels[name]? with
  | none =>
    by_cases ha : (h.conns c).auth = .master
    · refine .inr (.inl ⟨rfl, ha, ?_⟩)
      simp [joinLocked, hch, ha]
    · exact .inl ⟨rfl, ha, by simp [joinLocked, hch, ha]⟩
  | some ch =>
    cases hal : ch.allows P (h.conns c).pubkey with
    | true =>
      refine .inr (.inr (.inl ⟨ch, rfl, hal, ?_⟩))
      simp [joinLocked, hch, hal]
    | false => exact .inr (.inr (.inr ⟨ch, rfl, hal, by simp [joinLocked, hch, hal]⟩))

end Hub

def joinChannel (c : ConnID) (name chanPub : String) : HubProc (Option ProtoError) := do
  match ← Proc.atomically .mu (Hub.joinLocked P c name chanPub) with
  | .noMaster =>
    logf "join" fun h =>
      [("agent", (h.conns c).logAgent), ("channel", dash name), ("result", "denied")]
    return some ⟨codeDenied, "channel creation requires the master secret"⟩
  | .notAllowed =>
    logf "join" fun h =>
      [("agent", (h.conns c).logAgent), ("channel", dash name), ("result", "denied")]
    return some ⟨codeDenied, "pubkey not on channel ACL"⟩
  | .joined created rejoin peers =>
    let k ← ownConn c
    sendPresence peers k.agentID
      { pubkey := k.pubkey, x25519 := k.x25519, name := k.name, online := true }
    let result := if created then "created" else if rejoin then "rejoin" else "joined"
    logf "join" fun h => [("agent", (h.conns c).logAgent), ("channel", name), ("result", result)]
    return none

def joinedFrame (channel : String) : Frame := { op := "joined", channel := channel }

def handleJoin (c : ConnID) (f : Frame) : HubProc Unit := do
  if f.channel = "" then sendErr c codeBadFrame "join requires channel"
  else match ← joinChannel P c f.channel f.chanPubkey with
    | some e => sendErr c e.code e.msg
    | none =>
      let _ ← sendFrame c (.frame (joinedFrame f.channel))

/-! ### Routing -/

def channelMsg (sender : String) (f : Frame) : Frame where
  op := "msg"
  channel := f.channel
  «from» := sender
  id := f.id
  ts := f.ts
  ciphertext := f.ciphertext

def dmMsg (sender : String) (f : Frame) : Frame where
  op := "msg"
  «to» := f.to
  «from» := sender
  id := f.id
  ts := f.ts
  ciphertext := f.ciphertext

/-- The members of a channel, split into live connections and absent agents. -/
structure Targets where
  online : List (String × ConnID)
  offline : List String

def Hub.targets (h : Hub) (ch : Channel) : Targets where
  online := ch.members.keys.filterMap fun m => h.clients[m]?.map fun c => (m, c)
  offline := ch.members.keys.filter fun m => h.clients[m]?.isNone

def Hub.channelTargets (c : ConnID) (f : Frame) (h : Hub) : Except ProtoError Targets :=
  let k := h.conns c
  match h.channels[f.channel]? with
  | none => .error ⟨codeUnknownChannel, "no such channel: " ++ f.channel⟩
  | some ch =>
    if ¬ Hub.isMember ch k.agentID then
      .error ⟨codeDenied, "not a member: join the channel first"⟩
    else if ¬ ch.allows P k.pubkey then .error ⟨codeDenied, "pubkey not on channel ACL"⟩
    else .ok (h.targets ch)

/-- Fans a message out to the connected members and the mailboxes of the absent ones; `false` when
rejected. -/
def deliverChannel (c : ConnID) (f : Frame) : HubProc Bool := do
  let k ← ownConn c
  match ← Proc.read .targets (Hub.channelTargets P c f) with
  | .error e =>
    logf "chan" fun h => [("agent", (h.conns c).logAgent), ("channel", dash f.channel),
      ("result", "denied"), ("code", e.code)]
    sendErr c e.code e.msg
    return false
  | .ok t =>
    let msg := channelMsg k.agentID f
    t.online.forM fun m => do
      let _ ← sendFrame m.2 (.frame msg)
    t.offline.forM fun agentID => do
      let _ ← enqueue agentID msg
    logf "chan" fun h => [("agent", (h.conns c).logAgent), ("channel", f.channel),
      ("result", "ok"), ("fanout", toString (t.online.length + t.offline.length)),
      ("online", toString t.online.length), ("offline", toString t.offline.length)]
    return true

/-- Hands a message to the recipient's connection, or to their mailbox; `false` when rejected. -/
def deliverDM (c : ConnID) (f : Frame) : HubProc Bool := do
  let k ← ownConn c
  let msg := dmMsg k.agentID f
  match ← lookupAgent f.to with
  | none =>
    logf "dm" fun h =>
      [("agent", (h.conns c).logAgent), ("to", dash f.to), ("result", "unknown")]
    sendErr c codeUnknownAgent ("no such agent: " ++ f.to)
    return false
  | some _ =>
    match ← Proc.read .targets fun h => h.clients[f.to]? with
    | none =>
      let size ← enqueue f.to msg
      logf "dm" fun h => [("agent", (h.conns c).logAgent), ("to", f.to), ("result", "mailbox"),
        ("size", toString size)]
      return true
    | some target =>
      if ← sendFrame target (.frame msg) then
        logf "dm" fun h => [("agent", (h.conns c).logAgent), ("to", f.to), ("result", "online")]
        return true
      else
        let size ← enqueue f.to msg
        logf "dm" fun h => [("agent", (h.conns c).logAgent), ("to", f.to),
          ("result", "mailbox_after_drop"), ("size", toString size)]
        return true

def deliver (c : ConnID) (f : Frame) : HubProc Bool :=
  if f.to ≠ "" then deliverDM c f else deliverChannel P c f

def sendKey (f : Frame) : String := f.to ++ "|" ++ f.channel ++ "|" ++ f.id

def Hub.addSendID (pub key : String) (h : Hub) : Hub :=
  { h with sendIDs := h.sendIDs.add pub key }

/-- Verifies the envelope and routes it; the id is latched once the routing has succeeded. -/
def handleSend (c : ConnID) (f : Frame) (raw : Raw) : HubProc Unit := do
  let k ← ownConn c
  match verifySignature P f raw k.pubkey with
  | some e => sendErr c e.code e.msg
  | none =>
    let now ← Proc.read .clock Hub.nowMS
    if ¬ tsFresh f.ts now then sendErr c codeStaleTS "timestamp outside ±300s window"
    else if f.id = "" then sendErr c codeBadFrame "send requires id"
    else
      let used ← Proc.read .sendIDs fun h => h.sendIDs.seen k.pubkey (sendKey f)
      if used then sendErr c codeReplay "frame id already used"
      else
        let accepted ← deliver P c f
        if accepted then Proc.modify .latch (Hub.addSendID k.pubkey (sendKey f))

end Dap
