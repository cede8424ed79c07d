import Dap.Adapter.Recovery

/-! How the clients receive messages of the hub: `onMsg`, `decryptMsg`, `agentInfo` and
`onAgentInfo` of both `client.ts`, with the promise reactions they leave to the microtask queue. -/
namespace Dap
open Recovery (Adapter)

/-- A message by its place among those that arrived. -/
structure Arrival where
  n : ℕ
  frame : MsgFrame
  deriving DecidableEq

/-- What a promise reaction goes on with: the callback of `promise.then` in `agentInfo` of the
plugin, `decryptMsg` after its `await`, and `onMsg` after its own. -/
inductive Microtask where
  | answered (m : Arrival) (sender : PeerInfo)
  | decrypt (m : Arrival) (sender : PeerInfo)
  | finish (m : Arrival) (result : Except String MsgEvent)

namespace Microtask

def arrival : Microtask → Arrival
  | answered m _ => m
  | decrypt m _ => m
  | finish m _ => m

/-- How many reactions the message still takes. -/
def stage : Microtask → ℕ
  | answered _ _ => 3
  | decrypt _ _ => 2
  | finish _ _ => 1

end Microtask

/-- `queue` holds the reactions that are due, in order. `attempts` lists the messages that were
tried to be decrypted, `entered` those pushed to `inboxMsgs`, oldest first. -/
structure Receiver where
  adapter : Adapter
  codec : Codec
  xpriv : String
  channels : JsMap String ChannelKey
  known : JsMap String PeerInfo := ∅
  whoisWaiters : JsMap String (List Arrival) := ∅
  arrived : ℕ := 0
  queue : List Microtask := []
  attempts : List Arrival := []
  entered : List (ℕ × MsgEvent) := []

inductive InboundFrame where
  | msg (m : MsgFrame)
  | agentInfo (info : PeerInfo)

/-- `frames` is what the library emits within one task. A lookup that times out takes its message
with it. -/
inductive ReceiverTask where
  | frames (fs : List InboundFrame)
  | timeout (agentId : String) (n : ℕ)
  | addChannel (ch : ChannelKey)

namespace Receiver

/-! ### Frames -/

def enqueue (s : Receiver) (ts : List Microtask) : Receiver := { s with queue := s.queue ++ ts }

/-- The reaction that is due once the promise a message waits for is resolved. -/
def answer (s : Receiver) (info : PeerInfo) (m : Arrival) : Microtask :=
  match s.adapter with
  | .mcpBridge => .decrypt m info
  | .dshPlugin => .answered m info

def onAgentInfo (s : Receiver) (info : PeerInfo) : Receiver :=
  { s with
    known := s.known.set info.agentId info
    whoisWaiters := s.whoisWaiters.delete info.agentId }.enqueue
      (((s.whoisWaiters.get info.agentId).getD []).map (s.answer info))

/-- `onMsg` up to the lookup of the sender. -/
def onMsg (s : Receiver) (frame : MsgFrame) : Receiver :=
  let m : Arrival := ⟨s.arrived, frame⟩
  let s := { s with arrived := s.arrived + 1 }
  match s.known.get frame.sender with
  | some info => s.enqueue [.decrypt m info]
  | none =>
    { s with
      whoisWaiters := s.whoisWaiters.set frame.sender
        ((s.whoisWaiters.get frame.sender).getD [] ++ [m]) }

def handle (s : Receiver) : InboundFrame → Receiver
  | .msg m => s.onMsg m
  | .agentInfo info => s.onAgentInfo info

/-! ### Reactions -/

def decryptMsg (s : Receiver) (m : MsgFrame) (sender : PeerInfo) : Except String MsgEvent :=
  match m.channel with
  | some channel =>
    match optStr ((s.channels.get channel).bind ChannelKey.priv) with
    | none => .error "no channel private key"
    | some priv =>
      (s.codec.openMsg m.ciphertext m.id channel priv sender.x25519).map fun text =>
        { dm := false, channel := some channel, sender := m.sender, text, ts := m.ts }
  | none =>
    if sender.x25519 = "" ∨ s.codec.keyLength sender.x25519 = 0 then
      .error "sender has no x25519 key"
    else
      (s.codec.openMsg m.ciphertext m.id (m.peer.getD "undefined") s.xpriv sender.x25519).map
        fun text => { dm := true, channel := none, sender := m.sender, text, ts := m.ts }

def deliver (s : Receiver) (n : ℕ) (ev : MsgEvent) : Receiver :=
  { s with entered := s.entered ++ [(n, ev)] }

/-- An invite is no chat; the bridge leaves a notice of it in the inbox. -/
def accept (s : Receiver) (n : ℕ) (ev : MsgEvent) : Receiver :=
  match if ev.dm then s.codec.parseInvite ev.text else none with
  | none => s.deliver n ev
  | some invite =>
    let s := { s with channels := s.channels.set invite.name invite }
    match s.adapter with
    | .mcpBridge => s.deliver n { ev with
        invite := some invite.name
        text := "[dap] invited to #" ++ invite.name ++ " by " ++ ev.sender }
    | .dshPlugin => s

def react (s : Receiver) : Microtask → Receiver
  | .answered m sender => s.enqueue [.decrypt m sender]
  | .decrypt m sender => s.enqueue [.finish m (s.decryptMsg m.frame sender)]
  | .finish m result =>
    let s := { s with attempts := s.attempts ++ [m] }
    match result with
    | .error _ => s
    | .ok ev => s.accept m.n ev

def microtask (s : Receiver) : Receiver :=
  match s.queue with
  | [] => s
  | t :: rest => { s with queue := rest }.react t

def work (s : Receiver) : ℕ := (s.queue.map Microtask.stage).sum

/-- All the reactions that are due, and those they leave behind. -/
def drain (s : Receiver) : Receiver := microtask^[s.work] s

/-! ### Tasks -/

def create (adapter : Adapter) (codec : Codec) (xpriv : String)
    (channels : JsMap String ChannelKey) : Receiver :=
  { adapter, codec, xpriv, channels }

def step (s : Receiver) : ReceiverTask → Receiver
  | .frames fs => (fs.foldl handle s).drain
  | .timeout agentId n =>
    match s.whoisWaiters.get agentId with
    | none => s
    | some ms =>
      { s with whoisWaiters := s.whoisWaiters.set agentId (ms.filter fun m => m.n ≠ n) }
  | .addChannel ch => { s with channels := s.channels.set ch.name ch }

def run (s : Receiver) (ts : List ReceiverTask) : Receiver := ts.foldl step s

/-! ### Order -/

/-- Of two messages of one sender the first arrived first. -/
def InOrder (l : List (ℕ × String)) : Prop := l.Pairwise fun x y => x.2 = y.2 → x.1 < y.1

def attempted (s : Receiver) : List (ℕ × String) :=
  s.attempts.map fun m => (m.n, m.frame.sender)

def inbox (s : Receiver) : List (ℕ × String) := s.entered.map fun e => (e.1, e.2.sender)

/-- The messages that take `k` more reactions. -/
def atStage (k : ℕ) (q : List Microtask) : List Arrival :=
  (q.filter fun t => t.stage = k).map Microtask.arrival

/-- In the plugin, no message whose key is known arrives while an earlier one of its sender is still
to pass the callback of its lookup. -/
def Clear (s : Receiver) : InboundFrame → Prop
  | .msg frame => s.adapter = .dshPlugin → s.known.get frame.sender ≠ none →
      ∀ m ∈ atStage 3 s.queue, m.frame.sender ≠ frame.sender
  | .agentInfo _ => True

def PromptFrames : Receiver → List InboundFrame → Prop
  | _, [] => True
  | s, f :: fs => s.Clear f ∧ PromptFrames (s.handle f) fs

def Prompt : Receiver → List ReceiverTask → Prop
  | _, [] => True
  | s, t :: ts => (∀ fs, t = .frames fs → s.PromptFrames fs) ∧ Prompt (s.step t) ts

instance (s : Receiver) : DecidablePred s.Clear
  | .msg frame => inferInstanceAs (Decidable (s.adapter = .dshPlugin →
      s.known.get frame.sender ≠ none → ∀ m ∈ atStage 3 s.queue, m.frame.sender ≠ frame.sender))
  | .agentInfo _ => .isTrue trivial

instance : ∀ s fs, Decidable (PromptFrames s fs)
  | _, [] => .isTrue trivial
  | s, f :: fs =>
    have := instDecidablePromptFrames (s.handle f) fs
    inferInstanceAs (Decidable (s.Clear f ∧ PromptFrames (s.handle f) fs))

/-! ### The messages under way -/

/-- Messages whose key is there, the furthest first. -/
def going (s : Receiver) : List Arrival :=
  s.attempts ++ (atStage 1 s.queue ++ (atStage 2 s.queue ++ atStage 3 s.queue))

def Before (x y : Arrival) : Prop := x.frame.sender = y.frame.sender → x.n < y.n

variable {s : Receiver}

theorem atStage_append (k : ℕ) (q r : List Microtask) :
    atStage k (q ++ r) = atStage k q ++ atStage k r := by
  simp [atStage]

theorem atStage_cons (k : ℕ) (t : Microtask) (q : List Microtask) :
    atStage k (t :: q) = if t.stage = k then t.arrival :: atStage k q else atStage k q := by
  unfold atStage
  by_cases h : t.stage = k
  · simp [h]
  · simp [h]

theorem accept_fields (s : Receiver) (n : ℕ) (ev : MsgEvent) :
    (s.accept n ev).queue = s.queue ∧ (s.accept n ev).attempts = s.attempts ∧
      (s.accept n ev).known = s.known ∧ (s.accept n ev).whoisWaiters = s.whoisWaiters ∧
      (s.accept n ev).arrived = s.arrived ∧ (s.accept n ev).adapter = s.adapter := by
  unfold accept
  split
  · exact ⟨rfl, rfl, rfl, rfl, rfl, rfl⟩
  · dsimp only
    split
    · exact ⟨rfl, rfl, rfl, rfl, rfl, rfl⟩
    · exact ⟨rfl, rfl, rfl, rfl, rfl, rfl⟩

/-- What a reaction leaves alone. -/
def table (s : Receiver) := (s.known, s.whoisWaiters, s.arrived, s.adapter)

theorem table_accept (s : Receiver) (n : ℕ) (ev : MsgEvent) : (s.accept n ev).table = s.table := by
  obtain ⟨-, -, hknown, hwaiters, harrived, hadapter⟩ := accept_fields s n ev
  simp only [table, hknown, hwaiters, harrived, hadapter]

theorem table_microtask (s : Receiver) : s.microtask.table = s.table := by
  unfold microtask
  cases s.queue with
  | nil => rfl
  | cons t rest =>
    cases t with
    | answered m sender => rfl
    | decrypt m sender => rfl
    | finish m result =>
      cases result with
      | error reason => rfl
      | ok ev => exact table_accept _ m.n ev

/-- A reaction moves its message one stage on, behind those that are there. -/
theorem going_microtask (s : Receiver) : s.microtask.going = s.going := by
  cases hqueue : s.queue with
  | nil =>
    have hstep : s.microtask = s := by
      unfold microtask
      rw [hqueue]
    rw [hstep]
  | cons t rest =>
    have hstep : s.microtask = { s with queue := rest }.react t := by
      unfold microtask
      rw [hqueue]
    have hgoing : s.going = s.attempts ++ (atStage 1 (t :: rest) ++ (atStage 2 (t :: rest) ++
        atStage 3 (t :: rest))) := by
      rw [← hqueue]
      rfl
    rw [hstep, hgoing]
    cases t with
    | answered m sender =>
      change s.attempts ++ (atStage 1 (rest ++ [.decrypt m sender]) ++ (atStage 2 (rest ++
        [.decrypt m sender]) ++ atStage 3 (rest ++ [.decrypt m sender]))) = _
      simp [atStage, Microtask.stage, Microtask.arrival]
    | decrypt m sender =>
      change s.attempts ++ (atStage 1 (rest ++ [.finish m _]) ++ (atStage 2 (rest ++
        [.finish m _]) ++ atStage 3 (rest ++ [.finish m _]))) = _
      simp [atStage, Microtask.stage, Microtask.arrival]
    | finish m result =>
      have hafter : ({ s with queue := rest }.react (.finish m result)).queue = rest ∧
          ({ s with queue := rest }.react (.finish m result)).attempts = s.attempts ++ [m] := by
        cases result with
        | error reason => exact ⟨rfl, rfl⟩
        | ok ev =>
          obtain ⟨hq, ha, -⟩ := accept_fields
            { s with queue := rest, attempts := s.attempts ++ [m] } m.n ev
          exact ⟨hq, ha⟩
      unfold going
      rw [hafter.1, hafter.2]
      simp [atStage_cons, Microtask.stage, Microtask.arrival]

theorem work_microtask (h : s.queue ≠ []) : s.microtask.work + 1 = s.work := by
  cases hqueue : s.queue with
  | nil => exact absurd hqueue h
  | cons t rest =>
    have hstep : s.microtask = { s with queue := rest }.react t := by
      unfold microtask
      rw [hqueue]
    have hwork : s.work = t.stage + (rest.map Microtask.stage).sum := by
      unfold work
      rw [hqueue, List.map_cons, List.sum_cons]
    rw [hstep, hwork]
    cases t with
    | answered m sender =>
      change ((rest ++ [Microtask.decrypt m sender]).map Microtask.stage).sum + 1 = _
      simp only [List.map_append, List.sum_append, List.map_cons, List.map_nil, List.sum_cons,
        List.sum_nil, Microtask.stage]
      omega
    | decrypt m sender =>
      change ((rest ++ [Microtask.finish m _]).map Microtask.stage).sum + 1 = _
      simp only [List.map_append, List.sum_append, List.map_cons, List.map_nil, List.sum_cons,
        List.sum_nil, Microtask.stage]
      omega
    | finish m result =>
      have hafter : ({ s with queue := rest }.react (.finish m result)).queue = rest := by
        cases result with
        | error reason => rfl
        | ok ev =>
          exact (accept_fields { s with queue := rest, attempts := s.attempts ++ [m] } m.n ev).1
      unfold work
      rw [hafter, Microtask.stage]
      omega

theorem iterate_microtask_queue : ∀ (n : ℕ) (s : Receiver), s.work = n →
    (microtask^[n] s).queue = []
  | 0, s, h => by
    cases hqueue : s.queue with
    | nil => exact hqueue
    | cons t rest =>
      unfold work at h
      rw [hqueue] at h
      cases t <;> simp [Microtask.stage] at h
  | n + 1, s, h => by
    have hne : s.queue ≠ [] := by
      intro hqueue
      unfold work at h
      rw [hqueue] at h
      cases h
    have hwork := work_microtask hne
    exact iterate_microtask_queue n s.microtask (by omega)

/-- No reaction is due after a drain. -/
theorem drain_queue (s : Receiver) : s.drain.queue = [] := iterate_microtask_queue s.work s rfl

theorem drain_keeps (s : Receiver) : s.drain.going = s.going ∧ s.drain.table = s.table := by
  have hiterate : ∀ (n : ℕ) (s : Receiver),
      (microtask^[n] s).going = s.going ∧ (microtask^[n] s).table = s.table := by
    intro n
    induction n with
    | zero => exact fun s => ⟨rfl, rfl⟩
    | succ n ih =>
      intro s
      obtain ⟨hgoing, htable⟩ := ih s.microtask
      exact ⟨hgoing.trans (going_microtask s), htable.trans (table_microtask s)⟩
  exact hiterate s.work s

/-! ### The bridge's client -/

/-- Where the client of the bridge starts from. -/
def ofBridge (s : BridgeClient) : Receiver := create .mcpBridge s.codec s.xpriv s.channels

theorem decryptMsg_ofBridge (s : BridgeClient) (m : MsgFrame) (sender : PeerInfo) :
    (ofBridge s).decryptMsg m sender = s.decryptMsg m sender := rfl

end Receiver

end Dap
