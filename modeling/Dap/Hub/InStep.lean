import Dap.Hub.Twins

/-! Handlers of twin frames keep in step. -/
namespace Dap
open Proc

set_option synthInstance.maxSize 1000

/-! ### No handler forgets a section -/

section Extends

variable (P : Platform) (c d : ConnID) (r : Reply) (f : Frame) (raw : Raw)

instance (event : String) (kvs : Hub → List (String × String)) : Extends (logf event kvs) :=
  Extends.modify _ _

instance (reason : CloseReason) : Extends (closedAs c reason) := Extends.modify _ _

instance : Extends (drop c) := Extends.modify _ _

instance (g : Conn → Conn) : Extends (setOwn c g) := Extends.modify _ _

instance : Extends (ownConn c) := Extends.read _ _

instance : Extends (release c r) := Extends.modify _ _

instance (id : String) : Extends (enqueue id f) := Extends.atomically _ _

instance (id : String) : Extends (drain id) := Extends.atomically _ _

instance (id : String) : Extends (touchLastSeen id) := Extends.modify _ _

instance (id : String) : Extends (lookupAgent id) := Extends.read _ _

instance : Extends presenceList := Extends.read _ _

instance : Extends (sendFrame c r) := by
  unfold sendFrame
  infer_instance

instance (code msg : String) : Extends (sendErr c code msg) := by
  unfold sendErr
  infer_instance

instance (code msg : String) : Extends (reject c code msg) := by
  unfold reject
  infer_instance

instance (peers : List ConnID) (id : String) (e : AgentEntry) :
    Extends (sendPresence peers id e) := by
  unfold sendPresence
  infer_instance

instance (p : EntryPtr) : Extends (readEntry p) := by
  unfold readEntry
  infer_instance

instance : Extends (register c) := by
  unfold register
  infer_instance

instance : Extends (handleFlush c) := by
  unfold handleFlush
  infer_instance

instance : Extends (deregister c) := by
  unfold deregister
  refine .of_bind inferInstance fun _ => .of_bind inferInstance fun left => ?_
  cases left <;> infer_instance

instance : Extends (handleWhois c f) := by
  unfold handleWhois
  refine .of_bind inferInstance fun found => ?_
  cases found <;> infer_instance

instance : Extends (handlePresenceQuery c f) := by
  unfold handlePresenceQuery
  infer_instance

instance (name chanPub : String) : Extends (joinChannel P c name chanPub) := by
  unfold joinChannel
  refine .of_bind inferInstance fun outcome => ?_
  cases outcome <;> infer_instance

instance : Extends (handleJoin P c f) := by
  unfold handleJoin
  split
  · infer_instance
  · refine .of_bind inferInstance fun refused => ?_
    cases refused <;> infer_instance

instance : Extends (deliverDM c f) := by
  unfold deliverDM
  refine .of_bind inferInstance fun k => .of_bind inferInstance fun found => ?_
  cases found with
  | none => infer_instance
  | some e =>
    refine .of_bind inferInstance fun target => ?_
    cases target <;> infer_instance

instance : Extends (deliverChannel P c f) := by
  unfold deliverChannel
  refine .of_bind inferInstance fun k => .of_bind inferInstance fun targets => ?_
  cases targets <;> infer_instance

instance : Extends (deliver P c f) := by
  unfold deliver
  infer_instance

instance : Extends (handleSend P c f raw) := by
  unfold handleSend
  refine .of_bind inferInstance fun k => ?_
  split <;> infer_instance

instance : Extends (welcome P c f) := by
  unfold welcome
  infer_instance

instance : Extends (handleHello P c f raw) := by
  unfold handleHello
  refine .of_bind inferInstance fun _ => .of_bind inferInstance fun _ =>
    .of_bind inferInstance fun k => ?_
  split
  · infer_instance
  · refine .of_bind inferInstance fun refused => ?_
    cases refused <;> infer_instance

instance (op : EnrollOp) : Extends (enroll P c op) := by
  unfold enroll
  infer_instance

instance (op id : String) (code : Conn → String) : Extends (logOp c op id code) :=
  inferInstanceAs (Extends (logf _ _))

theorem extends_handler {op : String} {handle : HubProc Unit}
    (h : handler P c op f raw = some handle) : Extends handle := by
  unfold handler handleEnroll handleEnrollCreate at h
  split_ifs at h <;> exact Option.some.inj h ▸ inferInstance

instance : Extends (dispatchFrame P c f raw) := by
  unfold dispatchFrame
  refine .of_bind inferInstance fun k => ?_
  split
  · infer_instance
  · refine .of_bind inferInstance fun _ => ?_
    split
    next handle h =>
      have := extends_handler P c f raw h
      infer_instance
    · infer_instance

instance (data : Bytes) : Extends (dispatch P c data) := by
  unfold dispatch
  refine .of_bind inferInstance fun _ => ?_
  split <;> infer_instance

instance (messages : List Message) : Extends (readLoop P c messages) := by
  induction messages with
  | nil => exact Extends.pure _
  | cons m rest ih =>
    unfold readLoop
    cases m <;> infer_instance

instance (remote : String) (messages : List Message) : Extends (serve P c remote messages) := by
  unfold serve
  infer_instance

end Extends

/-! ### Primitives -/

/-- How the sections of a connection's read loop are compared; `keys` are the keys it may speak
for. -/
def twins (sent : Frame → Frame → Prop) (keys : String → Prop) (c : ConnID) :
    Comparison Hub Hub Label Label where
  before h h' := HubTwin sent h h' ∧ keys (h.conns c).pubkey
  after := HubTwin sent
  label := LabelTwin sent

namespace Twins

variable {sent : Frame → Frame → Prop} {keys : String → Prop} {P : Platform} {c d : ConnID}
  {r r' : Reply} {f f' : Frame}

theorem blind {α : Type} {g : Hub → α × Hub} (hg : Blind g) (l : Label) :
    (twins sent keys c).Agree (atomically l g) (atomically l g) Eq :=
  .atomically (.same l) fun _ _ hb => hg.twin hb.1

theorem read {α : Type} {g : Hub → α} {l l' : Label} (hl : LabelTwin sent l l')
    (hg : ∀ h mail queues, g (Hub.swap h mail queues) = g h) :
    (twins sent keys c).Agree (Proc.read l g) (Proc.read l' g) Eq := by
  refine .atomically hl fun s s' hb => ⟨hb.1, ?_⟩
  rw [hb.1.rest]
  exact (hg s _ _).symm

theorem modify {g : Hub → Hub} {l l' : Label} (hl : LabelTwin sent l l')
    (hg : ∀ h mail queues, g (Hub.swap h mail queues) = (g h).swap mail queues) :
    (twins sent keys c).Agree (Proc.modify l g) (Proc.modify l' g) fun _ _ => True := by
  refine .modify hl fun s s' hb => ?_
  have hblind : Blind fun h => ((), g h) := fun h mail queues => congrArg _ (hg h mail queues)
  exact (hblind.twin hb.1).1

theorem logf (event : String) {kvs : Hub → List (String × String)}
    (hkvs : ∀ h mail queues, kvs (Hub.swap h mail queues) = kvs h) :
    (twins sent keys c).Agree (Dap.logf event kvs) (Dap.logf event kvs) fun _ _ => True := by
  refine modify (.same _) fun h mail queues => ?_
  rw [hkvs]
  rfl

theorem setOwn {g : Conn → Conn} (hg : ∀ k q, g { k with send := q } = { g k with send := q }) :
    (twins sent keys c).Agree (Dap.setOwn d g) (Dap.setOwn d g) fun _ _ => True :=
  modify (.same _) fun h mail queues => h.swap_updConn mail queues d g hg

/-- A connection reads its own record. -/
theorem ownConn : (twins sent keys c).Agree (Dap.ownConn c) (Dap.ownConn c)
    fun k k' => (∃ q, k' = { k with send := q }) ∧ keys k.pubkey := by
  refine .atomically (.same _) fun s s' hb => ⟨hb.1, ⟨(s'.conns c).send, ?_⟩, hb.2⟩
  rw [hb.1.rest]

/-- The same program continues with the same result. -/
theorem bind_same {α β : Type} {p p' : HubProc α} {k : α → HubProc β} {Q : β → β → Prop}
    (hx : ∀ a, Extends (k a)) (hp : (twins sent keys c).Agree p p' Eq)
    (hk : ∀ a, (twins sent keys c).Agree (k a) (k a) Q) :
    (twins sent keys c).Agree (p >>= k) (p' >>= k) Q := by
  refine .bind_of hx hx hp ?_
  rintro a _ rfl
  exact hk a

theorem bind_own {β : Type} {k : Conn → HubProc β} {Q : β → β → Prop}
    (hx : ∀ a, Extends (k a))
    (hk : ∀ a q, (twins sent keys c).Agree (k a) (k { a with send := q }) Q) :
    (twins sent keys c).Agree (Dap.ownConn c >>= k) (Dap.ownConn c >>= k) Q := by
  refine .bind_of hx hx ownConn ?_
  rintro a _ ⟨⟨q, rfl⟩, -⟩
  exact hk a q

theorem closedAs (reason : CloseReason) :
    (twins sent keys c).Agree (Dap.closedAs d reason) (Dap.closedAs d reason) fun _ _ => True :=
  modify (.same _) fun h mail queues => h.swap_closedAs mail queues d reason

theorem drop : (twins sent keys c).Agree (Dap.drop d) (Dap.drop d) fun _ _ => True :=
  modify (.same _) fun h mail queues => h.swap_dropped mail queues d

/-! ### Sending -/

theorem sendFrame (hr : ReplyTwin sent r r') :
    (twins sent keys c).Agree (Dap.sendFrame d r) (Dap.sendFrame d r') Eq := by
  have hrelease : (twins sent keys c).Agree (release d r) (release d r') fun _ _ => True := by
    unfold release
    rw [hr.length]
    exact modify (.release d hr) fun h mail queues => h.swap_updConn mail queues d _ fun _ _ => rfl
  unfold Dap.sendFrame
  refine .bind (read (.load d hr) fun _ _ _ => rfl) ?_
  rintro queued _ rfl
  rw [hr.length]
  split
  · refine .seq (logf _ fun _ _ _ => rfl) fun _ _ => ?_
    refine .seq (closedAs _) fun _ _ => ?_
    exact .seq drop fun _ _ => .pure rfl
  · refine .seq (modify (.reserve d hr) fun h mail queues =>
      h.swap_updConn mail queues d _ fun _ _ => rfl) fun _ _ => ?_
    refine .bind (read (.same _) fun _ _ _ => rfl) ?_
    rintro closed _ rfl
    split
    · exact .seq hrelease fun _ _ => .pure rfl
    · refine .bind (.guarded (.select d hr) fun pick s a u s' b u' hb ha hb' =>
        trySend_twin hb.1 hr d pick ha hb') ?_
      rintro pushed _ rfl
      split
      · exact .pure rfl
      · exact .seq hrelease fun _ _ => .pure rfl

/-- Frames without a ciphertext. -/
theorem answer (hf : f.ciphertext = "") : (twins sent keys c).Agree
    (Dap.sendFrame d (.frame f)) (Dap.sendFrame d (.frame f)) Eq :=
  sendFrame (.plain hf)

theorem sendErr (code msg : String) : (twins sent keys c).Agree (Dap.sendErr d code msg)
    (Dap.sendErr d code msg) fun _ _ => True := by
  unfold Dap.sendErr
  refine .seq (setOwn fun _ _ => rfl) fun _ _ => ?_
  refine .seq (logf _ fun _ _ _ => rfl) fun _ _ => ?_
  exact .bind (answer rfl) fun _ _ _ => .pure trivial

theorem reject (code msg : String) : (twins sent keys c).Agree (Dap.reject d code msg)
    (Dap.reject d code msg) fun _ _ => True := by
  unfold Dap.reject
  refine .seq (setOwn fun _ _ => rfl) fun _ _ => ?_
  refine .seq (logf _ fun _ _ _ => rfl) fun _ _ => ?_
  refine .bind (M := Eq) (.guarded (.same _) ?_) ?_
  · intro pick s a u s' b u' hb hu hu'
    have hset := hb.1.updConn_blind d
      (fun k => { k with rejectCh := some (.frame (errorFrame code msg)) }) fun _ _ => rfl
    have hclosed : (s'.conns d).closed = (s.conns d).closed := by rw [hb.1.rest]
    have hch : (s'.conns d).rejectCh = (s.conns d).rejectCh := by rw [hb.1.rest]
    dsimp only at hu hu'
    rw [hclosed, hch] at hu'
    split at hu
    next hfree =>
      rw [if_pos hfree] at hu'
      obtain ⟨rfl, rfl⟩ := Prod.mk.inj (Option.some.inj hu)
      obtain ⟨rfl, rfl⟩ := Prod.mk.inj (Option.some.inj hu')
      exact ⟨hset, rfl⟩
    next hfree =>
      rw [if_neg hfree] at hu'
      split at hu
      next hc =>
        rw [if_pos hc] at hu'
        obtain ⟨rfl, rfl⟩ := Prod.mk.inj (Option.some.inj hu)
        obtain ⟨rfl, rfl⟩ := Prod.mk.inj (Option.some.inj hu')
        exact ⟨hb.1, rfl⟩
      next => cases hu
  · rintro pushed _ rfl
    split
    · refine .guarded (.same _) fun pick s a u s' b u' hb hu hu' => ?_
      split at hu
      · split at hu'
        · obtain ⟨-, rfl⟩ := Prod.mk.inj (Option.some.inj hu)
          obtain ⟨-, rfl⟩ := Prod.mk.inj (Option.some.inj hu')
          exact ⟨hb.1, trivial⟩
        · cases hu'
      · cases hu
    · exact .pure trivial

/-! ### Presence -/

theorem sendPresence (peers : List ConnID) (agentID : String) (e : AgentEntry) :
    (twins sent keys c).Agree (Dap.sendPresence peers agentID e)
      (Dap.sendPresence peers agentID e) fun _ _ => True := by
  unfold Dap.sendPresence
  split
  · exact .pure trivial
  · refine .bind (read (.same _) fun _ _ _ => rfl) ?_
    rintro now _ rfl
    refine .forM (List.forall₂_same.mpr fun p _ => Eq.refl p) ?_
    rintro p _ rfl
    exact .bind (answer rfl) fun _ _ _ => .pure trivial

theorem readEntry (p : EntryPtr) : (twins sent keys c).Agree (Dap.readEntry p) (Dap.readEntry p)
    Eq := by
  unfold Dap.readEntry
  refine .bind (read (.same _) fun _ _ _ => rfl) ?_
  rintro name _ rfl
  refine .bind (read (.same _) fun _ _ _ => rfl) ?_
  rintro x25519 _ rfl
  refine .bind (read (.same _) fun _ _ _ => rfl) ?_
  rintro pubkey _ rfl
  exact .pure rfl

theorem register : (twins sent keys c).Agree (Dap.register c) (Dap.register c)
    fun _ _ => True := by
  unfold Dap.register
  refine .bind (blind (blind_registerLocked c) _) ?_
  rintro a _ rfl
  refine .bind (read (.same _) fun _ _ _ => rfl) ?_
  rintro id _ rfl
  refine .bind (readEntry _) ?_
  rintro e _ rfl
  exact sendPresence _ _ _

theorem deregister : (twins sent keys c).Agree (Dap.deregister c) (Dap.deregister c)
    fun _ _ => True := by
  unfold Dap.deregister
  refine .seq drop fun _ _ => ?_
  refine bind_same (fun left => by cases left <;> infer_instance)
    (.guarded (.same _) fun pick s a u s' b u' hb => deregisterLocked_twin hb.1) ?_
  intro left
  cases left with
  | none => exact .pure trivial
  | some left =>
    refine .bind (read (.same _) fun _ _ _ => rfl) ?_
    rintro id _ rfl
    refine .bind (readEntry _) ?_
    rintro e _ rfl
    exact sendPresence _ _ _

theorem lookupAgent (id : String) : (twins sent keys c).Agree (Dap.lookupAgent id)
    (Dap.lookupAgent id) Eq := read (.same _) fun _ _ _ => rfl

theorem handleWhois (f : Frame) : (twins sent keys c).Agree (Dap.handleWhois c f)
    (Dap.handleWhois c f) fun _ _ => True := by
  unfold Dap.handleWhois
  refine bind_same (fun found => by cases found <;> infer_instance) (lookupAgent _) ?_
  intro found
  cases found with
  | none => exact sendErr _ _
  | some e => exact .bind (answer rfl) fun _ _ _ => .pure trivial

theorem handlePresenceQuery (f : Frame) : (twins sent keys c).Agree (Dap.handlePresenceQuery c f)
    (Dap.handlePresenceQuery c f) fun _ _ => True := by
  unfold Dap.handlePresenceQuery
  refine .bind (read (.same _) fun _ _ _ => rfl) ?_
  rintro list _ rfl
  exact .bind (answer rfl) fun _ _ _ => .pure trivial

/-! ### Hello and enrollment -/

theorem welcome (f : Frame) : (twins sent keys c).Agree (Dap.welcome P c f) (Dap.welcome P c f)
    fun _ _ => True := by
  unfold Dap.welcome
  refine .bind ownConn ?_
  rintro k _ ⟨⟨q, rfl⟩, -⟩
  split
  · exact reject _ _
  · refine .seq (setOwn fun _ _ => rfl) fun _ _ => ?_
    refine .seq register fun _ _ => ?_
    exact .bind (answer rfl) fun _ _ _ => .pure trivial

theorem handleHello (f : Frame) (raw : Raw) : (twins sent keys c).Agree
    (Dap.handleHello P c f raw) (Dap.handleHello P c f raw) fun _ _ => True := by
  unfold Dap.handleHello
  refine .seq (setOwn fun k q => ?_) fun _ _ => ?_
  · unfold Conn.traced
    cases Bytes.base64Decode f.pubkey <;> rfl
  refine .seq (logf _ fun _ _ _ => rfl) fun _ _ => ?_
  refine bind_own (fun k => ?_) fun k q => ?_
  · split
    · infer_instance
    · refine .of_bind inferInstance fun refused => ?_
      cases refused <;> infer_instance
  dsimp only
  split
  · exact sendErr _ _
  · refine bind_same (fun refused => by cases refused <;> infer_instance)
      (blind (fun _ _ _ => rfl) _) ?_
    intro refused
    cases refused with
    | none => exact welcome f
    | some e => exact reject _ _

theorem enroll (op : EnrollOp) : (twins sent keys c).Agree (Dap.enroll P c op) (Dap.enroll P c op)
    fun _ _ => True := by
  unfold Dap.enroll
  refine .bind ownConn ?_
  rintro k _ ⟨⟨q, rfl⟩, -⟩
  split
  · exact sendErr _ _
  · refine .bind (blind (fun _ _ _ => rfl) _) ?_
    rintro secret _ rfl
    refine .seq (modify (.same _) fun _ _ _ => rfl) fun _ _ => ?_
    refine .seq (logf _ fun _ _ _ => rfl) fun _ _ => ?_
    exact .bind (sendFrame (.enrolled secret)) fun _ _ _ => .pure trivial

/-! ### Mailboxes and channels -/

theorem enqueue (hf : FrameTwin sent f f') (id : String) :
    (twins sent keys c).Agree (Dap.enqueue id f) (Dap.enqueue id f') Eq :=
  .atomically (.enqueue id hf) fun _ _ hb => hb.1.enqueue hf id

theorem handleFlush : (twins sent keys c).Agree (Dap.handleFlush c) (Dap.handleFlush c)
    fun _ _ => True := by
  unfold Dap.handleFlush
  refine bind_own (fun _ => inferInstance) fun k q => ?_
  refine .bind (M := fun (a b : List Frame × Bool) =>
      List.Forall₂ (FrameTwin sent) a.1 b.1 ∧ a.2 = b.2)
    (.atomically (.same _) fun _ _ hb => hb.1.drain k.agentID) ?_
  rintro ⟨msgs, dropped⟩ ⟨msgs', _⟩ ⟨hmsgs, rfl⟩
  refine .seq (.forM hmsgs fun m m' hm => .seq ?_ fun _ _ => .pure trivial) fun _ _ => ?_
  · exact (sendFrame (.frame hm)).mono fun _ _ _ => trivial
  have hlen := hmsgs.length_eq
  dsimp only at hlen ⊢
  rw [← hlen]
  have hend : (twins sent keys c).Agree
      (do
        let _ ← Dap.sendFrame c (.frame (flushedFrame msgs.length))
        Dap.logf "flush" fun _ => [("agent", k.agentID), ("count", toString msgs.length),
          ("overflowed", toString dropped)])
      (do
        let _ ← Dap.sendFrame c (.frame (flushedFrame msgs.length))
        Dap.logf "flush" fun _ => [("agent", k.agentID), ("count", toString msgs.length),
          ("overflowed", toString dropped)]) fun _ _ => True :=
    .bind (answer rfl) fun _ _ _ => logf _ fun _ _ _ => rfl
  split
  · exact .seq (sendErr _ _) fun _ _ => hend
  · exact hend

theorem joinChannel (name chanPub : String) : (twins sent keys c).Agree
    (Dap.joinChannel P c name chanPub) (Dap.joinChannel P c name chanPub) Eq := by
  unfold Dap.joinChannel
  refine bind_same (fun outcome => by cases outcome <;> infer_instance)
    (blind (blind_joinLocked P c name chanPub) _) ?_
  intro outcome
  cases outcome with
  | noMaster => exact .seq (logf _ fun _ _ _ => rfl) fun _ _ => .pure rfl
  | notAllowed => exact .seq (logf _ fun _ _ _ => rfl) fun _ _ => .pure rfl
  | joined created rejoin peers =>
    refine bind_own (fun _ => inferInstance) fun k q => ?_
    refine .seq (sendPresence _ _ _) fun _ _ => ?_
    exact .seq (logf _ fun _ _ _ => rfl) fun _ _ => .pure rfl

theorem handleJoin (f : Frame) : (twins sent keys c).Agree (Dap.handleJoin P c f)
    (Dap.handleJoin P c f) fun _ _ => True := by
  unfold Dap.handleJoin
  split
  · exact sendErr _ _
  · refine bind_same (fun refused => by cases refused <;> infer_instance) (joinChannel _ _) ?_
    intro refused
    cases refused with
    | none => exact .bind (answer rfl) fun _ _ _ => .pure trivial
    | some e => exact sendErr _ _

/-! ### Routing -/

/-- A channel message is routed alike whatever its ciphertext. -/
theorem deliverChannel (hf : SendTwin f f') (hs : sent f f') : (twins sent keys c).Agree
    (Dap.deliverChannel P c f) (Dap.deliverChannel P c f') Eq := by
  obtain ⟨x, s, hx, rfl⟩ := hf
  unfold Dap.deliverChannel
  refine .bind_of ?left ?right ownConn ?main
  case left | right =>
    intro k
    exact .of_bind inferInstance fun targets => by cases targets <;> infer_instance
  rintro k _ ⟨⟨q, rfl⟩, -⟩
  have hmsg : FrameTwin sent (channelMsg k.agentID f)
      (channelMsg k.agentID { f with ciphertext := x, sig := s }) :=
    .channel _ _ _ ⟨x, s, hx, rfl⟩ hs
  refine .bind_of (fun targets => by cases targets <;> infer_instance)
    (fun targets => by cases targets <;> infer_instance) (read (.same _) fun _ _ _ => rfl) ?_
  rintro targets _ rfl
  cases targets with
  | error e =>
    refine .seq (logf _ fun _ _ _ => rfl) fun _ _ => ?_
    exact .seq (sendErr _ _) fun _ _ => .pure rfl
  | ok t =>
    refine .seq (.forM (List.forall₂_same.mpr fun m _ => Eq.refl m) ?_) fun _ _ => ?_
    · rintro m _ rfl
      exact .bind (sendFrame (.frame hmsg)) fun _ _ _ => .pure trivial
    refine .seq (.forM (List.forall₂_same.mpr fun m _ => Eq.refl m) ?_) fun _ _ => ?_
    · rintro id _ rfl
      exact .bind (enqueue hmsg id) fun _ _ _ => .pure trivial
    exact .seq (logf _ fun _ _ _ => rfl) fun _ _ => .pure rfl

theorem deliverDM (hf : SendTwin f f') (hs : sent f f') : (twins sent keys c).Agree
    (Dap.deliverDM c f) (Dap.deliverDM c f') Eq := by
  obtain ⟨x, s, hx, rfl⟩ := hf
  unfold Dap.deliverDM
  refine .bind_of ?left ?right ownConn ?main
  case left | right =>
    intro k
    refine .of_bind inferInstance fun found => ?_
    cases found with
    | none => infer_instance
    | some e => exact .of_bind inferInstance fun target => by cases target <;> infer_instance
  rintro k _ ⟨⟨q, rfl⟩, -⟩
  have hmsg : FrameTwin sent (dmMsg k.agentID f)
      (dmMsg k.agentID { f with ciphertext := x, sig := s }) :=
    .dm _ _ _ ⟨x, s, hx, rfl⟩ hs
  dsimp only
  refine .bind_of ?found ?found' (lookupAgent _) ?next
  case found | found' =>
    intro found
    cases found with
    | none => infer_instance
    | some e => exact .of_bind inferInstance fun target => by cases target <;> infer_instance
  rintro found _ rfl
  cases found with
  | none =>
    refine .seq (logf _ fun _ _ _ => rfl) fun _ _ => ?_
    exact .seq (sendErr _ _) fun _ _ => .pure rfl
  | some e =>
    refine .bind_of (fun target => by cases target <;> infer_instance)
      (fun target => by cases target <;> infer_instance) (read (.same _) fun _ _ _ => rfl) ?_
    rintro target _ rfl
    have hstore : ∀ result, (twins sent keys c).Agree (do
          let size ← Dap.enqueue f.to (dmMsg k.agentID f)
          Dap.logf "dm" fun h => [("agent", (h.conns c).logAgent), ("to", f.to),
            ("result", result), ("size", toString size)]
          return true : HubProc Bool) (do
          let size ← Dap.enqueue f.to (dmMsg k.agentID { f with ciphertext := x, sig := s })
          Dap.logf "dm" fun h => [("agent", (h.conns c).logAgent), ("to", f.to),
            ("result", result), ("size", toString size)]
          return true : HubProc Bool) Eq := by
      intro result
      refine .bind (enqueue hmsg _) ?_
      rintro size _ rfl
      exact .seq (logf _ fun _ _ _ => rfl) fun _ _ => .pure rfl
    cases target with
    | none => exact hstore "mailbox"
    | some target =>
      refine .bind (sendFrame (.frame hmsg)) ?_
      rintro pushed _ rfl
      split
      · exact .seq (logf _ fun _ _ _ => rfl) fun _ _ => .pure rfl
      · exact hstore "mailbox_after_drop"

theorem deliver (hf : SendTwin f f') (hs : sent f f') : (twins sent keys c).Agree
    (Dap.deliver P c f) (Dap.deliver P c f') Eq := by
  have hto : f'.to = f.to := by
    obtain ⟨x, s, -, rfl⟩ := hf
    rfl
  unfold Dap.deliver
  rw [hto]
  split
  · exact deliverDM hf hs
  · exact deliverChannel hf hs

theorem handleSend (raw raw' : Raw) (hf : SendTwin f f') (hs : sent f f')
    (hsig : ∀ pub, keys pub → verifySignature P f raw pub = verifySignature P f' raw' pub) :
    (twins sent keys c).Agree (Dap.handleSend P c f raw) (Dap.handleSend P c f' raw')
      fun _ _ => True := by
  have hdeliver : (twins sent keys c).Agree (Dap.deliver P c f) (Dap.deliver P c f') Eq :=
    deliver hf hs
  obtain ⟨x, s, hx, rfl⟩ := hf
  unfold Dap.handleSend
  refine .bind_of ?left ?right ownConn ?main
  case left | right =>
    intro k
    split <;> infer_instance
  rintro k _ ⟨⟨q, rfl⟩, hk⟩
  dsimp only
  rw [← hsig k.pubkey hk]
  split
  · exact sendErr _ _
  refine .bind (read (.same _) fun _ _ _ => rfl) ?_
  rintro now _ rfl
  split
  · exact sendErr _ _
  split
  · exact sendErr _ _
  refine .bind (read (.same _) fun _ _ _ => rfl) ?_
  rintro used _ rfl
  split
  · exact sendErr _ _
  refine .bind hdeliver ?_
  rintro accepted _ rfl
  split
  · exact modify (.same _) fun _ _ _ => rfl
  · exact .pure trivial

/-! ### The read loop -/

theorem touchLastSeen (id : String) : (twins sent keys c).Agree (Dap.touchLastSeen id)
    (Dap.touchLastSeen id) fun _ _ => True :=
  modify (.same _) fun h mail queues =>
    congrArg Prod.snd (blind_touchLastSeenLocked id h mail queues)

/-- Every handler keeps in step with itself on a frame that is the same in both runs. -/
theorem handler_same {op : String} {raw : Raw} {handle : HubProc Unit}
    (hs : op = "send" → sent f f) (hh : Dap.handler P c op f raw = some handle) :
    (twins sent keys c).Agree handle handle fun _ _ => True := by
  unfold Dap.handler at hh
  split at hh
  · exact Option.some.inj hh ▸ handleHello f raw
  split at hh
  · exact Option.some.inj hh ▸ handleWhois f
  split at hh
  · exact Option.some.inj hh ▸ handlePresenceQuery f
  split at hh
  · exact Option.some.inj hh ▸ handleJoin f
  split at hh
  next hop =>
    have hf : SendTwin f f := ⟨f.ciphertext, f.sig, rfl, rfl⟩
    exact Option.some.inj hh ▸ handleSend raw raw hf (hs hop) fun _ _ => rfl
  split at hh
  · exact Option.some.inj hh ▸ handleFlush
  split at hh
  · exact Option.some.inj hh ▸ enroll .enroll
  split at hh
  · exact Option.some.inj hh ▸ enroll .enrollCreate
  · simp at hh

theorem logOp (op id : String) {code : Conn → String}
    (hcode : ∀ k q, code { k with send := q } = code k) : (twins sent keys c).Agree
    (Dap.logOp c op id code) (Dap.logOp c op id code) fun _ _ => True := by
  refine logf _ fun h mail queues => ?_
  dsimp only
  rw [hcode]
  rfl

theorem dispatchFrame {raw raw' : Raw} (hop : frameOp f' raw' = frameOp f raw)
    (hid : f'.id = f.id)
    (hh : Option.Rel (fun p p' => (twins sent keys c).Agree p p' fun _ _ => True)
      (Dap.handler P c (frameOp f raw) f raw) (Dap.handler P c (frameOp f raw) f' raw')) :
    (twins sent keys c).Agree (Dap.dispatchFrame P c f raw) (Dap.dispatchFrame P c f' raw')
      fun _ _ => True := by
  unfold Dap.dispatchFrame
  refine .bind_of ?left ?right ownConn ?main
  case main =>
    rintro k _ ⟨⟨q, rfl⟩, -⟩
    dsimp only
    rw [hop, hid]
    split
    · exact .seq (sendErr _ _) fun _ _ => logOp _ _ fun _ _ => rfl
    refine .seq (touchLastSeen _) fun _ _ => ?_
    revert hh
    generalize Dap.handler P c (frameOp f raw) f raw = p
    generalize Dap.handler P c (frameOp f raw) f' raw' = p'
    intro hh
    cases hh with
    | none => exact .seq (sendErr _ _) fun _ _ => logOp _ _ fun _ _ => rfl
    | some hh => exact .seq hh fun _ _ => logOp _ _ fun _ _ => rfl
  all_goals
    intro k
    split
    · infer_instance
    refine .of_bind inferInstance fun _ => ?_
    split
    next handle h =>
      have := extends_handler P c _ _ h
      infer_instance
    · infer_instance

end Twins

end Dap
