import Dap.Hub.System
import Mathlib.Data.List.DropRight

/-! Where the frames of a send end up, over every schedule: the traces of `sendFrame`, `deliverDM`
and `deliverChannel` (`hub/relay.go`, `hub/channels.go`). -/
namespace Dap
open Proc

/-- The queue case of the final `select` could be taken: there is room, and either the closed case
is not ready or the choice falls on the queue. -/
def QueueReady (d : ConnID) (e : HubSection) : Prop :=
  (e.pre.conns d).send.length < sendBuffer ∧ ((e.pre.conns d).closed = false ∨ e.pick = true)

/-- The ways a call of `sendFrame` can go. -/
inductive SendTrace (d : ConnID) (r : Reply) : Bool → List HubSection → Prop where
  | shed {load log closedAs drop : HubSection} (hload : load.label = .load d r)
      (hover : (load.pre.conns d).queued + r.length > maxQueuedBytes) (hlog : log.label = .log)
      (hclosedAs : closedAs.label = .closedAs d) (hdrop : drop.label = .drop d) :
      SendTrace d r false [load, log, closedAs, drop]
  | gone {load reserve check release : HubSection} (hload : load.label = .load d r)
      (hunder : (load.pre.conns d).queued + r.length ≤ maxQueuedBytes)
      (hreserve : reserve.label = .reserve d r) (hcheck : check.label = .checkClosed d)
      (hclosed : (check.pre.conns d).closed = true) (hrelease : release.label = .release d r) :
      SendTrace d r false [load, reserve, check, release]
  | queued {load reserve check select : HubSection} (hload : load.label = .load d r)
      (hunder : (load.pre.conns d).queued + r.length ≤ maxQueuedBytes)
      (hreserve : reserve.label = .reserve d r) (hcheck : check.label = .checkClosed d)
      (hopen : (check.pre.conns d).closed = false) (hselect : select.label = .select d r)
      (hready : QueueReady d select)
      (hpost : (select.post.conns d).send = (select.pre.conns d).send ++ [r]) :
      SendTrace d r true [load, reserve, check, select]
  | missed {load reserve check select release : HubSection} (hload : load.label = .load d r)
      (hunder : (load.pre.conns d).queued + r.length ≤ maxQueuedBytes)
      (hreserve : reserve.label = .reserve d r) (hcheck : check.label = .checkClosed d)
      (hopen : (check.pre.conns d).closed = false) (hselect : select.label = .select d r)
      (hready : ¬ QueueReady d select) (hpost : select.post = select.pre)
      (hrelease : release.label = .release d r) :
      SendTrace d r false [load, reserve, check, select, release]

theorem trySend_spec {d : ConnID} {r : Reply} {pick ok : Bool} {s s' : Hub}
    (h : trySend d r pick s = some (ok, s')) :
    let e : HubSection := ⟨.select d r, s, s', pick⟩
    (ok = true → QueueReady d e ∧ (s'.conns d).send = (s.conns d).send ++ [r]) ∧
      (ok = false → ¬ QueueReady d e ∧ s' = s) := by
  unfold trySend at h
  dsimp only at h
  split at h
  next hready =>
    obtain ⟨rfl, rfl⟩ : true = ok ∧ _ = s' := by simpa using h
    exact ⟨fun _ => ⟨hready, by simp⟩, fun hf => Bool.noConfusion hf⟩
  next hready =>
    split at h
    · obtain ⟨rfl, rfl⟩ : false = ok ∧ s = s' := by simpa using h
      exact ⟨fun hf => Bool.noConfusion hf, fun _ => ⟨hready, rfl⟩⟩
    · simp at h

/-- One section with a given label. -/
def OneLabelled (label : Label) (t : List HubSection) : Prop := ∃ e, t = [e] ∧ e.label = label

theorem records_release (d : ConnID) (r : Reply) :
    Records (release d r) fun _ t => OneLabelled (.release d r) t :=
  Records.modify fun _ _ => ⟨_, rfl, rfl⟩

theorem records_logf (event : String) (kvs : Hub → List (String × String)) :
    Records (logf event kvs) fun _ t => OneLabelled .log t :=
  Records.modify fun _ _ => ⟨_, rfl, rfl⟩

theorem records_sendFrame (d : ConnID) (r : Reply) : Records (sendFrame d r) (SendTrace d r) := by
  unfold sendFrame
  refine Records.bind (Q := fun queued t => ∃ e : HubSection, t = [e] ∧ e.label = .load d r ∧
    queued = (e.pre.conns d).queued) (Records.read fun _ _ => ⟨_, rfl, rfl, rfl⟩) ?_
  rintro queued _ ⟨load, rfl, hload, rfl⟩
  split
  next hover =>
    refine Records.bind (records_logf _ _) ?_
    rintro - _ ⟨log, rfl, hlog⟩
    refine Records.bind (Q := fun _ t => OneLabelled (.closedAs d) t)
      (Records.modify fun _ _ => ⟨_, rfl, rfl⟩) ?_
    rintro - _ ⟨closedAs, rfl, hclosedAs⟩
    refine Records.bind (Q := fun _ t => OneLabelled (.drop d) t)
      (Records.modify fun _ _ => ⟨_, rfl, rfl⟩) ?_
    rintro - _ ⟨drop, rfl, hdrop⟩
    exact Records.pure (.shed hload hover hlog hclosedAs hdrop)
  next hunder =>
    refine Records.bind (Q := fun _ t => OneLabelled (.reserve d r) t)
      (Records.modify fun _ _ => ⟨_, rfl, rfl⟩) ?_
    rintro - _ ⟨reserve, rfl, hreserve⟩
    refine Records.bind (Q := fun closed t => ∃ e : HubSection, t = [e] ∧
      e.label = .checkClosed d ∧ closed = (e.pre.conns d).closed)
      (Records.read fun _ _ => ⟨_, rfl, rfl, rfl⟩) ?_
    rintro closed _ ⟨check, rfl, hcheck, rfl⟩
    split
    next hclosed =>
      refine Records.bind (records_release d r) ?_
      rintro - _ ⟨release, rfl, hrelease⟩
      exact Records.pure (.gone hload (not_lt.mp hunder) hreserve hcheck hclosed hrelease)
    next hopen =>
      have hopen' : (check.pre.conns d).closed = false := by simpa using hopen
      refine Records.bind (Q := fun ok t => ∃ e : HubSection, t = [e] ∧ e.label = .select d r ∧
        (ok = true → QueueReady d e ∧ (e.post.conns d).send = (e.pre.conns d).send ++ [r]) ∧
        (ok = false → ¬ QueueReady d e ∧ e.post = e.pre))
        (Records.guarded fun pick s ok s' h => ⟨_, rfl, rfl, trySend_spec h⟩) ?_
      rintro ok _ ⟨select, rfl, hselect, htrue, hfalse⟩
      split
      next hok =>
        obtain ⟨hready, hpost⟩ := htrue hok
        exact Records.pure (.queued hload (not_lt.mp hunder) hreserve hcheck hopen' hselect hready
          hpost)
      next hok =>
        obtain ⟨hready, hpost⟩ := hfalse (by simpa using hok)
        refine Records.bind (records_release d r) ?_
        rintro - _ ⟨release, rfl, hrelease⟩
        exact Records.pure (.missed hload (not_lt.mp hunder) hreserve hcheck hopen' hselect hready
          hpost hrelease)

/-! ### What a section hands over -/

/-- The mailbox of `id` once `g` is appended; beyond the cap the oldest frames give way. -/
def Hub.mailed (h : Hub) (id : String) (g : Frame) : List Frame :=
  (h.mailbox[id]?.getD [] ++ [g]).rtake mailboxCap

theorem Hub.mailed_eq (h : Hub) (id : String) (g : Frame) :
    h.mailed id g = (h.mailbox[id]?.getD []).rtake (mailboxCap - 1) ++ [g] :=
  List.rtake_concat_succ ..

theorem Hub.mailed_injective (h : Hub) (id : String) : Function.Injective (h.mailed id) := by
  intro g g' heq
  rw [mailed_eq, mailed_eq] at heq
  exact List.singleton_injective (List.append_cancel_left heq)

theorem Hub.enqueueLocked_mailbox (h : Hub) (id : String) (f : Frame) (r : String) :
    (h.enqueueLocked id f).2.mailbox[r]? = if id = r then some (h.mailed id f)
      else h.mailbox[r]? := by
  unfold enqueueLocked
  dsimp only
  split
  next => exact GoMap.getElem?_insert_ite _ _ _ _
  next hle =>
    have hkeep : h.mailed id f = h.mailbox[id]?.getD [] ++ [f] := by
      rw [mailed, List.rtake, Nat.sub_eq_zero_of_le (not_lt.mp hle), List.drop_zero]
    rw [hkeep]
    exact GoMap.getElem?_insert_ite _ _ _ _

/-- The frame `g` enters the queue of the connection `conn`, or is appended to the mailbox of `m`.
The label tells which of the two the section is about, and the states what it did. -/
def reaches (g : Frame) (m : String) (conn : Option ConnID) (e : HubSection) : Bool :=
  match e.label with
  | .select d _ => conn = some d ∧ (e.post.conns d).send = (e.pre.conns d).send ++ [.frame g]
  | .enqueue id _ => id = m ∧ e.post.mailbox[m]? = some (e.pre.mailed m g)
  | _ => false

/-- The frame `g` enters the queue of the connection `conn`, which is not closed, or is appended to
the mailbox of its recipient. -/
def handedOver (g : Frame) (conn : Option ConnID) (e : HubSection) : Bool :=
  match e.label with
  | .select d _ => conn = some d ∧ (e.pre.conns d).closed = false ∧
      (e.post.conns d).send = (e.pre.conns d).send ++ [.frame g]
  | .enqueue id _ => id = g.to ∧ e.post.mailbox[g.to]? = some (e.pre.mailed g.to g)
  | _ => false

theorem reaches_of_handedOver {g : Frame} {conn : Option ConnID} {e : HubSection}
    (h : handedOver g conn e = true) : reaches g g.to conn e = true := by
  unfold handedOver at h
  unfold reaches
  split at h
  next d r hl =>
    obtain ⟨hconn, -, hpush⟩ := of_decide_eq_true h
    exact decide_eq_true ⟨hconn, hpush⟩
  next => exact h
  next => exact Bool.noConfusion h

/-- Some message enters a queue or a mailbox. -/
def Delivers (e : HubSection) : Prop :=
  ∃ (g : Frame) (m : String) (conn : Option ConnID), g.op = "msg" ∧ reaches g m conn e = true

/-- The final `select` is entered on a closed connection and falls on the queue. -/
def QueuesOnClosed (e : HubSection) : Prop :=
  ∃ d r, e.label = .select d r ∧ (e.pre.conns d).closed = true ∧ QueueReady d e

def Label.passive : Label → Bool
  | .select _ _ => false
  | .enqueue _ _ => false
  | .latch => false
  | _ => true

/-- Sections that neither push nor store, nor check a connection. -/
def Label.inert : Label → Bool
  | .load _ _ => false
  | .checkClosed _ => false
  | label => label.passive

theorem Label.inert.passive {label : Label} (h : label.inert = true) : label.passive = true := by
  cases label <;> first | exact h | exact Bool.noConfusion h

theorem reaches_of_passive {e : HubSection} (he : e.label.passive = true) (g : Frame) (m : String)
    (conn : Option ConnID) : reaches g m conn e = false := by
  cases hl : e.label <;> simp_all [reaches, Label.passive]

/-- Nothing is latched, and no message enters a queue or a mailbox. -/
def Refused (t : List HubSection) : Prop := ∀ e ∈ t, e.label ≠ .latch ∧ ¬ Delivers e

/-- Moreover no `select` queues anything on a closed connection. -/
def Idle (t : List HubSection) : Prop := Refused t ∧ ∀ e ∈ t, ¬ QueuesOnClosed e

variable {t t' : List HubSection}

theorem Refused.append (h : Refused t) (h' : Refused t') : Refused (t ++ t') :=
  fun e he => (List.mem_append.mp he).elim (h e) (h' e)

namespace Idle

theorem append (h : Idle t) (h' : Idle t') : Idle (t ++ t') :=
  ⟨h.1.append h'.1, fun e he => (List.mem_append.mp he).elim (h.2 e) (h'.2 e)⟩

theorem of_passive (ht : ∀ e ∈ t, e.label.passive = true) : Idle t := by
  refine ⟨fun e he => ⟨?_, ?_⟩, ?_⟩
  · intro hl
    have hp := ht e he
    rw [hl] at hp
    exact Bool.noConfusion hp
  · rintro ⟨g, m, conn, -, hreach⟩
    rw [reaches_of_passive (ht e he)] at hreach
    exact Bool.noConfusion hreach
  · rintro e he ⟨d, r, hl, -⟩
    have hp := ht e he
    rw [hl] at hp
    exact Bool.noConfusion hp

theorem of_inert (ht : ∀ e ∈ t, e.label.inert = true) : Idle t :=
  of_passive fun e he => Label.inert.passive (ht e he)

theorem count (h : Idle t) {g : Frame} (hg : g.op = "msg") (conn : Option ConnID) :
    t.countP (handedOver g conn) = 0 := by
  rw [List.countP_eq_zero]
  exact fun e he hh => (h.1 e he).2 ⟨g, g.to, conn, hg, reaches_of_handedOver hh⟩

end Idle

/-- The message is handed over once exactly when no `select` queued it on a closed connection. -/
def HandsOver (g : Frame) (conn : Option ConnID) (t : List HubSection) : Prop :=
  t.countP (handedOver g conn) = 1 ↔ ∀ e ∈ t, ¬ QueuesOnClosed e

namespace HandsOver

variable {g : Frame} {conn : Option ConnID}

theorem append_idle (h : HandsOver g conn t) (hg : g.op = "msg") (h' : Idle t') :
    HandsOver g conn (t ++ t') := by
  unfold HandsOver at h ⊢
  rw [List.countP_append, h'.count hg, Nat.add_zero, h]
  constructor
  · exact fun hs e he => (List.mem_append.mp he).elim (hs e) (h'.2 e)
  · exact fun hs e he => hs e (List.mem_append_left _ he)

theorem idle_append (h : Idle t) (hg : g.op = "msg") (h' : HandsOver g conn t') :
    HandsOver g conn (t ++ t') := by
  unfold HandsOver at h' ⊢
  rw [List.countP_append, h.count hg, Nat.zero_add, h']
  constructor
  · exact fun hs e he => (List.mem_append.mp he).elim (h.2 e) (hs e)
  · exact fun hs e he => hs e (List.mem_append_right _ he)

end HandsOver

/-- A call that has not queued its frame has taken nothing anywhere. -/
theorem SendTrace.unreached {d : ConnID} {r : Reply} (h : SendTrace d r false t) :
    ∀ e ∈ t, ∀ g m conn, reaches g m conn e = false := by
  intro e he g m conn
  cases h with
  | shed hload hover hlog hclosedAs hdrop =>
    simp only [List.mem_cons, List.not_mem_nil, or_false] at he
    rcases he with rfl | rfl | rfl | rfl <;> simp [reaches, *]
  | gone hload hunder hreserve hcheck hclosed hrelease =>
    simp only [List.mem_cons, List.not_mem_nil, or_false] at he
    rcases he with rfl | rfl | rfl | rfl <;> simp [reaches, *]
  | missed hload hunder hreserve hcheck hopen hselect hready hpost hrelease =>
    simp only [List.mem_cons, List.not_mem_nil, or_false] at he
    rcases he with rfl | rfl | rfl | rfl | rfl <;> simp [reaches, *]

/-- Nor is it latched, and no closed connection got the frame. -/
theorem SendTrace.idle {d : ConnID} {r : Reply} (h : SendTrace d r false t) : Idle t := by
  have hun := h.unreached
  cases h with
  | shed hload hover hlog hclosedAs hdrop =>
    exact Idle.of_passive (by simp [hload, hlog, hclosedAs, hdrop, Label.passive])
  | gone hload hunder hreserve hcheck hclosed hrelease =>
    exact Idle.of_passive (by simp [hload, hreserve, hcheck, hrelease, Label.passive])
  | @missed load reserve check select release hload hunder hreserve hcheck hopen hselect hready
      hpost hrelease =>
    have hfirst : Idle [load, reserve, check] :=
      Idle.of_passive (by simp [hload, hreserve, hcheck, Label.passive])
    have hlast : Idle [release] := Idle.of_passive (by simp [hrelease, Label.passive])
    have hmid : Idle [select] := by
      refine ⟨fun e he => ⟨?_, ?_⟩, ?_⟩
      · simp [List.mem_singleton.mp he, hselect]
      · rintro ⟨g, m, conn, -, hreach⟩
        rw [hun e (by simp [List.mem_singleton.mp he])] at hreach
        exact Bool.noConfusion hreach
      · rintro e he ⟨d', r', hl, -, hr⟩
        obtain rfl := List.mem_singleton.mp he
        obtain ⟨rfl, -⟩ : d = d' ∧ r = r' := by simpa [hselect] using hl
        exact hready hr
    exact hfirst.append (hmid.append hlast)

/-- A call that has queued its frame did so last. -/
theorem SendTrace.queues {d : ConnID} {r : Reply} (h : SendTrace d r true t) :
    ∃ u select, t = u ++ [select] ∧ Idle u ∧ select.label = .select d r ∧ QueueReady d select ∧
      (select.post.conns d).send = (select.pre.conns d).send ++ [r] := by
  cases h with
  | @queued load reserve check select hload hunder hreserve hcheck hopen hselect hready hpost =>
    have hfirst : Idle [load, reserve, check] :=
      Idle.of_passive (by simp [hload, hreserve, hcheck, Label.passive])
    exact ⟨_, select, rfl, hfirst, hselect, hready, hpost⟩

/-- What is queued is what was sent. -/
theorem SendTrace.refused {d : ConnID} {r : Reply} {ok : Bool} (h : SendTrace d r ok t)
    (hr : ∀ g, r = .frame g → g.op ≠ "msg") : Refused t := by
  cases ok with
  | false => exact h.idle.1
  | true =>
    obtain ⟨u, select, rfl, hu, hselect, -, hpost⟩ := h.queues
    refine hu.1.append fun e he => ?_
    obtain rfl := List.mem_singleton.mp he
    refine ⟨by simp [hselect], ?_⟩
    rintro ⟨g, m, conn, hop, hreach⟩
    simp only [reaches, hselect, hpost, List.append_cancel_left_eq, List.cons.injEq, and_true,
      decide_eq_true_eq] at hreach
    exact hr g hreach.2 hop

/-- A send that is not accepted has handed nothing over; one that is has, unless on a closed
connection. -/
theorem SendTrace.handsOver {d : ConnID} {g : Frame} (hg : g.op = "msg") {ok : Bool}
    (h : SendTrace d (.frame g) ok t) : if ok then HandsOver g (some d) t else Idle t := by
  cases ok with
  | false => exact h.idle
  | true =>
    obtain ⟨u, select, rfl, hu, hselect, hready, hpost⟩ := h.queues
    have hbad : QueuesOnClosed select ↔ (select.pre.conns d).closed = true := by
      constructor
      · rintro ⟨d', r', hl, hc, -⟩
        obtain ⟨rfl, -⟩ : d = d' ∧ _ = r' := by simpa [hselect] using hl
        exact hc
      · exact fun hc => ⟨d, _, hselect, hc, hready⟩
    have hlast : HandsOver g (some d) [select] := by
      unfold HandsOver
      rw [List.countP_singleton]
      simp [handedOver, hselect, hpost, hbad]
    exact HandsOver.idle_append hu hg hlast

theorem records_passive {α : Type} {label : Label} {g : Hub → α × Hub}
    (hl : label.passive = true) : Records (Proc.atomically label g) fun _ t => Idle t :=
  Records.atomically fun _ _ => .of_passive (by simpa using hl)

theorem records_idle_logf (event : String) (kvs : Hub → List (String × String)) :
    Records (logf event kvs) fun _ t => Idle t := records_passive rfl

/-- An error frame is no message. -/
theorem records_sendErr (c : ConnID) (code msg : String) :
    Records (sendErr c code msg) fun _ t => Refused t := by
  unfold sendErr
  refine Records.bind (records_passive rfl) fun _ t1 h1 =>
    Records.bind (records_idle_logf _ _) fun _ t2 h2 =>
      Records.bind (records_sendFrame c _) fun _ t3 h3 => Records.pure ?_
  have hsend : Refused t3 := by
    refine h3.refused ?_
    rintro g heq hop
    rw [← Reply.frame.inj heq] at hop
    exact absurd hop (by decide : "error" ≠ "msg")
  simpa using h1.1.append (h2.1.append hsend)

theorem records_enqueue (g : Frame) (conn : Option ConnID) :
    Records (enqueue g.to g) fun _ t => HandsOver g conn t := by
  refine Records.atomically fun s pick => ?_
  unfold HandsOver
  rw [List.countP_singleton]
  simp [handedOver, QueuesOnClosed, Hub.enqueueLocked_mailbox]

/-! ### Direct messages -/

/-- Sections that read who the sender is, look its recipient's connection up, and hand the message
over. -/
def HandsDM (c : ConnID) (f : Frame) (t : List HubSection) : Prop :=
  ∃ own ∈ t, own.label = .own c ∧ ∃ e ∈ t, e.label = .targets ∧
    HandsOver (dmMsg (own.pre.conns c).agentID f) e.pre.clients[f.to]? t

/-- Whether a message is accepted or not, the trace of its delivery says where it went. -/
theorem records_deliverDM (c : ConnID) (f : Frame) :
    Records (deliverDM c f) fun ok t => if ok then HandsDM c f t else Refused t := by
  unfold deliverDM
  refine Records.bind (Q := fun k t => ∃ e : HubSection, t = [e] ∧ e.label = .own c ∧
    k = e.pre.conns c) (Records.read fun _ _ => ⟨_, rfl, rfl, rfl⟩) ?_
  rintro k _ ⟨own, rfl, hown, rfl⟩
  have h1 : Idle [own] := .of_passive (by simp [hown, Label.passive])
  refine Records.bind (records_passive rfl) fun e t2 h2 => ?_
  split
  · refine Records.bind (records_idle_logf _ _) fun _ t3 h3 =>
      Records.bind (records_sendErr c _ _) fun _ t4 h4 => Records.pure ?_
    simpa using h1.1.append (h2.1.append (h3.1.append h4))
  refine Records.bind (Q := fun target t => ∃ e : HubSection, t = [e] ∧ e.label = .targets ∧
    target = e.pre.clients[f.to]?) (Records.read fun _ _ => ⟨_, rfl, rfl, rfl⟩) ?_
  rintro target _ ⟨look, rfl, hlook, rfl⟩
  have h3 : Idle [look] := .of_passive (by simp [hlook, Label.passive])
  have h123 := h1.append (h2.append h3)
  have hmsg : (dmMsg (own.pre.conns c).agentID f).op = "msg" := rfl
  have hdone : ∀ u, HandsOver (dmMsg (own.pre.conns c).agentID f) look.pre.clients[f.to]? u →
      HandsDM c f (([own] ++ (t2 ++ [look])) ++ u) := fun u hu =>
    ⟨own, by simp, hown, look, by simp, hlook, .idle_append h123 hmsg hu⟩
  split
  · refine Records.bind (records_enqueue (dmMsg _ f) look.pre.clients[f.to]?) fun size t4 h4 =>
      Records.bind (records_idle_logf _ _) fun _ t5 h5 => Records.pure ?_
    simpa [List.append_assoc] using hdone _ (h4.append_idle hmsg h5)
  next target htarget =>
    refine Records.bind (records_sendFrame _ _) fun ok t4 h4 => ?_
    have hsend := h4.handsOver hmsg
    rw [← htarget] at hsend
    split
    next hok =>
      refine Records.bind (records_idle_logf _ _) fun _ t5 h5 => Records.pure ?_
      rw [if_pos hok] at hsend
      simpa [List.append_assoc] using hdone _ (hsend.append_idle hmsg h5)
    next hok =>
      refine Records.bind (records_enqueue (dmMsg _ f) look.pre.clients[f.to]?) fun size t5 h5 =>
        Records.bind (records_idle_logf _ _) fun _ t6 h6 => Records.pure ?_
      rw [if_neg hok] at hsend
      simpa [List.append_assoc] using
        hdone _ (HandsOver.idle_append hsend hmsg (h5.append_idle hmsg h6))

/-! ### Accepted sends -/

/-- The send has been accepted: its id is latched. -/
def Accepted (t : List HubSection) : Prop := ∃ e ∈ t, e.label = .latch

instance (t : List HubSection) : Decidable (Accepted t) :=
  inferInstanceAs (Decidable (∃ e ∈ t, e.label = .latch))

def Unlatched (t : List HubSection) : Prop := ∀ e ∈ t, e.label ≠ .latch

theorem Unlatched.not_accepted (h : Unlatched t) : ¬ Accepted t := fun ⟨e, he, hl⟩ => h e he hl

theorem Refused.not_accepted (h : Refused t) : ¬ Accepted t := fun ⟨e, he, hl⟩ => (h e he).1 hl

theorem records_inert {α : Type} {label : Label} {g : Hub → α × Hub} (hl : label.inert = true) :
    Records (Proc.atomically label g) fun _ t => ∀ x ∈ t, x.label.inert = true :=
  Records.atomically fun _ _ => by simpa using hl

/-- A send is latched once its routing has succeeded, and else it is refused. -/
theorem records_handleSend (P : Platform) (c : ConnID) (f : Frame) (raw : Raw)
    {Q T : List HubSection → Prop}
    (hdeliver : Records (deliver P c f) fun ok t => if ok then Q t else Refused t)
    (hlocal : ∀ t t' e, (∀ x ∈ t, x.label.inert = true) → Q t' → e.label = .latch →
      T (t ++ (t' ++ [e]))) :
    Records (handleSend P c f raw) fun _ t => (Accepted t ∧ T t) ∨ Refused t := by
  have hreject : ∀ (t : List HubSection) (code msg : String), Refused t →
      Records (sendErr c code msg)
        fun _ t' => (Accepted (t ++ t') ∧ T (t ++ t')) ∨ Refused (t ++ t') := by
    intro t code msg ht
    exact (records_sendErr c code msg).mono fun _ t' ht' => .inr (ht.append ht')
  unfold handleSend
  refine Records.bind (records_inert rfl) fun k t1 h1 => ?_
  split
  · exact hreject _ _ _ (Idle.of_inert h1).1
  refine Records.bind (records_inert rfl) fun now t2 h2 => ?_
  have h12 : ∀ x ∈ t1 ++ t2, x.label.inert = true :=
    fun x hx => (List.mem_append.mp hx).elim (h1 x) (h2 x)
  simp only [← List.append_assoc]
  split
  · exact hreject _ _ _ (Idle.of_inert h12).1
  split
  · exact hreject _ _ _ (Idle.of_inert h12).1
  refine Records.bind (records_inert rfl) fun used t3 h3 => ?_
  have h123 : ∀ x ∈ t1 ++ t2 ++ t3, x.label.inert = true :=
    fun x hx => (List.mem_append.mp hx).elim (h12 x) (h3 x)
  simp only [← List.append_assoc]
  split
  · exact hreject _ _ _ (Idle.of_inert h123).1
  refine Records.bind hdeliver fun ok t4 h4 => ?_
  split
  next hok =>
    rw [if_pos hok] at h4
    refine Records.modify fun s pick => .inl ⟨?_, ?_⟩
    · exact ⟨_, List.mem_append_right _ (List.mem_append_right _ (List.mem_singleton_self _)), rfl⟩
    simpa only [List.append_assoc] using hlocal _ t4 _ h123 h4 rfl
  next hok =>
    rw [if_neg hok] at h4
    refine Records.pure (.inr ?_)
    simpa using (Idle.of_inert h123).1.append h4

/-- The surroundings of a connection that has authenticated. -/
theorem surroundings_speaksFor (P : Platform) (c : ConnID) (id pub : String) :
    Surroundings P c (Others P c) fun h => Reachable P h ∧ h.SpeaksFor c id pub where
  stable h h' hR hr := by
    induction hR with
    | refl => exact hr
    | tail _ hs ih =>
      obtain ⟨who, -, hs⟩ := hs
      exact ⟨ih.1.step hs, hs.speaksFor (.reachable ih.1) ih.2⟩
  identity := (surroundings_reachable P c).identity
  closed := (surroundings_reachable P c).closed
  step h h' hr hs := ⟨hr.1.step hs, hs.speaksFor (.reachable hr.1) hr.2⟩
  coherent h hr := .reachable hr.1

/-- While it handles a send, a connection speaks for one agent, and the hub is coherent. -/
theorem handleSend_own {P : Platform} {c : ConnID} {h : Hub} (hr : Reachable P h)
    (hs : (h.conns c).stage = .serving) (f : Frame) (raw : Raw) {script : List (Beat Hub)}
    (hrely : Relies (Others P c) script) {w : World Hub Label}
    (hrun : handleSend P c f raw { state := h, script := script } = some ((), w)) :
    ∀ e ∈ w.trace, Reachable P e.pre ∧ (e.pre.conns c).agentID = (h.conns c).agentID := by
  have hspeaks : h.SpeaksFor c (h.conns c).agentID (h.conns c).pubkey :=
    ⟨((Coherent.reachable hr).sound c).late (.inr hs), rfl, rfl⟩
  have hkeeps := Keeps.handleSend (k := h.who c)
    (surroundings_speaksFor P c (h.conns c).agentID (h.conns c).pubkey) hs f raw
  obtain ⟨-, -, t, ht, hown⟩ := hkeeps _ () w hrun hrely ⟨⟨hr, hspeaks⟩, rfl⟩
  intro e he
  obtain ⟨⟨hreach, -, hid, -⟩, -⟩ := hown e (by simpa [ht] using he)
  exact ⟨hreach, hid⟩

/-- An accepted direct message is handed over exactly once, to the connection that the recipient had
when it was looked up, if still open, or to the recipient's mailbox, exactly when the final select
did not queue it on a closed connection. -/
theorem dm_handed_over_once_iff {P : Platform} {c : ConnID} {h : Hub} (hr : Reachable P h)
    (hs : (h.conns c).stage = .serving) (f : Frame) (raw : Raw) (hto : f.to ≠ "")
    {script : List (Beat Hub)} (hrely : Relies (Others P c) script) {w : World Hub Label}
    (hrun : handleSend P c f raw { state := h, script := script } = some ((), w))
    (hacc : Accepted w.trace) :
    ∃ e ∈ w.trace, e.label = .targets ∧
      (∀ d, e.pre.clients[f.to]? = some d → (e.pre.conns d).agentID = f.to) ∧
      (w.trace.countP (handedOver (dmMsg (h.conns c).agentID f) e.pre.clients[f.to]?) = 1 ↔
        ∀ x ∈ w.trace, ¬ QueuesOnClosed x) := by
  have hdeliver : Records (deliver P c f) fun ok t => if ok then HandsDM c f t else Refused t := by
    unfold deliver
    rw [if_pos hto]
    exact records_deliverDM c f
  have hhandle := records_handleSend P c f raw (T := HandsDM c f) hdeliver ?_
  · obtain ⟨t, ht, hq⟩ := hhandle _ () w hrun
    obtain rfl : w.trace = t := by simpa using ht
    rcases hq with ⟨-, own, hmem, -, e, he, hl, hhands⟩ | hrefused
    · have hown := handleSend_own hr hs f raw hrely hrun
      rw [(hown own hmem).2] at hhands
      exact ⟨e, he, hl, fun d hd => ((Coherent.reachable (hown e he).1).client _ d hd).2.1, hhands⟩
    · exact absurd hacc hrefused.not_accepted
  · rintro t t' latch ht ⟨own, hmem, hown, e, he, hl, hhands⟩ hlatch
    refine ⟨own, by simp [hmem], hown, e, by simp [he], hl, ?_⟩
    have hlast : ∀ conn, handedOver (dmMsg (own.pre.conns c).agentID f) conn latch = false := by
      simp [handedOver, hlatch]
    have hnot : ¬ QueuesOnClosed latch := by
      rintro ⟨d, r, hl, -⟩
      rw [hlatch] at hl
      exact Label.noConfusion hl
    refine HandsOver.idle_append (.of_inert ht) rfl ?_
    unfold HandsOver at hhands ⊢
    rw [List.countP_append, List.countP_singleton, hlast]
    simp [hhands, or_imp, forall_and, hnot]

/-- Two agents, each on its connection. -/
def twoAgents : Hub :=
  (({} : Hub).admitted lenientPlatform 0 .master "" (sampleHello 0)).admitted lenientPlatform 1
    .master "" peerHello

theorem twoAgents_reachable : Reachable lenientPlatform twoAgents := by
  have hpeer : verifySignature lenientPlatform peerHello [] peerHello.pubkey = none := by
    decide +kernel
  have hone : Reachable lenientPlatform
      (({} : Hub).admitted lenientPlatform 0 .master "" (sampleHello 0)) :=
    Reachable.empty.admitted rfl (sampleHello_verifies 0 []) (by simp)
  exact hone.admitted rfl hpeer (by simp)

def sampleDM : Frame where
  op := "send"
  «to» := helloAgentID lenientPlatform peerHello.pubkey
  id := "m1"
  ciphertext := "AAAA"
  sig := "AAAA"

theorem dm_handed_over_once_iff_sample :
    ∃ w, handleSend lenientPlatform 0 sampleDM [] { state := twoAgents } = some ((), w) ∧
      ∃ e ∈ w.trace, e.label = .targets ∧
        (∀ d, e.pre.clients[sampleDM.to]? = some d → (e.pre.conns d).agentID = sampleDM.to) ∧
        (w.trace.countP (handedOver (dmMsg (twoAgents.conns 0).agentID sampleDM)
            e.pre.clients[sampleDM.to]?) = 1 ↔ ∀ x ∈ w.trace, ¬ QueuesOnClosed x) := by
  have hrun : ((handleSend lenientPlatform 0 sampleDM [] { state := twoAgents }).map fun r =>
      decide (Accepted r.2.trace)) = some true := by decide +kernel
  obtain ⟨⟨_, w⟩, hw, hacc⟩ := Option.map_eq_some_iff.mp hrun
  exact ⟨w, hw, dm_handed_over_once_iff twoAgents_reachable (by decide +kernel) sampleDM []
    (by decide +kernel) (fun _ hb => by simp at hb) hw (of_decide_eq_true hacc)⟩

/-- A connection is dropped before the section that follows the first `n`. -/
def dropsAfter (n : ℕ) (d : ConnID) : List (Beat Hub) :=
  List.replicate n ⟨id, true⟩ ++ [⟨fun h => h.dropped d, true⟩]

theorem relies_dropsAfter {P : Platform} {c : ConnID} (n : ℕ) (d : ConnID) :
    Relies (Others P c) (dropsAfter n d) :=
  Relies.once (fun _ => .refl) n fun s => .single ⟨none, by simp, .quiet (.dropped s d)⟩

/-- The recipient's connection is dropped between the closed check and a select that falls on the
queue. -/
def dropsLate : List (Beat Hub) := dropsAfter 9 1

theorem dm_queued_on_closed :
    Reachable lenientPlatform twoAgents ∧ Relies (Others lenientPlatform 0) dropsLate ∧
      ∃ w, handleSend lenientPlatform 0 sampleDM []
          { state := twoAgents, script := dropsLate } = some ((), w) ∧ Accepted w.trace ∧
        ∀ e ∈ w.trace, e.label = .targets → w.trace.countP
          (handedOver (dmMsg (twoAgents.conns 0).agentID sampleDM) e.pre.clients[sampleDM.to]?) =
            0 := by
  refine ⟨twoAgents_reachable, relies_dropsAfter _ _, ?_⟩
  have hrun : ((handleSend lenientPlatform 0 sampleDM []
      { state := twoAgents, script := dropsLate }).map fun r =>
        decide (Accepted r.2.trace ∧ ∀ e ∈ r.2.trace, e.label = .targets → r.2.trace.countP
          (handedOver (dmMsg (twoAgents.conns 0).agentID sampleDM) e.pre.clients[sampleDM.to]?) =
            0)) = some true := by decide +kernel
  obtain ⟨⟨_, w⟩, hw, hacc⟩ := Option.map_eq_some_iff.mp hrun
  exact ⟨w, hw, of_decide_eq_true hacc⟩

end Dap
