import Dap.Hub.Acts
import Dap.Hub.Fanout
import Dap.Lib.Ring

/-! The offline mailbox against everything that was ever put into it, and what becomes of its frames
when they are flushed (`hub/mailbox.go`). -/
namespace Dap
open Proc

/-! ### Queue and flag -/

/-- An operation on the mailboxes. -/
inductive MailOp where
  | enqueue (id : String) (f : Frame)
  | drain (id : String)

namespace Hub

def mailOp (h : Hub) : MailOp → Hub
  | .enqueue id f => (h.enqueueLocked id f).2
  | .drain id => (h.drainLocked id).2

theorem enqueueLocked_dropped (h : Hub) (id : String) (f : Frame) (r : String) :
    (h.enqueueLocked id f).2.mailboxDropped[r]?.getD false =
      (h.mailboxDropped[r]?.getD false ||
        decide (id = r ∧ mailboxCap < (h.mailbox[id]?.getD [] ++ [f]).length)) := by
  unfold enqueueLocked
  dsimp only
  split
  next hover =>
    have hflag : (id = r ∧ mailboxCap < (h.mailbox[id]?.getD [] ++ [f]).length) = (id = r) :=
      propext ⟨fun h => h.1, fun hid => ⟨hid, hover⟩⟩
    simp only [hflag]
    rw [GoMap.getElem?_insert_ite]
    by_cases hid : id = r
    · simp [hid]
    · simp [hid]
  next hle =>
    rw [decide_eq_false (fun hover => hle hover.2), Bool.or_false]

theorem mem_enqueueLocked {h : Hub} {id r : String} {f g : Frame} {q : List Frame}
    (hq : (h.enqueueLocked id f).2.mailbox[r]? = some q) (hg : g ∈ q) :
    (∃ q, h.mailbox[r]? = some q ∧ g ∈ q) ∨ (r = id ∧ g = f) := by
  rw [enqueueLocked_mailbox] at hq
  split at hq
  next hid =>
    obtain rfl := Option.some.inj hq
    rcases List.mem_append.mp (List.mem_of_mem_drop hg) with hg | hg
    · rw [hid] at hg
      cases hr : h.mailbox[r]? with
      | none => simp [hr] at hg
      | some q => exact .inl ⟨q, rfl, by simpa [hr] using hg⟩
    · exact .inr ⟨hid.symm, List.mem_singleton.mp hg⟩
  next => exact .inl ⟨q, hq, hg⟩

end Hub

/-- What is pending for `r` after one more operation. -/
def pendingStep (r : String) (q : List Frame) : MailOp → List Frame
  | .enqueue id f => if id = r then q ++ [f] else q
  | .drain id => if id = r then [] else q

/-- Everything enqueued for `r` since its last drain. -/
def pending (r : String) (ops : List MailOp) : List Frame := ops.foldl (pendingStep r) []

/-- The mailbox of `r` holds what fits of `q`, and the flag whether not all of it did. -/
structure Hub.Holds (h : Hub) (r : String) (q : List Frame) : Prop where
  queue : h.mailbox[r]?.getD [] = q.rtake mailboxCap
  flag : h.mailboxDropped[r]?.getD false = decide (mailboxCap < q.length)

theorem rtake_length (q : List Frame) (n : ℕ) : (q.rtake n).length = min q.length n := by
  rw [List.rtake, List.length_drop]
  omega

/-- More than `cap` have come in when they had before, or when they no longer fit. -/
theorem overflow_concat (q : List Frame) (f : Frame) (cap : ℕ) :
    (decide (cap < q.length) || decide (cap < (q.rtake cap ++ [f]).length)) =
      decide (cap < (q ++ [f]).length) := by
  rw [List.length_append, List.length_append, List.length_singleton, rtake_length]
  by_cases hq : cap < q.length
  · have hmore : cap < q.length + 1 := by omega
    rw [decide_eq_true hq, decide_eq_true hmore, Bool.true_or]
  · rw [decide_eq_false hq, Bool.false_or]
    refine decide_eq_decide.mpr ⟨fun hover => ?_, fun hover => ?_⟩
    · omega
    · omega

theorem Hub.Holds.step {h : Hub} {r : String} {q : List Frame} (hh : h.Holds r q) (op : MailOp) :
    (h.mailOp op).Holds r (pendingStep r q op) := by
  cases op with
  | enqueue id f =>
    unfold Hub.mailOp pendingStep
    dsimp only
    by_cases hid : id = r
    · subst hid
      constructor
      · rw [h.enqueueLocked_mailbox, if_pos rfl, Hub.mailed, hh.queue, if_pos rfl, Option.getD_some]
        exact Ring.rtake_append_rtake q f mailboxCap
      · refine (h.enqueueLocked_dropped id f id).trans ?_
        simp only [hh.flag, hh.queue, true_and, if_true]
        exact overflow_concat q f mailboxCap
    · constructor
      · rw [h.enqueueLocked_mailbox, if_neg hid, if_neg hid]
        exact hh.queue
      · rw [h.enqueueLocked_dropped, if_neg hid]
        simpa [hid] using hh.flag
  | drain id =>
    unfold Hub.mailOp pendingStep Hub.drainLocked
    dsimp only
    constructor
    · rw [GoMap.getElem?_erase_ite]
      by_cases hid : id = r
      · simp [hid, List.rtake]
      · simpa [hid] using hh.queue
    · rw [GoMap.getElem?_erase_ite]
      by_cases hid : id = r
      · simp [hid]
      · simpa [hid] using hh.flag

theorem Hub.Holds.run {h : Hub} {r : String} {q : List Frame} (hh : h.Holds r q)
    (ops : List MailOp) : (ops.foldl Hub.mailOp h).Holds r (ops.foldl (pendingStep r) q) := by
  induction ops generalizing h q with
  | nil => exact hh
  | cons op ops ih => exact ih (hh.step op)

/-! ### The sections of a flush -/

/-- One call of `sendFrame` for each message, in order. -/
inductive Streams (c : ConnID) : List Frame → List HubSection → Prop where
  | nil : Streams c [] []
  | cons {m ms ok t t'} (ht : SendTrace c (.frame m) ok t) (h : Streams c ms t') :
      Streams c (m :: ms) (t ++ t')

/-- The report of an overflow. -/
def overflowFrame : Frame :=
  errorFrame codeMailboxFull "mailbox overflowed; oldest messages dropped"

/-- A call of `sendFrame` with this reply. -/
def offers (c : ConnID) (r : Reply) (e : HubSection) : Bool := e.label = .load c r

/-- The agent is looked up and its mailbox drained; the messages are sent, and whatever follows
sends the overflow report once if the flag was set. -/
structure FlushTrace (c : ConnID) (own drain : HubSection) (u v : List HubSection) : Prop where
  drained : drain.post = (drain.pre.drainLocked (own.pre.conns c).agentID).2
  streamed : Streams c (drain.pre.mailbox[(own.pre.conns c).agentID]?.getD []) u
  reported : v.countP (offers c (.frame overflowFrame)) =
    if drain.pre.mailboxDropped[(own.pre.conns c).agentID]?.getD false then 1 else 0

theorem SendTrace.offers_count {c : ConnID} {r : Reply} {ok : Bool} {t : List HubSection}
    (h : SendTrace c r ok t) (r' : Reply) :
    t.countP (offers c r') = if r = r' then 1 else 0 := by
  have hoffer : ∀ e : HubSection, e.label = .load c r → offers c r' e = decide (r = r') := by
    intro e he
    simp [offers, he]
  have hother : ∀ (e : HubSection) (l : Label), e.label = l → (∀ r, l ≠ .load c r) →
      offers c r' e = false := by
    intro e l he hl
    simpa [offers, he] using hl r'
  cases h with
  | shed hload hover hlog hclosedAs hdrop =>
    simp [List.countP_cons, hoffer _ hload, hother _ _ hlog, hother _ _ hclosedAs,
      hother _ _ hdrop]
  | gone hload hunder hreserve hcheck hclosed hrelease =>
    simp [List.countP_cons, hoffer _ hload, hother _ _ hreserve, hother _ _ hcheck,
      hother _ _ hrelease]
  | queued hload hunder hreserve hcheck hopen hselect hready hpost =>
    simp [List.countP_cons, hoffer _ hload, hother _ _ hreserve, hother _ _ hcheck,
      hother _ _ hselect]
  | missed hload hunder hreserve hcheck hopen hselect hready hpost hrelease =>
    simp [List.countP_cons, hoffer _ hload, hother _ _ hreserve, hother _ _ hcheck,
      hother _ _ hselect, hother _ _ hrelease]

theorem records_stream (c : ConnID) (msgs : List Frame) :
    Records (msgs.forM fun m => do
      let _ ← sendFrame c (.frame m)) fun _ t => Streams c msgs t := by
  induction msgs with
  | nil => exact Records.pure .nil
  | cons m rest ih =>
    have hbody : Records (do let _ ← sendFrame c (.frame m))
        fun (_ : PUnit) t => ∃ ok, SendTrace c (.frame m) ok t :=
      Records.bind (records_sendFrame _ _) fun ok t ht => Records.pure ⟨ok, by simpa using ht⟩
    refine Records.bind hbody fun _ t ht => ih.mono fun _ t' ht' => ?_
    obtain ⟨ok, ht⟩ := ht
    exact .cons ht ht'

/-- However the others act, a flush goes this way. -/
theorem records_handleFlush (c : ConnID) :
    Records (handleFlush c) fun _ t => ∃ own drain u v, t = own :: drain :: (u ++ v) ∧
      FlushTrace c own drain u v := by
  have hsend : ∀ r : Reply, Records (sendFrame c r) fun _ t =>
      ∀ r', t.countP (offers c r') = if r = r' then 1 else 0 := fun r =>
    (records_sendFrame c r).mono fun _ _ ht => ht.offers_count
  have hlog : ∀ event kvs, Records (logf event kvs) fun _ t =>
      t.countP (offers c (.frame overflowFrame)) = 0 := by
    intro event kvs
    refine (records_logf event kvs).mono ?_
    rintro - _ ⟨e, rfl, he⟩
    simp [offers, he]
  have hend : ∀ (n : ℕ) (event : String) (kvs : Hub → List (String × String)),
      Records (do
        let _ ← sendFrame c (.frame (flushedFrame n))
        logf event kvs) fun _ t => t.countP (offers c (.frame overflowFrame)) = 0 := by
    intro n event kvs
    refine Records.bind (hsend _) fun _ t ht => (hlog event kvs).mono fun _ t' ht' => ?_
    rw [List.countP_append, ht, ht']
    simp [flushedFrame, overflowFrame, errorFrame]
  unfold handleFlush
  refine Records.bind (Q := fun k t => ∃ own : HubSection, t = [own] ∧ own.pre.conns c = k)
    (Records.read fun _ _ => ⟨_, rfl, rfl⟩) ?_
  rintro k _ ⟨own, rfl, rfl⟩
  refine Records.bind (Q := fun r t => ∃ drain : HubSection, t = [drain] ∧
    (drain.pre.drainLocked (own.pre.conns c).agentID) = (r, drain.post))
    (Records.atomically fun _ _ => ⟨_, rfl, rfl⟩) ?_
  rintro r _ ⟨drain, rfl, hdrain⟩
  obtain ⟨hr, hpost⟩ := Prod.mk.inj hdrain
  refine Records.bind (records_stream c r.1) fun _ u hu => ?_
  subst hr
  dsimp only
  split
  next hdropped =>
    have herr : Records (sendErr c codeMailboxFull "mailbox overflowed; oldest messages dropped")
        fun _ t => t.countP (offers c (.frame overflowFrame)) = 1 := by
      unfold sendErr
      refine Records.bind (Q := fun _ t => t.countP (offers c (.frame overflowFrame)) = 0)
        (Records.modify fun _ _ => by simp [offers]) fun _ t0 ht0 => ?_
      refine Records.bind (hlog _ _) fun _ t1 ht1 => ?_
      refine Records.bind (hsend _) fun _ t ht => Records.pure ?_
      rw [List.append_nil, List.countP_append, List.countP_append, ht0, ht1, ht,
        Nat.zero_add, Nat.zero_add]
      exact if_pos rfl
    refine Records.bind herr fun _ t ht => (hend _ _ _).mono fun _ t' ht' => ?_
    refine ⟨own, drain, u, t ++ t', by simp, hpost.symm, hu, ?_⟩
    rw [List.countP_append, ht, ht', if_pos hdropped]
  next hdropped =>
    refine (hend _ _ _).mono fun _ t' ht' => ?_
    refine ⟨own, drain, u, t', by simp, hpost.symm, hu, ?_⟩
    rw [ht', if_neg hdropped]

/-- For every sequence of operations on the mailboxes of a hub that starts without mail, a drain
returns the last frames that were enqueued for the agent since its previous drain, with the flag set
when there were more than fit; it empties that mailbox and no other, none ever holds more than
`mailboxCap` frames, and a flush reports the overflow it drained once. -/
theorem drain_returns_pending {h : Hub} (hm : h.mailbox = ∅) (hd : h.mailboxDropped = ∅)
    (ops : List MailOp) (r : String) :
    let h' := ops.foldl Hub.mailOp h
    (h'.drainLocked r).1 =
        ((pending r ops).rtake mailboxCap, decide (mailboxCap < (pending r ops).length)) ∧
      (h'.drainLocked r).2.mailbox[r]? = none ∧ (h'.drainLocked r).2.mailboxDropped[r]? = none ∧
      (∀ id, id ≠ r → (h'.drainLocked r).2.mailbox[id]? = h'.mailbox[id]? ∧
        (h'.drainLocked r).2.mailboxDropped[id]? = h'.mailboxDropped[id]?) ∧
      (∀ (id : String) q, h'.mailbox[id]? = some q → q.length ≤ mailboxCap) ∧
      ∀ c, Records (handleFlush c) fun _ t => ∃ own drain u v, t = own :: drain :: (u ++ v) ∧
        FlushTrace c own drain u v := by
  have hholds : ∀ id, (ops.foldl Hub.mailOp h).Holds id (pending id ops) := by
    intro id
    refine Hub.Holds.run ⟨?_, ?_⟩ ops
    · simp [hm, List.rtake]
    · simp [hd]
  refine ⟨?_, ?_, ?_, ?_, ?_, records_handleFlush⟩
  · exact Prod.ext (hholds r).queue (hholds r).flag
  · exact (GoMap.getElem?_erase_ite _ _ _).trans (if_pos rfl)
  · exact (GoMap.getElem?_erase_ite _ _ _).trans (if_pos rfl)
  · intro id hid
    constructor
    · exact (GoMap.getElem?_erase_ite _ _ _).trans (if_neg (Ne.symm hid))
    · exact (GoMap.getElem?_erase_ite _ _ _).trans (if_neg (Ne.symm hid))
  · intro id q hq
    have hqueue := (hholds id).queue
    rw [hq, Option.getD_some] at hqueue
    rw [hqueue, rtake_length]
    exact min_le_right _ _

theorem drain_returns_pending_sample :
    ((([.enqueue "a" { id := "1" }, .enqueue "b" { id := "2" }, .drain "a",
      .enqueue "a" { id := "3" }] : List MailOp).foldl Hub.mailOp {}).drainLocked "a").1 =
        ([{ id := "3" }], false) := by
  rw [(drain_returns_pending (h := {}) rfl rfl _ "a").1]
  decide

/-! ### What a flush keeps -/

/-- The messages that `c`'s queue took, in order. -/
def accepted (c : ConnID) (t : List HubSection) : List Frame :=
  t.filterMap fun e =>
    match e.label with
    | .select d (.frame m) =>
      if d = c ∧ (e.post.conns d).send = (e.pre.conns d).send ++ [.frame m] then some m else none
    | _ => none

theorem accepted_append (c : ConnID) (t t' : List HubSection) :
    accepted c (t ++ t') = accepted c t ++ accepted c t' := List.filterMap_append

theorem SendTrace.accepted_eq {c : ConnID} {m : Frame} {ok : Bool} {t : List HubSection}
    (h : SendTrace c (.frame m) ok t) :
    accepted c t = (if ok then [m] else []) ∧ (ok = true ↔ ∀ e ∈ t, ¬ Refuses e) := by
  have hnone : ∀ (e : HubSection) (l : Label), e.label = l → (∀ d m, l ≠ .select d (.frame m)) →
      accepted c [e] = [] := by
    intro e l he hl
    unfold accepted
    rw [List.filterMap_cons_none, List.filterMap_nil]
    rw [he]
    split
    next d m => exact absurd rfl (hl d m)
    next => rfl
  have hcons : ∀ (e : HubSection) (t : List HubSection), accepted c (e :: t) =
      accepted c [e] ++ accepted c t := fun e t => accepted_append c [e] t
  cases h with
  | @shed load log closedAs drop hload hover hlog hclosedAs hdrop =>
    constructor
    · rw [hcons, hcons log, hcons closedAs, hnone _ _ hload (by simp), hnone _ _ hlog (by simp),
        hnone _ _ hclosedAs (by simp), hnone _ _ hdrop (by simp)]
      rfl
    · refine ⟨fun h => Bool.noConfusion h, fun h => absurd ?_ (h load (by simp))⟩
      simpa [Refuses, hload] using hover
  | @gone load reserve check release hload hunder hreserve hcheck hclosed hrelease =>
    constructor
    · rw [hcons, hcons reserve, hcons check, hnone _ _ hload (by simp),
        hnone _ _ hreserve (by simp), hnone _ _ hcheck (by simp), hnone _ _ hrelease (by simp)]
      rfl
    · refine ⟨fun h => Bool.noConfusion h, fun h => absurd ?_ (h check (by simp))⟩
      simpa [Refuses, hcheck] using hclosed
  | @queued load reserve check select hload hunder hreserve hcheck hopen hselect hready hpost =>
    constructor
    · have htook : accepted c [select] = [m] := by
        simp [accepted, hselect, hpost]
      rw [hcons, hcons reserve, hcons check, hnone _ _ hload (by simp),
        hnone _ _ hreserve (by simp), hnone _ _ hcheck (by simp), htook]
      rfl
    · refine ⟨fun _ e he => ?_, fun _ => rfl⟩
      simp only [List.mem_cons, List.not_mem_nil, or_false] at he
      rcases he with rfl | rfl | rfl | rfl
      · simpa [Refuses, hload] using hunder
      · simp [Refuses, hreserve]
      · simpa [Refuses, hcheck] using hopen
      · simpa [Refuses, hselect] using hready
  | @missed load reserve check select release hload hunder hreserve hcheck hopen hselect hready
      hpost hrelease =>
    constructor
    · have hmissed : accepted c [select] = [] := by
        simp [accepted, hselect, hpost]
      rw [hcons, hcons reserve, hcons check, hcons select, hnone _ _ hload (by simp),
        hnone _ _ hreserve (by simp), hnone _ _ hcheck (by simp), hmissed,
        hnone _ _ hrelease (by simp)]
      rfl
    · refine ⟨fun h => Bool.noConfusion h, fun h => absurd ?_ (h select (by simp))⟩
      simpa [Refuses, hselect] using hready

/-- What the queue took of the messages is a part of them, and all of them when nothing was
refused. -/
theorem Streams.accepted_sublist {c : ConnID} {msgs : List Frame} {t : List HubSection}
    (h : Streams c msgs t) : (accepted c t).Sublist msgs ∧
      (accepted c t = msgs ↔ ∀ e ∈ t, ¬ Refuses e) := by
  induction h with
  | nil => exact ⟨List.Sublist.slnil, by simp [accepted]⟩
  | @cons m ms ok t t' ht _ ih =>
    obtain ⟨hacc, hok⟩ := ht.accepted_eq
    obtain ⟨hsub, hall⟩ := ih
    have hmem : (∀ e ∈ t ++ t', ¬ Refuses e) ↔
        (∀ e ∈ t, ¬ Refuses e) ∧ ∀ e ∈ t', ¬ Refuses e := by
      simp only [List.mem_append, or_imp, forall_and]
    rw [accepted_append, hacc, hmem, ← hok, ← hall]
    cases ok with
    | true =>
      refine ⟨hsub.cons_cons m, ?_⟩
      simp
    | false =>
      refine ⟨hsub.cons m, ⟨fun h => ?_, fun h => Bool.noConfusion h.1⟩⟩
      have hlen := congrArg List.length h
      have hle := hsub.length_le
      simp only [Bool.false_eq_true, if_false, List.nil_append, List.length_cons] at hlen
      omega

/-- Of the messages that were in the mailbox, what the connection did not take is still there, in
the original order. -/
def MailKept (c : ConnID) (id : String) (msgs : List Frame) (t : List HubSection) (s : Hub) :
    Prop :=
  (accepted c t).Sublist msgs ∧ ∃ kept : List Frame, kept.Sublist msgs ∧
    kept.Sublist (s.mailbox[id]?.getD []) ∧ (accepted c t ++ kept).Perm msgs

/-- Nothing is put into a mailbox. -/
def storeless : Scope where
  writes _ := True
  sends _ _ := True

theorem Act.storeless_mailbox {c : ConnID} {e : HubSection} (he : Act c storeless e) :
    e.post.mailbox = e.pre.mailbox := by
  cases he with
  | stored hf => exact False.elim hf
  | other he => exact False.elim he
  | _ => rfl

/-- When the others leave the mailboxes alone, the mailbox is empty after its flush. -/
theorem handleFlush_empties (c : ConnID) :
    HubTriple (fun s s' => s'.mailbox = s.mailbox) (fun past _ => past = []) (handleFlush c)
      fun _ past s => ∃ own t, past = own :: t ∧
        s.mailbox[(own.pre.conns c).agentID]? = none := by
  unfold handleFlush
  refine Triple.bind (M := fun k past _ => ∃ own : HubSection, own.pre.conns c = k ∧ past = [own])
    (Triple.read (fun _ _ _ _ h => h) ?_) fun k => Triple.choose fun own =>
      Triple.assume fun hk => ?_
  · rintro past s pick rfl
    exact ⟨trivial, _, rfl, rfl⟩
  subst hk
  let I : Assertion Hub Label := fun past s => ∃ t, past = own :: t ∧
    s.mailbox[(own.pre.conns c).agentID]? = none
  have hstable : ∀ past, Stable (fun s s' : Hub => s'.mailbox = s.mailbox) (I past) := by
    rintro past s s' hR ⟨t, rfl, hnone⟩
    refine ⟨t, rfl, ?_⟩
    rw [hR]
    exact hnone
  have hkeep : ∀ {α : Type} {p : HubProc α}, Emits (Act c storeless) p →
      HubTriple (fun s s' : Hub => s'.mailbox = s.mailbox) I p fun _ => I := by
    intro α p hp
    refine (hp _ I hstable ?_).mono_guarantee fun _ _ _ => trivial
    rintro past e he ⟨t, rfl, hnone⟩
    refine ⟨t ++ [e], rfl, ?_⟩
    rw [he.storeless_mailbox]
    exact hnone
  have hsend : ∀ r : Reply, Emits (Act c storeless) (sendFrame c r) := fun r =>
    Act.sendFrame trivial
  refine Triple.bind (M := fun _ => I) (Triple.atomically (fun _ _ _ _ h => h) ?_) fun r => ?_
  · rintro past s pick rfl
    refine ⟨trivial, [_], rfl, ?_⟩
    exact (GoMap.getElem?_erase_ite _ _ _).trans (if_pos rfl)
  refine Triple.mono (?_ : HubTriple _ I _ fun _ => I) (fun _ _ h => h) ?_
  · apply hkeep
    refine Emits.bind (Emits.forM fun m _ => Emits.bind (hsend _) fun _ => Emits.pure _)
      fun _ => ?_
    have hend : ∀ (n : ℕ) (event : String) (kvs : Hub → List (String × String)),
        Emits (Act c storeless) (do
          let _ ← sendFrame c (.frame (flushedFrame n))
          logf event kvs) := fun _ _ _ => Emits.bind (hsend _) fun _ => Act.logf _ _
    dsimp only
    split
    · exact Emits.bind (Act.sendErr ⟨trivial, fun _ => trivial⟩ _) fun _ => hend _ _ _
    · exact hend _ _ _
  · rintro _ past s ⟨t, hpast, hnone⟩
    exact ⟨own, t, hpast, hnone⟩

/-- A flush keeps every message when none of its pushes is refused; and when nobody else touches the
mailboxes meanwhile, then only. -/
theorem flush_keeps_mail_iff {c : ConnID} {w w' : World Hub Label} (hw : w.trace = [])
    (hrun : handleFlush c w = some ((), w')) :
    ∃ own drain u v, w'.trace = own :: drain :: (u ++ v) ∧ FlushTrace c own drain u v ∧
      ((∀ e ∈ u, ¬ Refuses e) → MailKept c (own.pre.conns c).agentID
        (drain.pre.mailbox[(own.pre.conns c).agentID]?.getD []) u w'.state) ∧
      (Relies (fun s s' => s'.mailbox = s.mailbox) w.script →
        (MailKept c (own.pre.conns c).agentID
            (drain.pre.mailbox[(own.pre.conns c).agentID]?.getD []) u w'.state ↔
          ∀ e ∈ u, ¬ Refuses e)) := by
  obtain ⟨t, ht, own, drain, u, v, rfl, hflush⟩ := records_handleFlush c w () w' hrun
  rw [hw, List.nil_append] at ht
  obtain ⟨hsub, hall⟩ := hflush.streamed.accepted_sublist
  have hkept : (∀ e ∈ u, ¬ Refuses e) → MailKept c (own.pre.conns c).agentID
      (drain.pre.mailbox[(own.pre.conns c).agentID]?.getD []) u w'.state := by
    intro href
    refine ⟨hsub, [], List.nil_sublist _, List.nil_sublist _, ?_⟩
    rw [List.append_nil, hall.mpr href]
  refine ⟨own, drain, u, v, ht, hflush, hkept, fun hrely => ⟨?_, hkept⟩⟩
  rintro ⟨-, kept, -, hstill, hperm⟩
  obtain ⟨own', t', hown, hnone⟩ := (handleFlush_empties c w () w' hrun hrely hw).1
  rw [ht] at hown
  obtain ⟨rfl, -⟩ := List.cons.inj hown
  rw [hnone] at hstill
  obtain rfl := List.sublist_nil.mp hstill
  rw [List.append_nil] at hperm
  exact hall.mp (hsub.eq_of_length hperm.length_eq)

/-- A message waits for the first of two agents. -/
def mailed : Hub :=
  (twoAgents.enqueueLocked (helloAgentID lenientPlatform (sampleHello 0).pubkey)
    { op := "msg", id := "m1" }).2

theorem mailed_reachable : Reachable lenientPlatform mailed := by
  have hs : (twoAgents.conns 1).stage = .serving := by decide +kernel
  exact twoAgents_reachable.step (.enqueued 1 _ _ hs)

theorem flush_keeps_mail_iff_sample : ∃ w', handleFlush 0 { state := mailed } = some ((), w') ∧
    ∃ own drain u v, w'.trace = own :: drain :: (u ++ v) ∧ FlushTrace 0 own drain u v ∧
      (MailKept 0 (own.pre.conns 0).agentID
          (drain.pre.mailbox[(own.pre.conns 0).agentID]?.getD []) u w'.state ↔
        ∀ e ∈ u, ¬ Refuses e) := by
  have hrun : (handleFlush 0 { state := mailed }).isSome := by decide +kernel
  obtain ⟨⟨_, w'⟩, hw⟩ := Option.isSome_iff_exists.mp hrun
  obtain ⟨own, drain, u, v, ht, hflush, -, hiff⟩ := flush_keeps_mail_iff rfl hw
  exact ⟨w', hw, own, drain, u, v, ht, hflush, hiff fun _ hb => absurd hb List.not_mem_nil⟩

/-- The connection is dropped after its flush has arrived: the message is lost. -/
theorem flush_loses_mail : Reachable lenientPlatform (mailed.dropped 0) ∧
    ∃ w', handleFlush 0 { state := mailed.dropped 0 } = some ((), w') ∧
      ¬ MailKept 0 (helloAgentID lenientPlatform (sampleHello 0).pubkey)
        ((mailed.dropped 0).mailbox[helloAgentID lenientPlatform (sampleHello 0).pubkey]?.getD [])
        w'.trace w'.state := by
  have hdrop : Step lenientPlatform none mailed (mailed.dropped 0) := .quiet (.dropped _ _)
  refine ⟨mailed_reachable.step hdrop, ?_⟩
  have hrun : ((handleFlush 0 { state := mailed.dropped 0 }).map fun r =>
      decide (accepted 0 r.2.trace = [] ∧
        r.2.state.mailbox[helloAgentID lenientPlatform (sampleHello 0).pubkey]?.getD [] = [] ∧
        (mailed.dropped 0).mailbox[helloAgentID lenientPlatform (sampleHello 0).pubkey]?.getD []
          ≠ [])) = some true := by decide +kernel
  obtain ⟨⟨_, w'⟩, hw, hlost⟩ := Option.map_eq_some_iff.mp hrun
  obtain ⟨hacc, hempty, hmail⟩ := of_decide_eq_true hlost
  refine ⟨w', hw, ?_⟩
  rintro ⟨-, kept, -, hstill, hperm⟩
  rw [hempty] at hstill
  obtain rfl := List.sublist_nil.mp hstill
  rw [hacc, List.append_nil] at hperm
  exact hmail (List.nil_perm.mp hperm)

end Dap
