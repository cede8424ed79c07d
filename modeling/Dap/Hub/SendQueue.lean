import Dap.Hub.Handover

/-! The queued-bytes account of one connection (`hub/relay.go`): the sections of its `sendFrame`
calls and of its write pump, in any order. -/
namespace Dap
open Proc

/-! ### Model -/

/-- What the queue account of a connection is about. -/
structure Lane where
  queued : ℤ := 0
  send : List Reply := []
  closed : Bool := false

def Conn.lane (k : Conn) : Lane := ⟨k.queued, k.send, k.closed⟩

/-- Which section a call of `sendFrame` executes next. -/
inductive CallPhase where
  | loading | underCap | reserved | selecting | releasing | shedding
  | returned (ok : Bool)
  deriving DecidableEq

/-- The next section of a call of `sendFrame`; `none` when it has returned or blocks. -/
def CallPhase.advance (r : Reply) (pick : Bool) (l : Lane) : CallPhase → Option (CallPhase × Lane)
  | .loading =>
    if l.queued + r.length > maxQueuedBytes then some (.shedding, l) else some (.underCap, l)
  | .shedding => some (.returned false, { l with closed := true })
  | .underCap => some (.reserved, { l with queued := l.queued + r.length })
  | .reserved => if l.closed then some (.releasing, l) else some (.selecting, l)
  | .selecting =>
    if l.send.length < sendBuffer ∧ (l.closed = false ∨ pick = true) then
      some (.returned true, { l with send := l.send ++ [r] })
    else if l.closed then some (.releasing, l)
    else none
  | .releasing => some (.returned false, { l with queued := l.queued - r.length })
  | .returned _ => none

/-- Where the write pump stands. -/
inductive PumpPhase where
  | waiting
  | received (r : Reply)
  | written (r : Reply)
  | failed (r : Reply)
  | gone
  deriving DecidableEq

/-- A connection with every call of `sendFrame` made on it and its write pump. -/
structure SendQueue where
  lane : Lane := {}
  calls : List (Reply × CallPhase) := []
  pump : PumpPhase := .waiting

/-- A call begins or executes its next section, the pump executes its next one, or somebody drops
the connection. -/
inductive QueueEvent where
  | called (r : Reply)
  | advanced (i : ℕ) (pick : Bool)
  | received
  | wrote (ok : Bool)
  | accounted
  | quit
  | dropped

namespace SendQueue

/-- What is not enabled does nothing. -/
def step (q : SendQueue) : QueueEvent → SendQueue
  | .called r => { q with calls := q.calls ++ [(r, .loading)] }
  | .advanced i pick =>
    match q.calls[i]? with
    | none => q
    | some (r, p) =>
      match p.advance r pick q.lane with
      | none => q
      | some (p', l) => { q with lane := l, calls := q.calls.set i (r, p') }
  | .received =>
    match q.pump, q.lane.send with
    | .waiting, r :: rest => { q with lane := { q.lane with send := rest }, pump := .received r }
    | _, _ => q
  | .wrote ok =>
    match q.pump with
    | .received r => { q with pump := if ok then .written r else .failed r }
    | _ => q
  | .accounted =>
    match q.pump with
    | .written r =>
      { q with lane := { q.lane with queued := q.lane.queued - r.length }, pump := .waiting }
    | _ => q
  | .quit => if q.pump = .waiting then { q with pump := .gone } else q
  | .dropped => { q with lane := { q.lane with closed := true } }

def run (es : List QueueEvent) : SendQueue := es.foldl step {}

@[simp] theorem run_nil : run [] = {} := rfl

theorem run_concat (es : List QueueEvent) (e : QueueEvent) : run (es ++ [e]) = (run es).step e := by
  simp [run]

/-! ### What is counted -/

/-- The call has added its frame and neither queued it nor taken it back. -/
def reserving : CallPhase → Bool
  | .reserved | .selecting | .releasing => true
  | _ => false

/-- The call is between its check and its add. -/
def checking (p : CallPhase) : Bool := p = .underCap

/-- The bytes of the calls in the phases. -/
def bytesIn (phases : CallPhase → Bool) (calls : List (Reply × CallPhase)) : ℤ :=
  (calls.map fun c => if phases c.2 then (c.1.length : ℤ) else 0).sum

def bytesOf (rs : List Reply) : ℤ := (rs.map fun r => (r.length : ℤ)).sum

def reservedBytes (q : SendQueue) : ℤ := bytesIn reserving q.calls

def checkedBytes (q : SendQueue) : ℤ := bytesIn checking q.calls

def sendBytes (q : SendQueue) : ℤ := bytesOf q.lane.send

/-- The frame that the pump has received and not yet successfully written. -/
def unwrittenBytes (q : SendQueue) : ℤ :=
  match q.pump with
  | .received r | .failed r => r.length
  | _ => 0

/-- The frame that the pump has received and not yet taken off the account. -/
def pumpBytes (q : SendQueue) : ℤ :=
  match q.pump with
  | .received r | .failed r | .written r => r.length
  | _ => 0

/-- No call is in progress, nothing is queued and the pump waits. -/
structure Quiescent (q : SendQueue) : Prop where
  calls : ∀ c ∈ q.calls, ∃ ok, c.2 = .returned ok
  send : q.lane.send = []
  pump : q.pump = .waiting

/-! ### One section of a call -/

/-- What a call in the phase has on the account. -/
def bytesAt (phases : CallPhase → Bool) (r : Reply) (p : CallPhase) : ℤ :=
  if phases p then (r.length : ℤ) else 0

theorem bytesOf_cons (r : Reply) (rs : List Reply) :
    bytesOf (r :: rs) = r.length + bytesOf rs := by
  simp [bytesOf]

theorem bytesOf_concat (rs : List Reply) (r : Reply) :
    bytesOf (rs ++ [r]) = bytesOf rs + r.length := by
  simp [bytesOf]

theorem bytesOf_nonneg (rs : List Reply) : 0 ≤ bytesOf rs := by
  induction rs with
  | nil => rfl
  | cons r rs ih =>
    rw [bytesOf_cons]
    omega

section Section

variable {r : Reply} {pick : Bool} {l l' : Lane} {p p' : CallPhase}

/-- The account moves with what the call holds and what is queued. -/
theorem advance_queued (h : p.advance r pick l = some (p', l')) :
    l'.queued = l.queued + (bytesAt reserving r p' - bytesAt reserving r p) +
      (bytesOf l'.send - bytesOf l.send) := by
  cases p with
  | loading =>
    simp only [CallPhase.advance] at h
    split at h <;> cases h <;> simp [bytesAt, reserving]
  | underCap =>
    cases h
    simp [bytesAt, reserving]
  | reserved =>
    simp only [CallPhase.advance] at h
    split at h <;> cases h <;> simp [bytesAt, reserving]
  | selecting =>
    simp only [CallPhase.advance] at h
    split at h
    · cases h
      simp [bytesAt, reserving, bytesOf_concat]
    · split at h <;> cases h
      simp [bytesAt, reserving]
  | releasing =>
    cases h
    simp [bytesAt, reserving]
    omega
  | shedding =>
    cases h
    simp [bytesAt, reserving]
  | returned ok => cases h

/-- Only a check that passes adds to the account and the calls about to add to it. -/
theorem advance_checked (h : p.advance r pick l = some (p', l')) :
    l'.queued + bytesAt checking r p' ≤ l.queued + bytesAt checking r p ∨
      l' = l ∧ bytesAt checking r p = 0 ∧ l.queued + bytesAt checking r p' ≤ maxQueuedBytes := by
  cases p with
  | loading =>
    simp only [CallPhase.advance] at h
    split at h
    next hover =>
      cases h
      exact .inl le_rfl
    next hunder =>
      cases h
      have hle : l.queued + r.length ≤ maxQueuedBytes := not_lt.mp hunder
      exact .inr ⟨rfl, rfl, by simpa [bytesAt, checking] using hle⟩
  | underCap =>
    cases h
    simp [bytesAt, checking]
  | reserved =>
    simp only [CallPhase.advance] at h
    split at h <;> cases h <;> simp [bytesAt, checking]
  | selecting =>
    simp only [CallPhase.advance] at h
    split at h
    · cases h
      simp [bytesAt, checking]
    · split at h <;> cases h
      simp [bytesAt, checking]
  | releasing =>
    cases h
    simp [bytesAt, checking]
  | shedding =>
    cases h
    simp [bytesAt, checking]
  | returned ok => cases h

end Section

/-! ### Many calls -/

section Calls

variable {phases : CallPhase → Bool} {calls : List (Reply × CallPhase)} {r : Reply}

theorem bytesIn_cons (c : Reply × CallPhase) :
    bytesIn phases (c :: calls) = bytesAt phases c.1 c.2 + bytesIn phases calls := by
  simp [bytesIn, bytesAt]

theorem bytesIn_concat (p : CallPhase) :
    bytesIn phases (calls ++ [(r, p)]) = bytesIn phases calls + bytesAt phases r p := by
  simp [bytesIn, bytesAt]

theorem bytesIn_set {i : ℕ} {p : CallPhase} (h : calls[i]? = some (r, p)) (p' : CallPhase) :
    bytesIn phases (calls.set i (r, p')) =
      bytesIn phases calls + (bytesAt phases r p' - bytesAt phases r p) := by
  induction calls generalizing i with
  | nil => simp at h
  | cons c calls ih =>
    cases i with
    | zero =>
      obtain rfl : c = (r, p) := by simpa using h
      rw [List.set_cons_zero, bytesIn_cons, bytesIn_cons]
      dsimp only
      omega
    | succ i =>
      rw [List.set_cons_succ, bytesIn_cons, bytesIn_cons, ih (by simpa using h)]
      omega

theorem bytesAt_nonneg (p : CallPhase) : 0 ≤ bytesAt phases r p := by
  unfold bytesAt
  split <;> omega

theorem bytesIn_nonneg : 0 ≤ bytesIn phases calls := by
  induction calls with
  | nil => exact le_rfl
  | cons c calls ih =>
    have hc := @bytesAt_nonneg phases c.1 c.2
    rw [bytesIn_cons]
    omega

end Calls

/-- The ways an event can change the connection. -/
inductive Moves (q : SendQueue) : SendQueue → Prop where
  | same : Moves q q
  | called (r : Reply) : Moves q { q with calls := q.calls ++ [(r, .loading)] }
  | advanced {i : ℕ} {pick : Bool} {r : Reply} {p p' : CallPhase} {l : Lane}
      (hcall : q.calls[i]? = some (r, p)) (hp : p.advance r pick q.lane = some (p', l)) :
      Moves q { q with lane := l, calls := q.calls.set i (r, p') }
  | received {r : Reply} {rest : List Reply} (hp : q.pump = .waiting)
      (hsend : q.lane.send = r :: rest) :
      Moves q { q with lane := { q.lane with send := rest }, pump := .received r }
  | wrote {r : Reply} (hp : q.pump = .received r) : Moves q { q with pump := .written r }
  | failed {r : Reply} (hp : q.pump = .received r) : Moves q { q with pump := .failed r }
  | accounted {r : Reply} (hp : q.pump = .written r) :
      Moves q { q with
        lane := { q.lane with queued := q.lane.queued - r.length }
        pump := .waiting }
  | quit (hp : q.pump = .waiting) : Moves q { q with pump := .gone }
  | dropped : Moves q { q with lane := { q.lane with closed := true } }

theorem step_moves (q : SendQueue) (e : QueueEvent) : Moves q (q.step e) := by
  cases e with
  | called r => exact .called r
  | advanced i pick =>
    cases hcall : q.calls[i]? with
    | none =>
      simp only [step, hcall]
      exact .same
    | some c =>
      obtain ⟨r, p⟩ := c
      cases hp : p.advance r pick q.lane with
      | none =>
        simp only [step, hcall, hp]
        exact .same
      | some x =>
        obtain ⟨p', l⟩ := x
        simp only [step, hcall, hp]
        exact .advanced hcall hp
  | received =>
    cases hp : q.pump with
    | waiting =>
      cases hsend : q.lane.send with
      | nil =>
        simp only [step, hp, hsend]
        exact .same
      | cons r rest =>
        simp only [step, hp, hsend]
        exact .received hp hsend
    | received r | written r | failed r | gone =>
      simp only [step, hp]
      exact .same
  | wrote ok =>
    cases hp : q.pump with
    | received r =>
      cases ok with
      | true =>
        simp only [step, hp, if_true]
        exact .wrote hp
      | false =>
        simp only [step, hp]
        exact .failed hp
    | waiting | written r | failed r | gone =>
      simp only [step, hp]
      exact .same
  | accounted =>
    cases hp : q.pump with
    | written r =>
      simp only [step, hp]
      exact .accounted hp
    | waiting | received r | failed r | gone =>
      simp only [step, hp]
      exact .same
  | quit =>
    by_cases hp : q.pump = .waiting
    · have h : q.step .quit = { q with pump := .gone } := if_pos hp
      rw [h]
      exact .quit hp
    · have h : q.step .quit = q := if_neg hp
      rw [h]
      exact .same
  | dropped => exact .dropped

/-! ### Runs -/

theorem Moves.balanced {q q' : SendQueue} (h : Moves q q')
    (hq : q.lane.queued = q.reservedBytes + q.sendBytes + q.pumpBytes) :
    q'.lane.queued = q'.reservedBytes + q'.sendBytes + q'.pumpBytes := by
  unfold reservedBytes sendBytes pumpBytes at *
  cases h with
  | same | dropped => exact hq
  | called r =>
    rw [bytesIn_concat]
    simpa [bytesAt, reserving] using hq
  | advanced hcall hp =>
    rw [bytesIn_set hcall, advance_queued hp]
    dsimp only
    omega
  | received hp hsend =>
    rw [hp, hsend, bytesOf_cons] at hq
    dsimp only at hq ⊢
    omega
  | wrote hp | failed hp | quit hp =>
    rw [hp] at hq
    exact hq
  | accounted hp =>
    rw [hp] at hq
    dsimp only at hq ⊢
    omega

theorem run_balanced (es : List QueueEvent) : (run es).lane.queued =
    (run es).reservedBytes + (run es).sendBytes + (run es).pumpBytes := by
  induction es using List.reverseRecOn with
  | nil => rfl
  | append_singleton es e ih =>
    rw [run_concat]
    exact (step_moves _ e).balanced ih

theorem Moves.bounded {q q' : SendQueue} (h : Moves q q') :
    q'.lane.queued + q'.checkedBytes ≤ q.lane.queued + q.checkedBytes ∨
      q'.lane.queued + q'.checkedBytes ≤ maxQueuedBytes + q.checkedBytes := by
  unfold checkedBytes
  cases h with
  | same | dropped | wrote | failed | quit | received => exact .inl le_rfl
  | called r =>
    rw [bytesIn_concat]
    exact .inl (by simp [bytesAt, checking])
  | @advanced i pick r p p' l hcall hp =>
    dsimp only
    rw [bytesIn_set hcall]
    rcases advance_checked hp with hle | ⟨rfl, hp, hle⟩
    · left
      omega
    · right
      omega
  | accounted hp =>
    left
    dsimp only
    omega

theorem run_bounded (es : List QueueEvent) : ∃ es₀, es₀ <+: es ∧
    (run es).lane.queued + (run es).checkedBytes ≤ maxQueuedBytes + (run es₀).checkedBytes := by
  induction es using List.reverseRecOn with
  | nil => exact ⟨[], List.prefix_rfl, by decide⟩
  | append_singleton es e ih =>
    obtain ⟨es₀, hes, hle⟩ := ih
    rw [run_concat]
    rcases (step_moves (run es) e).bounded with h | h
    · exact ⟨es₀, hes.trans (List.prefix_append _ _), h.trans hle⟩
    · exact ⟨es, List.prefix_append _ _, h⟩

theorem pumpBytes_nonneg (q : SendQueue) : 0 ≤ q.pumpBytes := by
  unfold pumpBytes
  split <;> omega

theorem Quiescent.reservedBytes {q : SendQueue} (h : q.Quiescent) : q.reservedBytes = 0 := by
  have hzero : ∀ b ∈ q.calls.map fun c => bytesAt reserving c.1 c.2, b = 0 := by
    intro b hb
    obtain ⟨c, hc, rfl⟩ := List.mem_map.mp hb
    obtain ⟨ok, hok⟩ := h.calls c hc
    rw [hok]
    rfl
  exact List.sum_eq_zero hzero

/-- In every order of the sections, the account is what the calls in progress have reserved, what is
queued, and the frame that the pump has received and not yet taken off it. It is never negative, it
is back at zero when nothing is going on, and it exceeds the cap by at most the frames that were, at
one earlier moment, between their check and their add. -/
theorem accounted (es : List QueueEvent) :
    (run es).lane.queued =
        (run es).reservedBytes + (run es).sendBytes + (run es).pumpBytes ∧
      0 ≤ (run es).lane.queued ∧
      ((run es).Quiescent → (run es).lane.queued = 0) ∧
      ∃ es₀, es₀ <+: es ∧ (run es).lane.queued ≤ maxQueuedBytes + (run es₀).checkedBytes := by
  have hbalanced := run_balanced es
  refine ⟨hbalanced, ?_, ?_, ?_⟩
  · have hcalls : 0 ≤ (run es).reservedBytes := bytesIn_nonneg
    have hsend : 0 ≤ (run es).sendBytes := bytesOf_nonneg _
    have hpump := (run es).pumpBytes_nonneg
    omega
  · intro h
    have hsend : (run es).sendBytes = 0 := by rw [sendBytes, h.send]; rfl
    have hpump : (run es).pumpBytes = 0 := by rw [pumpBytes, h.pump]
    rw [hbalanced, h.reservedBytes, hsend, hpump]
    rfl
  · obtain ⟨es₀, hes, hle⟩ := run_bounded es
    have hchecked : 0 ≤ (run es).checkedBytes := bytesIn_nonneg
    exact ⟨es₀, hes, by omega⟩

/-- One call queues its frame and the pump writes it. -/
def writtenOnce (r : Reply) : List QueueEvent :=
  [.called r, .advanced 0 true, .advanced 0 true, .advanced 0 true, .advanced 0 true, .received,
    .wrote true]

/-- After the write the frame is still on the account. -/
theorem not_accounted_writtenOnce :
    ¬ ∀ es, (run es).lane.queued =
      (run es).reservedBytes + (run es).sendBytes + (run es).unwrittenBytes := by
  intro h
  have hrun := h (writtenOnce (.frame (errorFrame "" "")))
  revert hrun
  decide +kernel

/-! ### The sections of the hub's `sendFrame` -/

/-- The sections advance a call from one phase to another, or leave the connection's account, its
queue and its flag alone. -/
inductive Follows (d : ConnID) (r : Reply) : CallPhase → List HubSection → CallPhase → Prop where
  | nil {p : CallPhase} : Follows d r p [] p
  | advance {p p' p'' : CallPhase} {e : HubSection} {t : List HubSection}
      (h : p.advance r e.pick (e.pre.conns d).lane = some (p', (e.post.conns d).lane))
      (ht : Follows d r p' t p'') : Follows d r p (e :: t) p''
  | stutter {p p' : CallPhase} {e : HubSection} {t : List HubSection}
      (h : (e.post.conns d).lane = (e.pre.conns d).lane) (ht : Follows d r p t p') :
      Follows d r p (e :: t) p'

section Sections

variable {d : ConnID} {r : Reply} {p : CallPhase} {α : Type}

/-- The program takes a call in phase `p` to the phase that its result says. -/
def Takes (d : ConnID) (r : Reply) (p : CallPhase) (q : HubProc α) (phase : α → CallPhase) : Prop :=
  Records q fun a t => Follows d r p t (phase a)

namespace Takes

theorem returns (a : α) {phase : α → CallPhase} : Takes d r (phase a) (Pure.pure a) phase :=
  Records.pure .nil

/-- The program's next section is the call's next section. -/
theorem guarded_bind {β : Type} {label : Label} {f : Bool → Hub → Option (α × Hub)}
    {k : α → HubProc β} {phase : β → CallPhase} {m : α → CallPhase}
    (hf : ∀ pick s a s', f pick s = some (a, s') →
      p.advance r pick (s.conns d).lane = some (m a, (s'.conns d).lane))
    (hk : ∀ a, Takes d r (m a) (k a) phase) : Takes d r p (Proc.guarded label f >>= k) phase := by
  refine Records.bind (Q := fun a t => ∃ e : HubSection, t = [e] ∧
    p.advance r e.pick (e.pre.conns d).lane = some (m a, (e.post.conns d).lane))
    (Records.guarded fun pick s a s' h => ⟨_, rfl, hf pick s a s' h⟩) ?_
  rintro a _ ⟨e, rfl, he⟩
  exact (hk a).mono fun b t ht => .advance he ht

theorem read_bind {β : Type} {label : Label} {f : Hub → α} {k : α → HubProc β}
    {phase : β → CallPhase} {m : α → CallPhase}
    (hf : ∀ s pick, p.advance r pick (s.conns d).lane = some (m (f s), (s.conns d).lane))
    (hk : ∀ a, Takes d r (m a) (k a) phase) : Takes d r p (Proc.read label f >>= k) phase := by
  apply guarded_bind (m := m) _ hk
  rintro pick s a s' h
  obtain ⟨rfl, rfl⟩ : f s = a ∧ s = s' := by simpa using h
  exact hf s pick

theorem modify_bind {β : Type} {label : Label} {f : Hub → Hub} {k : Unit → HubProc β}
    {phase : β → CallPhase} {n : CallPhase}
    (hf : ∀ s pick, p.advance r pick (s.conns d).lane = some (n, ((f s).conns d).lane))
    (hk : Takes d r n (k ()) phase) : Takes d r p (Proc.modify label f >>= k) phase := by
  apply guarded_bind (m := fun _ => n) _ fun _ => hk
  rintro pick s a s' h
  obtain rfl : f s = s' := by simpa using h
  exact hf s pick

theorem stutter_bind {β : Type} {label : Label} {f : Hub → Hub} {k : Unit → HubProc β}
    {phase : β → CallPhase} (hf : ∀ s, ((f s).conns d).lane = (s.conns d).lane)
    (hk : Takes d r p (k ()) phase) : Takes d r p (Proc.modify label f >>= k) phase := by
  refine Records.bind (Q := fun _ t => ∃ e : HubSection, t = [e] ∧
    (e.post.conns d).lane = (e.pre.conns d).lane) (Records.modify fun s _ => ⟨_, rfl, hf s⟩) ?_
  rintro - _ ⟨e, rfl, he⟩
  exact Records.mono hk fun b t ht => .stutter he ht

theorem release : Takes d r .releasing (Dap.release d r >>= fun _ => Pure.pure false) .returned :=
  modify_bind (fun s _ => by simp [CallPhase.advance, Conn.lane]) (returns false)

end Takes

theorem trySend_advance {d : ConnID} {r : Reply} {pick pushed : Bool} {s s' : Hub}
    (h : trySend d r pick s = some (pushed, s')) :
    CallPhase.selecting.advance r pick (s.conns d).lane =
      some (if pushed then .returned true else .releasing, (s'.conns d).lane) := by
  unfold trySend at h
  dsimp only at h
  by_cases hready : (s.conns d).send.length < sendBuffer ∧
      ((s.conns d).closed = false ∨ pick = true)
  · apply (if_pos hready).trans
    rw [if_pos hready] at h
    obtain ⟨rfl, rfl⟩ : true = pushed ∧ _ = s' := by simpa using h
    simp [Conn.lane]
  · apply (if_neg hready).trans
    rw [if_neg hready] at h
    by_cases hclosed : (s.conns d).closed = true
    · apply (if_pos hclosed).trans
      rw [if_pos hclosed] at h
      obtain ⟨rfl, rfl⟩ : false = pushed ∧ s = s' := by simpa using h
      rfl
    · rw [if_neg hclosed] at h
      cases h

/-- A call of the hub's `sendFrame` is a call of the queue account: its sections are those of the
phases, and it returns what they say. -/
theorem sendFrame_takes (d : ConnID) (r : Reply) :
    Takes d r .loading (sendFrame d r) .returned := by
  unfold sendFrame
  apply Takes.read_bind (m := fun queued =>
    if queued + r.length > maxQueuedBytes then .shedding else .underCap)
  · intro s pick
    change (if _ then _ else _) = _
    rw [← apply_ite (fun p => some (p, (s.conns d).lane))]
    rfl
  intro queued
  by_cases hover : queued + r.length > maxQueuedBytes
  · rw [if_pos hover, if_pos hover]
    apply Takes.stutter_bind
    · intro s
      rfl
    apply Takes.stutter_bind
    · intro s
      simp only [Hub.closedAs, Hub.updConn_conns_self]
      split <;> rfl
    apply Takes.modify_bind (n := .returned false)
    · intro s pick
      simp [CallPhase.advance, Conn.lane, Hub.dropped]
    exact Takes.returns false
  · rw [if_neg hover, if_neg hover]
    apply Takes.modify_bind (n := .reserved)
    · intro s pick
      simp [CallPhase.advance, Conn.lane]
    apply Takes.read_bind (m := fun closed => if closed then .releasing else .selecting)
    · intro s pick
      change (if _ then _ else _) = _
      rw [← apply_ite (fun p => some (p, (s.conns d).lane))]
      rfl
    intro closed
    cases closed with
    | true => exact Takes.release
    | false =>
      apply Takes.guarded_bind (m := fun pushed => if pushed then .returned true else .releasing)
      · intro pick s pushed s' h
        exact trySend_advance h
      intro pushed
      cases pushed with
      | true => exact Takes.returns true
      | false => exact Takes.release

end Sections

end SendQueue
end Dap
