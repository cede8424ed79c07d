import Mathlib.Tactic

/-! The keepalive watchdog of a client, over the timers and sockets it is given (`keepalive.ts` of
either adapter). -/
namespace Dap

/-- The fields of the watchdog, and what its environment holds for it: the timers that are pending
with the peer their callback is about, and the peers whose pongs it listens to. -/
structure KeepAlive (Peer : Type) where
  pingsSent : ℕ := 0
  terminated : Bool := false
  interval : Option ℕ := none
  deadline : Option ℕ := none
  awaitingPong : Bool := false
  intervals : List (ℕ × Peer) := []
  timeouts : List (ℕ × Peer) := []
  listeners : List Peer := []
  handles : ℕ := 0

/-- `pongs` are the peers that pong while a ping is sent. -/
inductive KeepAliveEvent (Peer : Type) where
  | start (p : Peer) (pongs : List Peer)
  | stop
  | interval (i : ℕ) (pongs : List Peer)
  | pong (p : Peer)
  | deadline (h : ℕ)

namespace KeepAlive

variable {Peer : Type}

def clear (timer : Option ℕ) (pending : List (ℕ × Peer)) : List (ℕ × Peer) :=
  match timer with
  | none => pending
  | some h => pending.filter fun t => t.1 ≠ h

def stop (s : KeepAlive Peer) : KeepAlive Peer :=
  { s with
    intervals := clear s.interval s.intervals
    timeouts := clear s.deadline s.timeouts
    interval := none
    deadline := none
    awaitingPong := false }

def onPong (s : KeepAlive Peer) : KeepAlive Peer :=
  { s with awaitingPong := false, timeouts := clear s.deadline s.timeouts, deadline := none }

/-- A peer that was started twice has two listeners, which do one thing. -/
def pong [DecidableEq Peer] (s : KeepAlive Peer) (p : Peer) : KeepAlive Peer :=
  if p ∈ s.listeners then s.onPong else s

/-- The deadline is armed before the ping. -/
def arm (s : KeepAlive Peer) (p : Peer) : KeepAlive Peer :=
  { s with
    awaitingPong := true
    deadline := some s.handles
    timeouts := s.timeouts ++ [(s.handles, p)]
    handles := s.handles + 1
    pingsSent := s.pingsSent + 1 }

def tick [DecidableEq Peer] (s : KeepAlive Peer) (p : Peer) (pongs : List Peer) :
    KeepAlive Peer :=
  if s.terminated || s.awaitingPong then s else pongs.foldl pong (s.arm p)

/-- `start` up to its first `tick`. -/
def watch (s : KeepAlive Peer) (p : Peer) : KeepAlive Peer :=
  { s.stop with
    terminated := false
    listeners := s.stop.listeners ++ [p]
    interval := some s.stop.handles
    intervals := s.stop.intervals ++ [(s.stop.handles, p)]
    handles := s.stop.handles + 1 }

def start [DecidableEq Peer] (s : KeepAlive Peer) (p : Peer) (pongs : List Peer) :
    KeepAlive Peer :=
  (s.watch p).tick p pongs

def peerOf (h : ℕ) (pending : List (ℕ × Peer)) : Option Peer :=
  (pending.find? fun t => t.1 = h).map Prod.snd

/-- A timer that is not pending does not run. -/
def step [DecidableEq Peer] (s : KeepAlive Peer) : KeepAliveEvent Peer → KeepAlive Peer
  | .start p pongs => s.start p pongs
  | .stop => s.stop
  | .interval i pongs => (peerOf i s.intervals).elim s fun p => s.tick p pongs
  | .pong p => s.pong p
  | .deadline h => (peerOf h s.timeouts).elim s fun _ =>
    { s with timeouts := s.timeouts.filter fun t => t.1 ≠ h, terminated := true }.stop

def run [DecidableEq Peer] (es : List (KeepAliveEvent Peer)) : KeepAlive Peer := es.foldl step {}

/-- The peer that is terminated. -/
def kills (s : KeepAlive Peer) : KeepAliveEvent Peer → Option Peer
  | .deadline h => peerOf h s.timeouts
  | _ => none

/-- The peer that is pinged, and the deadline that is armed for the ping. -/
def pings (s : KeepAlive Peer) : KeepAliveEvent Peer → Option (Peer × ℕ)
  | .start p _ => some (p, (s.watch p).handles)
  | .interval i _ => (peerOf i s.intervals).bind fun p =>
    if s.terminated || s.awaitingPong then none else some (p, s.handles)
  | _ => none

/-- The peers that pong at an event. -/
def pongs (s : KeepAlive Peer) (e : KeepAliveEvent Peer) : List Peer :=
  match e with
  | .start _ ps => ps
  | .interval _ ps => if (s.pings e).isSome then ps else []
  | .pong p => [p]
  | _ => []

def Restarts : KeepAliveEvent Peer → Prop
  | .start _ _ | .stop => True
  | _ => False

/-- The peer whose interval is running. -/
def Watches (s : KeepAlive Peer) (p : Peer) : Prop :=
  ∃ i, s.interval = some i ∧ (i, p) ∈ s.intervals

/-- The deadline was armed and not cleared, so that it can fire. -/
def Fires (s : KeepAlive Peer) (h : ℕ) : Prop := h ∈ s.timeouts.map Prod.fst

/-- The deadline `h` was armed for a ping to `p`, with no pong from `p`, no stop and no start
since. -/
def Misses [DecidableEq Peer] (es : List (KeepAliveEvent Peer)) (h : ℕ) (p : Peer) : Prop :=
  ∃ es₁ e es₂, es = es₁ ++ e :: es₂ ∧ (run es₁).pings e = some (p, h) ∧
    p ∉ (run es₁).pongs e ∧ ∀ es₃ e' es₄, es₂ = es₃ ++ e' :: es₄ →
      ¬ Restarts e' ∧ p ∉ (run (es₁ ++ e :: es₃)).pongs e'

/-! ### The fields and the timers agree -/

structure Sound (s : KeepAlive Peer) : Prop where
  timeouts : s.timeouts.map Prod.fst = s.deadline.toList
  intervals : s.intervals.map Prod.fst = s.interval.toList
  awaiting : s.awaitingPong = s.deadline.isSome
  watched : ∀ h p, (h, p) ∈ s.timeouts → ∃ i, (i, p) ∈ s.intervals
  listening : ∀ i p, (i, p) ∈ s.intervals → p ∈ s.listeners

theorem clear_eq_nil {timer : Option ℕ} {pending : List (ℕ × Peer)}
    (h : pending.map Prod.fst = timer.toList) : clear timer pending = [] := by
  cases timer with
  | none => exact List.map_eq_nil_iff.mp h
  | some i =>
    apply List.filter_eq_nil_iff.mpr
    intro t ht
    have hmem : t.1 ∈ pending.map Prod.fst := List.mem_map_of_mem ht
    rw [h] at hmem
    simpa using hmem

theorem Sound.stop_eq {s : KeepAlive Peer} (h : s.Sound) : s.stop =
    { s with
      intervals := [], timeouts := [], interval := none, deadline := none
      awaitingPong := false } := by
  unfold stop
  rw [clear_eq_nil h.timeouts, clear_eq_nil h.intervals]

theorem Sound.onPong_eq {s : KeepAlive Peer} (h : s.Sound) : s.onPong =
    { s with awaitingPong := false, timeouts := [], deadline := none } := by
  unfold onPong
  rw [clear_eq_nil h.timeouts]

theorem Sound.init : Sound ({} : KeepAlive Peer) where
  timeouts := rfl
  intervals := rfl
  awaiting := rfl
  watched := by simp
  listening := by simp

theorem Sound.stop {s : KeepAlive Peer} (h : s.Sound) : s.stop.Sound := by
  rw [h.stop_eq]
  constructor <;> simp

theorem Sound.idle {s : KeepAlive Peer} (h : s.Sound) (hidle : s.awaitingPong = false) :
    s.deadline = none ∧ s.timeouts = [] := by
  have hawaiting := h.awaiting
  have htimeouts := h.timeouts
  rw [hidle] at hawaiting
  cases hdeadline : s.deadline with
  | some d =>
    rw [hdeadline] at hawaiting
    cases hawaiting
  | none =>
    rw [hdeadline] at htimeouts
    exact ⟨rfl, List.map_eq_nil_iff.mp htimeouts⟩

theorem Sound.arm {s : KeepAlive Peer} (h : s.Sound) (hidle : s.awaitingPong = false) {i : ℕ}
    {p : Peer} (hp : (i, p) ∈ s.intervals) : (s.arm p).Sound := by
  have hnone := (h.idle hidle).2
  refine ⟨?_, h.intervals, rfl, ?_, h.listening⟩
  · show (s.timeouts ++ _).map Prod.fst = _
    rw [hnone]
    rfl
  · intro d q hq
    change (d, q) ∈ s.timeouts ++ [(s.handles, p)] at hq
    rw [hnone, List.nil_append, List.mem_singleton] at hq
    obtain ⟨rfl, rfl⟩ := Prod.mk.inj hq
    exact ⟨i, hp⟩

theorem Sound.watch {s : KeepAlive Peer} (h : s.Sound) (p : Peer) : (s.watch p).Sound := by
  unfold KeepAlive.watch
  rw [h.stop_eq]
  refine ⟨rfl, rfl, rfl, by simp, ?_⟩
  intro i q hq
  change (i, q) ∈ [] ++ [(s.handles, p)] at hq
  rw [List.nil_append, List.mem_singleton] at hq
  rw [(Prod.mk.inj hq).2]
  exact List.mem_append_right _ (List.mem_singleton_self p)

theorem watch_intervals (s : KeepAlive Peer) (p : Peer) :
    (s.stop.handles, p) ∈ (s.watch p).intervals :=
  List.mem_append_right _ (List.mem_singleton_self _)

theorem mem_of_peerOf {i : ℕ} {pending : List (ℕ × Peer)} {p : Peer}
    (h : peerOf i pending = some p) : (i, p) ∈ pending := by
  obtain ⟨t, ht, rfl⟩ := Option.map_eq_some_iff.mp h
  have hi : t.1 = i := by simpa using List.find?_some ht
  rw [← hi]
  exact List.mem_of_find?_eq_some ht

theorem Sound.timeouts_eq {s : KeepAlive Peer} (h : s.Sound) {d : ℕ} {p : Peer}
    (hp : (d, p) ∈ s.timeouts) : s.timeouts = [(d, p)] ∧ s.deadline = some d := by
  have hmap := h.timeouts
  cases hdeadline : s.deadline with
  | none =>
    rw [hdeadline] at hmap
    rw [List.map_eq_nil_iff.mp hmap] at hp
    cases hp
  | some k =>
    rw [hdeadline] at hmap
    obtain ⟨t, ht, hk⟩ := List.map_eq_singleton_iff.mp hmap
    rw [ht, List.mem_singleton] at hp
    rw [ht, ← hp]
    exact ⟨rfl, congrArg some (hp ▸ hk).symm⟩

theorem Sound.watches {s : KeepAlive Peer} (h : s.Sound) {i : ℕ} {p : Peer}
    (hp : (i, p) ∈ s.intervals) : s.intervals = [(i, p)] ∧ s.interval = some i := by
  have hmap := h.intervals
  cases hinterval : s.interval with
  | none =>
    rw [hinterval] at hmap
    rw [List.map_eq_nil_iff.mp hmap] at hp
    cases hp
  | some k =>
    rw [hinterval] at hmap
    obtain ⟨t, ht, hk⟩ := List.map_eq_singleton_iff.mp hmap
    rw [ht, List.mem_singleton] at hp
    rw [ht, ← hp]
    exact ⟨rfl, congrArg some (hp ▸ hk).symm⟩

theorem peerOf_timeouts {s : KeepAlive Peer} (h : s.Sound) {d : ℕ} {p : Peer} :
    peerOf d s.timeouts = some p ↔ s.Fires d ∧ s.Watches p := by
  constructor
  · intro hp
    have hmem := mem_of_peerOf hp
    obtain ⟨i, hi⟩ := h.watched d p hmem
    exact ⟨List.mem_map_of_mem hmem, i, (h.watches hi).2, hi⟩
  · intro hboth
    obtain ⟨hfires, i, -, hi⟩ := hboth
    obtain ⟨t, ht, rfl⟩ := List.mem_map.mp hfires
    obtain ⟨j, hj⟩ := h.watched t.1 t.2 ht
    rw [(h.watches hi).1, List.mem_singleton] at hj
    unfold peerOf
    rw [(h.timeouts_eq ht).1, (Prod.mk.inj hj).2]
    simp

variable [DecidableEq Peer]

theorem Sound.pong {s : KeepAlive Peer} (h : s.Sound) (p : Peer) : (s.pong p).Sound := by
  unfold KeepAlive.pong
  split
  · rw [h.onPong_eq]
    exact ⟨rfl, h.intervals, rfl, by simp, h.listening⟩
  · exact h

theorem Sound.pongs {s : KeepAlive Peer} (h : s.Sound) (ps : List Peer) :
    (ps.foldl KeepAlive.pong s).Sound := by
  induction ps generalizing s with
  | nil => exact h
  | cons p ps ih => exact ih (h.pong p)

theorem Sound.tick {s : KeepAlive Peer} (h : s.Sound) {i : ℕ} {p : Peer}
    (hp : (i, p) ∈ s.intervals) (ps : List Peer) : (s.tick p ps).Sound := by
  unfold KeepAlive.tick
  split
  next => exact h
  next hgo =>
    have hidle : s.awaitingPong = false := by
      cases hawait : s.awaitingPong with
      | false => rfl
      | true => simp [hawait] at hgo
    exact (h.arm hidle hp).pongs ps

theorem fire_eq {s : KeepAlive Peer} (h : s.Sound) {d : ℕ} {p : Peer}
    (hp : peerOf d s.timeouts = some p) : s.step (.deadline d) =
      { s with
        intervals := [], timeouts := [], interval := none, deadline := none
        awaitingPong := false, terminated := true } := by
  have hone := (h.timeouts_eq (mem_of_peerOf hp)).1
  have hdeadline := (h.timeouts_eq (mem_of_peerOf hp)).2
  unfold step
  simp only [hp, Option.elim_some]
  unfold KeepAlive.stop
  simp only [clear_eq_nil h.intervals, hone, hdeadline]
  simp [clear]

theorem step_interval (s : KeepAlive Peer) (i : ℕ) (ps : List Peer) :
    s.step (.interval i ps) = (peerOf i s.intervals).elim s fun p => s.tick p ps := rfl

theorem step_deadline_none {s : KeepAlive Peer} {d : ℕ} (h : peerOf d s.timeouts = none) :
    s.step (.deadline d) = s := by
  change (peerOf d s.timeouts).elim s _ = s
  rw [h]
  rfl

theorem Sound.step {s : KeepAlive Peer} (h : s.Sound) (e : KeepAliveEvent Peer) :
    (s.step e).Sound := by
  cases e with
  | start p ps => exact (h.watch p).tick (s.watch_intervals p) ps
  | stop => exact h.stop
  | interval i ps =>
    rw [step_interval]
    cases hp : peerOf i s.intervals with
    | none => exact h
    | some p => exact h.tick (mem_of_peerOf hp) ps
  | pong p => exact h.pong p
  | deadline d =>
    cases hp : peerOf d s.timeouts with
    | none =>
      rw [step_deadline_none hp]
      exact h
    | some p =>
      rw [fire_eq h hp]
      constructor <;> simp

theorem run_concat (es : List (KeepAliveEvent Peer)) (e : KeepAliveEvent Peer) :
    run (es ++ [e]) = (run es).step e := by
  rw [run, List.foldl_append]
  rfl

theorem run_sound (es : List (KeepAliveEvent Peer)) : (run es).Sound := by
  induction es using List.reverseRecOn with
  | nil => exact Sound.init
  | append_singleton es e ih =>
    rw [run_concat]
    exact ih.step e

/-! ### Pending deadlines -/

theorem pong_timeouts {s : KeepAlive Peer} (h : s.Sound) {q p : Peer} {d : ℕ}
    (hp : (d, p) ∈ (s.pong q).timeouts) : (d, p) ∈ s.timeouts ∧ q ∉ s.listeners := by
  unfold pong at hp
  split at hp
  next =>
    rw [h.onPong_eq] at hp
    cases hp
  next hnot => exact ⟨hp, hnot⟩

theorem pong_listeners (s : KeepAlive Peer) (q : Peer) : (s.pong q).listeners = s.listeners := by
  unfold pong
  split <;> rfl

theorem pongs_timeouts {s : KeepAlive Peer} (h : s.Sound) {ps : List Peer} {p : Peer} {d : ℕ}
    (hp : (d, p) ∈ (ps.foldl KeepAlive.pong s).timeouts) :
    (d, p) ∈ s.timeouts ∧ ∀ q ∈ ps, q ∉ s.listeners := by
  induction ps generalizing s with
  | nil => exact ⟨hp, by simp⟩
  | cons q ps ih =>
    obtain ⟨hbefore, hothers⟩ := ih (h.pong q) hp
    obtain ⟨hfirst, hq⟩ := pong_timeouts h hbefore
    refine ⟨hfirst, fun r hr => ?_⟩
    rcases List.mem_cons.mp hr with rfl | hr
    · exact hq
    · rw [← s.pong_listeners q]
      exact hothers r hr

theorem arm_pongs {s : KeepAlive Peer} (h : s.Sound) (hidle : s.awaitingPong = false) {i d : ℕ}
    {q p : Peer} (hq : (i, q) ∈ s.intervals) {ps : List Peer}
    (hp : (d, p) ∈ (ps.foldl KeepAlive.pong (s.arm q)).timeouts) :
    (q, s.handles) = (p, d) ∧ p ∉ ps := by
  obtain ⟨harmed, hsilent⟩ := pongs_timeouts (h.arm hidle hq) hp
  have hnone := (h.idle hidle).2
  change (d, p) ∈ s.timeouts ++ [(s.handles, q)] at harmed
  rw [hnone, List.nil_append, List.mem_singleton] at harmed
  obtain ⟨rfl, rfl⟩ := Prod.mk.inj harmed
  exact ⟨rfl, fun hmem => hsilent p hmem (h.listening i p hq)⟩

/-- A deadline that is pending was pending before, or is of a ping just now; its peer kept
silent. -/
theorem step_timeouts {s : KeepAlive Peer} (h : s.Sound) {e : KeepAliveEvent Peer} {d : ℕ}
    {p : Peer} (hp : (d, p) ∈ (s.step e).timeouts) :
    p ∉ s.pongs e ∧ ((d, p) ∈ s.timeouts ∧ ¬ Restarts e ∨ s.pings e = some (p, d)) := by
  cases e with
  | start q ps =>
    have hgo : (s.watch q).terminated = false ∧ (s.watch q).awaitingPong = false := ⟨rfl, rfl⟩
    change (d, p) ∈ ((s.watch q).tick q ps).timeouts at hp
    unfold tick at hp
    rw [hgo.1, hgo.2, if_neg (by simp)] at hp
    obtain ⟨hpair, hsilent⟩ := arm_pongs (h.watch q) hgo.2 (s.watch_intervals q) hp
    exact ⟨hsilent, Or.inr (congrArg some hpair)⟩
  | stop =>
    change (d, p) ∈ s.stop.timeouts at hp
    rw [h.stop_eq] at hp
    cases hp
  | interval i ps =>
    rw [step_interval] at hp
    cases hq : peerOf i s.intervals with
    | none =>
      rw [hq] at hp
      refine ⟨by simp [pongs, pings, hq], Or.inl ⟨hp, id⟩⟩
    | some q =>
      rw [hq, Option.elim_some] at hp
      unfold tick at hp
      by_cases hbusy : (s.terminated || s.awaitingPong) = true
      · rw [if_pos hbusy] at hp
        refine ⟨by simp [pongs, pings, hq, hbusy], Or.inl ⟨hp, id⟩⟩
      · rw [if_neg hbusy] at hp
        have hidle : s.awaitingPong = false := by
          cases hawait : s.awaitingPong with
          | false => rfl
          | true => simp [hawait] at hbusy
        obtain ⟨hpair, hsilent⟩ := arm_pongs h hidle (mem_of_peerOf hq) hp
        have hpings : s.pings (.interval i ps) = some (q, s.handles) := by
          unfold pings
          simp only [hq, Option.bind_some, if_neg hbusy]
        constructor
        · unfold pongs
          simp only [hpings, Option.isSome_some, if_true]
          exact hsilent
        · exact Or.inr (hpings.trans (congrArg some hpair))
  | pong q =>
    obtain ⟨hold, hq⟩ := pong_timeouts h hp
    obtain ⟨i, hi⟩ := h.watched d p hold
    refine ⟨?_, Or.inl ⟨hold, id⟩⟩
    intro hmem
    rw [List.mem_singleton.mp hmem] at hi
    exact hq (h.listening i q hi)
  | deadline k =>
    cases hq : peerOf k s.timeouts with
    | none =>
      rw [step_deadline_none hq] at hp
      exact ⟨by simp [pongs], Or.inl ⟨hp, id⟩⟩
    | some q =>
      rw [fire_eq h hq] at hp
      cases hp

theorem Misses.concat {es : List (KeepAliveEvent Peer)} {d : ℕ} {p : Peer} (h : Misses es d p)
    {e : KeepAliveEvent Peer} (hrestarts : ¬ Restarts e) (hsilent : p ∉ (run es).pongs e) :
    Misses (es ++ [e]) d p := by
  obtain ⟨es₁, e₁, es₂, rfl, hpings, hfirst, hrest⟩ := h
  refine ⟨es₁, e₁, es₂ ++ [e], by simp, hpings, hfirst, fun es₃ e' es₄ hsplit => ?_⟩
  cases es₄ using List.reverseRecOn with
  | nil =>
    obtain ⟨rfl, hlast⟩ := List.append_inj' hsplit rfl
    obtain rfl := (List.cons.inj hlast).1
    exact ⟨hrestarts, hsilent⟩
  | append_singleton es₄ e₄ =>
    have hinit : es₂ = es₃ ++ e' :: es₄ := by
      have hsame : es₂ ++ [e] = (es₃ ++ e' :: es₄) ++ [e₄] := by simpa using hsplit
      exact (List.append_inj' hsame rfl).1
    exact hrest es₃ e' es₄ hinit

theorem run_timeouts {es : List (KeepAliveEvent Peer)} {d : ℕ} {p : Peer}
    (hp : (d, p) ∈ (run es).timeouts) : Misses es d p := by
  induction es using List.reverseRecOn with
  | nil => cases hp
  | append_singleton es e ih =>
    rw [run_concat] at hp
    obtain ⟨hsilent, ⟨hold, hrestarts⟩ | hpings⟩ := step_timeouts (run_sound es) hp
    · exact (ih hold).concat hrestarts hsilent
    · refine ⟨es, e, [], rfl, hpings, hsilent, fun es₃ e' es₄ hsplit => ?_⟩
      simp at hsplit

/-- A peer is terminated exactly when it is watched and the deadline of a ping to it fires
unanswered; one deadline at most is pending, and none after a stop. -/
theorem kills_iff (es : List (KeepAliveEvent Peer)) :
    (∀ e p, (run es).kills e = some p ↔
      ∃ h, e = .deadline h ∧ (run es).Fires h ∧ (run es).Watches p ∧ Misses es h p) ∧
    (run es).timeouts.length ≤ 1 ∧ (run (es ++ [.stop])).timeouts = [] := by
  have hsound := run_sound es
  refine ⟨fun e p => ⟨fun hkills => ?_, ?_⟩, ?_, ?_⟩
  · cases e with
    | deadline h =>
      obtain ⟨hfires, hwatches⟩ := (peerOf_timeouts hsound).mp hkills
      exact ⟨h, rfl, hfires, hwatches, run_timeouts (mem_of_peerOf hkills)⟩
    | start q ps => cases hkills
    | stop => cases hkills
    | interval i ps => cases hkills
    | pong q => cases hkills
  · rintro ⟨h, rfl, hfires, hwatches, -⟩
    exact (peerOf_timeouts hsound).mpr ⟨hfires, hwatches⟩
  · have hlength := congrArg List.length hsound.timeouts
    rw [List.length_map] at hlength
    rw [hlength]
    cases (run es).deadline with
    | none => simp
    | some d => simp
  · rw [run_concat]
    show (run es).stop.timeouts = []
    rw [hsound.stop_eq]

end KeepAlive

end Dap
