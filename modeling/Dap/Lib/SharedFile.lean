import Mathlib.Tactic

/-! A file that processes read, modify and rewrite without a lock. The open that truncates it is a
step of its own, so readers and other writers can come in between. -/
namespace Dap

/-- How far a call has come. `torn` when another call had the file open for writing meanwhile. -/
inductive Phase (U V : Type) where
  | idle
  | called (u : U)
  | loaded (u : U) (next : V)
  | writing (u : U) (next : V) (torn : Bool)

namespace Phase

variable {U V : Type}

def isWriting : Phase U V → Bool
  | writing _ _ _ => true
  | _ => false

/-- Not between its read and the end of its write. -/
def Quiet : Phase U V → Prop
  | idle | called _ => True
  | _ => False

def tear : Phase U V → Phase U V
  | writing u next _ => writing u next true
  | ph => ph

/-- The call that is between its read and the end of its write. -/
def middle : Phase U V → Option U
  | idle | called _ => none
  | loaded u _ | writing u _ _ => some u

theorem Quiet.tear {ph : Phase U V} (h : ph.Quiet) : ph.tear = ph := by
  cases ph with
  | idle | called u => rfl
  | loaded u next | writing u next torn => cases h

theorem Quiet.not_writing {ph : Phase U V} (h : ph.Quiet) : ph.isWriting = false := by
  cases ph with
  | idle | called u => rfl
  | loaded u next | writing u next torn => cases h

theorem Quiet.middle {ph : Phase U V} (h : ph.Quiet) : ph.middle = none := by
  cases ph with
  | idle | called u => rfl
  | loaded u next | writing u next torn => cases h

@[simp] theorem middle_tear (ph : Phase U V) : ph.tear.middle = ph.middle := by
  cases ph <;> rfl

end Phase

/-- The content is what parsing gives: `none` for a missing, empty or half-written file. -/
structure SharedFile (ι U V : Type) where
  content : Option V := none
  phase : ι → Phase U V := fun _ => .idle

namespace SharedFile

inductive Event (U : Type) where
  | called (u : U)
  | read (u : U)
  | truncated
  | written (u : U)

variable {ι U V : Type} [DecidableEq ι]

def setPhase (f : SharedFile ι U V) (p : ι) (ph : Phase U V) : SharedFile ι U V :=
  { f with phase := Function.update f.phase p ph }

/-- `modify` gives what a call writes from what it has read. Of two calls that write at once the
later text lands on top of the earlier one, and the file may end up as anything. -/
inductive Step (modify : Option V → U → V) :
    SharedFile ι U V → ι → Event U → SharedFile ι U V → Prop where
  | called {f p} (u : U) (h : f.phase p = .idle) :
      Step modify f p (.called u) (f.setPhase p (.called u))
  | read {f p u} (h : f.phase p = .called u) :
      Step modify f p (.read u) (f.setPhase p (.loaded u (modify f.content u)))
  | truncated {f p u next} (torn : Bool) (h : f.phase p = .loaded u next)
      (ht : torn = true ↔ ∃ q, (f.phase q).isWriting = true) :
      Step modify f p .truncated
        (setPhase { content := none, phase := fun q => (f.phase q).tear } p
          (.writing u next torn))
  | written {f p u next} (h : f.phase p = .writing u next false) :
      Step modify f p (.written u) (setPhase { f with content := some next } p .idle)
  | clashed {f p u next} (h : f.phase p = .writing u next true) (content : Option V) :
      Step modify f p (.written u) (setPhase { f with content } p .idle)

/-- A call reads only when no other one is between its read and the end of its write. -/
def Apart (f : SharedFile ι U V) (p : ι) : Event U → Prop
  | .read _ => ∀ q, q ≠ p → (f.phase q).Quiet
  | _ => True

/-- The file that the finished calls alone would have left is `v`; at most one call is in the
middle, and it started from `v`. -/
inductive Settled (modify : Option V → U → V) (v : Option V) (f : SharedFile ι U V) : Prop where
  | whole (hc : f.content = v) (hq : ∀ q, (f.phase q).Quiet)
  | loaded (p : ι) (u : U) (hc : f.content = v) (hp : f.phase p = .loaded u (modify v u))
      (hq : ∀ q, q ≠ p → (f.phase q).Quiet)
  | writing (p : ι) (u : U) (hp : f.phase p = .writing u (modify v u) false)
      (hq : ∀ q, q ≠ p → (f.phase q).Quiet)

def Idle (f : SharedFile ι U V) : Prop := ∀ p, f.phase p = .idle

variable {modify : Option V → U → V} {f f' : SharedFile ι U V} {p q : ι} {e : Event U}
  {v : Option V} {u : U}

@[simp] theorem setPhase_content (p : ι) (ph : Phase U V) :
    (f.setPhase p ph).content = f.content := rfl

@[simp] theorem setPhase_phase_self (p : ι) (ph : Phase U V) : (f.setPhase p ph).phase p = ph :=
  Function.update_self _ _ _

theorem setPhase_phase_of_ne (ph : Phase U V) (h : q ≠ p) : (f.setPhase p ph).phase q = f.phase q :=
  Function.update_of_ne h _ _

theorem quiet_setPhase {ph : Phase U V} (hq : ∀ q, q ≠ p → (f.phase q).Quiet) (hph : ph.Quiet) :
    ∀ q, ((f.setPhase p ph).phase q).Quiet := by
  intro q
  by_cases h : q = p
  · subst h
    rwa [setPhase_phase_self]
  · rw [setPhase_phase_of_ne ph h]
    exact hq q h

theorem quiet_setPhase_of_ne {r : ι} {ph : Phase U V} (hq : ∀ q, q ≠ r → (f.phase q).Quiet)
    (hph : p ≠ r → ph.Quiet) : ∀ q, q ≠ r → ((f.setPhase p ph).phase q).Quiet := by
  intro q hr
  by_cases h : q = p
  · subst h
    rw [setPhase_phase_self]
    exact hph hr
  · rw [setPhase_phase_of_ne ph h]
    exact hq q hr

omit [DecidableEq ι] in
theorem Settled.idle_content (h : f.Settled modify v) (hi : f.Idle) : f.content = v := by
  cases h with
  | whole hc hq => exact hc
  | loaded p u hc hp hq => exact hc
  | writing p u hp hq =>
    rw [hi p] at hp
    cases hp

/-- The value after an event, when the calls run one after another. -/
def advance (modify : Option V → U → V) (v : Option V) : Event U → Option V
  | .written u => some (modify v u)
  | _ => v

omit [DecidableEq ι] in
/-- A call that is in the middle is the one that `Settled` speaks of. -/
theorem Settled.of_not_quiet (h : f.Settled modify v) (hp : ¬(f.phase p).Quiet) :
    (∀ q, q ≠ p → (f.phase q).Quiet) ∧
      ((f.content = v ∧ ∃ u, f.phase p = .loaded u (modify v u)) ∨
        ∃ u, f.phase p = .writing u (modify v u) false) := by
  cases h with
  | whole hc hq => exact absurd (hq p) hp
  | loaded r u hc hr hq =>
    obtain rfl : p = r := by
      by_contra hne
      exact hp (hq p hne)
    exact ⟨hq, .inl ⟨hc, u, hr⟩⟩
  | writing r u hr hq =>
    obtain rfl : p = r := by
      by_contra hne
      exact hp (hq p hne)
    exact ⟨hq, .inr ⟨u, hr⟩⟩

omit [DecidableEq ι] in
theorem Settled.of_loaded {next : V} (h : f.Settled modify v) (hp : f.phase p = .loaded u next) :
    next = modify v u ∧ ∀ q, q ≠ p → (f.phase q).Quiet := by
  obtain ⟨hq, ⟨-, u', hu⟩ | ⟨u', hu⟩⟩ := h.of_not_quiet (p := p) (by simp [hp, Phase.Quiet])
  · rw [hp] at hu
    cases hu
    exact ⟨rfl, hq⟩
  · rw [hp] at hu
    cases hu

omit [DecidableEq ι] in
theorem Settled.of_writing {next : V} {torn : Bool} (h : f.Settled modify v)
    (hp : f.phase p = .writing u next torn) :
    next = modify v u ∧ torn = false ∧ ∀ q, q ≠ p → (f.phase q).Quiet := by
  obtain ⟨hq, ⟨-, u', hu⟩ | ⟨u', hu⟩⟩ := h.of_not_quiet (p := p) (by simp [hp, Phase.Quiet])
  · rw [hp] at hu
    cases hu
  · rw [hp] at hu
    cases hu
    exact ⟨rfl, rfl, hq⟩

/-- Calls that are kept apart act as if each were one step. -/
theorem Step.settled (hs : Step modify f p e f') (h : f.Settled modify v) (ha : f.Apart p e) :
    f'.Settled modify (advance modify v e) := by
  cases hs with
  | called u hp =>
    cases h with
    | whole hc hq => exact .whole hc (quiet_setPhase (fun q _ => hq q) trivial)
    | loaded r u' hc hr hq =>
      have hne : r ≠ p := by
        rintro rfl
        rw [hp] at hr
        cases hr
      exact .loaded r u' hc ((setPhase_phase_of_ne _ hne).trans hr)
        (quiet_setPhase_of_ne hq fun _ => trivial)
    | writing r u' hr hq =>
      have hne : r ≠ p := by
        rintro rfl
        rw [hp] at hr
        cases hr
      exact .writing r u' ((setPhase_phase_of_ne _ hne).trans hr)
        (quiet_setPhase_of_ne hq fun _ => trivial)
  | @read u hp =>
    have hall : ∀ q, (f.phase q).Quiet := by
      intro q
      by_cases hne : q = p
      · subst hne
        rw [hp]
        trivial
      · exact ha q hne
    have hc : f.content = v := by
      cases h with
      | whole hc _ => exact hc
      | loaded r u' hc _ _ => exact hc
      | writing r u' hr _ =>
        have hquiet := hall r
        rw [hr] at hquiet
        cases hquiet
    have hphase : (f.setPhase p (.loaded u (modify f.content u))).phase p =
        .loaded u (modify v u) := by
      rw [setPhase_phase_self, hc]
    exact .loaded p u hc hphase (quiet_setPhase_of_ne ha fun hne => absurd rfl hne)
  | @truncated u next torn hp ht =>
    obtain ⟨rfl, hq⟩ := h.of_loaded hp
    have htorn : torn = false := by
      rw [Bool.eq_false_iff]
      intro htorn
      obtain ⟨q, hwriting⟩ := ht.mp htorn
      by_cases hne : q = p
      · rw [hne, hp] at hwriting
        cases hwriting
      · rw [(hq q hne).not_writing] at hwriting
        cases hwriting
    subst htorn
    apply Settled.writing p u (setPhase_phase_self _ _)
    apply quiet_setPhase_of_ne _ fun hne => absurd rfl hne
    intro q hne
    change ((f.phase q).tear).Quiet
    rw [(hq q hne).tear]
    exact hq q hne
  | @written u next hp =>
    obtain ⟨rfl, -, hq⟩ := h.of_writing hp
    exact .whole rfl (quiet_setPhase hq trivial)
  | @clashed u next hp content =>
    obtain ⟨-, htorn, -⟩ := h.of_writing hp
    cases htorn

theorem middle_setPhase {Q : U → Prop} {ph : Phase U V}
    (h : ∀ q u, (f.phase q).middle = some u → Q u) (hph : ∀ u, ph.middle = some u → Q u) :
    ∀ q u, ((f.setPhase p ph).phase q).middle = some u → Q u := by
  intro q u hq
  by_cases hne : q = p
  · subst hne
    rw [setPhase_phase_self] at hq
    exact hph u hq
  · rw [setPhase_phase_of_ne ph hne] at hq
    exact h q u hq

/-- What holds of every call that reads holds of the calls in the middle. -/
theorem Step.middle {Q : U → Prop} (hs : Step modify f p e f')
    (h : ∀ q u, (f.phase q).middle = some u → Q u) (he : ∀ u, e = .read u → Q u) :
    ∀ q u, (f'.phase q).middle = some u → Q u := by
  cases hs with
  | called u hp => exact middle_setPhase h fun u hu => by cases hu
  | @read u hp =>
    apply middle_setPhase h
    intro u' hu
    cases hu
    exact he u rfl
  | @truncated u next torn hp ht =>
    apply middle_setPhase
    · intro q u' hq
      change ((f.phase q).tear).middle = some u' at hq
      rw [Phase.middle_tear] at hq
      exact h q u' hq
    · intro u' hu
      cases hu
      exact h p u (by rw [hp]; rfl)
  | written hp => exact middle_setPhase h fun u hu => by cases hu
  | clashed hp content => exact middle_setPhase h fun u hu => by cases hu

theorem Step.written_middle (hs : Step modify f p (.written u) f') :
    (f.phase p).middle = some u := by
  cases hs with
  | written hp | clashed hp content =>
    rw [hp]
    rfl

omit [DecidableEq ι] in
/-- When a write ends, nobody else is in the middle. -/
theorem Settled.middle_eq_none (h : f.Settled modify v) (hp : (f.phase p).middle = some u)
    (hne : q ≠ p) : (f.phase q).middle = none := by
  have hbusy : ¬(f.phase p).Quiet := by
    intro hquiet
    rw [hquiet.middle] at hp
    cases hp
  exact ((h.of_not_quiet hbusy).1 q hne).middle

end SharedFile

end Dap
