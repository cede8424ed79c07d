import Dap.Lib.Parallel

/-! Two runs side by side. Two programs keep in step when their sections correspond one by one, for
as long as corresponding sections start in corresponding states and their `select`s fall alike. -/
namespace Dap

namespace Proc

variable {σ ℓ α β : Type}

/-- A program that never forgets a section. -/
class Extends (p : Proc σ ℓ α) : Prop where
  trace : ∀ {w a v}, p w = some (a, v) → w.trace <+: v.trace

namespace Extends

instance pure (a : α) : Extends (Pure.pure a : Proc σ ℓ α) where
  trace := by
    intro w b v hrun
    obtain ⟨-, rfl⟩ : a = b ∧ w = v := by simpa [Pure.pure] using hrun
    exact List.prefix_rfl

instance bind (p : Proc σ ℓ α) (k : α → Proc σ ℓ β) [hp : Extends p] [hk : ∀ a, Extends (k a)] :
    Extends (p >>= k) where
  trace := by
    intro w b v hrun
    change (p w).bind _ = _ at hrun
    obtain ⟨⟨a, w1⟩, h1, h2⟩ := Option.bind_eq_some_iff.mp hrun
    exact (hp.trace h1).trans ((hk a).trace h2)

theorem of_bind {p : Proc σ ℓ α} {k : α → Proc σ ℓ β} (hp : Extends p)
    (hk : ∀ a, Extends (k a)) : Extends (p >>= k) := bind p k

instance guarded (label : ℓ) (f : Bool → σ → Option (α × σ)) : Extends (guarded label f) where
  trace := by
    intro w a v hrun
    simp only [Proc.guarded, Option.map_eq_some_iff] at hrun
    obtain ⟨⟨s, pick, ⟨a', s'⟩, rest⟩, -, heq⟩ := hrun
    obtain ⟨-, rfl⟩ := Prod.mk.inj heq
    exact List.prefix_append _ _

instance atomically (label : ℓ) (f : σ → α × σ) : Extends (atomically label f) := guarded label _

instance read (label : ℓ) (f : σ → α) : Extends (read label f) := atomically label _

instance modify (label : ℓ) (f : σ → σ) : Extends (modify label f) := atomically label _

instance ite (c : Prop) [Decidable c] (p q : Proc σ ℓ α) [hp : Extends p] [hq : Extends q] :
    Extends (if c then p else q) := by
  split
  · exact hp
  · exact hq

instance forM (xs : List α) (body : α → Proc σ ℓ PUnit) [hb : ∀ x, Extends (body x)] :
    Extends (xs.forM body) := by
  induction xs with
  | nil => exact pure _
  | cons x xs ih => exact bind (body x) fun _ => xs.forM body

end Extends

end Proc

open Proc

/-- What two runs are compared by: the states before a section, the states after it, and the
labels. -/
structure Comparison (σ σ' ℓ ℓ' : Type) where
  before : σ → σ' → Prop
  after : σ → σ' → Prop
  label : ℓ → ℓ' → Prop

namespace Comparison

variable {σ σ' ℓ ℓ' α β γ δ : Type} (K : Comparison σ σ' ℓ ℓ')

/-- The sections of two runs, one by one; once a pair of them starts differently, anything may
follow. -/
def InStep (done : Prop) : List (Section σ ℓ) → List (Section σ' ℓ') → Prop
  | [], [] => done
  | e :: t, e' :: t' => K.label e.label e'.label ∧
      (K.before e.pre e'.pre → e.pick = e'.pick → K.after e.post e'.post ∧ InStep done t t')
  | _, _ => False

/-- Any two runs, whoever else acts in them, keep in step; if they do so to their ends, the results
satisfy `Q`. -/
def Agree (p : Proc σ ℓ α) (p' : Proc σ' ℓ' β) (Q : α → β → Prop) : Prop :=
  ∀ w a v w' b v', p w = some (a, v) → p' w' = some (b, v') →
    ∃ t t', v.trace = w.trace ++ t ∧ v'.trace = w'.trace ++ t' ∧ K.InStep (Q a b) t t'

variable {K}

theorem InStep.append {D D' : Prop} {t1 t2 : List (Section σ ℓ)} {t1' t2' : List (Section σ' ℓ')}
    (h : K.InStep D t1 t1') (h' : D → K.InStep D' t2 t2') :
    K.InStep D' (t1 ++ t2) (t1' ++ t2') := by
  induction t1 generalizing t1' with
  | nil =>
    cases t1' with
    | nil => exact h' h
    | cons e' t1' => exact h.elim
  | cons e t1 ih =>
    cases t1' with
    | nil => exact h.elim
    | cons e' t1' =>
      refine ⟨h.1, fun hb hpick => ?_⟩
      obtain ⟨hafter, hrest⟩ := h.2 hb hpick
      exact ⟨hafter, ih hrest⟩

theorem InStep.mono {D D' : Prop} {t : List (Section σ ℓ)} {t' : List (Section σ' ℓ')}
    (h : K.InStep D t t') (hD : D → D') : K.InStep D' t t' := by
  have happ : K.InStep D' (t ++ []) (t' ++ []) := h.append hD
  simpa only [List.append_nil] using happ

namespace Agree

variable {p : Proc σ ℓ α} {p' : Proc σ' ℓ' β} {M : α → β → Prop}

theorem pure {a : α} {b : β} (h : M a b) :
    K.Agree (Pure.pure a : Proc σ ℓ α) (Pure.pure b : Proc σ' ℓ' β) M := by
  intro w a' v w' b' v' hrun hrun'
  obtain ⟨rfl, rfl⟩ : a = a' ∧ w = v := by simpa [Pure.pure] using hrun
  obtain ⟨rfl, rfl⟩ : b = b' ∧ w' = v' := by simpa [Pure.pure] using hrun'
  exact ⟨[], [], by simp, by simp, h⟩

theorem bind_of {k : α → Proc σ ℓ γ} {k' : β → Proc σ' ℓ' δ} {Q : γ → δ → Prop}
    (hx : ∀ a, Extends (k a)) (hx' : ∀ b, Extends (k' b)) (hp : K.Agree p p' M)
    (hk : ∀ a b, M a b → K.Agree (k a) (k' b) Q) : K.Agree (p >>= k) (p' >>= k') Q := by
  intro w c v w' d v' hrun hrun'
  change (p w).bind _ = _ at hrun
  change (p' w').bind _ = _ at hrun'
  obtain ⟨⟨a, w1⟩, h1, h2⟩ := Option.bind_eq_some_iff.mp hrun
  obtain ⟨⟨b, w1'⟩, h1', h2'⟩ := Option.bind_eq_some_iff.mp hrun'
  obtain ⟨t1, t1', ht1, ht1', hstep⟩ := hp w a w1 w' b w1' h1 h1'
  have hrest : ∃ t2 t2', v.trace = w1.trace ++ t2 ∧ v'.trace = w1'.trace ++ t2' ∧
      (M a b → K.InStep (Q c d) t2 t2') := by
    by_cases hM : M a b
    · obtain ⟨t2, t2', ht2, ht2', hstep2⟩ := hk a b hM w1 c v w1' d v' h2 h2'
      exact ⟨t2, t2', ht2, ht2', fun _ => hstep2⟩
    · obtain ⟨t2, ht2⟩ := (hx a).trace h2
      obtain ⟨t2', ht2'⟩ := (hx' b).trace h2'
      exact ⟨t2, t2', ht2.symm, ht2'.symm, fun h => absurd h hM⟩
  obtain ⟨t2, t2', ht2, ht2', hstep2⟩ := hrest
  refine ⟨t1 ++ t2, t1' ++ t2', ?_, ?_, hstep.append hstep2⟩
  · rw [ht2, ht1, List.append_assoc]
  · rw [ht2', ht1', List.append_assoc]

theorem bind {k : α → Proc σ ℓ γ} {k' : β → Proc σ' ℓ' δ} {Q : γ → δ → Prop}
    [hx : ∀ a, Extends (k a)] [hx' : ∀ b, Extends (k' b)] (hp : K.Agree p p' M)
    (hk : ∀ a b, M a b → K.Agree (k a) (k' b) Q) : K.Agree (p >>= k) (p' >>= k') Q :=
  bind_of hx hx' hp hk

/-- What follows does not depend on the results. -/
theorem seq {k : α → Proc σ ℓ γ} {k' : β → Proc σ' ℓ' δ} {Q : γ → δ → Prop}
    (hp : K.Agree p p' fun _ _ => True) (hk : ∀ a b, K.Agree (k a) (k' b) Q) :
    K.Agree (p >>= k) (p' >>= k') Q := by
  intro w c v w' d v' hrun hrun'
  change (p w).bind _ = _ at hrun
  change (p' w').bind _ = _ at hrun'
  obtain ⟨⟨a, w1⟩, h1, h2⟩ := Option.bind_eq_some_iff.mp hrun
  obtain ⟨⟨b, w1'⟩, h1', h2'⟩ := Option.bind_eq_some_iff.mp hrun'
  obtain ⟨t1, t1', ht1, ht1', hstep1⟩ := hp w a w1 w' b w1' h1 h1'
  obtain ⟨t2, t2', ht2, ht2', hstep2⟩ := hk a b w1 c v w1' d v' h2 h2'
  refine ⟨t1 ++ t2, t1' ++ t2', ?_, ?_, hstep1.append fun _ => hstep2⟩
  · rw [ht2, ht1, List.append_assoc]
  · rw [ht2', ht1', List.append_assoc]

theorem guarded {label : ℓ} {label' : ℓ'} {f : Bool → σ → Option (α × σ)}
    {f' : Bool → σ' → Option (β × σ')} (hl : K.label label label')
    (h : ∀ pick s a u s' b u', K.before s s' → f pick s = some (a, u) →
      f' pick s' = some (b, u') → K.after u u' ∧ M a b) :
    K.Agree (guarded label f) (guarded label' f') M := by
  intro w a v w' b v' hrun hrun'
  have hone : Records (Proc.guarded label f) fun a t =>
      ∃ e, t = [e] ∧ e.label = label ∧ f e.pick e.pre = some (a, e.post) :=
    Records.guarded fun _ _ _ _ hf => ⟨_, rfl, rfl, hf⟩
  have hone' : Records (Proc.guarded label' f') fun b t =>
      ∃ e, t = [e] ∧ e.label = label' ∧ f' e.pick e.pre = some (b, e.post) :=
    Records.guarded fun _ _ _ _ hf => ⟨_, rfl, rfl, hf⟩
  obtain ⟨t, ht, e, rfl, hf⟩ := hone w a v hrun
  obtain ⟨t', ht', e', rfl, hf'⟩ := hone' w' b v' hrun'
  refine ⟨[e], [e'], ht, ht', ?_, fun hb hpick => ?_⟩
  · rwa [hf.1, hf'.1]
  · rw [← hpick] at hf'
    exact h _ _ _ _ _ _ _ hb hf.2 hf'.2

theorem atomically {label : ℓ} {label' : ℓ'} {f : σ → α × σ} {f' : σ' → β × σ'}
    (hl : K.label label label')
    (h : ∀ s s', K.before s s' → K.after (f s).2 (f' s').2 ∧ M (f s).1 (f' s').1) :
    K.Agree (atomically label f) (atomically label' f') M := by
  refine guarded hl fun pick s a u s' b u' hb hf hf' => ?_
  have hs := h s s' hb
  rwa [Option.some.inj hf, Option.some.inj hf'] at hs

theorem modify {label : ℓ} {label' : ℓ'} {f : σ → σ} {f' : σ' → σ'} (hl : K.label label label')
    (h : ∀ s s', K.before s s' → K.after (f s) (f' s')) :
    K.Agree (modify label f) (modify label' f') fun _ _ => True :=
  atomically hl fun s s' hb => ⟨h s s' hb, trivial⟩

theorem mono {Q : α → β → Prop} (h : K.Agree p p' M) (hQ : ∀ a b, M a b → Q a b) :
    K.Agree p p' Q := by
  intro w a v w' b v' hrun hrun'
  obtain ⟨t, t', ht, ht', hstep⟩ := h w a v w' b v' hrun hrun'
  exact ⟨t, t', ht, ht', hstep.mono (hQ a b)⟩

/-- Loops over corresponding lists. -/
theorem forM {R : γ → δ → Prop} {xs : List γ} {xs' : List δ} {body : γ → Proc σ ℓ PUnit}
    {body' : δ → Proc σ' ℓ' PUnit} (hxs : List.Forall₂ R xs xs')
    (h : ∀ x x', R x x' → K.Agree (body x) (body' x') fun _ _ => True) :
    K.Agree (xs.forM body) (xs'.forM body') fun _ _ => True := by
  induction hxs with
  | nil => exact pure trivial
  | cons hx _ ih => exact seq (h _ _ hx) fun _ _ => ih

end Agree

end Comparison

/-! ### Whole histories -/

section Histories

variable {ι σ σ' ℓ ℓ' : Type} [DecidableEq ι]

/-- Corresponding sections: states, labels and ways of the `select` correspond. -/
structure Alike (R : σ → σ' → Prop) (L : ℓ → ℓ' → Prop) (e : Section σ ℓ) (e' : Section σ' ℓ') :
    Prop where
  label : L e.label e'.label
  pre : R e.pre e'.pre
  post : R e.post e'.post
  pick : e.pick = e'.pick

variable {R : σ → σ' → Prop} {L : ℓ → ℓ' → Prop} {B : ι → σ → σ' → Prop} {s v : σ} {s' v' : σ'}
  {H : History ι σ ℓ} {H' : History ι σ' ℓ'}

theorem own_length (hturns : List.Forall₂ (fun m m' => m.1 = m'.1) H H') (i : ι) :
    (H.own i).length = (H'.own i).length := by
  induction hturns with
  | nil => rfl
  | @cons m m' H H' hm _ ih =>
    obtain ⟨who, e⟩ := m
    obtain ⟨who', e'⟩ := m'
    obtain rfl : who = who' := hm
    by_cases hi : who = some i
    · subst hi
      rw [History.own_cons_self, History.own_cons_self, List.length_cons, List.length_cons, ih]
    · rw [History.own_cons_of_ne hi, History.own_cons_of_ne hi, ih]

/-- If the parties take their turns in the same order, each of them keeps in step with its
counterpart, and whoever is no party does alike in both histories, then the histories correspond
section by section. -/
theorem alike_of_inStep (hl : Linked s H v) (hl' : Linked s' H' v') (hs : R s s')
    (hturns : List.Forall₂ (fun m m' => m.1 = m'.1 ∧ m.2.pick = m'.2.pick) H H')
    (hbefore : ∀ i e, (some i, e) ∈ H → ∀ s', R e.pre s' → B i e.pre s')
    (hothers : List.Forall₂ (fun m m' => m.1 = none → R m.2.pre m'.2.pre →
      L m.2.label m'.2.label ∧ R m.2.post m'.2.post) H H')
    (hparty : ∀ i, ∃ u u' done, H.own i <+: u ∧ H'.own i <+: u' ∧
      (Comparison.mk (B i) R L).InStep done u u') :
    List.Forall₂ (fun m m' => m.1 = m'.1 ∧ Alike R L m.2 m'.2) H H' ∧ R v v' := by
  induction hturns generalizing s s' with
  | nil =>
    obtain rfl := hl.of_nil
    obtain rfl := hl'.of_nil
    exact ⟨.nil, hs⟩
  | @cons m m' H H' hm hrest ih =>
    obtain ⟨who, e⟩ := m
    obtain ⟨who', e'⟩ := m'
    obtain ⟨rfl, hpick⟩ : who = who' ∧ e.pick = e'.pick := hm
    obtain ⟨rfl, hlrest⟩ := hl.of_cons
    obtain ⟨rfl, hlrest'⟩ := hl'.of_cons
    obtain ⟨hother, hothers⟩ := List.forall₂_cons.mp hothers
    have hmoved : L e.label e'.label ∧ R e.post e'.post ∧ ∀ i, ∃ u u' done,
        History.own H i <+: u ∧ History.own H' i <+: u' ∧
          (Comparison.mk (B i) R L).InStep done u u' := by
      cases who with
      | none =>
        obtain ⟨hlabel, hpost⟩ := hother rfl hs
        refine ⟨hlabel, hpost, fun i => ?_⟩
        have hi := hparty i
        rwa [History.own_cons_of_ne (by simp), History.own_cons_of_ne (by simp)] at hi
      | some j =>
        obtain ⟨u, u', done, hu, hu', hstep⟩ := hparty j
        rw [History.own_cons_self] at hu hu'
        obtain ⟨r, rfl⟩ := hu
        obtain ⟨r', rfl⟩ := hu'
        obtain ⟨hlabel, hgo⟩ := hstep
        obtain ⟨hpost, hstep⟩ := hgo (hbefore j e List.mem_cons_self _ hs) hpick
        refine ⟨hlabel, hpost, fun i => ?_⟩
        by_cases hi : j = i
        · subst hi
          exact ⟨_, _, done, List.prefix_append _ r, List.prefix_append _ r', hstep⟩
        · have hparty := hparty i
          have hne : some j ≠ some i := fun h => hi (Option.some.inj h)
          rwa [History.own_cons_of_ne hne, History.own_cons_of_ne hne] at hparty
    obtain ⟨hlabel, hpost, hparty⟩ := hmoved
    obtain ⟨hall, hend⟩ := ih hlrest hlrest' hpost
      (fun i x hx => hbefore i x (List.mem_cons_of_mem _ hx)) hothers hparty
    exact ⟨.cons ⟨rfl, hlabel, hs, hpost, hpick⟩ hall, hend⟩

end Histories

end Dap
