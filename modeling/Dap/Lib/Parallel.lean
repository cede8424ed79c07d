import Dap.Lib.Interference

/-! Several goroutines on one time line. A history is the sections in the order in which they were
executed, each with the party that executed it. -/
namespace Dap

/-- `none` stands for whoever is no party. -/
abbrev History (ι σ ℓ : Type) := List (Option ι × Section σ ℓ)

namespace History

variable {ι σ ℓ : Type} [DecidableEq ι]

/-- The sections of one party. -/
def own (H : History ι σ ℓ) (i : ι) : List (Section σ ℓ) :=
  H.filterMap fun m => if m.1 = some i then some m.2 else none

/-- The sections of one party as a history of their own. -/
def of (i : ι) (t : List (Section σ ℓ)) : History ι σ ℓ := t.map fun e => (some i, e)

variable {H H' : History ι σ ℓ} {i j : ι} {e : Section σ ℓ} {t : List (Section σ ℓ)}

@[simp] theorem own_nil (i : ι) : own ([] : History ι σ ℓ) i = [] := rfl

@[simp] theorem own_append (H H' : History ι σ ℓ) (i : ι) :
    own (H ++ H') i = own H i ++ own H' i := List.filterMap_append

@[simp] theorem own_cons_self (e : Section σ ℓ) (H : History ι σ ℓ) :
    own ((some i, e) :: H) i = e :: own H i := by
  simp [own]

theorem own_cons_of_ne {m : Option ι × Section σ ℓ} (h : m.1 ≠ some i) (H : History ι σ ℓ) :
    own (m :: H) i = own H i := by
  simp [own, h]

@[simp] theorem own_of_self (i : ι) (t : List (Section σ ℓ)) : own (of i t) i = t := by
  induction t with
  | nil => rfl
  | cons e t ih =>
    change own ((some i, e) :: of i t) i = e :: t
    rw [own_cons_self, ih]

theorem own_of_of_ne (h : i ≠ j) (t : List (Section σ ℓ)) : own (of i t) j = [] := by
  induction t with
  | nil => rfl
  | cons e t ih =>
    change own ((some i, e) :: of i t) j = []
    rw [own_cons_of_ne (fun heq => h (Option.some.inj heq)), ih]

theorem mem_own : e ∈ own H i ↔ (some i, e) ∈ H := by
  unfold own
  rw [List.mem_filterMap]
  constructor
  · rintro ⟨⟨who, e'⟩, hm, hsome⟩
    dsimp only at hsome
    split at hsome
    next hwho =>
      obtain rfl := Option.some.inj hsome
      rwa [hwho] at hm
    next => simp at hsome
  · intro hm
    exact ⟨(some i, e), hm, by simp⟩

/-- A split of a party's sections comes from a split of the history. -/
theorem split_of_own {t1 t2 : List (Section σ ℓ)} (h : own H i = t1 ++ e :: t2) :
    ∃ H1 H2, H = H1 ++ (some i, e) :: H2 ∧ own H1 i = t1 ∧ own H2 i = t2 := by
  induction H generalizing t1 with
  | nil => simp at h
  | cons m H ih =>
    by_cases hm : m.1 = some i
    · obtain ⟨who, e'⟩ := m
      obtain rfl : who = some i := hm
      rw [own_cons_self] at h
      cases t1 with
      | nil =>
        rw [List.nil_append, List.cons.injEq] at h
        obtain ⟨rfl, rfl⟩ := h
        exact ⟨[], H, rfl, rfl, rfl⟩
      | cons x t1 =>
        rw [List.cons_append, List.cons.injEq] at h
        obtain ⟨rfl, h⟩ := h
        obtain ⟨H1, H2, rfl, h1, h2⟩ := ih h
        exact ⟨(some i, e') :: H1, H2, rfl, by rw [own_cons_self, h1], h2⟩
    · rw [own_cons_of_ne hm] at h
      obtain ⟨H1, H2, rfl, h1, h2⟩ := ih h
      exact ⟨m :: H1, H2, rfl, by rw [own_cons_of_ne hm, h1], h2⟩

omit [DecidableEq ι] in
theorem eq_of_mem_of {k : ι} (h : (some k, e) ∈ of i t) : k = i := by
  obtain ⟨x, -, hx⟩ := List.mem_map.mp h
  exact (Option.some.inj (Prod.mk.inj hx).1).symm

/-- When one party has finished before the other starts, a section of the first has none of the
other's before it, and the other way round. -/
theorem split_of_append {t' : List (Section σ ℓ)} {k : ι} (hij : i ≠ j)
    (h : of i t ++ of j t' = H ++ (some k, e) :: H') :
    (k = i ∧ own H j = []) ∨ (k = j ∧ own H' i = []) := by
  have hlast : ∀ r, of j t' = r ++ (some k, e) :: H' → k = j ∧ own H' i = [] := by
    intro r hr
    refine ⟨eq_of_mem_of (hr ▸ List.mem_append_right _ List.mem_cons_self), ?_⟩
    have hnone := own_of_of_ne hij.symm t'
    rw [hr, own_append, ← List.singleton_append, own_append] at hnone
    exact (List.append_eq_nil_iff.mp (List.append_eq_nil_iff.mp hnone).2).2
  rcases append_cut h with ⟨r, -, hr⟩ | ⟨r, hr, -⟩
  · exact .inr (hlast r hr)
  · refine .inl ⟨eq_of_mem_of (hr ▸ List.mem_append_right _ List.mem_cons_self), ?_⟩
    have hnone := own_of_of_ne hij t
    rw [hr, own_append] at hnone
    exact (List.append_eq_nil_iff.mp hnone).1

end History

/-- Each section of the history starts where the one before it ended. -/
inductive Linked {ι σ ℓ : Type} : σ → History ι σ ℓ → σ → Prop where
  | nil (s) : Linked s [] s
  | cons {who e H s} (h : Linked e.post H s) : Linked e.pre ((who, e) :: H) s

namespace Linked

variable {ι σ ℓ : Type} {s s' s'' : σ} {H H' : History ι σ ℓ}

theorem append (h : Linked s H s') (h' : Linked s' H' s'') : Linked s (H ++ H') s'' := by
  induction h with
  | nil => exact h'
  | cons _ ih => exact .cons (ih h')

theorem concat {e : Section σ ℓ} (h : Linked s H e.pre) (who : Option ι) :
    Linked s (H ++ [(who, e)]) e.post := h.append (.cons (.nil _))

theorem of_append (h : Linked s (H ++ H') s'') : ∃ s', Linked s H s' ∧ Linked s' H' s'' := by
  induction H generalizing s with
  | nil => exact ⟨s, .nil s, h⟩
  | cons m H ih =>
    rw [List.cons_append] at h
    cases h with
    | cons h =>
      obtain ⟨s', h1, h2⟩ := ih h
      exact ⟨s', .cons h1, h2⟩

theorem of_nil (h : Linked s ([] : History ι σ ℓ) s') : s = s' := by
  cases h with
  | nil => rfl

theorem of_cons {who : Option ι} {e : Section σ ℓ} (h : Linked s ((who, e) :: H) s') :
    s = e.pre ∧ Linked e.post H s' := by
  cases h with
  | cons h => exact ⟨rfl, h⟩

/-- What each section preserves holds at the end, and before each section. -/
theorem invariant {I : σ → Prop} (h : Linked s H s') (hs : I s)
    (hstep : ∀ m ∈ H, I m.2.pre → I m.2.post) : I s' ∧ ∀ m ∈ H, I m.2.pre := by
  induction h with
  | nil => exact ⟨hs, fun m hm => by cases hm⟩
  | @cons who e H s' _ ih =>
    obtain ⟨hend, hall⟩ := ih (hstep _ List.mem_cons_self hs)
      fun m hm => hstep m (List.mem_cons_of_mem _ hm)
    refine ⟨hend, fun m hm => ?_⟩
    rcases List.mem_cons.mp hm with rfl | hm
    · exact hs
    · exact hall m hm

end Linked

/-! ### One program within another -/

section Nested

open Proc

variable {σ ℓ α : Type} (time : σ → ℤ) (tick : σ → σ) (n : ℤ) (ok : List (Section σ ℓ) → Bool)
  (q : Proc σ ℓ α)

/-- At time `n` the others run `q`, if it records what `ok` asks for; at any other time nothing but
time passes. -/
def nest (s : σ) : σ :=
  if time s = n then
    match alone q s with
    | some (_, w) => if ok w.trace then tick w.state else s
    | none => s
  else tick s

variable {time tick n ok q} {ι : Type} [DecidableEq ι] {i j : ι} {G G' : Section σ ℓ → Prop}
  {s : σ} {w : World σ ℓ} {a : α}

omit [DecidableEq ι] in
/-- Nobody acts between the sections of a program that runs alone. -/
theorem linked_alone (hq : Emits G q) (hrun : alone q s = some (a, w)) (i : ι) :
    Linked s (History.of i w.trace) w.state ∧ ∀ e ∈ w.trace, G e := by
  have htriple := hq (fun _ _ => False)
    (fun past s' => Linked s (History.of i past) s' ∧ ∀ e ∈ past, G e)
    (fun _ _ _ hR => hR.elim) ?_
  · exact (htriple _ a w hrun (fun _ hb => by cases hb) ⟨.nil s, fun e he => by cases he⟩).1
  · rintro past e he ⟨hlink, hall⟩
    refine ⟨?_, fun x hx => ?_⟩
    · unfold History.of
      rw [List.map_append]
      exact hlink.concat (some i)
    · rcases List.mem_append.mp hx with hx | hx
      · exact hall x hx
      · rwa [List.mem_singleton.mp hx]

/-- `i` has executed `past`; once time is past `n`, `j` has run `q`. -/
structure Nested (time : σ → ℤ) (tick : σ → σ) (n : ℤ) (ok : List (Section σ ℓ) → Bool)
    (q : Proc σ ℓ α) (G G' : Section σ ℓ → Prop) (label : ℓ) (i j : ι) (s : σ)
    (past : List (Section σ ℓ)) (s' : σ) (H : History ι σ ℓ) : Prop where
  linked : Linked s H s'
  own : H.own i = past
  moves : ∀ m ∈ H, (m.1 = some i ∧ G m.2) ∨ (m.1 = some j ∧ G' m.2) ∨
    ∃ s', m = (none, ⟨label, s', tick s', true⟩)
  phase : (time s' ≤ n ∧ H.own j = []) ∨ (n < time s' ∧ ∃ s1 a w1, alone q s1 = some (a, w1) ∧
    ok w1.trace = true ∧ H.own j = w1.trace)

variable {label : ℓ} {past : List (Section σ ℓ)} {s' : σ} {H : History ι σ ℓ}

theorem own_ticked (H : History ι σ ℓ) (e : Section σ ℓ) (k : ι) :
    History.own (H ++ [(none, e)]) k = H.own k := by
  rw [History.own_append, History.own_cons_of_ne (by simp), History.own_nil, List.append_nil]

theorem Nested.ticked (htick : ∀ s, time (tick s) = time s + 1) (hne : time s' ≠ n)
    (h : Nested time tick n ok q G G' label i j s past s' H) :
    Nested time tick n ok q G G' label i j s past (tick s')
      (H ++ [(none, ⟨label, s', tick s', true⟩)]) where
  linked := h.linked.concat (e := ⟨label, s', tick s', true⟩) none
  own := (own_ticked H _ i).trans h.own
  moves := by
    intro m hm
    rcases List.mem_append.mp hm with hm | hm
    · exact h.moves m hm
    · exact .inr (.inr ⟨s', List.mem_singleton.mp hm⟩)
  phase := by
    rw [htick, own_ticked]
    rcases h.phase with ⟨hle, hj⟩ | ⟨hlt, hran⟩
    · exact .inl ⟨by omega, hj⟩
    · exact .inr ⟨by omega, hran⟩

theorem Nested.ran (hij : i ≠ j) (hq : Emits G' q) (htime : ∀ e, G' e → time e.post = time e.pre)
    (htick : ∀ s, time (tick s) = time s + 1) (heq : time s' = n) (hrun : alone q s' = some (a, w))
    (hok : ok w.trace = true) (h : Nested time tick n ok q G G' label i j s past s' H) :
    Nested time tick n ok q G G' label i j s past (tick w.state)
      (H ++ History.of j w.trace ++ [(none, ⟨label, w.state, tick w.state, true⟩)]) := by
  obtain ⟨hlink, hG⟩ := linked_alone hq hrun j
  have hwtime : time w.state = n := by
    refine (hlink.invariant (I := fun s => time s = n) heq fun m hm hpre => ?_).1
    obtain ⟨e, he, rfl⟩ := List.mem_map.mp hm
    exact (htime e (hG e he)).trans hpre
  have hj : H.own j = [] := by
    rcases h.phase with ⟨-, hj⟩ | ⟨hlt, -⟩
    · exact hj
    · omega
  refine ⟨?_, ?_, ?_, .inr ⟨?_, s', a, w, hrun, hok, ?_⟩⟩
  · exact (h.linked.append hlink).concat (e := ⟨label, w.state, tick w.state, true⟩) none
  · rw [own_ticked, History.own_append, History.own_of_of_ne hij.symm, List.append_nil, h.own]
  · intro m hm
    rcases List.mem_append.mp hm with hm | hm
    · rcases List.mem_append.mp hm with hm | hm
      · exact h.moves m hm
      · obtain ⟨e, he, rfl⟩ := List.mem_map.mp hm
        exact .inr (.inl ⟨rfl, hG e he⟩)
    · exact .inr (.inr ⟨w.state, List.mem_singleton.mp hm⟩)
  · rw [htick, hwtime]
    omega
  · rw [own_ticked, History.own_append, History.own_of_self, hj, List.nil_append]

theorem Nested.moved {e : Section σ ℓ} (hij : i ≠ j) (he : G e) (htime : time e.post = time e.pre)
    (h : Nested time tick n ok q G G' label i j s past e.pre H) :
    Nested time tick n ok q G G' label i j s (past ++ [e]) e.post (H ++ [(some i, e)]) := by
  have hj : History.own (H ++ [(some i, e)]) j = H.own j := by
    rw [History.own_append, History.own_cons_of_ne fun heq => hij (Option.some.inj heq),
      History.own_nil, List.append_nil]
  refine ⟨h.linked.concat (some i), ?_, ?_, ?_⟩
  · rw [History.own_append, History.own_cons_self, History.own_nil, h.own]
  · intro m hm
    rcases List.mem_append.mp hm with hm | hm
    · exact h.moves m hm
    · rw [List.mem_singleton.mp hm]
      exact .inl ⟨rfl, he⟩
  · rw [htime, hj]
    exact h.phase

/-- A run of `p` in whose midst the others run `q`, as one history. -/
theorem nested_history {β : Type} {p : Proc σ ℓ β} (hij : i ≠ j) (hp : Emits G p) (hq : Emits G' q)
    (htime : ∀ e, G e ∨ G' e → time e.post = time e.pre) (htick : ∀ s, time (tick s) = time s + 1)
    (label : ℓ) {b : β} {len : ℕ} (hs : time s ≤ n)
    (hrun : p { state := s, script := List.replicate len ⟨nest time tick n ok q, true⟩ } =
      some (b, w)) (hw : n < time w.state) :
    ∃ H : History ι σ ℓ, Linked s H w.state ∧ H.own i = w.trace ∧
      (∃ s' a w', alone q s' = some (a, w') ∧ ok w'.trace = true ∧ H.own j = w'.trace) ∧
      ∀ m ∈ H, (m.1 = some i ∧ G m.2) ∨ (m.1 = some j ∧ G' m.2) ∨
        ∃ s', m = (none, ⟨label, s', tick s', true⟩) := by
  have htriple := hp (fun s s' => s' = nest time tick n ok q s)
    (fun past s' => ∃ H, Nested time tick n ok q G G' label i j s past s' H) ?_ ?_
  · have hrely : Relies (fun s s' => s' = nest time tick n ok q s)
        (List.replicate len ⟨nest time tick n ok q, true⟩) := by
      intro beat hb s'
      rw [List.eq_of_mem_replicate hb]
    have hstart : Nested time tick n ok q G G' label i j s [] s [] :=
      ⟨.nil s, rfl, fun m hm => absurd hm List.not_mem_nil, .inl ⟨hs, rfl⟩⟩
    obtain ⟨H, h⟩ := (htriple _ b w hrun hrely ⟨[], hstart⟩).1
    rcases h.phase with ⟨hle, -⟩ | ⟨-, hran⟩
    · omega
    · exact ⟨H, h.linked, h.own, hran, h.moves⟩
  · rintro past s' _ rfl ⟨H, h⟩
    unfold nest
    split
    next heq =>
      split
      next a w1 hq1 =>
        split
        next hok => exact ⟨_, h.ran hij hq (fun e he => htime e (.inr he)) htick heq hq1 hok⟩
        next => exact ⟨H, h⟩
      next => exact ⟨H, h⟩
    next hne => exact ⟨_, h.ticked htick hne⟩
  · rintro past e he ⟨H, h⟩
    exact ⟨_, h.moved hij he (htime e (.inl he))⟩

end Nested

end Dap
