import Mathlib.Tactic

/-! Goroutines over shared state. A program is cut into atomic sections, and before each of its
sections the other goroutines act as a script says; the sections it executes are recorded. -/
namespace Dap

/-- A cut through two lists in a row goes through one of them. -/
theorem append_cut {α : Type*} {l l' A B : List α} {a : α} (h : l ++ l' = A ++ a :: B) :
    (∃ r, A = l ++ r ∧ l' = r ++ a :: B) ∨ ∃ r, l = A ++ a :: r ∧ B = r ++ l' := by
  rcases List.append_eq_append_iff.mp h with ⟨r, hA, hr⟩ | ⟨r, hl, hr⟩
  · exact .inl ⟨r, hA, hr⟩
  · cases r with
    | nil => exact .inl ⟨[], by simpa using hl.symm, hr.symm⟩
    | cons x r =>
      obtain ⟨rfl, rfl⟩ := List.cons.inj hr
      exact .inr ⟨r, hl, rfl⟩

/-- What happens before one section: the effect of the others, and the way a two-way `select`
falls when both of its cases are ready. -/
structure Beat (σ : Type) where
  env : σ → σ
  pick : Bool

/-- A section as it was executed, and the way its `select` could fall. -/
structure Section (σ ℓ : Type) where
  label : ℓ
  pre : σ
  post : σ
  pick : Bool

structure World (σ ℓ : Type) where
  state : σ
  script : List (Beat σ) := []
  trace : List (Section σ ℓ) := []

/-- A program that reads and writes the shared state; `none` when it blocks for ever. -/
def Proc (σ ℓ α : Type) := World σ ℓ → Option (α × World σ ℓ)

namespace Proc

variable {σ ℓ α β : Type}

instance : Monad (Proc σ ℓ) where
  pure a := fun w => some (a, w)
  bind p k := fun w => (p w).bind fun r => k r.1 r.2

theorem bind_assoc {γ : Type} (p : Proc σ ℓ α) (k : α → Proc σ ℓ β) (l : β → Proc σ ℓ γ) :
    p >>= k >>= l = p >>= fun a => k a >>= l := funext fun w => Option.bind_assoc (p w) _ _

theorem pure_bind (a : α) (k : α → Proc σ ℓ β) : Pure.pure a >>= k = k a := rfl

/-- Lets the others act until `f` is enabled. -/
def await (f : Bool → σ → Option β) : List (Beat σ) → σ → Option (σ × Bool × β × List (Beat σ))
  | [], s => (f true s).map fun b => (s, true, b, [])
  | beat :: rest, s =>
    match f beat.pick (beat.env s) with
    | some b => some (beat.env s, beat.pick, b, rest)
    | none => await f rest (beat.env s)

/-- A section that waits until it is enabled. -/
def guarded (label : ℓ) (f : Bool → σ → Option (α × σ)) : Proc σ ℓ α := fun w =>
  (await f w.script w.state).map fun (s, pick, (a, s'), rest) =>
    (a, ⟨s', rest, w.trace ++ [⟨label, s, s', pick⟩]⟩)

def atomically (label : ℓ) (f : σ → α × σ) : Proc σ ℓ α := guarded label fun _ s => some (f s)

/-- A section that only reads. -/
def read (label : ℓ) (f : σ → α) : Proc σ ℓ α := atomically label fun s => (f s, s)

/-- A section that only writes. -/
def modify (label : ℓ) (f : σ → σ) : Proc σ ℓ Unit := atomically label fun s => ((), f s)

/-- Runs with nobody else about. -/
def alone (p : Proc σ ℓ α) (s : σ) : Option (α × World σ ℓ) := p { state := s }

/-! ### Rely and guarantee -/

/-- The others act within `R`. -/
def Relies (R : σ → σ → Prop) (script : List (Beat σ)) : Prop :=
  ∀ beat ∈ script, ∀ s, R s (beat.env s)

/-- What the others cannot falsify. -/
def Stable (R : σ → σ → Prop) (p : σ → Prop) : Prop := ∀ s s', R s s' → p s → p s'

theorem Relies.suffix {R : σ → σ → Prop} {script rest : List (Beat σ)} (h : Relies R script)
    (hs : rest <:+ script) : Relies R rest := fun beat hb => h beat (hs.subset hb)

/-- The others do nothing before `n` sections, and act once before the next. -/
theorem Relies.once {R : σ → σ → Prop} (hrefl : ∀ s, R s s) (n : ℕ) {act : σ → σ}
    (hact : ∀ s, R s (act s)) : Relies R (List.replicate n ⟨id, true⟩ ++ [⟨act, true⟩]) := by
  intro beat hb s
  rcases List.mem_append.mp hb with hb | hb
  · rw [(List.mem_replicate.mp hb).2]
    exact hrefl s
  · rw [List.mem_singleton.mp hb]
    exact hact s

/-- While the others act within `R`, the program leads from `pre` to `post` and each of its sections
satisfies `G`. -/
def Sat (R : σ → σ → Prop) (G : Section σ ℓ → Prop) (pre : σ → Prop) (p : Proc σ ℓ α)
    (post : α → σ → Prop) : Prop :=
  ∀ w a w', p w = some (a, w') → Relies R w.script → pre w.state →
    post a w'.state ∧ w'.script <:+ w.script ∧ ∃ t, w'.trace = w.trace ++ t ∧ ∀ e ∈ t, G e

variable {R : σ → σ → Prop} {G : Section σ ℓ → Prop} {pre : σ → Prop}

theorem await_spec {f : Bool → σ → Option β} {script : List (Beat σ)} {s s' : σ} {pick : Bool}
    {b : β} {rest : List (Beat σ)} (h : await f script s = some (s', pick, b, rest)) (hpre : pre s)
    (hstable : Stable R pre) (hrely : Relies R script) :
    pre s' ∧ f pick s' = some b ∧ rest <:+ script := by
  induction script generalizing s with
  | nil =>
    simp only [await, Option.map_eq_some_iff, Prod.mk.injEq] at h
    obtain ⟨b', hb, rfl, rfl, rfl, rfl⟩ := h
    exact ⟨hpre, hb, List.suffix_refl _⟩
  | cons beat script ih =>
    have hpre' : pre (beat.env s) := hstable s _ (hrely beat (by simp) s) hpre
    simp only [await] at h
    split at h
    next b' hb =>
      obtain ⟨rfl, rfl, rfl, rfl⟩ :
          beat.env s = s' ∧ beat.pick = pick ∧ b' = b ∧ script = rest := by
        simpa using h
      exact ⟨hpre', hb, List.suffix_cons _ _⟩
    next =>
      obtain ⟨h1, h2, h3⟩ := ih h hpre' (hrely.suffix (List.suffix_cons _ _))
      exact ⟨h1, h2, h3.trans (List.suffix_cons _ _)⟩

/-- What is said of the sections a program has executed so far, and of the state. -/
abbrev Assertion (σ ℓ : Type) := List (Section σ ℓ) → σ → Prop

/-- `Sat` with assertions and a guarantee that may speak of the sections executed before. -/
def Triple (R : σ → σ → Prop) (G : List (Section σ ℓ) → Section σ ℓ → Prop)
    (pre : Assertion σ ℓ) (p : Proc σ ℓ α) (post : α → Assertion σ ℓ) : Prop :=
  ∀ w a w', p w = some (a, w') → Relies R w.script → pre w.trace w.state →
    post a w'.trace w'.state ∧ w'.script <:+ w.script ∧
      ∃ t, w'.trace = w.trace ++ t ∧ ∀ t1 e t2, t = t1 ++ e :: t2 → G (w.trace ++ t1) e

namespace Triple

variable {G : List (Section σ ℓ) → Section σ ℓ → Prop} {pre : Assertion σ ℓ} {p : Proc σ ℓ α}
  {post : α → Assertion σ ℓ}

theorem pure {a : α} (h : ∀ past s, pre past s → post a past s) :
    Triple R G pre (Pure.pure a : Proc σ ℓ α) post := by
  intro w a' w' hrun _ hpre
  obtain ⟨rfl, rfl⟩ : a = a' ∧ w = w' := by simpa [Pure.pure] using hrun
  exact ⟨h _ _ hpre, List.suffix_refl _, [], by simp⟩

theorem bind {k : α → Proc σ ℓ β} {M : α → Assertion σ ℓ} {post : β → Assertion σ ℓ}
    (hp : Triple R G pre p M) (hk : ∀ a, Triple R G (M a) (k a) post) :
    Triple R G pre (p >>= k) post := by
  intro w b w' hrun hrely hpre
  change (p w).bind _ = _ at hrun
  obtain ⟨⟨a, w1⟩, h1, h2⟩ := Option.bind_eq_some_iff.mp hrun
  obtain ⟨hmid, hs1, u1, hu1, hG1⟩ := hp w a w1 h1 hrely hpre
  obtain ⟨hpost, hs2, u2, hu2, hG2⟩ := hk a w1 b w' h2 (hrely.suffix hs1) hmid
  refine ⟨hpost, hs2.trans hs1, u1 ++ u2, by rw [hu2, hu1, List.append_assoc], ?_⟩
  intro t1 e t2 ht
  rcases append_cut ht with ⟨r, rfl, hr⟩ | ⟨r, hr, -⟩
  · rw [← List.append_assoc, ← hu1]
    exact hG2 r e t2 hr
  · exact hG1 t1 e r hr

theorem guarded {label : ℓ} {f : Bool → σ → Option (α × σ)} (hstable : ∀ past, Stable R (pre past))
    (h : ∀ past pick s a s', pre past s → f pick s = some (a, s') →
      G past ⟨label, s, s', pick⟩ ∧ post a (past ++ [⟨label, s, s', pick⟩]) s') :
    Triple R G pre (guarded label f) post := by
  intro w a w' hrun hrely hpre
  simp only [Proc.guarded, Option.map_eq_some_iff] at hrun
  obtain ⟨⟨s, pick, ⟨a', s'⟩, rest⟩, hawait, heq⟩ := hrun
  obtain ⟨rfl, rfl⟩ : a' = a ∧ _ = w' := by simpa using heq
  obtain ⟨hs, hf, hrest⟩ := await_spec hawait hpre (hstable _) hrely
  obtain ⟨hG, hpost⟩ := h w.trace pick s a' s' hs hf
  refine ⟨hpost, hrest, [_], rfl, ?_⟩
  intro t1 e t2 ht
  obtain ⟨rfl, rfl, -⟩ : t1 = [] ∧ e = _ ∧ t2 = [] := by
    cases t1 with
    | nil => simpa [eq_comm] using ht
    | cons x t1 => simp at ht
  rw [List.append_nil]
  exact hG

theorem atomically {label : ℓ} {f : σ → α × σ} (hstable : ∀ past, Stable R (pre past))
    (h : ∀ past s pick, pre past s → G past ⟨label, s, (f s).2, pick⟩ ∧
      post (f s).1 (past ++ [⟨label, s, (f s).2, pick⟩]) (f s).2) :
    Triple R G pre (atomically label f) post := by
  apply guarded hstable
  intro past pick s a s' hpre hf
  have hfs := h past s pick hpre
  rw [Option.some.inj hf] at hfs
  exact hfs

theorem read {label : ℓ} {f : σ → α} (hstable : ∀ past, Stable R (pre past))
    (h : ∀ past s pick, pre past s →
      G past ⟨label, s, s, pick⟩ ∧ post (f s) (past ++ [⟨label, s, s, pick⟩]) s) :
    Triple R G pre (read label f) post :=
  atomically hstable h

theorem modify {label : ℓ} {f : σ → σ} {post : Assertion σ ℓ}
    (hstable : ∀ past, Stable R (pre past))
    (h : ∀ past s pick, pre past s →
      G past ⟨label, s, f s, pick⟩ ∧ post (past ++ [⟨label, s, f s, pick⟩]) (f s)) :
    Triple R G pre (modify label f) fun _ => post :=
  atomically hstable h

theorem mono {pre' : Assertion σ ℓ} {post' : α → Assertion σ ℓ} (h : Triple R G pre p post)
    (hpre : ∀ past s, pre' past s → pre past s)
    (hpost : ∀ a past s, post a past s → post' a past s) : Triple R G pre' p post' := by
  intro w a w' hrun hrely hw
  obtain ⟨h1, h2⟩ := h w a w' hrun hrely (hpre _ _ hw)
  exact ⟨hpost _ _ _ h1, h2⟩

theorem mono_guarantee {G' : List (Section σ ℓ) → Section σ ℓ → Prop} (h : Triple R G pre p post)
    (hG : ∀ past e, G past e → G' past e) : Triple R G' pre p post := by
  intro w a w' hrun hrely hw
  obtain ⟨h1, h2, t, ht, hGt⟩ := h w a w' hrun hrely hw
  exact ⟨h1, h2, t, ht, fun t1 e t2 he => hG _ e (hGt t1 e t2 he)⟩

theorem and {G' : List (Section σ ℓ) → Section σ ℓ → Prop} {pre' : Assertion σ ℓ}
    {post' : α → Assertion σ ℓ} (h : Triple R G pre p post) (h' : Triple R G' pre' p post') :
    Triple R (fun past e => G past e ∧ G' past e) (fun past s => pre past s ∧ pre' past s) p
      fun a past s => post a past s ∧ post' a past s := by
  intro w a w' hrun hrely hw
  obtain ⟨h1, hs, t, ht, hG⟩ := h w a w' hrun hrely hw.1
  obtain ⟨h1', -, t', ht', hG'⟩ := h' w a w' hrun hrely hw.2
  obtain rfl : t = t' := List.append_cancel_left (ht.symm.trans ht')
  exact ⟨⟨h1, h1'⟩, hs, t, ht, fun t1 e t2 he => ⟨hG t1 e t2 he, hG' t1 e t2 he⟩⟩

theorem assume {φ : Prop} (h : φ → Triple R G pre p post) :
    Triple R G (fun past s => φ ∧ pre past s) p post := by
  intro w a w' hrun hrely hw
  exact h hw.1 w a w' hrun hrely hw.2

theorem choose {ι : Type} {M : ι → Assertion σ ℓ} (h : ∀ i, Triple R G (M i) p post) :
    Triple R G (fun past s => ∃ i, M i past s) p post := by
  rintro w a w' hrun hrely ⟨i, hw⟩
  exact h i w a w' hrun hrely hw

/-- A loop over a list, with an invariant. -/
theorem forM {xs : List α} {body : α → Proc σ ℓ PUnit}
    (h : ∀ x ∈ xs, Triple R G pre (body x) fun _ => pre) :
    Triple R G pre (xs.forM body) fun _ => pre := by
  induction xs with
  | nil => exact pure fun _ _ hs => hs
  | cons x xs ih =>
    exact bind (h x (by simp)) fun _ => ih fun y hy => h y (List.mem_cons_of_mem _ hy)

end Triple

theorem sat_iff {G : Section σ ℓ → Prop} {p : Proc σ ℓ α} {post : α → σ → Prop} :
    Sat R G pre p post ↔
      Triple R (fun _ => G) (fun _ => pre) p (fun a _ => post a) := by
  constructor
  · intro h w a w' hrun hrely hw
    obtain ⟨h1, h2, t, ht, hG⟩ := h w a w' hrun hrely hw
    refine ⟨h1, h2, t, ht, ?_⟩
    rintro t1 e t2 rfl
    exact hG e (by simp)
  · intro h w a w' hrun hrely hw
    obtain ⟨h1, h2, t, ht, hG⟩ := h w a w' hrun hrely hw
    refine ⟨h1, h2, t, ht, fun e he => ?_⟩
    obtain ⟨t1, t2, heq⟩ := List.append_of_mem he
    exact hG t1 e t2 heq

namespace Sat

variable {p : Proc σ ℓ α} {post : α → σ → Prop}

theorem pure {a : α} (h : ∀ s, pre s → post a s) :
    Sat R G pre (Pure.pure a : Proc σ ℓ α) post :=
  sat_iff.mpr (.pure fun _ => h)

theorem bind {k : α → Proc σ ℓ β} {M : α → σ → Prop} {post : β → σ → Prop}
    (hp : Sat R G pre p M) (hk : ∀ a, Sat R G (M a) (k a) post) :
    Sat R G pre (p >>= k) post :=
  sat_iff.mpr (.bind (sat_iff.mp hp) fun a => sat_iff.mp (hk a))

theorem guarded {label : ℓ} {f : Bool → σ → Option (α × σ)} (hstable : Stable R pre)
    (h : ∀ pick s a s', pre s → f pick s = some (a, s') →
      G ⟨label, s, s', pick⟩ ∧ post a s') :
    Sat R G pre (guarded label f) post :=
  sat_iff.mpr (.guarded (fun _ => hstable) fun _ => h)

theorem atomically {label : ℓ} {f : σ → α × σ} (hstable : Stable R pre)
    (h : ∀ s pick, pre s → G ⟨label, s, (f s).2, pick⟩ ∧ post (f s).1 (f s).2) :
    Sat R G pre (atomically label f) post :=
  sat_iff.mpr (.atomically (fun _ => hstable) fun _ => h)

theorem read {label : ℓ} {f : σ → α} (hstable : Stable R pre)
    (h : ∀ s pick, pre s → G ⟨label, s, s, pick⟩ ∧ post (f s) s) :
    Sat R G pre (read label f) post :=
  atomically hstable h

theorem modify {label : ℓ} {f : σ → σ} {post : σ → Prop} (hstable : Stable R pre)
    (h : ∀ s pick, pre s → G ⟨label, s, f s, pick⟩ ∧ post (f s)) :
    Sat R G pre (modify label f) fun _ => post :=
  atomically hstable h

theorem mono {pre' : σ → Prop} {post' : α → σ → Prop} (h : Sat R G pre p post)
    (hpre : ∀ s, pre' s → pre s) (hpost : ∀ a s, post a s → post' a s) :
    Sat R G pre' p post' :=
  sat_iff.mpr ((sat_iff.mp h).mono (fun _ => hpre) fun a _ => hpost a)

theorem mono_guarantee {G' : Section σ ℓ → Prop} (h : Sat R G pre p post)
    (hG : ∀ e, G e → G' e) : Sat R G' pre p post :=
  sat_iff.mpr ((sat_iff.mp h).mono_guarantee fun _ => hG)

theorem assume {φ : Prop} (h : φ → Sat R G pre p post) : Sat R G (fun s => φ ∧ pre s) p post := by
  intro w a w' hrun hrely hw
  exact h hw.1 w a w' hrun hrely hw.2

theorem choose {ι : Type} {M : ι → σ → Prop} (h : ∀ i, Sat R G (M i) p post) :
    Sat R G (fun s => ∃ i, M i s) p post := by
  rintro w a w' hrun hrely ⟨i, hw⟩
  exact h i w a w' hrun hrely hw

/-- A loop over a list, with an invariant. -/
theorem forM {xs : List α} {body : α → Proc σ ℓ PUnit}
    (h : ∀ x ∈ xs, Sat R G pre (body x) fun _ => pre) :
    Sat R G pre (xs.forM body) fun _ => pre :=
  sat_iff.mpr (.forM fun x hx => sat_iff.mp (h x hx))

end Sat

/-- However the others act, every section of the program satisfies `G`; what these sections and the
others preserve is therefore kept. -/
def Emits (G : Section σ ℓ → Prop) (p : Proc σ ℓ α) : Prop :=
  ∀ (R : σ → σ → Prop) (I : Assertion σ ℓ), (∀ past, Stable R (I past)) →
    (∀ past e, G e → I past e.pre → I (past ++ [e]) e.post) →
    Triple R (fun _ => G) I p fun _ => I

namespace Emits

variable {G : Section σ ℓ → Prop} {p : Proc σ ℓ α}

theorem pure (a : α) : Emits G (Pure.pure a : Proc σ ℓ α) :=
  fun _ _ _ _ => Triple.pure fun _ _ hs => hs

theorem bind {k : α → Proc σ ℓ β} (hp : Emits G p) (hk : ∀ a, Emits G (k a)) :
    Emits G (p >>= k) := fun R I hR hI => Triple.bind (hp R I hR hI) fun a => hk a R I hR hI

theorem forM {xs : List α} {body : α → Proc σ ℓ PUnit} (h : ∀ x ∈ xs, Emits G (body x)) :
    Emits G (xs.forM body) := fun R I hR hI => Triple.forM fun x hx => h x hx R I hR hI

theorem guarded {label : ℓ} {f : Bool → σ → Option (α × σ)}
    (h : ∀ pick s a s', f pick s = some (a, s') → G ⟨label, s, s', pick⟩) :
    Emits G (guarded label f) := by
  intro R I hR hI
  refine Triple.guarded hR fun past pick s a s' hs hf => ?_
  have hG := h pick s a s' hf
  exact ⟨hG, hI past _ hG hs⟩

theorem atomically {label : ℓ} {f : σ → α × σ} (h : ∀ s pick, G ⟨label, s, (f s).2, pick⟩) :
    Emits G (atomically label f) := by
  apply guarded
  intro pick s a s' hf
  obtain rfl : (f s).2 = s' := congrArg Prod.snd (Option.some.inj hf)
  exact h s pick

theorem modify {label : ℓ} {f : σ → σ} (h : ∀ s pick, G ⟨label, s, f s, pick⟩) :
    Emits G (modify label f) := atomically h

theorem read {label : ℓ} {f : σ → α} (h : ∀ s pick, G ⟨label, s, s, pick⟩) :
    Emits G (read label f) := atomically h

/-- What follows a section runs on a value that the section can return. -/
theorem bind_atomically {label : ℓ} {f : σ → α × σ} {k : α → Proc σ ℓ β}
    (h : ∀ s pick, G ⟨label, s, (f s).2, pick⟩) (hk : ∀ s, Emits G (k (f s).1)) :
    Emits G (Proc.atomically label f >>= k) := by
  intro R I hR hI
  refine Triple.bind (M := fun a past s => (∃ s', a = (f s').1) ∧ I past s)
    (Triple.atomically hR ?_) fun a => ?_
  · exact fun past s pick hs => ⟨h s pick, ⟨s, rfl⟩, hI past _ (h s pick) hs⟩
  · refine Triple.assume fun ⟨s, hs⟩ => ?_
    rw [hs]
    exact hk s R I hR hI

theorem mono {G' : Section σ ℓ → Prop} (hp : Emits G p) (hG : ∀ e, G e → G' e) : Emits G' p :=
  fun R I hR hI => (hp R I hR fun past e he => hI past e (hG e he)).mono_guarantee fun _ => hG

/-- Every section of a run, whoever else acts. -/
theorem of_run (hp : Emits G p) {w w' : World σ ℓ} {a : α} (hrun : p w = some (a, w')) :
    ∃ t, w'.trace = w.trace ++ t ∧ ∀ e ∈ t, G e := by
  have htriple := hp (fun _ _ => True) (fun _ _ => True) (fun _ _ _ _ _ => trivial)
    fun _ _ _ _ => trivial
  obtain ⟨-, -, t, ht, hG⟩ := htriple w a w' hrun (fun _ _ _ => trivial) trivial
  refine ⟨t, ht, fun e he => ?_⟩
  obtain ⟨t1, t2, heq⟩ := List.append_of_mem he
  exact hG t1 e t2 heq

end Emits

/-! ### Programs guided by the past -/

/-- What stays true of the sections as they grow. -/
def Lasting (Q : List (Section σ ℓ) → Prop) : Prop := ∀ past e, Q past → Q (past ++ [e])

theorem Lasting.append {Q : List (Section σ ℓ) → Prop} (h : Lasting Q)
    {past : List (Section σ ℓ)} (hq : Q past) (t : List (Section σ ℓ)) : Q (past ++ t) := by
  induction t generalizing past with
  | nil => rwa [List.append_nil]
  | cons e t ih =>
    have hcons := ih (h past e hq)
    rwa [List.append_assoc, List.singleton_append] at hcons

theorem lasting_mem (e : Section σ ℓ) : Lasting fun past => e ∈ past :=
  fun _ _ he => List.mem_append_left _ he

/-- Each section is one that `G` admits after those before it. -/
def Obeys (G : List (Section σ ℓ) → Section σ ℓ → Prop) (past : List (Section σ ℓ)) : Prop :=
  ∀ t1 e t2, past = t1 ++ e :: t2 → G t1 e

theorem Obeys.initial {G : List (Section σ ℓ) → Section σ ℓ → Prop} {past t : List (Section σ ℓ)}
    (h : Obeys G past) (ht : t <+: past) : Obeys G t := by
  obtain ⟨u, rfl⟩ := ht
  rintro t1 e t2 rfl
  exact h t1 e (t2 ++ u) (by simp)

/-- After sections of which `Q` holds, however the others act, each section of the program is one
that `G` admits after those before it. -/
def Guided (G : List (Section σ ℓ) → Section σ ℓ → Prop) (Q : List (Section σ ℓ) → Prop)
    (p : Proc σ ℓ α) : Prop :=
  Triple (fun _ _ => True) G (fun past _ => Q past) p fun _ _ _ => True

namespace Guided

variable {G : List (Section σ ℓ) → Section σ ℓ → Prop} {Q : List (Section σ ℓ) → Prop}
  {p : Proc σ ℓ α}

theorem mono {T : List (Section σ ℓ) → Prop} (h : Guided G Q p) (hQ : ∀ past, T past → Q past) :
    Guided G T p := Triple.mono h (fun past _ ht => hQ past ht) fun _ _ _ h => h

theorem pure (a : α) : Guided G Q (Pure.pure a : Proc σ ℓ α) := Triple.pure fun _ _ _ => trivial

theorem triple_of_emits {E : Section σ ℓ → Prop} (hp : Emits E p) (hQ : Lasting Q)
    (hE : ∀ past e, Q past → E e → G past e) :
    Triple (fun _ _ => True) G (fun past _ => Q past) p fun _ past _ => Q past := by
  intro w a w' hrun hrely hq
  obtain ⟨-, hs, t, ht, hG⟩ := hp (fun _ _ => True) (fun _ _ => True) (fun _ _ _ _ _ => trivial)
    (fun _ _ _ _ => trivial) w a w' hrun hrely trivial
  refine ⟨?_, hs, t, ht, fun t1 e t2 he => hE _ e (hQ.append hq t1) (hG t1 e t2 he)⟩
  change Q w'.trace
  rw [ht]
  exact hQ.append hq t

theorem of_emits {E : Section σ ℓ → Prop} (hp : Emits E p) (hQ : Lasting Q)
    (hE : ∀ past e, Q past → E e → G past e) : Guided G Q p :=
  (triple_of_emits hp hQ hE).mono (fun _ _ h => h) fun _ _ _ _ => trivial

theorem bind {k : α → Proc σ ℓ β} (hp : Guided G Q p) (hk : ∀ a, Guided G (fun _ => True) (k a)) :
    Guided G Q (p >>= k) := Triple.bind hp hk

theorem bind_emits {E : Section σ ℓ → Prop} {k : α → Proc σ ℓ β} (hp : Emits E p)
    (hQ : Lasting Q) (hE : ∀ past e, Q past → E e → G past e) (hk : ∀ a, Guided G Q (k a)) :
    Guided G Q (p >>= k) := Triple.bind (triple_of_emits hp hQ hE) hk

theorem bind_guarded {label : ℓ} {f : Bool → σ → Option (α × σ)} {k : α → Proc σ ℓ β}
    {R : Section σ ℓ → List (Section σ ℓ) → Prop}
    (hl : ∀ past pick s a s', Q past → f pick s = some (a, s') → G past ⟨label, s, s', pick⟩)
    (hQ : ∀ past e, Q past → R e (past ++ [e]))
    (hk : ∀ pick s a s', f pick s = some (a, s') → Guided G (R ⟨label, s, s', pick⟩) (k a)) :
    Guided G Q (guarded label f >>= k) := by
  refine Triple.bind (M := fun a past _ => ∃ pick s s', f pick s = some (a, s') ∧
    R ⟨label, s, s', pick⟩ past) (Triple.guarded (fun past _ _ _ (h : Q past) => h) ?_) fun a => ?_
  · intro past pick s a s' hq hf
    exact ⟨hl past pick s a s' hq hf, pick, s, s', hf, hQ past _ hq⟩
  · refine Triple.choose fun pick => Triple.choose fun s => Triple.choose fun s' => ?_
    exact Triple.assume fun hf => hk pick s a s' hf

theorem bind_atomically {label : ℓ} {f : σ → α × σ} {k : α → Proc σ ℓ β}
    {R : Section σ ℓ → List (Section σ ℓ) → Prop}
    (hl : ∀ past s pick, Q past → G past ⟨label, s, (f s).2, pick⟩)
    (hQ : ∀ past e, Q past → R e (past ++ [e]))
    (hk : ∀ s pick, Guided G (R ⟨label, s, (f s).2, pick⟩) (k (f s).1)) :
    Guided G Q (Proc.atomically label f >>= k) := by
  refine bind_guarded (fun past pick s a s' hq hf => ?_) hQ fun pick s a s' hf => ?_
  · obtain rfl := congrArg Prod.snd (Option.some.inj hf)
    exact hl past s pick hq
  · have heq := Option.some.inj hf
    obtain rfl := congrArg Prod.snd heq
    obtain rfl := congrArg Prod.fst heq
    exact hk s pick

/-- All that a run from the start records. -/
theorem obeys (hp : Guided G Q p) (hQ : Q []) :
    Triple (fun _ _ => True) (fun _ _ => True) (fun past (_ : σ) => past = []) p
      fun _ past _ => Obeys G past := by
  intro w a w' hrun hrely hw
  obtain ⟨-, hs, t, ht, hG⟩ := hp w a w' hrun hrely (show Q w.trace by rwa [hw])
  refine ⟨fun t1 e t2 he => ?_, hs, t, ht, fun _ _ _ _ => trivial⟩
  rw [hw, List.nil_append] at ht
  have hsection := hG t1 e t2 (ht.symm.trans he)
  rwa [hw, List.nil_append] at hsection

end Guided

/-! ### What a run records -/

/-- However the others act, a run that returns `a` records sections that satisfy `Q a`. -/
def Records (p : Proc σ ℓ α) (Q : α → List (Section σ ℓ) → Prop) : Prop :=
  ∀ w a w', p w = some (a, w') → ∃ t, w'.trace = w.trace ++ t ∧ Q a t

namespace Records

variable {p : Proc σ ℓ α} {Q : α → List (Section σ ℓ) → Prop}

theorem pure {a : α} (h : Q a []) : Records (Pure.pure a : Proc σ ℓ α) Q := by
  intro w a' w' hrun
  obtain ⟨rfl, rfl⟩ : a = a' ∧ w = w' := by simpa [Pure.pure] using hrun
  exact ⟨[], by simp, h⟩

theorem bind {k : α → Proc σ ℓ β} {T : β → List (Section σ ℓ) → Prop} (hp : Records p Q)
    (hk : ∀ a t, Q a t → Records (k a) fun b t' => T b (t ++ t')) : Records (p >>= k) T := by
  intro w b w' hrun
  change (p w).bind _ = _ at hrun
  obtain ⟨⟨a, w1⟩, h1, h2⟩ := Option.bind_eq_some_iff.mp hrun
  obtain ⟨t1, ht1, hQ1⟩ := hp w a w1 h1
  obtain ⟨t2, ht2, hQ2⟩ := hk a t1 hQ1 w1 b w' h2
  exact ⟨t1 ++ t2, by rw [ht2, ht1, List.append_assoc], hQ2⟩

theorem guarded {label : ℓ} {f : Bool → σ → Option (α × σ)}
    (h : ∀ pick s a s', f pick s = some (a, s') → Q a [⟨label, s, s', pick⟩]) :
    Records (guarded label f) Q := by
  intro w a w' hrun
  simp only [Proc.guarded, Option.map_eq_some_iff] at hrun
  obtain ⟨⟨s, pick, ⟨a', s'⟩, rest⟩, hawait, heq⟩ := hrun
  obtain ⟨rfl, rfl⟩ : a' = a ∧ _ = w' := by simpa using heq
  have hstable : Stable (fun _ _ : σ => True) fun _ : σ => True := fun _ _ _ _ => trivial
  have hf := (await_spec hawait (by trivial) hstable fun _ _ _ => trivial).2.1
  exact ⟨[_], rfl, h pick s a' s' hf⟩

theorem atomically {label : ℓ} {f : σ → α × σ}
    (h : ∀ s pick, Q (f s).1 [⟨label, s, (f s).2, pick⟩]) : Records (atomically label f) Q := by
  apply guarded
  intro pick s a s' hf
  have hfs := h s pick
  rw [Option.some.inj hf] at hfs
  exact hfs

theorem read {label : ℓ} {f : σ → α} (h : ∀ s pick, Q (f s) [⟨label, s, s, pick⟩]) :
    Records (read label f) Q := atomically h

theorem modify {label : ℓ} {f : σ → σ} {Q : List (Section σ ℓ) → Prop}
    (h : ∀ s pick, Q [⟨label, s, f s, pick⟩]) : Records (modify label f) fun _ => Q := atomically h

theorem mono {T : α → List (Section σ ℓ) → Prop} (h : Records p Q) (hQ : ∀ a t, Q a t → T a t) :
    Records p T := by
  intro w a w' hrun
  obtain ⟨t, ht, hq⟩ := h w a w' hrun
  exact ⟨t, ht, hQ a t hq⟩

theorem and {T : α → List (Section σ ℓ) → Prop} (h : Records p Q) (h' : Records p T) :
    Records p fun a t => Q a t ∧ T a t := by
  intro w a w' hrun
  obtain ⟨t, ht, hq⟩ := h w a w' hrun
  obtain ⟨t', ht', hq'⟩ := h' w a w' hrun
  obtain rfl : t = t' := List.append_cancel_left (ht.symm.trans ht')
  exact ⟨t, ht, hq, hq'⟩

theorem of_emits {G : Section σ ℓ → Prop} (hp : Emits G p) :
    Records p fun _ t => ∀ e ∈ t, G e := fun _ _ _ hrun => hp.of_run hrun

end Records

end Proc

end Dap
