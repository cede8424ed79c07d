import Dap.Lib.Shorthand

/-! Striking phrases out of a text, one after the other, as the replacements of `Shorthand` do. What
is struck out stays known, so that a name in the text is told from one that was put there. -/
namespace Dap
namespace Shorthand

variable {α : Type} [DecidableEq α] {word : α → Bool} {m : α} {look : List α → Option (List α)}

/-- A phrase and its name. -/
abbrev Entry (α : Type) := List α × List α

/-- A text in which some occurrences of phrases are struck out. -/
inductive Item (α : Type) where
  | unit (c : α)
  | struck (e : Entry α)
  deriving DecidableEq

namespace Item

/-- Where an occurrence is struck out its mark stands in front, its name behind. -/
def opens (word : α → Bool) : Item α → Bool
  | unit c => word c
  | struck _ => false

def closes (word : α → Bool) : Item α → Bool
  | unit c => word c
  | struck _ => true

def write (m : α) : Item α → List α
  | unit c => [c]
  | struck e => m :: e.2

def read : Item α → List α
  | unit c => [c]
  | struck e => e.1

end Item

open Item

def render (m : α) (items : List (Item α)) : List α := items.flatMap (write m)

def source (items : List (Item α)) : List α := items.flatMap read

variable (word) in
def itemBreak : List (Item α) → Bool
  | [] => true
  | i :: _ => !i.opens word

variable (word) in
/-- The phrase stands free here, none of it struck out before. -/
def occurs (e : Entry α) (closed : Bool) (items : List (Item α)) : Bool :=
  !closed && (e.1.map unit).isPrefixOf items && itemBreak word (items.drop e.1.length)

variable (word) in
/-- The occurrences of one phrase are struck out, from the left. -/
def strikeFrom (e : Entry α) : Bool → ℕ → List (Item α) → List (Item α)
  | _, _, [] => []
  | _, skip + 1, i :: items => strikeFrom e (i.closes word) skip items
  | closed, 0, i :: items =>
    if occurs word e closed (i :: items) then
      struck e :: strikeFrom e (i.closes word) (e.1.length - 1) items
    else i :: strikeFrom e (i.closes word) 0 items

variable (word) in
def strike (e : Entry α) (items : List (Item α)) : List (Item α) := strikeFrom word e false 0 items

variable (word) in
/-- The phrase begins with the name of an occurrence that is struck out, and its rest follows. -/
def Straddles (e : Entry α) (items : List (Item α)) : Prop :=
  ∃ pre q rest post, items = pre ++ struck q :: (rest.map unit ++ post) ∧ e.1 = q.2 ++ rest ∧
    itemBreak word post = true

variable (word) in
/-- A name stands by itself behind a mark that the text has. -/
def LiveName (m : α) (look : List α → Option (List α)) (items : List (Item α)) : Prop :=
  ∃ pre name term post, items = pre ++ unit m :: (name.map unit ++ post) ∧ name ≠ [] ∧
    look name = some term ∧ (∀ u ∈ name, word u = true) ∧ itemBreak word post = true

variable (word) in
/-- Striking out one phrase after the other meets no name that the text, or a later phrase, has
too. -/
def Clear (m : α) (look : List α → Option (List α)) : List (Entry α) → List (Item α) → Prop
  | [], items => ¬ LiveName word m look items
  | e :: es, items => ¬ Straddles word e items ∧ Clear m look es (strike word e items)

/-! ### What striking out does -/

theorem occurs_iff {e : Entry α} {closed : Bool} {items : List (Item α)} :
    occurs word e closed items = true ↔
      closed = false ∧ ∃ rest, items = e.1.map unit ++ rest ∧ itemBreak word rest = true := by
  simp only [occurs, Bool.and_eq_true, List.isPrefixOf_iff_prefix, Bool.not_eq_true']
  constructor
  · rintro ⟨⟨hclosed, rest, rfl⟩, hafter⟩
    exact ⟨hclosed, rest, rfl, by simpa using hafter⟩
  · rintro ⟨hclosed, rest, rfl, hafter⟩
    exact ⟨⟨hclosed, List.prefix_append _ _⟩, by simpa using hafter⟩

variable (word) in
/-- The course of `strikeFrom`: an occurrence goes as a whole, anything else stays. -/
inductive Strikes (e : Entry α) : Bool → List (Item α) → List (Item α) → Prop
  | nil (closed : Bool) : Strikes e closed [] []
  | hit {rest out : List (Item α)} (hfree : itemBreak word rest = true)
      (h : Strikes e (!atBreak word e.1.reverse) rest out) :
      Strikes e false (e.1.map unit ++ rest) (struck e :: out)
  | miss {closed : Bool} {i : Item α} {items out : List (Item α)}
      (hno : occurs word e closed (i :: items) = false)
      (h : Strikes e (i.closes word) items out) : Strikes e closed (i :: items) (i :: out)

theorem strikeFrom_skip (e : Entry α) (us before : List α) (items : List (Item α)) :
    strikeFrom word e (!atBreak word before) us.length (us.map unit ++ items) =
      strikeFrom word e (!atBreak word (us.reverse ++ before)) 0 items := by
  induction us generalizing before with
  | nil => rfl
  | cons u us ih =>
    have hu : (unit u).closes word = !atBreak word (u :: before) := by simp [closes, atBreak]
    rw [List.length_cons, List.map_cons, List.cons_append, strikeFrom, hu, ih]
    simp

theorem strikeFrom_strikes {e : Entry α} (he : e.1 ≠ []) (closed : Bool) (items : List (Item α)) :
    Strikes word e closed items (strikeFrom word e closed 0 items) := by
  induction hn : items.length using Nat.strong_induction_on generalizing closed items with
  | _ n ih =>
    cases items with
    | nil => exact Strikes.nil closed
    | cons i items =>
      by_cases hocc : occurs word e closed (i :: items) = true
      · obtain ⟨hclosed, rest, hitems, hfree⟩ := occurs_iff.mp hocc
        obtain ⟨c, cs, hcs⟩ := List.exists_cons_of_ne_nil he
        have hsplit : i = unit c ∧ items = cs.map unit ++ rest := by simpa [hcs] using hitems
        have hlast : atBreak word (cs.reverse ++ [c]) = atBreak word e.1.reverse := by simp [hcs]
        have hc : (unit c).closes word = !atBreak word [c] := by simp [closes, atBreak]
        have hlt : rest.length < n := by
          have hlen := congrArg List.length hitems
          simp [hcs] at hlen hn
          omega
        have hstrike : strikeFrom word e closed 0 (i :: items) =
            struck e :: strikeFrom word e (!atBreak word e.1.reverse) 0 rest := by
          rw [strikeFrom, if_pos hocc, hsplit.1, hsplit.2, hc, hcs, List.length_cons,
            Nat.add_sub_cancel, ← hcs, strikeFrom_skip, hlast]
        rw [hstrike, hitems, hclosed]
        exact Strikes.hit hfree (ih rest.length hlt _ rest rfl)
      · rw [strikeFrom, if_neg hocc]
        exact Strikes.miss (Bool.eq_false_iff.mpr hocc)
          (ih items.length (by simp at hn; omega) _ items rfl)

omit [DecidableEq α] in
@[simp] theorem source_map_unit (us : List α) : source (us.map unit) = us := by
  induction us with
  | nil => rfl
  | cons u us ih => simpa [source, Item.read] using ih

omit [DecidableEq α] in
@[simp] theorem source_append (xs ys : List (Item α)) :
    source (xs ++ ys) = source xs ++ source ys := by
  simp [source]

omit [DecidableEq α] in
@[simp] theorem render_map_unit (us : List α) : render m (us.map unit) = us := by
  induction us with
  | nil => rfl
  | cons u us ih => simpa [render, write] using ih

omit [DecidableEq α] in
@[simp] theorem render_append (xs ys : List (Item α)) :
    render m (xs ++ ys) = render m xs ++ render m ys := by
  simp [render]

/-- What is struck out still reads as it did. -/
theorem Strikes.source {e : Entry α} {closed : Bool} {items out : List (Item α)}
    (h : Strikes word e closed items out) : source out = source items := by
  induction h with
  | nil => rfl
  | hit hfree h ih =>
    rw [source_append, source_map_unit, ← ih]
    rfl
  | miss hno h ih => simpa [Shorthand.source] using ih

omit [DecidableEq α] in
theorem render_struck (q : Entry α) (items : List (Item α)) :
    render m (struck q :: items) = m :: (q.2 ++ render m items) := rfl

omit [DecidableEq α] in
theorem atBreak_render (hword : word m = false) (items : List (Item α)) :
    atBreak word (render m items) = itemBreak word items := by
  cases items with
  | nil => rfl
  | cons i items => cases i <;> simp [render, write, atBreak, itemBreak, opens, hword]

omit [DecidableEq α] in
theorem prefix_of_render {p rest : List α} (hm : m ∉ p) {items : List (Item α)}
    (h : render m items = p ++ rest) :
    ∃ items', items = p.map unit ++ items' ∧ rest = render m items' := by
  induction p generalizing items with
  | nil => exact ⟨items, rfl, h.symm⟩
  | cons c p ih =>
    obtain ⟨hc, hp⟩ : m ≠ c ∧ m ∉ p := by simpa using hm
    cases items with
    | nil => simp [render] at h
    | cons i items =>
      cases i with
      | unit d =>
        obtain ⟨rfl, htail⟩ : d = c ∧ render m items = p ++ rest := by
          simpa [render, write] using h
        obtain ⟨items', rfl, hrest⟩ := ih hp htail
        exact ⟨items', rfl, hrest⟩
      | struck q => exact absurd (List.cons.inj h).1 hc

/-- A phrase matches in the text exactly where it occurs among the items. -/
theorem matchesAt_render (hword : word m = false) {e : Entry α} (hm : m ∉ e.1) (before : List α)
    (items : List (Item α)) :
    matchesAt word e.1 before (render m items) = occurs word e (!atBreak word before) items := by
  rw [Bool.eq_iff_iff, matchesAt_iff, occurs_iff]
  refine and_congr (by simp) ?_
  constructor
  · rintro ⟨rest, htext, hrest⟩
    obtain ⟨items', rfl, rfl⟩ := prefix_of_render hm htext
    exact ⟨items', rfl, by rwa [atBreak_render hword] at hrest⟩
  · rintro ⟨items', rfl, hfree⟩
    exact ⟨render m items', by simp, by rwa [atBreak_render hword]⟩

/-! ### Striking out stands for replacing -/

/-- What a phrase and its name must be for the name to be read whole. -/
structure Valid (word : α → Bool) (m : α) (e : Entry α) : Prop where
  phrase : e.1 ≠ []
  unmarked : m ∉ e.1
  name : e.2 ≠ []
  words : ∀ u ∈ e.2, word u = true

omit [DecidableEq α] in
theorem Straddles.append {e : Entry α} {items : List (Item α)} (h : Straddles word e items)
    (xs : List (Item α)) : Straddles word e (xs ++ items) := by
  obtain ⟨pre, q, rest, post, rfl, he, hpost⟩ := h
  exact ⟨xs ++ pre, q, rest, post, by simp, he, hpost⟩

/-- Inside the name of a struck occurrence nothing matches, unless the phrase straddles it. -/
theorem replaceFrom_struck {rep : List α} (hword : word m = false) {e q : Entry α}
    (hm : m ∉ e.1) (he : e.1 ≠ []) (hq : Valid word m q) {items : List (Item α)}
    (hno : ¬ Straddles word e (struck q :: items)) (before : List α) :
    replaceFrom word e.1 (fun _ _ => rep) before 0 (render m (struck q :: items)) =
      m :: q.2 ++ replaceFrom word e.1 (fun _ _ => rep) (q.2.reverse ++ m :: before) 0
        (render m items) := by
  obtain ⟨n, ns, hname⟩ := List.exists_cons_of_ne_nil hq.name
  have hn : word n = true := hq.words n (by simp [hname])
  have hmark := replaceFrom_append_mark he hm hword rep [] (q.2 ++ render m items) before
  have hfirst : matchesAt word e.1 (m :: before) (q.2 ++ render m items) = false := by
    rw [Bool.eq_false_iff]
    intro h
    obtain ⟨-, rest, htext, hrest⟩ := matchesAt_iff.mp h
    rcases List.append_eq_append_iff.mp htext with ⟨xs, hphrase, hrender⟩ | ⟨xs, hq2, hrender⟩
    · have hxs : m ∉ xs := fun hmem => hm (by simp [hphrase, hmem])
      obtain ⟨post, rfl, rfl⟩ := prefix_of_render hxs hrender
      rw [atBreak_render hword] at hrest
      exact hno ⟨[], q, xs, post, rfl, hphrase, hrest⟩
    · cases xs with
      | nil =>
        have hphrase : e.1 = q.2 ++ [] := by simpa using hq2.symm
        rw [hrender, List.nil_append, atBreak_render hword] at hrest
        exact hno ⟨[], q, [], items, rfl, hphrase, hrest⟩
      | cons x xs =>
        have hx : word x = true := hq.words x (by simp [hq2])
        simp [hrender, atBreak, hx] at hrest
  have hns : ∀ u ∈ ns, word u = true := fun u hu => hq.words u (by simp [hname, hu])
  have hbehind : atBreak word (n :: m :: before) = false := by simp [atBreak, hn]
  calc replaceFrom word e.1 (fun _ _ => rep) before 0 (render m (struck q :: items))
      = m :: replaceFrom word e.1 (fun _ _ => rep) (m :: before) 0 (q.2 ++ render m items) := by
        rw [render_struck]
        simpa [replaceFrom_nil he] using hmark
    _ = m :: n :: replaceFrom word e.1 (fun _ _ => rep) (n :: m :: before) 0
          (ns ++ render m items) := by
        rw [hname, List.cons_append] at hfirst ⊢
        exact congrArg (m :: ·) (replaceFrom_of_not_matchesAt hfirst)
    _ = m :: q.2 ++ replaceFrom word e.1 (fun _ _ => rep) (q.2.reverse ++ m :: before) 0
          (render m items) := by
        rw [replaceFrom_words hns hbehind, hname]
        simp

/-- Without a straddling phrase the text is replaced as the items are struck out. -/
theorem Strikes.render (hword : word m = false) {e : Entry α} (he : e.1 ≠ []) (hm : m ∉ e.1)
    {closed : Bool} {items out : List (Item α)} (h : Strikes word e closed items out)
    (hknown : ∀ q, struck q ∈ items → Valid word m q) (hno : ¬ Straddles word e items)
    (before : List α) (hclosed : closed = !atBreak word before) :
    Shorthand.render m out =
      replaceFrom word e.1 (fun _ _ => m :: e.2) before 0 (Shorthand.render m items) := by
  induction h generalizing before with
  | nil => exact (replaceFrom_nil he before).symm
  | @hit rest out hfree h ih =>
    have hbefore : atBreak word before = true := by simpa using hclosed.symm
    have hmatch : matchesAt word e.1 before (e.1 ++ Shorthand.render m rest) = true :=
      matchesAt_iff.mpr ⟨hbefore, _, rfl, by rwa [atBreak_render hword]⟩
    have hlast : atBreak word (e.1.reverse ++ before) = atBreak word e.1.reverse := by
      cases hrev : e.1.reverse with
      | nil => exact absurd (List.reverse_eq_nil_iff.mp hrev) he
      | cons c cs => rfl
    have hrest := ih (fun q hq => hknown q (List.mem_append_right _ hq))
      (fun hs => hno (hs.append _)) (e.1.reverse ++ before) (by rw [hlast])
    rw [render_append, render_map_unit, replaceFrom_of_matchesAt he hmatch, ← hrest]
    rfl
  | @miss closed i items out hocc h ih =>
    have hknown' : ∀ q, struck q ∈ items → Valid word m q := fun q hq =>
      hknown q (List.mem_cons_of_mem i hq)
    have hno' : ¬ Straddles word e items := fun hs => hno (hs.append [i])
    cases i with
    | unit c =>
      have hmiss : matchesAt word e.1 before (c :: Shorthand.render m items) = false := by
        have hrender := matchesAt_render hword hm before (unit c :: items)
        rw [← hclosed, hocc] at hrender
        exact hrender
      have htail := ih hknown' hno' (c :: before) (by simp [closes, atBreak])
      change c :: Shorthand.render m out = _
      rw [htail]
      exact (replaceFrom_of_not_matchesAt hmiss).symm
    | struck q =>
      have hq := hknown q (by simp)
      have hlast : atBreak word (q.2.reverse ++ m :: before) = false := by
        cases hrev : q.2.reverse with
        | nil => exact absurd (List.reverse_eq_nil_iff.mp hrev) hq.name
        | cons c cs =>
          have hc : c ∈ q.2 := List.mem_reverse.mp (by simp [hrev])
          simp [atBreak, hq.words c hc]
      have htail := ih hknown' hno' (q.2.reverse ++ m :: before) (by simp [closes, hlast])
      rw [replaceFrom_struck hword hm he hq hno before, ← htail]
      rfl

end Shorthand
end Dap
