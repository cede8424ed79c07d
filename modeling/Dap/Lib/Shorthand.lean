import Mathlib.Tactic

/-! Replacing phrases that stand free in a text by marked names, and reading the names back. What a
regular expression with look-arounds does when it replaces globally, over any alphabet. -/
namespace Dap
namespace Shorthand

variable {α : Type} [DecidableEq α] (word : α → Bool)

/-- No word unit comes first. -/
def atBreak : List α → Bool
  | [] => true
  | c :: _ => !word c

/-- `(?<!w)pat(?!w)` matches at the head of `text`; `before` is what precedes it, last unit
first. -/
def matchesAt (pat before text : List α) : Bool :=
  atBreak word before && pat.isPrefixOf text && atBreak word (text.drop pat.length)

/-- A global replacement. `sub` makes the replacement from what precedes and what follows the match,
`skip` counts what is left of the match. -/
def replaceFrom (pat : List α) (sub : List α → List α → List α) :
    List α → ℕ → List α → List α
  | before, 0, [] => if matchesAt word pat before [] then sub before [] else []
  | _, _ + 1, [] => []
  | before, skip + 1, c :: cs => replaceFrom pat sub (c :: before) skip cs
  | before, 0, c :: cs =>
    if matchesAt word pat before (c :: cs) then
      sub before ((c :: cs).drop pat.length) ++
        if pat = [] then c :: replaceFrom pat sub (c :: before) 0 cs
        else replaceFrom pat sub (c :: before) (pat.length - 1) cs
    else c :: replaceFrom pat sub (c :: before) 0 cs

def replaceAll (pat : List α) (sub : List α → List α → List α) (text : List α) : List α :=
  replaceFrom word pat sub [] 0 text

/-- The mark and the longest run of word units behind it become what the run stands for. -/
def expandFrom (m : α) (look : List α → Option (List α)) : ℕ → List α → List α
  | _, [] => []
  | skip + 1, _ :: cs => expandFrom m look skip cs
  | 0, c :: cs =>
    if c = m ∧ cs.takeWhile word ≠ [] then
      (look (cs.takeWhile word)).getD (c :: cs.takeWhile word) ++
        expandFrom m look (cs.takeWhile word).length cs
    else c :: expandFrom m look 0 cs

def expandAll (m : α) (look : List α → Option (List α)) (text : List α) : List α :=
  expandFrom word m look 0 text

/-! ### Matching and replacing -/

variable {word}

theorem matchesAt_iff {pat before text : List α} :
    matchesAt word pat before text = true ↔
      atBreak word before = true ∧ ∃ rest, text = pat ++ rest ∧ atBreak word rest = true := by
  simp only [matchesAt, Bool.and_eq_true, List.isPrefixOf_iff_prefix]
  constructor
  · rintro ⟨⟨hbefore, rest, rfl⟩, hafter⟩
    exact ⟨hbefore, rest, rfl, by simpa using hafter⟩
  · rintro ⟨hbefore, rest, rfl, hafter⟩
    exact ⟨⟨hbefore, List.prefix_append _ _⟩, by simpa using hafter⟩

variable {pat : List α} {sub : List α → List α → List α}

theorem replaceFrom_skip (us : List α) (before text : List α) :
    replaceFrom word pat sub before us.length (us ++ text) =
      replaceFrom word pat sub (us.reverse ++ before) 0 text := by
  induction us generalizing before with
  | nil => rfl
  | cons u us ih =>
    rw [List.length_cons, List.cons_append, replaceFrom, ih]
    simp

theorem replaceFrom_nil (hpat : pat ≠ []) (before : List α) :
    replaceFrom word pat sub before 0 [] = [] := by
  have hno : matchesAt word pat before [] = false := by
    rw [Bool.eq_false_iff]
    intro h
    obtain ⟨-, rest, htext, -⟩ := matchesAt_iff.mp h
    exact hpat (List.append_eq_nil_iff.mp htext.symm).1
  rw [replaceFrom, if_neg (by simp [hno])]

theorem replaceFrom_of_matchesAt (hpat : pat ≠ []) {before rest : List α}
    (h : matchesAt word pat before (pat ++ rest) = true) :
    replaceFrom word pat sub before 0 (pat ++ rest) =
      sub before rest ++ replaceFrom word pat sub (pat.reverse ++ before) 0 rest := by
  cases pat with
  | nil => exact absurd rfl hpat
  | cons p ps =>
    rw [List.cons_append] at h ⊢
    rw [replaceFrom, if_pos h, if_neg (by simp), List.length_cons, Nat.add_sub_cancel,
      replaceFrom_skip]
    simp

theorem replaceFrom_of_not_matchesAt {before cs : List α} {c : α}
    (h : matchesAt word pat before (c :: cs) = false) :
    replaceFrom word pat sub before 0 (c :: cs) =
      c :: replaceFrom word pat sub (c :: before) 0 cs := by
  rw [replaceFrom, if_neg (by simp [h])]

/-- Behind a word unit nothing matches, so a run of them is copied. -/
theorem replaceFrom_words {us before : List α} (hus : ∀ u ∈ us, word u = true)
    (hbefore : atBreak word before = false) (text : List α) :
    replaceFrom word pat sub before 0 (us ++ text) =
      us ++ replaceFrom word pat sub (us.reverse ++ before) 0 text := by
  induction us generalizing before with
  | nil => rfl
  | cons u us ih =>
    have hu : atBreak word (u :: before) = false := by simp [atBreak, hus u (by simp)]
    rw [List.cons_append, replaceFrom_of_not_matchesAt (by simp [matchesAt, hbefore]),
      ih (fun v hv => hus v (List.mem_cons_of_mem u hv)) hu]
    simp

omit [DecidableEq α] in
/-- A prefix without the mark ends before it. -/
theorem prefix_of_append_mark {m : α} (hm : m ∉ pat) {as rest bs : List α}
    (h : as ++ m :: bs = pat ++ rest) : ∃ as', as = pat ++ as' ∧ rest = as' ++ m :: bs := by
  rcases List.append_eq_append_iff.mp h with ⟨xs, hpat, hrest⟩ | ⟨xs, has, hrest⟩
  · cases xs with
    | nil => exact ⟨[], by simpa using hpat.symm, by simpa using hrest.symm⟩
    | cons x xs =>
      obtain ⟨rfl, -⟩ := List.cons.inj hrest
      exact absurd (hpat ▸ by simp) hm
  · exact ⟨xs, has, hrest⟩

/-- A unit that is no word and not in the phrase splits the replacement in two. -/
theorem replaceFrom_append_mark {m : α} (hpat : pat ≠ []) (hm : m ∉ pat) (hword : word m = false)
    (rep as bs before : List α) :
    replaceFrom word pat (fun _ _ => rep) before 0 (as ++ m :: bs) =
      replaceFrom word pat (fun _ _ => rep) before 0 as ++
        m :: replaceFrom word pat (fun _ _ => rep) (m :: (as.reverse ++ before)) 0 bs := by
  induction hn : as.length using Nat.strong_induction_on generalizing as before with
  | _ n ih =>
    cases as with
    | nil =>
      have hno : matchesAt word pat before (m :: bs) = false := by
        rw [Bool.eq_false_iff]
        intro h
        obtain ⟨-, rest, htext, -⟩ := matchesAt_iff.mp h
        have hsplit : [] ++ m :: bs = pat ++ rest := htext
        obtain ⟨as', hnil, -⟩ := prefix_of_append_mark hm hsplit
        exact hpat (List.append_eq_nil_iff.mp hnil.symm).1
      rw [List.nil_append, replaceFrom_of_not_matchesAt hno, replaceFrom_nil hpat]
      rfl
    | cons a as =>
      have hagree : matchesAt word pat before (a :: as ++ m :: bs) =
          matchesAt word pat before (a :: as) := by
        rw [Bool.eq_iff_iff, matchesAt_iff, matchesAt_iff]
        refine and_congr_right fun _ => ?_
        constructor
        · rintro ⟨rest, htext, hrest⟩
          obtain ⟨as', has, rfl⟩ := prefix_of_append_mark hm htext
          refine ⟨as', has, ?_⟩
          cases as' with
          | nil => rfl
          | cons x xs => exact hrest
        · rintro ⟨rest, htext, hrest⟩
          refine ⟨rest ++ m :: bs, by rw [htext, List.append_assoc], ?_⟩
          cases rest with
          | nil => simp [atBreak, hword]
          | cons x xs => exact hrest
      by_cases hmatch : matchesAt word pat before (a :: as) = true
      · obtain ⟨-, rest, htext, -⟩ := matchesAt_iff.mp hmatch
        have hlong : matchesAt word pat before (pat ++ (rest ++ m :: bs)) = true := by
          rw [← List.append_assoc, ← htext, hagree, hmatch]
        have hlt : rest.length < n := by
          have hlen := congrArg List.length htext
          have hpos := List.length_pos_iff.mpr hpat
          rw [List.length_append, hn] at hlen
          omega
        rw [htext, List.append_assoc, replaceFrom_of_matchesAt hpat hlong,
          replaceFrom_of_matchesAt hpat (htext ▸ hmatch), ih _ hlt rest _ rfl]
        simp
      · have hmatch' := Bool.eq_false_iff.mpr hmatch
        have hlong : matchesAt word pat before (a :: (as ++ m :: bs)) = false :=
          hagree.trans hmatch'
        rw [List.cons_append, replaceFrom_of_not_matchesAt hlong,
          replaceFrom_of_not_matchesAt hmatch', ih as.length (by simp at hn; omega) as _ rfl]
        simp

/-! ### Expanding -/

variable {m : α} {look : List α → Option (List α)}

theorem expandFrom_skip (us cs : List α) :
    expandFrom word m look us.length (us ++ cs) = expandFrom word m look 0 cs := by
  induction us with
  | nil => rfl
  | cons u us ih => simpa [expandFrom] using ih

theorem expandFrom_of_ne {c : α} (hc : c ≠ m) (cs : List α) :
    expandFrom word m look 0 (c :: cs) = c :: expandFrom word m look 0 cs := by
  rw [expandFrom, if_neg (by simp [hc])]

theorem expandFrom_words {us : List α} (hus : ∀ u ∈ us, word u = true) (hword : word m = false)
    (cs : List α) :
    expandFrom word m look 0 (us ++ cs) = us ++ expandFrom word m look 0 cs := by
  induction us with
  | nil => rfl
  | cons u us ih =>
    have hne : u ≠ m := by
      rintro rfl
      simpa [hword] using hus u (by simp)
    rw [List.cons_append, expandFrom_of_ne hne, ih fun v hv => hus v (List.mem_cons_of_mem u hv)]
    rfl

omit [DecidableEq α] in
theorem takeWhile_append_of_atBreak {us cs : List α} (hus : ∀ u ∈ us, word u = true)
    (hcs : atBreak word cs = true) : (us ++ cs).takeWhile word = us := by
  induction us with
  | nil =>
    cases cs with
    | nil => rfl
    | cons c cs => rw [List.nil_append, List.takeWhile_cons_of_neg (by simpa [atBreak] using hcs)]
  | cons u us ih =>
    rw [List.cons_append, List.takeWhile_cons_of_pos (hus u (by simp)),
      ih fun v hv => hus v (List.mem_cons_of_mem u hv)]

/-- A marked name is read whole. -/
theorem expandFrom_token {name cs : List α} (hne : name ≠ [])
    (hname : ∀ u ∈ name, word u = true) (hcs : atBreak word cs = true) :
    expandFrom word m look 0 (m :: (name ++ cs)) =
      (look name).getD (m :: name) ++ expandFrom word m look 0 cs := by
  have hrun := takeWhile_append_of_atBreak hname hcs
  rw [expandFrom, if_pos ⟨rfl, by rw [hrun]; exact hne⟩, hrun, expandFrom_skip]

theorem expandFrom_name {name term cs : List α} (hne : name ≠ [])
    (hname : ∀ u ∈ name, word u = true) (hcs : atBreak word cs = true)
    (hlook : look name = some term) :
    expandFrom word m look 0 (m :: (name ++ cs)) = term ++ expandFrom word m look 0 cs := by
  rw [expandFrom_token hne hname hcs, hlook]
  rfl

/-- A mark before no known name is copied. -/
theorem expandFrom_mark (hword : word m = false) {cs : List α}
    (h : cs.takeWhile word = [] ∨ look (cs.takeWhile word) = none) :
    expandFrom word m look 0 (m :: cs) = m :: expandFrom word m look 0 cs := by
  by_cases hempty : cs.takeWhile word = []
  · rw [expandFrom, if_neg (by simp [hempty])]
  · have hnone := h.resolve_left hempty
    have hsplit := List.takeWhile_append_dropWhile (p := word) (l := cs)
    have hall : (cs.takeWhile word).all word = true := List.all_takeWhile
    have hwords : ∀ u ∈ cs.takeWhile word, word u = true := List.all_eq_true.mp hall
    have hskip : expandFrom word m look _ _ = _ :=
      expandFrom_skip (cs.takeWhile word) (cs.dropWhile word)
    have hcopy : expandFrom word m look 0 _ = _ :=
      expandFrom_words hwords hword (cs.dropWhile word)
    rw [hsplit] at hskip hcopy
    rw [expandFrom, if_pos ⟨rfl, hempty⟩, hnone, hskip, hcopy]
    rfl

theorem expandFrom_congr {m : α} {look look' : List α → Option (List α)}
    (h : ∀ name, name ≠ [] → (∀ u ∈ name, word u = true) →
      (look name).getD (m :: name) = (look' name).getD (m :: name)) (skip : ℕ) (text : List α) :
    expandFrom word m look skip text = expandFrom word m look' skip text := by
  induction text generalizing skip with
  | nil => rw [expandFrom, expandFrom]
  | cons c cs ih =>
    cases skip with
    | succ skip => rw [expandFrom, expandFrom, ih]
    | zero =>
      rw [expandFrom, expandFrom]
      by_cases hname : c = m ∧ cs.takeWhile word ≠ []
      · obtain ⟨rfl, hne⟩ := hname
        have hall : (cs.takeWhile word).all word = true := List.all_takeWhile
        have hsame := h _ hne (List.all_eq_true.mp hall)
        rw [if_pos ⟨rfl, hne⟩, if_pos ⟨rfl, hne⟩, hsame, ih]
      · rw [if_neg hname, if_neg hname, ih]

/-- Two readings agree on every text exactly when they agree on every name. -/
theorem expandAll_congr_iff {m : α} {look look' : List α → Option (List α)} :
    (∀ text, expandAll word m look text = expandAll word m look' text) ↔
      ∀ name, name ≠ [] → (∀ u ∈ name, word u = true) →
        (look name).getD (m :: name) = (look' name).getD (m :: name) := by
  constructor
  · intro h name hne hname
    have htake := @takeWhile_append_of_atBreak α word name [] hname rfl
    rw [List.append_nil] at htake
    have hdone : ∀ f, expandFrom word m f name.length name = [] := by
      intro f
      have hskip := @expandFrom_skip α _ word m f name []
      rwa [List.append_nil, expandFrom] at hskip
    have hall := h (m :: name)
    unfold expandAll at hall
    rwa [expandFrom, expandFrom, htake, if_pos ⟨rfl, hne⟩, if_pos ⟨rfl, hne⟩, hdone, hdone,
      List.append_nil, List.append_nil] at hall
  · intro h text
    exact expandFrom_congr h 0 text

end Shorthand
end Dap
