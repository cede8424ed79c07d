import Dap.Adapter.Glossary
import Dap.Lib.ReadBack

/-! When a compacted message expands to the text it was made from. -/
namespace Dap
open Gloss Conv Shorthand

/-! ### The shape of terms and abbreviations -/

namespace Gloss

theorem mem_splitOnP {α : Type} {p : α → Bool} {xs acc : List α} (hacc : ∀ u ∈ acc, p u = false) :
    ∀ w ∈ List.splitOnPPrepend p xs acc, ∀ u ∈ w, p u = false := by
  induction xs generalizing acc with
  | nil =>
    intro w hw u hu
    rw [List.splitOnPPrepend_nil, List.mem_singleton] at hw
    exact hacc u (List.mem_reverse.mp (hw ▸ hu))
  | cons x xs ih =>
    cases hx : p x with
    | true =>
      rw [List.splitOnPPrepend_cons_pos hx]
      intro w hw u hu
      rcases List.mem_cons.mp hw with rfl | hmem
      · exact hacc u (List.mem_reverse.mp hu)
      · have hnil : ∀ u ∈ ([] : List α), p u = false := by simp
        exact ih hnil w hmem u hu
    | false =>
      rw [List.splitOnPPrepend_cons_neg hx]
      exact ih fun u hu => by
        rcases List.mem_cons.mp hu with rfl | hmem
        · exact hx
        · exact hacc u hmem

/-- A term is words of letters with single spaces between them. -/
def IsTerm (term : JsString) : Prop :=
  ∃ ws : List JsString, ws ≠ [] ∧ term = [space].intercalate ws ∧
    ∀ w ∈ ws, w ≠ [] ∧ ∀ u ∈ w, letter u = true

theorem words_letters {text w : JsString} (h : w ∈ words text) :
    w ≠ [] ∧ ∀ u ∈ w, letter u = true := by
  obtain ⟨hmem, hlen⟩ := List.mem_filter.mp h
  refine ⟨?_, fun u hu => ?_⟩
  · rintro rfl
    simp at hlen
  · have hnil : ∀ u ∈ ([] : JsString), (!letter u) = false := by simp
    have hsplit := mem_splitOnP hnil w hmem u hu
    simpa using hsplit

theorem ngrams_isTerm {text term : JsString} (h : term ∈ ngrams text) : IsTerm term := by
  obtain ⟨n, -, hn⟩ := List.mem_flatMap.mp h
  obtain ⟨i, hi, rfl⟩ := List.mem_map.mp hn
  have hlen := List.mem_range.mp hi
  refine ⟨((words text).drop i).take (n + 1), ?_, rfl, fun w hw => ?_⟩
  · intro hnil
    have hzero := congrArg List.length hnil
    simp at hzero
    omega
  · exact words_letters (List.mem_of_mem_drop (List.mem_of_mem_take hw))

theorem mem_intercalate {α : Type} {sep : List α} {ws : List (List α)} {u : α}
    (h : u ∈ sep.intercalate ws) : u ∈ sep ∨ ∃ w ∈ ws, u ∈ w := by
  induction ws with
  | nil => simp at h
  | cons w ws ih =>
    by_cases hws : ws = []
    · subst hws
      rw [List.intercalate_singleton] at h
      exact Or.inr ⟨w, by simp, h⟩
    · rw [List.intercalate_cons_of_ne_nil hws] at h
      rcases List.mem_append.mp h with hfirst | hrest
      · rcases List.mem_append.mp hfirst with hw | hsep
        · exact Or.inr ⟨w, by simp, hw⟩
        · exact Or.inl hsep
      · exact (ih hrest).imp_right fun ⟨v, hv, hu⟩ => ⟨v, List.mem_cons_of_mem w hv, hu⟩

theorem IsTerm.units {term : JsString} (h : IsTerm term) {u : UInt16} (hu : u ∈ term) :
    u = space ∨ letter u = true := by
  obtain ⟨ws, -, rfl, hws⟩ := h
  rcases mem_intercalate hu with hsep | ⟨w, hw, huw⟩
  · exact Or.inl (List.mem_singleton.mp hsep)
  · exact Or.inr ((hws w hw).2 u huw)

theorem IsTerm.tilde_notMem {term : JsString} (h : IsTerm term) : tilde ∉ term := by
  intro hmem
  rcases h.units hmem with heq | hletter
  · exact absurd heq (by decide)
  · exact absurd hletter (by decide)

theorem IsTerm.splitOn {term : JsString} (h : IsTerm term) :
    List.splitOn space term ≠ [] ∧
      ∀ w ∈ List.splitOn space term, w ≠ [] ∧ ∀ u ∈ w, letter u = true := by
  obtain ⟨ws, hne, rfl, hws⟩ := h
  have hspace : ∀ w ∈ ws, space ∉ w := fun w hw hmem =>
    absurd ((hws w hw).2 space hmem) (by decide)
  rw [List.splitOn_intercalate space hspace hne]
  exact ⟨hne, hws⟩

theorem IsTerm.ne_nil {term : JsString} (h : IsTerm term) : term ≠ [] := by
  rintro rfl
  have hw := (h.splitOn.2 [] (by simp)).1
  exact hw rfl

theorem IsTerm.baseAbbrev {term : JsString} (h : IsTerm term) :
    Gloss.baseAbbrev term ≠ [] ∧ ∀ u ∈ Gloss.baseAbbrev term, letter u = true := by
  obtain ⟨hne, hws⟩ := h.splitOn
  unfold Gloss.baseAbbrev
  split
  next w heq =>
    rw [heq] at hws
    obtain ⟨hw, hletters⟩ := hws w (by simp)
    obtain ⟨c, cs, rfl⟩ := List.exists_cons_of_ne_nil hw
    refine ⟨by simp [maxAbbrev], fun u hu => ?_⟩
    rcases List.mem_append.mp (List.mem_of_mem_take hu) with hfirst | hrest
    · exact hletters u (List.mem_of_mem_take hfirst)
    · exact hletters u (List.mem_of_mem_drop (List.mem_filter.mp hrest).1)
  next hmany =>
    refine ⟨?_, fun u hu => ?_⟩
    · obtain ⟨w, ws, heq⟩ := List.exists_cons_of_ne_nil hne
      have hw := (hws w (by simp [heq])).1
      obtain ⟨c, cs, rfl⟩ := List.exists_cons_of_ne_nil hw
      rw [heq]
      simp [maxAbbrev]
    · obtain ⟨w, hw, huw⟩ := List.mem_flatMap.mp (List.mem_of_mem_take hu)
      exact (hws w hw).2 u (List.mem_of_mem_take huw)

theorem ofString_digits {i : ℕ} {u : UInt16} (h : u ∈ JsString.ofString (toString i)) :
    (0x30 ≤ u && u ≤ 0x39) = true := by
  obtain ⟨c, hc, hu⟩ := List.mem_flatMap.mp h
  have hdigits : (toString i).toList = Nat.toDigits 10 i := by simp [Nat.repr]
  rw [hdigits] at hc
  obtain ⟨hlo, hhi⟩ := Json.isDigit_iff.mp (Json.isDigit_toDigits hc)
  have hsmall : c.toNat < 0x10000 := by omega
  rw [JsString.encodeChar, if_pos hsmall, List.mem_singleton] at hu
  subst hu
  generalize c.toNat = n at hlo hhi
  interval_cases n <;> decide

theorem ofString_digits_word (i : ℕ) : ∀ u ∈ JsString.ofString (toString i), wordUnit u = true := by
  intro u hu
  rw [wordUnit, ofString_digits hu, Bool.or_true]

theorem letter_wordUnit {u : UInt16} (h : letter u = true) : wordUnit u = true := by
  simp [wordUnit, h]

theorem nextFree_word {base : JsString} (hbase : base ≠ [] ∧ ∀ u ∈ base, wordUnit u = true)
    (reserved : List JsString) (fuel i : ℕ) :
    nextFree base reserved fuel i ≠ [] ∧
      ∀ u ∈ nextFree base reserved fuel i, wordUnit u = true := by
  have hsuffixed : ∀ j, suffixed base j ≠ [] ∧ ∀ u ∈ suffixed base j, wordUnit u = true := by
    intro j
    refine ⟨by simp [suffixed, hbase.1], fun u hu => ?_⟩
    rcases List.mem_append.mp hu with hb | hd
    · exact hbase.2 u hb
    · exact ofString_digits_word j u hd
  induction fuel generalizing i with
  | zero => exact hsuffixed i
  | succ fuel ih =>
    rw [nextFree]
    split
    · exact ih (i + 1)
    · exact hsuffixed i

theorem IsTerm.genAbbrev {term : JsString} (h : IsTerm term) (reserved : List JsString) :
    (Gloss.genAbbrev term reserved).1 ≠ [] ∧
      ∀ u ∈ (Gloss.genAbbrev term reserved).1, wordUnit u = true := by
  have hbase : Gloss.baseAbbrev term ≠ [] ∧ ∀ u ∈ Gloss.baseAbbrev term, wordUnit u = true :=
    ⟨h.baseAbbrev.1, fun u hu => letter_wordUnit (h.baseAbbrev.2 u hu)⟩
  change (if Gloss.baseAbbrev term ∈ reserved then
    nextFree (Gloss.baseAbbrev term) reserved reserved.length 2 else Gloss.baseAbbrev term) ≠ [] ∧
      ∀ u ∈ (if Gloss.baseAbbrev term ∈ reserved then
        nextFree (Gloss.baseAbbrev term) reserved reserved.length 2 else Gloss.baseAbbrev term),
          wordUnit u = true
  split
  · exact nextFree_word hbase reserved _ _
  · exact hbase

theorem getSubstitution_of_notMem (matched before after : JsString) {template : JsString}
    (h : (0x24 : UInt16) ∉ template) :
    getSubstitution matched before after template = template := by
  induction template with
  | nil => rfl
  | cons c rest ih =>
    cases rest with
    | nil => rfl
    | cons d rest =>
      obtain ⟨hc, hrest⟩ := not_or.mp (mt List.mem_cons.mpr h)
      have hne : c ≠ 0x24 := Ne.symm hc
      rw [getSubstitution]
      simp only [hne, false_and, if_false]
      rw [ih hrest]

end Gloss

/-! ### Two sides of one conversation -/

def GlossPair.entry (e : GlossPair) : Shorthand.Entry UInt16 := (e.term, e.abbr)

/-- The sender's active terms come from `ngrams`, their abbreviations from `genAbbrev`, and the
receiver reads each abbreviation as the sender means it. -/
structure Shared (sender receiver : Conv) : Prop where
  terms : ∀ e ∈ sender.active, ∃ text, e.term ∈ ngrams text
  abbrs : ∀ e ∈ sender.active, ∃ reserved, e.abbr = (genAbbrev e.term reserved).1
  reverse : ∀ abbr term, receiver.reverse.get abbr = some term ↔
    ∃ e ∈ sender.active, e.term = term ∧ e.abbr = abbr

/-- The text has no active abbreviation behind a tilde, and no term straddles an abbreviation that
takes the place of a longer one: the terms are struck out of the text, longest first. -/
def ClearText (sender receiver : Conv) (text : JsString) : Prop :=
  Clear wordUnit tilde receiver.reverse.get (sender.byLength.map GlossPair.entry)
    (text.map Item.unit)

theorem mem_byLength {c : Conv} {e : GlossPair} : e ∈ c.byLength ↔ e ∈ c.active :=
  List.mem_insertionSort _

namespace Shared

variable {sender receiver : Conv}

theorem valid (h : Shared sender receiver) {e : GlossPair} (he : e ∈ sender.active) :
    Valid wordUnit tilde e.entry := by
  obtain ⟨text, htext⟩ := h.terms e he
  obtain ⟨reserved, habbr⟩ := h.abbrs e he
  have hterm := ngrams_isTerm htext
  have hgen := hterm.genAbbrev reserved
  rw [← habbr] at hgen
  exact ⟨hterm.ne_nil, hterm.tilde_notMem, hgen.1, hgen.2⟩

theorem codes (h : Shared sender receiver) :
    Codes wordUnit tilde receiver.reverse.get (sender.byLength.map GlossPair.entry) where
  mark := by decide
  valid q hq := by
    obtain ⟨e, he, rfl⟩ := List.mem_map.mp hq
    exact h.valid (mem_byLength.mp he)
  look_iff name phrase := by
    rw [h.reverse, List.mem_map]
    constructor
    · rintro ⟨e, he, rfl, rfl⟩
      exact ⟨e, mem_byLength.mpr he, rfl⟩
    · rintro ⟨e, he, heq⟩
      obtain ⟨hterm, habbr⟩ := Prod.mk.inj heq
      exact ⟨e, mem_byLength.mp he, hterm, habbr⟩

theorem compactTerm_eq {e : GlossPair} (hv : Valid wordUnit tilde e.entry) (out : JsString) :
    compactTerm out e = replaceAll wordUnit e.term (fun _ _ => tilde :: e.abbr) out := by
  have hdollar : (0x24 : UInt16) ∉ tilde :: e.abbr := by
    intro hmem
    rcases List.mem_cons.mp hmem with heq | habbr
    · exact absurd heq (by decide)
    · exact absurd (hv.words _ habbr) (by decide)
  unfold compactTerm
  congr 1
  funext before after
  exact getSubstitution_of_notMem _ _ _ hdollar

theorem compact_eq (h : Shared sender receiver) (text : JsString) :
    sender.compact text =
      compactAll wordUnit tilde (sender.byLength.map GlossPair.entry) text := by
  have hvalid : ∀ e ∈ sender.byLength, Valid wordUnit tilde e.entry := fun e he =>
    h.valid (mem_byLength.mp he)
  unfold Conv.compact compactAll
  rw [List.foldl_map]
  generalize sender.byLength = es at hvalid
  induction es generalizing text with
  | nil => rfl
  | cons e es ih =>
    rw [List.foldl_cons, List.foldl_cons, compactTerm_eq (hvalid e (by simp)),
      ih _ fun e' he' => hvalid e' (List.mem_cons_of_mem e he')]
    rfl

end Shared

/-- A message reads as it was said exactly when its text is clear. -/
theorem expand_compact_iff {sender receiver : Conv} (h : Shared sender receiver)
    (text : JsString) :
    receiver.expand (sender.compact text) = text ↔ ClearText sender receiver text := by
  rw [h.compact_eq]
  exact expandAll_compactAll_iff h.codes (fun e he => he) text

/-- No tilde in the text, and no active term whose first word is an active abbreviation. -/
theorem expand_compact_of_plain {sender receiver : Conv} (h : Shared sender receiver)
    {text : JsString} (htext : tilde ∉ text)
    (hterms : ∀ e ∈ sender.active, ∀ q ∈ sender.active, ∀ rest, e.term = q.abbr ++ rest →
      atBreak wordUnit rest = false) :
    receiver.expand (sender.compact text) = text := by
  rw [h.compact_eq]
  refine (expandAll_compactAll_iff h.codes (fun e he => he) text).mpr
    (clear_of_plain h.codes (fun e he => he) ?_ (faithful_map_unit text) (by simpa using htext))
  intro e' he' q' hq'
  obtain ⟨e, he, rfl⟩ := List.mem_map.mp he'
  obtain ⟨q, hq, rfl⟩ := List.mem_map.mp hq'
  exact hterms e (mem_byLength.mp he) q (mem_byLength.mp hq)

def implementationPair : JsString × JsString :=
  (JsString.ofString "implementation", JsString.ofString "impl")

/-- A conversation with one active term. -/
def oneTerm : Conv := ({} : Conv).adopt implementationPair

theorem oneTerm_shared : Shared oneTerm oneTerm where
  terms e he := by
    obtain rfl : e = ⟨implementationPair.1, implementationPair.2, .active⟩ :=
      List.mem_singleton.mp he
    exact ⟨JsString.ofString "implementation", by decide +kernel⟩
  abbrs e he := by
    obtain rfl : e = ⟨implementationPair.1, implementationPair.2, .active⟩ :=
      List.mem_singleton.mp he
    exact ⟨[], by decide +kernel⟩
  reverse abbr term := by
    change (JsMap.set ∅ implementationPair.2 implementationPair.1).get abbr = some term ↔
      ∃ e ∈ [(⟨implementationPair.1, implementationPair.2, .active⟩ : GlossPair)], _
    rw [JsMap.get_set]
    split
    next h => simp [h]
    next h => simp [h]

theorem expand_compact_iff_sample :
    Shared oneTerm oneTerm ∧ (oneTerm.expand (oneTerm.compact (JsString.ofString "~impl")) =
      JsString.ofString "~impl" ↔ ClearText oneTerm oneTerm (JsString.ofString "~impl")) :=
  ⟨oneTerm_shared, expand_compact_iff oneTerm_shared _⟩

/-- A text that looks like a token already. -/
theorem not_expand_compact :
    ¬ ∀ sender receiver : Conv, Shared sender receiver →
      ∀ text, receiver.expand (sender.compact text) = text := by
  intro h
  have htoken := h oneTerm oneTerm oneTerm_shared (JsString.ofString "~impl")
  revert htoken
  decide +kernel

end Dap
