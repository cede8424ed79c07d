import Dap.Lib.JsonText

/-! Whatever the reader accepts can be printed and read again. -/
namespace Dap.Json

/-! ### Numbers -/

theorem span_digits {cs ds r : List Char} (h : cs.span isDigit = (ds, r)) :
    ∀ c ∈ ds, isDigit c = true := by
  rw [List.span_eq_takeWhile_dropWhile] at h
  obtain ⟨rfl, -⟩ := Prod.mk.inj h
  exact fun c hc => List.all_eq_true.mp List.all_takeWhile c hc

theorem scanInt_again {cs i r : List Char} (h : scanInt cs = some (i, r)) :
    (∃ c ds, i = c :: ds ∧ isDigit c = true) ∧
      ∀ rest : List Char, (∀ c ∈ rest.head?, isDigit c = false) →
        scanInt (i ++ rest) = some (i, rest) := by
  cases cs with
  | nil => simp [scanInt] at h
  | cons c cs =>
    rw [scanInt] at h
    split at h
    next =>
      obtain ⟨rfl, -⟩ := Prod.mk.inj (Option.some.inj h)
      exact ⟨⟨'0', [], rfl, by decide⟩, fun rest _ => by simp [scanInt]⟩
    next hzero =>
      split at h
      next hc =>
        have hi := Option.some.inj h
        have hdigits := span_digits hi
        rw [List.span_eq_takeWhile_dropWhile, List.takeWhile_cons_of_pos hc] at hi
        obtain ⟨rfl, -⟩ := Prod.mk.inj hi
        refine ⟨⟨c, _, rfl, hc⟩, fun rest hrest => ?_⟩
        have hspan := span_isDigit hdigits hrest
        rw [List.cons_append] at hspan ⊢
        rw [scanInt, if_neg hzero, if_pos hc, hspan]
      next => simp at h

theorem scanFrac_again {cs f r : List Char} (h : scanFrac cs = some (f, r)) :
    (∀ c ∈ f.head?, c = '.') ∧
      ∀ rest : List Char, (∀ c ∈ rest.head?, isDigit c = false ∧ c ≠ '.') →
        scanFrac (f ++ rest) = some (f, rest) := by
  unfold scanFrac at h
  split at h
  next rest' =>
    split at h
    next => simp at h
    next ds r' hne hspan =>
      obtain ⟨rfl, -⟩ := Prod.mk.inj (Option.some.inj h)
      refine ⟨by simp, fun rest hrest => ?_⟩
      have hagain := span_isDigit (span_digits hspan) fun c hc => (hrest c hc).1
      rw [List.cons_append, scanFrac, hagain]
      cases ds with
      | nil => exact absurd rfl hne
      | cons d ds => rfl
  next =>
    obtain ⟨rfl, -⟩ := Prod.mk.inj (Option.some.inj h)
    refine ⟨by simp, fun rest hrest => ?_⟩
    cases rest with
    | nil => rfl
    | cons c cs =>
      rw [List.nil_append]
      unfold scanFrac
      split
      next heq => exact absurd (List.cons.inj heq).1 (hrest c rfl).2
      next => rfl

theorem scanSign_again {cs ds rest : List Char} (hds : ds ≠ [])
    (hdigits : ∀ c ∈ ds, isDigit c = true) :
    scanSign ((scanSign cs).1 ++ (ds ++ rest)) = ((scanSign cs).1, ds ++ rest) := by
  have hplain : scanSign (ds ++ rest) = ([], ds ++ rest) := by
    cases ds with
    | nil => exact absurd rfl hds
    | cons d ds =>
      have hd := hdigits d (by simp)
      rw [List.cons_append]
      unfold scanSign
      split
      next heq =>
        rw [(List.cons.inj heq).1] at hd
        exact absurd hd (by decide)
      next heq =>
        rw [(List.cons.inj heq).1] at hd
        exact absurd hd (by decide)
      next => rfl
  obtain hs | hs | hs :
      (scanSign cs).1 = ['+'] ∨ (scanSign cs).1 = ['-'] ∨ (scanSign cs).1 = [] := by
    unfold scanSign
    split <;> simp
  · rw [hs]
    rfl
  · rw [hs]
    rfl
  · rw [hs]
    exact hplain

theorem scanExp_again {cs e r : List Char} (h : scanExp cs = some (e, r)) :
    (∀ c ∈ e.head?, c = 'e' ∨ c = 'E') ∧
      ∀ rest : List Char, (∀ c ∈ rest.head?, isDigit c = false ∧ c ≠ 'e' ∧ c ≠ 'E') →
        scanExp (e ++ rest) = some (e, rest) := by
  have hnone : ∀ rest : List Char, (∀ c ∈ rest.head?, isDigit c = false ∧ c ≠ 'e' ∧ c ≠ 'E') →
      scanExp rest = some ([], rest) := by
    intro rest hrest
    cases rest with
    | nil => rfl
    | cons c cs =>
      obtain ⟨-, he, hE⟩ := hrest c rfl
      simp [scanExp, he, hE]
  cases cs with
  | nil =>
    obtain ⟨rfl, -⟩ := Prod.mk.inj (Option.some.inj h)
    exact ⟨by simp, hnone⟩
  | cons c cs =>
    rw [scanExp] at h
    split at h
    next hc =>
      dsimp only at h
      split at h
      next => simp at h
      next ds r' hne hspan =>
        obtain ⟨rfl, -⟩ := Prod.mk.inj (Option.some.inj h)
        refine ⟨by simpa using hc, fun rest hrest => ?_⟩
        have hds : ds ≠ [] := hne
        have hagain := span_isDigit (span_digits hspan) fun c hc => (hrest c hc).1
        rw [List.append_assoc, List.cons_append, scanExp, if_pos hc,
          scanSign_again hds (span_digits hspan)]
        dsimp only
        rw [hagain]
        cases ds with
        | nil => exact absurd rfl hds
        | cons d ds => rfl
    next =>
      obtain ⟨rfl, -⟩ := Prod.mk.inj (Option.some.inj h)
      exact ⟨by simp, hnone⟩

/-- A number that was read is read again, whole, wherever a value may end. -/
theorem numeric_scanNumber {cs l r : List Char} (h : scanNumber cs = some (l, r)) :
    Numeric (String.ofList l) := by
  obtain ⟨sign, cs', l', rfl, hsign, hscan⟩ : ∃ sign cs' l', l = sign ++ l' ∧
      (sign = [] ∨ sign = ['-']) ∧ scanUnsigned cs' = some (l', r) := by
    cases cs with
    | nil => simp [scanNumber, scanInt] at h
    | cons c cs =>
      by_cases hc : c = '-'
      · subst hc
        rw [scanNumber_minus] at h
        obtain ⟨⟨l', r'⟩, hscan, heq⟩ := Option.map_eq_some_iff.mp h
        obtain ⟨rfl, rfl⟩ := Prod.mk.inj heq
        exact ⟨['-'], cs, l', rfl, .inr rfl, hscan⟩
      · rw [scanNumber_unsigned hc] at h
        exact ⟨[], c :: cs, l, rfl, .inl rfl, h⟩
  obtain ⟨int, cs1, frac, cs2, exp, hint, hfrac, hexp, rfl⟩ := scanUnsigned_eq_some hscan
  obtain ⟨⟨d, ds, rfl, hd⟩, hint⟩ := scanInt_again hint
  obtain ⟨hpoint, hfrac⟩ := scanFrac_again hfrac
  obtain ⟨hletter, hexp⟩ := scanExp_again hexp
  have hminus : d ≠ '-' := by
    rintro rfl
    exact absurd hd (by decide)
  constructor
  · rw [String.toList_ofList]
    rcases hsign with rfl | rfl
    · exact ⟨d, _, rfl, .inr hd⟩
    · exact ⟨'-', _, rfl, .inl rfl⟩
  · intro rest hclose
    have h3 := hexp rest fun c hc => by
      rcases hclose c hc with rfl | rfl | rfl <;> decide
    have h2 := hfrac (exp ++ rest) fun c hc => by
      cases exp with
      | nil => rcases hclose c hc with rfl | rfl | rfl <;> decide
      | cons e es =>
        obtain rfl : e = c := by simpa using hc
        rcases hletter e rfl with rfl | rfl <;> decide
    have h1 := hint (frac ++ (exp ++ rest)) fun c hc => by
      cases frac with
      | nil =>
        cases exp with
        | nil => exact hclose.not_digit c hc
        | cons e es =>
          obtain rfl : e = c := by simpa using hc
          rcases hletter e rfl with rfl | rfl <;> decide
      | cons p ps =>
        obtain rfl : p = c := by simpa using hc
        rw [hpoint p rfl]
        decide
    have hagain := scanUnsigned_parts h1 h2 h3
    rw [String.toList_ofList]
    simp only [List.cons_append, List.append_assoc] at hagain ⊢
    rcases hsign with rfl | rfl
    · rw [List.nil_append, scanNumber_unsigned hminus, hagain]
      simp
    · rw [List.singleton_append, scanNumber_minus, hagain]
      simp

/-! ### Values -/

theorem read_readable (fuel : ℕ) :
    (∀ depth cs v r, readValue fuel depth cs = some (v, r) → Readable depth v) ∧
    (∀ depth cs vs r, readElems fuel depth cs = some (vs, r) → ReadableElems depth vs) ∧
    ∀ depth cs ms r, readMembers fuel depth cs = some (ms, r) → ReadableMembers depth ms := by
  induction fuel with
  | zero =>
    refine ⟨?_, ?_, ?_⟩ <;> intro depth cs v r h
    · simp [readValue] at h
    · simp [readElems] at h
    · simp [readMembers] at h
  | succ fuel ih =>
    obtain ⟨ihvalue, ihelems, ihmembers⟩ := ih
    refine ⟨?_, ?_, ?_⟩
    · intro depth cs v r h
      rw [readValue] at h
      split at h
      next => simp at h
      next c rest hskip =>
        have hatom : ∀ w : Json String, (∀ d, Readable d w) → v = w → Readable depth v :=
          fun w hw heq => heq ▸ hw depth
        split at h
        next =>
          cases depth with
          | zero => simp at h
          | succ depth =>
            dsimp only at h
            split at h
            next =>
              obtain ⟨rfl, -⟩ := Prod.mk.inj (Option.some.inj h)
              exact trivial
            next =>
              obtain ⟨⟨ms, r'⟩, hread, heq⟩ := Option.map_eq_some_iff.mp h
              obtain ⟨rfl, -⟩ := Prod.mk.inj heq
              exact ihmembers _ _ _ _ hread
        split at h
        next =>
          cases depth with
          | zero => simp at h
          | succ depth =>
            dsimp only at h
            split at h
            next =>
              obtain ⟨rfl, -⟩ := Prod.mk.inj (Option.some.inj h)
              exact trivial
            next =>
              obtain ⟨⟨vs, r'⟩, hread, heq⟩ := Option.map_eq_some_iff.mp h
              obtain ⟨rfl, -⟩ := Prod.mk.inj heq
              exact ihelems _ _ _ _ hread
        split at h
        next =>
          obtain ⟨⟨s, r'⟩, hread, heq⟩ := Option.map_eq_some_iff.mp h
          obtain ⟨rfl, -⟩ := Prod.mk.inj heq
          cases depth <;> trivial
        split at h
        next =>
          obtain ⟨r', hread, heq⟩ := Option.map_eq_some_iff.mp h
          obtain ⟨rfl, -⟩ := Prod.mk.inj heq
          cases depth <;> trivial
        split at h
        next =>
          obtain ⟨r', hread, heq⟩ := Option.map_eq_some_iff.mp h
          obtain ⟨rfl, -⟩ := Prod.mk.inj heq
          cases depth <;> trivial
        split at h
        next =>
          obtain ⟨r', hread, heq⟩ := Option.map_eq_some_iff.mp h
          obtain ⟨rfl, -⟩ := Prod.mk.inj heq
          cases depth <;> trivial
        next =>
          obtain ⟨⟨l, r'⟩, hread, heq⟩ := Option.map_eq_some_iff.mp h
          obtain ⟨rfl, -⟩ := Prod.mk.inj heq
          have hnum := numeric_scanNumber hread
          cases depth <;> exact hnum
    · intro depth cs vs r h
      rw [readElems] at h
      simp only [Option.bind_eq_bind, Option.bind_eq_some_iff, Prod.exists] at h
      obtain ⟨v, cs', hv, hrest⟩ := h
      have hfirst := ihvalue _ _ _ _ hv
      split at hrest
      next =>
        simp only [Option.bind_eq_some_iff, Prod.exists] at hrest
        obtain ⟨ws, r', hws, heq⟩ := hrest
        obtain ⟨rfl, -⟩ : v :: ws = vs ∧ r' = r := by simpa using heq
        exact ⟨hfirst, ihelems _ _ _ _ hws⟩
      next =>
        obtain ⟨rfl, -⟩ := Prod.mk.inj (Option.some.inj hrest)
        exact ⟨hfirst, trivial⟩
      next => simp at hrest
    · intro depth cs ms r h
      rw [readMembers] at h
      split at h
      next =>
        simp only [Option.bind_eq_bind, Option.bind_eq_some_iff, Prod.exists] at h
        obtain ⟨k, cs', -, hrest⟩ := h
        split at hrest
        next =>
          simp only [Option.bind_eq_some_iff, Prod.exists] at hrest
          obtain ⟨v, cs2, hv, hrest⟩ := hrest
          have hfirst := ihvalue _ _ _ _ hv
          split at hrest
          next =>
            simp only [Option.bind_eq_some_iff, Prod.exists] at hrest
            obtain ⟨ws, r', hws, heq⟩ := hrest
            obtain ⟨rfl, -⟩ : (k, v) :: ws = ms ∧ r' = r := by simpa using heq
            exact ⟨hfirst, ihmembers _ _ _ _ hws⟩
          next =>
            obtain ⟨rfl, -⟩ := Prod.mk.inj (Option.some.inj hrest)
            exact ⟨hfirst, trivial⟩
          next => simp at hrest
        next => simp at hrest
      next => simp at h

theorem readable_parse {cs : List Char} {v : Json String} (h : parse cs = some v) :
    Readable maxNestingDepth v := by
  unfold parse at h
  split at h
  next w rest hread =>
    split at h
    next =>
      obtain rfl := Option.some.inj h
      exact (read_readable _).1 _ _ _ _ hread
    next => simp at h
  next => simp at h

/-! ### Printing without loss -/

section

variable {S : Type}

mutual

theorem mapStr_id : ∀ v : Json S, v.mapStr id = v
  | .null | .bool _ | .num _ | .str _ => rfl
  | .arr elems => congrArg arr (mapElems_id elems)
  | .obj members => congrArg obj (mapMembers_id members)

theorem mapElems_id : ∀ vs : List (Json S), mapElems id vs = vs
  | [] => rfl
  | v :: rest => by rw [mapElems, mapStr_id v, mapElems_id rest]

theorem mapMembers_id : ∀ ms : List (S × Json S), mapMembers id ms = ms
  | [] => rfl
  | (k, v) :: rest => by
    rw [mapMembers, mapStr_id v, mapMembers_id rest]
    rfl

end

end

theorem print_inj {quote : String → List Char} (hq : Quotes quote id) {v w : Json String}
    (hv : Readable maxNestingDepth v) (hw : Readable maxNestingDepth w)
    (h : v.print quote = w.print quote) : v = w := by
  have hread := parse_print hq hv
  rw [h, parse_print hq hw, mapStr_id, mapStr_id] at hread
  exact (Option.some.inj hread).symm

end Dap.Json
