import Dap.Lib.Json

/-! Reading back what was printed, for any way of quoting strings that the reader undoes, and what
two such ways of quoting make of one value. -/
namespace Dap.Json

variable {S T : Type}

/-! ### Mapping, strings, depth -/

mutual

def mapStr (f : S → T) : Json S → Json T
  | .null => .null
  | .bool b => .bool b
  | .num literal => .num literal
  | .str s => .str (f s)
  | .arr elems => .arr (mapElems f elems)
  | .obj members => .obj (mapMembers f members)

def mapElems (f : S → T) : List (Json S) → List (Json T)
  | [] => []
  | v :: rest => mapStr f v :: mapElems f rest

def mapMembers (f : S → T) : List (S × Json S) → List (T × Json T)
  | [] => []
  | (k, v) :: rest => (f k, mapStr f v) :: mapMembers f rest

end

mutual

/-- The keys and string values of a value. -/
def strings : Json S → List S
  | .str s => [s]
  | .arr elems => stringsElems elems
  | .obj members => stringsMembers members
  | _ => []

def stringsElems : List (Json S) → List S
  | [] => []
  | v :: rest => strings v ++ stringsElems rest

def stringsMembers : List (S × Json S) → List S
  | [] => []
  | (k, v) :: rest => k :: (strings v ++ stringsMembers rest)

end

/-- What may follow a value. -/
def Closes (rest : List Char) : Prop := ∀ c ∈ rest.head?, c = ',' ∨ c = ']' ∨ c = '}'

/-- A number literal that the reader takes whole. -/
structure Numeric (literal : String) : Prop where
  head : ∃ c cs, literal.toList = c :: cs ∧ (c = '-' ∨ isDigit c)
  scan : ∀ rest, Closes rest → scanNumber (literal.toList ++ rest) = some (literal.toList, rest)

mutual

/-- Nested at most `depth` deep, with numbers that can be read. -/
def Readable : ℕ → Json S → Prop
  | _, .null => True
  | _, .bool _ => True
  | _, .num literal => Numeric literal
  | _, .str _ => True
  | 0, .arr _ => False
  | depth + 1, .arr elems => ReadableElems depth elems
  | 0, .obj _ => False
  | depth + 1, .obj members => ReadableMembers depth members

def ReadableElems : ℕ → List (Json S) → Prop
  | _, [] => True
  | depth, v :: rest => Readable depth v ∧ ReadableElems depth rest

def ReadableMembers : ℕ → List (S × Json S) → Prop
  | _, [] => True
  | depth, (_, v) :: rest => Readable depth v ∧ ReadableMembers depth rest

end

/-! ### Integers -/

theorem isDigit_iff {c : Char} : isDigit c = true ↔ 48 ≤ c.toNat ∧ c.toNat ≤ 57 := by
  simp only [isDigit, Bool.and_eq_true, decide_eq_true_eq, Char.le_def, UInt32.le_iff_toNat_le]
  rfl

theorem Closes.not_digit {rest : List Char} (h : Closes rest) :
    ∀ c ∈ rest.head?, isDigit c = false := by
  intro c hc
  rcases h c hc with rfl | rfl | rfl <;> decide

theorem span_isDigit {ds rest : List Char} (hds : ∀ c ∈ ds, isDigit c = true)
    (hrest : ∀ c ∈ rest.head?, isDigit c = false) :
    (ds ++ rest).span isDigit = (ds, rest) := by
  have hstop : rest.takeWhile isDigit = [] ∧ rest.dropWhile isDigit = rest := by
    cases rest with
    | nil => exact ⟨rfl, rfl⟩
    | cons c cs => simp [hrest c rfl]
  rw [List.span_eq_takeWhile_dropWhile, List.takeWhile_append_of_pos hds,
    List.dropWhile_append_of_pos hds, hstop.1, hstop.2, List.append_nil]

theorem Closes.scanFrac {rest : List Char} (h : Closes rest) : scanFrac rest = some ([], rest) := by
  cases rest with
  | nil => rfl
  | cons c cs => rcases h c rfl with rfl | rfl | rfl <;> rfl

theorem Closes.scanExp {rest : List Char} (h : Closes rest) : scanExp rest = some ([], rest) := by
  cases rest with
  | nil => rfl
  | cons c cs => rcases h c rfl with rfl | rfl | rfl <;> rfl

theorem isDigit_toDigits {n : ℕ} {c : Char} (h : c ∈ Nat.toDigits 10 n) : isDigit c = true := by
  have hc := Nat.isDigit_of_mem_toDigits (by decide) (by decide) h
  simp only [Char.isDigit, Bool.and_eq_true, decide_eq_true_eq, ge_iff_le,
    UInt32.le_iff_toNat_le] at hc
  exact isDigit_iff.mpr hc

theorem head_toDigits {n : ℕ} (h : 0 < n) : ∀ c ∈ (Nat.toDigits 10 n).head?, c ≠ '0' := by
  induction n using Nat.strong_induction_on with
  | _ n ih =>
    by_cases hlt : n < 10
    · rw [Nat.toDigits_of_lt_base hlt]
      intro c hc
      obtain rfl : n.digitChar = c := by simpa using hc
      intro h0
      have hval := Nat.toNat_digitChar_sub_48_of_lt_ten hlt
      rw [h0] at hval
      exact absurd hval (by simp; omega)
    · rw [Nat.toDigits_of_base_le (by decide) (by omega), List.head?_append_of_ne_nil _
        Nat.toDigits_ne_nil]
      exact ih (n / 10) (by omega) (by omega)

theorem scanInt_toDigits (n : ℕ) {rest : List Char} (h : Closes rest) :
    scanInt (Nat.toDigits 10 n ++ rest) = some (Nat.toDigits 10 n, rest) := by
  rcases Nat.eq_zero_or_pos n with rfl | hn
  · simp [scanInt]
  · have hspan := span_isDigit (fun c => isDigit_toDigits (n := n)) h.not_digit
    have hhead := head_toDigits hn
    have hdigit := fun c => isDigit_toDigits (n := n) (c := c)
    cases hd : Nat.toDigits 10 n with
    | nil => exact absurd hd Nat.toDigits_ne_nil
    | cons c cs =>
      rw [hd] at hspan hhead hdigit
      rw [List.cons_append] at hspan ⊢
      rw [scanInt, if_neg (hhead c rfl), if_pos (hdigit c (by simp)), hspan]

theorem toList_toString (n : ℤ) : (toString n).toList =
    if 0 ≤ n then Nat.toDigits 10 n.natAbs else '-' :: Nat.toDigits 10 n.natAbs := by
  rw [Int.toString_eq_repr, Int.repr_eq_if]
  split
  next h =>
    have habs : n.toNat = n.natAbs := by omega
    rw [Nat.toList_repr, habs]
  next h =>
    have habs : (-n).toNat = n.natAbs := by omega
    rw [String.toList_append, Nat.toList_repr, habs]
    rfl

/-- A number after its sign. -/
def scanUnsigned (cs : List Char) : Option (List Char × List Char) := do
  let (int, cs) ← scanInt cs
  let (frac, cs) ← scanFrac cs
  let (exp, cs) ← scanExp cs
  return (int ++ frac ++ exp, cs)

theorem scanNumber_minus (cs : List Char) :
    scanNumber ('-' :: cs) = (scanUnsigned cs).map fun x => ('-' :: x.1, x.2) := by
  simp only [scanNumber, scanUnsigned, Option.bind_eq_bind, Option.pure_def]
  cases scanInt cs with
  | none => rfl
  | some int =>
    dsimp only [Option.bind_some]
    cases scanFrac int.2 with
    | none => rfl
    | some frac =>
      dsimp only [Option.bind_some]
      cases scanExp frac.2 <;> rfl

theorem scanNumber_unsigned {c : Char} {cs : List Char} (h : c ≠ '-') :
    scanNumber (c :: cs) = scanUnsigned (c :: cs) := by
  unfold scanNumber scanUnsigned
  split
  next heq =>
    split at heq
    next hcons => exact absurd (List.cons.inj hcons).1 h
    next =>
      obtain ⟨rfl, rfl⟩ := Prod.mk.inj heq
      rfl

theorem scanUnsigned_eq_some {cs l r : List Char} (h : scanUnsigned cs = some (l, r)) :
    ∃ int cs₁ frac cs₂ exp, scanInt cs = some (int, cs₁) ∧ scanFrac cs₁ = some (frac, cs₂) ∧
      scanExp cs₂ = some (exp, r) ∧ int ++ frac ++ exp = l := by
  simp only [scanUnsigned, Option.bind_eq_bind, Option.bind_eq_some_iff, Prod.exists] at h
  obtain ⟨int, cs₁, hint, frac, cs₂, hfrac, exp, cs₃, hexp, heq⟩ := h
  obtain ⟨rfl, rfl⟩ := Prod.mk.inj (Option.some.inj heq)
  exact ⟨int, cs₁, frac, cs₂, exp, hint, hfrac, hexp, rfl⟩

theorem scanUnsigned_parts {cs int cs₁ frac cs₂ exp r : List Char}
    (hint : scanInt cs = some (int, cs₁)) (hfrac : scanFrac cs₁ = some (frac, cs₂))
    (hexp : scanExp cs₂ = some (exp, r)) : scanUnsigned cs = some (int ++ frac ++ exp, r) := by
  simp [scanUnsigned, hint, hfrac, hexp]

theorem numeric_toString (n : ℤ) : Numeric (toString n) := by
  have hdigit := fun c => isDigit_toDigits (n := n.natAbs) (c := c)
  have hne := Nat.toDigits_ne_nil (n := n.natAbs) (b := 10)
  constructor
  · rw [toList_toString]
    split
    · cases hd : Nat.toDigits 10 n.natAbs with
      | nil => exact absurd hd hne
      | cons c cs => exact ⟨c, cs, rfl, .inr (hdigit c (by simp [hd]))⟩
    · exact ⟨'-', _, rfl, .inl rfl⟩
  · intro rest h
    have hscan := scanUnsigned_parts (scanInt_toDigits n.natAbs h) h.scanFrac h.scanExp
    rw [List.append_nil, List.append_nil] at hscan
    rw [toList_toString]
    split
    · cases hd : Nat.toDigits 10 n.natAbs with
      | nil => exact absurd hd hne
      | cons c cs =>
        have hc : c ≠ '-' := by
          rintro rfl
          exact absurd (hdigit '-' (by simp [hd])) (by decide)
        rw [hd] at hscan
        rw [List.cons_append] at hscan ⊢
        rw [scanNumber_unsigned hc, hscan]
    · rw [List.cons_append, scanNumber_minus, hscan]
      rfl

/-! ### Reading a printed value -/

/-- Every string is written as a literal that reads back as `f s`. -/
def Quotes (quote : S → List Char) (f : S → String) : Prop :=
  ∀ s, ∃ body, quote s = '"' :: body ∧ ∀ rest, readString (body ++ rest) = some (f s, rest)

variable {quote : S → List Char} {f : S → String}

theorem skipSpace_cons {c : Char} {cs : List Char} (h : isSpace c = false) :
    skipSpace (c :: cs) = c :: cs := by
  rw [skipSpace, List.dropWhile_cons_of_neg (by simp [h])]

theorem Closes.skipSpace {rest : List Char} (h : Closes rest) : skipSpace rest = rest := by
  cases rest with
  | nil => rfl
  | cons c cs => rcases h c rfl with rfl | rfl | rfl <;> exact skipSpace_cons (by decide)

theorem number_head {c : Char} (hc : c = '-' ∨ isDigit c = true) : isSpace c = false ∧ c ≠ ']' ∧
    c ≠ '{' ∧ c ≠ '[' ∧ c ≠ '"' ∧ c ≠ 't' ∧ c ≠ 'f' ∧ c ≠ 'n' := by
  have hd : ∀ x : Char, ¬ (x = '-' ∨ isDigit x = true) → c ≠ x := fun x hx h => hx (h ▸ hc)
  refine ⟨?_, hd _ (by decide), hd _ (by decide), hd _ (by decide), hd _ (by decide),
    hd _ (by decide), hd _ (by decide), hd _ (by decide)⟩
  simp [isSpace, hd ' ' (by decide), hd '\t' (by decide), hd '\n' (by decide), hd '\r' (by decide)]

/-- How a printed value begins. -/
theorem print_head {depth : ℕ} {v : Json S} (hq : Quotes quote f) (hv : Readable depth v) :
    ∃ c cs, v.print quote = c :: cs ∧ isSpace c = false ∧ c ≠ ']' := by
  cases v with
  | null => exact ⟨_, _, rfl, by decide, by decide⟩
  | bool b => cases b <;> exact ⟨_, _, rfl, by decide, by decide⟩
  | num literal =>
    have hn : Numeric literal := by cases depth <;> exact hv
    obtain ⟨c, cs, hl, hc⟩ := hn.head
    exact ⟨c, cs, hl, (number_head hc).1, (number_head hc).2.1⟩
  | str s =>
    obtain ⟨body, hb, -⟩ := hq s
    exact ⟨_, _, hb, by decide, by decide⟩
  | arr elems => exact ⟨_, _, rfl, by decide, by decide⟩
  | obj members => exact ⟨_, _, rfl, by decide, by decide⟩

theorem printElems_head {depth : ℕ} {v : Json S} (vs : List (Json S)) (rest : List Char)
    (hq : Quotes quote f) (hv : Readable depth v) :
    ∃ c cs, printElems quote (v :: vs) ++ rest = c :: cs ∧ isSpace c = false ∧ c ≠ ']' := by
  obtain ⟨c, cs, hc, hspace, hclose⟩ := print_head hq hv
  cases vs with
  | nil => exact ⟨c, cs ++ rest, by simp [printElems, hc], hspace, hclose⟩
  | cons w ws =>
    exact ⟨c, cs ++ ',' :: (printElems quote (w :: ws) ++ rest), by simp [printElems, hc], hspace,
      hclose⟩

theorem printMembers_head {v : Json S} (ms : List (S × Json S)) (rest : List Char)
    (hq : Quotes quote f) (k : S) :
    ∃ cs, printMembers quote ((k, v) :: ms) ++ rest = '"' :: cs := by
  obtain ⟨body, hb, -⟩ := hq k
  cases ms with
  | nil => exact ⟨body ++ ':' :: (print quote v ++ rest), by simp [printMembers, hb]⟩
  | cons w ws =>
    exact ⟨body ++ ':' :: (print quote v ++ ',' :: (printMembers quote (w :: ws) ++ rest)),
      by simp [printMembers, hb]⟩

mutual

theorem readValue_print (hq : Quotes quote f) : ∀ (v : Json S) (fuel depth : ℕ) (rest : List Char),
    Readable depth v → (v.print quote).length ≤ fuel → Closes rest →
    readValue fuel depth (v.print quote ++ rest) = some (v.mapStr f, rest)
  | v, 0, depth, rest, hv, hfuel, hrest => by
    obtain ⟨c, cs, hc, -⟩ := print_head hq hv
    rw [hc, List.length_cons] at hfuel
    omega
  | .null, fuel + 1, depth, rest, hv, hfuel, hrest => by
    simp [print, readValue, skipSpace_cons, isSpace, dropLiteral, mapStr]
  | .bool b, fuel + 1, depth, rest, hv, hfuel, hrest => by
    cases b <;> simp [print, readValue, skipSpace_cons, isSpace, dropLiteral, mapStr]
  | .num literal, fuel + 1, depth, rest, hv, hfuel, hrest => by
    have hn : Numeric literal := by cases depth <;> exact hv
    obtain ⟨c, cs, hl, hc⟩ := hn.head
    have hscan := hn.scan rest hrest
    obtain ⟨hspace, hplain⟩ := number_head hc
    have hback : String.ofList (c :: cs) = literal := by rw [← hl, String.ofList_toList]
    rw [hl, List.cons_append] at hscan
    simp [print, hl, readValue, skipSpace_cons hspace, hplain, hscan, mapStr, hback]
  | .str s, fuel + 1, depth, rest, hv, hfuel, hrest => by
    obtain ⟨body, hb, hread⟩ := hq s
    simp [print, hb, readValue, skipSpace_cons, isSpace, hread, mapStr]
  | .arr [], fuel + 1, 0, rest, hv, hfuel, hrest => absurd hv id
  | .arr [], fuel + 1, depth + 1, rest, hv, hfuel, hrest => by
    simp [print, printElems, readValue, skipSpace_cons, isSpace, mapStr, mapElems]
  | .arr (v :: vs), fuel + 1, 0, rest, hv, hfuel, hrest => absurd hv id
  | .arr (v :: vs), fuel + 1, depth + 1, rest, hv, hfuel, hrest => by
    have hlen : (printElems quote (v :: vs)).length < fuel := by
      simp only [print, List.length_cons, List.length_append, List.length_nil] at hfuel
      omega
    have hread := readElems_print hq (v :: vs) fuel depth rest (by simp) hv hlen
    obtain ⟨c, cs, hcs, hspace, hclose⟩ := printElems_head vs (']' :: rest) hq hv.1
    rw [hcs] at hread
    simp only [print, List.cons_append, List.append_assoc, List.nil_append, hcs, readValue,
      skipSpace_cons hspace, skipSpace_cons (c := '[') rfl, if_neg (by decide : '[' ≠ '{'), if_true]
    split
    next heq => exact absurd (List.cons.inj heq).1 hclose
    next => rw [hread, Option.map_some, mapStr]
  | .obj [], fuel + 1, 0, rest, hv, hfuel, hrest => absurd hv id
  | .obj [], fuel + 1, depth + 1, rest, hv, hfuel, hrest => by
    simp [print, printMembers, readValue, skipSpace_cons, isSpace, mapStr, mapMembers]
  | .obj (m :: ms), fuel + 1, 0, rest, hv, hfuel, hrest => absurd hv id
  | .obj ((k, v) :: ms), fuel + 1, depth + 1, rest, hv, hfuel, hrest => by
    have hlen : (printMembers quote ((k, v) :: ms)).length < fuel := by
      simp only [print, List.length_cons, List.length_append, List.length_nil] at hfuel
      omega
    have hread := readMembers_print hq ((k, v) :: ms) fuel depth rest (by simp) hv hlen
    obtain ⟨cs, hcs⟩ := printMembers_head (v := v) ms ('}' :: rest) hq k
    rw [hcs] at hread
    simp [print, hcs, readValue, skipSpace_cons, isSpace, hread, mapStr]

theorem readElems_print (hq : Quotes quote f) : ∀ (vs : List (Json S)) (fuel depth : ℕ)
    (rest : List Char), vs ≠ [] → ReadableElems depth vs → (printElems quote vs).length < fuel →
    readElems fuel depth (printElems quote vs ++ ']' :: rest) = some (mapElems f vs, rest)
  | [], _, _, _, hne, _, _ => absurd rfl hne
  | _ :: _, 0, _, _, _, _, hfuel => absurd hfuel (by omega)
  | [v], fuel + 1, depth, rest, _, hv, hfuel => by
    simp only [printElems] at hfuel
    have hread := readValue_print hq v fuel depth (']' :: rest) hv.1 (by omega) (by simp [Closes])
    simp [printElems, readElems, hread, skipSpace_cons, isSpace, mapElems]
  | v :: w :: vs, fuel + 1, depth, rest, _, hv, hfuel => by
    simp only [printElems, List.length_append, List.length_cons] at hfuel
    have hread := readValue_print hq v fuel depth
      (',' :: (printElems quote (w :: vs) ++ ']' :: rest))
      hv.1 (by omega) (by simp [Closes])
    have htail := readElems_print hq (w :: vs) fuel depth rest (by simp) hv.2 (by omega)
    rw [printElems, List.append_assoc, List.cons_append, readElems, hread]
    simp [skipSpace_cons, isSpace, htail, mapElems]

theorem readMembers_print (hq : Quotes quote f) : ∀ (ms : List (S × Json S)) (fuel depth : ℕ)
    (rest : List Char), ms ≠ [] → ReadableMembers depth ms →
    (printMembers quote ms).length < fuel →
    readMembers fuel depth (printMembers quote ms ++ '}' :: rest) = some (mapMembers f ms, rest)
  | [], _, _, _, hne, _, _ => absurd rfl hne
  | _ :: _, 0, _, _, _, _, hfuel => absurd hfuel (by omega)
  | [(k, v)], fuel + 1, depth, rest, _, hv, hfuel => by
    simp only [printMembers, List.length_append, List.length_cons] at hfuel
    obtain ⟨body, hb, hkey⟩ := hq k
    have hread := readValue_print hq v fuel depth ('}' :: rest) hv.1 (by omega) (by simp [Closes])
    simp [printMembers, readMembers, hb, hkey, hread, skipSpace_cons, isSpace, mapMembers]
  | (k, v) :: w :: ms, fuel + 1, depth, rest, _, hv, hfuel => by
    simp only [printMembers, List.length_append, List.length_cons] at hfuel
    obtain ⟨body, hb, hkey⟩ := hq k
    have hread := readValue_print hq v fuel depth
      (',' :: (printMembers quote (w :: ms) ++ '}' :: rest)) hv.1 (by omega) (by simp [Closes])
    have htail := readMembers_print hq (w :: ms) fuel depth rest (by simp) hv.2 (by omega)
    simp [printMembers, readMembers, hb, hkey, hread, htail, skipSpace_cons, isSpace, mapMembers]

end

/-- Printing and parsing again gives the value with the strings the reader sees. -/
theorem parse_print (hq : Quotes quote f) {v : Json S} (hv : Readable maxNestingDepth v) :
    parse (v.print quote) = some (v.mapStr f) := by
  have hclose : Closes [] := by simp [Closes]
  have hread := readValue_print hq v ((v.print quote).length + 1) maxNestingDepth [] hv
    (by omega) hclose
  rw [List.append_nil] at hread
  rw [parse, hread]
  simp [skipSpace]

/-! ### Two ways of quoting -/

section Compare

variable {S' : Type} {quote' : S' → List Char} {f' : S' → String} {r : S → S'}

/-- A literal ends where the reader says, whoever wrote it. -/
theorem Quotes.append_inj (hq : Quotes quote f) (hq' : Quotes quote' f') {s : S} {s' : S'}
    {t t' : List Char} (h : quote s ++ t = quote' s' ++ t') : quote s = quote' s' ∧ t = t' := by
  obtain ⟨body, hb, hread⟩ := hq s
  obtain ⟨body', hb', hread'⟩ := hq' s'
  have hbody : body ++ t = body' ++ t' := by simpa [hb, hb'] using h
  have hsame := hread t
  rw [hbody, hread' t', Option.some.injEq, Prod.mk.injEq] at hsame
  obtain ⟨-, rfl⟩ := hsame
  exact ⟨List.append_cancel_right h, rfl⟩

mutual

theorem print_append_inj (hq : Quotes quote f) (hq' : Quotes quote' f') :
    ∀ (v : Json S) (t t' : List Char), v.print quote ++ t = (v.mapStr r).print quote' ++ t' →
      (∀ s ∈ v.strings, quote s = quote' (r s)) ∧ t = t'
  | .null, t, t', h => by simpa [print, mapStr, strings] using h
  | .bool b, t, t', h => by cases b <;> simpa [print, mapStr, strings] using h
  | .num literal, t, t', h => by simpa [print, mapStr, strings] using h
  | .str s, t, t', h => by simpa [strings] using hq.append_inj hq' h
  | .arr vs, t, t', h => by
    have hvs := printElems_append_inj hq hq' vs (']' :: t) (']' :: t')
      (by simpa [print, mapStr] using h)
    simpa [strings] using hvs
  | .obj ms, t, t', h => by
    have hms := printMembers_append_inj hq hq' ms ('}' :: t) ('}' :: t')
      (by simpa [print, mapStr] using h)
    simpa [strings] using hms

theorem printElems_append_inj (hq : Quotes quote f) (hq' : Quotes quote' f') :
    ∀ (vs : List (Json S)) (t t' : List Char),
      printElems quote vs ++ t = printElems quote' (mapElems r vs) ++ t' →
      (∀ s ∈ stringsElems vs, quote s = quote' (r s)) ∧ t = t'
  | [], t, t', h => by simpa [printElems, mapElems, stringsElems] using h
  | [v], t, t', h => by
    simpa [stringsElems] using
      print_append_inj hq hq' v t t' (by simpa [printElems, mapElems] using h)
  | v :: w :: vs, t, t', h => by
    rw [mapElems, mapElems, printElems, printElems, List.append_assoc, List.append_assoc] at h
    obtain ⟨hv, hrest⟩ := print_append_inj hq hq' v _ _ h
    obtain ⟨hvs, ht⟩ :=
      printElems_append_inj hq hq' (w :: vs) t t' (by simpa [mapElems] using hrest)
    refine ⟨fun s hs => ?_, ht⟩
    rw [stringsElems, List.mem_append] at hs
    exact hs.elim (hv s) (hvs s)

theorem printMembers_append_inj (hq : Quotes quote f) (hq' : Quotes quote' f') :
    ∀ (ms : List (S × Json S)) (t t' : List Char),
      printMembers quote ms ++ t = printMembers quote' (mapMembers r ms) ++ t' →
      (∀ s ∈ stringsMembers ms, quote s = quote' (r s)) ∧ t = t'
  | [], t, t', h => by simpa [printMembers, mapMembers, stringsMembers] using h
  | [(k, v)], t, t', h => by
    rw [mapMembers, mapMembers, printMembers, printMembers, List.append_assoc,
      List.append_assoc] at h
    obtain ⟨hk, hrest⟩ := hq.append_inj hq' h
    have hv := print_append_inj hq hq' v t t' (by simpa using hrest)
    simpa [stringsMembers, hk] using hv
  | (k, v) :: w :: ms, t, t', h => by
    rw [mapMembers, mapMembers, printMembers, printMembers, List.append_assoc,
      List.append_assoc] at h
    obtain ⟨hk, hrest⟩ := hq.append_inj hq' h
    rw [List.cons_append, List.cons_append, List.cons.injEq, List.append_assoc,
      List.append_assoc] at hrest
    obtain ⟨hv, hrest⟩ := print_append_inj hq hq' v _ _ hrest.2
    obtain ⟨hms, ht⟩ := printMembers_append_inj hq hq' (w :: ms) t t'
      (by simpa [mapMembers] using hrest)
    refine ⟨fun s hs => ?_, ht⟩
    rw [stringsMembers, List.mem_cons, List.mem_append] at hs
    rcases hs with rfl | hs | hs
    · exact hk
    · exact hv s hs
    · exact hms s hs

end

mutual

theorem print_congr : ∀ v : Json S, (∀ s ∈ v.strings, quote s = quote' (r s)) →
    v.print quote = (v.mapStr r).print quote'
  | .null, _ => rfl
  | .bool b, _ => by cases b <;> rfl
  | .num _, _ => rfl
  | .str s, h => h s (by simp [strings])
  | .arr vs, h => by rw [mapStr, print, print, printElems_congr vs h]
  | .obj ms, h => by rw [mapStr, print, print, printMembers_congr ms h]

theorem printElems_congr : ∀ vs : List (Json S), (∀ s ∈ stringsElems vs, quote s = quote' (r s)) →
    printElems quote vs = printElems quote' (mapElems r vs)
  | [], _ => rfl
  | [v], h => print_congr v fun s hs => h s (by simpa [stringsElems] using hs)
  | v :: w :: vs, h => by
    have hv := print_congr v fun s hs => h s (List.mem_append_left _ hs)
    have hvs := printElems_congr (w :: vs) fun s hs => h s (List.mem_append_right _ hs)
    rw [mapElems, mapElems, printElems, printElems, hv, hvs, mapElems]

theorem printMembers_congr : ∀ ms : List (S × Json S),
    (∀ s ∈ stringsMembers ms, quote s = quote' (r s)) →
    printMembers quote ms = printMembers quote' (mapMembers r ms)
  | [], _ => rfl
  | [(k, v)], h => by
    have hv := print_congr v fun s hs => h s (by simp [stringsMembers, hs])
    rw [mapMembers, mapMembers, printMembers, printMembers, h k (by simp [stringsMembers]), hv]
  | (k, v) :: w :: ms, h => by
    have hv := print_congr v fun s hs => h s (by simp [stringsMembers, hs])
    have hms := printMembers_congr (w :: ms) fun s hs =>
      h s (List.mem_cons_of_mem _ (List.mem_append_right _ hs))
    rw [mapMembers, mapMembers, printMembers, printMembers, h k (by simp [stringsMembers]), hv, hms,
      mapMembers]

end

/-- Two printers agree on a value exactly when they quote each of its strings alike. -/
theorem print_eq_iff (hq : Quotes quote f) (hq' : Quotes quote' f') (v : Json S) :
    v.print quote = (v.mapStr r).print quote' ↔ ∀ s ∈ v.strings, quote s = quote' (r s) := by
  constructor
  · intro h
    exact (print_append_inj hq hq' v [] [] (by rw [h])).1
  · exact print_congr v

end Compare

end Dap.Json
