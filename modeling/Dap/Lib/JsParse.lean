import Dap.Lib.JsNumber
import Dap.Lib.JsonRead

/-! `JSON.parse`: the reader of JavaScript, which keeps unpaired surrogates, and what it makes of a
text that `JSON.stringify` has printed, or that Go has marshalled. -/
namespace Dap
open Json
namespace JsParse

/-! ### Strings -/

/-- The code units a piece of a literal stands for. -/
def units : Piece → JsString
  | .char c => JsString.encodeChar c
  | .unit u => [UInt16.ofNat u]

def readString (cs : List Char) : Option (JsString × List Char) :=
  (scanString cs).map fun x => (x.1.flatMap units, x.2)

theorem units_codePoint (p : CodePoint) : ∃ b, Spells p.escape (p.piece.spelled b) ∧
    units (p.piece.spelled b) = units p.piece := by
  obtain ⟨b, hb⟩ := p.escape_spells
  cases p with
  | lone u hu => exact ⟨b, hb, rfl⟩
  | scalar c =>
    by_cases hsmall : c.toNat < 0x10000
    · refine ⟨b, hb, ?_⟩
      cases b with
      | false => rfl
      | true => simp [CodePoint.piece, Piece.spelled, units, JsString.encodeChar, hsmall]
    · have hne : ∀ d : Char, d.toNat < 0x10000 → c ≠ d := by
        rintro d hd rfl
        exact hsmall hd
      have hplain : CodePoint.escape (.scalar c) = [c] := by
        unfold CodePoint.escape
        dsimp only
        rw [if_neg (not_or.mpr ⟨hne _ (by decide), hne _ (by decide)⟩), if_neg (hne _ (by decide)),
          if_neg (hne _ (by decide)), if_neg (hne _ (by decide)), if_neg (hne _ (by decide)),
          if_neg (hne _ (by decide)), if_neg (by omega)]
      refine ⟨false, ?_, rfl⟩
      rw [hplain]
      exact spells_self (hne _ (by decide)) (hne _ (by decide)) (by omega)

theorem toNat_ofNat {n : ℕ} (h : n.isValidChar) : (Char.ofNat n).toNat = n := by
  unfold Char.ofNat
  rw [dif_pos h]
  rfl

theorem units_ofUnit (u : UInt16) : units (CodePoint.ofUnit u).piece = [u] := by
  unfold CodePoint.ofUnit
  split
  next h => simp [CodePoint.piece, units]
  next h =>
    have hvalid : u.toNat < 0xD800 ∨ 0xDFFF < u.toNat ∧ u.toNat < 0x110000 := by
      have hlt := u.toNat_lt
      simp only [isHigh, isLow, Bool.or_eq_true, decide_eq_true_eq, not_or] at h
      omega
    have hchar : (Char.ofNat u.toNat).toNat = u.toNat := toNat_ofNat hvalid
    have hlt := u.toNat_lt
    simp only [CodePoint.piece, units, JsString.encodeChar, hchar]
    rw [if_pos (by omega), UInt16.ofNat_toNat]

theorem units_pair {u v : UInt16} (h : (isHigh u.toNat && isLow v.toNat) = true) :
    JsString.encodeChar (pairChar u.toNat v.toNat) = [u, v] := by
  simp only [isHigh, isLow, Bool.and_eq_true, decide_eq_true_eq] at h
  have hvalid : (0x10000 + (u.toNat - 0xD800) * 1024 + (v.toNat - 0xDC00)) < 0xD800 ∨
      0xDFFF < (0x10000 + (u.toNat - 0xD800) * 1024 + (v.toNat - 0xDC00)) ∧
        (0x10000 + (u.toNat - 0xD800) * 1024 + (v.toNat - 0xDC00)) < 0x110000 := by omega
  have hchar : (pairChar u.toNat v.toNat).toNat =
      0x10000 + (u.toNat - 0xD800) * 1024 + (v.toNat - 0xDC00) :=
    toNat_ofNat hvalid
  have hhigh :
      0xD800 + (0x10000 + (u.toNat - 0xD800) * 1024 + (v.toNat - 0xDC00) - 0x10000) / 1024 =
      u.toNat := by omega
  have hlow : 0xDC00 + (0x10000 + (u.toNat - 0xD800) * 1024 + (v.toNat - 0xDC00) - 0x10000) % 1024 =
      v.toNat := by omega
  rw [JsString.encodeChar, hchar, if_neg (by omega), hhigh, hlow, UInt16.ofNat_toNat,
    UInt16.ofNat_toNat]

theorem units_codePoints (s : JsString) : s.codePoints.flatMap (fun p => units p.piece) = s := by
  induction s using JsString.codePoints.induct with
  | case1 => rfl
  | case2 u => simpa [JsString.codePoints] using units_ofUnit u
  | case3 u v rest h ih =>
    rw [JsString.codePoints, if_pos h, List.flatMap_cons, ih]
    change JsString.encodeChar (pairChar u.toNat v.toNat) ++ rest = _
    rw [units_pair h]
    rfl
  | case4 u v rest h ih =>
    rw [JsString.codePoints, if_neg h, List.flatMap_cons, ih, units_ofUnit]
    rfl

/-- A string that was quoted is read back as it was, unpaired surrogates included. -/
theorem readString_quote (s : JsString) : ∃ body, s.quote = '"' :: body ∧
    ∀ rest, readString (body ++ rest) = some (s, rest) := by
  refine ⟨_, rfl, fun rest => ?_⟩
  choose b hb hunits using units_codePoint
  have hscan := @scanString_flatMap _ _ _ s.codePoints (fun p _ => hb p) rest
  have hback := units_codePoints s
  rw [List.append_assoc, List.singleton_append, readString, hscan, Option.map_some,
    List.flatMap_map]
  simp only [hunits, hback]

/-! ### Values -/

mutual

/-- The fuel bounds the number of nested calls; a text never needs more than its length. -/
def readValue : ℕ → List Char → Option (Json JsString × List Char)
  | 0, _ => none
  | fuel + 1, cs =>
    match skipSpace cs with
    | [] => none
    | c :: rest =>
      if c = '{' then
        match skipSpace rest with
        | '}' :: r => some (.obj [], r)
        | r => (readMembers fuel r).map fun (ms, r) => (.obj ms, r)
      else if c = '[' then
        match skipSpace rest with
        | ']' :: r => some (.arr [], r)
        | r => (readElems fuel r).map fun (vs, r) => (.arr vs, r)
      else if c = '"' then (readString rest).map fun (s, r) => (.str s, r)
      else if c = 't' then (dropLiteral ['r', 'u', 'e'] rest).map fun r => (.bool true, r)
      else if c = 'f' then (dropLiteral ['a', 'l', 's', 'e'] rest).map fun r => (.bool false, r)
      else if c = 'n' then (dropLiteral ['u', 'l', 'l'] rest).map fun r => (.null, r)
      else (scanNumber (c :: rest)).map fun (l, r) => (.num (String.ofList l), r)

def readElems : ℕ → List Char → Option (List (Json JsString) × List Char)
  | 0, _ => none
  | fuel + 1, cs => do
    let (v, cs) ← readValue fuel cs
    match skipSpace cs with
    | ',' :: r =>
      let (vs, r) ← readElems fuel r
      return (v :: vs, r)
    | ']' :: r => return ([v], r)
    | _ => none

def readMembers : ℕ → List Char → Option (List (JsString × Json JsString) × List Char)
  | 0, _ => none
  | fuel + 1, cs =>
    match skipSpace cs with
    | '"' :: cs => do
      let (k, cs) ← readString cs
      match skipSpace cs with
      | ':' :: cs =>
        let (v, cs) ← readValue fuel cs
        match skipSpace cs with
        | ',' :: r =>
          let (ms, r) ← readMembers fuel r
          return ((k, v) :: ms, r)
        | '}' :: r => return ([(k, v)], r)
        | _ => none
      | _ => none
    | _ => none

end

/-- The members of an object in the order they stand in; the last of one name is the one that
counts. -/
def parse (cs : List Char) : Option (Json JsString) :=
  match readValue (cs.length + 1) cs with
  | some (v, rest) => if (skipSpace rest).isEmpty then some v else none
  | none => none

/-! ### Reading a printed value -/

variable {S : Type}

mutual

/-- Its numbers can be read. -/
def Numerals : Json S → Prop
  | .num literal => Numeric literal
  | .arr elems => NumeralsElems elems
  | .obj members => NumeralsMembers members
  | _ => True

def NumeralsElems : List (Json S) → Prop
  | [] => True
  | v :: rest => Numerals v ∧ NumeralsElems rest

def NumeralsMembers : List (S × Json S) → Prop
  | [] => True
  | (_, v) :: rest => Numerals v ∧ NumeralsMembers rest

end

/-- Every string is written as a literal that reads back as `f s`. -/
def Spelt (quote : S → List Char) (f : S → JsString) : Prop :=
  ∀ s, ∃ body, quote s = '"' :: body ∧ ∀ rest, readString (body ++ rest) = some (f s, rest)

variable {quote : S → List Char} {f : S → JsString}

theorem print_head {v : Json S} (hq : Spelt quote f) (hv : Numerals v) :
    ∃ c cs, v.print quote = c :: cs ∧ isSpace c = false ∧ c ≠ ']' := by
  cases v with
  | null => exact ⟨_, _, rfl, by decide, by decide⟩
  | bool b => cases b <;> exact ⟨_, _, rfl, by decide, by decide⟩
  | num literal =>
    obtain ⟨c, cs, hl, hc⟩ := hv.head
    exact ⟨c, cs, hl, (number_head hc).1, (number_head hc).2.1⟩
  | str s =>
    obtain ⟨body, hb, -⟩ := hq s
    exact ⟨_, _, hb, by decide, by decide⟩
  | arr elems => exact ⟨_, _, rfl, by decide, by decide⟩
  | obj members => exact ⟨_, _, rfl, by decide, by decide⟩

theorem printElems_head {v : Json S} (vs : List (Json S)) (rest : List Char)
    (hq : Spelt quote f) (hv : Numerals v) : ∃ c cs, printElems quote (v :: vs) ++ rest = c :: cs ∧
      isSpace c = false ∧ c ≠ ']' := by
  obtain ⟨c, cs, hc, hspace, hclose⟩ := print_head hq hv
  cases vs with
  | nil => exact ⟨c, cs ++ rest, by simp [printElems, hc], hspace, hclose⟩
  | cons w ws =>
    exact ⟨c, cs ++ ',' :: (printElems quote (w :: ws) ++ rest), by simp [printElems, hc],
      hspace, hclose⟩

theorem printMembers_head (hq : Spelt quote f) (k : S) (v : Json S) (ms : List (S × Json S))
    (rest : List Char) : ∃ cs, printMembers quote ((k, v) :: ms) ++ rest = '"' :: cs := by
  obtain ⟨body, hb, -⟩ := hq k
  cases ms with
  | nil => exact ⟨body ++ ':' :: (print quote v ++ rest), by simp [printMembers, hb]⟩
  | cons w ws =>
    exact ⟨body ++ ':' :: (print quote v ++ ',' :: (printMembers quote (w :: ws) ++ rest)),
      by simp [printMembers, hb]⟩

mutual

theorem readValue_print (hq : Spelt quote f) : ∀ (v : Json S) (fuel : ℕ) (rest : List Char),
    Numerals v → (v.print quote).length ≤ fuel → Closes rest →
    readValue fuel (v.print quote ++ rest) = some (v.mapStr f, rest)
  | v, 0, rest, hv, hfuel, hrest => by
    obtain ⟨c, cs, hc, -⟩ := print_head hq hv
    rw [hc, List.length_cons] at hfuel
    omega
  | .null, fuel + 1, rest, hv, hfuel, hrest => by
    simp [print, readValue, skipSpace_cons, isSpace, dropLiteral, mapStr]
  | .bool b, fuel + 1, rest, hv, hfuel, hrest => by
    cases b <;> simp [print, readValue, skipSpace_cons, isSpace, dropLiteral, mapStr]
  | .num literal, fuel + 1, rest, hv, hfuel, hrest => by
    obtain ⟨c, cs, hl, hc⟩ := hv.head
    have hscan := hv.scan rest hrest
    obtain ⟨hspace, hplain⟩ := number_head hc
    have hback : String.ofList (c :: cs) = literal := by rw [← hl, String.ofList_toList]
    rw [hl, List.cons_append] at hscan
    simp [print, hl, readValue, skipSpace_cons hspace, hplain, hscan, hback, mapStr]
  | .str s, fuel + 1, rest, hv, hfuel, hrest => by
    obtain ⟨body, hb, hread⟩ := hq s
    simp [print, hb, readValue, skipSpace_cons, isSpace, hread, mapStr]
  | .arr [], fuel + 1, rest, hv, hfuel, hrest => by
    simp [print, printElems, readValue, skipSpace_cons, isSpace, mapStr, mapElems]
  | .arr (v :: vs), fuel + 1, rest, hv, hfuel, hrest => by
    have hlen : (printElems quote (v :: vs)).length < fuel := by
      simp only [print, List.length_cons, List.length_append, List.length_nil] at hfuel
      omega
    have hread := readElems_print hq (v :: vs) fuel rest (by simp) hv hlen
    obtain ⟨c, cs, hcs, hspace, hclose⟩ := printElems_head vs (']' :: rest) hq hv.1
    rw [hcs] at hread
    simp only [print, List.cons_append, List.append_assoc, List.nil_append, hcs, readValue,
      skipSpace_cons hspace, skipSpace_cons (c := '[') rfl, if_neg (by decide : '[' ≠ '{'), if_true]
    split
    next heq => exact absurd (List.cons.inj heq).1 hclose
    next => rw [hread, Option.map_some, mapStr]
  | .obj [], fuel + 1, rest, hv, hfuel, hrest => by
    simp [print, printMembers, readValue, skipSpace_cons, isSpace, mapStr, mapMembers]
  | .obj ((k, v) :: ms), fuel + 1, rest, hv, hfuel, hrest => by
    have hlen : (printMembers quote ((k, v) :: ms)).length < fuel := by
      simp only [print, List.length_cons, List.length_append, List.length_nil] at hfuel
      omega
    have hread := readMembers_print hq ((k, v) :: ms) fuel rest (by simp) hv hlen
    obtain ⟨cs, hcs⟩ := printMembers_head hq k v ms ('}' :: rest)
    rw [hcs] at hread
    simp [print, hcs, readValue, skipSpace_cons, isSpace, hread, mapStr]

theorem readElems_print (hq : Spelt quote f) : ∀ (vs : List (Json S)) (fuel : ℕ)
    (rest : List Char), vs ≠ [] → NumeralsElems vs → (printElems quote vs).length < fuel →
    readElems fuel (printElems quote vs ++ ']' :: rest) = some (mapElems f vs, rest)
  | [], _, _, hne, _, _ => absurd rfl hne
  | _ :: _, 0, _, _, _, hfuel => absurd hfuel (by omega)
  | [v], fuel + 1, rest, _, hv, hfuel => by
    simp only [printElems] at hfuel
    have hread := readValue_print hq v fuel (']' :: rest) hv.1 (by omega) (by simp [Closes])
    simp [printElems, readElems, hread, skipSpace_cons, isSpace, mapElems]
  | v :: w :: vs, fuel + 1, rest, _, hv, hfuel => by
    simp only [printElems, List.length_append, List.length_cons] at hfuel
    have hread := readValue_print hq v fuel
      (',' :: (printElems quote (w :: vs) ++ ']' :: rest))
      hv.1 (by omega) (by simp [Closes])
    have htail := readElems_print hq (w :: vs) fuel rest (by simp) hv.2 (by omega)
    rw [printElems, List.append_assoc, List.cons_append, readElems, hread]
    simp [skipSpace_cons, isSpace, htail, mapElems]

theorem readMembers_print (hq : Spelt quote f) : ∀ (ms : List (S × Json S)) (fuel : ℕ)
    (rest : List Char), ms ≠ [] → NumeralsMembers ms → (printMembers quote ms).length < fuel →
    readMembers fuel (printMembers quote ms ++ '}' :: rest) = some (mapMembers f ms, rest)
  | [], _, _, hne, _, _ => absurd rfl hne
  | _ :: _, 0, _, _, _, hfuel => absurd hfuel (by omega)
  | [(k, v)], fuel + 1, rest, _, hv, hfuel => by
    simp only [printMembers, List.length_append, List.length_cons] at hfuel
    obtain ⟨body, hb, hkey⟩ := hq k
    have hread := readValue_print hq v fuel ('}' :: rest) hv.1 (by omega) (by simp [Closes])
    simp [printMembers, readMembers, hb, hkey, hread, skipSpace_cons, isSpace, mapMembers]
  | (k, v) :: w :: ms, fuel + 1, rest, _, hv, hfuel => by
    simp only [printMembers, List.length_append, List.length_cons] at hfuel
    obtain ⟨body, hb, hkey⟩ := hq k
    have hread := readValue_print hq v fuel
      (',' :: (printMembers quote (w :: ms) ++ '}' :: rest)) hv.1 (by omega)
      (by simp [Closes])
    have htail := readMembers_print hq (w :: ms) fuel rest (by simp) hv.2 (by omega)
    simp [printMembers, readMembers, hb, hkey, hread, htail, skipSpace_cons, isSpace, mapMembers]

end

/-- What was printed parses as the value it was printed from. -/
theorem parse_printed (hq : Spelt quote f) {v : Json S} (hv : Numerals v) :
    parse (v.print quote) = some (v.mapStr f) := by
  have hclose : Closes [] := by simp [Closes]
  have hread := readValue_print hq v ((v.print quote).length + 1) [] hv (by omega) hclose
  rw [List.append_nil] at hread
  rw [parse, hread]
  simp [skipSpace]

theorem spelt_quote : Spelt JsString.quote id := readString_quote

theorem parse_print {v : Json JsString} (hv : Numerals v) :
    parse (v.print JsString.quote) = some v := by
  rw [parse_printed spelt_quote hv, mapStr_id]

theorem print_injective {v w : Json JsString} (hv : Numerals v) (hw : Numerals w)
    (h : v.print JsString.quote = w.print JsString.quote) : v = w := by
  have hread := parse_print hv
  rw [h, parse_print hw] at hread
  exact (Option.some.inj hread).symm

/-! ### Reading what Go has marshalled -/

theorem units_escapeChar (html : Bool) (c : Char) :
    ∃ b, Spells (GoJson.escapeChar html c) ((Piece.char c).spelled b) ∧
      units ((Piece.char c).spelled b) = JsString.encodeChar c := by
  obtain ⟨b, hb⟩ := GoJson.escapeChar_spells html c
  by_cases hsmall : c.toNat < 0x10000
  · refine ⟨b, hb, ?_⟩
    cases b with
    | false => rfl
    | true => simp [Piece.spelled, units, JsString.encodeChar, hsmall]
  · have hne : ∀ d : Char, d.toNat < 0x10000 → c ≠ d := by
      rintro d hd rfl
      exact hsmall hd
    have hplain : GoJson.escapeChar html c = [c] := by
      unfold GoJson.escapeChar
      rw [if_neg (not_or.mpr ⟨hne _ (by decide), hne _ (by decide)⟩), if_neg (hne _ (by decide)),
        if_neg (hne _ (by decide)), if_neg (hne _ (by decide)), if_neg (hne _ (by decide)),
        if_neg (hne _ (by decide)), if_neg ?_, if_neg (by omega)]
      rintro (h | ⟨-, h | h | h⟩)
      · omega
      all_goals exact hne _ (by decide) h
    refine ⟨false, ?_, rfl⟩
    rw [hplain]
    exact spells_self (hne _ (by decide)) (hne _ (by decide)) (by omega)

/-- JavaScript reads a literal of Go as the string that was written. -/
theorem spelt_go (html : Bool) : Spelt (GoJson.quote html) JsString.ofString := by
  intro s
  refine ⟨_, rfl, fun rest => ?_⟩
  choose b hb hunits using units_escapeChar html
  have hscan := @scanString_flatMap _ _ _ s.toList (fun c _ => hb c) rest
  rw [List.append_assoc, List.singleton_append, readString, hscan, Option.map_some,
    List.flatMap_map]
  simp only [hunits]
  rfl

/-- What Go marshals is read in JavaScript as the value that was marshalled. -/
theorem parse_marshal {v : Json String} (hv : Numerals v) :
    parse (GoJson.marshal v) = some (v.mapStr JsString.ofString) :=
  parse_printed (spelt_go true) hv

end JsParse
end Dap
