import Dap.Lib.GoJson
import Dap.Lib.JsonText

/-! JavaScript strings, the way `JSON.stringify` quotes them, and where that differs from the way Go
quotes the string it reads back. -/
namespace Dap

/-! ### Literals and what they spell -/

namespace Json

theorem scanString_close (rest : List Char) : scanString ('"' :: rest) = some ([], rest) := by
  rw [scanString.eq_def]
  simp

/-- `cs` stands for the single piece `p` inside a literal. -/
def Spells (cs : List Char) (p : Piece) : Prop :=
  ∀ rest, scanString (cs ++ rest) = (scanString rest).map fun x => (p :: x.1, x.2)

theorem scanString_flatMap {α : Type} {write : α → List Char} {piece : α → Piece} {xs : List α}
    (h : ∀ x ∈ xs, Spells (write x) (piece x)) (rest : List Char) :
    scanString (xs.flatMap write ++ '"' :: rest) = some (xs.map piece, rest) := by
  induction xs with
  | nil => exact scanString_close rest
  | cons x xs ih =>
    have hx := h x (by simp) (xs.flatMap write ++ '"' :: rest)
    rw [List.flatMap_cons, List.append_assoc, hx, ih fun y hy => h y (List.mem_cons_of_mem _ hy)]
    rfl

theorem spells_self {c : Char} (hquote : c ≠ '"') (hslash : c ≠ '\\') (hctl : 0x20 ≤ c.toNat) :
    Spells [c] (.char c) := by
  intro rest
  have hlow : ¬ c.toNat < 0x20 := by omega
  rw [List.singleton_append, scanString.eq_def]
  dsimp only
  rw [if_neg hquote, if_neg hslash, if_neg hlow]
  cases scanString rest <;> rfl

theorem spells_short {e c : Char} (hu : e ≠ 'u') (h : shortEscape e = some c) :
    Spells ['\\', e] (.char c) := by
  intro rest
  rw [List.cons_append, List.singleton_append, scanString.eq_def]
  dsimp only
  rw [if_neg (by decide), if_pos rfl, if_neg hu, h]
  cases scanString rest <;> rfl

theorem hexValue_hexDigit {n : ℕ} (h : n < 16) : hexValue (Bytes.hexDigit n) = some n := by
  have hall : ∀ i : Fin 16, hexValue (Bytes.hexDigit i) = some i.val := by decide
  exact hall ⟨n, h⟩

/-- `\u` and four lowercase digits. -/
def unitEscape (u : ℕ) : List Char :=
  ['\\', 'u', Bytes.hexDigit (u / 4096), Bytes.hexDigit (u / 256 % 16),
    Bytes.hexDigit (u / 16 % 16), Bytes.hexDigit (u % 16)]

theorem spells_unit {u : ℕ} (h : u < 0x10000) : Spells (unitEscape u) (.unit u) := by
  intro rest
  have hquad : hexQuad (Bytes.hexDigit (u / 4096)) (Bytes.hexDigit (u / 256 % 16))
      (Bytes.hexDigit (u / 16 % 16)) (Bytes.hexDigit (u % 16)) = some u := by
    simp only [hexQuad, hexValue_hexDigit (by omega : u / 4096 < 16),
      hexValue_hexDigit (by omega : u / 256 % 16 < 16),
      hexValue_hexDigit (by omega : u / 16 % 16 < 16), hexValue_hexDigit (by omega : u % 16 < 16)]
    change some (u / 4096 * 4096 + u / 256 % 16 * 256 + u / 16 % 16 * 16 + u % 16) = some u
    congr 1
    omega
  simp only [unitEscape, List.cons_append, List.nil_append]
  rw [scanString.eq_def]
  dsimp only
  rw [if_neg (by decide), if_pos rfl, if_pos rfl, hquad]
  cases scanString rest <;> rfl

/-- The character a piece stands for when it joins no pair. -/
def Piece.value : Piece → Char
  | .char c => c
  | .unit u => unitChar u

/-- A high surrogate directly before a low one. -/
def Piece.pairs : Piece → Piece → Bool
  | .unit u, .unit v => isHigh u && isLow v
  | _, _ => false

theorem joinPieces_eq_map {ps : List Piece} (h : ps.IsChain fun p q => p.pairs q = false) :
    joinPieces ps = ps.map Piece.value := by
  induction ps with
  | nil => rfl
  | cons p ps ih =>
    have htail := ih h.tail
    cases p with
    | char c => rw [joinPieces, htail]; rfl
    | unit u =>
      cases ps with
      | nil => rfl
      | cons q ps =>
        cases q with
        | char c =>
          rw [joinPieces, htail]
          · rfl
          · simp
        | unit v =>
          have hpair : (isHigh u && isLow v) = false := (List.isChain_cons_cons.mp h).1
          rw [joinPieces, hpair, htail]
          rfl

/-- The piece itself, or its `\u` escape. -/
def Piece.spelled (asUnit : Bool) : Piece → Piece
  | .char c => if asUnit then .unit c.toNat else .char c
  | .unit u => .unit u

theorem char_not_surrogate (c : Char) : isHigh c.toNat = false ∧ isLow c.toNat = false := by
  have hvalid : c.toNat < 0xD800 ∨ 0xDFFF < c.toNat ∧ c.toNat < 0x110000 := c.valid
  simp only [isHigh, isLow, decide_eq_false_iff_not]
  omega

theorem Piece.value_spelled (b : Bool) (p : Piece) : (p.spelled b).value = p.value := by
  cases p with
  | unit u => rfl
  | char c =>
    obtain ⟨hhigh, hlow⟩ := char_not_surrogate c
    cases b with
    | false => rfl
    | true => simp [spelled, value, unitChar, hhigh, hlow]

theorem Piece.pairs_spelled (b b' : Bool) (p q : Piece) :
    (p.spelled b).pairs (q.spelled b') = p.pairs q := by
  cases p with
  | unit u =>
    cases q with
    | unit v => rfl
    | char d => cases b' <;> simp [spelled, pairs, char_not_surrogate d]
  | char c =>
    cases q with
    | unit v => cases b <;> simp [spelled, pairs, char_not_surrogate c]
    | char d => cases b <;> cases b' <;> simp [spelled, pairs, char_not_surrogate c]

/-- What a literal reads back as, when each of its points is spelled by itself. -/
theorem readString_literal {α : Type} {write : α → List Char} {point : α → Piece} {xs : List α}
    (hwrite : ∀ x, ∃ b, Spells (write x) ((point x).spelled b))
    (hchain : (xs.map point).IsChain fun p q => p.pairs q = false) (rest : List Char) :
    readString (xs.flatMap write ++ '"' :: rest) =
      some (String.ofList (xs.map fun x => (point x).value), rest) := by
  choose b hb using hwrite
  have hpieces : (xs.map fun x => (point x).spelled (b x)).IsChain
      fun p q => p.pairs q = false := by
    rw [List.isChain_map] at hchain ⊢
    exact hchain.imp fun x y h => (Piece.pairs_spelled _ _ _ _).trans h
  rw [readString, scanString_flatMap fun x _ => hb x]
  simp [joinPieces_eq_map hpieces, Function.comp_def, Piece.value_spelled]

end Json

/-! ### Go -/

namespace GoJson

open Json

theorem unitEscape_latin {n : ℕ} (h : n < 256) :
    unitEscape n = ['\\', 'u', '0', '0', Bytes.hexDigit (n / 16), Bytes.hexDigit (n % 16)] := by
  have h1 : n / 4096 = 0 := by omega
  have h2 : n / 256 % 16 = 0 := by omega
  have h3 : n / 16 % 16 = n / 16 := by omega
  rw [unitEscape, h1, h2, h3]
  rfl

theorem escapeChar_spells (html : Bool) (c : Char) :
    ∃ b, Spells (escapeChar html c) ((Piece.char c).spelled b) := by
  unfold escapeChar
  split
  next h => exact ⟨false, by rcases h with rfl | rfl <;> exact spells_short (by decide) rfl⟩
  split
  next h => exact ⟨false, h ▸ spells_short (by decide) rfl⟩
  split
  next h => exact ⟨false, h ▸ spells_short (by decide) rfl⟩
  split
  next h => exact ⟨false, h ▸ spells_short (by decide) rfl⟩
  split
  next h => exact ⟨false, h ▸ spells_short (by decide) rfl⟩
  split
  next h => exact ⟨false, h ▸ spells_short (by decide) rfl⟩
  split
  next h =>
    have hlt : c.toNat < 256 := by
      rcases h with h | ⟨-, rfl | rfl | rfl⟩
      · omega
      · decide
      · decide
      · decide
    rw [← unitEscape_latin hlt]
    exact ⟨true, spells_unit (by omega)⟩
  next hctl =>
    split
    next h =>
      have hunit : unitEscape c.toNat =
          ['\\', 'u', '2', '0', '2', Bytes.hexDigit (c.toNat % 16)] := by
        rcases h with h | h <;> rw [unitEscape, h] <;> rfl
      rw [← hunit]
      exact ⟨true, spells_unit (by omega)⟩
    next => exact ⟨false, spells_self (by tauto) (by tauto) (by omega)⟩

theorem quotes (html : Bool) : Quotes (quote html) id := by
  intro s
  refine ⟨_, rfl, fun rest => ?_⟩
  have hchain : (s.toList.map Piece.char).IsChain fun p q => p.pairs q = false := by
    rw [List.isChain_map]
    exact (List.pairwise_of_forall fun _ _ => rfl).isChain
  have hread := readString_literal (escapeChar_spells html) hchain rest
  simpa [Piece.value] using hread

theorem digitsValue_toDigits (n : ℕ) : digitsValue (Nat.toDigits 10 n) = n := by
  have hfold : digitsValue (Nat.toDigits 10 n) = Nat.ofDigitChars 10 (Nat.toDigits 10 n) 0 := by
    rw [Nat.ofDigitChars_eq_foldl, digitsValue]
    congr 1
    funext a c
    rw [mul_comm]
    rfl
  rw [hfold, Nat.ofDigitChars_ten_toDigits]

theorem parseInt_toString {n : ℤ} (hlo : -2 ^ 63 ≤ n) (hhi : n < 2 ^ 63) :
    parseInt (toString n) = some (Int64.ofInt n) := by
  have hall : (Nat.toDigits 10 n.natAbs).all isDigit = true :=
    List.all_eq_true.mpr fun c => isDigit_toDigits
  have hne := Nat.toDigits_ne_nil (n := n.natAbs) (b := 10)
  unfold parseInt
  rw [toList_toString]
  by_cases hn : 0 ≤ n
  · have habs : (n.natAbs : ℤ) = n := by omega
    rw [if_pos hn]
    cases hd : Nat.toDigits 10 n.natAbs with
    | nil => exact absurd hd hne
    | cons c cs =>
      have hc : c ≠ '-' := by
        rintro rfl
        exact absurd (isDigit_toDigits (n := n.natAbs) (c := '-') (by simp [hd])) (by decide)
      have hval := digitsValue_toDigits n.natAbs
      rw [hd] at hall hval
      split
      next heq =>
        split at heq
        next hcons => exact absurd (List.cons.inj hcons).1 hc
        next =>
          obtain ⟨rfl, rfl⟩ := Prod.mk.inj heq
          rw [if_pos ⟨by simp, hall⟩]
          simp only [Bool.false_eq_true, if_false, hval, habs]
          exact if_pos ⟨hlo, hhi⟩
  · have habs : -(n.natAbs : ℤ) = n := by omega
    rw [if_neg hn]
    dsimp only
    rw [if_pos ⟨hne, hall⟩]
    simp only [if_true, digitsValue_toDigits, habs]
    exact if_pos ⟨hlo, hhi⟩

theorem formatInt_ofInt {n : ℤ} (hlo : -2 ^ 63 ≤ n) (hhi : n < 2 ^ 63) :
    formatInt (Int64.ofInt n) = toString n := by
  rw [formatInt, Int64.toInt_ofInt_of_le (by simpa using hlo) (by simpa using hhi)]

end GoJson

/-! ### JavaScript -/

/-- UTF-16 code units. -/
abbrev JsString := List UInt16

instance : LawfulBEq JsString := inferInstance

/-- What a JavaScript string is made of: scalar values and unpaired surrogates. -/
inductive CodePoint where
  | scalar (c : Char)
  | lone (u : UInt16) (surrogate : (Json.isHigh u.toNat || Json.isLow u.toNat) = true)
  deriving DecidableEq

namespace CodePoint

open Json

def ofUnit (u : UInt16) : CodePoint :=
  if h : (isHigh u.toNat || isLow u.toNat) = true then .lone u h else .scalar (Char.ofNat u.toNat)

/-- `QuoteJSONString` on one code point. -/
def escape : CodePoint → List Char
  | .scalar c =>
    if c = '"' ∨ c = '\\' then ['\\', c]
    else if c = Char.ofNat 8 then ['\\', 'b']
    else if c = Char.ofNat 12 then ['\\', 'f']
    else if c = '\n' then ['\\', 'n']
    else if c = '\r' then ['\\', 'r']
    else if c = '\t' then ['\\', 't']
    else if c.toNat < 0x20 then unitEscape c.toNat
    else [c]
  | .lone u _ => unitEscape u.toNat

def piece : CodePoint → Piece
  | .scalar c => .char c
  | .lone u _ => .unit u.toNat

/-- Quoted alike by both sides: no line or paragraph separator, no unpaired surrogate. -/
def portable : CodePoint → Bool
  | .scalar c => c.toNat ≠ 0x2028 ∧ c.toNat ≠ 0x2029
  | .lone _ _ => false

theorem escape_spells (p : CodePoint) : ∃ b, Spells p.escape (p.piece.spelled b) := by
  cases p with
  | lone u _ => exact ⟨false, spells_unit u.toNat_lt⟩
  | scalar c =>
    unfold escape
    dsimp only
    split
    next h => exact ⟨false, by rcases h with rfl | rfl <;> exact spells_short (by decide) rfl⟩
    split
    next h => exact ⟨false, h ▸ spells_short (by decide) rfl⟩
    split
    next h => exact ⟨false, h ▸ spells_short (by decide) rfl⟩
    split
    next h => exact ⟨false, h ▸ spells_short (by decide) rfl⟩
    split
    next h => exact ⟨false, h ▸ spells_short (by decide) rfl⟩
    split
    next h => exact ⟨false, h ▸ spells_short (by decide) rfl⟩
    split
    next h => exact ⟨true, spells_unit (by omega)⟩
    next => exact ⟨false, spells_self (by tauto) (by tauto) (by omega)⟩

/-- The character the hub reads for a code point. -/
def value (p : CodePoint) : Char := p.piece.value

theorem escape_of_portable {p : CodePoint} (h : p.portable = true) :
    p.escape = GoJson.escapeChar false p.value := by
  cases p with
  | lone u hu => exact absurd h (by simp [portable])
  | scalar c =>
    have hsep : ¬ (c.toNat = 0x2028 ∨ c.toNat = 0x2029) := by
      simp only [portable, ne_eq, decide_eq_true_eq] at h
      omega
    change escape (.scalar c) = GoJson.escapeChar false c
    unfold escape GoJson.escapeChar
    dsimp only
    by_cases hctl : c.toNat < 0x20
    · simp only [hctl, true_or, if_true, GoJson.unitEscape_latin (by omega : c.toNat < 256)]
    · simp only [hctl, hsep, Bool.false_eq_true, false_and, false_or, if_false]

/-- Elsewhere one side writes an escape and the other the character itself. -/
theorem escape_append_ne {p : CodePoint} (h : p.portable = false) (t t' : List Char) :
    p.escape ++ t ≠ GoJson.escapeChar false p.value ++ t' := by
  intro heq
  have hhead := congrArg List.head? heq
  cases p with
  | lone u hu =>
    have hvalue : (CodePoint.lone u hu).value = replacement := by
      simp only [value, piece, Piece.value, unitChar, hu, if_true]
    have hraw : GoJson.escapeChar false replacement = [replacement] := by decide
    rw [hvalue, hraw] at hhead
    change some '\\' = some replacement at hhead
    exact absurd hhead (by decide)
  | scalar c =>
    have hsep : c.toNat = 0x2028 ∨ c.toNat = 0x2029 := by
      simp only [portable, ne_eq, decide_eq_false_iff_not] at h
      omega
    have hescapes : (scalar c).escape = [c] ∧ GoJson.escapeChar false c =
        ['\\', 'u', '2', '0', '2', Bytes.hexDigit (c.toNat % 16)] ∧ c ≠ '\\' := by
      rcases hsep with hc | hc
      · obtain rfl : c = Char.ofNat 0x2028 := by rw [← hc, Char.ofNat_toNat]
        decide
      · obtain rfl : c = Char.ofNat 0x2029 := by rw [← hc, Char.ofNat_toNat]
        decide
    obtain ⟨hjs, hgo, hne⟩ := hescapes
    change (escape (.scalar c) ++ t).head? = (GoJson.escapeChar false c ++ t').head? at hhead
    rw [hjs, hgo] at hhead
    exact hne (Option.some.inj hhead)

end CodePoint

namespace JsString

open Json

def codePoints : JsString → List CodePoint
  | [] => []
  | [u] => [.ofUnit u]
  | u :: v :: rest =>
    if isHigh u.toNat && isLow v.toNat then .scalar (pairChar u.toNat v.toNat) :: codePoints rest
    else .ofUnit u :: codePoints (v :: rest)

/-- `JSON.stringify` of a string. -/
def quote (s : JsString) : List Char := '"' :: (s.codePoints.flatMap CodePoint.escape ++ ['"'])

/-- The string that `TextEncoder` encodes, or that a reader of the quoted string sees. -/
def scalars (s : JsString) : String := String.ofList (s.codePoints.map CodePoint.value)

def encodeChar (c : Char) : JsString :=
  if c.toNat < 0x10000 then [UInt16.ofNat c.toNat]
  else [UInt16.ofNat (0xD800 + (c.toNat - 0x10000) / 1024),
    UInt16.ofNat (0xDC00 + (c.toNat - 0x10000) % 1024)]

def ofChars (cs : List Char) : JsString := cs.flatMap encodeChar

def ofString (s : String) : JsString := ofChars s.toList

def portable (s : JsString) : Bool := s.codePoints.all CodePoint.portable

theorem codePoints_cons_not_high {u : UInt16} (h : isHigh u.toNat = false) (rest : JsString) :
    codePoints (u :: rest) = .ofUnit u :: codePoints rest := by
  cases rest with
  | nil => rfl
  | cons v rest => simp [codePoints, h]

theorem codePoints_encodeChar (c : Char) (rest : JsString) :
    codePoints (encodeChar c ++ rest) = .scalar c :: codePoints rest := by
  obtain ⟨hhigh, hlow⟩ := char_not_surrogate c
  have hvalid : c.toNat < 0xD800 ∨ 0xDFFF < c.toNat ∧ c.toNat < 0x110000 := c.valid
  unfold encodeChar
  split
  next h =>
    have hu : (UInt16.ofNat c.toNat).toNat = c.toNat := by
      rw [UInt16.toNat_ofNat']
      omega
    rw [List.singleton_append, codePoints_cons_not_high (by rw [hu]; exact hhigh)]
    simp [CodePoint.ofUnit, hu, hhigh, hlow]
  next h =>
    have hu : (UInt16.ofNat (0xD800 + (c.toNat - 0x10000) / 1024)).toNat =
        0xD800 + (c.toNat - 0x10000) / 1024 := by
      rw [UInt16.toNat_ofNat']
      omega
    have hv : (UInt16.ofNat (0xDC00 + (c.toNat - 0x10000) % 1024)).toNat =
        0xDC00 + (c.toNat - 0x10000) % 1024 := by
      rw [UInt16.toNat_ofNat']
      omega
    have hpair : pairChar (0xD800 + (c.toNat - 0x10000) / 1024)
        (0xDC00 + (c.toNat - 0x10000) % 1024) = c := by
      have hn : 0x10000 + (0xD800 + (c.toNat - 0x10000) / 1024 - 0xD800) * 1024 +
          (0xDC00 + (c.toNat - 0x10000) % 1024 - 0xDC00) = c.toNat := by omega
      rw [pairChar, hn, Char.ofNat_toNat]
    have hh : isHigh (0xD800 + (c.toNat - 0x10000) / 1024) = true := by
      simp only [isHigh, decide_eq_true_eq]
      omega
    have hl : isLow (0xDC00 + (c.toNat - 0x10000) % 1024) = true := by
      simp only [isLow, decide_eq_true_eq]
      omega
    rw [List.cons_append, List.singleton_append, codePoints, hu, hv, hh, hl, hpair]
    rfl

@[simp] theorem codePoints_ofChars (cs : List Char) :
    codePoints (ofChars cs) = cs.map CodePoint.scalar := by
  induction cs with
  | nil => rfl
  | cons c cs ih =>
    rw [ofChars, List.flatMap_cons, codePoints_encodeChar, ← ofChars, ih, List.map_cons]

@[simp] theorem scalars_ofChars (cs : List Char) : scalars (ofChars cs) = String.ofList cs := by
  have hid : CodePoint.value ∘ CodePoint.scalar = id := rfl
  simp [scalars, hid]

@[simp] theorem scalars_ofString (s : String) : scalars (ofString s) = s := by
  simp [ofString]

theorem ofString_injective : Function.Injective ofString := fun a b h => by
  simpa using congrArg scalars h

/-- Text below U+0080 is quoted alike. -/
theorem portable_ofChars {cs : List Char} (h : ∀ c ∈ cs, c.toNat < 128) :
    (ofChars cs).portable = true := by
  rw [portable, codePoints_ofChars, List.all_map, List.all_eq_true]
  intro c hc
  have hlt := h c hc
  simp only [Function.comp_apply, CodePoint.portable, ne_eq, decide_eq_true_eq]
  omega

theorem ofString_append (a b : String) : ofString (a ++ b) = ofString a ++ ofString b := by
  simp [ofString, ofChars]

theorem codePoints_head (u : UInt16) (rest : JsString) : ∃ p ps,
    codePoints (u :: rest) = p :: ps ∧ (p = .ofUnit u ∨ ∃ c, p = .scalar c) := by
  cases rest with
  | nil => exact ⟨_, _, rfl, .inl rfl⟩
  | cons v rest =>
    rw [codePoints]
    split
    · exact ⟨_, _, rfl, .inr ⟨_, rfl⟩⟩
    · exact ⟨_, _, rfl, .inl rfl⟩

theorem pairs_ofUnit (u v : UInt16) : (CodePoint.ofUnit u).piece.pairs (CodePoint.ofUnit v).piece =
    (isHigh u.toNat && isLow v.toNat) := by
  unfold CodePoint.ofUnit
  split
  next hu =>
    split
    next hv => rfl
    next hv =>
      simp only [Bool.or_eq_true, not_or, Bool.not_eq_true] at hv
      simp [CodePoint.piece, Piece.pairs, hv]
  next hu =>
    simp only [Bool.or_eq_true, not_or, Bool.not_eq_true] at hu
    simp [CodePoint.piece, Piece.pairs, hu]

/-- No surrogate that could be joined to the next one is left unpaired. -/
theorem codePoints_isChain (s : JsString) :
    (s.codePoints.map CodePoint.piece).IsChain fun p q => p.pairs q = false := by
  induction s using codePoints.induct with
  | case1 => exact List.isChain_nil
  | case2 u => exact List.isChain_singleton _
  | case3 u v rest h ih =>
    rw [codePoints, if_pos h, List.map_cons]
    cases hps : (codePoints rest).map CodePoint.piece with
    | nil => exact List.isChain_singleton _
    | cons q qs => exact List.isChain_cons_cons.mpr ⟨rfl, hps ▸ ih⟩
  | case4 u v rest h ih =>
    rw [codePoints, if_neg h, List.map_cons]
    obtain ⟨p, ps, hps, hp⟩ := codePoints_head v rest
    rw [hps, List.map_cons] at ih ⊢
    refine List.isChain_cons_cons.mpr ⟨?_, ih⟩
    rcases hp with rfl | ⟨c, rfl⟩
    · rw [pairs_ofUnit]
      simpa using h
    · cases (CodePoint.ofUnit u).piece <;> rfl

theorem quotes : Quotes quote scalars := by
  intro s
  refine ⟨_, rfl, fun rest => ?_⟩
  have hread := readString_literal CodePoint.escape_spells s.codePoints_isChain rest
  rw [List.append_assoc, List.singleton_append, hread]
  rfl

theorem flatMap_escape_eq_iff (ps : List CodePoint) :
    ps.flatMap CodePoint.escape = (ps.map CodePoint.value).flatMap (GoJson.escapeChar false) ↔
      ps.all CodePoint.portable = true := by
  induction ps with
  | nil => simp
  | cons p ps ih =>
    rw [List.map_cons, List.flatMap_cons, List.flatMap_cons, List.all_cons, Bool.and_eq_true, ← ih]
    cases hp : p.portable with
    | true => simp [CodePoint.escape_of_portable hp]
    | false =>
      simp [CodePoint.escape_append_ne hp]

/-- `JSON.stringify` and Go's encoder quote a string alike exactly when it is portable. -/
theorem quote_eq_iff (s : JsString) :
    s.quote = GoJson.quote false s.scalars ↔ s.portable = true := by
  rw [quote, GoJson.quote, List.cons.injEq, List.append_left_inj, scalars, String.toList_ofList,
    flatMap_escape_eq_iff, portable]
  simp

/-- A scalar value separates what stands on its two sides. -/
theorem codePoints_append_char (s : JsString) (c : Char) (t : JsString) :
    codePoints (s ++ (encodeChar c ++ t)) = codePoints s ++ .scalar c :: codePoints t := by
  induction s using codePoints.induct with
  | case1 => exact codePoints_encodeChar c t
  | case2 u =>
    have hhead : ∃ v rest, encodeChar c ++ t = v :: rest ∧ isLow v.toNat = false := by
      obtain ⟨hhigh, hlow⟩ := char_not_surrogate c
      unfold encodeChar
      split
      next h =>
        refine ⟨_, _, rfl, ?_⟩
        rwa [UInt16.toNat_ofNat', Nat.mod_eq_of_lt (by omega)]
      next h =>
        have hvalid : c.toNat < 0xD800 ∨ 0xDFFF < c.toNat ∧ c.toNat < 0x110000 := c.valid
        refine ⟨_, _, rfl, ?_⟩
        rw [UInt16.toNat_ofNat', Nat.mod_eq_of_lt (by omega)]
        simp only [isLow, decide_eq_false_iff_not]
        omega
    obtain ⟨v, rest, hv, hlow⟩ := hhead
    have hsplit : codePoints (u :: v :: rest) = .ofUnit u :: codePoints (v :: rest) := by
      rw [codePoints, if_neg (by simp [hlow])]
    rw [List.singleton_append, hv, hsplit, ← hv, codePoints_encodeChar]
    rfl
  | case3 u v rest h ih =>
    rw [List.cons_append, List.cons_append, codePoints, if_pos h, ih, codePoints, if_pos h]
    rfl
  | case4 u v rest h ih =>
    rw [List.cons_append] at ih
    rw [List.cons_append, List.cons_append, codePoints, if_neg h, ih, codePoints, if_neg h]
    rfl

theorem scalars_append_char (s : JsString) (c : Char) (t : JsString) :
    scalars (s ++ (encodeChar c ++ t)) = scalars s ++ String.singleton c ++ scalars t := by
  rw [scalars, codePoints_append_char, ← String.toList_inj]
  simp [scalars, CodePoint.value, CodePoint.piece, Piece.value]

end JsString

end Dap
