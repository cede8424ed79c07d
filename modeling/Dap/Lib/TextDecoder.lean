import Dap.Lib.JsString

/-! How a JavaScript runtime turns bytes into text and base64 into bytes: `TextDecoder` with its
default options, and `Buffer.from(s, 'base64')`. -/
namespace Dap
namespace Bytes

/-! ### UTF-8 -/

/-- A character whose first bytes were read: its bits so far, the bytes it still needs, and the
bounds of the next one. -/
structure Pending where
  codePoint : ℕ
  needed : ℕ
  lower : ℕ := 0x80
  upper : ℕ := 0xBF

/-- A byte between two characters. -/
def lead (b : ℕ) : List Char × Option Pending :=
  if b < 0x80 then ([Char.ofNat b], none)
  else if 0xC2 ≤ b ∧ b < 0xE0 then ([], some { codePoint := b % 32, needed := 1 })
  else if 0xE0 ≤ b ∧ b < 0xF0 then
    ([], some
      { codePoint := b % 16
        needed := 2
        lower := if b = 0xE0 then 0xA0 else 0x80
        upper := if b = 0xED then 0x9F else 0xBF })
  else if 0xF0 ≤ b ∧ b < 0xF5 then
    ([], some
      { codePoint := b % 8
        needed := 3
        lower := if b = 0xF0 then 0x90 else 0x80
        upper := if b = 0xF4 then 0x8F else 0xBF })
  else ([Json.replacement], none)

/-- The UTF-8 decoder of the encoding standard: a byte that cannot go on with the pending character
replaces it, and is read again as a first byte. -/
def decodeUtf8 : Option Pending → Bytes → List Char
  | none, [] => []
  | some _, [] => [Json.replacement]
  | none, b :: bs => (lead b.toNat).1 ++ decodeUtf8 (lead b.toNat).2 bs
  | some p, b :: bs =>
    if p.lower ≤ b.toNat ∧ b.toNat ≤ p.upper then
      let codePoint := p.codePoint * 64 + b.toNat % 64
      if p.needed = 1 then Char.ofNat codePoint :: decodeUtf8 none bs
      else decodeUtf8 (some { codePoint, needed := p.needed - 1 }) bs
    else Json.replacement :: ((lead b.toNat).1 ++ decodeUtf8 (lead b.toNat).2 bs)

def byteOrderMark : Char := Char.ofNat 0xFEFF

/-- `ignoreBOM` is false: one mark in front of the text is dropped. -/
def dropByteOrderMark : List Char → List Char
  | [] => []
  | c :: cs => if c = byteOrderMark then cs else c :: cs

/-- `new TextDecoder().decode(bs)`. -/
def textDecode (bs : Bytes) : JsString := JsString.ofChars (dropByteOrderMark (decodeUtf8 none bs))

theorem decodeUtf8_one {n : ℕ} (h : n < 0x80) (rest : Bytes) :
    decodeUtf8 none (UInt8.ofNat n :: rest) = Char.ofNat n :: decodeUtf8 none rest := by
  have hn : (UInt8.ofNat n).toNat = n := by
    rw [UInt8.toNat_ofNat']
    omega
  rw [decodeUtf8, hn, lead, if_pos h]
  rfl

theorem decodeUtf8_two {n : ℕ} (hlo : 0x80 ≤ n) (hhi : n < 0x800) (rest : Bytes) :
    decodeUtf8 none (UInt8.ofNat (n / 64 % 32 + 0xC0) :: UInt8.ofNat (n % 64 + 0x80) :: rest) =
      Char.ofNat n :: decodeUtf8 none rest := by
  have ha : (UInt8.ofNat (n / 64 % 32 + 0xC0)).toNat = n / 64 + 0xC0 := by
    rw [UInt8.toNat_ofNat']
    omega
  have hb : (UInt8.ofNat (n % 64 + 0x80)).toNat = n % 64 + 0x80 := by
    rw [UInt8.toNat_ofNat']
    omega
  have hlead : lead (n / 64 + 0xC0) = ([], some { codePoint := n / 64, needed := 1 }) := by
    rw [lead, if_neg (by omega), if_pos (by omega)]
    congr 3
    omega
  have hvalue : n / 64 * 64 + (n % 64 + 0x80) % 64 = n := by omega
  rw [decodeUtf8, ha, hlead]
  simp only [List.nil_append, decodeUtf8, hb]
  rw [if_pos (by omega), if_true, hvalue]

theorem decodeUtf8_three {n : ℕ} (hlo : 0x800 ≤ n) (hhi : n < 0x10000)
    (hscalar : n < 0xD800 ∨ 0xDFFF < n) (rest : Bytes) :
    decodeUtf8 none (UInt8.ofNat (n / 4096 % 16 + 0xE0) :: UInt8.ofNat (n / 64 % 64 + 0x80) ::
        UInt8.ofNat (n % 64 + 0x80) :: rest) = Char.ofNat n :: decodeUtf8 none rest := by
  have ha : (UInt8.ofNat (n / 4096 % 16 + 0xE0)).toNat = n / 4096 + 0xE0 := by
    rw [UInt8.toNat_ofNat']
    omega
  have hb : (UInt8.ofNat (n / 64 % 64 + 0x80)).toNat = n / 64 % 64 + 0x80 := by
    rw [UInt8.toNat_ofNat']
    omega
  have hc : (UInt8.ofNat (n % 64 + 0x80)).toNat = n % 64 + 0x80 := by
    rw [UInt8.toNat_ofNat']
    omega
  have hvalue : ((n / 4096 + 0xE0) % 16 * 64 + (n / 64 % 64 + 0x80) % 64) * 64 +
      (n % 64 + 0x80) % 64 = n := by omega
  rw [decodeUtf8, ha, lead, if_neg (by omega), if_neg (by omega), if_pos (by omega)]
  simp only [List.nil_append, decodeUtf8, hb, hc]
  rw [if_pos, if_neg (by decide), if_pos (by omega), if_pos (by decide), hvalue]
  constructor
  · split <;> omega
  · split <;> omega

theorem decodeUtf8_four {n : ℕ} (hlo : 0x10000 ≤ n) (hhi : n < 0x110000) (rest : Bytes) :
    decodeUtf8 none (UInt8.ofNat (n / 262144 % 8 + 0xF0) :: UInt8.ofNat (n / 4096 % 64 + 0x80) ::
        UInt8.ofNat (n / 64 % 64 + 0x80) :: UInt8.ofNat (n % 64 + 0x80) :: rest) =
      Char.ofNat n :: decodeUtf8 none rest := by
  have ha : (UInt8.ofNat (n / 262144 % 8 + 0xF0)).toNat = n / 262144 + 0xF0 := by
    rw [UInt8.toNat_ofNat']
    omega
  have hb : (UInt8.ofNat (n / 4096 % 64 + 0x80)).toNat = n / 4096 % 64 + 0x80 := by
    rw [UInt8.toNat_ofNat']
    omega
  have hc : (UInt8.ofNat (n / 64 % 64 + 0x80)).toNat = n / 64 % 64 + 0x80 := by
    rw [UInt8.toNat_ofNat']
    omega
  have hd : (UInt8.ofNat (n % 64 + 0x80)).toNat = n % 64 + 0x80 := by
    rw [UInt8.toNat_ofNat']
    omega
  have hvalue : (((n / 262144 + 0xF0) % 8 * 64 + (n / 4096 % 64 + 0x80) % 64) * 64 +
      (n / 64 % 64 + 0x80) % 64) * 64 + (n % 64 + 0x80) % 64 = n := by omega
  rw [decodeUtf8, ha, lead, if_neg (by omega), if_neg (by omega), if_neg (by omega),
    if_pos (by omega)]
  simp only [List.nil_append, decodeUtf8, hb, hc, hd]
  rw [if_pos, if_neg (by decide), if_pos (by omega), if_neg (by decide), if_pos (by omega),
    if_pos (by decide), hvalue]
  constructor
  · split <;> omega
  · split <;> omega

theorem decodeUtf8_char (c : Char) (rest : Bytes) :
    decodeUtf8 none (String.utf8EncodeChar c ++ rest) = c :: decodeUtf8 none rest := by
  have hvalid : c.toNat < 0xD800 ∨ 0xDFFF < c.toNat ∧ c.toNat < 0x110000 := c.valid
  have hback := Char.ofNat_toNat c
  have hval : c.val.toNat = c.toNat := rfl
  unfold String.utf8EncodeChar
  conv_rhs => rw [← hback]
  dsimp only
  rw [hval]
  by_cases h1 : c.toNat ≤ 0x7f
  · rw [if_pos h1]
    exact decodeUtf8_one (by omega) rest
  rw [if_neg h1]
  by_cases h2 : c.toNat ≤ 0x7ff
  · rw [if_pos h2]
    exact decodeUtf8_two (by omega) (by omega) rest
  rw [if_neg h2]
  by_cases h3 : c.toNat ≤ 0xffff
  · rw [if_pos h3]
    exact decodeUtf8_three (by omega) (by omega) (by omega) rest
  · rw [if_neg h3]
    exact decodeUtf8_four (by omega) (by omega) rest

/-- The decoder undoes the encoder. -/
theorem decodeUtf8_utf8 (cs : List Char) : decodeUtf8 none (utf8 cs) = cs := by
  induction cs with
  | nil => rfl
  | cons c cs ih =>
    change decodeUtf8 none (String.utf8EncodeChar c ++ utf8 cs) = c :: cs
    rw [decodeUtf8_char, ih]

/-- A text comes back whole unless it begins with a byte order mark. -/
theorem dropByteOrderMark_eq_self_iff (cs : List Char) :
    dropByteOrderMark cs = cs ↔ cs.head? ≠ some byteOrderMark := by
  cases cs with
  | nil => simp [dropByteOrderMark]
  | cons c cs =>
    rw [dropByteOrderMark, List.head?_cons, ne_eq, Option.some.injEq]
    split
    next h => simp [h]
    next h => simp [h]

/-! ### Base64 -/

/-- Both alphabets are understood. -/
def bufferDigit (c : Char) : Option ℕ :=
  if c = '-' then some 62 else if c = '_' then some 63 else base64Value c

/-- Groups of four digits; what the last one lacks is not an error. -/
def joinDigits : List ℕ → Bytes
  | a :: b :: c :: d :: rest =>
    let n := a * 262144 + b * 4096 + c * 64 + d
    UInt8.ofNat (n / 65536) :: UInt8.ofNat (n / 256 % 256) :: UInt8.ofNat (n % 256) ::
      joinDigits rest
  | [a, b, c] =>
    let n := (a * 4096 + b * 64 + c) / 4
    [UInt8.ofNat (n / 256), UInt8.ofNat (n % 256)]
  | [a, b] => [UInt8.ofNat ((a * 64 + b) / 16)]
  | _ => []

/-- `Buffer.from(s, 'base64')`: it ends at the first `=`, and skips whatever is no digit. -/
def bufferDecode (s : JsString) : Bytes :=
  joinDigits ((s.scalars.toList.takeWhile (· ≠ '=')).filterMap bufferDigit)

def digitsOf (cs : List Char) : List ℕ := (cs.takeWhile (· ≠ '=')).filterMap bufferDigit

theorem bufferDigit_base64Digit {n : ℕ} (h : n < 64) :
    base64Digit n ≠ '=' ∧ bufferDigit (base64Digit n) = some n := by
  have hall : ∀ i : Fin 64, base64Digit i ≠ '=' ∧ bufferDigit (base64Digit i) = some i.val := by
    decide
  exact hall ⟨n, h⟩

theorem digitsOf_cons {n : ℕ} (h : n < 64) (cs : List Char) :
    digitsOf (base64Digit n :: cs) = n :: digitsOf cs := by
  obtain ⟨hne, hdigit⟩ := bufferDigit_base64Digit h
  simp [digitsOf, hne, hdigit]

theorem joinDigits_base64 (bs : Bytes) : joinDigits (digitsOf (base64Std bs)) = bs := by
  unfold base64Std
  induction bs using base64.induct with
  | case1 => rfl
  | case2 a =>
    have ha := a.toNat_lt
    simp only [base64, List.cons_append, List.nil_append]
    rw [digitsOf_cons (by omega), digitsOf_cons (by omega)]
    have hend : digitsOf ['=', '='] = [] := rfl
    have hvalue : (a.toNat * 16 / 64 * 64 + a.toNat * 16 % 64) / 16 = a.toNat := by omega
    rw [hend, joinDigits, hvalue, UInt8.ofNat_toNat]
  | case3 a b =>
    have ha := a.toNat_lt
    have hb := b.toNat_lt
    simp only [base64, List.cons_append, List.nil_append]
    obtain ⟨n, hn⟩ : ∃ n, n = a.toNat * 256 + b.toNat := ⟨_, rfl⟩
    rw [← hn, digitsOf_cons (by omega), digitsOf_cons (by omega), digitsOf_cons (by omega)]
    have hend : digitsOf ['='] = [] := rfl
    have hvalue : (n * 4 / 4096 * 4096 + n * 4 / 64 % 64 * 64 + n * 4 % 64) / 4 = n := by omega
    have hfirst : n / 256 = a.toNat := by omega
    have hsecond : n % 256 = b.toNat := by omega
    rw [hend, joinDigits]
    simp only [hvalue, hfirst, hsecond, UInt8.ofNat_toNat]
  | case4 a b c rest ih =>
    have ha := a.toNat_lt
    have hb := b.toNat_lt
    have hc := c.toNat_lt
    rw [base64]
    obtain ⟨n, hn⟩ : ∃ n, n = a.toNat * 65536 + b.toNat * 256 + c.toNat := ⟨_, rfl⟩
    simp only [← hn]
    rw [digitsOf_cons (by omega), digitsOf_cons (by omega), digitsOf_cons (by omega),
      digitsOf_cons (by omega), joinDigits, ih]
    have hvalue : n / 262144 * 262144 + n / 4096 % 64 * 4096 + n / 64 % 64 * 64 + n % 64 = n := by
      omega
    have hfirst : n / 65536 = a.toNat := by omega
    have hsecond : n / 256 % 256 = b.toNat := by omega
    have hthird : n % 256 = c.toNat := by omega
    simp only [hvalue, hfirst, hsecond, hthird, UInt8.ofNat_toNat]

/-- Node reads back the base64 it writes. -/
theorem bufferDecode_base64Std (bs : Bytes) :
    bufferDecode (JsString.ofChars (base64Std bs)) = bs := by
  rw [bufferDecode, JsString.scalars_ofChars, String.toList_ofList]
  exact joinDigits_base64 bs

end Bytes
end Dap
