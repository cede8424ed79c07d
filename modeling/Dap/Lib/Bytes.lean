import Mathlib.Tactic

/-! Byte strings: UTF-8, base64 and hexadecimal as the Go and Node runtimes have them. -/
namespace Dap

abbrev Bytes := List UInt8

namespace Bytes

/-! ### UTF-8 -/

def utf8 (cs : List Char) : Bytes := cs.flatMap String.utf8EncodeChar

/-- Decodes as a Go `range` over the bytes does: each byte that starts no valid encoding stands for
one U+FFFD. The counter skips the bytes of the character just read. -/
def runes : ℕ → Bytes → List Char
  | _, [] => []
  | skip + 1, _ :: bs => runes skip bs
  | 0, b :: bs =>
    match ((b :: bs).take 4).toByteArray.utf8DecodeChar? 0 with
    | some c => c :: runes (c.utf8Size - 1) bs
    | none => Char.ofNat 0xFFFD :: runes 0 bs

def utf8Len (cs : List Char) : ℕ := (cs.map Char.utf8Size).sum

theorem length_utf8 (cs : List Char) : (utf8 cs).length = utf8Len cs := by
  induction cs with
  | nil => rfl
  | cons c cs ih =>
    simp only [utf8, List.flatMap_cons, List.length_append, String.length_utf8EncodeChar] at ih ⊢
    simp only [utf8Len, List.map_cons, List.sum_cons] at ih ⊢
    omega

theorem runes_drop (skip : ℕ) (bs rest : Bytes) (h : bs.length = skip) :
    runes skip (bs ++ rest) = runes 0 rest := by
  induction bs generalizing skip with
  | nil => subst h; rfl
  | cons b bs ih => subst h; exact ih _ rfl

theorem runes_char (c : Char) (rest : Bytes) :
    runes 0 (String.utf8EncodeChar c ++ rest) = c :: runes 0 rest := by
  have hlen := String.length_utf8EncodeChar c
  have hle := Char.utf8Size_le_four c
  cases henc : String.utf8EncodeChar c with
  | nil =>
    rw [henc] at hlen
    have hpos := Char.utf8Size_pos c
    simp at hlen
    omega
  | cons b bs =>
    have hdec : ((b :: (bs ++ rest)).take 4).toByteArray.utf8DecodeChar? 0 = some c := by
      rw [← List.cons_append, ← henc, List.take_append,
        List.take_of_length_le (by omega), List.toByteArray_append]
      exact ByteArray.utf8DecodeChar?_utf8EncodeChar_append
    rw [henc] at hlen
    simp only [List.cons_append, runes, hdec]
    rw [runes_drop]
    simp only [List.length_cons] at hlen
    omega

/-- Decoding is a left inverse of encoding. -/
@[simp] theorem runes_utf8 (cs : List Char) : runes 0 (utf8 cs) = cs := by
  induction cs with
  | nil => rfl
  | cons c cs ih =>
    change runes 0 (String.utf8EncodeChar c ++ utf8 cs) = c :: cs
    rw [runes_char, ih]

/-! ### Base64 -/

def base64Digit (n : ℕ) : Char :=
  if n < 26 then Char.ofNat (65 + n)
  else if n < 52 then Char.ofNat (71 + n)
  else if n < 62 then Char.ofNat (n - 4)
  else if n = 62 then '+' else '/'

/-- The alphabet of `base64.RawURLEncoding`. -/
def base64UrlDigit (n : ℕ) : Char :=
  if n = 62 then '-' else if n = 63 then '_' else base64Digit n

/-- Three bytes become four digits; `pad` fills the last group. -/
def base64 (digit : ℕ → Char) (pad : List Char) : Bytes → List Char
  | [] => []
  | [a] =>
    let n := a.toNat * 16
    [digit (n / 64), digit (n % 64)] ++ pad ++ pad
  | [a, b] =>
    let n := (a.toNat * 256 + b.toNat) * 4
    [digit (n / 4096), digit (n / 64 % 64), digit (n % 64)] ++ pad
  | a :: b :: c :: rest =>
    let n := a.toNat * 65536 + b.toNat * 256 + c.toNat
    digit (n / 262144) :: digit (n / 4096 % 64) :: digit (n / 64 % 64) :: digit (n % 64) ::
      base64 digit pad rest

/-- `base64.StdEncoding.EncodeToString`, and `Buffer.toString('base64')`. -/
def base64Std (bs : Bytes) : List Char := base64 base64Digit ['='] bs

/-- `base64.RawURLEncoding.EncodeToString`. -/
def base64RawURL (bs : Bytes) : List Char := base64 base64UrlDigit [] bs

def base64Value (c : Char) : Option ℕ :=
  if 'A' ≤ c ∧ c ≤ 'Z' then some (c.toNat - 65)
  else if 'a' ≤ c ∧ c ≤ 'z' then some (c.toNat - 71)
  else if '0' ≤ c ∧ c ≤ '9' then some (c.toNat + 4)
  else if c = '+' then some 62
  else if c = '/' then some 63
  else none

/-- Groups of four digits; only the last may be padded, and spare bits are ignored. -/
def decodeGroups : List Char → Option Bytes
  | [] => some []
  | a :: b :: c :: d :: rest =>
    if c = '=' ∧ d = '=' ∧ rest = [] then do
      let a ← base64Value a
      let b ← base64Value b
      return [UInt8.ofNat ((a * 64 + b) / 16)]
    else if d = '=' ∧ rest = [] then do
      let a ← base64Value a
      let b ← base64Value b
      let c ← base64Value c
      let n := (a * 4096 + b * 64 + c) / 4
      return [UInt8.ofNat (n / 256), UInt8.ofNat (n % 256)]
    else do
      let a ← base64Value a
      let b ← base64Value b
      let c ← base64Value c
      let d ← base64Value d
      let n := a * 262144 + b * 4096 + c * 64 + d
      let bs ← decodeGroups rest
      return UInt8.ofNat (n / 65536) :: UInt8.ofNat (n / 256 % 256) :: UInt8.ofNat (n % 256) :: bs
  | _ => none

/-- `base64.StdEncoding.DecodeString`: line breaks are skipped. -/
def base64Decode (s : String) : Option Bytes :=
  decodeGroups (s.toList.filter fun c => c ≠ '\r' ∧ c ≠ '\n')

/-! ### Hexadecimal -/

def hexDigit (n : ℕ) : Char := if n < 10 then Char.ofNat (48 + n) else Char.ofNat (87 + n)

def hexChars (bs : Bytes) : List Char :=
  bs.flatMap fun b => [hexDigit (b.toNat / 16), hexDigit (b.toNat % 16)]

/-- `hex.EncodeToString`. -/
def hex (bs : Bytes) : String := String.ofList (hexChars bs)

theorem length_hexChars (bs : Bytes) : (hexChars bs).length = 2 * bs.length := by
  induction bs with
  | nil => rfl
  | cons b bs ih =>
    simp only [hexChars, List.flatMap_cons, List.length_append, List.length_cons,
      List.length_nil] at ih ⊢
    omega

private theorem hexDigit_injOn {m n : ℕ} (hm : m < 16) (hn : n < 16)
    (h : hexDigit m = hexDigit n) : m = n := by
  have hall : ∀ a b : Fin 16, hexDigit a = hexDigit b → a = b := by decide
  exact congrArg Fin.val (hall ⟨m, hm⟩ ⟨n, hn⟩ h)

theorem hexChars_injective : Function.Injective hexChars := by
  intro as
  induction as with
  | nil =>
    intro bs h
    cases bs with
    | nil => rfl
    | cons b bs => simp [hexChars] at h
  | cons a as ih =>
    intro bs h
    cases bs with
    | nil => simp [hexChars] at h
    | cons b bs =>
      simp only [hexChars, List.flatMap_cons, List.cons_append, List.nil_append,
        List.cons.injEq] at h
      obtain ⟨hhi, hlo, htail⟩ := h
      have ha := a.toNat_lt
      have hb := b.toNat_lt
      have h1 := hexDigit_injOn (by omega) (by omega) hhi
      have h2 := hexDigit_injOn (by omega) (by omega) hlo
      have hab : a = b := UInt8.toNat_inj.mp (by omega)
      rw [hab, ih htail]

theorem hex_injective : Function.Injective hex := fun _ _ h =>
  hexChars_injective (String.ofList_injective h)

theorem base64_ne_nil (digit : ℕ → Char) (pad : List Char) {bs : Bytes} (h : bs ≠ []) :
    base64 digit pad bs ≠ [] := by
  match bs with
  | [] => exact absurd rfl h
  | [_] => simp [base64]
  | [_, _] => simp [base64]
  | _ :: _ :: _ :: _ => simp [base64]

theorem hexChars_forall {p : Char → Prop} (hdigit : ∀ n < 16, p (hexDigit n)) (bs : Bytes) :
    ∀ c ∈ hexChars bs, p c := by
  intro c hc
  obtain ⟨b, -, hb⟩ := List.mem_flatMap.mp hc
  have hlt := b.toNat_lt
  simp only [List.mem_cons, List.not_mem_nil, or_false] at hb
  rcases hb with rfl | rfl
  · exact hdigit _ (by omega)
  · exact hdigit _ (by omega)

theorem base64_forall {digit : ℕ → Char} {pad : List Char} {p : Char → Prop}
    (hdigit : ∀ n, p (digit n)) (hpad : ∀ c ∈ pad, p c) (bs : Bytes) :
    ∀ c ∈ base64 digit pad bs, p c := by
  induction bs using base64.induct with
  | case1 => simp [base64]
  | case2 a =>
    simp only [base64, List.forall_mem_append, List.forall_mem_cons]
    exact ⟨⟨⟨hdigit _, hdigit _, by simp⟩, hpad⟩, hpad⟩
  | case3 a b =>
    simp only [base64, List.forall_mem_append, List.forall_mem_cons]
    exact ⟨⟨hdigit _, hdigit _, hdigit _, by simp⟩, hpad⟩
  | case4 a b c rest ih =>
    simp only [base64, List.forall_mem_cons]
    exact ⟨hdigit _, hdigit _, hdigit _, hdigit _, ih⟩

theorem base64Digit_lt (n : ℕ) : (base64Digit n).toNat < 128 := by
  have hall : ∀ i : Fin 64, (base64Digit i).toNat < 128 := by decide
  by_cases h : n < 64
  · exact hall ⟨n, h⟩
  · have hslash : base64Digit n = '/' := by
      unfold base64Digit
      rw [if_neg (by omega), if_neg (by omega), if_neg (by omega), if_neg (by omega)]
    rw [hslash]
    decide

theorem hexDigit_lt {n : ℕ} (h : n < 16) : (hexDigit n).toNat < 128 := by
  have hall : ∀ i : Fin 16, (hexDigit i).toNat < 128 := by decide
  exact hall ⟨n, h⟩

theorem base64Value_base64Digit {n : ℕ} (h : n < 64) : base64Value (base64Digit n) = some n ∧
    base64Digit n ≠ '=' ∧ base64Digit n ≠ '\r' ∧ base64Digit n ≠ '\n' := by
  have hall : ∀ i : Fin 64, base64Value (base64Digit i) = some i.val ∧ base64Digit i ≠ '=' ∧
      base64Digit i ≠ '\r' ∧ base64Digit i ≠ '\n' := by decide
  exact hall ⟨n, h⟩

theorem decodeGroups_base64 (bs : Bytes) : decodeGroups (base64Std bs) = some bs := by
  unfold base64Std
  induction bs using base64.induct with
  | case1 => rfl
  | case2 a =>
    have ha := a.toNat_lt
    obtain ⟨hfirst, -⟩ := base64Value_base64Digit (n := a.toNat * 16 / 64) (by omega)
    obtain ⟨hsecond, -⟩ := base64Value_base64Digit (n := a.toNat * 16 % 64) (by omega)
    have hvalue : (a.toNat * 16 / 64 * 64 + a.toNat * 16 % 64) / 16 = a.toNat := by omega
    simp [base64, decodeGroups, hfirst, hsecond, hvalue]
  | case3 a b =>
    have ha := a.toNat_lt
    have hb := b.toNat_lt
    obtain ⟨n, hn⟩ : ∃ n, n = a.toNat * 256 + b.toNat := ⟨_, rfl⟩
    obtain ⟨hfirst, -⟩ := base64Value_base64Digit (n := n * 4 / 4096) (by omega)
    obtain ⟨hsecond, -⟩ := base64Value_base64Digit (n := n * 4 / 64 % 64) (by omega)
    obtain ⟨hthird, hne, -⟩ := base64Value_base64Digit (n := n * 4 % 64) (by omega)
    have hvalue : (n * 4 / 4096 * 4096 + n * 4 / 64 % 64 * 64 + n * 4 % 64) / 4 = n := by omega
    have ha' : n / 256 = a.toNat := by omega
    have hb' : n % 256 = b.toNat := by omega
    simp [base64, ← hn, decodeGroups, hfirst, hsecond, hthird, hne, hvalue, ha', hb']
  | case4 a b c rest ih =>
    have ha := a.toNat_lt
    have hb := b.toNat_lt
    have hc := c.toNat_lt
    obtain ⟨n, hn⟩ : ∃ n, n = a.toNat * 65536 + b.toNat * 256 + c.toNat := ⟨_, rfl⟩
    obtain ⟨hfirst, -⟩ := base64Value_base64Digit (n := n / 262144) (by omega)
    obtain ⟨hsecond, -⟩ := base64Value_base64Digit (n := n / 4096 % 64) (by omega)
    obtain ⟨hthird, -⟩ := base64Value_base64Digit (n := n / 64 % 64) (by omega)
    obtain ⟨hfourth, hne, -⟩ := base64Value_base64Digit (n := n % 64) (by omega)
    have hvalue : n / 262144 * 262144 + n / 4096 % 64 * 4096 + n / 64 % 64 * 64 + n % 64 = n := by
      omega
    have ha' : n / 65536 = a.toNat := by omega
    have hb' : n / 256 % 256 = b.toNat := by omega
    have hc' : n % 256 = c.toNat := by omega
    simp [base64, ← hn, decodeGroups, hfirst, hsecond, hthird, hfourth, hne, hvalue, ha', hb', hc',
      ih]

/-- Go reads back the base64 it or JavaScript writes. -/
theorem base64Decode_base64Std (bs : Bytes) :
    base64Decode (String.ofList (base64Std bs)) = some bs := by
  have hplain : ∀ c ∈ base64Std bs, c ≠ '\r' ∧ c ≠ '\n' := by
    refine base64_forall (fun n => ?_) (by simp) bs
    by_cases h : n < 64
    · exact (base64Value_base64Digit h).2.2
    · have hslash : base64Digit n = '/' := by
        unfold base64Digit
        rw [if_neg (by omega), if_neg (by omega), if_neg (by omega), if_neg (by omega)]
      rw [hslash]
      decide
  rw [base64Decode, String.toList_ofList, List.filter_eq_self.mpr (by simpa using hplain)]
  exact decodeGroups_base64 bs

end Bytes

end Dap
