import Dap.Lib.Json
import Dap.Lib.Bytes

/-! What Go's `encoding/json` adds to JSON texts: string escaping with and without HTML escapes,
and the decoding of objects into `map[string]any`. -/
namespace Dap.GoJson
open Json Bytes

/-- `appendString`: U+2028 and U+2029 are escaped whether or not `escapeHTML` is set. -/
def escapeChar (escapeHTML : Bool) (c : Char) : List Char :=
  if c = '"' ∨ c = '\\' then ['\\', c]
  else if c = Char.ofNat 8 then ['\\', 'b']
  else if c = Char.ofNat 12 then ['\\', 'f']
  else if c = '\n' then ['\\', 'n']
  else if c = '\r' then ['\\', 'r']
  else if c = '\t' then ['\\', 't']
  else if c.toNat < 0x20 ∨ (escapeHTML = true ∧ (c = '<' ∨ c = '>' ∨ c = '&')) then
    ['\\', 'u', '0', '0', hexDigit (c.toNat / 16), hexDigit (c.toNat % 16)]
  else if c.toNat = 0x2028 ∨ c.toNat = 0x2029 then
    ['\\', 'u', '2', '0', '2', hexDigit (c.toNat % 16)]
  else [c]

def quote (escapeHTML : Bool) (s : String) : List Char :=
  '"' :: (s.toList.flatMap (escapeChar escapeHTML) ++ ['"'])

/-- `json.Marshal` of a value whose members stand in their final order. -/
def marshal (v : Json String) : List Char := v.print (quote true)

/-! ### `map[string]any` -/

abbrev Members := List (String × Json String)

def insertKey (k : String) (v : Json String) : Members → Members
  | [] => [(k, v)]
  | (k', v') :: rest =>
    if k < k' then (k, v) :: (k', v') :: rest else (k', v') :: insertKey k v rest

mutual

/-- Objects become maps: the last of several equal keys wins, and keys are listed in order. -/
def toAny : Json String → Json String
  | .arr elems => .arr (toAnyElems elems)
  | .obj members => .obj (toAnyMembers members)
  | .null => .null
  | .bool b => .bool b
  | .num literal => .num literal
  | .str s => .str s

def toAnyElems : List (Json String) → List (Json String)
  | [] => []
  | v :: rest => toAny v :: toAnyElems rest

def toAnyMembers : Members → Members
  | [] => []
  | (k, v) :: rest =>
    let m := toAnyMembers rest
    if k ∈ m.map Prod.fst then m else insertKey k (toAny v) m

end

/-- The folding of `foldName` on runes that fold to ASCII; U+017F and U+212A are the only others. -/
def foldRune (c : Char) : Char :=
  if 'a' ≤ c ∧ c ≤ 'z' then Char.ofNat (c.toNat - 32)
  else if c.toNat = 0x17F then 'S'
  else if c.toNat = 0x212A then 'K'
  else c

def foldName (s : String) : List Char := s.toList.map foldRune

/-- The struct field a key is decoded into: an exact match first, then a case-folded one. -/
def matchField (names : List String) (key : String) : Option String :=
  if key ∈ names then some key else names.find? fun n => foldName n = foldName key

/-! ### Decoding into typed fields

`null` leaves a field alone (and clears a pointer), and a value of another type is an error. -/

def digitsValue (ds : List Char) : ℕ := ds.foldl (fun n c => n * 10 + (c.toNat - 48)) 0

/-- `strconv.ParseInt(s, 10, 64)` on a JSON number. -/
def parseInt (literal : String) : Option Int64 :=
  let (neg, ds) := match literal.toList with
    | '-' :: rest => (true, rest)
    | cs => (false, cs)
  if ds ≠ [] ∧ ds.all isDigit then
    let n : ℤ := if neg then -(digitsValue ds : ℤ) else digitsValue ds
    if -2 ^ 63 ≤ n ∧ n < 2 ^ 63 then some (Int64.ofInt n) else none
  else none

def decodeString (old : String) : Json String → Option String
  | .str s => some s
  | .null => some old
  | _ => none

def decodeInt (old : Int64) : Json String → Option Int64
  | .num literal => parseInt literal
  | .null => some old
  | _ => none

def decodeBool (old : Bool) : Json String → Option Bool
  | .bool b => some b
  | .null => some old
  | _ => none

def decodeBoolPtr : Json String → Option (Option Bool)
  | .bool b => some (some b)
  | .null => some none
  | _ => none

/-- A slice being decoded. `backing` is the array behind it: a repeated member decodes into the
elements an earlier one left there. -/
structure Slice (α : Type) where
  elems : List α := []
  backing : List α := []

def decodeElems {α : Type} (decode : α → Json String → Option α) (zero : α) :
    List α → List (Json String) → Option (List α)
  | _, [] => some []
  | backing, v :: rest => do
    let a ← decode (backing.headD zero) v
    let as ← decodeElems decode zero backing.tail rest
    return a :: as

def Slice.decode {α : Type} (decode : α → Json String → Option α) (zero : α) (s : Slice α) :
    Json String → Option (Slice α)
  | .arr [] => some {}
  | .arr (v :: vs) => do
    let as ← decodeElems decode zero s.backing (v :: vs)
    return ⟨as, as ++ s.backing.drop as.length⟩
  | .null => some {}
  | _ => none

/-- An array whose elements were written one by one, decoded into a slice that held nothing. -/
theorem Slice.decode_written {α β : Type} {decode : α → Json String → Option α} {zero : α}
    {write : β → Json String} {read : β → α} (h : ∀ b, decode zero (write b) = some (read b))
    (bs : List β) : ({} : Slice α).decode decode zero (.arr (bs.map write)) =
      some ⟨bs.map read, bs.map read⟩ := by
  have helems : ∀ bs : List β,
      decodeElems decode zero [] (bs.map write) = some (bs.map read) := by
    intro bs
    induction bs with
    | nil => rfl
    | cons b bs ih => simp [decodeElems, h, ih]
  cases bs with
  | nil => rfl
  | cons b bs =>
    have hall := helems (b :: bs)
    rw [List.map_cons] at hall ⊢
    unfold Slice.decode
    simp only [hall]
    simp

/-- A struct: members whose keys match no field are skipped, and `null` leaves it alone. -/
def decodeStruct {α : Type} (decodeMember : α → String × Json String → Option α) (old : α) :
    Json String → Option α
  | .obj members => members.foldlM decodeMember old
  | .null => some old
  | _ => none

/-! ### Encoding with `omitempty` -/

def formatInt (n : Int64) : String := toString n.toInt

def strOmitEmpty (key s : String) : Members := if s = "" then [] else [(key, .str s)]

def intOmitEmpty (key : String) (n : Int64) : Members :=
  if n = 0 then [] else [(key, .num (formatInt n))]

end Dap.GoJson
