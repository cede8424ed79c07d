import Mathlib.Tactic

/-! JSON texts: a printer that is told how strings are quoted, and a reader that follows the scanner
of Go's `encoding/json`. Texts are lists of Unicode scalar values; numbers keep their literal. -/
namespace Dap

/-- A JSON value whose strings and keys have type `S`. Members keep their textual order. -/
inductive Json (S : Type) where
  | null
  | bool (b : Bool)
  | num (literal : String)
  | str (s : S)
  | arr (elems : List (Json S))
  | obj (members : List (S × Json S))

namespace Json

variable {S : Type}

mutual

/-- No whitespace, members in the given order. -/
def print (quote : S → List Char) : Json S → List Char
  | .null => ['n', 'u', 'l', 'l']
  | .bool true => ['t', 'r', 'u', 'e']
  | .bool false => ['f', 'a', 'l', 's', 'e']
  | .num literal => literal.toList
  | .str s => quote s
  | .arr elems => '[' :: (printElems quote elems ++ [']'])
  | .obj members => '{' :: (printMembers quote members ++ ['}'])

def printElems (quote : S → List Char) : List (Json S) → List Char
  | [] => []
  | [v] => print quote v
  | v :: w :: rest => print quote v ++ ',' :: printElems quote (w :: rest)

def printMembers (quote : S → List Char) : List (S × Json S) → List Char
  | [] => []
  | [(k, v)] => quote k ++ ':' :: print quote v
  | (k, v) :: w :: rest =>
    quote k ++ ':' :: (print quote v ++ ',' :: printMembers quote (w :: rest))

end

/-! ### Strings -/

def isSpace (c : Char) : Bool := c = ' ' || c = '\t' || c = '\n' || c = '\r'

def skipSpace (cs : List Char) : List Char := cs.dropWhile isSpace

def hexValue (c : Char) : Option ℕ :=
  if '0' ≤ c ∧ c ≤ '9' then some (c.toNat - 48)
  else if 'a' ≤ c ∧ c ≤ 'f' then some (c.toNat - 87)
  else if 'A' ≤ c ∧ c ≤ 'F' then some (c.toNat - 55)
  else none

def hexQuad (a b c d : Char) : Option ℕ := do
  let a ← hexValue a
  let b ← hexValue b
  let c ← hexValue c
  let d ← hexValue d
  return a * 4096 + b * 256 + c * 16 + d

/-- The one-letter escapes. -/
def shortEscape (c : Char) : Option Char :=
  if c = '"' ∨ c = '\\' ∨ c = '/' then some c
  else if c = 'b' then some (Char.ofNat 8)
  else if c = 'f' then some (Char.ofNat 12)
  else if c = 'n' then some '\n'
  else if c = 'r' then some '\r'
  else if c = 't' then some '\t'
  else none

/-- What stands between two quotes, before surrogate pairs are joined. -/
inductive Piece where
  | char (c : Char)
  | unit (u : ℕ)
  deriving DecidableEq

/-- Reads up to the closing quote; raw control characters are refused. -/
def scanString : List Char → Option (List Piece × List Char)
  | [] => none
  | c :: rest =>
    if c = '"' then some ([], rest)
    else if c = '\\' then
      match rest with
      | [] => none
      | e :: rest' =>
        if e = 'u' then
          match rest' with
          | a :: b :: c :: d :: rest'' => do
            let u ← hexQuad a b c d
            let (ps, r) ← scanString rest''
            return (.unit u :: ps, r)
          | _ => none
        else do
          let c ← shortEscape e
          let (ps, r) ← scanString rest'
          return (.char c :: ps, r)
    else if c.toNat < 0x20 then none
    else do
      let (ps, r) ← scanString rest
      return (.char c :: ps, r)

def isHigh (u : ℕ) : Bool := 0xD800 ≤ u ∧ u < 0xDC00
def isLow (u : ℕ) : Bool := 0xDC00 ≤ u ∧ u < 0xE000

def replacement : Char := Char.ofNat 0xFFFD

/-- The scalar value of a unit that starts no pair; a surrogate becomes U+FFFD. -/
def unitChar (u : ℕ) : Char := if isHigh u || isLow u then replacement else Char.ofNat u

def pairChar (hi lo : ℕ) : Char := Char.ofNat (0x10000 + (hi - 0xD800) * 1024 + (lo - 0xDC00))

/-- Joins `\u` escapes of a high and a low surrogate; every other surrogate is replaced. -/
def joinPieces : List Piece → List Char
  | [] => []
  | .char c :: rest => c :: joinPieces rest
  | .unit u :: .unit v :: rest =>
    if isHigh u && isLow v then pairChar u v :: joinPieces rest
    else unitChar u :: joinPieces (.unit v :: rest)
  | .unit u :: rest => unitChar u :: joinPieces rest

/-- The string literal whose opening quote has been read. -/
def readString (cs : List Char) : Option (String × List Char) := do
  let (ps, r) ← scanString cs
  return (String.ofList (joinPieces ps), r)

/-! ### Numbers -/

def isDigit (c : Char) : Bool := '0' ≤ c && c ≤ '9'

def scanInt : List Char → Option (List Char × List Char)
  | [] => none
  | c :: rest =>
    if c = '0' then some (['0'], rest)
    else if isDigit c then some ((c :: rest).span isDigit)
    else none

def scanFrac : List Char → Option (List Char × List Char)
  | '.' :: rest =>
    match rest.span isDigit with
    | ([], _) => none
    | (ds, r) => some ('.' :: ds, r)
  | cs => some ([], cs)

def scanSign : List Char → List Char × List Char
  | '+' :: rest => (['+'], rest)
  | '-' :: rest => (['-'], rest)
  | cs => ([], cs)

def scanExp : List Char → Option (List Char × List Char)
  | [] => some ([], [])
  | c :: rest =>
    if c = 'e' ∨ c = 'E' then
      let (sign, r) := scanSign rest
      match r.span isDigit with
      | ([], _) => none
      | (ds, r) => some (c :: sign ++ ds, r)
    else some ([], c :: rest)

def scanNumber (cs : List Char) : Option (List Char × List Char) := do
  let (sign, cs) := match cs with
    | '-' :: rest => (['-'], rest)
    | _ => ([], cs)
  let (int, cs) ← scanInt cs
  let (frac, cs) ← scanFrac cs
  let (exp, cs) ← scanExp cs
  return (sign ++ int ++ frac ++ exp, cs)

/-! ### Values -/

def dropLiteral : List Char → List Char → Option (List Char)
  | [], cs => some cs
  | _ :: _, [] => none
  | l :: ls, c :: cs => if l = c then dropLiteral ls cs else none

/-- `maxNestingDepth` of the Go scanner. -/
def maxNestingDepth : ℕ := 10000

mutual

/-- One value, `depth` being the number of containers that may still be opened. The fuel bounds the
number of nested calls; a text never needs more than its length. -/
def readValue : ℕ → ℕ → List Char → Option (Json String × List Char)
  | 0, _, _ => none
  | fuel + 1, depth, cs =>
    match skipSpace cs with
    | [] => none
    | c :: rest =>
      if c = '{' then
        match depth with
        | 0 => none
        | depth + 1 =>
          match skipSpace rest with
          | '}' :: r => some (.obj [], r)
          | r => (readMembers fuel depth r).map fun (ms, r) => (.obj ms, r)
      else if c = '[' then
        match depth with
        | 0 => none
        | depth + 1 =>
          match skipSpace rest with
          | ']' :: r => some (.arr [], r)
          | r => (readElems fuel depth r).map fun (vs, r) => (.arr vs, r)
      else if c = '"' then (readString rest).map fun (s, r) => (.str s, r)
      else if c = 't' then (dropLiteral ['r', 'u', 'e'] rest).map fun r => (.bool true, r)
      else if c = 'f' then (dropLiteral ['a', 'l', 's', 'e'] rest).map fun r => (.bool false, r)
      else if c = 'n' then (dropLiteral ['u', 'l', 'l'] rest).map fun r => (.null, r)
      else (scanNumber (c :: rest)).map fun (l, r) => (.num (String.ofList l), r)

def readElems : ℕ → ℕ → List Char → Option (List (Json String) × List Char)
  | 0, _, _ => none
  | fuel + 1, depth, cs => do
    let (v, cs) ← readValue fuel depth cs
    match skipSpace cs with
    | ',' :: r =>
      let (vs, r) ← readElems fuel depth r
      return (v :: vs, r)
    | ']' :: r => return ([v], r)
    | _ => none

def readMembers : ℕ → ℕ → List Char → Option (List (String × Json String) × List Char)
  | 0, _, _ => none
  | fuel + 1, depth, cs =>
    match skipSpace cs with
    | '"' :: cs => do
      let (k, cs) ← readString cs
      match skipSpace cs with
      | ':' :: cs =>
        let (v, cs) ← readValue fuel depth cs
        match skipSpace cs with
        | ',' :: r =>
          let (ms, r) ← readMembers fuel depth r
          return ((k, v) :: ms, r)
        | '}' :: r => return ([(k, v)], r)
        | _ => none
      | _ => none
    | _ => none

end

/-- One value with nothing but whitespace around it. -/
def parse (cs : List Char) : Option (Json String) :=
  match readValue (cs.length + 1) maxNestingDepth cs with
  | some (v, rest) => if (skipSpace rest).isEmpty then some v else none
  | none => none

end Json

end Dap
