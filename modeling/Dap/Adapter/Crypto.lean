import Dap.Hub.State
import Dap.Lib.JsNumber

/-! Canonical JSON and signed frames as the adapters build them
(`adapters/mcp-bridge/src/crypto.ts`, `adapters/dsh-plugin/src/crypto.ts`). -/
namespace Dap

instance : Coe String JsString := ⟨JsString.ofString⟩

instance : OfNat JsNumber 1 := ⟨.int ⟨1, by norm_num⟩⟩

@[simp] theorem JsNumber.text_one : (1 : JsNumber).text = toString (1 : ℤ) := rfl

/-- What a frame is made of. -/
inductive JsValue where
  | undefined
  | null
  | bool (b : Bool)
  | num (x : JsNumber)
  | str (s : JsString)
  | arr (elems : List JsValue)
  | obj (members : List (JsString × JsValue))

namespace JsValue

mutual

/-- What `JSON.stringify` prints: `undefined` members are skipped, `undefined` elements are
`null`. -/
def json : JsValue → Option (Json JsString)
  | .undefined => none
  | .null => some .null
  | .bool b => some (.bool b)
  | .num x => some (.num x.text)
  | .str s => some (.str s)
  | .arr elems => some (.arr (jsonElems elems))
  | .obj members => some (.obj (jsonMembers members))

def jsonElems : List JsValue → List (Json JsString)
  | [] => []
  | v :: rest => v.json.getD .null :: jsonElems rest

def jsonMembers : List (JsString × JsValue) → List (JsString × Json JsString)
  | [] => []
  | (k, v) :: rest =>
    match v.json with
    | none => jsonMembers rest
    | some j => (k, j) :: jsonMembers rest

end

def stringify (v : JsValue) : Option JsString :=
  v.json.map fun j => JsString.ofChars (j.print JsString.quote)

mutual

/-- What `canonicalJson` prints: keys sorted by code units, `sig` and `undefined` members
dropped. -/
def canonical : JsValue → Json JsString
  | .undefined => .null
  | .null => .null
  | .bool b => .bool b
  | .num x => .num x.text
  | .str s => .str s
  | .arr elems => .arr (canonicalElems elems)
  | .obj members => .obj ((canonicalMembers members).insertionSort fun a b => a.1 ≤ b.1)

def canonicalElems : List JsValue → List (Json JsString)
  | [] => []
  | v :: rest => v.canonical :: canonicalElems rest

def canonicalMembers : List (JsString × JsValue) → List (JsString × Json JsString)
  | [] => []
  | (_, .undefined) :: rest => canonicalMembers rest
  | (k, v) :: rest =>
    if k = JsString.ofString "sig" then canonicalMembers rest
    else (k, v.canonical) :: canonicalMembers rest

end

/-- The text of `canonicalJson(v)`; quoted strings are well formed, so it has no lone surrogates. -/
def canonicalText (v : JsValue) : List Char := v.canonical.print JsString.quote

def canonicalJson (v : JsValue) : JsString := JsString.ofChars v.canonicalText

mutual

/-- `${v}`. -/
def template : JsValue → JsString
  | .undefined => JsString.ofString "undefined"
  | .null => JsString.ofString "null"
  | .bool true => JsString.ofString "true"
  | .bool false => JsString.ofString "false"
  | .num x => JsString.ofString x.text
  | .str s => s
  | .arr elems => templateElems elems
  | .obj _ => JsString.ofString "[object Object]"

/-- The elements joined by commas, `undefined` and `null` being empty. -/
def templateElems : List JsValue → JsString
  | [] => []
  | [.undefined] => []
  | [.null] => []
  | [v] => template v
  | .undefined :: rest => JsString.ofString "," ++ templateElems rest
  | .null :: rest => JsString.ofString "," ++ templateElems rest
  | v :: rest => template v ++ JsString.ofString "," ++ templateElems rest

end

end JsValue

/-- The members of a frame object, in the order they were set. -/
abbrev JsFrame := List (JsString × JsValue)

namespace JsFrame

def get (frame : JsFrame) (key : String) : JsValue :=
  (frame.lookup (JsString.ofString key)).getD .undefined

variable (P : Platform)

/-- `utf8`. -/
def utf8 (s : JsString) : Bytes := Bytes.utf8 s.scalars.toList

theorem utf8_ofChars (cs : List Char) : utf8 (JsString.ofChars cs) = Bytes.utf8 cs := by
  simp [utf8]

def sigPayload (frame : JsFrame) : JsString :=
  JsString.ofString "dap1|" ++ (frame.get "op").template ++ JsString.ofString "|" ++
    (frame.get "ts").template ++ JsString.ofString "|" ++
    JsString.ofString (Bytes.hex (P.sha256 (utf8 (JsValue.obj frame).canonicalJson)).val)

/-- The signature function of the crypto library: 64 bytes for any message and key. -/
structure Ed25519 where
  sign : Bytes → Bytes → { sig : Bytes // sig.length = 64 }

variable (E : Ed25519)

def signFrame (frame : JsFrame) (priv : Bytes) : JsString :=
  JsString.ofChars (Bytes.base64Std (E.sign (utf8 (frame.sigPayload P)) priv).val)

/-- `frame.sig = signFrame(frame, priv)` on a frame without `sig`. -/
def signed (frame : JsFrame) (priv : Bytes) : JsFrame :=
  frame ++ [(JsString.ofString "sig", .str (frame.signFrame P E priv))]

/-- The bytes of the text message that carries the frame. -/
def wire (frame : JsFrame) : Bytes := utf8 ((JsValue.obj frame).stringify.getD [])

end JsFrame

end Dap
