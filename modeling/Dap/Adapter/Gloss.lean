import Dap.Lib.JsMap
import Dap.Lib.JsString
import Dap.Lib.Shorthand

/-! The glossary that agents negotiate inside their encrypted messages
(`adapters/mcp-bridge/src/gloss.ts`). -/
namespace Dap

inductive GlossState where
  | proposed
  | active
  deriving DecidableEq

structure GlossPair where
  term : JsString
  abbr : JsString
  state : GlossState
  deriving DecidableEq

/-- `dropped` and `reserved` are sets that only grow. -/
structure Conv where
  entries : JsMap JsString GlossPair := ∅
  reverse : JsMap JsString JsString := ∅
  seen : JsMap JsString ℕ := ∅
  dropped : List JsString := []
  reserved : List JsString := []

structure GlossFrame where
  t : String
  act : Option String := none
  body : Option JsString := none
  entries : Option (List (JsString × JsString)) := none
  terms : Option (List JsString) := none

inductive Dest where
  | channel (name : JsString)
  | dm (peer : JsString)
  deriving DecidableEq

namespace Gloss

def minTerm : ℕ := 8
def minMsgs : ℕ := 2
def maxNgram : ℕ := 3
def maxAbbrev : ℕ := 4

def tilde : UInt16 := 0x7e
def space : UInt16 := 0x20

/-- `[a-z]` -/
def letter (u : UInt16) : Bool := 0x61 ≤ u && u ≤ 0x7a

/-- `[a-z0-9]` -/
def wordUnit (u : UInt16) : Bool := letter u || (0x30 ≤ u && u ≤ 0x39)

def vowel (u : UInt16) : Bool := [0x61, 0x65, 0x69, 0x6f, 0x75].contains u

/-- As far as `[a-z]` can tell: whatever else changes case stays outside of it. -/
def toLowerCase (text : JsString) : JsString :=
  text.flatMap fun u =>
    if 0x41 ≤ u ∧ u ≤ 0x5a then [u + 0x20]
    else if u = 0x130 then [0x69, 0x307]
    else if u = 0x212a then [0x6b]
    else [u]

/-- `text.toLowerCase().match(/[a-z]{4,}/g)` -/
def words (text : JsString) : List JsString :=
  ((toLowerCase text).splitOnP fun u => !letter u).filter fun w => 4 ≤ w.length

def ngrams (text : JsString) : List JsString :=
  (List.range maxNgram).flatMap fun n =>
    (List.range ((words text).length - n)).map fun i =>
      [space].intercalate (((words text).drop i).take (n + 1))

def baseAbbrev (term : JsString) : JsString :=
  match List.splitOn space term with
  | [w] => (w.take 1 ++ (w.drop 1).filter fun u => !vowel u).take maxAbbrev
  | ws => (ws.flatMap fun w => w.take 1).take maxAbbrev

def suffixed (base : JsString) (i : ℕ) : JsString := base ++ JsString.ofString (toString i)

/-- The search runs for at most `fuel` suffixes. -/
def nextFree (base : JsString) (reserved : List JsString) : ℕ → ℕ → JsString
  | 0, i => suffixed base i
  | fuel + 1, i =>
    if suffixed base i ∈ reserved then nextFree base reserved fuel (i + 1) else suffixed base i

def addReserved (reserved : List JsString) (abbr : JsString) : List JsString :=
  if abbr ∈ reserved then reserved else reserved ++ [abbr]

/-- The abbreviation and the set it is in from now on. -/
def genAbbrev (term : JsString) (reserved : List JsString) : JsString × List JsString :=
  let base := baseAbbrev term
  let abbr := if base ∈ reserved then nextFree base reserved reserved.length 2 else base
  (abbr, addReserved reserved abbr)

/-- What `String.prototype.replace` makes of the `$` patterns of a replacement. -/
def getSubstitution (matched before after : JsString) : JsString → JsString
  | [] => []
  | [c] => [c]
  | c :: d :: rest =>
    if c = 0x24 ∧ d = 0x24 then 0x24 :: getSubstitution matched before after rest
    else if c = 0x24 ∧ d = 0x26 then matched ++ getSubstitution matched before after rest
    else if c = 0x24 ∧ d = 0x60 then before ++ getSubstitution matched before after rest
    else if c = 0x24 ∧ d = 0x27 then after ++ getSubstitution matched before after rest
    else c :: getSubstitution matched before after (d :: rest)

end Gloss

open Gloss

namespace Conv

/-! ### Compaction -/

def active (c : Conv) : List GlossPair := c.entries.values.filter fun e => e.state = .active

/-- Longest first; a stable sort. -/
def byLength (c : Conv) : List GlossPair :=
  c.active.insertionSort fun a b => b.term.length ≤ a.term.length

def compactTerm (out : JsString) (e : GlossPair) : JsString :=
  Shorthand.replaceAll wordUnit e.term
    (fun before after => getSubstitution e.term before.reverse after (tilde :: e.abbr)) out

def compact (c : Conv) (text : JsString) : JsString := c.byLength.foldl compactTerm text

def expand (c : Conv) (body : JsString) : JsString :=
  Shorthand.expandAll wordUnit tilde c.reverse.get body

/-! ### Own messages -/

def observe (c : Conv) (text : JsString) : Conv :=
  { c with
    seen := (ngrams text).eraseDups.foldl
      (fun seen term => seen.set term ((seen.get term).getD 0 + 1)) c.seen }

/-- The terms that are proposed now. -/
def candidates (c : Conv) : List JsString :=
  (c.seen.entries.filter fun e => minMsgs ≤ e.2 ∧ minTerm ≤ e.1.length ∧
    c.entries.get e.1 = none ∧ e.1 ∉ c.dropped).map Prod.fst

def abbreviate : List JsString → List JsString → List (JsString × JsString) × List JsString
  | [], reserved => ([], reserved)
  | term :: terms, reserved =>
    let (abbr, reserved) := genAbbrev term reserved
    let (pairs, reserved) := abbreviate terms reserved
    ((term, abbr) :: pairs, reserved)

def propose (c : Conv) (pair : JsString × JsString) : Conv :=
  { c with entries := c.entries.set pair.1 ⟨pair.1, pair.2, .proposed⟩ }

/-- `sayTo` up to its first `await`, and what it proposes. -/
def sayTo (c : Conv) (text : JsString) : Conv × List (JsString × JsString) :=
  let c := c.observe text
  let (proposals, reserved) := abbreviate c.candidates c.reserved
  (proposals.foldl propose { c with reserved }, proposals)

def deactivate (c : Conv) (abbrs : List JsString) : Conv :=
  abbrs.foldl (fun c abbr =>
    match c.reverse.get abbr with
    | none => c
    | some term =>
      { c with
        entries := c.entries.delete term
        reverse := c.reverse.delete abbr
        dropped := if term ∈ c.dropped then c.dropped else c.dropped ++ [term] }) c

/-! ### Frames of the peers -/

/-- A pair goes live here. -/
def adopt (c : Conv) (pair : JsString × JsString) : Conv :=
  { c with
    entries := c.entries.set pair.1 ⟨pair.1, pair.2, .active⟩
    reverse := c.reverse.set pair.2 pair.1
    reserved := addReserved c.reserved pair.2 }

/-- One pair of a `propose`: a term that is live already keeps its abbreviation. -/
def onProposed (s : Conv × List (JsString × JsString)) (pair : JsString × JsString) :
    Conv × List (JsString × JsString) :=
  match s.1.entries.get pair.1 with
  | some ⟨_, abbr, .active⟩ => (s.1, s.2 ++ [(pair.1, abbr)])
  | _ => (s.1.adopt pair, s.2 ++ [pair])

/-- One pair of an `ack`. -/
def onAcked (c : Conv) (pair : JsString × JsString) : Conv :=
  match c.entries.get pair.1 with
  | some ⟨_, _, .proposed⟩ => c.adopt pair
  | _ => c

/-- The reply is the ack to a proposal. -/
def handleGloss (c : Conv) (frame : GlossFrame) : Conv × List GlossFrame :=
  if frame.act = some "propose" then
    let (c, ack) := (frame.entries.getD []).foldl onProposed (c, [])
    (c, [{ t := "gloss", act := some "ack", entries := some ack }])
  else if frame.act = some "ack" then ((frame.entries.getD []).foldl onAcked c, [])
  else if frame.act = some "drop" then (c.deactivate (frame.terms.getD []), [])
  else (c, [])

end Conv

/-! ### The agent -/

/-- `frame` is what `JSON.parse` makes of the text, if anything. -/
structure GlossMsg where
  dm : Bool
  channel : Option JsString
  sender : JsString
  frame : Option GlossFrame
  ts : ℤ

structure ChatEvent where
  dm : Bool
  channel : Option JsString
  sender : JsString
  body : JsString
  ts : ℤ

/-- `chan:<name>` or `dm:<peer>`. -/
def Dest.key : Dest → JsString
  | channel name => JsString.ofString "chan:" ++ name
  | dm peer => JsString.ofString "dm:" ++ peer

/-- An empty channel name counts as none. -/
def GlossMsg.dest (m : GlossMsg) : Dest :=
  match m.channel with
  | some (u :: name) => .channel (u :: name)
  | _ => .dm m.sender

structure GlossAgent where
  agentId : JsString
  convs : JsMap JsString Conv := ∅

namespace GlossAgent

def conv (a : GlossAgent) (key : JsString) : Conv := (a.convs.get key).getD {}

def setConv (a : GlossAgent) (key : JsString) (c : Conv) : GlossAgent :=
  { a with convs := a.convs.set key c }

/-- A proposal is sent before the message, if there is any. -/
def sayTo (a : GlossAgent) (dest : Dest) (text : JsString) :
    GlossAgent × List (Dest × GlossFrame) :=
  let (c, proposals) := (a.conv dest.key).sayTo text
  (a.setConv dest.key c,
    if proposals = [] then []
    else [(dest, { t := "gloss", act := some "propose", entries := some proposals })])

/-- The message itself, compacted with what is active by then. -/
def sayBody (a : GlossAgent) (dest : Dest) (text : JsString) : Dest × GlossFrame :=
  (dest, { t := "msg", body := some ((a.conv dest.key).compact text) })

def drop (a : GlossAgent) (channel abbr : JsString) : GlossAgent × List (Dest × GlossFrame) :=
  let dest := Dest.channel channel
  (a.setConv dest.key ((a.conv dest.key).deactivate [abbr]),
    [(dest, { t := "gloss", act := some "drop", terms := some [abbr] })])

/-- What is sent in return, and what the listeners are told. -/
def handleInbound (a : GlossAgent) (m : GlossMsg) :
    GlossAgent × List (Dest × GlossFrame) × List ChatEvent :=
  if m.sender = a.agentId then (a, [], [])
  else
    match m.frame with
    | none => (a, [], [])
    | some frame =>
      if frame.t = "gloss" then
        let (c, frames) := (a.conv m.dest.key).handleGloss frame
        (a.setConv m.dest.key c, frames.map fun f => (m.dest, f), [])
      else if frame.t = "msg" then
        let body := frame.body.getD (JsString.ofString "undefined")
        (a, [], [⟨m.dm, m.channel, m.sender, (a.conv m.dest.key).expand body, m.ts⟩])
      else (a, [], [])

end GlossAgent

end Dap
