import Dap.Lib.JsObject
import Dap.Lib.JsParse
import Dap.Lib.JsonValue

/-! `JSON.stringify` with an indentation of two spaces, and what `JSON.parse` makes of its text and
of members that share a name. -/
namespace Dap
open Json

namespace Json

variable {S : Type}

mutual

/-- The text at a margin. Empty arrays and objects stay on one line. -/
def printAt (quote : S → List Char) (margin : List Char) : Json S → List Char
  | .arr [] => ['[', ']']
  | .arr (v :: vs) =>
    '[' :: (printElemsAt quote (margin ++ [' ', ' ']) (v :: vs) ++ '\n' :: (margin ++ [']']))
  | .obj [] => ['{', '}']
  | .obj (m :: ms) =>
    '{' :: (printMembersAt quote (margin ++ [' ', ' ']) (m :: ms) ++ '\n' :: (margin ++ ['}']))
  | v => v.print quote

def printElemsAt (quote : S → List Char) (margin : List Char) : List (Json S) → List Char
  | [] => []
  | [v] => '\n' :: (margin ++ printAt quote margin v)
  | v :: w :: rest =>
    '\n' :: (margin ++ (printAt quote margin v ++ ',' :: printElemsAt quote margin (w :: rest)))

def printMembersAt (quote : S → List Char) (margin : List Char) : List (S × Json S) → List Char
  | [] => []
  | [(k, v)] => '\n' :: (margin ++ (quote k ++ ':' :: ' ' :: printAt quote margin v))
  | (k, v) :: w :: rest => '\n' :: (margin ++ (quote k ++ ':' :: ' ' ::
      (printAt quote margin v ++ ',' :: printMembersAt quote margin (w :: rest))))

end

mutual

/-- Objects and strings only. -/
def Textual : Json S → Prop
  | .str _ => True
  | .obj members => TextualMembers members
  | _ => False

def TextualMembers : List (S × Json S) → Prop
  | [] => True
  | (_, v) :: rest => Textual v ∧ TextualMembers rest

end

end Json

namespace JsParse

/-! ### Reading back -/

def Blank (margin : List Char) : Prop := ∀ c ∈ margin, isSpace c = true

theorem Blank.indented {margin : List Char} (h : Blank margin) : Blank (margin ++ [' ', ' ']) := by
  intro c hc
  rcases List.mem_append.mp hc with hc | hc
  · exact h c hc
  · obtain rfl : c = ' ' := by simpa using hc
    rfl

theorem skipSpace_blank {margin : List Char} (h : Blank margin) (cs : List Char) :
    skipSpace ('\n' :: (margin ++ cs)) = skipSpace cs := by
  have hline : Blank ('\n' :: margin) := by
    intro c hc
    rcases List.mem_cons.mp hc with rfl | hc
    · rfl
    · exact h c hc
  show List.dropWhile isSpace (('\n' :: margin) ++ cs) = _
  exact List.dropWhile_append_of_pos hline

theorem skipSpace_skipSpace (cs : List Char) : skipSpace (skipSpace cs) = skipSpace cs :=
  List.dropWhile_idempotent _ _

theorem readMembers_skipSpace (fuel : ℕ) (cs : List Char) :
    readMembers fuel (skipSpace cs) = readMembers fuel cs := by
  cases fuel with
  | zero => rfl
  | succ fuel => rw [readMembers, readMembers, skipSpace_skipSpace]

theorem readValue_space (fuel : ℕ) (cs : List Char) :
    readValue fuel (' ' :: cs) = readValue fuel cs := by
  cases fuel with
  | zero => rfl
  | succ fuel =>
    have hskip : skipSpace (' ' :: cs) = skipSpace cs := rfl
    rw [readValue, readValue, hskip]

theorem printMembersAt_head {margin : List Char} (h : Blank margin) (m : JsString × Json JsString)
    (ms : List (JsString × Json JsString)) (rest : List Char) :
    ∃ cs, skipSpace (printMembersAt JsString.quote margin (m :: ms) ++ rest) = '"' :: cs := by
  obtain ⟨body, hb, -⟩ := readString_quote m.1
  cases ms with
  | nil =>
    simp only [printMembersAt, List.cons_append, List.append_assoc]
    rw [skipSpace_blank h, hb, List.cons_append, skipSpace_cons (by decide)]
    exact ⟨_, rfl⟩
  | cons w ms =>
    simp only [printMembersAt, List.cons_append, List.append_assoc]
    rw [skipSpace_blank h, hb, List.cons_append, skipSpace_cons (by decide)]
    exact ⟨_, rfl⟩

mutual

theorem readValue_printAt : ∀ (v : Json JsString) (fuel : ℕ) (margin rest : List Char), Textual v →
    Blank margin → (v.printAt JsString.quote margin).length ≤ fuel →
    readValue fuel (v.printAt JsString.quote margin ++ rest) = some (v, rest)
  | .null, _, _, _, hv, _, _ => hv.elim
  | .bool _, _, _, _, hv, _, _ => hv.elim
  | .num _, _, _, _, hv, _, _ => hv.elim
  | .arr _, _, _, _, hv, _, _ => hv.elim
  | .str s, 0, margin, rest, _, _, hfuel => by
    obtain ⟨body, hb, -⟩ := readString_quote s
    simp [printAt, print, hb] at hfuel
  | .str s, fuel + 1, margin, rest, _, _, _ => by
    obtain ⟨body, hb, hread⟩ := readString_quote s
    simp [printAt, print, hb, readValue, skipSpace_cons, isSpace, hread]
  | .obj [], 0, margin, rest, _, _, hfuel => by simp [printAt] at hfuel
  | .obj [], fuel + 1, margin, rest, _, _, _ => by
    simp [printAt, readValue, skipSpace_cons, isSpace]
  | .obj (m :: ms), 0, margin, rest, _, _, hfuel => by simp [printAt] at hfuel
  | .obj (m :: ms), fuel + 1, margin, rest, hv, hmargin, hfuel => by
    have hlen : (printMembersAt JsString.quote (margin ++ [' ', ' ']) (m :: ms)).length < fuel := by
      simp only [printAt, List.length_cons, List.length_append, List.length_nil] at hfuel
      omega
    have hread := readMembers_printAt (m :: ms) fuel (margin ++ [' ', ' ']) margin rest (by simp) hv
      hmargin.indented hmargin hlen
    obtain ⟨cs, hcs⟩ := printMembersAt_head hmargin.indented m ms
      ('\n' :: (margin ++ '}' :: rest))
    rw [← readMembers_skipSpace, hcs] at hread
    simp only [printAt, List.cons_append, List.append_assoc, List.nil_append, readValue,
      skipSpace_cons (c := '{') rfl, if_true, hcs]
    simp [hread]

theorem readMembers_printAt : ∀ (ms : List (JsString × Json JsString)) (fuel : ℕ)
    (margin outer rest : List Char), ms ≠ [] → TextualMembers ms → Blank margin → Blank outer →
    (printMembersAt JsString.quote margin ms).length < fuel →
    readMembers fuel (printMembersAt JsString.quote margin ms ++ '\n' :: (outer ++ '}' :: rest)) =
      some (ms, rest)
  | [], _, _, _, _, hne, _, _, _, _ => absurd rfl hne
  | _ :: _, 0, _, _, _, _, _, _, _, hfuel => absurd hfuel (by omega)
  | [(k, v)], fuel + 1, margin, outer, rest, _, hv, hmargin, houter, hfuel => by
    simp only [printMembersAt, List.length_append, List.length_cons] at hfuel
    obtain ⟨body, hb, hkey⟩ := readString_quote k
    have hread := readValue_printAt v fuel margin ('\n' :: (outer ++ '}' :: rest)) hv.1 hmargin
      (by omega)
    have hclose : skipSpace ('\n' :: (outer ++ '}' :: rest)) = '}' :: rest := by
      rw [skipSpace_blank houter, skipSpace_cons (by decide)]
    simp only [printMembersAt, List.cons_append, List.append_assoc, readMembers,
      skipSpace_blank hmargin, hb, skipSpace_cons (c := '"') rfl, hkey,
      skipSpace_cons (c := ':') rfl, readValue_space, hread, hclose, bind, Option.bind]
    rfl
  | (k, v) :: w :: ms, fuel + 1, margin, outer, rest, _, hv, hmargin, houter, hfuel => by
    simp only [printMembersAt, List.length_append, List.length_cons] at hfuel
    obtain ⟨body, hb, hkey⟩ := readString_quote k
    have hread := readValue_printAt v fuel margin
      (',' :: (printMembersAt JsString.quote margin (w :: ms) ++ '\n' :: (outer ++ '}' :: rest)))
      hv.1 hmargin (by omega)
    have htail := readMembers_printAt (w :: ms) fuel margin outer rest (by simp) hv.2 hmargin houter
      (by omega)
    simp only [printMembersAt, List.cons_append, List.append_assoc, readMembers,
      skipSpace_blank hmargin, hb, skipSpace_cons (c := '"') rfl, hkey,
      skipSpace_cons (c := ':') rfl, skipSpace_cons (c := ',') rfl, readValue_space, hread, htail,
      bind, Option.bind]
    rfl

end

/-- An indented text and its final newline parse as the value that was printed. -/
theorem parse_printAt {v : Json JsString} (hv : Textual v) :
    parse (v.printAt JsString.quote [] ++ ['\n']) = some v := by
  have hread := readValue_printAt v
    ((v.printAt JsString.quote [] ++ ['\n']).length + 1) [] ['\n'] hv
    (by simp [Blank]) (by simp only [List.length_append]; omega)
  rw [parse, hread]
  rfl

/-! ### Members of one name -/

theorem made_ofMembers {V : Type} {ms : List (JsString × V)} (h : (ms.map Prod.fst).Nodup) :
    (JsObject.ofMembers ms).made.entries = ms := by
  have hempty : (∅ : JsMap JsString V).entries = [] := rfl
  have hfold := @JsObject.entries_foldl_set V ms ∅ (by rwa [hempty, List.nil_append])
  rwa [hempty, List.nil_append] at hfold

mutual

/-- The last of the members that share a name counts, at every depth. -/
def resolve : Json JsString → Json JsString
  | .arr elems => .arr (resolveElems elems)
  | .obj members => .obj (JsObject.ofMembers (resolveMembers members)).made.entries
  | v => v

def resolveElems : List (Json JsString) → List (Json JsString)
  | [] => []
  | v :: rest => resolve v :: resolveElems rest

def resolveMembers : List (JsString × Json JsString) → List (JsString × Json JsString)
  | [] => []
  | (k, v) :: rest => (k, resolve v) :: resolveMembers rest

end

/-- `JSON.parse`. -/
def jsonParse (text : List Char) : Option (Json JsString) := (parse text).map resolve

theorem nodup_of_jsonParse {text : List Char} {ms : List (JsString × Json JsString)}
    (h : jsonParse text = some (.obj ms)) : (ms.map Prod.fst).Nodup := by
  obtain ⟨v, -, hv⟩ := Option.map_eq_some_iff.mp h
  cases v with
  | obj members =>
    simp only [resolve, Json.obj.injEq] at hv
    rw [← hv]
    exact JsMap.nodup _
  | null | bool _ | num _ | str _ | arr _ => simp [resolve] at hv

theorem resolveMembers_self {ms : List (JsString × Json JsString)}
    (h : ∀ m ∈ ms, resolve m.2 = m.2) : resolveMembers ms = ms := by
  induction ms with
  | nil => rfl
  | cons m ms ih =>
    rw [resolveMembers, h m (by simp), ih fun n hn => h n (List.mem_cons_of_mem _ hn)]

theorem resolve_obj {ms : List (JsString × Json JsString)} (hms : (ms.map Prod.fst).Nodup)
    (h : ∀ m ∈ ms, resolve m.2 = m.2) : resolve (.obj ms) = .obj ms := by
  rw [resolve, resolveMembers_self h, made_ofMembers hms]

end JsParse
end Dap
