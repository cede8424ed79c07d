import Dap.Adapter.Crypto
import Dap.Adapter.NormalForm
import Dap.Lib.JsParse

/-! What canonical JSON tells of a value, and what it leaves out (`canonicalJson` of
`adapters/mcp-bridge/src/crypto.ts`). -/
namespace Dap
open Json

/-! ### The values of a program -/

namespace JsValue

mutual

/-- No object has two members of one name. -/
def Proper : JsValue → Prop
  | .arr elems => ProperElems elems
  | .obj members => (members.map Prod.fst).Nodup ∧ ProperMembers members
  | _ => True

def ProperElems : List JsValue → Prop
  | [] => True
  | v :: rest => Proper v ∧ ProperElems rest

def ProperMembers : List (JsString × JsValue) → Prop
  | [] => True
  | (_, v) :: rest => Proper v ∧ ProperMembers rest

end

/-- A member that is there already keeps its place. -/
def assign (members : List (JsString × JsValue)) (m : JsString × JsValue) :
    List (JsString × JsValue) :=
  if m.1 ∈ members.map Prod.fst then members.map fun n => if n.1 = m.1 then m else n
  else members ++ [m]

mutual

def ofJson : Json JsString → JsValue
  | .null => .null
  | .bool b => .bool b
  | .num literal => .num (JsNumber.ofLiteral literal)
  | .str s => .str s
  | .arr elems => .arr (ofJsonElems elems)
  | .obj members => .obj ((ofJsonMembers members).foldl assign [])

def ofJsonElems : List (Json JsString) → List JsValue
  | [] => []
  | v :: rest => ofJson v :: ofJsonElems rest

def ofJsonMembers : List (JsString × Json JsString) → List (JsString × JsValue)
  | [] => []
  | (k, v) :: rest => (k, ofJson v) :: ofJsonMembers rest

end

/-- `JSON.parse`; `none` where it throws. -/
def parse (text : JsString) : Option JsValue := (JsParse.parse text.scalars.toList).map ofJson

/-- The same JSON value, whatever order the members were set in. -/
def Equal (v w : JsValue) : Prop := ∃ j j', v.json = some j ∧ w.json = some j' ∧ j.Same j'

/-- Canonical JSON is the same for equal values, survives a trip over the wire, and for an object
tells everything but its `sig`. -/
structure Faithful (v : JsValue) : Prop where
  order : ∀ w : JsValue, w.Proper → w.Equal v → w.canonicalJson = v.canonicalJson
  roundTrip : ∀ text, v.stringify = some text →
    (parse text).map canonicalJson = some v.canonicalJson
  covers : ∀ ms ns, v = .obj ms → (JsValue.obj ns).Proper →
    (JsValue.obj ns).canonicalJson = v.canonicalJson →
      SameButSig (.obj (jsonMembers ms)) (.obj (jsonMembers ns))

/-- No object inside an object, apart from what its `sig` holds. -/
def Flat : JsValue → Prop
  | .obj members => Json.Flat (jsonMembers members)
  | _ => True

/-! ### Canonical JSON is a function of the JSON value -/

theorem jsonMembers_cons {k : JsString} {v : JsValue} {j : Json JsString} (h : v.json = some j)
    (rest : List (JsString × JsValue)) :
    jsonMembers ((k, v) :: rest) = (k, j) :: jsonMembers rest := by
  rw [jsonMembers, h]

theorem json_eq_some {v : JsValue} (h : v ≠ .undefined) : ∃ j, v.json = some j := by
  cases v with
  | undefined => exact absurd rfl h
  | _ => exact ⟨_, rfl⟩

theorem canonicalMembers_cons {k : JsString} {v : JsValue} (h : v ≠ .undefined)
    (rest : List (JsString × JsValue)) : canonicalMembers ((k, v) :: rest) =
      if k = sigKey then canonicalMembers rest else (k, v.canonical) :: canonicalMembers rest := by
  cases v with
  | undefined => exact absurd rfl h
  | _ => rfl

mutual

theorem canonical_eq_normalForm : ∀ v : JsValue, v.canonical = (v.json.getD .null).normalForm
  | .undefined | .null | .bool _ | .num _ | .str _ => rfl
  | .arr elems => congrArg Json.arr (canonicalElems_eq_normalElems elems)
  | .obj members => by
    rw [canonical, canonicalMembers_eq_normalMembers members]
    rfl

theorem canonicalElems_eq_normalElems : ∀ vs : List JsValue,
    canonicalElems vs = normalElems (jsonElems vs)
  | [] => rfl
  | v :: rest => by
    rw [canonicalElems, jsonElems, normalElems, canonical_eq_normalForm v,
      canonicalElems_eq_normalElems rest]

theorem canonicalMembers_eq_normalMembers : ∀ ms : List (JsString × JsValue),
    canonicalMembers ms = normalMembers (jsonMembers ms)
  | [] => rfl
  | (k, v) :: rest => by
    have hrest := canonicalMembers_eq_normalMembers rest
    have hv := canonical_eq_normalForm v
    by_cases hundef : v = .undefined
    · subst hundef
      exact hrest
    · obtain ⟨j, hj⟩ := json_eq_some hundef
      rw [canonicalMembers_cons hundef, jsonMembers_cons hj, normalMembers, hrest, hv, hj]
      rfl

end

theorem keys_jsonMembers (ms : List (JsString × JsValue)) :
    ((jsonMembers ms).map Prod.fst).Sublist (ms.map Prod.fst) := by
  induction ms with
  | nil => exact List.Sublist.refl _
  | cons m ms ih =>
    obtain ⟨k, v⟩ := m
    rw [jsonMembers]
    split
    · exact ih.cons k
    · exact ih.cons_cons k

mutual

theorem Proper.json : ∀ {v : JsValue} {j : Json JsString}, v.Proper → v.json = some j → j.Proper
  | .undefined, _, _, h => nomatch h
  | .null, _, _, rfl | .bool _, _, _, rfl | .num _, _, _, rfl | .str _, _, _, rfl => trivial
  | .arr _, _, hp, rfl => ProperElems.json hp
  | .obj members, _, hp, rfl =>
    ⟨hp.1.sublist (keys_jsonMembers members), ProperMembers.json hp.2⟩

theorem ProperElems.json : ∀ {vs : List JsValue}, ProperElems vs → Json.ProperElems (jsonElems vs)
  | [], _ => trivial
  | v :: _, hp => by
    refine ⟨?_, ProperElems.json hp.2⟩
    cases hv : v.json with
    | none => trivial
    | some j => exact Proper.json hp.1 hv

theorem ProperMembers.json : ∀ {ms : List (JsString × JsValue)}, ProperMembers ms →
    Json.ProperMembers (jsonMembers ms)
  | [], _ => trivial
  | (_, v) :: _, hp => by
    rw [jsonMembers]
    cases hv : v.json with
    | none => exact ProperMembers.json hp.2
    | some j => exact ⟨Proper.json hp.1 hv, ProperMembers.json hp.2⟩

end

theorem canonical_eq_of_equal {v w : JsValue} (hp : w.Proper) (h : v.Equal w) :
    v.canonical = w.canonical := by
  obtain ⟨j, j', hv, hw, hsame⟩ := h
  rw [canonical_eq_normalForm, canonical_eq_normalForm, hv, hw]
  exact hsame.normalForm_eq (hp.json hw)

/-! ### Over the wire -/

open JsParse (Numerals NumeralsElems NumeralsMembers)

theorem numeralsMembers_iff (ms : List (JsString × Json JsString)) :
    NumeralsMembers ms ↔ ∀ m ∈ ms, Numerals m.2 := by
  induction ms with
  | nil => simp [NumeralsMembers]
  | cons m ms ih => rw [NumeralsMembers, ih, List.forall_mem_cons]

mutual

theorem numerals_json : ∀ {v : JsValue} {j : Json JsString}, v.json = some j → Numerals j
  | .undefined, _, h => nomatch h
  | .null, _, rfl | .bool _, _, rfl | .str _, _, rfl => trivial
  | .num x, _, rfl => x.numeric_text
  | .arr elems, _, rfl => numerals_jsonElems elems
  | .obj members, _, rfl => numerals_jsonMembers members

theorem numerals_jsonElems : ∀ vs : List JsValue, NumeralsElems (jsonElems vs)
  | [] => trivial
  | v :: rest => by
    refine ⟨?_, numerals_jsonElems rest⟩
    cases hv : v.json with
    | none => trivial
    | some j => exact numerals_json hv

theorem numerals_jsonMembers : ∀ ms : List (JsString × JsValue), NumeralsMembers (jsonMembers ms)
  | [] => trivial
  | (_, v) :: rest => by
    rw [jsonMembers]
    cases hv : v.json with
    | none => exact numerals_jsonMembers rest
    | some j => exact ⟨numerals_json hv, numerals_jsonMembers rest⟩

end

mutual

theorem numerals_normalForm : ∀ {v : Json JsString}, Numerals v → Numerals v.normalForm
  | .null, _ | .bool _, _ | .str _, _ => trivial
  | .num _, h => h
  | .arr _, h => numerals_normalElems h
  | .obj members, h => by
    have hmembers := numerals_normalMembers h
    rw [numeralsMembers_iff] at hmembers
    exact (numeralsMembers_iff _).mpr fun m hm =>
      hmembers m ((List.perm_insertionSort _ _).mem_iff.mp hm)

theorem numerals_normalElems : ∀ {vs : List (Json JsString)}, NumeralsElems vs →
    NumeralsElems (normalElems vs)
  | [], _ => trivial
  | _ :: _, h => ⟨numerals_normalForm h.1, numerals_normalElems h.2⟩

theorem numerals_normalMembers : ∀ {ms : List (JsString × Json JsString)}, NumeralsMembers ms →
    NumeralsMembers (normalMembers ms)
  | [], _ => trivial
  | (k, v) :: rest, h => by
    rw [normalMembers]
    split
    · exact numerals_normalMembers h.2
    · exact ⟨numerals_normalForm h.1, numerals_normalMembers h.2⟩

end

theorem numerals_canonical (v : JsValue) : Numerals v.canonical := by
  rw [canonical_eq_normalForm]
  cases hv : v.json with
  | none => trivial
  | some j => exact numerals_normalForm (numerals_json hv)

/-- The canonical text tells the canonical value. -/
theorem canonicalJson_inj {v w : JsValue} (h : v.canonicalJson = w.canonicalJson) :
    v.canonical = w.canonical := by
  have htext : v.canonicalText = w.canonicalText := by
    have hscalars := congrArg (fun s => s.scalars.toList) h
    simpa [canonicalJson] using hscalars
  exact JsParse.print_injective (numerals_canonical v) (numerals_canonical w) htext

theorem foldl_assign {acc ms : List (JsString × JsValue)}
    (h : ((acc ++ ms).map Prod.fst).Nodup) : ms.foldl assign acc = acc ++ ms := by
  induction ms generalizing acc with
  | nil => simp
  | cons m ms ih =>
    have hnew : m.1 ∉ acc.map Prod.fst := by
      rw [List.map_append, List.map_cons] at h
      intro hmem
      exact (List.nodup_append.mp h).2.2 m.1 hmem m.1 (by simp) rfl
    have hstep : assign acc m = acc ++ [m] := if_neg hnew
    rw [List.foldl_cons, hstep, ih (by rwa [List.append_assoc]), List.append_assoc]
    rfl

theorem keys_ofJsonMembers (ms : List (JsString × Json JsString)) :
    (ofJsonMembers ms).map Prod.fst = ms.map Prod.fst := by
  induction ms with
  | nil => rfl
  | cons m ms ih => rw [ofJsonMembers, List.map_cons, List.map_cons, ih]

mutual

theorem json_ofJson : ∀ {v : JsValue} {j : Json JsString}, v.Proper → v.json = some j →
    (ofJson j).json = some j
  | .undefined, _, _, h => nomatch h
  | .null, _, _, rfl | .bool _, _, _, rfl | .str _, _, _, rfl => rfl
  | .num x, _, _, rfl => by rw [ofJson, JsNumber.ofLiteral_text, json]
  | .arr elems, _, hp, rfl => by rw [ofJson, json, jsonElems_ofJsonElems hp]
  | .obj members, _, hp, rfl => by
    have hkeys : ((ofJsonMembers (jsonMembers members)).map Prod.fst).Nodup := by
      rw [keys_ofJsonMembers]
      exact hp.1.sublist (keys_jsonMembers members)
    have hassign := @foldl_assign [] _ hkeys
    rw [ofJson, hassign, List.nil_append, json, jsonMembers_ofJsonMembers hp.2]

theorem jsonElems_ofJsonElems : ∀ {vs : List JsValue}, ProperElems vs →
    jsonElems (ofJsonElems (jsonElems vs)) = jsonElems vs
  | [], _ => rfl
  | v :: _, hp => by
    rw [jsonElems, ofJsonElems, jsonElems, jsonElems_ofJsonElems hp.2]
    cases hv : v.json with
    | none => rfl
    | some j => rw [Option.getD_some, json_ofJson hp.1 hv, Option.getD_some]

theorem jsonMembers_ofJsonMembers : ∀ {ms : List (JsString × JsValue)}, ProperMembers ms →
    jsonMembers (ofJsonMembers (jsonMembers ms)) = jsonMembers ms
  | [], _ => rfl
  | (k, v) :: rest, hp => by
    cases hv : v.json with
    | none =>
      have hskip : jsonMembers ((k, v) :: rest) = jsonMembers rest := by rw [jsonMembers, hv]
      rw [hskip, jsonMembers_ofJsonMembers hp.2]
    | some j =>
      rw [jsonMembers_cons hv, ofJsonMembers, jsonMembers_cons (json_ofJson hp.1 hv),
        jsonMembers_ofJsonMembers hp.2]

end

/-- What arrives is the value that was sent, as far as JSON goes. -/
theorem parse_stringify {v : JsValue} (hp : v.Proper) {text : JsString}
    (h : v.stringify = some text) : ∃ j, v.json = some j ∧ parse text = some (ofJson j) ∧
      (ofJson j).json = some j := by
  obtain ⟨j, hj, rfl⟩ := Option.map_eq_some_iff.mp h
  refine ⟨j, hj, ?_, json_ofJson hp hj⟩
  rw [parse, JsString.scalars_ofChars, String.toList_ofList,
    JsParse.parse_print (numerals_json hj), Option.map_some]

theorem canonicalJson_parse {v : JsValue} (hp : v.Proper) {text : JsString}
    (h : v.stringify = some text) : (parse text).map canonicalJson = some v.canonicalJson := by
  obtain ⟨j, hj, hparse, hback⟩ := parse_stringify hp h
  rw [hparse, Option.map_some, canonicalJson, canonicalJson, canonicalText, canonicalText,
    canonical_eq_normalForm, canonical_eq_normalForm, hj, hback]

/-! ### Signatures inside -/

mutual

/-- `x` as the `sig` of every object in a value. -/
def brand (x : JsValue) : JsValue → JsValue
  | .arr elems => .arr (brandElems x elems)
  | .obj members => .obj ((sigKey, x) :: brandMembers x members)
  | v => v

def brandElems (x : JsValue) : List JsValue → List JsValue
  | [] => []
  | v :: rest => brand x v :: brandElems x rest

def brandMembers (x : JsValue) : List (JsString × JsValue) → List (JsString × JsValue)
  | [] => []
  | (k, v) :: rest =>
    if k = sigKey then brandMembers x rest else (k, brand x v) :: brandMembers x rest

end

theorem brand_ne_undefined {x v : JsValue} (h : v ≠ .undefined) : brand x v ≠ .undefined := by
  cases v with
  | undefined => exact absurd rfl h
  | _ => simp [brand]

theorem keys_brandMembers (x : JsValue) (ms : List (JsString × JsValue)) :
    (brandMembers x ms).map Prod.fst = (ms.map Prod.fst).filter fun k => k ≠ sigKey := by
  induction ms with
  | nil => rfl
  | cons m ms ih =>
    rw [brandMembers]
    by_cases hsig : m.1 = sigKey
    · rw [if_pos hsig, ih]
      simp [hsig]
    · rw [if_neg hsig, List.map_cons, ih]
      simp [hsig]

section

variable {x : JsValue}

mutual

theorem canonical_brand (hx : x ≠ .undefined) : ∀ v : JsValue, (brand x v).canonical = v.canonical
  | .undefined | .null | .bool _ | .num _ | .str _ => rfl
  | .arr elems => congrArg Json.arr (canonicalElems_brandElems hx elems)
  | .obj members => by
    rw [brand, canonical, canonicalMembers_cons hx, if_pos rfl,
      canonicalMembers_brandMembers hx members, canonical]

theorem canonicalElems_brandElems (hx : x ≠ .undefined) : ∀ vs : List JsValue,
    canonicalElems (brandElems x vs) = canonicalElems vs
  | [] => rfl
  | v :: rest => by
    rw [brandElems, canonicalElems, canonicalElems, canonical_brand hx v,
      canonicalElems_brandElems hx rest]

theorem canonicalMembers_brandMembers (hx : x ≠ .undefined) : ∀ ms : List (JsString × JsValue),
    canonicalMembers (brandMembers x ms) = canonicalMembers ms
  | [] => rfl
  | (k, v) :: rest => by
    have hrest := canonicalMembers_brandMembers hx rest
    have hv := canonical_brand hx v
    rw [brandMembers]
    by_cases hundef : v = .undefined
    · subst hundef
      split
      · exact hrest
      · exact hrest
    · rw [canonicalMembers_cons hundef]
      split
      · exact hrest
      next hkey => rw [canonicalMembers_cons (brand_ne_undefined hundef), if_neg hkey, hv, hrest]

end

mutual

theorem proper_brand (hx : x.Proper) : ∀ {v : JsValue}, v.Proper → (brand x v).Proper
  | .undefined, _ | .null, _ | .bool _, _ | .num _, _ | .str _, _ => trivial
  | .arr _, h => properElems_brandElems hx h
  | .obj members, h => by
    refine ⟨?_, hx, properMembers_brandMembers hx h.2⟩
    rw [List.map_cons, keys_brandMembers, List.nodup_cons]
    exact ⟨by simp, h.1.filter _⟩

theorem properElems_brandElems (hx : x.Proper) : ∀ {vs : List JsValue}, ProperElems vs →
    ProperElems (brandElems x vs)
  | [], _ => trivial
  | _ :: _, h => ⟨proper_brand hx h.1, properElems_brandElems hx h.2⟩

theorem properMembers_brandMembers (hx : x.Proper) : ∀ {ms : List (JsString × JsValue)},
    ProperMembers ms → ProperMembers (brandMembers x ms)
  | [], _ => trivial
  | (k, v) :: rest, h => by
    rw [brandMembers]
    split
    · exact properMembers_brandMembers hx h.2
    · exact ⟨proper_brand hx h.1, properMembers_brandMembers hx h.2⟩

end

mutual

/-- A value with an object in it has `x` in it once it is branded. -/
theorem nulls_brand {jx : Json JsString} (hx : x.json = some jx) : ∀ {v : JsValue}
    {j : Json JsString}, v.json = some j → j.holdsObject = true →
      ∃ j', (brand x v).json = some j' ∧ jx.nulls ≤ j'.nulls
  | .undefined, _, h, _ => nomatch h
  | .null, _, rfl, h | .bool _, _, rfl, h | .num _, _, rfl, h | .str _, _, rfl, h => nomatch h
  | .arr elems, _, rfl, h => ⟨_, rfl, nullsElems_brandElems hx h⟩
  | .obj members, _, rfl, _ => by
    refine ⟨_, rfl, ?_⟩
    rw [jsonMembers_cons hx, nulls, nullsMembers]
    exact Nat.le_add_right _ _

theorem nullsElems_brandElems {jx : Json JsString} (hx : x.json = some jx) : ∀ {vs : List JsValue},
    holdsObjectElems (jsonElems vs) = true →
      jx.nulls ≤ nullsElems (jsonElems (brandElems x vs))
  | v :: rest, h => by
    rw [jsonElems, holdsObjectElems, Bool.or_eq_true] at h
    rw [brandElems, jsonElems, nullsElems]
    rcases h with hv | hrest
    · cases hj : v.json with
      | none =>
        rw [hj] at hv
        nomatch hv
      | some j =>
        rw [hj] at hv
        obtain ⟨j', hj', hle⟩ := nulls_brand hx hj hv
        rw [hj', Option.getD_some]
        omega
    · have hle := nullsElems_brandElems hx hrest
      omega

end

end

theorem exists_of_mem_jsonMembers {ms : List (JsString × JsValue)} {m : JsString × Json JsString}
    (h : m ∈ jsonMembers ms) : ∃ v, (m.1, v) ∈ ms ∧ v.json = some m.2 := by
  induction ms with
  | nil => nomatch h
  | cons n ms ih =>
    obtain ⟨k, v⟩ := n
    rw [jsonMembers] at h
    split at h
    · obtain ⟨w, hw, hj⟩ := ih h
      exact ⟨w, List.mem_cons_of_mem _ hw, hj⟩
    next j hj =>
      rcases List.mem_cons.mp h with rfl | hmem
      · exact ⟨v, by simp, hj⟩
      · obtain ⟨w, hw, hj'⟩ := ih hmem
        exact ⟨w, List.mem_cons_of_mem _ hw, hj'⟩

theorem mem_jsonMembers {ms : List (JsString × JsValue)} {k : JsString} {v : JsValue}
    {j : Json JsString} (h : (k, v) ∈ ms) (hj : v.json = some j) : (k, j) ∈ jsonMembers ms := by
  induction ms with
  | nil => nomatch h
  | cons n ms ih =>
    obtain ⟨k', v'⟩ := n
    rcases List.mem_cons.mp h with heq | hmem
    · obtain ⟨rfl, rfl⟩ := Prod.mk.inj heq
      rw [jsonMembers_cons hj]
      exact List.mem_cons_self
    · rw [jsonMembers]
      split
      · exact ih hmem
      · exact List.mem_cons_of_mem _ (ih hmem)

theorem mem_brandMembers {x v : JsValue} {k : JsString} {ms : List (JsString × JsValue)}
    (h : (k, v) ∈ ms) (hk : k ≠ sigKey) : (k, brand x v) ∈ brandMembers x ms := by
  induction ms with
  | nil => nomatch h
  | cons n ms ih =>
    obtain ⟨k', v'⟩ := n
    rw [brandMembers]
    rcases List.mem_cons.mp h with heq | hmem
    · obtain ⟨rfl, rfl⟩ := Prod.mk.inj heq
      rw [if_neg hk]
      exact List.mem_cons_self
    · split
      · exact ih hmem
      · exact List.mem_cons_of_mem _ (ih hmem)

/-- `n` nulls in an array. -/
def nullArray (n : ℕ) : JsValue := .arr (List.replicate n .null)

theorem nulls_nullArray (n : ℕ) : ∃ j, (nullArray n).json = some j ∧ j.nulls = n := by
  refine ⟨_, rfl, ?_⟩
  rw [nulls]
  induction n with
  | zero => rfl
  | succ n ih =>
    rw [List.replicate_succ, jsonElems, nullsElems, ih]
    exact Nat.add_comm 1 n

theorem proper_nullArray (n : ℕ) : (nullArray n).Proper := by
  rw [nullArray, Proper]
  induction n with
  | zero => trivial
  | succ n ih => exact ⟨trivial, ih⟩

/-- With an object inside, another object has the same canonical form. -/
theorem exists_same_canonical {ms : List (JsString × JsValue)} (hp : (JsValue.obj ms).Proper)
    (hflat : ¬ Json.Flat (jsonMembers ms)) : ∃ ns, (JsValue.obj ns).Proper ∧
      (JsValue.obj ns).canonical = (JsValue.obj ms).canonical ∧
        ¬ SameButSig (.obj (jsonMembers ms)) (.obj (jsonMembers ns)) := by
  obtain ⟨m, hm, hkey, hobject⟩ : ∃ m ∈ jsonMembers ms, m.1 ≠ sigKey ∧ m.2.holdsObject = true := by
    unfold Json.Flat at hflat
    push Not at hflat
    simpa using hflat
  obtain ⟨v, hv, hj⟩ := exists_of_mem_jsonMembers hm
  obtain ⟨n, hn⟩ : ∃ n, n = nullsMembers ((jsonMembers ms).filter fun m => m.1 ≠ sigKey) :=
    ⟨_, rfl⟩
  obtain ⟨jx, hx, hnulls⟩ := nulls_nullArray (n + 1)
  obtain ⟨j', hj', hle⟩ := nulls_brand hx hj hobject
  refine ⟨brandMembers (nullArray (n + 1)) ms, ⟨?_, ?_⟩, ?_, ?_⟩
  · rw [keys_brandMembers]
    exact hp.1.filter _
  · exact properMembers_brandMembers (proper_nullArray _) hp.2
  · rw [canonical, canonicalMembers_brandMembers (by simp [nullArray]), canonical]
  · intro hsame
    have hmem : (m.1, j') ∈ (jsonMembers (brandMembers (nullArray (n + 1)) ms)).filter
        fun m => m.1 ≠ sigKey :=
      List.mem_filter.mpr ⟨mem_jsonMembers (mem_brandMembers hv hkey) hj', by simpa using hkey⟩
    have heq := hsame.nulls
    simp only [withoutSig, nulls] at heq
    rw [← hn] at heq
    have hbound := nulls_le_nullsMembers hmem
    rw [← heq] at hbound
    change j'.nulls ≤ n at hbound
    omega

/-- Canonical JSON is faithful to exactly the values in which no object holds another, what stands
under `sig` apart. -/
theorem faithful_iff {v : JsValue} (hp : v.Proper) : v.Faithful ↔ v.Flat := by
  constructor
  · intro h
    cases v with
    | obj ms =>
      by_contra hflat
      obtain ⟨ns, hns, hcanonical, hdiffer⟩ := exists_same_canonical hp hflat
      apply hdiffer
      apply h.covers ms ns rfl hns
      rw [canonicalJson, canonicalJson, canonicalText, canonicalText, hcanonical]
    | _ => exact trivial
  · intro h
    constructor
    · intro w _ hequal
      rw [canonicalJson, canonicalJson, canonicalText, canonicalText,
        canonical_eq_of_equal hp hequal]
    · intro text htext
      exact canonicalJson_parse hp htext
    · rintro ms ns rfl hns hsame
      have hcanonical := canonicalJson_inj hsame
      rw [canonical_eq_normalForm, canonical_eq_normalForm] at hcanonical
      exact Json.Flat.sameButSig h hcanonical.symm

/-- A presence frame; the `sig` of a frame may be anything. -/
def presence : JsValue :=
  .obj [("op", .str "presence"), ("filter", .undefined), ("ts", .num 1),
    ("agents", .arr [.null, .str "ab", .arr []]), ("sig", .arr [.obj [("sig", .null)]])]

theorem presence_faithful : presence.Faithful := by
  apply (faithful_iff _).mpr
  · show Json.Flat _
    decide
  · refine ⟨by decide, ?_⟩
    simp [ProperMembers, Proper, ProperElems]

/-- The `sig` of an object inside a frame is in no canonical form. -/
theorem not_faithful_nested : ¬ ∀ v : JsValue, v.Proper → v.Faithful := by
  intro h
  have hproper : (JsValue.obj [("card", .obj [("sig", .null)])]).Proper := by
    simp [Proper, ProperMembers]
  have hbare : (JsValue.obj [("card", .obj [])]).Proper := by
    simp [Proper, ProperMembers]
  have hsame : (JsValue.obj [("card", .obj [])]).canonicalJson =
      (JsValue.obj [("card", .obj [("sig", .null)])]).canonicalJson := by
    simp [canonicalJson, canonicalText, canonical, canonicalMembers]
  have hequal := (h _ hproper).covers _ _ rfl hbare hsame
  have hnulls := hequal.nulls
  have hcard : JsString.ofString "card" ≠ sigKey := by decide
  simp [withoutSig, jsonMembers, json, nulls, nullsMembers, hcard] at hnulls

end JsValue

end Dap
