import Dap.Lib.JsonValue
import Dap.Lib.JsString

/-! The normal form of a JSON value whose objects are sorted and stripped of `sig`, as
`canonicalJson` of `adapters/mcp-bridge/src/crypto.ts` prints it. -/
namespace Dap

namespace Json

def sigKey : JsString := JsString.ofString "sig"

mutual

/-- What `canonicalJson` prints of a JSON value. -/
def normalForm : Json JsString → Json JsString
  | .arr elems => .arr (normalElems elems)
  | .obj members => .obj ((normalMembers members).insertionSort fun a b => a.1 ≤ b.1)
  | v => v

def normalElems : List (Json JsString) → List (Json JsString)
  | [] => []
  | v :: rest => normalForm v :: normalElems rest

def normalMembers : List (JsString × Json JsString) → List (JsString × Json JsString)
  | [] => []
  | (k, v) :: rest =>
    if k = sigKey then normalMembers rest else (k, normalForm v) :: normalMembers rest

end

def withoutSig : Json JsString → Json JsString
  | .obj members => .obj (members.filter fun m => m.1 ≠ sigKey)
  | v => v

/-- Equal apart from a `sig` member of their own. -/
def SameButSig (v w : Json JsString) : Prop := Same v.withoutSig w.withoutSig

instance : Std.Total fun a b : JsString × Json JsString => a.1 ≤ b.1 :=
  ⟨fun a b => List.le_total a.1 b.1⟩

instance : IsTrans (JsString × Json JsString) fun a b => a.1 ≤ b.1 :=
  ⟨fun _ _ _ => List.le_trans⟩

theorem insertionSort_eq_of_perm {as bs : List (JsString × Json JsString)} (h : as.Perm bs)
    (hkeys : (as.map Prod.fst).Nodup) :
    as.insertionSort (fun a b => a.1 ≤ b.1) = bs.insertionSort fun a b => a.1 ≤ b.1 := by
  have hsorted := List.pairwise_insertionSort fun a b : JsString × Json JsString => a.1 ≤ b.1
  have hperm := List.perm_insertionSort fun a b : JsString × Json JsString => a.1 ≤ b.1
  apply List.Perm.eq_of_pairwise _ (hsorted as) (hsorted bs)
  · exact (hperm as).trans (h.trans (hperm bs).symm)
  · intro a b ha hb hab hba
    have ha' := (hperm as).mem_iff.mp ha
    have hb' := h.mem_iff.mpr ((hperm bs).mem_iff.mp hb)
    exact List.inj_on_of_nodup_map hkeys ha' hb' (List.le_antisymm hab hba)

theorem perm_of_insertionSort_eq {as bs : List (JsString × Json JsString)}
    (h : as.insertionSort (fun a b => a.1 ≤ b.1) = bs.insertionSort fun a b => a.1 ≤ b.1) :
    as.Perm bs := by
  have hbs := List.perm_insertionSort (fun a b : JsString × Json JsString => a.1 ≤ b.1) bs
  rw [← h] at hbs
  exact (List.perm_insertionSort _ as).symm.trans hbs

theorem normalMembers_eq_map (ms : List (JsString × Json JsString)) :
    normalMembers ms = (ms.filter fun m => m.1 ≠ sigKey).map fun m => (m.1, m.2.normalForm) := by
  induction ms with
  | nil => rfl
  | cons m ms ih =>
    rw [normalMembers, ih]
    by_cases h : m.1 = sigKey <;> simp [h]

theorem keys_normalMembers (ms : List (JsString × Json JsString)) :
    ((normalMembers ms).map Prod.fst).Sublist (ms.map Prod.fst) := by
  rw [normalMembers_eq_map, List.map_map]
  exact List.filter_sublist.map Prod.fst

mutual

theorem Same.normalForm_eq : ∀ {v w : Json JsString}, Same v w → Proper w →
    normalForm v = normalForm w
  | .null, _, h, _ | .bool _, _, h, _ | .num _, _, h, _ | .str _, _, h, _ => by
    rw [show _ = _ from h]
  | .arr elems, _, ⟨elems', rfl, h⟩, hp => by
    rw [normalForm, normalForm, SameElems.normalElems_eq h hp]
  | .obj members, _, ⟨members', members'', rfl, hperm, h⟩, hp => by
    have hproper' : ProperMembers members' := (properMembers_iff _).mpr fun m hm =>
      (properMembers_iff _).mp hp.2 m (hperm.mem_iff.mp hm)
    have hsorted : (normalMembers members').insertionSort (fun a b => a.1 ≤ b.1) =
        (normalMembers members'').insertionSort fun a b => a.1 ≤ b.1 := by
      apply insertionSort_eq_of_perm
      · rw [normalMembers_eq_map, normalMembers_eq_map]
        exact (hperm.filter _).map _
      · exact ((hperm.map Prod.fst).nodup_iff.mpr hp.1).sublist (keys_normalMembers members')
    rw [normalForm, normalForm, SameMembers.normalMembers_eq h hproper', hsorted]

theorem SameElems.normalElems_eq : ∀ {vs ws : List (Json JsString)}, SameElems vs ws →
    ProperElems ws → normalElems vs = normalElems ws
  | [], _, h, _ => by rw [show _ = _ from h]
  | _ :: _, _, ⟨_, _, rfl, hv, hrest⟩, hp => by
    rw [normalElems, normalElems, Same.normalForm_eq hv hp.1, SameElems.normalElems_eq hrest hp.2]

theorem SameMembers.normalMembers_eq : ∀ {ms ns : List (JsString × Json JsString)},
    SameMembers ms ns → ProperMembers ns → normalMembers ms = normalMembers ns
  | [], _, h, _ => by rw [show _ = _ from h]
  | (_, _) :: _, _, ⟨_, _, rfl, hv, hrest⟩, hp => by
    rw [normalMembers, normalMembers, Same.normalForm_eq hv hp.1,
      SameMembers.normalMembers_eq hrest hp.2]

end

/-! ### Values without objects inside -/

mutual

theorem holdsObject_normalForm : ∀ v : Json JsString, v.normalForm.holdsObject = v.holdsObject
  | .null | .bool _ | .num _ | .str _ | .obj _ => rfl
  | .arr elems => holdsObjectElems_normalElems elems

theorem holdsObjectElems_normalElems : ∀ vs : List (Json JsString),
    holdsObjectElems (normalElems vs) = holdsObjectElems vs
  | [] => rfl
  | v :: rest => by
    rw [normalElems, holdsObjectElems, holdsObjectElems, holdsObject_normalForm v,
      holdsObjectElems_normalElems rest]

end

mutual

theorem normalForm_of_not_holdsObject : ∀ {v : Json JsString}, v.holdsObject = false →
    v.normalForm = v
  | .null, _ | .bool _, _ | .num _, _ | .str _, _ => rfl
  | .obj _, h => nomatch h
  | .arr elems, h => by rw [normalForm, normalElems_of_not_holdsObject h]

theorem normalElems_of_not_holdsObject : ∀ {vs : List (Json JsString)},
    holdsObjectElems vs = false → normalElems vs = vs
  | [], _ => rfl
  | v :: rest, h => by
    rw [holdsObjectElems, Bool.or_eq_false_iff] at h
    rw [normalElems, normalForm_of_not_holdsObject h.1, normalElems_of_not_holdsObject h.2]

end

/-- No member apart from `sig` holds an object. -/
def Flat (members : List (JsString × Json JsString)) : Prop :=
  ∀ m ∈ members, m.1 ≠ sigKey → m.2.holdsObject = false

instance (members : List (JsString × Json JsString)) : Decidable (Flat members) := by
  unfold Flat
  infer_instance

theorem Flat.normalMembers_eq {ms : List (JsString × Json JsString)} (h : Flat ms) :
    normalMembers ms = ms.filter fun m => m.1 ≠ sigKey := by
  have hid : ∀ m ∈ ms.filter fun m => m.1 ≠ sigKey, (m.1, m.2.normalForm) = m := by
    intro m hm
    obtain ⟨hmem, hkey⟩ := List.mem_filter.mp hm
    rw [normalForm_of_not_holdsObject (h m hmem (by simpa using hkey))]
  rw [normalMembers_eq_map, List.map_congr_left hid, List.map_id']

/-- The normal form of a flat object is that of no other object. -/
theorem Flat.sameButSig {ms ns : List (JsString × Json JsString)} (h : Flat ms)
    (hsame : normalForm (.obj ms) = normalForm (.obj ns)) : SameButSig (.obj ms) (.obj ns) := by
  have hperm : (normalMembers ms).Perm (normalMembers ns) :=
    perm_of_insertionSort_eq (Json.obj.inj hsame)
  have hflat : Flat ns := by
    intro n hn hkey
    have hmem : (n.1, n.2.normalForm) ∈ normalMembers ns := by
      rw [normalMembers_eq_map]
      exact List.mem_map.mpr ⟨n, List.mem_filter.mpr ⟨hn, by simpa using hkey⟩, rfl⟩
    have hmem' := hperm.mem_iff.mpr hmem
    rw [h.normalMembers_eq] at hmem'
    rw [← holdsObject_normalForm]
    exact h _ (List.mem_filter.mp hmem').1 hkey
  rw [h.normalMembers_eq, hflat.normalMembers_eq] at hperm
  exact same_of_perm hperm

end Json

end Dap
