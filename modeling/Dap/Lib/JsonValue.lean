import Dap.Lib.Json

/-! JSON values up to the order of their members. -/
namespace Dap.Json

variable {S : Type}

mutual

/-- One value, whatever order its members stand in at any depth. -/
def Same : Json S → Json S → Prop
  | .null, w => w = .null
  | .bool b, w => w = .bool b
  | .num literal, w => w = .num literal
  | .str s, w => w = .str s
  | .arr elems, w => ∃ elems', w = .arr elems' ∧ SameElems elems elems'
  | .obj members, w => ∃ members' members'', w = .obj members'' ∧ members'.Perm members'' ∧
      SameMembers members members'

def SameElems : List (Json S) → List (Json S) → Prop
  | [], ws => ws = []
  | v :: rest, ws => ∃ w rest', ws = w :: rest' ∧ Same v w ∧ SameElems rest rest'

def SameMembers : List (S × Json S) → List (S × Json S) → Prop
  | [], ws => ws = []
  | (k, v) :: rest, ws => ∃ w rest', ws = (k, w) :: rest' ∧ Same v w ∧ SameMembers rest rest'

end

mutual

/-- No object has two members of one name. -/
def Proper : Json S → Prop
  | .arr elems => ProperElems elems
  | .obj members => (members.map Prod.fst).Nodup ∧ ProperMembers members
  | _ => True

def ProperElems : List (Json S) → Prop
  | [] => True
  | v :: rest => Proper v ∧ ProperElems rest

def ProperMembers : List (S × Json S) → Prop
  | [] => True
  | (_, v) :: rest => Proper v ∧ ProperMembers rest

end

mutual

def holdsObject : Json S → Bool
  | .arr elems => holdsObjectElems elems
  | .obj _ => true
  | _ => false

def holdsObjectElems : List (Json S) → Bool
  | [] => false
  | v :: rest => holdsObject v || holdsObjectElems rest

end

mutual

/-- How often `null` stands in a value. -/
def nulls : Json S → ℕ
  | .null => 1
  | .arr elems => nullsElems elems
  | .obj members => nullsMembers members
  | _ => 0

def nullsElems : List (Json S) → ℕ
  | [] => 0
  | v :: rest => nulls v + nullsElems rest

def nullsMembers : List (S × Json S) → ℕ
  | [] => 0
  | (_, v) :: rest => nulls v + nullsMembers rest

end

mutual

theorem same_self : ∀ v : Json S, Same v v
  | .null | .bool _ | .num _ | .str _ => rfl
  | .arr elems => ⟨elems, rfl, sameElems_self elems⟩
  | .obj members => ⟨members, members, rfl, List.Perm.refl _, sameMembers_self members⟩

theorem sameElems_self : ∀ vs : List (Json S), SameElems vs vs
  | [] => rfl
  | v :: rest => ⟨v, rest, rfl, same_self v, sameElems_self rest⟩

theorem sameMembers_self : ∀ ms : List (S × Json S), SameMembers ms ms
  | [] => rfl
  | (_, v) :: rest => ⟨v, rest, rfl, same_self v, sameMembers_self rest⟩

end

/-- Members may be put in any order. -/
theorem same_of_perm {ms ms' : List (S × Json S)} (h : ms.Perm ms') :
    Same (.obj ms) (.obj ms') := ⟨ms, ms', rfl, h, sameMembers_self ms⟩

theorem nullsMembers_eq_sum (ms : List (S × Json S)) :
    nullsMembers ms = (ms.map fun m => nulls m.2).sum := by
  induction ms with
  | nil => rfl
  | cons m ms ih => rw [nullsMembers, ih, List.map_cons, List.sum_cons]

theorem nulls_le_nullsMembers {ms : List (S × Json S)} {m : S × Json S} (h : m ∈ ms) :
    nulls m.2 ≤ nullsMembers ms := by
  rw [nullsMembers_eq_sum]
  have hmem : nulls m.2 ∈ ms.map fun m => nulls m.2 := List.mem_map.mpr ⟨m, h, rfl⟩
  exact List.single_le_sum (fun _ _ => Nat.zero_le _) _ hmem

theorem properMembers_iff (ms : List (S × Json S)) :
    ProperMembers ms ↔ ∀ m ∈ ms, Proper m.2 := by
  induction ms with
  | nil => simp [ProperMembers]
  | cons m ms ih => rw [ProperMembers, ih, List.forall_mem_cons]

mutual

theorem Same.nulls : ∀ {v w : Json S}, Same v w → nulls v = nulls w
  | .null, _, h | .bool _, _, h | .num _, _, h | .str _, _, h => by rw [show _ = _ from h]
  | .arr elems, _, ⟨elems', rfl, h⟩ => SameElems.nulls h
  | .obj members, _, ⟨members', members'', rfl, hperm, h⟩ => by
    have hsum := SameMembers.nulls h
    rw [nullsMembers_eq_sum members'] at hsum
    rw [Json.nulls, Json.nulls, hsum, nullsMembers_eq_sum]
    exact (hperm.map _).sum_eq

theorem SameElems.nulls : ∀ {vs ws : List (Json S)}, SameElems vs ws →
    nullsElems vs = nullsElems ws
  | [], _, h => by rw [show _ = _ from h]
  | _ :: _, _, ⟨_, _, rfl, hv, hrest⟩ => by
    rw [nullsElems, nullsElems, Same.nulls hv, SameElems.nulls hrest]

theorem SameMembers.nulls : ∀ {ms ns : List (S × Json S)}, SameMembers ms ns →
    nullsMembers ms = nullsMembers ns
  | [], _, h => by rw [show _ = _ from h]
  | (_, _) :: _, _, ⟨_, _, rfl, hv, hrest⟩ => by
    rw [nullsMembers, nullsMembers, Same.nulls hv, SameMembers.nulls hrest]

end

end Dap.Json
