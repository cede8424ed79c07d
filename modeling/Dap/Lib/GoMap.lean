import Mathlib.Tactic

/-! Go's `map[string]V` as a finite map with extensional equality. Iteration runs in key order,
which is one of the orders the Go runtime may choose. -/
namespace Dap

abbrev GoMap (V : Type) := Std.ExtTreeMap String V

namespace GoMap

variable {V : Type}

/-- A `range` loop over the map whose body replaces or deletes the entry it visits. -/
def rewrite (g : V → Option V) (m : GoMap V) : GoMap V :=
  m.toList.foldl (fun acc kv => acc.alter kv.1 fun _ => g kv.2) m

/-- `for k, v := range m { if p(v) { delete(m, k) } }` -/
def sweep (p : V → Bool) (m : GoMap V) : GoMap V :=
  rewrite (fun v => if p v then none else some v) m

private theorem foldl_alter_of_notMem (g : V → Option V) (l : List (String × V)) (acc : GoMap V)
    (k : String) (hk : ∀ v, (k, v) ∉ l) :
    (l.foldl (fun acc kv => acc.alter kv.1 fun _ => g kv.2) acc)[k]? = acc[k]? := by
  induction l generalizing acc with
  | nil => rfl
  | cons kv l ih =>
    have hne : kv.1 ≠ k := by
      rintro rfl
      exact hk kv.2 (by simp)
    rw [List.foldl_cons, ih _ fun v hv => hk v (List.mem_cons_of_mem _ hv)]
    simp [Std.ExtTreeMap.getElem?_alter, hne]

private theorem foldl_alter_of_mem (g : V → Option V) (l : List (String × V)) (acc : GoMap V)
    (k : String) (v : V) (hd : l.Pairwise fun a b => a.1 ≠ b.1) (hk : (k, v) ∈ l) :
    (l.foldl (fun acc kv => acc.alter kv.1 fun _ => g kv.2) acc)[k]? = g v := by
  induction l generalizing acc with
  | nil => simp at hk
  | cons kv l ih =>
    rw [List.foldl_cons]
    obtain ⟨hhead, htail⟩ := List.pairwise_cons.mp hd
    rcases List.mem_cons.mp hk with rfl | hmem
    · rw [foldl_alter_of_notMem g l _ k fun v' hv' => hhead _ hv' rfl]
      simp
    · exact ih _ htail hmem

theorem keys_pairwise_ne (m : GoMap V) : m.toList.Pairwise fun a b => a.1 ≠ b.1 := by
  refine m.distinct_keys_toList.imp ?_
  intro a b hab heq
  exact hab (by simp [heq])

@[simp] theorem getElem?_rewrite (g : V → Option V) (m : GoMap V) (k : String) :
    (rewrite g m)[k]? = m[k]?.bind g := by
  cases hk : m[k]? with
  | none =>
    rw [rewrite, foldl_alter_of_notMem, hk]
    · rfl
    · intro v hv
      rw [Std.ExtTreeMap.mem_toList_iff_getElem?_eq_some, hk] at hv
      simp at hv
  | some v =>
    exact foldl_alter_of_mem g _ _ k v m.keys_pairwise_ne
      (Std.ExtTreeMap.mem_toList_iff_getElem?_eq_some.mpr hk)

@[simp] theorem getElem?_sweep (p : V → Bool) (m : GoMap V) (k : String) :
    (sweep p m)[k]? = m[k]?.filter fun v => !p v := by
  rw [sweep, getElem?_rewrite]
  cases m[k]? with
  | none => rfl
  | some v => cases hp : p v <;> simp [hp, Option.filter]

theorem getElem?_insert_ite (m : GoMap V) (k k' : String) (v : V) :
    (m.insert k v)[k']? = if k = k' then some v else m[k']? := by
  simp [Std.ExtTreeMap.getElem?_insert]

theorem getElem?_erase_ite (m : GoMap V) (k k' : String) :
    (m.erase k)[k']? = if k = k' then none else m[k']? := by
  simp [Std.ExtTreeMap.getElem?_erase]

theorem mem_insert_iff {m : GoMap V} {k k' : String} {v : V} :
    k ∈ m.insert k' v ↔ k' = k ∨ k ∈ m := by simp [Std.ExtTreeMap.mem_insert]

theorem mem_erase_iff {m : GoMap V} {k k' : String} : k ∈ m.erase k' ↔ k' ≠ k ∧ k ∈ m := by
  simp [Std.ExtTreeMap.mem_erase]

theorem mem_of_getElem?_eq_some {m : GoMap V} {k : String} {v : V} (h : m[k]? = some v) : k ∈ m :=
  Std.ExtTreeMap.mem_iff_isSome_getElem?.mpr (Option.isSome_of_eq_some h)

theorem isSome_insert {m : GoMap V} {k : String} (h : m[k]?.isSome) (k' : String) (v : V) :
    (m.insert k' v)[k]?.isSome := by
  rw [← Std.ExtTreeMap.mem_iff_isSome_getElem?] at h ⊢
  exact mem_insert_iff.mpr (.inr h)

theorem mem_insert_of_some {m : GoMap V} {k k' : String} {v : V} (h : m[k']? = some v) (v' : V) :
    k ∈ m.insert k' v' ↔ k ∈ m := by
  rw [mem_insert_iff]
  constructor
  · rintro (rfl | hk)
    · exact mem_of_getElem?_eq_some h
    · exact hk
  · exact .inr

/-- Two maps that answer every lookup alike are one map. -/
theorem ext_lookup {m m' : GoMap V} (h : ∀ k : String, m[k]? = m'[k]?) : m = m' :=
  Std.ExtTreeMap.ext_getElem? h

theorem mem_toList {m : GoMap V} {k : String} {v : V} : (k, v) ∈ m.toList ↔ m[k]? = some v :=
  Std.ExtTreeMap.mem_toList_iff_getElem?_eq_some

end GoMap

end Dap
