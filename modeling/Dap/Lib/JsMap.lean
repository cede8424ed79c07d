import Mathlib.Tactic

/-! A JavaScript `Map`: a finite map that iterates in insertion order. -/
namespace Dap

/-- Setting a key that is there already keeps its place. -/
structure JsMap (K V : Type) where
  entries : List (K × V)
  nodup : (entries.map Prod.fst).Nodup
  deriving DecidableEq

namespace JsMap

variable {K V : Type} [DecidableEq K]

def lookup (k : K) : List (K × V) → Option V
  | [] => none
  | (k', v) :: rest => if k' = k then some v else lookup k rest

def assign (k : K) (v : V) : List (K × V) → List (K × V)
  | [] => [(k, v)]
  | (k', v') :: rest => if k' = k then (k, v) :: rest else (k', v') :: assign k v rest

theorem lookup_eq_none {k : K} {l : List (K × V)} : lookup k l = none ↔ k ∉ l.map Prod.fst := by
  induction l with
  | nil => simp [lookup]
  | cons e l ih =>
    obtain ⟨k', v⟩ := e
    by_cases h : k' = k
    · simp [lookup, h]
    · simp [lookup, h, ih, Ne.symm h]

theorem lookup_assign (k k' : K) (v : V) (l : List (K × V)) :
    lookup k' (assign k v l) = if k = k' then some v else lookup k' l := by
  induction l with
  | nil => simp [assign, lookup]
  | cons e l ih =>
    obtain ⟨j, w⟩ := e
    by_cases hj : j = k
    · subst hj
      by_cases h : j = k' <;> simp [assign, lookup, h]
    · by_cases h : j = k'
      · subst h
        simp [assign, lookup, hj, Ne.symm hj]
      · simp [assign, lookup, hj, h, ih]

theorem lookup_filter (k k' : K) (l : List (K × V)) :
    lookup k' (l.filter fun e => e.1 ≠ k) = if k = k' then none else lookup k' l := by
  induction l with
  | nil => simp [lookup]
  | cons e l ih =>
    obtain ⟨j, w⟩ := e
    by_cases hj : j = k
    · subst hj
      by_cases h : j = k'
      · simpa [h] using ih
      · simpa [lookup, h] using ih
    · by_cases h : j = k'
      · subst h
        simp [lookup, hj, Ne.symm hj]
      · simpa [lookup, hj, h] using ih

theorem mem_iff_lookup {k : K} {v : V} {l : List (K × V)} (h : (l.map Prod.fst).Nodup) :
    (k, v) ∈ l ↔ lookup k l = some v := by
  induction l with
  | nil => simp [lookup]
  | cons e l ih =>
    obtain ⟨j, w⟩ := e
    obtain ⟨hj, hl⟩ := List.nodup_cons.mp h
    by_cases hk : j = k
    · subst hk
      have hnot : (j, v) ∉ l := by
        intro hm
        exact hj (List.mem_map.mpr ⟨(j, v), hm, rfl⟩)
      simp [lookup, hnot, eq_comm]
    · simp [lookup, hk, Ne.symm hk, ih hl]

theorem map_fst_assign (k : K) (v : V) (l : List (K × V)) :
    (assign k v l).map Prod.fst = if k ∈ l.map Prod.fst then l.map Prod.fst
      else l.map Prod.fst ++ [k] := by
  induction l with
  | nil => simp [assign]
  | cons e l ih =>
    obtain ⟨j, w⟩ := e
    by_cases hj : j = k
    · simp [assign, hj]
    · simp only [assign, hj, if_false, List.map_cons, ih, List.mem_cons, Ne.symm hj, false_or]
      split <;> rfl

def empty : JsMap K V := ⟨[], List.nodup_nil⟩

instance : EmptyCollection (JsMap K V) := ⟨empty⟩

def get (m : JsMap K V) (k : K) : Option V := lookup k m.entries

def has (m : JsMap K V) (k : K) : Bool := (m.get k).isSome

def set (m : JsMap K V) (k : K) (v : V) : JsMap K V where
  entries := assign k v m.entries
  nodup := by
    rw [map_fst_assign]
    split
    next => exact m.nodup
    next h =>
      refine List.nodup_append.mpr ⟨m.nodup, List.nodup_singleton k, ?_⟩
      intro a ha b hb hab
      rw [List.mem_singleton.mp hb] at hab
      exact h (hab ▸ ha)

def delete (m : JsMap K V) (k : K) : JsMap K V where
  entries := m.entries.filter fun e => e.1 ≠ k
  nodup := m.nodup.sublist (List.filter_sublist.map _)

def values (m : JsMap K V) : List V := m.entries.map Prod.snd

@[simp] theorem get_empty (k : K) : (∅ : JsMap K V).get k = none := rfl

theorem get_set (m : JsMap K V) (k k' : K) (v : V) :
    (m.set k v).get k' = if k = k' then some v else m.get k' :=
  lookup_assign k k' v m.entries

@[simp] theorem get_set_self (m : JsMap K V) (k : K) (v : V) : (m.set k v).get k = some v := by
  simp [get_set]

theorem get_set_of_ne (m : JsMap K V) {k k' : K} (v : V) (h : k ≠ k') :
    (m.set k v).get k' = m.get k' := by
  simp [get_set, h]

theorem get_delete (m : JsMap K V) (k k' : K) :
    (m.delete k).get k' = if k = k' then none else m.get k' :=
  lookup_filter k k' m.entries

theorem mem_entries {m : JsMap K V} {k : K} {v : V} : (k, v) ∈ m.entries ↔ m.get k = some v :=
  mem_iff_lookup m.nodup

theorem mem_values {m : JsMap K V} {v : V} : v ∈ m.values ↔ ∃ k, m.get k = some v := by
  simp [values, mem_entries]

end JsMap

end Dap
