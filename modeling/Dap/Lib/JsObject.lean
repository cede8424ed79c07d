import Dap.Lib.JsMap
import Dap.Lib.JsString

/-! Objects of JavaScript that are used as records: which assignments make a member, and the order
in which the members are listed. -/
namespace Dap

/-- The own members, in the order they were made. -/
structure JsObject (V : Type) where
  made : JsMap JsString V := ∅

namespace JsObject

variable {V W : Type}

def protoKey : JsString := JsString.ofString "__proto__"

def digit (u : UInt16) : Bool := 0x30 ≤ u && u ≤ 0x39

def decimal (k : JsString) : ℕ := k.foldl (fun n u => 10 * n + (u.toNat - 0x30)) 0

/-- An array index has no leading zeros and is below `2 ^ 32 - 1`. -/
def isIndex (k : JsString) : Bool :=
  k ≠ [] && k.all digit && (k.head? ≠ some 0x30 || k.length = 1) && decimal k < 2 ^ 32 - 1

/-- The indices by size, then every other key. -/
def arrange (ms : List (JsString × V)) : List (JsString × V) :=
  (ms.filter fun m => isIndex m.1).insertionSort (fun a b => decimal a.1 ≤ decimal b.1) ++
    ms.filter fun m => !isIndex m.1

/-- What `Object.entries` lists and `JSON.stringify` prints. -/
def entries (o : JsObject V) : List (JsString × V) := arrange o.made.entries

/-- An assignment; that of `__proto__` makes no member. -/
def put (o : JsObject V) (k : JsString) (v : V) : JsObject V :=
  if k = protoKey then o else ⟨o.made.set k v⟩

/-- What `JSON.parse` makes of these members. -/
def ofMembers (ms : List (JsString × V)) : JsObject V := ⟨ms.foldl (fun m e => m.set e.1 e.2) ∅⟩

/-! ### The order of the members -/

theorem arrange_perm (ms : List (JsString × V)) : (arrange ms).Perm ms := by
  have hsort := List.perm_insertionSort (fun a b : JsString × V => decimal a.1 ≤ decimal b.1)
    (ms.filter fun m => isIndex m.1)
  exact (hsort.append_right _).trans (List.filter_append_perm _ ms)

theorem arrange_arrange (ms : List (JsString × V)) : arrange (arrange ms) = arrange ms := by
  have hsorted := List.pairwise_insertionSort (fun a b : JsString × V => decimal a.1 ≤ decimal b.1)
    (ms.filter fun m => isIndex m.1)
  have hindex : ∀ m ∈ (ms.filter fun m => isIndex m.1).insertionSort
      (fun a b => decimal a.1 ≤ decimal b.1), isIndex m.1 = true := by
    intro m hm
    rw [List.mem_insertionSort] at hm
    exact (List.mem_filter.mp hm).2
  have hother : ∀ m ∈ ms.filter fun m => !isIndex m.1, isIndex m.1 = false := by
    intro m hm
    simpa using (List.mem_filter.mp hm).2
  have hnone : ∀ m ∈ ms.filter fun m => !isIndex m.1, ¬ isIndex m.1 = true := by
    intro m hm
    simp [hother m hm]
  have hnone' : ∀ m ∈ (ms.filter fun m => isIndex m.1).insertionSort
      (fun a b => decimal a.1 ≤ decimal b.1), ¬ (!isIndex m.1) = true := by
    intro m hm
    simp [hindex m hm]
  have hall : ∀ m ∈ ms.filter fun m => !isIndex m.1, (!isIndex m.1) = true := by
    intro m hm
    simp [hother m hm]
  unfold arrange
  rw [List.filter_append, List.filter_append, List.filter_eq_self.mpr hindex,
    List.filter_eq_nil_iff.mpr hnone, List.filter_eq_nil_iff.mpr hnone',
    List.filter_eq_self.mpr hall, List.append_nil, List.nil_append, hsorted.insertionSort_eq]

theorem arrange_map (f : V → W) (ms : List (JsString × V)) :
    arrange (ms.map (Prod.map id f)) = (arrange ms).map (Prod.map id f) := by
  unfold arrange
  rw [List.map_append, List.filter_map, List.filter_map]
  congr 1
  symm
  exact List.map_insertionSort _ _ (Prod.map id f) _ fun a _ b _ => Iff.rfl

theorem nodup_entries (o : JsObject V) : (o.entries.map Prod.fst).Nodup :=
  ((arrange_perm o.made.entries).map Prod.fst).nodup_iff.mpr o.made.nodup

theorem mem_entries {o : JsObject V} {m : JsString × V} :
    m ∈ o.entries ↔ o.made.get m.1 = some m.2 := by
  unfold entries
  rw [(arrange_perm o.made.entries).mem_iff]
  exact JsMap.mem_entries

/-! ### Assignments -/

theorem get_put (o : JsObject V) (k k' : JsString) (v : V) :
    (o.put k v).made.get k' =
      if k ≠ protoKey ∧ k = k' then some v else o.made.get k' := by
  unfold put
  by_cases hproto : k = protoKey
  · rw [if_pos hproto, if_neg (by simp [hproto])]
  · rw [if_neg hproto, JsMap.get_set]
    simp [hproto]

theorem assign_entries {k : JsString} {ms : List (JsString × V)} (h : k ∉ ms.map Prod.fst) (v : V) :
    JsMap.assign k v ms = ms ++ [(k, v)] := by
  induction ms with
  | nil => rfl
  | cons m ms ih =>
    obtain ⟨hne, hrest⟩ := not_or.mp (mt List.mem_cons.mpr h)
    have hm : ¬ m.1 = k := fun heq => hne heq.symm
    show (if m.1 = k then _ else _) = _
    rw [if_neg hm, ih hrest]
    rfl

theorem entries_foldl_set {ms : List (JsString × V)} {m : JsMap JsString V}
    (h : ((m.entries ++ ms).map Prod.fst).Nodup) :
    (ms.foldl (fun m e => m.set e.1 e.2) m).entries = m.entries ++ ms := by
  induction ms generalizing m with
  | nil => simp
  | cons e ms ih =>
    rw [List.foldl_cons]
    have hfresh : e.1 ∉ m.entries.map Prod.fst := by
      intro hmem
      rw [List.map_append] at h
      exact (List.nodup_append.mp h).2.2 _ hmem e.1 (by simp) rfl
    have hset : (m.set e.1 e.2).entries = m.entries ++ [e] := assign_entries hfresh e.2
    rw [ih (by rw [hset]; simpa using h), hset]
    simp

/-- A parsed object lists its members as they were printed. -/
theorem entries_ofMembers {ms : List (JsString × V)} (h : (ms.map Prod.fst).Nodup) :
    (ofMembers ms).entries = arrange ms := by
  have hmade : (ofMembers ms).made.entries = ms := by
    have hempty : (∅ : JsMap JsString V).entries = [] := rfl
    have hfold := @entries_foldl_set V ms ∅ (by rwa [hempty, List.nil_append])
    rwa [hempty, List.nil_append] at hfold
  rw [entries, hmade]

theorem entries_ofMembers_entries (o : JsObject V) : (ofMembers o.entries).entries = o.entries := by
  rw [entries_ofMembers o.nodup_entries]
  exact arrange_arrange o.made.entries

theorem made_foldl_put {ms : List (JsString × V)} {o : JsObject V}
    (h : ((o.made.entries ++ ms).map Prod.fst).Nodup) :
    (ms.foldl (fun o m => o.put m.1 m.2) o).made.entries =
      o.made.entries ++ ms.filter fun m => m.1 ≠ protoKey := by
  induction ms generalizing o with
  | nil => simp
  | cons m ms ih =>
    rw [List.foldl_cons]
    by_cases hproto : m.1 = protoKey
    · have hput : o.put m.1 m.2 = o := if_pos hproto
      have hrest : ((o.made.entries ++ ms).map Prod.fst).Nodup := by
        apply List.Nodup.sublist _ h
        exact List.Sublist.map _ ((List.sublist_cons_self m ms).append_left _)
      rw [hput, ih hrest]
      simp [hproto]
    · have hfresh : m.1 ∉ o.made.entries.map Prod.fst := by
        intro hmem
        rw [List.map_append] at h
        exact (List.nodup_append.mp h).2.2 _ hmem m.1 (by simp) rfl
      have hput : (o.put m.1 m.2).made.entries = o.made.entries ++ [m] := by
        rw [put, if_neg hproto]
        exact assign_entries hfresh m.2
      rw [ih (by rw [hput]; simpa using h), hput]
      simp [hproto]

end JsObject

end Dap
