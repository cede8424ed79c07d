import Dap.Lib.JsString
import Dap.Lib.JsonRead

/-! Structs and maps that `encoding/json` decodes from one object: what each field gets, and when
the map leaves open what a field gets. -/
namespace Dap.GoJson
open Json

/-! ### The map of an object -/

/-- The value of the last member with this key. -/
def latest (key : String) : Members → Option (Json String)
  | [] => none
  | (k, v) :: rest => (latest key rest).or (if k = key then some v else none)

theorem latest_append (key : String) (ms ms' : Members) :
    latest key (ms ++ ms') = (latest key ms').or (latest key ms) := by
  induction ms with
  | nil => simp [latest]
  | cons m ms ih =>
    rw [List.cons_append, latest, ih, latest, Option.or_assoc]

theorem latest_mem {key : String} {ms : Members} {v : Json String} (h : latest key ms = some v) :
    (key, v) ∈ ms := by
  induction ms with
  | nil => simp [latest] at h
  | cons m ms ih =>
    rw [latest, Option.or_eq_some_iff] at h
    rcases h with h | ⟨-, h⟩
    · exact List.mem_cons_of_mem _ (ih h)
    · obtain ⟨rfl, rfl⟩ : m.1 = key ∧ m.2 = v := by simpa using h
      exact List.mem_cons_self

theorem latest_eq_none {key : String} {ms : Members} :
    latest key ms = none ↔ ∀ m ∈ ms, m.1 ≠ key := by
  induction ms with
  | nil => simp [latest]
  | cons m ms ih =>
    rw [latest, Option.or_eq_none_iff, ih]
    simp [and_comm]

theorem latest_insertKey (key k : String) (v : Json String) {ms : Members}
    (hk : ∀ m ∈ ms, m.1 ≠ k) :
    latest key (insertKey k v ms) = if k = key then some v else latest key ms := by
  have hnone : ∀ ms : Members, (∀ m ∈ ms, m.1 ≠ k) → k = key → latest key ms = none :=
    fun ms hms heq => latest_eq_none.mpr fun m hm => heq ▸ hms m hm
  induction ms with
  | nil => simp [insertKey, latest]
  | cons m ms ih =>
    have hrest : ∀ m ∈ ms, m.1 ≠ k := fun m' hm' => hk m' (List.mem_cons_of_mem _ hm')
    rw [insertKey]
    split
    · rw [latest]
      split
      next heq => rw [hnone _ hk heq]; rfl
      next => simp
    · rw [latest, ih hrest]
      split
      next heq => simp
      next => rw [latest]

theorem mem_insertKey {k : String} {v : Json String} {ms : Members} {m : String × Json String} :
    m ∈ insertKey k v ms ↔ m = (k, v) ∨ m ∈ ms := by
  induction ms with
  | nil => simp [insertKey]
  | cons m' ms ih =>
    rw [insertKey]
    split
    · simp
    · rw [List.mem_cons, ih, List.mem_cons]
      tauto

/-- Keys in order, each once. -/
def Ordered (ms : Members) : Prop := ms.Pairwise fun m m' => m.1 < m'.1

theorem ordered_insertKey {k : String} (v : Json String) {ms : Members} (ho : Ordered ms)
    (hk : ∀ m ∈ ms, m.1 ≠ k) : Ordered (insertKey k v ms) := by
  induction ms with
  | nil => simp [insertKey, Ordered]
  | cons m ms ih =>
    obtain ⟨hm, hrest⟩ := List.pairwise_cons.mp ho
    rw [insertKey]
    split
    next hlt =>
      refine List.pairwise_cons.mpr ⟨fun m' hm' => ?_, ho⟩
      rcases List.mem_cons.mp hm' with rfl | hm'
      · exact hlt
      · exact String.lt_trans hlt (hm m' hm')
    next hle =>
      refine List.pairwise_cons.mpr ⟨fun m' hm' => ?_, ih hrest fun m' hm' =>
        hk m' (List.mem_cons_of_mem _ hm')⟩
      rcases mem_insertKey.mp hm' with rfl | hm'
      · by_contra hnot
        exact hk m List.mem_cons_self
          (String.le_antisymm (String.not_lt.mp hle) (String.not_lt.mp hnot))
      · exact hm m' hm'

theorem Ordered.latest_of_mem {ms : Members} (ho : Ordered ms) {m : String × Json String}
    (hm : m ∈ ms) : latest m.1 ms = some m.2 := by
  induction ms with
  | nil => simp at hm
  | cons m' ms ih =>
    obtain ⟨hlt, hrest⟩ := List.pairwise_cons.mp ho
    rw [latest]
    rcases List.mem_cons.mp hm with rfl | hm
    · have hone : latest m.1 ms = none :=
        latest_eq_none.mpr fun m' hm' heq => String.lt_irrefl _ (heq ▸ hlt m' hm')
      rw [hone, if_pos rfl]
      rfl
    · rw [ih hrest hm]
      rfl

theorem Ordered.ext {ms ms' : Members} (ho : Ordered ms) (ho' : Ordered ms')
    (h : ∀ key, latest key ms = latest key ms') : ms = ms' := by
  have hsub : ∀ {ms ms' : Members}, Ordered ms → (∀ key, latest key ms = latest key ms') →
      ∀ m ∈ ms, m ∈ ms' := by
    intro ms ms' ho h m hm
    have hlatest := ho.latest_of_mem hm
    rw [h] at hlatest
    exact latest_mem hlatest
  have hanti : ∀ m m' : String × Json String, m.1 < m'.1 → m'.1 < m.1 → m = m' :=
    fun m m' hlt hlt' => absurd hlt (String.lt_asymm hlt')
  have hnodup : ∀ {ms : Members}, Ordered ms → ms.Nodup :=
    fun ho => ho.imp fun hlt heq => absurd (heq ▸ hlt) (String.lt_irrefl _)
  refine List.Perm.eq_of_pairwise (fun m m' _ _ => hanti m m') ho ho' ?_
  exact (List.perm_ext_iff_of_nodup (hnodup ho) (hnodup ho')).mpr fun m =>
    ⟨hsub ho h m, hsub ho' (fun key => (h key).symm) m⟩

theorem toAnyMembers_spec (ms : Members) :
    Ordered (toAnyMembers ms) ∧
      ∀ key, latest key (toAnyMembers ms) = (latest key ms).map toAny := by
  induction ms with
  | nil => simp [toAnyMembers, Ordered, latest]
  | cons m ms ih =>
    obtain ⟨k, v⟩ := m
    obtain ⟨ho, hl⟩ := ih
    rw [toAnyMembers]
    split
    next hmem =>
      refine ⟨ho, fun key => ?_⟩
      rw [latest, hl]
      by_cases hk : k = key
      · subst hk
        cases hlast : latest k ms with
        | some w => rfl
        | none =>
          have hno := hl k
          rw [hlast, Option.map_none, latest_eq_none] at hno
          obtain ⟨m', hm', heq⟩ := List.mem_map.mp hmem
          exact absurd heq (hno m' hm')
      · simp [hk]
    next hmem =>
      have hk : ∀ m' ∈ toAnyMembers ms, m'.1 ≠ k :=
        fun m' hm' heq => hmem (List.mem_map.mpr ⟨m', hm', heq⟩)
      refine ⟨ordered_insertKey _ ho hk, fun key => ?_⟩
      rw [latest_insertKey key k _ hk, latest, hl]
      split
      next heq =>
        have hno := latest_eq_none.mpr (heq ▸ hk)
        rw [hl, Option.map_eq_none_iff] at hno
        rw [hno]
        rfl
      next => simp

theorem toAnyMembers_eq_iff {ms ms' : Members} : toAnyMembers ms = toAnyMembers ms' ↔
    ∀ key, (latest key ms).map toAny = (latest key ms').map toAny := by
  obtain ⟨ho, hl⟩ := toAnyMembers_spec ms
  obtain ⟨ho', hl'⟩ := toAnyMembers_spec ms'
  constructor
  · intro h key
    rw [← hl, ← hl', h]
  · intro h
    exact ho.ext ho' fun key => by rw [hl, hl', h]

theorem mem_toAnyMembers {ms : Members} {m : String × Json String} :
    m ∈ toAnyMembers ms ↔ ∃ v, latest m.1 ms = some v ∧ toAny v = m.2 := by
  obtain ⟨ho, hl⟩ := toAnyMembers_spec ms
  rw [← Option.map_eq_some_iff, ← hl]
  exact ⟨ho.latest_of_mem, latest_mem⟩

/-- More members with a key of the object leave the map alone if the last has the same map. -/
theorem toAnyMembers_append {ms : Members} {key : String} {v w : Json String}
    (us : List (Json String)) (hv : latest key ms = some v) (hw : toAny w = toAny v) :
    toAnyMembers (ms ++ (us ++ [w]).map fun u => (key, u)) = toAnyMembers ms := by
  rw [toAnyMembers_eq_iff]
  intro key'
  rw [latest_append, List.map_append, latest_append]
  by_cases hk : key = key'
  · subst hk
    simp [latest, hv, hw]
  · have hnone : latest key' (us.map fun u => (key, u)) = none :=
      latest_eq_none.mpr fun m hm => by
        obtain ⟨u, -, rfl⟩ := List.mem_map.mp hm
        exact hk
    simp [latest, hk, hnone]

/-! ### Fields -/

/-- How the decoder fills a Go type: the state it works on, what that state shows, and when a value
in a map fixes what is shown. -/
structure FieldType where
  State : Type
  View : Type
  decode : State → Json String → Option State
  view : State → View
  fixes : Json String → View → Prop
  height : ℕ

structure FieldType.Lawful (t : FieldType) : Prop where
  total : ∀ {s s' v}, (t.decode s v).isSome → (t.decode s' v).isSome
  fixed : ∀ {s s' v x}, t.fixes (toAny v) x → t.decode s v = some s' → t.view s' = x
  unfixed : ∀ {s v}, (t.decode s v).isSome → (∀ x, ¬ t.fixes (toAny v) x) → ∀ y, ∃ us w,
    toAny w = toAny v ∧
      (∀ depth, t.height ≤ depth → Readable depth v → ∀ u ∈ us ++ [w], Readable depth u) ∧
      ∀ s, ∃ s', (us ++ [w]).foldlM t.decode s = some s' ∧ t.view s' ≠ y
  differs : ∀ y, ∃ u, (∀ depth, t.height ≤ depth → Readable depth u) ∧
    ∀ s, ∃ s', t.decode s u = some s' ∧ t.view s' ≠ y

theorem matchField_mem {names : List String} {key name : String}
    (h : matchField names key = some name) : name ∈ names := by
  unfold matchField at h
  split at h
  next hmem =>
    obtain rfl := Option.some.inj h
    exact hmem
  next => exact List.mem_of_find?_eq_some h

structure FieldOf (α : Type) where
  name : String
  type : FieldType
  get : α → type.State

structure Struct (α : Type) where
  fields : List (FieldOf α)
  decodeMember : α → String × Json String → Option α

namespace Struct

variable {α : Type} (S : Struct α)

def names : List String := S.fields.map FieldOf.name

/-- The key is decoded into this field. -/
def selects (f : FieldOf α) (key : String) : Prop := matchField S.names key = some f.name

instance (f : FieldOf α) (key : String) : Decidable (S.selects f key) :=
  inferInstanceAs (Decidable (matchField S.names key = some f.name))

structure Lawful : Prop where
  type : ∀ f ∈ S.fields, f.type.Lawful
  own : ∀ f ∈ S.fields, ∀ a m, S.selects f m.1 →
    (S.decodeMember a m).map f.get = f.type.decode (f.get a) m.2
  other : ∀ f ∈ S.fields, ∀ a m a', ¬ S.selects f m.1 → S.decodeMember a m = some a' →
    f.get a' = f.get a
  skip : ∀ a m, matchField S.names m.1 = none → S.decodeMember a m = some a

/-- Every member for the field fixes the same view of it. -/
def Settles (raw : Members) (f : FieldOf α) (x : f.type.View) : Prop :=
  ∀ m ∈ raw, S.selects f m.1 → f.type.fixes m.2 x

variable {S} {f : FieldOf α} {a a' : α} {ms : Members}

theorem selects_name (hf : f ∈ S.fields) : S.selects f f.name := by
  have hmem : f.name ∈ S.names := List.mem_map_of_mem hf
  exact if_pos hmem

theorem settles_iff {x : f.type.View} : S.Settles (toAnyMembers ms) f x ↔
    ∀ key v, latest key ms = some v → S.selects f key → f.type.fixes (toAny v) x := by
  constructor
  · intro h key v hv hk
    exact h (key, toAny v) (mem_toAnyMembers.mpr ⟨v, hv, rfl⟩) hk
  · rintro h ⟨key, w⟩ hm hk
    obtain ⟨v, hv, rfl⟩ := mem_toAnyMembers.mp hm
    exact h key v hv hk

theorem exists_latest (h : ∃ m ∈ ms, S.selects f m.1) :
    ∃ key v, latest key ms = some v ∧ S.selects f key := by
  obtain ⟨m, hm, hk⟩ := h
  cases hl : latest m.1 ms with
  | none => exact absurd rfl (latest_eq_none.mp hl m hm)
  | some v => exact ⟨m.1, v, hl, hk⟩

theorem exists_selected_iff : (∃ m ∈ toAnyMembers ms, S.selects f m.1) ↔
    ∃ m ∈ ms, S.selects f m.1 := by
  constructor
  · rintro ⟨m, hm, hk⟩
    obtain ⟨v, hv, -⟩ := mem_toAnyMembers.mp hm
    exact ⟨_, latest_mem hv, hk⟩
  · intro h
    obtain ⟨key, v, hv, hk⟩ := exists_latest h
    exact ⟨(key, toAny v), mem_toAnyMembers.mpr ⟨v, hv, rfl⟩, hk⟩

namespace Lawful

variable (hS : S.Lawful)

include hS

theorem total {m : String × Json String} (b : α) (h : (S.decodeMember a m).isSome) :
    (S.decodeMember b m).isSome := by
  cases hn : matchField S.names m.1 with
  | some n =>
    obtain ⟨f, hf, rfl⟩ := List.mem_map.mp (matchField_mem hn)
    have hk : S.selects f m.1 := hn
    have hown := congrArg Option.isSome (hS.own f hf b m hk)
    rw [Option.isSome_map] at hown
    rw [hown]
    refine (hS.type f hf).total (s := f.get a) ?_
    rwa [← hS.own f hf a m hk, Option.isSome_map]
  | none =>
    rw [hS.skip b m hn]
    rfl

theorem fold_total (b : α) (h : (ms.foldlM S.decodeMember a).isSome) :
    (ms.foldlM S.decodeMember b).isSome := by
  induction ms generalizing a b with
  | nil => rfl
  | cons m ms ih =>
    rw [List.foldlM_cons] at h ⊢
    cases ha : S.decodeMember a m with
    | none => simp [ha] at h
    | some a' =>
      obtain ⟨b', hb⟩ := Option.isSome_iff_exists.mp (hS.total b (by rw [ha]; rfl))
      rw [ha] at h
      rw [hb]
      exact ih b' h

/-- A field changes only with the members for it. -/
theorem fold_other (hf : f ∈ S.fields) (h : ms.foldlM S.decodeMember a = some a')
    (hk : ∀ m ∈ ms, ¬ S.selects f m.1) : f.get a' = f.get a := by
  induction ms generalizing a with
  | nil =>
    obtain rfl := Option.some.inj h
    rfl
  | cons m ms ih =>
    rw [List.foldlM_cons] at h
    obtain ⟨b, hb, hrest⟩ := Option.bind_eq_some_iff.mp h
    rw [ih hrest fun m' hm' => hk m' (List.mem_cons_of_mem _ hm')]
    exact hS.other f hf a m b (hk m List.mem_cons_self) hb

/-- Members for one field decode as its values do. -/
theorem fold_own (hf : f ∈ S.fields) (hk : ∀ m ∈ ms, S.selects f m.1) {s : f.type.State}
    (h : (ms.map Prod.snd).foldlM f.type.decode (f.get a) = some s) :
    ∃ b, ms.foldlM S.decodeMember a = some b ∧ f.get b = s := by
  induction ms generalizing a with
  | nil => exact ⟨a, rfl, Option.some.inj h⟩
  | cons m ms ih =>
    rw [List.map_cons, List.foldlM_cons, ← hS.own f hf a m (hk m List.mem_cons_self)] at h
    obtain ⟨t, ht, hrest⟩ := Option.bind_eq_some_iff.mp h
    obtain ⟨c, hc, rfl⟩ := Option.map_eq_some_iff.mp ht
    obtain ⟨b, hb, hs⟩ := ih (fun m' hm' => hk m' (List.mem_cons_of_mem _ hm')) hrest
    refine ⟨b, ?_, hs⟩
    rw [List.foldlM_cons, hc]
    exact hb

theorem decode_isSome (hf : f ∈ S.fields) (h : (ms.foldlM S.decodeMember a).isSome)
    {m : String × Json String} (hm : m ∈ ms) (hk : S.selects f m.1) (s : f.type.State) :
    (f.type.decode s m.2).isSome := by
  induction ms generalizing a with
  | nil => simp at hm
  | cons m' ms ih =>
    rw [List.foldlM_cons] at h
    cases ha : S.decodeMember a m' with
    | none => simp [ha] at h
    | some a' =>
      rw [ha] at h
      rcases List.mem_cons.mp hm with rfl | hm
      · have hown := congrArg Option.isSome (hS.own f hf a m hk)
        rw [Option.isSome_map, ha] at hown
        exact (hS.type f hf).total hown.symm
      · exact ih h hm

/-- What all members of the map fix is what the struct gets. -/
theorem fold_settled (hf : f ∈ S.fields) {x : f.type.View}
    (h : ms.foldlM S.decodeMember a = some a') (hx : S.Settles (toAnyMembers ms) f x)
    (hsome : ∃ m ∈ ms, S.selects f m.1) : f.type.view (f.get a') = x := by
  rw [settles_iff] at hx
  induction ms using List.reverseRecOn generalizing a' with
  | nil => simp at hsome
  | append_singleton ms m ih =>
    rw [List.foldlM_append] at h
    obtain ⟨b, hb, hlast⟩ := Option.bind_eq_some_iff.mp h
    have hm : S.decodeMember b m = some a' := by simpa using hlast
    by_cases hk : S.selects f m.1
    · have hown := hS.own f hf b m hk
      rw [hm, Option.map_some] at hown
      refine (hS.type f hf).fixed (hx m.1 m.2 ?_ hk) hown.symm
      simp [latest_append, latest]
    · rw [hS.other f hf b m a' hk hm]
      refine ih hb (fun key v hv hkey => hx key v ?_ hkey) ?_
      · have hne : m.1 ≠ key := fun heq => hk (heq ▸ hkey)
        simp [latest_append, latest, hne, hv]
      · obtain ⟨m', hm', hk'⟩ := hsome
        rcases List.mem_append.mp hm' with hm' | hm'
        · exact ⟨m', hm', hk'⟩
        · exact absurd (List.mem_singleton.mp hm' ▸ hk') hk

/-- Values for a key of the object, the last of which has the map of the key's, that give a field
which the map leaves open something other than `y`. -/
theorem unsettled_values (hf : f ∈ S.fields) (h : (ms.foldlM S.decodeMember a).isSome)
    (hsome : ∃ m ∈ ms, S.selects f m.1) (hno : ∀ x, ¬ S.Settles (toAnyMembers ms) f x)
    (y : f.type.View) : ∃ key us v w, latest key ms = some v ∧ S.selects f key ∧
      toAny w = toAny v ∧
      (∀ depth, f.type.height ≤ depth → Readable depth v → ∀ u ∈ us ++ [w], Readable depth u) ∧
      ∀ s, ∃ s', (us ++ [w]).foldlM f.type.decode s = some s' ∧ f.type.view s' ≠ y := by
  by_cases hall : ∀ key v, latest key ms = some v → S.selects f key →
      ∃ x, f.type.fixes (toAny v) x
  · have hfixed : ∀ key v x, latest key ms = some v → S.selects f key →
        f.type.fixes (toAny v) x → x ≠ y → ∀ s, ∃ s', ([] ++ [v]).foldlM f.type.decode s = some s' ∧
          f.type.view s' ≠ y := by
      intro key v x hv hk hx hne s
      obtain ⟨s', hs'⟩ :=
        Option.isSome_iff_exists.mp (hS.decode_isSome hf h (latest_mem hv) hk s)
      refine ⟨s', by simpa using hs', ?_⟩
      rwa [(hS.type f hf).fixed hx hs']
    have honly : ∀ (v : Json String) depth, f.type.height ≤ depth → Readable depth v →
        ∀ u ∈ [] ++ [v], Readable depth u := by
      intro v depth _ hv u hu
      rwa [List.mem_singleton.mp hu]
    obtain ⟨key0, v0, hv0, hk0⟩ := exists_latest hsome
    obtain ⟨x0, hx0⟩ := hall key0 v0 hv0 hk0
    by_cases hne : x0 = y
    · have hno0 := hno x0
      rw [settles_iff] at hno0
      push Not at hno0
      obtain ⟨key1, v1, hv1, hk1, hx1⟩ := hno0
      obtain ⟨x1, hx1'⟩ := hall key1 v1 hv1 hk1
      refine ⟨key1, [], v1, v1, hv1, hk1, rfl, honly v1, hfixed key1 v1 x1 hv1 hk1 hx1' ?_⟩
      rintro rfl
      exact hx1 (hne ▸ hx1')
    · exact ⟨key0, [], v0, v0, hv0, hk0, rfl, honly v0, hfixed key0 v0 x0 hv0 hk0 hx0 hne⟩
  · push Not at hall
    obtain ⟨key, v, hv, hk, hx⟩ := hall
    have hs := hS.decode_isSome hf h (latest_mem hv) hk (f.get a)
    obtain ⟨us, w, hw, hread, hdecode⟩ := (hS.type f hf).unfixed hs hx y
    exact ⟨key, us, v, w, hv, hk, hw, hread, hdecode⟩

/-- What the members of the map leave open, further members with the same map can change. -/
theorem unsettled (hf : f ∈ S.fields) (h : (ms.foldlM S.decodeMember a).isSome)
    (hsome : ∃ m ∈ ms, S.selects f m.1) (hno : ∀ x, ¬ S.Settles (toAnyMembers ms) f x)
    (y : f.type.View) :
    ∃ more : Members, (∀ m ∈ more, S.selects f m.1) ∧
      toAnyMembers (ms ++ more) = toAnyMembers ms ∧
      (∀ depth, f.type.height ≤ depth → (∀ m ∈ ms, Readable depth m.2) →
        ∀ m ∈ more, Readable depth m.2) ∧
      ∀ s, ∃ s', (more.map Prod.snd).foldlM f.type.decode s = some s' ∧ f.type.view s' ≠ y := by
  obtain ⟨key, us, v, w, hv, hk, hw, hread, hdecode⟩ := hS.unsettled_values hf h hsome hno y
  refine ⟨(us ++ [w]).map fun u => (key, u), ?_, toAnyMembers_append us hv hw, ?_, ?_⟩
  · intro m hm
    obtain ⟨u, -, rfl⟩ := List.mem_map.mp hm
    exact hk
  · intro depth hdepth hms m hm
    obtain ⟨u, hu, rfl⟩ := List.mem_map.mp hm
    exact hread depth hdepth (hms _ (latest_mem hv)) u hu
  · intro s
    rw [List.map_map]
    simpa using hdecode s

end Lawful

end Struct

end Dap.GoJson
