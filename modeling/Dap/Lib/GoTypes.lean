import Dap.Lib.GoStruct

/-! The Go types of frame fields, as `encoding/json` fills them. -/
namespace Dap.GoJson
open Json

/-! ### Scalars -/

/-- A type without members: a value fixes it if it sets it, whatever it held. -/
abbrev scalarType {β : Type} (decode : β → Json String → Option β) : FieldType where
  State := β
  View := β
  decode := decode
  view := id
  fixes v b := ∀ old, decode old v = some b
  height := 0

/-- A value is refused, sets the scalar, or is a `null` that leaves it alone. -/
structure Scalar {β : Type} (decode : β → Json String → Option β) : Prop where
  cases : ∀ v, (∀ old, decode old v = none) ∨ (∃ b, ∀ old, decode old v = some b) ∨
    v = .null ∧ ∀ old, decode old v = some old
  flat : ∀ old v, (decode old v).isSome → toAny v = v
  other : ∀ y, ∃ u b, b ≠ y ∧ (∀ depth, Readable depth u) ∧ ∀ old, decode old u = some b

theorem Scalar.lawful {β : Type} {decode : β → Json String → Option β} (h : Scalar decode) :
    (scalarType decode).Lawful where
  total {s s' v} hs := by
    change (decode s v).isSome at hs
    change (decode s' v).isSome
    rcases h.cases v with hnone | ⟨b, hset⟩ | ⟨-, hkeep⟩
    · rw [hnone] at hs
      exact Bool.noConfusion hs
    · rw [hset]
      rfl
    · rw [hkeep]
      rfl
  fixed {s s' v x} hx hs := by
    have hflat := h.flat s v (by rw [show decode s v = some s' from hs]; rfl)
    have hset : decode s v = some x := hflat ▸ hx s
    exact Option.some.inj (hs.symm.trans hset)
  unfixed {s v} hs hno y := by
    have hflat := h.flat s v hs
    rcases h.cases v with hnone | ⟨b, hset⟩ | ⟨rfl, hkeep⟩
    · rw [show (scalarType decode).decode s v = none from hnone s] at hs
      exact Bool.noConfusion hs
    · exact absurd (fun old => hflat.symm ▸ hset old) (hno b)
    · obtain ⟨u, b, hne, hread, hset⟩ := h.other y
      refine ⟨[u], .null, rfl, ?_, fun s => ⟨b, ?_, hne⟩⟩
      · intro depth _ _ w hw
        rcases List.mem_cons.mp hw with rfl | hw
        · exact hread depth
        · rw [List.mem_singleton.mp hw]
          cases depth <;> trivial
      · change (decode s u).bind (fun t => (decode t .null).bind some) = some b
        rw [hset, Option.bind_some, hkeep]
        rfl
  differs y := by
    obtain ⟨u, b, hne, hread, hset⟩ := h.other y
    exact ⟨u, fun depth _ => hread depth, fun s => ⟨b, hset s, hne⟩⟩

abbrev stringType : FieldType := scalarType decodeString
abbrev intType : FieldType := scalarType decodeInt
abbrev boolType : FieldType := scalarType decodeBool
abbrev boolPtrType : FieldType := scalarType fun _ : Option Bool => decodeBoolPtr

theorem scalar_string : Scalar decodeString where
  cases v := by
    cases v with
    | str s => exact .inr (.inl ⟨s, fun _ => rfl⟩)
    | null => exact .inr (.inr ⟨rfl, fun _ => rfl⟩)
    | _ => exact .inl fun _ => rfl
  flat old v h := by cases v <;> first | rfl | simp [decodeString] at h
  other y := by
    refine ⟨.str (y ++ "x"), y ++ "x", fun h => ?_, fun depth => by cases depth <;> trivial,
      fun _ => rfl⟩
    have hlen := congrArg (fun s => s.toList.length) h
    simp at hlen

theorem scalar_int : Scalar decodeInt where
  cases v := by
    cases v with
    | num literal =>
      cases hn : parseInt literal with
      | none => exact .inl fun _ => hn
      | some n => exact .inr (.inl ⟨n, fun _ => hn⟩)
    | null => exact .inr (.inr ⟨rfl, fun _ => rfl⟩)
    | _ => exact .inl fun _ => rfl
  flat old v h := by cases v <;> first | rfl | simp [decodeInt] at h
  other y := by
    obtain ⟨n, hlo, hhi, hne⟩ : ∃ n : ℤ, -2 ^ 63 ≤ n ∧ n < 2 ^ 63 ∧ Int64.ofInt n ≠ y := by
      by_cases hy : y = 0
      · exact ⟨1, by decide, by decide, by rw [hy]; decide⟩
      · exact ⟨0, by decide, by decide, fun h => hy h.symm⟩
    have hnum : Numeric (toString n) := numeric_toString n
    exact ⟨.num (toString n), Int64.ofInt n, hne, fun depth => by cases depth <;> exact hnum,
      fun _ => parseInt_toString hlo hhi⟩

theorem scalar_bool : Scalar decodeBool where
  cases v := by
    cases v with
    | bool b => exact .inr (.inl ⟨b, fun _ => rfl⟩)
    | null => exact .inr (.inr ⟨rfl, fun _ => rfl⟩)
    | _ => exact .inl fun _ => rfl
  flat old v h := by cases v <;> first | rfl | simp [decodeBool] at h
  other y := ⟨.bool (!y), !y, Bool.not_ne_self y, fun depth => by cases depth <;> trivial,
    fun _ => rfl⟩

theorem scalar_boolPtr : Scalar fun _ : Option Bool => decodeBoolPtr where
  cases v := by
    cases v with
    | bool b => exact .inr (.inl ⟨some b, fun _ => rfl⟩)
    | null => exact .inr (.inl ⟨none, fun _ => rfl⟩)
    | _ => exact .inl fun _ => rfl
  flat old v h := by cases v <;> first | rfl | simp [decodeBoolPtr] at h
  other y := ⟨.bool (!y.getD true), some (!y.getD true), by cases y <;> simp,
    fun depth => by cases depth <;> trivial, fun _ => rfl⟩

/-! ### Slices of structs -/

theorem readableMembers_iff {depth : ℕ} {ms : Members} :
    ReadableMembers depth ms ↔ ∀ m ∈ ms, Readable depth m.2 := by
  induction ms with
  | nil => simp [ReadableMembers]
  | cons m ms ih => simp [ReadableMembers, ih]

theorem readableElems_iff {depth : ℕ} {vs : List (Json String)} :
    ReadableElems depth vs ↔ ∀ v ∈ vs, Readable depth v := by
  induction vs with
  | nil => simp [ReadableElems]
  | cons v vs ih => simp [ReadableElems, ih]

theorem readableMembers_append {depth : ℕ} {ms ms' : Members} (h : ReadableMembers depth ms)
    (h' : ReadableMembers depth ms') : ReadableMembers depth (ms ++ ms') := by
  rw [readableMembers_iff] at h h' ⊢
  intro m hm
  rcases List.mem_append.mp hm with hm | hm
  · exact h m hm
  · exact h' m hm

section Slices

variable {α : Type} (S : Struct α) (zero : α)

mutual

theorem readable_toAny : ∀ (v : Json String) (depth : ℕ), Readable depth v →
    Readable depth (toAny v)
  | .null, _, h | .bool _, _, h | .num _, _, h | .str _, _, h => h
  | .arr _, 0, h | .obj _, 0, h => h
  | .arr elems, depth + 1, h => readable_toAnyElems elems depth h
  | .obj members, depth + 1, h => readable_toAnyMembers members depth h

theorem readable_toAnyElems : ∀ (vs : List (Json String)) (depth : ℕ), ReadableElems depth vs →
    ReadableElems depth (toAnyElems vs)
  | [], _, h => h
  | v :: rest, depth, h => ⟨readable_toAny v depth h.1, readable_toAnyElems rest depth h.2⟩

theorem readable_toAnyMembers : ∀ (ms : Members) (depth : ℕ), ReadableMembers depth ms →
    ReadableMembers depth (toAnyMembers ms)
  | [], _, h => h
  | (k, v) :: rest, depth, h => by
    have hrest := readable_toAnyMembers rest depth h.2
    rw [toAnyMembers]
    split
    · exact hrest
    · rw [readableMembers_iff] at hrest ⊢
      intro m hm
      rcases mem_insertKey.mp hm with rfl | hm
      · exact readable_toAny v depth h.1
      · exact hrest m hm

end

/-- Every field of the element is there and fixed by all members for it. -/
def Struct.FixesElem (e : Json String) (a : α) : Prop :=
  ∃ ms, e = .obj ms ∧ ∀ f ∈ S.fields, (∃ m ∈ ms, S.selects f m.1) ∧
    S.Settles ms f (f.type.view (f.get a))

abbrev sliceType (height : ℕ) : FieldType where
  State := Slice α
  View := List α
  decode := Slice.decode (decodeStruct S.decodeMember) zero
  view := Slice.elems
  fixes v xs := (v = .null ∨ v = .arr []) ∧ xs = [] ∨
    ∃ e es, v = .arr (e :: es) ∧ List.Forall₂ S.FixesElem (e :: es) xs
  height := height + 2

variable {S zero}

theorem decodeElems_at {decode : α → Json String → Option α} {backing as : List α}
    {pre post : List (Json String)} {e : Json String}
    (h : decodeElems decode zero backing (pre ++ e :: post) = some as) :
    ∃ a, as[pre.length]? = some a ∧ decode (backing.getD pre.length zero) e = some a := by
  induction pre generalizing backing as with
  | nil =>
    rw [List.nil_append, decodeElems] at h
    obtain ⟨a, ha, hrest⟩ := Option.bind_eq_some_iff.mp h
    obtain ⟨as', -, heq⟩ := Option.bind_eq_some_iff.mp hrest
    obtain rfl := Option.some.inj heq
    refine ⟨a, rfl, ?_⟩
    cases backing <;> exact ha
  | cons v pre ih =>
    rw [List.cons_append, decodeElems] at h
    obtain ⟨a, -, hrest⟩ := Option.bind_eq_some_iff.mp h
    obtain ⟨as', has, heq⟩ := Option.bind_eq_some_iff.mp hrest
    obtain rfl := Option.some.inj heq
    obtain ⟨b, hb, hdecode⟩ := ih has
    refine ⟨b, by simpa using hb, ?_⟩
    cases backing with
    | nil => simpa using hdecode
    | cons x xs => simpa using hdecode

theorem decodeElems_isSome {decode : α → Json String → Option α} (backing : List α)
    {vs : List (Json String)} (h : ∀ v ∈ vs, ∀ a, (decode a v).isSome) :
    (decodeElems decode zero backing vs).isSome := by
  induction vs generalizing backing with
  | nil => rfl
  | cons v vs ih =>
    obtain ⟨a, ha⟩ :=
      Option.isSome_iff_exists.mp (h v List.mem_cons_self (backing.headD zero))
    obtain ⟨as, has⟩ := Option.isSome_iff_exists.mp
      (ih backing.tail fun w hw => h w (List.mem_cons_of_mem _ hw))
    rw [decodeElems, ha]
    dsimp only [Option.bind_eq_bind, Option.bind_some]
    rw [has]
    rfl

theorem decodeElems_mem {decode : α → Json String → Option α} {backing as : List α}
    {vs : List (Json String)} (h : decodeElems decode zero backing vs = some as)
    {v : Json String} (hv : v ∈ vs) : ∃ a, (decode a v).isSome := by
  obtain ⟨pre, post, rfl⟩ := List.append_of_mem hv
  obtain ⟨a, -, ha⟩ := decodeElems_at h
  exact ⟨_, by rw [ha]; rfl⟩

theorem decodeSlice_isSome (s : Slice α) {vs : List (Json String)}
    (h : ∀ v ∈ vs, ∀ a, (decodeStruct S.decodeMember a v).isSome) :
    (s.decode (decodeStruct S.decodeMember) zero (.arr vs)).isSome := by
  cases vs with
  | nil => rfl
  | cons v vs =>
    obtain ⟨as, has⟩ : ∃ as, decodeElems (decodeStruct S.decodeMember) zero s.backing (v :: vs) =
        some as := Option.isSome_iff_exists.mp (decodeElems_isSome s.backing h)
    rw [Slice.decode, has]
    rfl

theorem decodeSlice_elems {s s' : Slice α} {vs : List (Json String)} (hvs : vs ≠ [])
    (h : s.decode (decodeStruct S.decodeMember) zero (.arr vs) = some s') :
    decodeElems (decodeStruct S.decodeMember) zero s.backing vs = some s'.elems ∧
      s'.backing = s'.elems ++ s.backing.drop s'.elems.length := by
  cases vs with
  | nil => exact absurd rfl hvs
  | cons v vs =>
    rw [Slice.decode] at h
    obtain ⟨as, has, heq⟩ := Option.bind_eq_some_iff.mp h
    obtain rfl := Option.some.inj heq
    exact ⟨has, rfl⟩

theorem toAnyElems_eq_map (vs : List (Json String)) : toAnyElems vs = vs.map toAny := by
  induction vs with
  | nil => rfl
  | cons v vs ih => rw [toAnyElems, ih, List.map_cons]

/-- Of an array that is not fixed, some element is not. -/
theorem exists_elem_unfixed (zero : α) {vs : List (Json String)}
    (hno : ∀ xs, ¬ List.Forall₂ S.FixesElem (toAnyElems vs) xs) :
    ∃ v ∈ vs, ∀ x, ¬ S.FixesElem (toAny v) x := by
  have : Nonempty α := ⟨zero⟩
  by_contra hall
  push Not at hall
  choose! x hx using hall
  refine hno (vs.map x) ?_
  rw [toAnyElems_eq_map, List.forall₂_map_left_iff, List.forall₂_map_right_iff, List.forall₂_same]
  exact hx

namespace Struct.Lawful

variable (hS : S.Lawful)

include hS

theorem decodeStruct_total {a : α} {v : Json String}
    (h : (decodeStruct S.decodeMember a v).isSome) (b : α) :
    (decodeStruct S.decodeMember b v).isSome := by
  cases v with
  | obj ms => exact hS.fold_total b h
  | null => rfl
  | _ => simp [decodeStruct] at h

theorem decodeElem_fixed
    (hext : ∀ a b, (∀ f ∈ S.fields, f.type.view (f.get a) = f.type.view (f.get b)) → a = b)
    {a b x : α} {v : Json String} (h : decodeStruct S.decodeMember a v = some b)
    (hx : S.FixesElem (toAny v) x) : b = x := by
  obtain ⟨raw, hv, hall⟩ := hx
  cases v with
  | obj ms =>
    obtain rfl : toAnyMembers ms = raw := by simpa [toAny] using hv
    refine hext b x fun f hf => ?_
    obtain ⟨hsome, hsettles⟩ := hall f hf
    exact hS.fold_settled hf h hsettles (exists_selected_iff.mp hsome)
  | _ => simp [toAny] at hv

/-- An object with a single member, for one field, that sets it to something other than `y`. -/
theorem exists_member {f : FieldOf α} (hf : f ∈ S.fields) (y : f.type.View) :
    ∃ x, (∀ depth, f.type.height ≤ depth → Readable depth x) ∧
      ∀ b, ∃ c, decodeStruct S.decodeMember b (.obj [(f.name, x)]) = some c ∧
        f.type.view (f.get c) ≠ y := by
  obtain ⟨x, hx, hdecode⟩ := (hS.type f hf).differs y
  refine ⟨x, hx, fun b => ?_⟩
  obtain ⟨s, hs, hview⟩ := hdecode (f.get b)
  have hk : ∀ m ∈ [(f.name, x)], S.selects f m.1 := by simpa using selects_name hf
  obtain ⟨c, hc, rfl⟩ := hS.fold_own (a := b) (s := s) hf hk (by simpa using hs)
  exact ⟨c, hc, hview⟩

/-- An element that is not fixed can be written after another so that it decodes to something other
than `y`. -/
theorem decodeElem_unfixed (hne : S.fields ≠ []) {height : ℕ}
    (hheight : ∀ f ∈ S.fields, f.type.height ≤ height) {a : α} {v : Json String}
    (h : (decodeStruct S.decodeMember a v).isSome) (hno : ∀ x, ¬ S.FixesElem (toAny v) x) (y : α) :
    ∃ u w, toAny w = toAny v ∧
      (∀ depth, height ≤ depth → Readable (depth + 1) v →
        Readable (depth + 1) u ∧ Readable (depth + 1) w) ∧
      (∀ b, (decodeStruct S.decodeMember b u).isSome ∧ (decodeStruct S.decodeMember b w).isSome) ∧
      ∀ b c d, decodeStruct S.decodeMember b u = some c → decodeStruct S.decodeMember c w = some d →
        d ≠ y := by
  -- a field that `v` leaves alone keeps what the element before it has set
  have hkept : ∀ f ∈ S.fields,
      (∀ c d, decodeStruct S.decodeMember c v = some d → f.get d = f.get c) →
      ∃ u w, toAny w = toAny v ∧
        (∀ depth, height ≤ depth → Readable (depth + 1) v →
          Readable (depth + 1) u ∧ Readable (depth + 1) w) ∧
        (∀ b, (decodeStruct S.decodeMember b u).isSome ∧ (decodeStruct S.decodeMember b w).isSome) ∧
        ∀ b c d, decodeStruct S.decodeMember b u = some c →
          decodeStruct S.decodeMember c w = some d → d ≠ y := by
    intro f hf hkeep
    obtain ⟨x, hx, hset⟩ := hS.exists_member hf (f.type.view (f.get y))
    refine ⟨.obj [(f.name, x)], v, rfl, ?_, fun b => ⟨?_, hS.decodeStruct_total h b⟩, ?_⟩
    · exact fun depth hdepth hv => ⟨⟨hx depth ((hheight f hf).trans hdepth), trivial⟩, hv⟩
    · obtain ⟨c, hc, -⟩ := hset b
      rw [hc]
      rfl
    · rintro b c d hc hd rfl
      obtain ⟨c', hc', hview⟩ := hset b
      obtain rfl := Option.some.inj (hc.symm.trans hc')
      rw [hkeep c d hd] at hview
      exact hview rfl
  cases v with
  | null =>
    obtain ⟨f, hf⟩ := List.exists_mem_of_ne_nil _ hne
    refine hkept f hf fun c d hd => ?_
    obtain rfl := Option.some.inj hd
    rfl
  | obj ms =>
    obtain ⟨r, hr⟩ := Option.isSome_iff_exists.mp h
    change ms.foldlM S.decodeMember a = some r at hr
    obtain ⟨f, hf, hopen⟩ : ∃ f ∈ S.fields,
        (∃ m ∈ ms, S.selects f m.1) → ∀ x, ¬ S.Settles (toAnyMembers ms) f x := by
      by_contra hall
      push Not at hall
      refine hno r ⟨toAnyMembers ms, by rw [toAny], fun f hf => ?_⟩
      obtain ⟨hsome, x, hx⟩ := hall f hf
      refine ⟨exists_selected_iff.mpr hsome, ?_⟩
      rwa [hS.fold_settled hf hr hx hsome]
    by_cases hsome : ∃ m ∈ ms, S.selects f m.1
    · obtain ⟨more, hk, hmap, hread, hdecode⟩ :=
        hS.unsettled hf h hsome (hopen hsome) (f.type.view (f.get y))
      have hlast : ∀ b, ∃ d, decodeStruct S.decodeMember b (.obj (ms ++ more)) = some d ∧
          f.type.view (f.get d) ≠ f.type.view (f.get y) := by
        intro b
        obtain ⟨c, hc⟩ := Option.isSome_iff_exists.mp (hS.fold_total b h)
        obtain ⟨s, hs, hview⟩ := hdecode (f.get c)
        obtain ⟨d, hd, rfl⟩ := hS.fold_own hf hk hs
        refine ⟨d, ?_, hview⟩
        change (ms ++ more).foldlM S.decodeMember b = some d
        rw [List.foldlM_append, hc]
        exact hd
      refine ⟨.null, .obj (ms ++ more), by rw [toAny, toAny, hmap], ?_, fun b => ⟨rfl, ?_⟩, ?_⟩
      · intro depth hdepth hv
        refine ⟨trivial, readableMembers_append hv ?_⟩
        exact readableMembers_iff.mpr
          (hread depth ((hheight f hf).trans hdepth) (readableMembers_iff.mp hv))
      · obtain ⟨d, hd, -⟩ := hlast b
        rw [hd]
        rfl
      · rintro b c d - hd rfl
        obtain ⟨d', hd', hview⟩ := hlast c
        obtain rfl := Option.some.inj (hd.symm.trans hd')
        exact hview rfl
    · push Not at hsome
      exact hkept f hf fun c d hd => hS.fold_other hf hd hsome
  | _ => simp [decodeStruct] at h

theorem decodeElems_fixed
    (hext : ∀ a b, (∀ f ∈ S.fields, f.type.view (f.get a) = f.type.view (f.get b)) → a = b)
    {backing as xs : List α} {vs : List (Json String)}
    (h : decodeElems (decodeStruct S.decodeMember) zero backing vs = some as)
    (hx : List.Forall₂ S.FixesElem (toAnyElems vs) xs) : as = xs := by
  induction vs generalizing backing as xs with
  | nil =>
    rw [toAnyElems, List.forall₂_nil_left_iff] at hx
    rw [hx]
    exact (Option.some.inj h).symm
  | cons v vs ih =>
    rw [toAnyElems, List.forall₂_cons_left_iff] at hx
    obtain ⟨x, xs, hfix, hrest, rfl⟩ := hx
    rw [decodeElems] at h
    obtain ⟨a, ha, htail⟩ := Option.bind_eq_some_iff.mp h
    obtain ⟨as', has, heq⟩ := Option.bind_eq_some_iff.mp htail
    obtain rfl := Option.some.inj heq
    rw [hS.decodeElem_fixed hext ha hfix, ih has hrest]

/-- An array after another one, which leaves in the slice what the open element does not set. -/
theorem array_unfixed (hne : S.fields ≠ []) {height : ℕ}
    (hheight : ∀ f ∈ S.fields, f.type.height ≤ height) {pre post : List (Json String)}
    {v : Json String}
    (h : ∀ e ∈ pre ++ v :: post, ∀ a, (decodeStruct S.decodeMember a e).isSome)
    (hopen : ∀ x, ¬ S.FixesElem (toAny v) x) (y : List α) :
    ∃ us w, toAny w = toAny (.arr (pre ++ v :: post)) ∧
      (∀ depth, height + 2 ≤ depth → Readable depth (.arr (pre ++ v :: post)) →
        ∀ u ∈ us ++ [w], Readable depth u) ∧
      ∀ s, ∃ s' : Slice α, (us ++ [w]).foldlM
        (Slice.decode (decodeStruct S.decodeMember) zero) s = some s' ∧ s'.elems ≠ y := by
  obtain ⟨u, w, hw, hread, hsome, hlast⟩ := hS.decodeElem_unfixed hne hheight
    (h v (by simp) zero) hopen (y.getD pre.length zero)
  refine ⟨[.arr (List.replicate pre.length .null ++ [u])], .arr (pre ++ w :: post), ?_, ?_, ?_⟩
  · simp [toAny, toAnyElems_eq_map, hw]
  · rintro depth hdepth hv e he
    obtain ⟨d, rfl⟩ : ∃ d, depth = d + 2 := ⟨depth - 2, by omega⟩
    change ReadableElems (d + 1) _ at hv
    rw [readableElems_iff] at hv
    obtain ⟨hu, hw⟩ := hread d (by omega) (hv v (by simp))
    rcases List.mem_cons.mp he with rfl | he
    · change ReadableElems (d + 1) _
      rw [readableElems_iff]
      intro e he
      rcases List.mem_append.mp he with he | he
      · rw [(List.mem_replicate.mp he).2]
        exact trivial
      · rwa [List.mem_singleton.mp he]
    · rw [List.mem_singleton.mp he]
      change ReadableElems (d + 1) _
      rw [readableElems_iff]
      intro e he
      rcases List.mem_append.mp he with he | he
      · exact hv e (by simp [he])
      · rcases List.mem_cons.mp he with rfl | he
        · exact hw
        · exact hv e (by simp [he])
  · intro s
    have hhidden : ∀ e ∈ List.replicate pre.length .null ++ [u], ∀ a,
        (decodeStruct S.decodeMember a e).isSome := by
      intro e he a
      rcases List.mem_append.mp he with he | he
      · rw [(List.mem_replicate.mp he).2]
        rfl
      · rw [List.mem_singleton.mp he]
        exact (hsome a).1
    have hshown : ∀ e ∈ pre ++ w :: post, ∀ a, (decodeStruct S.decodeMember a e).isSome := by
      intro e he a
      rcases List.mem_append.mp he with he | he
      · exact h e (by simp [he]) a
      · rcases List.mem_cons.mp he with rfl | he
        · exact (hsome a).2
        · exact h e (by simp [he]) a
    obtain ⟨s1, hs1⟩ : ∃ s1, s.decode (decodeStruct S.decodeMember) zero _ = some s1 :=
      Option.isSome_iff_exists.mp (decodeSlice_isSome s hhidden)
    obtain ⟨s2, hs2⟩ : ∃ s2, s1.decode (decodeStruct S.decodeMember) zero _ = some s2 :=
      Option.isSome_iff_exists.mp (decodeSlice_isSome s1 hshown)
    obtain ⟨helems1, hback1⟩ := decodeSlice_elems (by simp) hs1
    obtain ⟨helems2, -⟩ := decodeSlice_elems (by simp) hs2
    obtain ⟨c, hc, hcdec⟩ := decodeElems_at helems1
    obtain ⟨d, hd, hddec⟩ := decodeElems_at helems2
    rw [List.length_replicate] at hc hcdec
    have hback : s1.backing.getD pre.length zero = c := by
      rw [hback1, List.getD_eq_getElem?_getD, List.getElem?_append_left, hc]
      · rfl
      · exact (List.getElem?_eq_some_iff.mp hc).1
    rw [hback] at hddec
    refine ⟨s2, by simp [hs1, hs2], ?_⟩
    rintro rfl
    refine hlast _ c d hcdec hddec ?_
    rw [List.getD_eq_getElem?_getD, hd]
    rfl

end Struct.Lawful

/-- Slices of structs whose fields show all there is. -/
theorem sliceType_lawful (hS : S.Lawful) (hne : S.fields ≠ []) {height : ℕ}
    (hheight : ∀ f ∈ S.fields, f.type.height ≤ height)
    (hext : ∀ a b, (∀ f ∈ S.fields, f.type.view (f.get a) = f.type.view (f.get b)) → a = b) :
    (sliceType S zero height).Lawful where
  total {s s' v} h := by
    cases v with
    | null => rfl
    | arr vs =>
      refine decodeSlice_isSome s' fun v hv a => ?_
      cases vs with
      | nil => simp at hv
      | cons w ws =>
        obtain ⟨t, ht⟩ := Option.isSome_iff_exists.mp h
        obtain ⟨b, hb⟩ := decodeElems_mem (decodeSlice_elems (by simp) ht).1 hv
        exact hS.decodeStruct_total hb a
    | _ => exact Bool.noConfusion h
  fixed {s s' v x} hx h := by
    rcases hx with ⟨hv, rfl⟩ | ⟨e, es, hv, hall⟩
    · cases v with
      | null =>
        obtain rfl := Option.some.inj h
        rfl
      | arr vs =>
        cases vs with
        | nil =>
          obtain rfl := Option.some.inj h
          rfl
        | cons w ws => simp [toAny, toAnyElems] at hv
      | _ => simp [toAny] at hv
    · cases v with
      | arr vs =>
        obtain hes : toAnyElems vs = e :: es := by simpa [toAny] using hv
        cases vs with
        | nil => simp [toAnyElems] at hes
        | cons w ws =>
          exact hS.decodeElems_fixed hext (decodeSlice_elems (by simp) h).1 (hes ▸ hall)
      | _ => simp [toAny] at hv
  unfixed {s v} h hno y := by
    cases v with
    | null => exact absurd (.inl ⟨.inl rfl, rfl⟩) (hno [])
    | arr vs =>
      cases vs with
      | nil => exact absurd (.inl ⟨.inr (by rw [toAny, toAnyElems]), rfl⟩) (hno [])
      | cons v0 vs0 =>
        obtain ⟨t, ht⟩ := Option.isSome_iff_exists.mp h
        have hdecodes : ∀ v ∈ v0 :: vs0, ∀ a, (decodeStruct S.decodeMember a v).isSome := by
          intro v hv a
          obtain ⟨b, hb⟩ := decodeElems_mem (decodeSlice_elems (by simp) ht).1 hv
          exact hS.decodeStruct_total hb a
        have helems : ∀ xs, ¬ List.Forall₂ S.FixesElem (toAnyElems (v0 :: vs0)) xs :=
          fun xs hxs => hno xs (.inr ⟨toAny v0, toAnyElems vs0, by rw [toAny, toAnyElems], hxs⟩)
        obtain ⟨v, hv, hopen⟩ := exists_elem_unfixed zero helems
        obtain ⟨pre, post, hsplit⟩ := List.append_of_mem hv
        rw [hsplit] at hdecodes ⊢
        obtain ⟨us, w, hw, hread, hdecode⟩ := hS.array_unfixed hne hheight hdecodes hopen y
        exact ⟨us, w, hw, hread, hdecode⟩
    | _ => exact Bool.noConfusion h
  differs y := by
    by_cases hy : y = []
    · refine ⟨.arr [.null], fun depth hdepth => ?_, fun s => ?_⟩
      · cases depth with
        | zero => exact absurd hdepth (by simp)
        | succ depth => cases depth <;> exact ⟨trivial, trivial⟩
      · refine ⟨_, rfl, ?_⟩
        rw [hy]
        simp
    · exact ⟨.null, fun depth _ => by cases depth <;> trivial,
        fun s => ⟨{}, rfl, fun h => hy h.symm⟩⟩

end Slices

end Dap.GoJson
