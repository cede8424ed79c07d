import Dap.Lib.JsPretty

/-! The channels file as the text that it is, and what one `persistChannelKeys` leaves of it
(`adapters/mcp-bridge/src/channels.ts`, `adapters/dsh-plugin/src/channels.ts`). -/
namespace Dap.ChannelsFile
open Json JsParse JsObject

/-! ### Model -/

structure ChannelKeys where
  pub : JsString
  priv : JsString
  deriving DecidableEq

def pubKey : JsString := .ofString "pub"

def privKey : JsString := .ofString "priv"

/-- `v?.[key]`; only objects have these members. -/
def member (v : Json JsString) (key : JsString) : Option (Json JsString) :=
  match v with
  | .obj ms => JsMap.lookup key ms
  | _ => none

/-- `Object.entries(raw)`; the characters of a string are no channels. -/
def entriesOf : Json JsString → List (JsString × Json JsString)
  | .obj ms => arrange ms
  | .arr elems => elems.mapIdx fun i v => (.ofString (toString i), v)
  | _ => []

/-- The entry, when both of its keys are strings. -/
def keysOf (v : Json JsString) : Option ChannelKeys :=
  match member v pubKey, member v privKey with
  | some (.str pub), some (.str priv) => some ⟨pub, priv⟩
  | _, _ => none

/-- One turn of the loop of `loadChannelKeys`. -/
def keepEntry (out : JsObject ChannelKeys) (e : JsString × Json JsString) : JsObject ChannelKeys :=
  match keysOf e.2 with
  | some keys => out.put e.1 keys
  | none => out

/-- `none` stands for a file that cannot be read. -/
def loadChannelKeys (file : Option (List Char)) : JsObject ChannelKeys :=
  match file.bind jsonParse with
  | some raw => (entriesOf raw).foldl keepEntry {}
  | none => {}

def ChannelKeys.json (keys : ChannelKeys) : Json JsString :=
  .obj [(pubKey, .str keys.pub), (privKey, .str keys.priv)]

/-- `JSON.stringify(all, null, 2) + '\n'`. -/
def fileText (all : JsObject ChannelKeys) : List Char :=
  (Json.obj (all.entries.map fun m => (m.1, m.2.json))).printAt JsString.quote [] ++ ['\n']

def persistChannelKeys (file : Option (List Char)) (name : JsString) (keys : ChannelKeys) :
    List Char := fileText ((loadChannelKeys file).put name keys)

/-- The text is that of an object with this member. -/
def Holds (text : List Char) (name : JsString) (v : Json JsString) : Prop :=
  ∃ ms, jsonParse text = some (.obj ms) ∧ (name, v) ∈ ms

/-- The file that is written has every other member with the same value, and the keys under the
name. -/
def KeepsOthers (text : List Char) (name : JsString) (keys : ChannelKeys) : Prop :=
  (∀ k v, k ≠ name → Holds text k v →
    ∃ w, Holds (persistChannelKeys (some text) name keys) k w ∧ Same v w) ∧
  (loadChannelKeys (some (persistChannelKeys (some text) name keys))).made.get name = some keys

/-- An object of two strings, `pub` and `priv`, in either order, and of nothing else. -/
def ChannelEntry (v : Json JsString) : Prop :=
  ∃ (keys : ChannelKeys) (ms : List (JsString × Json JsString)), v = .obj ms ∧
    ms.Perm [(pubKey, .str keys.pub), (privKey, .str keys.priv)]

/-! ### Entries -/

theorem nodup_keys (keys : ChannelKeys) :
    (([(pubKey, .str keys.pub), (privKey, .str keys.priv)] :
      List (JsString × Json JsString)).map Prod.fst).Nodup := by
  have hne : pubKey ≠ privKey := by decide
  simp [hne]

theorem keysOf_perm {keys : ChannelKeys} {ms : List (JsString × Json JsString)}
    (h : ms.Perm [(pubKey, .str keys.pub), (privKey, .str keys.priv)]) :
    keysOf (.obj ms) = some keys := by
  have hnodup : (ms.map Prod.fst).Nodup := (h.map Prod.fst).nodup_iff.mpr (nodup_keys keys)
  have hpub : JsMap.lookup pubKey ms = some (.str keys.pub) :=
    (JsMap.mem_iff_lookup hnodup).mp (h.mem_iff.mpr (by simp))
  have hpriv : JsMap.lookup privKey ms = some (.str keys.priv) :=
    (JsMap.mem_iff_lookup hnodup).mp (h.mem_iff.mpr (by simp))
  simp only [keysOf, member, hpub, hpriv]

theorem keysOf_json (keys : ChannelKeys) : keysOf keys.json = some keys :=
  keysOf_perm (List.Perm.refl _)

theorem same_str {v : Json JsString} {s : JsString} (h : Same v (.str s)) : v = .str s := by
  cases v with
  | str t =>
    simp only [Same] at h
    exact h.symm
  | null | bool _ | num _ => simp [Same] at h
  | arr elems =>
    obtain ⟨elems', h, -⟩ := h
    cases h
  | obj members =>
    obtain ⟨-, members'', h, -, -⟩ := h
    cases h

/-- Members with strings for their values are the same only when they are equal. -/
theorem sameMembers_strings {ms ns : List (JsString × Json JsString)} (h : SameMembers ms ns)
    (hns : ∀ n ∈ ns, ∃ s, n.2 = .str s) : ms = ns := by
  induction ms generalizing ns with
  | nil => exact h.symm
  | cons m ms ih =>
    obtain ⟨k, v⟩ := m
    obtain ⟨w, rest, rfl, hvalue, hrest⟩ := h
    obtain ⟨s, hs⟩ := hns (k, w) (by simp)
    obtain rfl : w = .str s := hs
    rw [same_str hvalue, ih hrest fun n hn => hns n (List.mem_cons_of_mem _ hn)]

theorem channelEntry_iff_same (v : Json JsString) (keys : ChannelKeys) :
    Same v keys.json ↔
      ∃ ms, v = .obj ms ∧ ms.Perm [(pubKey, .str keys.pub), (privKey, .str keys.priv)] := by
  constructor
  · intro h
    cases v with
    | obj ms =>
      obtain ⟨ms', ns, heq, hperm, hsame⟩ := h
      obtain rfl : [(pubKey, .str keys.pub), (privKey, .str keys.priv)] = ns := by
        simpa [ChannelKeys.json] using heq
      have hstrings : ∀ n ∈ ms', ∃ s, n.2 = .str s := by
        intro n hn
        have hn' := hperm.mem_iff.mp hn
        simp only [List.mem_cons, List.not_mem_nil, or_false] at hn'
        rcases hn' with rfl | rfl
        · exact ⟨_, rfl⟩
        · exact ⟨_, rfl⟩
      rw [sameMembers_strings hsame hstrings]
      exact ⟨ms', rfl, hperm⟩
    | null | bool _ | num _ | str _ => simp [Same, ChannelKeys.json] at h
    | arr elems =>
      obtain ⟨elems', h, -⟩ := h
      cases h
  · rintro ⟨ms, rfl, hperm⟩
    exact same_of_perm hperm

/-! ### What is loaded -/

theorem foldl_keepEntry (es : List (JsString × Json JsString)) (out : JsObject ChannelKeys) :
    es.foldl keepEntry out =
      (es.filterMap fun e => (keysOf e.2).map fun keys => (e.1, keys)).foldl
        (fun o m => o.put m.1 m.2) out := by
  induction es generalizing out with
  | nil => rfl
  | cons e es ih =>
    rw [List.foldl_cons, ih]
    unfold keepEntry
    cases hkeys : keysOf e.2 with
    | none => simp [hkeys]
    | some keys => simp [hkeys]

theorem sublist_filterMap_keysOf (es : List (JsString × Json JsString)) :
    ((es.filterMap fun e => (keysOf e.2).map fun keys => (e.1, keys)).map Prod.fst).Sublist
      (es.map Prod.fst) := by
  induction es with
  | nil => exact List.Sublist.refl _
  | cons e es ih =>
    cases hkeys : keysOf e.2 with
    | none =>
      rw [List.filterMap_cons_none (by simp [hkeys])]
      exact ih.cons _
    | some keys =>
      rw [List.filterMap_cons_some (b := (e.1, keys)) (by simp [hkeys])]
      exact ih.cons_cons _

section Text

variable {text : List Char} {ms : List (JsString × Json JsString)} {k : JsString}
  {keys : ChannelKeys}

/-- The names and keys that are loaded are those of the entries with two strings. -/
theorem get_loadChannelKeys (h : jsonParse text = some (.obj ms)) :
    (loadChannelKeys (some text)).made.get k = some keys ↔
      k ≠ protoKey ∧ ∃ v, (k, v) ∈ ms ∧ keysOf v = some keys := by
  have hload : loadChannelKeys (some text) = (arrange ms).foldl keepEntry {} := by
    simp only [loadChannelKeys, Option.bind_some, h, entriesOf]
  have hnodup : ((arrange ms).map Prod.fst).Nodup :=
    ((arrange_perm ms).map Prod.fst).nodup_iff.mpr (nodup_of_jsonParse h)
  have hempty : ({} : JsObject ChannelKeys).made.entries = [] := rfl
  have hmade := @made_foldl_put ChannelKeys
    ((arrange ms).filterMap fun e => (keysOf e.2).map fun keys => (e.1, keys)) {}
    (by rw [hempty, List.nil_append]; exact hnodup.sublist (sublist_filterMap_keysOf _))
  rw [hempty, List.nil_append] at hmade
  rw [hload, foldl_keepEntry, ← JsMap.mem_entries, hmade, List.mem_filter, List.mem_filterMap]
  constructor
  · rintro ⟨⟨e, he, heq⟩, hproto⟩
    obtain ⟨keys', hkeys, hpair⟩ := Option.map_eq_some_iff.mp heq
    obtain ⟨rfl, rfl⟩ : e.1 = k ∧ keys' = keys := by simpa using hpair
    exact ⟨by simpa using hproto, e.2, (arrange_perm ms).mem_iff.mp he, hkeys⟩
  · rintro ⟨hproto, v, hv, hkeys⟩
    exact ⟨⟨(k, v), (arrange_perm ms).mem_iff.mpr hv, by simp [hkeys]⟩, by simpa using hproto⟩

end Text

/-! ### What is written -/

section Written

variable {all : JsObject ChannelKeys} {k : JsString} {keys : ChannelKeys}

theorem textual_json (keys : ChannelKeys) : Textual keys.json := ⟨trivial, trivial, trivial⟩

theorem textualMembers_json (ms : List (JsString × ChannelKeys)) :
    TextualMembers (ms.map fun m => (m.1, m.2.json)) := by
  induction ms with
  | nil => trivial
  | cons m ms ih => exact ⟨textual_json m.2, ih⟩

theorem resolve_json (keys : ChannelKeys) : resolve keys.json = keys.json := by
  apply resolve_obj (nodup_keys keys)
  intro m hm
  simp only [List.mem_cons, List.not_mem_nil, or_false] at hm
  rcases hm with rfl | rfl
  · rfl
  · rfl

theorem jsonParse_fileText (all : JsObject ChannelKeys) :
    jsonParse (fileText all) = some (.obj (all.entries.map fun m => (m.1, m.2.json))) := by
  have hnodup : ((all.entries.map fun m => (m.1, m.2.json)).map Prod.fst).Nodup := by
    rw [List.map_map]
    exact all.nodup_entries
  have htextual : Textual (.obj (all.entries.map fun m => (m.1, m.2.json))) := by
    rw [Textual]
    exact textualMembers_json all.entries
  rw [jsonParse, fileText, parse_printAt htextual, Option.map_some, resolve_obj hnodup]
  intro m hm
  obtain ⟨n, -, rfl⟩ := List.mem_map.mp hm
  exact resolve_json n.2

theorem holds_fileText {w : Json JsString} :
    Holds (fileText all) k w ↔ ∃ keys, all.made.get k = some keys ∧ w = keys.json := by
  constructor
  · rintro ⟨ms, hms, hmem⟩
    rw [jsonParse_fileText, Option.some.injEq, Json.obj.injEq] at hms
    rw [← hms] at hmem
    obtain ⟨m, hm, heq⟩ := List.mem_map.mp hmem
    obtain ⟨rfl, rfl⟩ : m.1 = k ∧ m.2.json = w := by simpa using heq
    exact ⟨m.2, mem_entries.mp hm, rfl⟩
  · rintro ⟨keys, hkeys, rfl⟩
    have hmem : (k, keys) ∈ all.entries := mem_entries.mpr hkeys
    exact ⟨_, jsonParse_fileText all, List.mem_map.mpr ⟨_, hmem, rfl⟩⟩

theorem get_loadChannelKeys_fileText :
    (loadChannelKeys (some (fileText all))).made.get k = some keys ↔
      k ≠ protoKey ∧ all.made.get k = some keys := by
  rw [get_loadChannelKeys (jsonParse_fileText all)]
  constructor
  · rintro ⟨hproto, v, hv, hkeys⟩
    obtain ⟨keys', hget, rfl⟩ := holds_fileText.mp ⟨_, jsonParse_fileText all, hv⟩
    rw [keysOf_json] at hkeys
    exact ⟨hproto, hkeys ▸ hget⟩
  · rintro ⟨hproto, hget⟩
    obtain ⟨ms, hms, hmem⟩ := holds_fileText.mpr ⟨keys, hget, rfl⟩
    rw [jsonParse_fileText, Option.some.injEq, Json.obj.injEq] at hms
    exact ⟨hproto, _, hms ▸ hmem, keysOf_json keys⟩

end Written

/-- Persisting the keys of a channel keeps the other members of the file and makes the keys loadable
exactly when neither the channel nor another member is named `__proto__`, and every other member is
an object of two strings, `pub` and `priv`. -/
theorem keepsOthers_iff (text : List Char) (name : JsString) (keys : ChannelKeys)
    (ms : List (JsString × Json JsString)) (h : jsonParse text = some (.obj ms)) :
    KeepsOthers text name keys ↔ name ≠ protoKey ∧
      ∀ k v, (k, v) ∈ ms → k ≠ name → k ≠ protoKey ∧ ChannelEntry v := by
  have hother : ∀ {k : JsString}, k ≠ name →
      ((loadChannelKeys (some text)).put name keys).made.get k =
        (loadChannelKeys (some text)).made.get k := by
    intro k hk
    rw [get_put, if_neg fun heq => hk heq.2.symm]
  unfold KeepsOthers persistChannelKeys
  rw [get_loadChannelKeys_fileText]
  constructor
  · rintro ⟨hothers, hproto, -⟩
    refine ⟨hproto, fun k v hv hk => ?_⟩
    obtain ⟨w, hw, hsame⟩ := hothers k v hk ⟨ms, h, hv⟩
    obtain ⟨keys', hget, rfl⟩ := holds_fileText.mp hw
    rw [hother hk, get_loadChannelKeys h] at hget
    obtain ⟨ms', rfl, hperm⟩ := (channelEntry_iff_same v keys').mp hsame
    exact ⟨hget.1, keys', ms', rfl, hperm⟩
  · rintro ⟨hproto, hothers⟩
    constructor
    · rintro k v hk ⟨ms', hms', hv⟩
      obtain rfl : ms = ms' := by simpa [h] using hms'
      obtain ⟨hkproto, keys', ns, rfl, hperm⟩ := hothers k v hv hk
      refine ⟨keys'.json, holds_fileText.mpr ⟨keys', ?_, rfl⟩, same_of_perm hperm⟩
      rw [hother hk, get_loadChannelKeys h]
      exact ⟨hkproto, _, hv, keysOf_perm hperm⟩
    · refine ⟨hproto, ?_⟩
      rw [get_put, if_pos ⟨hproto, rfl⟩]

theorem jsonParse_print {k : JsString} {ms : List (JsString × Json JsString)}
    (hnodup : (ms.map Prod.fst).Nodup) (hms : ∀ m ∈ ms, ∃ s, m.2 = .str s) :
    jsonParse ((Json.obj [(k, .obj ms)]).print JsString.quote) = some (.obj [(k, .obj ms)]) := by
  have hstrings : ∀ ns : List (JsString × Json JsString), (∀ m ∈ ns, ∃ s, m.2 = .str s) →
      NumeralsMembers ns := by
    intro ns
    induction ns with
    | nil => exact fun _ => trivial
    | cons n ns ih =>
      intro hns
      obtain ⟨s, hs⟩ := hns n (by simp)
      obtain ⟨k, v⟩ := n
      obtain rfl : v = .str s := hs
      exact ⟨trivial, ih fun m hm => hns m (List.mem_cons_of_mem _ hm)⟩
  have hnumerals : Numerals (.obj [(k, .obj ms)]) := ⟨hstrings ms hms, trivial⟩
  have hresolve : resolve (.obj ms) = .obj ms := by
    apply resolve_obj hnodup
    intro m hm
    obtain ⟨s, hs⟩ := hms m hm
    rw [hs]
    rfl
  rw [jsonParse, parse_print hnumerals, Option.map_some, resolve_obj (by simp)]
  intro m hm
  rw [List.mem_singleton.mp hm]
  exact hresolve

/-- A file with one channel, its private key first. -/
def oneChannel (k : JsString) : Json JsString :=
  .obj [(k, .obj [(privKey, .str (.ofString "q")), (pubKey, .str (.ofString "p"))])]

theorem jsonParse_oneChannel (k : JsString) :
    jsonParse ((oneChannel k).print JsString.quote) = some (oneChannel k) := by
  apply jsonParse_print
  · decide
  · simp

theorem keepsOthers_dev :
    KeepsOthers ((oneChannel (.ofString "ops")).print JsString.quote) (.ofString "dev")
      ⟨.ofString "r", .ofString "s"⟩ := by
  refine (keepsOthers_iff _ _ _ _ (jsonParse_oneChannel (.ofString "ops"))).mpr ⟨by decide, ?_⟩
  intro k v hv hk
  obtain ⟨rfl, rfl⟩ : k = .ofString "ops" ∧ v = _ := by simpa using hv
  exact ⟨by decide, ⟨.ofString "p", .ofString "q"⟩, _, rfl, .swap _ _ _⟩

/-- Persisting one channel loses another one that is named `__proto__`. -/
theorem not_keepsOthers_proto : ¬ ∀ text ms name keys, jsonParse text = some (.obj ms) →
    KeepsOthers text name keys := by
  intro hall
  have hparse := jsonParse_oneChannel protoKey
  obtain ⟨hothers, -⟩ := hall _ _ (.ofString "dev") ⟨.ofString "r", .ofString "s"⟩ hparse
  obtain ⟨w, hw, -⟩ := hothers protoKey _ (by decide) ⟨_, hparse, List.mem_singleton.mpr rfl⟩
  obtain ⟨keys', hget, -⟩ := holds_fileText.mp hw
  rw [get_put, if_neg (by decide), get_loadChannelKeys hparse] at hget
  exact hget.1 rfl

end Dap.ChannelsFile
