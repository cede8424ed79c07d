import Dap.Hub.Enroll

/-! The channel registry over kills and restarts. Names are Go strings here, any bytes, and the
write of the tmp file and its rename are steps of their own (`hub/store.go`). -/
namespace Dap

/-- A Go string: its bytes, UTF-8 or not. -/
abbrev GoString := Bytes

namespace GoString

/-- As `encoding/json` writes it: what is not UTF-8 becomes U+FFFD. -/
def text (s : GoString) : String := String.ofList (Bytes.runes 0 s)

def ofString (s : String) : GoString := Bytes.utf8 s.toList

def Valid (s : GoString) : Prop := ofString s.text = s

instance (s : GoString) : Decidable s.Valid := inferInstanceAs (Decidable (_ = _))

@[simp] theorem text_ofString (s : String) : (ofString s).text = s := by
  rw [text, ofString, Bytes.runes_utf8, String.ofList_toList]

theorem ofString_injective : Function.Injective ofString := fun a b h => by
  rw [← text_ofString a, h, text_ofString]

theorem valid_ofString (s : String) : (ofString s).Valid := congrArg ofString (text_ofString s)

end GoString

/-! ### The registry and its operations -/

/-- A channel, its name apart. -/
structure Entry where
  pubkey : String := ""
  allowed : List String := []
  members : GoMap Bool := ∅

abbrev Registry := GoString → Option Entry

/-- What `joinChannel` reads of the connection. -/
structure Joiner where
  auth : AuthKind
  pubkey : String
  agentID : String

/-- A join names its channel in a frame, `setACL` in a path. -/
inductive RegistryOp where
  | join (j : Joiner) (name chanPub : String)
  | setACL (name : GoString) (allowed : List String)

variable (P : Platform)

def Entry.allows (e : Entry) (pubkey : String) : Bool :=
  if e.allowed.isEmpty then true else e.allowed.any fun allowed => constEq P allowed pubkey

def Entry.addMember (e : Entry) (agentID : String) : Entry :=
  { e with members := e.members.insert agentID true }

namespace RegistryOp

/-- The registry that the operation writes to the file, if it writes it. -/
def persists (r : Registry) : RegistryOp → Option Registry
  | join j name chanPub =>
    if (r (.ofString name)).isNone ∧ j.auth = .master then
      some (Function.update r (.ofString name) (some { pubkey := chanPub }))
    else none
  | setACL name allowed =>
    some (Function.update r name (some { (r name).getD {} with allowed := allowed }))

/-- The registry after the operation. -/
def result (r : Registry) : RegistryOp → Registry
  | join j name chanPub =>
    match r (.ofString name) with
    | none =>
      if j.auth ≠ .master then r
      else
        Function.update r (.ofString name)
          (some (Entry.addMember { pubkey := chanPub } j.agentID))
    | some e =>
      if e.allows P j.pubkey then
        Function.update r (.ofString name) (some (e.addMember j.agentID))
      else r
  | setACL name allowed =>
    Function.update r name (some { (r name).getD {} with allowed := allowed })

/-- The name that a path gives is UTF-8. -/
def NameValid : RegistryOp → Prop
  | join _ _ _ => True
  | setACL name _ => name.Valid

end RegistryOp

/-! ### The file -/

/-- The records, in the order in which the map happens to be ranged over. -/
def Registry.Lists (r : Registry) (records : List (GoString × Entry)) : Prop :=
  (records.map Prod.fst).Nodup ∧ ∀ name e, (name, e) ∈ records ↔ r name = some e

def registryStore (records : List (GoString × Entry)) : Json String :=
  .obj [("channels", .arr (records.map fun kv =>
    channelRecord kv.1.text { name := kv.1.text, pubkey := kv.2.pubkey, allowed := kv.2.allowed }))]

def restoreRegistry (records : List ChannelRecord) : Registry :=
  records.foldl (fun r rec => Function.update r (.ofString rec.name)
    (some { pubkey := rec.pubkey, allowed := rec.allowed.elems })) fun _ => none

/-- What `loadChannels` gives a new process; a missing or broken file gives nothing. -/
def loadRegistry (file : Option (Json String)) : Registry :=
  match file.bind parseChannelStore with
  | some records => restoreRegistry records
  | none => fun _ => none

/-- The public keys and ACLs, with nobody in any channel. -/
def Registry.stored (r : Registry) : Registry :=
  fun name => (r name).map fun e => { e with members := ∅ }

/-! ### Processes and kills -/

/-- How far a process has come with the operation that holds the lock. -/
inductive Progress where
  | idle
  | changed (op : RegistryOp)
  | written (op : RegistryOp)
  | renamed (op : RegistryOp)

def Progress.op : Progress → Option RegistryOp
  | idle => none
  | changed op | written op | renamed op => some op

/-- A hub process and its files. `registry` is the registry after the last completed operation. -/
structure HubProcess where
  registry : Registry := fun _ => none
  progress : Progress := .idle
  file : Option (Json String) := none
  tmp : Option (Json String) := none

/-- A kill may come at any step, and leave anything in the tmp file. -/
inductive HubProcess.Step (ok : RegistryOp → Prop) : HubProcess → HubProcess → Prop where
  | ran {r file tmp} (op : RegistryOp) (hok : ok op) (hp : op.persists r = none) :
      Step ok ⟨r, .idle, file, tmp⟩ ⟨op.result P r, .idle, file, tmp⟩
  | changed {r file tmp} (op : RegistryOp) (hok : ok op) (hp : (op.persists r).isSome) :
      Step ok ⟨r, .idle, file, tmp⟩ ⟨r, .changed op, file, tmp⟩
  | written {r r' file tmp op records} (hp : op.persists r = some r') (hl : r'.Lists records) :
      Step ok ⟨r, .changed op, file, tmp⟩ ⟨r, .written op, file, some (registryStore records)⟩
  | renamed {r file tmp op} : Step ok ⟨r, .written op, file, tmp⟩ ⟨r, .renamed op, tmp, none⟩
  | finished {r file tmp op} :
      Step ok ⟨r, .renamed op, file, tmp⟩ ⟨op.result P r, .idle, file, tmp⟩
  | killed {r progress file tmp} (tmp') :
      Step ok ⟨r, progress, file, tmp⟩ ⟨loadRegistry file, .idle, file, tmp'⟩

/-- From a first boot, without a file. -/
inductive HubProcess.Run (ok : RegistryOp → Prop) : HubProcess → Prop where
  | boot : Run ok {}
  | step {s s'} (hr : Run ok s) (hs : HubProcess.Step P ok s s') : Run ok s'

/-- A restart now would restore the registry as it was after the last completed operation, or as the
operation in progress leaves it. -/
def HubProcess.Durable (s : HubProcess) : Prop :=
  loadRegistry s.file = s.registry.stored ∨
    ∃ op, s.progress.op = some op ∧ loadRegistry s.file = (op.result P s.registry).stored

variable {P}

/-! ### What the file restores -/

open GoJson in
theorem parseChannelStore_registryStore (records : List (GoString × Entry)) :
    ∃ rs, parseChannelStore (registryStore records) = some rs ∧
      rs.map (fun r => (r.name, r.pubkey, r.allowed.elems)) =
        records.map fun kv => (kv.1.text, kv.2.pubkey, kv.2.allowed) := by
  have hfield : matchField ["channels"] "channels" = some "channels" := by decide
  have hallowed : ∀ allowed : List String, ({} : Slice String).decode decodeString ""
      (.arr (allowed.map .str)) = some ⟨allowed, allowed⟩ := by
    intro allowed
    have hwritten := Slice.decode_written
      (fun s => (rfl : decodeString "" (.str s) = some (id s))) allowed
    simpa using hwritten
  have hrecord : ∀ kv : GoString × Entry, decodeStruct ChannelRecord.decodeMember {}
      (channelRecord kv.1.text
        { name := kv.1.text, pubkey := kv.2.pubkey, allowed := kv.2.allowed }) =
      some (⟨kv.1.text, kv.2.pubkey, ⟨kv.2.allowed, kv.2.allowed⟩⟩ : ChannelRecord) := by
    rintro ⟨name, e⟩
    by_cases hp : e.pubkey = "" <;> by_cases ha : e.allowed = []
    all_goals
      simp [channelRecord, decodeStruct, strOmitEmpty, allowedMember, hp, ha,
        ChannelRecord.decodeMember, matchField, decodeString, hallowed]
  have hslice := Slice.decode_written hrecord records
  refine ⟨records.map fun kv => ⟨kv.1.text, kv.2.pubkey, ⟨kv.2.allowed, kv.2.allowed⟩⟩, ?_, ?_⟩
  · simp only [parseChannelStore, registryStore, decodeStruct, List.foldlM_cons, List.foldlM_nil,
      hfield, hslice]
    rfl
  · rw [List.map_map]
    rfl

theorem foldl_update_of_notMem {α β γ : Type} [DecidableEq α] (key : γ → α) (value : γ → β)
    (l : List γ) (f : α → Option β) {a : α} (ha : ∀ x ∈ l, key x ≠ a) :
    (l.foldl (fun f x => Function.update f (key x) (some (value x))) f) a = f a := by
  induction l generalizing f with
  | nil => rfl
  | cons x l ih =>
    rw [List.foldl_cons, ih _ fun y hy => ha y (List.mem_cons_of_mem _ hy)]
    exact Function.update_of_ne (ha x List.mem_cons_self).symm _ _

theorem foldl_update_of_mem {α β γ : Type} [DecidableEq α] (key : γ → α) (value : γ → β)
    (l : List γ) (f : α → Option β) (hl : (l.map key).Nodup) {x : γ} (hx : x ∈ l) :
    (l.foldl (fun f x => Function.update f (key x) (some (value x))) f) (key x) =
      some (value x) := by
  induction l generalizing f with
  | nil => simp at hx
  | cons y l ih =>
    rw [List.map_cons, List.nodup_cons] at hl
    rw [List.foldl_cons]
    rcases List.mem_cons.mp hx with rfl | hx
    · rw [foldl_update_of_notMem]
      · exact Function.update_self _ _ _
      · exact fun z hz heq => hl.1 (heq ▸ List.mem_map_of_mem hz)
    · exact ih _ hl.2 hx

/-- The names in the registry are UTF-8. -/
def Registry.NamesValid (r : Registry) : Prop := ∀ name e, r name = some e → name.Valid

theorem loadRegistry_registryStore {r : Registry} {records : List (GoString × Entry)}
    (hv : r.NamesValid) (hl : r.Lists records) :
    loadRegistry (some (registryStore records)) = r.stored := by
  obtain ⟨rs, hparse, hrs⟩ := parseChannelStore_registryStore records
  have hvalid : ∀ kv ∈ records, GoString.ofString kv.1.text = kv.1 :=
    fun kv hkv => hv kv.1 kv.2 ((hl.2 _ _).mp hkv)
  have hfold : restoreRegistry rs = records.foldl (fun (r : Registry) kv => Function.update r kv.1
      (some { pubkey := kv.2.pubkey, allowed := kv.2.allowed })) fun _ => none := by
    have htriples : restoreRegistry rs = (rs.map fun r => (r.name, r.pubkey, r.allowed.elems)).foldl
        (fun (r : Registry) t => Function.update r (.ofString t.1)
          (some { pubkey := t.2.1, allowed := t.2.2 })) fun _ => none := by
      rw [List.foldl_map]
      rfl
    rw [htriples, hrs, List.foldl_map]
    refine List.foldl_ext _ _ _ fun r kv hkv => ?_
    rw [hvalid kv hkv]
  unfold loadRegistry
  rw [Option.bind_some, hparse]
  dsimp only
  rw [hfold]
  funext name
  cases he : r name with
  | none =>
    rw [foldl_update_of_notMem]
    · simp [Registry.stored, he]
    · rintro ⟨name', e⟩ hkv rfl
      rw [(hl.2 _ _).mp hkv] at he
      exact absurd he (by simp)
  | some e =>
    have hmem := foldl_update_of_mem Prod.fst
      (fun kv : GoString × Entry => ({ pubkey := kv.2.pubkey, allowed := kv.2.allowed } : Entry))
      records (fun _ => none) hl.1 ((hl.2 name e).mpr he)
    simp only [Registry.stored, he, Option.map_some]
    exact hmem

/-! ### What an operation leaves to the file -/

theorem stored_update (r : Registry) (name : GoString) (e : Entry) :
    Registry.stored (Function.update r name (some e)) =
      Function.update r.stored name (some { e with members := ∅ }) := by
  funext name'
  by_cases h : name' = name
  · subst h
    simp [Registry.stored]
  · simp [Registry.stored, h]

theorem stored_update_same {r : Registry} {name : GoString} {e e' : Entry} (h : r name = some e)
    (hp : e'.pubkey = e.pubkey) (ha : e'.allowed = e.allowed) :
    Registry.stored (Function.update r name (some e')) = r.stored := by
  rw [stored_update]
  refine Function.update_eq_self_iff.mpr ?_
  simp [Registry.stored, h, hp, ha]

namespace RegistryOp

/-- An operation that does not write the file changes neither a key nor an ACL. -/
theorem stored_result_of_persists_none {r : Registry} {op : RegistryOp} (h : op.persists r = none) :
    (op.result P r).stored = r.stored := by
  cases op with
  | join j name chanPub =>
    unfold result
    dsimp only
    split
    next hnone =>
      have ha : j.auth ≠ .master := by
        intro ha
        simp [persists, hnone, ha] at h
      rw [if_pos ha]
    next e he =>
      split
      · exact stored_update_same he rfl rfl
      · rfl
  | setACL name allowed => simp [persists] at h

theorem stored_result_of_persists {r r' : Registry} {op : RegistryOp}
    (h : op.persists r = some r') :
    (op.result P r).stored = r'.stored := by
  cases op with
  | join j name chanPub =>
    simp only [persists] at h
    split at h
    next hcond =>
      obtain rfl := Option.some.inj h
      have hnone : r (.ofString name) = none := Option.isNone_iff_eq_none.mp hcond.1
      simp only [result, hnone]
      rw [if_neg (by simp [hcond.2]), stored_update, stored_update]
      rfl
    next => simp at h
  | setACL name allowed =>
    obtain rfl := Option.some.inj h
    rfl

theorem namesValid_result {r : Registry} {op : RegistryOp} (hr : r.NamesValid)
    (hop : op.NameValid) : (op.result P r).NamesValid := by
  have hupdate : ∀ (name : GoString) (e : Entry), name.Valid →
      Registry.NamesValid (Function.update r name (some e)) := by
    intro name e hname name' e' h
    by_cases heq : name' = name
    · exact heq ▸ hname
    · exact hr name' e' (by rwa [Function.update_of_ne heq] at h)
  cases op with
  | join j name chanPub =>
    unfold result
    dsimp only
    split
    · split
      · exact hr
      · exact hupdate _ _ (GoString.valid_ofString name)
    · split
      · exact hupdate _ _ (GoString.valid_ofString name)
      · exact hr
  | setACL name allowed => exact hupdate _ _ hop

end RegistryOp

theorem Registry.NamesValid.of_stored {r r' : Registry} (hr : r.NamesValid)
    (h : r.stored = r'.stored) : r'.NamesValid := by
  intro name e he
  have hname := congrFun h name
  simp only [Registry.stored, he, Option.map_some, Option.map_eq_some_iff] at hname
  obtain ⟨e', he', -⟩ := hname
  exact hr name e' he'

/-! ### Runs -/

namespace HubProcess

/-- What the file, and from the write on the tmp file, restore. -/
def Synced (P : Platform) (s : HubProcess) : Prop :=
  match s.progress with
  | .idle | .changed _ => loadRegistry s.file = s.registry.stored
  | .written op => loadRegistry s.file = s.registry.stored ∧
      loadRegistry s.tmp = (op.result P s.registry).stored
  | .renamed op => loadRegistry s.file = (op.result P s.registry).stored

/-- The names are UTF-8, also those an operation in progress adds. -/
def Named (P : Platform) (s : HubProcess) : Prop :=
  s.registry.NamesValid ∧
    ∀ op, s.progress.op = some op → (op.result P s.registry).NamesValid

theorem Synced.durable {s : HubProcess} (h : s.Synced P) : s.Durable P := by
  obtain ⟨r, progress, file, tmp⟩ := s
  cases progress with
  | idle => exact .inl h
  | changed op => exact .inl h
  | written op => exact .inl h.1
  | renamed op => exact .inr ⟨op, rfl, h⟩

theorem Step.synced {s s' : HubProcess} (hs : Step P RegistryOp.NameValid s s') (h : s.Synced P)
    (hn : s.Named P) : s'.Synced P ∧ s'.Named P := by
  have hrestarted : ∀ {r : Registry} {file : Option (Json String)}, r.NamesValid →
      loadRegistry file = r.stored → ∀ tmp, Synced P ⟨loadRegistry file, .idle, file, tmp⟩ ∧
        Named P ⟨loadRegistry file, .idle, file, tmp⟩ := by
    intro r file hr hload tmp
    have hself : r.stored.stored = r.stored := by
      funext name
      simp [Registry.stored, Option.map_map, Function.comp_def]
    refine ⟨?_, ?_, fun op hop => by simp [Progress.op] at hop⟩
    · change loadRegistry file = (loadRegistry file).stored
      rw [hload, hself]
    · rw [hload]
      exact hr.of_stored hself.symm
  cases hs with
  | ran op hok hp =>
    refine ⟨h.trans (RegistryOp.stored_result_of_persists_none hp).symm,
      RegistryOp.namesValid_result hn.1 hok, fun op hop => by simp [Progress.op] at hop⟩
  | changed op hok hp =>
    refine ⟨h, hn.1, fun op' hop => ?_⟩
    obtain rfl := Option.some.inj hop
    exact RegistryOp.namesValid_result hn.1 hok
  | written hp hl =>
    have hresult := RegistryOp.stored_result_of_persists (P := P) hp
    have hnames := (hn.2 _ rfl).of_stored hresult
    exact ⟨⟨h, (loadRegistry_registryStore hnames hl).trans hresult.symm⟩, hn⟩
  | renamed => exact ⟨h.2, hn⟩
  | finished =>
    exact ⟨h, hn.2 _ rfl, fun op hop => by simp [Progress.op] at hop⟩
  | @killed r progress file tmp tmp' =>
    rcases h.durable with hload | ⟨op, hop, hload⟩
    · exact hrestarted hn.1 hload tmp'
    · exact hrestarted (hn.2 op hop) hload tmp'

theorem Run.synced {s : HubProcess} (hr : Run P RegistryOp.NameValid s) :
    s.Synced P ∧ s.Named P := by
  induction hr with
  | boot =>
    refine ⟨rfl, fun name e h => by simp at h, fun op hop => by simp [Progress.op] at hop⟩
  | step _ hs ih => exact hs.synced ih.1 ih.2

/-- In every run in which each path names its channel in UTF-8, a restart at any step restores the
keys and ACLs as the last completed operation left them, or as the one in progress leaves them, with
nobody in any channel; and a join of a channel that exists changes neither. -/
theorem registry_durable {s : HubProcess} (hr : Run P RegistryOp.NameValid s) :
    s.Durable P ∧ (s.progress = .idle → loadRegistry s.file = s.registry.stored) ∧
      ∀ (j : Joiner) (name chanPub : String), (s.registry (.ofString name)).isSome →
        RegistryOp.persists s.registry (.join j name chanPub) = none ∧
          ((RegistryOp.join j name chanPub).result P s.registry).stored = s.registry.stored := by
  have hsynced := hr.synced.1
  refine ⟨hsynced.durable, fun hidle => ?_, fun j name chanPub hsome => ?_⟩
  · unfold Synced at hsynced
    rwa [hidle] at hsynced
  · have hnone : RegistryOp.persists s.registry (.join j name chanPub) = none := by
      simp [RegistryOp.persists, Option.isSome_iff_ne_none.mp hsome]
    exact ⟨hnone, RegistryOp.stored_result_of_persists_none hnone⟩

/-- The master creates a channel, and its first file has been renamed into place. -/
def sampleCreate : RegistryOp := .join ⟨.master, "", "a"⟩ "room" "cpub"

theorem sampleCreate_renamed :
    ∃ file, Run lenientPlatform RegistryOp.NameValid
      ⟨fun _ => none, .renamed sampleCreate, file, none⟩ := by
  have hlists : Registry.Lists (Function.update (fun _ => none) (.ofString "room")
      (some { pubkey := "cpub" })) [(.ofString "room", { pubkey := "cpub" })] := by
    refine ⟨by simp, fun name e => ?_⟩
    by_cases hn : name = .ofString "room"
    · subst hn
      simp [eq_comm]
    · simp [hn]
  exact ⟨_, (((Run.boot (P := lenientPlatform)).step (.changed sampleCreate trivial rfl)).step
    (.written rfl hlists)).step .renamed⟩

theorem registry_durable_sample :
    ∃ s : HubProcess, s.progress = .renamed sampleCreate ∧ s.Durable lenientPlatform ∧
      (s.progress = .idle → loadRegistry s.file = s.registry.stored) ∧
      ∀ (j : Joiner) (name chanPub : String), (s.registry (.ofString name)).isSome →
        RegistryOp.persists s.registry (.join j name chanPub) = none ∧
          ((RegistryOp.join j name chanPub).result lenientPlatform s.registry).stored =
            s.registry.stored := by
  obtain ⟨file, hr⟩ := sampleCreate_renamed
  exact ⟨_, rfl, registry_durable hr⟩

/-- `PUT /api/channels/%FF/acl`, carried through: the name in the file is U+FFFD. -/
theorem invalid_name_lost :
    ∃ s : HubProcess, Run lenientPlatform (fun _ => True) s ∧ s.progress = .idle ∧
      ¬ s.Durable lenientPlatform := by
  have hlists : Registry.Lists (Function.update (fun _ => none) [0xFF]
      (some { allowed := ["k"] })) [([0xFF], { allowed := ["k"] })] := by
    refine ⟨by simp, fun name e => ?_⟩
    by_cases hn : name = [0xFF]
    · subst hn
      simp [eq_comm]
    · simp [hn]
  have hboot : Run lenientPlatform (fun _ => True) {} := .boot
  have hrun := (((hboot.step (.changed (.setACL [0xFF] ["k"]) trivial rfl)).step
    (.written rfl hlists)).step .renamed).step .finished
  refine ⟨_, hrun, rfl, ?_⟩
  rintro (hload | ⟨op, hop, -⟩)
  · have hlost :
      (loadRegistry (some (registryStore [([0xFF], { allowed := ["k"] })])) [0xFF]).isSome =
        false := by decide +kernel
    have hkept := congrArg Option.isSome (congrFun hload [0xFF])
    rw [hlost] at hkept
    simp [Registry.stored, RegistryOp.result] at hkept
  · simp [Progress.op] at hop

end HubProcess

/-! ### The hub's own operations -/

def Channel.entry (ch : Channel) : Entry where
  pubkey := ch.pubkey
  allowed := ch.allowed
  members := ch.members

namespace Hub

/-- The registry of a hub whose names are text. -/
def registry (h : Hub) : Registry :=
  fun name => if name.Valid then h.channels[name.text]?.map Channel.entry else none

theorem registry_ofString (h : Hub) (name : String) :
    h.registry (.ofString name) = h.channels[name]?.map Channel.entry := by
  rw [registry, if_pos (GoString.valid_ofString name), GoString.text_ofString]

theorem registry_insert (h h' : Hub) {name : String} {ch : Channel}
    (hc : h'.channels = h.channels.insert name ch) :
    h'.registry = Function.update h.registry (.ofString name) (some ch.entry) := by
  funext name'
  by_cases hn : name' = .ofString name
  · subst hn
    rw [registry_ofString, hc, Function.update_self]
    simp
  · rw [Function.update_of_ne hn, registry, registry]
    split
    next hv =>
      have hne : name ≠ name'.text := by
        rintro rfl
        exact hn hv.symm
      rw [hc, GoMap.getElem?_insert_ite, if_neg hne]
    next => rfl

theorem registry_setACLLocked (h : Hub) (name : String) (allowed : List String) :
    (h.setACLLocked name allowed).registry =
      (RegistryOp.setACL (.ofString name) allowed).result P h.registry := by
  refine (registry_insert h _ rfl).trans ?_
  simp only [RegistryOp.result, registry_ofString]
  cases h.channels[name]? <;> rfl

theorem registry_joinLocked (h : Hub) (c : ConnID) (name chanPub : String) :
    (h.joinLocked P c name chanPub).2.registry = (RegistryOp.join ⟨(h.conns c).auth,
      (h.conns c).pubkey, (h.conns c).agentID⟩ name chanPub).result P h.registry := by
  simp only [RegistryOp.result, registry_ofString]
  rcases h.joinLocked_cases P c name chanPub with
    ⟨hnone, ha, heq⟩ | ⟨hnone, ha, peers, heq⟩ | ⟨ch, hch, hok, rejoin, peers, heq⟩ |
      ⟨ch, hch, hno, heq⟩
  · rw [heq, hnone]
    simp [ha]
  · rw [heq, hnone]
    refine (registry_insert (h.newChannelLocked name chanPub) _ rfl).trans ?_
    rw [registry_insert h (h.newChannelLocked name chanPub) rfl, Function.update_idem]
    simp [ha]
    rfl
  · rw [heq, hch]
    have hallow : Entry.allows P ch.entry (h.conns c).pubkey = true := hok
    simp only [Option.map_some, hallow, if_true]
    exact registry_insert h (h.addMember name ch _) rfl
  · rw [heq, hch]
    have hallow : Entry.allows P ch.entry (h.conns c).pubkey = false := hno
    simp [hallow]

theorem registry_persistChannels (h : Hub) : ∃ records, h.registry.Lists records ∧
    h.persistChannels.channelsFile = some (registryStore records) := by
  refine ⟨h.channels.toList.map fun kv => (.ofString kv.1, kv.2.entry), ⟨?_, ?_⟩, ?_⟩
  · rw [List.map_map]
    refine List.pairwise_map.mpr (h.channels.keys_pairwise_ne.imp ?_)
    exact fun hne heq => hne (GoString.ofString_injective heq)
  · intro name e
    rw [List.mem_map]
    constructor
    · rintro ⟨⟨k, ch⟩, hmem, heq⟩
      obtain ⟨rfl, rfl⟩ := Prod.mk.inj heq
      rw [registry_ofString, GoMap.mem_toList.mp hmem]
      rfl
    · intro he
      unfold registry at he
      split at he
      next hv =>
        obtain ⟨ch, hch, rfl⟩ := Option.map_eq_some_iff.mp he
        exact ⟨(name.text, ch), GoMap.mem_toList.mpr hch, Prod.ext hv rfl⟩
      next => simp at he
  · change some (channelStore h.channels) = _
    simp only [channelStore, registryStore, List.map_map, Function.comp_def,
      GoString.text_ofString]
    rfl

theorem registry_restoreChannels (rs : List ChannelRecord) (h : Hub) {r : Registry}
    (hr : h.registry = r) : ({ h with channels := restoreChannels h.channels rs } : Hub).registry =
      rs.foldl (fun (r : Registry) rec => Function.update r (.ofString rec.name)
        (some { pubkey := rec.pubkey, allowed := rec.allowed.elems })) r := by
  induction rs generalizing h r with
  | nil => exact hr
  | cons rec rs ih =>
    subst hr
    have hhead : ∀ ch : Channel, ch.entry = { pubkey := rec.pubkey, allowed := rec.allowed.elems } →
        ({ h with channels := h.channels.insert rec.name ch } : Hub).registry =
          Function.update h.registry (.ofString rec.name)
            (some { pubkey := rec.pubkey, allowed := rec.allowed.elems }) := by
      intro ch hch
      rw [← hch]
      exact registry_insert h _ rfl
    exact ih _ (hhead { name := rec.name, pubkey := rec.pubkey, allowed := rec.allowed.elems } rfl)

theorem registry_loadChannels (h : Hub) :
    h.wiped.loadChannels.registry = loadRegistry h.channelsFile := by
  have hempty : h.wiped.registry = fun _ => none := by
    funext name
    unfold registry
    split <;> simp [wiped]
  unfold loadChannels loadRegistry
  change (match h.channelsFile.bind parseChannelStore with
    | some records => _
    | none => _ : Hub).registry = _
  cases h.channelsFile.bind parseChannelStore with
  | none => exact hempty
  | some records => exact registry_restoreChannels records h.wiped hempty

end Hub

end Dap
