import Dap.Hub.Coherence

/-! The life of issued client secrets over enrollments, evictions, hellos and restarts
(`hub/enroll.go`, `hub/admin.go`). -/
namespace Dap
open GoJson

/-! ### The secrets file round trip -/

theorem parseSecretFile_secretFile (records : List SecretRecord) :
    parseSecretFile (secretFile records) = some records := by
  have hfield : matchField ["secrets"] "secrets" = some "secrets" := by decide
  have hrecord : ∀ r : SecretRecord,
      decodeStruct SecretRecord.decodeMember {} r.json = some (id r) :=
    fun _ => rfl
  have hslice := Slice.decode_written hrecord records
  rw [List.map_id] at hslice
  simp only [parseSecretFile, secretFile, decodeStruct, List.foldlM_cons, List.foldlM_nil, hfield,
    hslice]
  rfl

def recordHashes (records : List SecretRecord) (name : String) : List String :=
  (records.filter fun r => r.name = name).map SecretRecord.hash

theorem getElem?_foldl_records (records : List SecretRecord) (m : GoMap (List String))
    (name : String) :
    (records.foldl (fun m r => m.insert r.name (m[r.name]?.getD [] ++ [r.hash])) m)[name]? =
      if recordHashes records name = [] then m[name]?
      else some (m[name]?.getD [] ++ recordHashes records name) := by
  induction records generalizing m with
  | nil => simp [recordHashes]
  | cons r rest ih =>
    rw [List.foldl_cons, ih]
    by_cases hr : r.name = name
    · subst hr
      have hcons : recordHashes (r :: rest) r.name = r.hash :: recordHashes rest r.name := by
        simp [recordHashes]
      rw [hcons, GoMap.getElem?_insert_ite]
      by_cases hempty : recordHashes rest r.name = [] <;> simp [hempty]
    · have hcons : recordHashes (r :: rest) name = recordHashes rest name := by
        simp [recordHashes, hr]
      rw [hcons, GoMap.getElem?_insert_ite, if_neg hr]

private theorem recordHashes_cons (kv : String × List String) (rest : List (String × List String))
    (name : String) :
    recordHashes ((kv :: rest).flatMap fun kv => kv.2.map fun hash => ⟨kv.1, hash⟩) name =
      (if kv.1 = name then kv.2 else []) ++
        recordHashes (rest.flatMap fun kv => kv.2.map fun hash => ⟨kv.1, hash⟩) name := by
  by_cases hname : kv.1 = name <;>
    simp [recordHashes, hname, List.filter_map, Function.comp_def]

private theorem recordHashes_of_notMem (l : List (String × List String)) (name : String)
    (hno : ∀ v, (name, v) ∉ l) :
    recordHashes (l.flatMap fun kv => kv.2.map fun hash => ⟨kv.1, hash⟩) name = [] := by
  induction l with
  | nil => rfl
  | cons kv rest ih =>
    have hne : kv.1 ≠ name := by
      rintro rfl
      exact hno kv.2 (by simp)
    rw [recordHashes_cons, if_neg hne, ih fun v hv => hno v (List.mem_cons_of_mem _ hv)]
    rfl

private theorem recordHashes_of_mem (l : List (String × List String)) (name : String)
    (hashes : List String) (hd : l.Pairwise fun a b => a.1 ≠ b.1) (hmem : (name, hashes) ∈ l) :
    recordHashes (l.flatMap fun kv => kv.2.map fun hash => ⟨kv.1, hash⟩) name = hashes := by
  induction l with
  | nil => simp at hmem
  | cons kv rest ih =>
    obtain ⟨hhead, htail⟩ := List.pairwise_cons.mp hd
    rw [recordHashes_cons]
    rcases List.mem_cons.mp hmem with rfl | hrest
    · rw [recordHashes_of_notMem rest name fun v hv => hhead _ hv rfl]
      simp
    · rw [if_neg (hhead _ hrest), ih htail hrest]
      rfl

theorem recordHashes_secretRecords (secrets : GoMap (List String)) (name : String) :
    recordHashes (secretRecords secrets) name = secrets[name]?.getD [] := by
  cases hs : secrets[name]? with
  | none =>
    refine recordHashes_of_notMem _ name fun v hv => ?_
    rw [GoMap.mem_toList, hs] at hv
    simp at hv
  | some hashes =>
    exact recordHashes_of_mem _ name hashes (GoMap.keys_pairwise_ne secrets)
      (GoMap.mem_toList.mpr hs)

/-- Reading back what was written loses no name that holds a hash. -/
theorem loadRecords_secretRecords {secrets : GoMap (List String)}
    (hne : ∀ name : String, secrets[name]? ≠ some []) :
    loadRecords (secretRecords secrets) = secrets := by
  apply GoMap.ext_lookup
  intro name
  rw [loadRecords, getElem?_foldl_records, recordHashes_secretRecords]
  cases hs : secrets[name]? with
  | none => simp
  | some hashes =>
    have hnil : hashes ≠ [] := fun h => hne name (h ▸ hs)
    simp [hnil]

/-! ### Histories -/

/-- What can happen to the secrets and to the names that hold them. -/
inductive LifeOp where
  | enroll (op : EnrollOp) (name : String)
  | evict (id : String)
  | hello (c : ConnID) (f : Frame)
  | leave (c : ConnID)
  | restart

variable (P : Platform)

/-- `enroll` past its master check, on a connection whose hello name is `name`. -/
def Hub.issue (op : EnrollOp) (name : String) (h : Hub) : Hub :=
  h.drawSecret.2.enrollLocked op name (sha256Hex P h.drawSecret.1)

def LifeOp.run : LifeOp → Hub → Hub
  | .enroll op name, h => h.issue P op name
  | .evict id, h => (h.adminEvictLocked id).2
  | .hello c f, h => ((h.updConn c fun k => k.authenticated P f).registerLocked c).2
  | .leave c, h =>
    match (h.dropped c).deregisterLocked c with
    | some r => r.2
    | none => h
  | .restart, h => h.restarted

def runAll (ops : List LifeOp) (h : Hub) : Hub := ops.foldl (fun h op => op.run P h) h

/-- `id` is offline, has the name `name`, and no other entry has it. -/
def LastHolder (h : Hub) (id name : String) : Prop :=
  h.clients[id]? = none ∧ (∃ e, h.agents[id]? = some e ∧ e.name = name) ∧
    ∀ (id' : String) (e : AgentEntry), id' ≠ id → h.agents[id']? = some e → e.name ≠ name

def Revokes (n : String) (h : Hub) : LifeOp → Prop
  | .enroll .enroll name => name = n
  | .evict id => LastHolder h id n
  | _ => False

/-- Some operation, where it is run, revokes the secrets of `n`. -/
def Revoked (n : String) : Hub → List LifeOp → Prop
  | _, [] => False
  | h, op :: ops => Revokes n h op ∨ Revoked n (op.run P h) ops

/-- No secret, and no file to load one from. -/
structure Hub.FirstBoot (h : Hub) : Prop where
  secrets : h.secrets = ∅
  file : h.secretsFile = none

/-- The texts that are hashed when the first `N` secrets are issued and presented. -/
def Hub.credentialTexts (h : Hub) (N : ℕ) (s : String) : Prop :=
  s = h.masterSecret ∨ ∃ i < N, s = h.secretAt i ∨ s = sha256Hex P (h.secretAt i)

/-- The first `N` secrets are distinct, none is the master secret, and hashing them is collision
free. -/
structure FreshSecrets (h : Hub) (N : ℕ) : Prop where
  distinct : ∀ i < N, ∀ j < N, h.secretAt i = h.secretAt j → i = j
  notMaster : ∀ i < N, h.secretAt i ≠ h.masterSecret
  collisionFree : ∀ s t, h.credentialTexts P N s → h.credentialTexts P N t →
    P.sha256 (Bytes.utf8 s.toList) = P.sha256 (Bytes.utf8 t.toList) → s = t

variable {P}

/-! ### What one operation does -/

/-- What no operation changes. -/
structure SameConfig (h h' : Hub) : Prop where
  entropy : h'.entropy = h.entropy
  masterSecret : h'.masterSecret = h.masterSecret

theorem SameConfig.secretAt {h h' : Hub} (hc : SameConfig h h') (i : ℕ) :
    h'.secretAt i = h.secretAt i := by
  unfold Hub.secretAt
  rw [hc.entropy]

theorem SameConfig.trans {h1 h2 h3 : Hub} (h12 : SameConfig h1 h2) (h23 : SameConfig h2 h3) :
    SameConfig h1 h3 :=
  ⟨h23.entropy.trans h12.entropy, h23.masterSecret.trans h12.masterSecret⟩

namespace Hub

def hashes (h : Hub) (name : String) : List String := h.secrets[name]?.getD []

/-- The secrets a restart would load. -/
def fileSecrets (h : Hub) : GoMap (List String) :=
  match h.secretsFile.bind parseSecretFile with
  | some records => loadRecords records
  | none => ∅

/-- The operation leaves the secrets, their file and the random source alone. -/
structure SameSecrets (h h' : Hub) : Prop extends SameConfig h h' where
  secrets : h'.secrets = h.secrets
  file : h'.secretsFile = h.secretsFile
  drawn : h'.drawn = h.drawn

theorem sameSecrets_registerLocked (h : Hub) (c : ConnID) :
    SameSecrets h (h.registerLocked c).2 := by
  have hev : SameSecrets h (h.evictOther c) := by
    unfold evictOther
    dsimp only
    split
    · split <;> exact ⟨⟨rfl, rfl⟩, rfl, rfl, rfl⟩
    · exact ⟨⟨rfl, rfl⟩, rfl, rfl, rfl⟩
  exact ⟨⟨hev.entropy, hev.masterSecret⟩, hev.secrets, hev.file, hev.drawn⟩

theorem sameSecrets_deregisterLocked {h : Hub} {c : ConnID}
    {r : Option (EntryPtr × List ConnID) × Hub} (hd : h.deregisterLocked c = some r) :
    SameSecrets h r.2 := by
  obtain ⟨a, h'⟩ := r
  obtain ⟨h1, rfl, ⟨-, rfl⟩ | ⟨-, e, -, rfl⟩⟩ := deregisterLocked_spec hd <;>
    exact ⟨⟨rfl, rfl⟩, rfl, rfl, rfl⟩

theorem sameSecrets_run_leave (h : Hub) (c : ConnID) :
    SameSecrets h ((LifeOp.leave c).run P h) := by
  unfold LifeOp.run
  dsimp only
  split
  next r hr =>
    have hd : SameSecrets (h.dropped c) r.2 := sameSecrets_deregisterLocked hr
    exact ⟨⟨hd.entropy, hd.masterSecret⟩, hd.secrets, hd.file, hd.drawn⟩
  next => exact ⟨⟨rfl, rfl⟩, rfl, rfl, rfl⟩

theorem sameSecrets_loadChannels (h : Hub) : SameSecrets h h.loadChannels := by
  unfold loadChannels
  split <;> exact ⟨⟨rfl, rfl⟩, rfl, rfl, rfl⟩

theorem loadSecrets_spec (h : Hub) (hempty : h.secrets = ∅) :
    SameConfig h h.loadSecrets ∧ h.loadSecrets.secrets = h.fileSecrets ∧
      h.loadSecrets.secretsFile = h.secretsFile ∧ h.loadSecrets.drawn = h.drawn := by
  unfold loadSecrets fileSecrets
  cases h.secretsFile.bind parseSecretFile with
  | some records => exact ⟨⟨rfl, rfl⟩, rfl, rfl, rfl⟩
  | none => exact ⟨⟨rfl, rfl⟩, hempty, rfl, rfl⟩

theorem restarted_spec (h : Hub) :
    SameConfig h h.restarted ∧ h.restarted.secrets = h.fileSecrets ∧
      h.restarted.secretsFile = h.secretsFile ∧ h.restarted.drawn = h.drawn := by
  have hch := sameSecrets_loadChannels h.wiped
  obtain ⟨hcfg, hsec, hfile, hdrawn⟩ := loadSecrets_spec h.wiped.loadChannels hch.secrets
  refine ⟨⟨hcfg.entropy.trans hch.entropy, hcfg.masterSecret.trans hch.masterSecret⟩, ?_,
    hfile.trans hch.file, hdrawn.trans hch.drawn⟩
  refine hsec.trans ?_
  unfold fileSecrets
  rw [hch.file]
  rfl

theorem nameHeld_iff (agents : GoMap AgentEntry) (id name : String) :
    nameHeld (agents.erase id) name = false ↔
      ∀ (id' : String) (e : AgentEntry), id' ≠ id → agents[id']? = some e → e.name ≠ name := by
  unfold nameHeld
  rw [List.any_eq_false]
  constructor
  · intro hall id' e hne he hname
    refine hall (id', e) ?_ (by simpa using hname)
    rw [GoMap.mem_toList, GoMap.getElem?_erase_ite, if_neg (Ne.symm hne)]
    exact he
  · rintro hall ⟨id', e⟩ hmem hname
    rw [GoMap.mem_toList, GoMap.getElem?_erase_ite] at hmem
    split at hmem
    · simp at hmem
    next hne => exact hall id' e (Ne.symm hne) hmem (by simpa using hname)

/-- An eviction drops the secrets of a name with its last holder, and nothing else. -/
theorem adminEvictLocked_secrets (h : Hub) (id : String) :
    SameSecrets h (h.adminEvictLocked id).2 ∧ (∀ n, LastHolder h id n → h.secrets[n]? = none) ∨
      ∃ n, LastHolder h id n ∧ SameConfig h (h.adminEvictLocked id).2 ∧
        (h.adminEvictLocked id).2.secrets = h.secrets.erase n ∧
        (h.adminEvictLocked id).2.drawn = h.drawn ∧
        (h.adminEvictLocked id).2.secretsFile =
          some (secretFile (secretRecords (h.secrets.erase n))) := by
  unfold adminEvictLocked
  split
  next hnone =>
    refine .inl ⟨⟨⟨rfl, rfl⟩, rfl, rfl, rfl⟩, ?_⟩
    rintro n ⟨-, ⟨e, he, -⟩, -⟩
    simp [hnone] at he
  next e he =>
    split
    next hon =>
      refine .inl ⟨⟨⟨rfl, rfl⟩, rfl, rfl, rfl⟩, ?_⟩
      rintro n ⟨hoff, -⟩
      rw [Std.ExtTreeMap.contains_eq_isSome_getElem?, hoff] at hon
      simp at hon
    next hoff =>
      have hoff' : h.clients[id]? = none := by simpa using hoff
      dsimp only
      split
      next hheld =>
        split
        next hshared =>
          refine .inl ⟨⟨⟨rfl, rfl⟩, rfl, rfl, rfl⟩, ?_⟩
          rintro n ⟨-, ⟨e', he', rfl⟩, hlast⟩
          obtain rfl := Option.some.inj (he.symm.trans he')
          rw [(nameHeld_iff _ _ _).mpr hlast] at hshared
          exact Bool.noConfusion hshared
        next hlast =>
          have hlast' := (nameHeld_iff h.agents id e.name).mp (by simpa using hlast)
          exact .inr ⟨e.name, ⟨hoff', ⟨e, he, rfl⟩, hlast'⟩, ⟨rfl, rfl⟩, rfl, rfl, rfl⟩
      next hheld =>
        refine .inl ⟨⟨⟨rfl, rfl⟩, rfl, rfl, rfl⟩, ?_⟩
        rintro n ⟨-, ⟨e', he', rfl⟩, -⟩
        obtain rfl := Option.some.inj (he.symm.trans he')
        simpa using hheld

end Hub

/-! ### The invariant -/

/-- Every hash is that of a drawn secret, and memory and disk are in step. -/
structure Issued (P : Platform) (h : Hub) : Prop where
  known : ∀ name, ∀ hash ∈ h.hashes name, ∃ i < h.drawn, hash = sha256Hex P (h.secretAt i)
  nonempty : ∀ name : String, h.secrets[name]? ≠ some []
  synced : h.fileSecrets = h.secrets

namespace Issued

theorem of_firstBoot {h : Hub} (hb : h.FirstBoot) : Issued P h where
  known name hash hmem := by simp [Hub.hashes, hb.secrets] at hmem
  nonempty name := by simp [hb.secrets]
  synced := by simp [Hub.fileSecrets, hb.file, hb.secrets]

theorem same {h h' : Hub} (hi : Issued P h) (hs : Hub.SameSecrets h h') : Issued P h' where
  known name hash hmem := by
    rw [hs.drawn]
    simp only [hs.secretAt]
    exact hi.known name hash (by simpa [Hub.hashes, hs.secrets] using hmem)
  nonempty name := by
    rw [hs.secrets]
    exact hi.nonempty name
  synced := by
    rw [hs.secrets, ← hi.synced]
    unfold Hub.fileSecrets
    rw [hs.file]

private theorem synced_of_persisted {h : Hub}
    (hfile : h.secretsFile = some (secretFile (secretRecords h.secrets)))
    (hne : ∀ name : String, h.secrets[name]? ≠ some []) : h.fileSecrets = h.secrets := by
  unfold Hub.fileSecrets
  rw [hfile, Option.bind_some, parseSecretFile_secretFile]
  exact loadRecords_secretRecords hne

theorem hashes_issue (h : Hub) (op : EnrollOp) (name n : String) :
    (h.issue P op name).hashes n =
      if name = n then
        (match op with
          | .enroll => []
          | .enrollCreate => h.hashes n) ++ [sha256Hex P (h.secretAt h.drawn)]
      else h.hashes n := by
  unfold Hub.hashes Hub.issue Hub.enrollLocked Hub.persistSecrets
  dsimp only
  rw [GoMap.getElem?_insert_ite]
  split
  next heq =>
    subst heq
    cases op <;> rfl
  next => rfl

theorem issue {h : Hub} (hi : Issued P h) (op : EnrollOp) (name : String) :
    Issued P (h.issue P op name) := by
  have hne : ∀ n : String, (h.issue P op name).secrets[n]? ≠ some [] := by
    intro n
    unfold Hub.issue Hub.enrollLocked Hub.persistSecrets
    dsimp only
    rw [GoMap.getElem?_insert_ite]
    split
    · simp
    · exact hi.nonempty n
  refine ⟨?_, hne, synced_of_persisted rfl hne⟩
  intro n hash hmem
  have hdrawn : (h.issue P op name).drawn = h.drawn + 1 := rfl
  have hsecret : ∀ i, (h.issue P op name).secretAt i = h.secretAt i := fun _ => rfl
  have hold : hash ∈ h.hashes n → ∃ i < (h.issue P op name).drawn,
      hash = sha256Hex P ((h.issue P op name).secretAt i) := by
    intro hm
    obtain ⟨i, hlt, hhash⟩ := hi.known n hash hm
    exact ⟨i, by omega, by rw [hhash, hsecret]⟩
  rw [hashes_issue] at hmem
  split at hmem
  · rcases List.mem_append.mp hmem with hm | hm
    · cases op with
      | enroll => simp at hm
      | enrollCreate => exact hold hm
    · refine ⟨h.drawn, by omega, ?_⟩
      rw [hsecret]
      simpa using hm
  · exact hold hmem

theorem run {h : Hub} (hi : Issued P h) (op : LifeOp) : Issued P (op.run P h) := by
  cases op with
  | enroll op name => exact hi.issue op name
  | evict id =>
    rcases h.adminEvictLocked_secrets id with ⟨hsame, -⟩ | ⟨n, -, hcfg, hsec, hdrawn, hfile⟩
    · exact hi.same hsame
    · have hne : ∀ name : String, (h.adminEvictLocked id).2.secrets[name]? ≠ some [] := by
        intro name
        rw [hsec, GoMap.getElem?_erase_ite]
        split
        · simp
        · exact hi.nonempty name
      refine ⟨?_, hne, synced_of_persisted (hsec ▸ hfile) hne⟩
      intro name hash hmem
      change hash ∈ (h.adminEvictLocked id).2.hashes name at hmem
      change ∃ i < (h.adminEvictLocked id).2.drawn,
        hash = sha256Hex P ((h.adminEvictLocked id).2.secretAt i)
      rw [hdrawn]
      simp only [hcfg.secretAt]
      rw [Hub.hashes, hsec, GoMap.getElem?_erase_ite] at hmem
      split at hmem
      · simp at hmem
      · exact hi.known name hash hmem
  | hello c f =>
    have hr := (h.updConn c fun k => k.authenticated P f).sameSecrets_registerLocked c
    exact hi.same ⟨⟨hr.entropy, hr.masterSecret⟩, hr.secrets, hr.file, hr.drawn⟩
  | leave c => exact hi.same (h.sameSecrets_run_leave c)
  | restart =>
    obtain ⟨hcfg, hsec, hfile, hdrawn⟩ := h.restarted_spec
    exact hi.same ⟨hcfg, hsec.trans hi.synced, hfile, hdrawn⟩

theorem runAll {h : Hub} (hi : Issued P h) (ops : List LifeOp) : Issued P (runAll P ops h) := by
  induction ops generalizing h with
  | nil => exact hi
  | cons op ops ih => exact ih (hi.run op)

end Issued

theorem run_config (h : Hub) (op : LifeOp) :
    SameConfig h (op.run P h) ∧ h.drawn ≤ (op.run P h).drawn := by
  cases op with
  | enroll op name => exact ⟨⟨rfl, rfl⟩, Nat.le_succ _⟩
  | evict id =>
    rcases h.adminEvictLocked_secrets id with ⟨hsame, -⟩ | ⟨n, -, hcfg, -, hdrawn, -⟩
    · exact ⟨hsame.toSameConfig, hsame.drawn.ge⟩
    · exact ⟨hcfg, hdrawn.ge⟩
  | hello c f =>
    have hr := (h.updConn c fun k => k.authenticated P f).sameSecrets_registerLocked c
    exact ⟨⟨hr.entropy, hr.masterSecret⟩, hr.drawn.ge⟩
  | leave c =>
    have hl := h.sameSecrets_run_leave (P := P) c
    exact ⟨hl.toSameConfig, hl.drawn.ge⟩
  | restart =>
    obtain ⟨hcfg, -, -, hdrawn⟩ := h.restarted_spec
    exact ⟨hcfg, hdrawn.ge⟩

theorem runAll_config (h : Hub) (ops : List LifeOp) :
    SameConfig h (runAll P ops h) ∧ h.drawn ≤ (runAll P ops h).drawn := by
  induction ops generalizing h with
  | nil => exact ⟨⟨rfl, rfl⟩, le_refl _⟩
  | cons op ops ih =>
    obtain ⟨hcfg, hle⟩ := run_config (P := P) h op
    obtain ⟨hcfg', hle'⟩ := ih (op.run P h)
    exact ⟨hcfg.trans hcfg', hle.trans hle'⟩

/-- One operation keeps an issued hash under its name exactly when it does not revoke the name. -/
theorem mem_hashes_run {h : Hub} (hi : Issued P h) (op : LifeOp) {hash : String}
    (hold : h.drawn < (op.run P h).drawn → hash ≠ sha256Hex P (h.secretAt h.drawn)) (n : String) :
    hash ∈ (op.run P h).hashes n ↔ hash ∈ h.hashes n ∧ ¬ Revokes n h op := by
  have hsame : ∀ h' : Hub, h'.secrets = h.secrets →
      (hash ∈ h'.hashes n ↔ hash ∈ h.hashes n ∧ ¬ False) := by
    intro h' hs
    simp [Hub.hashes, hs]
  cases op with
  | enroll op name =>
    change hash ∈ (h.issue P op name).hashes n ↔ _
    rw [Issued.hashes_issue]
    have hnew : hash ≠ sha256Hex P (h.secretAt h.drawn) := hold (Nat.lt_succ_self _)
    cases op <;> by_cases hname : name = n <;> simp [hname, hnew, Revokes]
  | evict id =>
    change hash ∈ (h.adminEvictLocked id).2.hashes n ↔ _ ∧ ¬ LastHolder h id n
    rcases h.adminEvictLocked_secrets id with ⟨hs, hnone⟩ | ⟨n', hlast, -, hsec, -, -⟩
    · rw [Hub.hashes, hs.secrets]
      constructor
      · intro hmem
        refine ⟨hmem, fun hl => ?_⟩
        rw [hnone n hl] at hmem
        simp at hmem
      · exact fun hmem => hmem.1
    · rw [Hub.hashes, hsec, GoMap.getElem?_erase_ite]
      by_cases hn : n' = n
      · subst hn
        simp [hlast]
      · rw [if_neg hn]
        constructor
        · intro hmem
          refine ⟨hmem, fun hl => ?_⟩
          obtain ⟨-, ⟨e, he, hname⟩, -⟩ := hl
          obtain ⟨-, ⟨e', he', hname'⟩, -⟩ := hlast
          obtain rfl := Option.some.inj (he.symm.trans he')
          exact hn (hname'.symm.trans hname)
        · exact fun hmem => hmem.1
  | hello c f =>
    exact hsame _ ((h.updConn c fun k => k.authenticated P f).sameSecrets_registerLocked c).secrets
  | leave c => exact hsame _ (h.sameSecrets_run_leave c).secrets
  | restart => exact hsame _ (h.restarted_spec.2.1.trans hi.synced)

theorem mem_hashes_runAll {h : Hub} (hi : Issued P h) (ops : List LifeOp) {hash : String}
    (hold : ∀ i, h.drawn ≤ i → i < (runAll P ops h).drawn →
      hash ≠ sha256Hex P (h.secretAt i)) (n : String) :
    hash ∈ (runAll P ops h).hashes n ↔ hash ∈ h.hashes n ∧ ¬ Revoked P n h ops := by
  induction ops generalizing h with
  | nil => simp [runAll, Revoked]
  | cons op ops ih =>
    obtain ⟨hcfg, hle⟩ := run_config (P := P) h op
    have hle' := (runAll_config (P := P) (op.run P h) ops).2
    have hfinal : runAll P (op :: ops) h = runAll P ops (op.run P h) := rfl
    rw [hfinal] at hold ⊢
    have hfirst : hash ∈ (op.run P h).hashes n ↔ hash ∈ h.hashes n ∧ ¬ Revokes n h op :=
      mem_hashes_run hi op (fun hlt => hold h.drawn (le_refl _) (hlt.trans_le hle')) n
    have hrest := ih (hi.run op) fun i hlo hhi => by
      rw [hcfg.secretAt]
      exact hold i (hle.trans hlo) hhi
    rw [hrest, hfirst, Revoked, not_or, and_assoc]

/-! ### Presenting a secret -/

namespace FreshSecrets

variable {h h' : Hub} {N : ℕ}

theorem of_config (hf : FreshSecrets P h N) (hc : SameConfig h h') : FreshSecrets P h' N where
  distinct i hi j hj heq := hf.distinct i hi j hj (by simpa only [hc.secretAt] using heq)
  notMaster i hi := by
    rw [hc.secretAt, hc.masterSecret]
    exact hf.notMaster i hi
  collisionFree s t hs ht := by
    unfold Hub.credentialTexts at hs ht
    simp only [hc.secretAt, hc.masterSecret] at hs ht
    exact hf.collisionFree s t hs ht

theorem constEq_iff (hf : FreshSecrets P h N) {s t : String} (hs : h.credentialTexts P N s)
    (ht : h.credentialTexts P N t) : constEq P s t = true ↔ s = t := by
  unfold constEq
  rw [decide_eq_true_iff]
  refine ⟨hf.collisionFree s t hs ht, ?_⟩
  rintro rfl
  rfl

theorem sha256Hex_inj (hf : FreshSecrets P h N) {i j : ℕ} (hi : i < N) (hj : j < N)
    (heq : sha256Hex P (h.secretAt i) = sha256Hex P (h.secretAt j)) : i = j := by
  refine hf.distinct i hi j hj ?_
  apply hf.collisionFree _ _ (.inr ⟨i, hi, .inl rfl⟩) (.inr ⟨j, hj, .inl rfl⟩)
  exact Subtype.ext (Bytes.hex_injective heq)

end FreshSecrets

theorem Hub.secretAt_ne_empty (h : Hub) (i : ℕ) : h.secretAt i ≠ "" := by
  intro hs
  have hraw : (h.entropy i).val ≠ [] := by
    intro hnil
    have hlen := (h.entropy i).2
    rw [hnil] at hlen
    exact absurd hlen (by decide)
  have hchars := congrArg String.toList hs
  rw [secretAt, String.toList_ofList] at hchars
  exact Bytes.base64_ne_nil _ _ hraw hchars

/-- A secret authenticates the one name under which its hash stands. -/
theorem matchBearer_iff {h : Hub} (hi : Issued P h) {N : ℕ} (hf : FreshSecrets P h N)
    (hN : h.drawn ≤ N) {i : ℕ} (hiN : i < N) {n : String}
    (hone : ∀ m, sha256Hex P (h.secretAt i) ∈ h.hashes m → m = n) :
    h.matchBearer P (h.secretAt i) = some (.agent, n) ↔
      sha256Hex P (h.secretAt i) ∈ h.hashes n := by
  have hmaster : h.isMaster P (h.secretAt i) = false := by
    unfold Hub.isMaster
    rw [decide_eq_false_iff_not]
    rintro ⟨-, -, heq⟩
    exact hf.notMaster i hiN
      ((hf.constEq_iff (.inr ⟨i, hiN, .inl rfl⟩) (.inl rfl)).mp heq)
  have hmatch : ∀ kv ∈ h.secrets.toList,
      kv.2.any (fun hash => constEq P hash (sha256Hex P (h.secretAt i))) = true ↔
        sha256Hex P (h.secretAt i) ∈ kv.2 := by
    rintro ⟨m, hashes⟩ hmem
    rw [GoMap.mem_toList] at hmem
    rw [List.any_eq_true]
    constructor
    · rintro ⟨hash, hin, heq⟩
      obtain ⟨j, hj, rfl⟩ := hi.known m hash (by rw [Hub.hashes, hmem]; exact hin)
      rw [hf.constEq_iff (.inr ⟨j, hj.trans_le hN, .inr rfl⟩) (.inr ⟨i, hiN, .inr rfl⟩)] at heq
      rwa [heq] at hin
    · intro hin
      exact ⟨_, hin, (hf.constEq_iff (.inr ⟨i, hiN, .inr rfl⟩) (.inr ⟨i, hiN, .inr rfl⟩)).mpr rfl⟩
  unfold Hub.matchBearer Hub.agentForSecret
  simp only [hmaster, h.secretAt_ne_empty i, if_false, Bool.false_eq_true, Option.map_map,
    Option.map_eq_some_iff]
  constructor
  · rintro ⟨⟨m, hashes⟩, hfind, hname⟩
    obtain rfl : m = n := by simpa using hname
    have hmem := List.mem_of_find?_eq_some hfind
    have hpred := List.find?_some hfind
    have hin := (hmatch _ hmem).mp hpred
    rw [GoMap.mem_toList] at hmem
    rw [Hub.hashes, hmem]
    exact hin
  · intro hin
    have hsome : h.secrets[n]? ≠ none := by
      intro hnone
      rw [Hub.hashes, hnone] at hin
      simp at hin
    obtain ⟨hashes, hhashes⟩ := Option.ne_none_iff_exists'.mp hsome
    have hmem : (n, hashes) ∈ h.secrets.toList := GoMap.mem_toList.mpr hhashes
    have hin' : sha256Hex P (h.secretAt i) ∈ hashes := by simpa [Hub.hashes, hhashes] using hin
    have hfound : (h.secrets.toList.find? fun kv =>
        kv.2.any fun hash => constEq P hash (sha256Hex P (h.secretAt i))).isSome := by
      rw [List.find?_isSome]
      exact ⟨_, hmem, (hmatch _ hmem).mpr hin'⟩
    obtain ⟨⟨m, hashes'⟩, hfind⟩ := Option.isSome_iff_exists.mp hfound
    refine ⟨⟨m, hashes'⟩, hfind, ?_⟩
    have hmem' := List.mem_of_find?_eq_some hfind
    have hpred := List.find?_some hfind
    have hin'' := (hmatch _ hmem').mp hpred
    rw [GoMap.mem_toList] at hmem'
    have hm := hone m (by rw [Hub.hashes, hmem']; exact hin'')
    simp [hm]

/-- Over every history from the first boot, an issued secret authenticates its name until that name
is enrolled anew or its last holder is evicted. -/
theorem credential_lifecycle (h0 : Hub) (hboot : h0.FirstBoot) (before after : List LifeOp)
    (op : EnrollOp) (n : String)
    (hfresh : FreshSecrets P h0
      (runAll P after ((runAll P before h0).issue P op n)).drawn) :
    let h1 := runAll P before h0
    let h2 := h1.issue P op n
    (runAll P after h2).matchBearer P h1.drawSecret.1 = some (.agent, n) ↔
      ¬ Revoked P n h2 after := by
  intro h1 h2
  set h3 := runAll P after h2 with hh3
  have hi1 : Issued P h1 := (Issued.of_firstBoot hboot).runAll before
  have hi2 : Issued P h2 := hi1.issue op n
  have hc1 : SameConfig h0 h1 := (runAll_config h0 before).1
  have hc2 : SameConfig h0 h2 := ⟨hc1.entropy, hc1.masterSecret⟩
  obtain ⟨hc23, hle⟩ := runAll_config (P := P) h2 after
  have hc3 : SameConfig h0 h3 := hc2.trans hc23
  have hdrawn : h2.drawn = h1.drawn + 1 := rfl
  have hlt : h1.drawn < h3.drawn := by
    rw [← hh3] at hle
    omega
  have hsecret : h1.drawSecret.1 = h3.secretAt h1.drawn := by
    rw [hc3.secretAt, ← hc1.secretAt]
    rfl
  have hfresh2 := hfresh.of_config hc2
  have hhash : ∀ h : Hub, SameConfig h0 h →
      sha256Hex P (h.secretAt h1.drawn) = sha256Hex P (h1.secretAt h1.drawn) := by
    intro h hc
    rw [hc.secretAt, hc1.secretAt]
  have hkeep : ∀ m, sha256Hex P (h1.secretAt h1.drawn) ∈ (runAll P after h2).hashes m ↔
      sha256Hex P (h1.secretAt h1.drawn) ∈ h2.hashes m ∧ ¬ Revoked P m h2 after := by
    apply mem_hashes_runAll hi2 after
    intro i hlo hhi heq
    rw [← hhash h2 hc2] at heq
    have hi1 := hfresh2.sha256Hex_inj hlt hhi heq
    omega
  have hissued : ∀ m, sha256Hex P (h1.secretAt h1.drawn) ∈ h2.hashes m ↔ m = n := by
    intro m
    rw [Issued.hashes_issue]
    constructor
    · intro hmem
      by_contra hne
      rw [if_neg (Ne.symm hne)] at hmem
      obtain ⟨j, hj, heq⟩ := hi1.known m _ hmem
      have := (hfresh.of_config hc1).sha256Hex_inj hlt (hj.trans hlt) heq
      omega
    · rintro rfl
      simp
  rw [hsecret, matchBearer_iff (hi2.runAll after) (hfresh.of_config hc3) (le_refl _) hlt,
    hhash h3 hc3,
    hkeep, hissued]
  · simp
  · intro m hmem
    rw [hhash h3 hc3, hkeep, hissued] at hmem
    exact hmem.1

/-- A hub before its first enrollment. -/
def unusedHub : Hub where
  masterSecret := "master"
  entropy := fun i => Sha256.digest [UInt8.ofNat i]

theorem credential_lifecycle_sample :
    let h2 := unusedHub.issue lenientPlatform .enroll "alice"
    (runAll lenientPlatform [.enroll .enrollCreate "alice", .restart] h2).matchBearer
        lenientPlatform unusedHub.drawSecret.1 = some (.agent, "alice") ↔
      ¬ Revoked lenientPlatform "alice" h2 [.enroll .enrollCreate "alice", .restart] := by
  have hdrawn : (runAll lenientPlatform [.enroll .enrollCreate "alice", .restart]
      (unusedHub.issue lenientPlatform .enroll "alice")).drawn = 2 := by decide +kernel
  have hfree : ∀ s ∈ ["master", unusedHub.secretAt 0, unusedHub.secretAt 1,
        sha256Hex lenientPlatform (unusedHub.secretAt 0),
        sha256Hex lenientPlatform (unusedHub.secretAt 1)],
      ∀ t ∈ ["master", unusedHub.secretAt 0, unusedHub.secretAt 1,
        sha256Hex lenientPlatform (unusedHub.secretAt 0),
        sha256Hex lenientPlatform (unusedHub.secretAt 1)],
      lenientPlatform.sha256 (Bytes.utf8 s.toList) = lenientPlatform.sha256 (Bytes.utf8 t.toList) →
        s = t := by decide +kernel
  have htext : ∀ s, unusedHub.credentialTexts lenientPlatform 2 s →
      s ∈ ["master", unusedHub.secretAt 0, unusedHub.secretAt 1,
        sha256Hex lenientPlatform (unusedHub.secretAt 0),
        sha256Hex lenientPlatform (unusedHub.secretAt 1)] := by
    rintro s (rfl | ⟨i, hi, rfl | rfl⟩)
    · simp [unusedHub]
    · interval_cases i <;> simp
    · interval_cases i <;> simp
  refine credential_lifecycle unusedHub ⟨rfl, rfl⟩ [] _ .enroll "alice" ?_
  change FreshSecrets lenientPlatform unusedHub (runAll lenientPlatform
    [.enroll .enrollCreate "alice", .restart]
    (unusedHub.issue lenientPlatform .enroll "alice")).drawn
  rw [hdrawn]
  exact ⟨by decide +kernel, by decide +kernel, fun s t hs ht => hfree s (htext s hs) t (htext t ht)⟩

end Dap
