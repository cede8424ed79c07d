import Dap.Adapter.Signing
import Dap.Lib.PosixPath
import Dap.Lib.TextDecoder

/-! Identity files: where an adapter keeps the keys of a name, and who shares them
(`adapters/mcp-bridge/src/config.ts` and `client.ts`, and the same files of
`adapters/dsh-plugin`). -/
namespace Dap.KeyFiles

/-! ### Paths -/

/-- What `node:os` says of the machine. -/
structure Host where
  homedir : JsString
  hostname : JsString

inductive Adapter where
  | bridge | plugin
  deriving DecidableEq

/-- The character class `[a-zA-Z0-9._-]`. -/
def nameUnit (u : UInt16) : Bool :=
  (97 ≤ u ∧ u ≤ 122) ∨ (65 ≤ u ∧ u ≤ 90) ∨ (48 ≤ u ∧ u ≤ 57) ∨ u = 46 ∨ u = 95 ∨ u = 45

def underscore : UInt16 := 95

def replaceUnit (u : UInt16) : UInt16 := if nameUnit u then u else underscore

/-- `${who}.key`. -/
def keyFile (who : JsString) : JsString := who.map replaceUnit ++ JsString.ofString ".key"

def Adapter.directory : Adapter → JsString
  | .bridge => .ofString "mcp"
  | .plugin => .ofString "dsh"

def Adapter.defaultKeyPath (a : Adapter) (h : Host) (name : Option JsString) : JsString :=
  PosixPath.join [h.homedir, .ofString ".dap", .ofString "keys", a.directory,
    keyFile (name.getD h.hostname)]

/-! ### Identities -/

structure Identity where
  priv : Bytes
  pub : Bytes
  xpriv : Bytes
  xpub : Bytes

def Identity.sized (id : Identity) : Bool :=
  [id.priv, id.pub, id.xpriv, id.xpub].all fun k => k.length = 32

/-- The four members of a key file, in base64. -/
structure IdentityFile where
  priv : JsString
  pub : JsString
  xpriv : JsString
  xpub : JsString

def IdentityFile.decode (f : IdentityFile) : Identity where
  priv := Bytes.bufferDecode f.priv
  pub := Bytes.bufferDecode f.pub
  xpriv := Bytes.bufferDecode f.xpriv
  xpub := Bytes.bufferDecode f.xpub

def Identity.encode (id : Identity) : IdentityFile where
  priv := b64e id.priv
  pub := b64e id.pub
  xpriv := b64e id.xpriv
  xpub := b64e id.xpub

theorem Identity.decode_encode (id : Identity) : id.encode.decode = id := by
  simp only [Identity.encode, IdentityFile.decode, b64e, Bytes.bufferDecode_base64Std]

/-- The files of one machine, `some none` being one that does not hold four base64 members, and the
key pairs that its random source will give. -/
structure Machine where
  files : JsString → Option (Option IdentityFile)
  generated : ℕ → Identity
  sized : ∀ n, (generated n).sized = true
  drawn : ℕ := 0

namespace Machine

variable (m : Machine)

/-- The end of `loadIdentity`: new keys, written to the file. -/
def generate (path : JsString) : Identity × Machine :=
  (m.generated m.drawn, { m with
    files := Function.update m.files path (some (some (m.generated m.drawn).encode))
    drawn := m.drawn + 1 })

def identityAt (path : JsString) : Option Identity := (m.files path).join.map IdentityFile.decode

end Machine

/-- `none` when it throws. The bridge replaces a file whose keys do not have 32 bytes. -/
def Adapter.loadIdentity (a : Adapter) (path : JsString) (m : Machine) :
    Option (Identity × Machine) :=
  match m.files path with
  | none => some (m.generate path)
  | some none => none
  | some (some f) =>
    if a = .bridge ∧ f.decode.sized = false then some (m.generate path) else some (f.decode, m)

/-- The machine after its agents have loaded the files, in this order. -/
def Adapter.run (a : Adapter) (m : Machine) (paths : List JsString) : Machine :=
  paths.foldl (fun m path => (a.loadIdentity path m).elim m Prod.snd) m

/-- Somewhere in the run the file is loaded and gives the identity. -/
def Adapter.Adopts (a : Adapter) (m : Machine) (paths : List JsString) (path : JsString)
    (id : Identity) : Prop :=
  ∃ before rest, paths = before ++ path :: rest ∧
    (a.loadIdentity path (a.run m before)).map Prod.fst = some id

/-- No two files hold one public key, and the keys still to be drawn are new. -/
structure Machine.Distinct (m : Machine) : Prop where
  files : ∀ p q id id', m.identityAt p = some id → m.identityAt q = some id' → p ≠ q →
    id.pub ≠ id'.pub
  unused : ∀ p id n, m.identityAt p = some id → m.drawn ≤ n → id.pub ≠ (m.generated n).pub
  fresh : ∀ i j, m.drawn ≤ i → i < j → (m.generated i).pub ≠ (m.generated j).pub

/-- The public keys that the machine has or can draw. -/
def Machine.keys (m : Machine) : Set Bytes :=
  { k | (∃ path id, m.identityAt path = some id ∧ id.pub = k) ∨ ∃ n, (m.generated n).pub = k }

variable (P : Platform)

def agentIdOf (pub : Bytes) : String := String.ofList ((Bytes.hexChars (P.sha256 pub).val).take 16)

/-- The two names have two files, and in every run on a machine whose keys are distinct, whoever
takes the one name and whoever takes the other are two agents. -/
def Separate (a : Adapter) (h : Host) (n n' : JsString) : Prop :=
  a.defaultKeyPath h (some n) ≠ a.defaultKeyPath h (some n') ∧
    ∀ m : Machine, m.Distinct → ∀ paths id id',
      a.Adopts m paths (a.defaultKeyPath h (some n)) id →
      a.Adopts m paths (a.defaultKeyPath h (some n')) id' →
      id.pub ≠ id'.pub ∧ (m.keys.InjOn (agentIdOf P) → agentIdOf P id.pub ≠ agentIdOf P id'.pub)

/-- An ASCII letter or digit, a dot or a hyphen. -/
def Telling (u : UInt16) : Prop := nameUnit u = true ∧ u ≠ underscore

/-- The names differ in length, or somewhere in a code unit of which one side is a letter, a digit,
a dot or a hyphen. -/
def Apart (n n' : JsString) : Prop :=
  n.length ≠ n'.length ∨
    ∃ (i : ℕ) (u u' : UInt16), n[i]? = some u ∧ n'[i]? = some u' ∧ u ≠ u' ∧ (Telling u ∨ Telling u')

/-! ### Names and paths -/

theorem replaceUnit_ne_slash (u : UInt16) : replaceUnit u ≠ PosixPath.slash := by
  unfold replaceUnit
  split
  next hu =>
    rintro rfl
    revert hu
    decide
  next => decide

theorem fileName_keyFile (who : JsString) : PosixPath.FileName (keyFile who) := by
  have hlength : 4 ≤ (keyFile who).length := by
    have hkey : (JsString.ofString ".key").length = 4 := by decide
    rw [keyFile, List.length_append, hkey]
    omega
  refine ⟨?_, ?_, ?_, ?_⟩
  · intro hnil
    rw [hnil] at hlength
    exact absurd hlength (by decide)
  · intro hdot
    rw [hdot] at hlength
    exact absurd hlength (by decide)
  · intro hdots
    rw [hdots] at hlength
    exact absurd hlength (by decide)
  · intro hslash
    rcases List.mem_append.mp hslash with hname | hkey
    · obtain ⟨u, -, hu⟩ := List.mem_map.mp hname
      exact replaceUnit_ne_slash u hu
    · exact absurd hkey (by decide)

theorem defaultKeyPath_eq_iff (a : Adapter) (h : Host) (n n' : JsString) :
    a.defaultKeyPath h (some n) = a.defaultKeyPath h (some n') ↔
      n.map replaceUnit = n'.map replaceUnit := by
  have hjoin := @PosixPath.join_inj [h.homedir, .ofString ".dap", .ofString "keys", a.directory]
    _ _ (fileName_keyFile n) (fileName_keyFile n')
  refine hjoin.trans ?_
  unfold keyFile
  rw [List.append_cancel_right_eq]

theorem replaceUnit_eq_iff (u u' : UInt16) :
    replaceUnit u = replaceUnit u' ↔ ¬ (u ≠ u' ∧ (Telling u ∨ Telling u')) := by
  unfold replaceUnit Telling
  by_cases hu : nameUnit u = true <;> by_cases hu' : nameUnit u' = true <;>
    simp only [hu, hu', if_true, if_false, Bool.false_eq_true] <;> grind

theorem replaced_eq_iff (n n' : JsString) :
    n.map replaceUnit = n'.map replaceUnit ↔ ¬ Apart n n' := by
  unfold Apart
  rw [not_or, not_not]
  constructor
  · intro h
    refine ⟨by simpa using congrArg List.length h, ?_⟩
    rintro ⟨i, u, u', hu, hu', hne⟩
    have hi := congrArg (fun l : JsString => l[i]?) h
    simp only [List.getElem?_map, hu, hu', Option.map_some, Option.some.injEq] at hi
    exact (replaceUnit_eq_iff u u').mp hi hne
  · rintro ⟨hlength, h⟩
    apply List.ext_getElem (by simpa using hlength)
    intro i hi hi'
    rw [List.getElem_map, List.getElem_map, replaceUnit_eq_iff]
    intro hne
    exact h ⟨i, _, _, List.getElem?_eq_getElem _, List.getElem?_eq_getElem _, hne⟩

/-! ### Loading -/

/-- The file holds the identity, and whoever loads it gets that one. -/
def Adapter.Holds (a : Adapter) (m : Machine) (path : JsString) (id : Identity) : Prop :=
  m.identityAt path = some id ∧ (a = .bridge → id.sized = true)

section Loads

variable {a : Adapter} {m m' : Machine} {path q : JsString} {id id' : Identity}

theorem Machine.identityAt_generate (m : Machine) (path : JsString) :
    (m.generate path).2.identityAt path = some (m.generate path).1 := by
  simp [identityAt, generate, Identity.decode_encode]

theorem Machine.identityAt_generate_of_ne (m : Machine) (h : q ≠ path) :
    (m.generate path).2.identityAt q = m.identityAt q := by
  simp [identityAt, generate, Function.update_of_ne h]

/-- The ways `loadIdentity` can go. -/
theorem Adapter.loadIdentity_cases (h : a.loadIdentity path m = some (id, m')) :
    (a.Holds m path id ∧ m' = m) ∨
      (∀ id', ¬ a.Holds m path id') ∧ id = (m.generate path).1 ∧ m' = (m.generate path).2 := by
  unfold loadIdentity at h
  cases hfile : m.files path with
  | none =>
    simp only [hfile] at h
    right
    refine ⟨?_, ?_, ?_⟩
    · rintro id' ⟨hid, -⟩
      simp [Machine.identityAt, hfile] at hid
    · exact (congrArg Prod.fst (Option.some.inj h)).symm
    · exact (congrArg Prod.snd (Option.some.inj h)).symm
  | some content =>
    cases content with
    | none =>
      simp only [hfile] at h
      cases h
    | some f =>
      simp only [hfile] at h
      have hat : m.identityAt path = some f.decode := by simp [Machine.identityAt, hfile]
      by_cases hbad : a = .bridge ∧ f.decode.sized = false
      · rw [if_pos hbad] at h
        right
        refine ⟨?_, ?_, ?_⟩
        · rintro id' ⟨hid, hsized⟩
          rw [hat, Option.some.injEq] at hid
          have htrue := hsized hbad.1
          rw [← hid, hbad.2] at htrue
          cases htrue
        · exact (congrArg Prod.fst (Option.some.inj h)).symm
        · exact (congrArg Prod.snd (Option.some.inj h)).symm
      · rw [if_neg hbad] at h
        obtain ⟨rfl, rfl⟩ : f.decode = id ∧ m = m' := by simpa using h
        left
        refine ⟨⟨hat, fun ha => ?_⟩, rfl⟩
        simpa [ha] using hbad

theorem Adapter.loadIdentity_holds (h : a.loadIdentity path m = some (id, m')) :
    a.Holds m' path id := by
  rcases loadIdentity_cases h with ⟨hholds, rfl⟩ | ⟨-, rfl, rfl⟩
  · exact hholds
  · exact ⟨m.identityAt_generate path, fun _ => m.sized m.drawn⟩

theorem Adapter.Holds.loaded (hq : a.Holds m q id') (h : a.loadIdentity path m = some (id, m')) :
    a.Holds m' q id' := by
  rcases loadIdentity_cases h with ⟨-, rfl⟩ | ⟨hnone, rfl, rfl⟩
  · exact hq
  · have hne : q ≠ path := by
      rintro rfl
      exact hnone id' hq
    exact ⟨(m.identityAt_generate_of_ne hne).trans hq.1, hq.2⟩

theorem Machine.Distinct.generate (hm : m.Distinct) (path : JsString) :
    (m.generate path).2.Distinct where
  files p q id id' hp hq hne := by
    by_cases hpath : p = path
    · subst hpath
      rw [m.identityAt_generate p] at hp
      rw [m.identityAt_generate_of_ne hne.symm] at hq
      cases hp
      exact (hm.unused q id' m.drawn hq le_rfl).symm
    · rw [m.identityAt_generate_of_ne hpath] at hp
      by_cases hpath' : q = path
      · subst hpath'
        rw [m.identityAt_generate q] at hq
        cases hq
        exact hm.unused p id m.drawn hp le_rfl
      · rw [m.identityAt_generate_of_ne hpath'] at hq
        exact hm.files p q id id' hp hq hne
  unused p id n hp hn := by
    have hn' : m.drawn < n := hn
    by_cases hpath : p = path
    · subst hpath
      rw [m.identityAt_generate p] at hp
      cases hp
      exact hm.fresh m.drawn n le_rfl hn'
    · rw [m.identityAt_generate_of_ne hpath] at hp
      exact hm.unused p id n hp hn'.le
  fresh i j hi hij := by
    have hi' : m.drawn < i := hi
    exact hm.fresh i j hi'.le hij

theorem Machine.keys_generate (m : Machine) (path : JsString) :
    (m.generate path).2.keys ⊆ m.keys := by
  rintro k (⟨p, id, hp, rfl⟩ | ⟨n, rfl⟩)
  · by_cases hpath : p = path
    · subst hpath
      rw [m.identityAt_generate p] at hp
      cases hp
      exact .inr ⟨m.drawn, rfl⟩
    · rw [m.identityAt_generate_of_ne hpath] at hp
      exact .inl ⟨p, id, hp, rfl⟩
  · exact .inr ⟨n, rfl⟩

theorem Adapter.loadIdentity_distinct (hm : m.Distinct)
    (h : a.loadIdentity path m = some (id, m')) : m'.Distinct := by
  rcases loadIdentity_cases h with ⟨-, rfl⟩ | ⟨-, -, rfl⟩
  · exact hm
  · exact hm.generate path

theorem Adapter.loadIdentity_keys (h : a.loadIdentity path m = some (id, m')) :
    m'.keys ⊆ m.keys := by
  rcases loadIdentity_cases h with ⟨-, rfl⟩ | ⟨-, -, rfl⟩
  · exact subset_rfl
  · exact m.keys_generate path

end Loads

/-! ### Runs -/

namespace Adapter

variable {a : Adapter} {m : Machine} {path : JsString} {id : Identity}

theorem run_cons (a : Adapter) (m : Machine) (path : JsString) (paths : List JsString) :
    a.run m (path :: paths) = a.run ((a.loadIdentity path m).elim m Prod.snd) paths := rfl

/-- What every load keeps, every run keeps. -/
theorem run_invariant {I : Machine → Prop} (paths : List JsString)
    (hstep : ∀ m path id m', I m → a.loadIdentity path m = some (id, m') → I m') (hm : I m) :
    I (a.run m paths) := by
  induction paths generalizing m with
  | nil => exact hm
  | cons path paths ih =>
    rw [run_cons]
    apply ih
    cases h : a.loadIdentity path m with
    | none => exact hm
    | some r => exact hstep m path r.1 r.2 hm h

theorem Adopts.holds {paths : List JsString} (h : a.Adopts m paths path id) :
    a.Holds (a.run m paths) path id := by
  obtain ⟨before, rest, rfl, hfst⟩ := h
  obtain ⟨⟨id', m'⟩, hload, hid⟩ := Option.map_eq_some_iff.mp hfst
  obtain rfl : id' = id := hid
  have hrun : a.run m (before ++ path :: rest) = a.run m' rest := by
    simp only [run, List.foldl_append, List.foldl_cons]
    rw [show List.foldl _ m before = a.run m before from rfl, hload]
    rfl
  rw [hrun]
  exact run_invariant (I := fun x => a.Holds x path id') rest (fun _ _ _ _ hm h => hm.loaded h)
    (loadIdentity_holds hload)

end Adapter

/-- Two names lead to two agents exactly when they are of different lengths, or differ in a place
where one of them has a letter, a digit, a dot or a hyphen. -/
theorem separate_iff (a : Adapter) (h : Host) (n n' : JsString) :
    Separate P a h n n' ↔ Apart n n' := by
  have hpaths : a.defaultKeyPath h (some n) ≠ a.defaultKeyPath h (some n') ↔ Apart n n' := by
    rw [ne_eq, defaultKeyPath_eq_iff, replaced_eq_iff, not_not]
  refine ⟨fun hsep => hpaths.mp hsep.1, fun hapart => ?_⟩
  have hne := hpaths.mpr hapart
  refine ⟨hne, fun m hm paths id id' hid hid' => ?_⟩
  have hdistinct : (a.run m paths).Distinct :=
    Adapter.run_invariant paths (fun _ _ _ _ hm h => Adapter.loadIdentity_distinct hm h) hm
  have hkeys : (a.run m paths).keys ⊆ m.keys :=
    Adapter.run_invariant (I := fun x => x.keys ⊆ m.keys) paths
      (fun _ _ _ _ hm h => (Adapter.loadIdentity_keys h).trans hm) subset_rfl
  have hpub : id.pub ≠ id'.pub :=
    hdistinct.files _ _ id id' hid.holds.1 hid'.holds.1 hne
  refine ⟨hpub, fun hinj hsame => hpub (hinj ?_ ?_ hsame)⟩
  · exact hkeys (.inl ⟨_, id, hid.holds.1, rfl⟩)
  · exact hkeys (.inl ⟨_, id', hid'.holds.1, rfl⟩)

/-- Two names of one file are one agent: whoever loads it second takes the keys of the first. -/
theorem adopts_unique {a : Adapter} {m : Machine} {paths : List JsString} {path : JsString}
    {id id' : Identity} (h : a.Adopts m paths path id) (h' : a.Adopts m paths path id') :
    id = id' :=
  Option.some.inj (h.holds.1.symm.trans h'.holds.1)

/-- A space and an underscore name one file. -/
theorem not_separate_space : ¬ ∀ (a : Adapter) (h : Host) (n n' : JsString), n ≠ n' →
    Separate ⟨Sha256.digest, fun _ _ _ => true, fun _ => ""⟩ a h n n' := by
  intro hall
  have hsep := hall .bridge ⟨.ofString "/home/ann", .ofString "box"⟩ (.ofString "a b")
    (.ofString "a_b") (by decide)
  exact hsep.1 (by decide +kernel)

end Dap.KeyFiles
