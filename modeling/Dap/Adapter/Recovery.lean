import Dap.Adapter.BridgeClient
import Dap.Lib.JsObject

/-! The secrets the clients dial with, and their recovery from a stale one (`client.ts` and
`config.ts` of `adapters/mcp-bridge/src` and `adapters/dsh-plugin/src`). -/
namespace Dap

namespace Json

variable {S : Type}

mutual

/-- What is read back of a value that is written: JSON has no infinite numbers. Numbers stand by
what `String` makes of them. -/
def stringified : Json S → Json S
  | .num text => if text = "Infinity" ∨ text = "-Infinity" then .null else .num text
  | .arr elems => .arr (stringifiedElems elems)
  | .obj members => .obj (stringifiedMembers members)
  | v => v

def stringifiedElems : List (Json S) → List (Json S)
  | [] => []
  | v :: rest => stringified v :: stringifiedElems rest

def stringifiedMembers : List (S × Json S) → List (S × Json S)
  | [] => []
  | (k, v) :: rest => (k, stringified v) :: stringifiedMembers rest

end

theorem lookup_stringifiedMembers [DecidableEq S] (k : S) (ms : List (S × Json S)) :
    JsMap.lookup k (stringifiedMembers ms) = (JsMap.lookup k ms).map stringified := by
  induction ms with
  | nil => rfl
  | cons m ms ih =>
    obtain ⟨k', v⟩ := m
    simp only [stringifiedMembers, JsMap.lookup]
    by_cases h : k' = k
    · simp only [h, if_true, Option.map_some]
    · simp only [h, if_false, ih]

end Json

namespace Recovery
open Json

/-! ### The config file -/

/-- What `JSON.parse` makes of the file, if it can be read and parsed. -/
abbrev ConfigFile := Option (Json JsString)

def secretKey : JsString := .ofString "clientSecret"

def invitesKey : JsString := .ofString "invites"

/-- `{ ...v }`. -/
def spread : Json JsString → List (JsString × Json JsString)
  | .obj members => members
  | .arr elems => elems.mapIdx fun i v => (.ofString (toString i), v)
  | .str s => s.mapIdx fun i u => (.ofString (toString i), .str [u])
  | _ => []

def fileMembers (file : ConfigFile) : List (JsString × Json JsString) := (file.map spread).getD []

/-- A list of invites that is missing or none is empty. -/
def listed : Option (Json JsString) → Json JsString
  | some (.arr elems) => .arr elems
  | _ => .arr []

def readDapConfig (file : ConfigFile) : List (JsString × Json JsString) :=
  JsMap.assign invitesKey (listed (JsMap.lookup invitesKey (fileMembers file))) (fileMembers file)

/-- `persistDapConfig({ clientSecret })`; `none` is the `null` that purges it. -/
def persistSecret (file : ConfigFile) (clientSecret : Option JsString) : ConfigFile :=
  let next :=
    match clientSecret with
    | none => (readDapConfig file).filter fun m => m.1 ≠ secretKey
    | some secret =>
      if secret = [] then readDapConfig file
      else JsMap.assign secretKey (.str secret) (readDapConfig file)
  some (stringified (.obj next))

/-- `optStr(readDapConfig().clientSecret)`. -/
def secretOf (file : ConfigFile) : Option JsString :=
  match JsMap.lookup secretKey (readDapConfig file) with
  | some (.str secret) => if secret = [] then none else some secret
  | _ => none

def hasSecret (file : ConfigFile) : Bool := (JsMap.lookup secretKey (fileMembers file)).isSome

/-- Every member but the secret is still read, and all but the list of invites are still there. -/
structure KeepsOthers (before after : ConfigFile) : Prop where
  read : ∀ k, k ≠ secretKey → JsMap.lookup k (readDapConfig after) =
    (JsMap.lookup k (readDapConfig before)).map stringified
  kept : ∀ k v, k ≠ secretKey → k ≠ invitesKey → JsMap.lookup k (fileMembers before) = some v →
    JsMap.lookup k (fileMembers after) = some (stringified v)

/-! ### Dialling -/

inductive Adapter where
  | mcpBridge
  | dshPlugin
  deriving DecidableEq

structure DialAuth where
  token : JsString
  enroll : Bool
  source : AuthSource
  deriving DecidableEq

/-- A connection and what it was dialled with. -/
structure Connection where
  auth : Option DialAuth
  readyState : ReadyState
  deriving DecidableEq

def Connection.source (c : Connection) : Option AuthSource := c.auth.map DialAuth.source

/-- What a client's dials depend on, with one connection at a time. `clientSecret` is the plugin's
copy in memory, `enrollPending` its `enrollMode`; `enrolls` lists the connections that an enroll
frame was sent on. -/
structure Dialer where
  adapter : Adapter
  env : Env
  config : ConfigFile
  clientSecret : Option JsString
  ws : Option Connection := none
  enrollPending : Bool := false
  dialSource : Option AuthSource := none
  reEnrolled : Bool := false
  enrolls : List Connection := []

/-- `environment` and `edited` are what others do; an `enrolled` frame comes with the string that
the handler is passed. -/
inductive DialEvent where
  | connect
  | opened
  | unexpectedResponse (code : ℕ)
  | welcome
  | enrolled (secret : JsString)
  | closed
  | environment (env : Env)
  | edited (config : ConfigFile)

def DialEvent.own : DialEvent → Bool
  | .environment _ => false
  | .edited _ => false
  | _ => true

def DialEvent.edits : DialEvent → Bool
  | .edited _ => true
  | _ => false

namespace Dialer

/-- A client made while the config file is `config`. -/
def create (adapter : Adapter) (env : Env) (config : ConfigFile) : Dialer :=
  { adapter, env, config, clientSecret := secretOf config }

/-- The bridge reads the file at every dial. -/
def persisted (d : Dialer) : Option JsString :=
  match d.adapter with
  | .mcpBridge => secretOf d.config
  | .dshPlugin => d.clientSecret

/-- `resolveAuthToken` of the bridge. -/
def dialAuth (d : Dialer) : Option DialAuth :=
  match optStr d.env.clientSecret with
  | some token => some ⟨.ofString token, false, .env⟩
  | none =>
    match d.persisted with
    | some token => some ⟨token, false, .config⟩
    | none => (optStr d.env.masterSecret).map fun token => ⟨.ofString token, true, .master⟩

def connect (d : Dialer) : Dialer :=
  { d with
    enrollPending := d.dialAuth.any DialAuth.enroll
    dialSource := d.dialAuth.map DialAuth.source
    ws := some ⟨d.dialAuth, .connecting⟩ }

def moves (d : Dialer) (st : ReadyState) : Dialer :=
  { d with ws := d.ws.map fun c => { c with readyState := st } }

/-- The part of the handler that a 401 takes. -/
def recover (d : Dialer) : Dialer :=
  if d.dialSource = some .config && !d.reEnrolled && (optStr d.env.masterSecret).isSome then
    { d with
      reEnrolled := true
      clientSecret := none
      config := persistSecret d.config none }
  else d

/-- The plugin leaves a connection that is refused otherwise as it is. -/
def onUnexpectedResponse (d : Dialer) (code : ℕ) : Dialer :=
  match d.adapter with
  | .mcpBridge => (if code = 401 then d.recover else d).moves .closing
  | .dshPlugin => if code = 401 then d.recover.moves .closing else d

def postEnroll (d : Dialer) : Dialer :=
  match d.ws with
  | none => d
  | some c => if c.readyState = .opened then { d with enrolls := d.enrolls ++ [c] } else d

def onWelcome (d : Dialer) : Dialer := if d.enrollPending then d.postEnroll else d

/-- Only the bridge asks whether it is enrolling. -/
def onEnrolled (d : Dialer) (secret : JsString) : Dialer :=
  if (d.adapter = .mcpBridge && !d.enrollPending) || secret = [] then d
  else
    { d with
      clientSecret := some secret
      enrollPending := false
      config := persistSecret d.config (some secret) }

def step (d : Dialer) : DialEvent → Dialer
  | .connect => d.connect
  | .opened => d.moves .opened
  | .unexpectedResponse code => d.onUnexpectedResponse code
  | .welcome => d.onWelcome
  | .enrolled secret => d.onEnrolled secret
  | .closed => d.moves .closed
  | .environment env => { d with env }
  | .edited config => { d with config }

def run (d : Dialer) (es : List DialEvent) : Dialer := es.foldl step d

/-! ### What is promised -/

def DialledWith (d : Dialer) (source : AuthSource) : Prop :=
  ∃ c, d.ws = some c ∧ c.source = some source

/-- The client itself takes the secret out of the file. -/
def deletes (d : Dialer) (e : DialEvent) : Bool :=
  e.own && hasSecret d.config && !hasSecret (d.step e).config

def deletions : Dialer → List DialEvent → ℕ
  | _, [] => 0
  | d, e :: es => (if d.deletes e then 1 else 0) + deletions (d.step e) es

/-- What an event may do to the file, and the connections that enroll. -/
structure Recovers (d : Dialer) (e : DialEvent) : Prop where
  deletes : d.deletes e = true → e = .unexpectedResponse 401 ∧ d.DialledWith .config ∧
    (optStr d.env.masterSecret).isSome = true
  spares : e = .unexpectedResponse 401 → d.DialledWith .env → (d.step e).config = d.config
  keeps : e.own = true → (d.step e).config = d.config ∨ KeepsOthers d.config (d.step e).config
  enrolls : ∀ c ∈ (d.step e).enrolls, c.source = some .master

end Dialer

/-! ### What a write keeps -/

theorem lookup_readDapConfig (file : ConfigFile) (k : JsString) :
    JsMap.lookup k (readDapConfig file) =
      if invitesKey = k then some (listed (JsMap.lookup k (fileMembers file)))
      else JsMap.lookup k (fileMembers file) := by
  rw [readDapConfig, JsMap.lookup_assign]
  split
  next h => rw [h]
  next => rfl

theorem lookup_readDapConfig_secret (file : ConfigFile) :
    JsMap.lookup secretKey (readDapConfig file) = JsMap.lookup secretKey (fileMembers file) := by
  have hne : invitesKey ≠ secretKey := by decide
  rw [lookup_readDapConfig, if_neg hne]

theorem lookup_persistSecret (file : ConfigFile) (clientSecret : Option JsString) (k : JsString)
    (h : k ≠ secretKey) : JsMap.lookup k (fileMembers (persistSecret file clientSecret)) =
      (JsMap.lookup k (readDapConfig file)).map stringified := by
  have hne : secretKey ≠ k := h.symm
  simp only [persistSecret, fileMembers, Option.map_some, Option.getD_some, stringified, spread,
    lookup_stringifiedMembers]
  cases clientSecret with
  | none => simp only [JsMap.lookup_filter, if_neg hne]
  | some secret =>
    simp only
    split
    · rfl
    · rw [JsMap.lookup_assign, if_neg hne]

theorem listed_map_stringified (v : Option (Json JsString)) :
    listed (v.map stringified) = stringified (listed v) := by
  cases v with
  | none => rfl
  | some v =>
    cases v with
    | num text =>
      simp only [Option.map_some, stringified]
      split <;> rfl
    | null | bool _ | str _ | arr _ | obj _ => rfl

theorem listed_listed (v : Option (Json JsString)) : listed (some (listed v)) = listed v := by
  cases v with
  | none => rfl
  | some v => cases v <;> rfl

theorem persistSecret_keepsOthers (file : ConfigFile) (clientSecret : Option JsString) :
    KeepsOthers file (persistSecret file clientSecret) := by
  constructor
  · intro k hk
    rw [lookup_readDapConfig (persistSecret file clientSecret), lookup_persistSecret _ _ _ hk]
    split
    next hinvites =>
      rw [listed_map_stringified, lookup_readDapConfig, if_pos hinvites, listed_listed]
      rfl
    next => rfl
  · intro k v hk hinvites hv
    rw [lookup_persistSecret _ _ _ hk, lookup_readDapConfig, if_neg hinvites.symm, hv]
    rfl

theorem lookup_secret_persistSecret (file : ConfigFile) (clientSecret : Option JsString) :
    JsMap.lookup secretKey (fileMembers (persistSecret file clientSecret)) =
      match clientSecret with
      | none => none
      | some secret =>
        if secret = [] then (JsMap.lookup secretKey (fileMembers file)).map stringified
        else some (.str secret) := by
  simp only [persistSecret, fileMembers, Option.map_some, Option.getD_some, stringified, spread,
    lookup_stringifiedMembers]
  cases clientSecret with
  | none => simp only [JsMap.lookup_filter, if_true, Option.map_none]
  | some secret =>
    simp only
    split
    · rw [lookup_readDapConfig_secret]
      rfl
    · rw [JsMap.lookup_assign, if_pos rfl]
      rfl

theorem secretOf_persistSecret (file : ConfigFile) (clientSecret : Option JsString)
    (h : clientSecret ≠ some []) : secretOf (persistSecret file clientSecret) = clientSecret := by
  rw [secretOf, lookup_readDapConfig_secret, lookup_secret_persistSecret]
  cases clientSecret with
  | none => rfl
  | some secret =>
    have hne : secret ≠ [] := by
      intro heq
      exact h (congrArg some heq)
    simp only [if_neg hne]

theorem hasSecret_persistSecret (file : ConfigFile) {secret : JsString} (h : secret ≠ []) :
    hasSecret (persistSecret file (some secret)) = true := by
  rw [hasSecret, lookup_secret_persistSecret]
  simp only [if_neg h, Option.isSome_some]

/-! ### What a step does -/

namespace Dialer

variable {d : Dialer} {e : DialEvent}

/-- The purge happens. -/
structure Purges (d : Dialer) : Prop where
  source : d.dialSource = some .config
  unlatched : d.reEnrolled = false
  master : (optStr d.env.masterSecret).isSome = true

instance (d : Dialer) : Decidable d.Purges :=
  decidable_of_iff (d.dialSource = some .config ∧ d.reEnrolled = false ∧
    (optStr d.env.masterSecret).isSome = true)
    ⟨fun ⟨hsource, hlatch, hmaster⟩ => ⟨hsource, hlatch, hmaster⟩,
      fun h => ⟨h.source, h.unlatched, h.master⟩⟩

theorem recover_eq (d : Dialer) : d.recover = if d.Purges then
    { d with reEnrolled := true, clientSecret := none, config := persistSecret d.config none }
    else d := by
  have hcond : (d.dialSource = some .config && !d.reEnrolled &&
      (optStr d.env.masterSecret).isSome) = true ↔ d.Purges := by
    simp only [Bool.and_eq_true, Bool.not_eq_true', decide_eq_true_eq]
    constructor
    · rintro ⟨⟨hsource, hlatch⟩, hmaster⟩
      exact ⟨hsource, hlatch, hmaster⟩
    · intro h
      exact ⟨⟨h.source, h.unlatched⟩, h.master⟩
  unfold recover
  by_cases h : d.Purges
  · rw [if_pos h, if_pos (hcond.mpr h)]
  · rw [if_neg h, if_neg (fun hc => h (hcond.mp hc))]

/-- What one event of the client does to the file and to the latch. -/
theorem step_config (d : Dialer) (e : DialEvent) (h : e.own = true) :
    ((d.step e).config = d.config ∧ (d.step e).reEnrolled = d.reEnrolled) ∨
      (e = .unexpectedResponse 401 ∧ d.Purges ∧ (d.step e).config = persistSecret d.config none ∧
        (d.step e).reEnrolled = true) ∨
      (∃ secret ≠ [], e = .enrolled secret ∧
        (d.step e).config = persistSecret d.config (some secret) ∧
        (d.step e).reEnrolled = d.reEnrolled) := by
  have hrecover : (d.recover.config = d.config ∧ d.recover.reEnrolled = d.reEnrolled) ∨
      (d.Purges ∧ d.recover.config = persistSecret d.config none ∧
        d.recover.reEnrolled = true) := by
    rw [recover_eq]
    split
    next hp => exact .inr ⟨hp, rfl, rfl⟩
    next => exact .inl ⟨rfl, rfl⟩
  cases e with
  | connect => exact .inl ⟨rfl, rfl⟩
  | opened => exact .inl ⟨rfl, rfl⟩
  | closed => exact .inl ⟨rfl, rfl⟩
  | environment env => cases h
  | edited config => cases h
  | unexpectedResponse code =>
    by_cases hcode : code = 401
    · subst hcode
      have hstep : (d.step (.unexpectedResponse 401)).config = d.recover.config ∧
          (d.step (.unexpectedResponse 401)).reEnrolled = d.recover.reEnrolled := by
        simp only [step, onUnexpectedResponse]
        cases d.adapter with
        | mcpBridge => exact ⟨rfl, rfl⟩
        | dshPlugin => exact ⟨rfl, rfl⟩
      rw [hstep.1, hstep.2]
      rcases hrecover with hkept | hpurged
      · exact .inl hkept
      · exact .inr (.inl ⟨rfl, hpurged⟩)
    · left
      simp only [step, onUnexpectedResponse, if_neg hcode]
      cases d.adapter with
      | mcpBridge => exact ⟨rfl, rfl⟩
      | dshPlugin => exact ⟨rfl, rfl⟩
  | welcome =>
    left
    simp only [step, onWelcome, postEnroll]
    split
    · split
      · exact ⟨rfl, rfl⟩
      · split
        · exact ⟨rfl, rfl⟩
        · exact ⟨rfl, rfl⟩
    · exact ⟨rfl, rfl⟩
  | enrolled secret =>
    simp only [step, onEnrolled]
    split
    · exact .inl ⟨rfl, rfl⟩
    next hcond =>
      refine .inr (.inr ⟨secret, ?_, rfl, rfl, rfl⟩)
      intro hempty
      apply hcond
      simp [hempty]

theorem deletes_iff_purges (h : d.deletes e = true) :
    e = .unexpectedResponse 401 ∧ d.Purges ∧ (d.step e).reEnrolled = true := by
  simp only [deletes, Bool.and_eq_true, Bool.not_eq_true'] at h
  obtain ⟨⟨hown, hbefore⟩, hafter⟩ := h
  rcases step_config d e hown with
    ⟨hconfig, -⟩ | ⟨he, hpurges, -, hlatch⟩ | ⟨secret, hne, -, hconfig, -⟩
  · rw [hconfig, hbefore] at hafter
    cases hafter
  · exact ⟨he, hpurges, hlatch⟩
  · rw [hconfig, hasSecret_persistSecret _ hne] at hafter
    cases hafter

theorem reEnrolled_step (d : Dialer) (e : DialEvent) (h : d.reEnrolled = true) :
    (d.step e).reEnrolled = true := by
  cases hown : e.own with
  | true =>
    rcases step_config d e hown with ⟨-, hkept⟩ | ⟨-, -, -, hlatch⟩ | ⟨-, -, -, -, hkept⟩
    · rw [hkept, h]
    · exact hlatch
    · rw [hkept, h]
  | false =>
    cases e with
    | environment env => exact h
    | edited config => exact h
    | _ => cases hown

/-- Once the latch is set nothing is deleted, and setting it deletes once. -/
theorem deletions_le (d : Dialer) (es : List DialEvent) :
    d.deletions es ≤ if d.reEnrolled then 0 else 1 := by
  induction es generalizing d with
  | nil => exact Nat.zero_le _
  | cons e es ih =>
    have hrest := ih (d.step e)
    simp only [deletions]
    cases hlatch : d.reEnrolled with
    | true =>
      have hnone : d.deletes e = false := by
        by_contra hdeletes
        obtain ⟨-, hpurges, -⟩ := deletes_iff_purges (Bool.eq_true_of_not_eq_false hdeletes)
        rw [hpurges.unlatched] at hlatch
        cases hlatch
      rw [reEnrolled_step d e hlatch] at hrest
      simpa only [hnone, Bool.false_eq_true, if_false, if_true, Nat.zero_add] using hrest
    | false =>
      cases hdeletes : d.deletes e with
      | true =>
        obtain ⟨-, -, hset⟩ := deletes_iff_purges hdeletes
        rw [hset] at hrest
        simp only [if_true] at hrest ⊢
        simp only [Bool.false_eq_true, if_false]
        omega
      | false =>
        simp only [Bool.false_eq_true, if_false]
        split at hrest
        · omega
        · omega

/-! ### What the client knows of its connection -/

/-- The marks are those of the current connection. -/
structure Current (d : Dialer) : Prop where
  source : d.dialSource = d.ws.bind Connection.source
  pending : d.enrollPending = true → ∀ c, d.ws = some c → c.source = some .master
  enrolls : ∀ c ∈ d.enrolls, c.source = some .master

theorem dialAuth_enroll (d : Dialer) (h : d.dialAuth.any DialAuth.enroll = true) :
    d.dialAuth.map DialAuth.source = some .master := by
  unfold dialAuth at h ⊢
  cases henv : optStr d.env.clientSecret with
  | some token => simp [henv] at h
  | none =>
    cases hsaved : d.persisted with
    | some token => simp [henv, hsaved] at h
    | none =>
      cases hmaster : optStr d.env.masterSecret with
      | none => simp [henv, hsaved, hmaster] at h
      | some token => rfl

theorem current_create (adapter : Adapter) (env : Env) (config : ConfigFile) :
    (create adapter env config).Current := by
  refine ⟨rfl, ?_, ?_⟩
  · intro h
    cases h
  · intro c hc
    cases hc

theorem Current.moves (h : d.Current) (st : ReadyState) : (d.moves st).Current := by
  have hsource : ∀ c, (d.moves st).ws = some c → ∃ c', d.ws = some c' ∧ c.source = c'.source := by
    intro c hc
    obtain ⟨c', hc', rfl⟩ := Option.map_eq_some_iff.mp hc
    exact ⟨c', hc', rfl⟩
  refine ⟨?_, ?_, h.enrolls⟩
  · change d.dialSource = (d.ws.map _).bind Connection.source
    rw [h.source]
    cases d.ws with
    | none => rfl
    | some c => rfl
  · intro hpending c hc
    obtain ⟨c', hc', hsame⟩ := hsource c hc
    rw [hsame]
    exact h.pending hpending c' hc'

theorem Current.recover (h : d.Current) : d.recover.Current := by
  rw [recover_eq]
  split
  · exact ⟨h.source, h.pending, h.enrolls⟩
  · exact h

theorem Current.step (h : d.Current) (e : DialEvent) : (d.step e).Current := by
  cases e with
  | connect =>
    refine ⟨rfl, ?_, h.enrolls⟩
    intro hpending c hc
    cases hc
    exact dialAuth_enroll d hpending
  | opened => exact h.moves _
  | closed => exact h.moves _
  | environment env => exact ⟨h.source, h.pending, h.enrolls⟩
  | edited config => exact ⟨h.source, h.pending, h.enrolls⟩
  | unexpectedResponse code =>
    simp only [Dialer.step, onUnexpectedResponse]
    cases d.adapter with
    | mcpBridge =>
      simp only
      split
      · exact h.recover.moves _
      · exact h.moves _
    | dshPlugin =>
      simp only
      split
      · exact h.recover.moves _
      · exact h
  | welcome =>
    simp only [Dialer.step, onWelcome]
    split
    next hpending =>
      unfold postEnroll
      split
      next => exact h
      next c hc =>
        split
        · refine ⟨h.source, h.pending, ?_⟩
          intro c' hc'
          rcases List.mem_append.mp hc' with hc' | hc'
          · exact h.enrolls c' hc'
          · rw [List.mem_singleton.mp hc']
            exact h.pending hpending c hc
        · exact h
    next => exact h
  | enrolled secret =>
    simp only [Dialer.step, onEnrolled]
    split
    · exact h
    · refine ⟨h.source, ?_, h.enrolls⟩
      intro hpending
      cases hpending

theorem Current.run (h : d.Current) (es : List DialEvent) : (d.run es).Current := by
  induction es generalizing d with
  | nil => exact h
  | cons e es ih => exact ih (h.step e)

theorem Current.recovers (h : d.Current) (e : DialEvent) : d.Recovers e := by
  constructor
  · intro hdeletes
    obtain ⟨he, hpurges, -⟩ := deletes_iff_purges hdeletes
    refine ⟨he, ?_, hpurges.master⟩
    have hsource := h.source
    rw [hpurges.source] at hsource
    obtain ⟨c, hc, hcs⟩ := Option.bind_eq_some_iff.mp hsource.symm
    exact ⟨c, hc, hcs⟩
  · rintro he ⟨c, hc, hcs⟩
    subst he
    have hsource := h.source
    rw [hc, Option.bind_some, hcs] at hsource
    rcases step_config d (.unexpectedResponse 401) rfl with
      ⟨hconfig, -⟩ | ⟨-, hpurges, -⟩ | ⟨secret, -, he, -⟩
    · exact hconfig
    · rw [hpurges.source] at hsource
      cases hsource
    · cases he
  · intro hown
    rcases step_config d e hown with
      ⟨hconfig, -⟩ | ⟨-, -, hconfig, -⟩ | ⟨secret, -, -, hconfig, -⟩
    · exact .inl hconfig
    · exact .inr (hconfig ▸ persistSecret_keepsOthers _ _)
    · exact .inr (hconfig ▸ persistSecret_keepsOthers _ _)
  · exact (h.step e).enrolls

/-- The recovery of either client happens once: over every sequence of events and settings the
secret is deleted at most once, only by a 401 on a dial with the file's secret while a master secret
is set, no write touches another key, and only master dials enroll. -/
theorem recovers_once (adapter : Adapter) (env : Env) (config : ConfigFile) (es : List DialEvent) :
    (create adapter env config).deletions es ≤ 1 ∧
      ∀ e, ((create adapter env config).run es).Recovers e := by
  refine ⟨deletions_le _ es, ?_⟩
  intro e
  exact ((current_create adapter env config).run es).recovers e

/-- The stale secret is refused, the next dial enrolls, and a second refusal purges nothing. -/
example :
    let d := (create .mcpBridge { masterSecret := some "m" }
      (some (.obj [(.ofString "url", .null), (secretKey, .str (.ofString "stale"))])))
    let es := [.connect, .unexpectedResponse 401, .closed, .connect, .opened, .welcome,
      .enrolled (.ofString "new"), .closed, .connect, .unexpectedResponse 401]
    d.deletions es = 1 ∧ secretOf (d.run es).config = some (.ofString "new") ∧
      (d.run es).enrolls.length = 1 := by
  decide +kernel

/-! ### The plugin's copy -/

/-- As long as nobody else edits the file, the plugin's copy of the secret is the file's. -/
theorem clientSecret_run (adapter : Adapter) (env : Env) (config : ConfigFile)
    (es : List DialEvent) (h : ∀ e ∈ es, e.edits = false) :
    ((create adapter env config).run es).clientSecret =
      secretOf ((create adapter env config).run es).config := by
  have hstep : ∀ d : Dialer, ∀ e : DialEvent, e.edits = false →
      d.clientSecret = secretOf d.config →
        (d.step e).clientSecret = secretOf (d.step e).config := by
    intro d e he hd
    have hrecover : d.recover.clientSecret = secretOf d.recover.config := by
      rw [recover_eq]
      split
      · exact (secretOf_persistSecret d.config none (by simp)).symm
      · exact hd
    cases e with
    | connect => exact hd
    | opened => exact hd
    | closed => exact hd
    | environment env => exact hd
    | edited config => cases he
    | unexpectedResponse code =>
      simp only [step, onUnexpectedResponse]
      cases d.adapter with
      | mcpBridge =>
        simp only
        split
        · exact hrecover
        · exact hd
      | dshPlugin =>
        simp only
        split
        · exact hrecover
        · exact hd
    | welcome =>
      simp only [step, onWelcome, postEnroll]
      split
      · split
        · exact hd
        · split
          · exact hd
          · exact hd
      · exact hd
    | enrolled secret =>
      simp only [step, onEnrolled]
      split
      · exact hd
      next hcond =>
        refine (secretOf_persistSecret d.config (some secret) ?_).symm
        intro hempty
        apply hcond
        simp [Option.some.inj hempty]
  have hrun : ∀ (es : List DialEvent) (d : Dialer), (∀ e ∈ es, e.edits = false) →
      d.clientSecret = secretOf d.config →
        (d.run es).clientSecret = secretOf (d.run es).config := by
    intro es
    induction es with
    | nil => exact fun _ _ hd => hd
    | cons e es ih =>
      intro d hes hd
      exact ih (d.step e) (fun e' he' => hes e' (List.mem_cons_of_mem _ he'))
        (hstep d e (hes e List.mem_cons_self) hd)
  exact hrun es _ h rfl

/-! ### The bridge's client -/

/-- The dialler is where the client is. -/
structure Mirrors (s : BridgeClient) (d : Dialer) : Prop where
  adapter : d.adapter = .mcpBridge
  env : d.env = s.env
  secret : secretOf d.config =
    (optStr (Dap.readDapConfig s.config).clientSecret).map JsString.ofString
  pending : d.enrollPending = s.enrollPending
  source : d.dialSource = s.dialSource
  latch : d.reEnrolled = s.reEnrolled

variable {s : BridgeClient}

theorem Mirrors.dialAuth (h : Mirrors s d) : d.dialAuth =
    (resolveAuthToken s.env s.config).map fun a => ⟨.ofString a.token, a.enroll, a.source⟩ := by
  unfold Dialer.dialAuth resolveAuthToken persisted
  simp only [h.adapter, h.env, h.secret]
  cases optStr s.env.clientSecret with
  | some token => rfl
  | none =>
    cases optStr (Dap.readDapConfig s.config).clientSecret with
    | some token => rfl
    | none =>
      cases optStr s.env.masterSecret with
      | some token => rfl
      | none => rfl

theorem Mirrors.connect (h : Mirrors s d) (hrunning : s.stopped = false) :
    Mirrors s.connect (d.step .connect) := by
  have hauth := h.dialAuth
  unfold BridgeClient.connect
  rw [if_neg (by simp [hrunning])]
  refine ⟨h.adapter, h.env, h.secret, ?_, ?_, h.latch⟩
  · change d.dialAuth.any DialAuth.enroll = _
    rw [hauth]
    cases resolveAuthToken s.env s.config with
    | none => rfl
    | some a => rfl
  · change d.dialAuth.map DialAuth.source = _
    rw [hauth]
    cases resolveAuthToken s.env s.config with
    | none => rfl
    | some a => rfl

/-- Closing a socket is no business of the dialler's. -/
theorem Mirrors.closeSocket (h : Mirrors s d) (o : Option ℕ) :
    Mirrors (o.elim s s.closeSocket) d := by
  cases o with
  | none => exact h
  | some i =>
    change Mirrors (s.closeSocket i) d
    unfold BridgeClient.closeSocket
    split
    · exact h
    · exact ⟨h.adapter, h.env, h.secret, h.pending, h.source, h.latch⟩

theorem Mirrors.recover (h : Mirrors s d) :
    Mirrors
      (if s.dialSource = some .config && !s.reEnrolled && (optStr s.env.masterSecret).isSome then
        { s with
          reEnrolled := true
          config := some (persistDapConfig s.config { clientSecret := some none }) }
      else s) d.recover := by
  unfold Dialer.recover
  rw [h.source, h.latch, h.env]
  by_cases hcond : (decide (s.dialSource = some .config) && !s.reEnrolled &&
      (optStr s.env.masterSecret).isSome) = true
  · rw [if_pos hcond, if_pos hcond]
    refine ⟨h.adapter, rfl, ?_, h.pending, rfl, rfl⟩
    exact secretOf_persistSecret d.config none (by simp)
  · rw [if_neg hcond, if_neg hcond]
    exact h

theorem Mirrors.onUnexpectedResponse (h : Mirrors s d) (code : ℕ) :
    Mirrors (s.onUnexpectedResponse code) (d.step (.unexpectedResponse code)) := by
  have hmoves : ∀ {t : BridgeClient} {d' : Dialer}, Mirrors t d' → Mirrors t (d'.moves .closing) :=
    fun h => ⟨h.adapter, h.env, h.secret, h.pending, h.source, h.latch⟩
  simp only [step, Dialer.onUnexpectedResponse, h.adapter]
  apply hmoves
  unfold BridgeClient.onUnexpectedResponse
  dsimp only
  apply Mirrors.closeSocket
  split
  · apply Mirrors.recover
    exact ⟨h.adapter, h.env, h.secret, h.pending, h.source, h.latch⟩
  · exact ⟨h.adapter, h.env, h.secret, h.pending, h.source, h.latch⟩

theorem Mirrors.onEnrolled (h : Mirrors s d) (secret : String) :
    Mirrors (s.onEnrolled secret) (d.step (.enrolled (.ofString secret))) := by
  have hempty : JsString.ofString secret = [] ↔ secret = "" :=
    ⟨fun heq => JsString.ofString_injective heq, fun heq => heq ▸ rfl⟩
  simp only [step, Dialer.onEnrolled, h.adapter, h.pending, hempty, decide_true, Bool.true_and]
  unfold BridgeClient.onEnrolled
  by_cases hskip : (!s.enrollPending || decide (secret = "")) = true
  · rw [if_pos hskip, if_pos hskip]
    exact h
  · rw [if_neg hskip, if_neg hskip]
    have hne : secret ≠ "" := by
      intro heq
      apply hskip
      simp [heq]
    refine ⟨rfl, h.env, ?_, rfl, h.source, h.latch⟩
    have hsaved : optStr (Dap.readDapConfig (some (persistDapConfig s.config
        { clientSecret := some (some secret) }))).clientSecret = some secret := by
      simp [persistDapConfig, Dap.readDapConfig, optStr, hne]
    have hkept := secretOf_persistSecret d.config (some (.ofString secret))
      (fun heq => hne (hempty.mp (Option.some.inj heq)))
    exact hkept.trans (congrArg (Option.map JsString.ofString) hsaved).symm

end Dialer

end Recovery

end Dap
