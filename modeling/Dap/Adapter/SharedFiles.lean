import Dap.Lib.GoMap
import Dap.Lib.SharedFile

/-! The channels file and the config file, which every adapter process on a machine reads and
rewrites (`adapters/mcp-bridge/src/channels.ts`, `config.ts`; `dsh-plugin` does the same). -/
namespace Dap

/-- A TypeScript `Record<string, V>`. Nothing here reads the order of its members. -/
abbrev Record (V : Type) := GoMap V

/-- `record[name] = value`: that name is the accessor of the prototype, and sets no member. -/
def Record.assign {V : Type} (record : Record V) (name : String) (value : V) : Record V :=
  if name = "__proto__" then record else record.insert name value

/-! ### The channels file -/

structure ChannelKeys where
  pub : String
  priv : String
  deriving DecidableEq

/-- `Partial<ChannelKeys>` as the file has it: `none` for whatever is no string. -/
structure StoredKeys where
  pub : Option String
  priv : Option String

def keepEntry (out : Record ChannelKeys) (entry : String × StoredKeys) : Record ChannelKeys :=
  match entry.2.pub, entry.2.priv with
  | some pub, some priv => Record.assign out entry.1 ⟨pub, priv⟩
  | _, _ => out

def loadChannelKeys : Option (Record StoredKeys) → Record ChannelKeys
  | some raw => raw.toList.foldl keepEntry ∅
  | none => ∅

/-- What `persistChannelKeys` writes, given what the file had. -/
def persistChannelKeys (file : Option (Record StoredKeys)) (call : String × ChannelKeys) :
    Record StoredKeys :=
  (Record.assign (loadChannelKeys file) call.1 call.2).map fun _ keys =>
    ⟨some keys.pub, some keys.priv⟩

/-! ### The config file -/

structure PendingInvite where
  name : String
  channel : String
  deriving DecidableEq

structure DapFileConfig where
  url : Option String := none
  name : Option String := none
  keyPath : Option String := none
  channelsFile : Option String := none
  channels : Option (List String) := none
  invites : Option (List PendingInvite) := none
  clientSecret : Option String := none

def optStr (v : Option String) : Option String := v.filter (· ≠ "")

def readDapConfig : Option DapFileConfig → DapFileConfig
  | some cfg => { cfg with invites := some (cfg.invites.getD []) }
  | none => { invites := some [] }

/-- `some none` is the `null` that purges the secret. -/
structure ConfigUpdate where
  url : Option String := none
  name : Option String := none
  channels : Option (List String) := none
  invites : Option (List PendingInvite) := none
  clientSecret : Option (Option String) := none

/-- What `persistDapConfig` writes, given what the file had. -/
def persistDapConfig (file : Option DapFileConfig) (update : ConfigUpdate) : DapFileConfig :=
  let cur := readDapConfig file
  { cur with
    url := optStr update.url <|> cur.url
    name := optStr update.name <|> cur.name
    channels :=
      match update.channels with
      | some (ch :: chs) => some (cur.channels.getD [] ++ ch :: chs).eraseDups
      | _ => cur.channels
    invites := update.invites <|> cur.invites
    clientSecret :=
      match update.clientSecret with
      | some none => none
      | some secret => optStr secret <|> cur.clientSecret
      | none => cur.clientSecret }

/-- The callers: `armInvite` after its push, the delivery pass after its splice, `dap_connect`, and
`onEnrolled` and the 401 recovery. -/
inductive ConfigCall where
  | arm (before : List PendingInvite) (invite : PendingInvite)
  | deliver (rest : List PendingInvite) (invite : PendingInvite)
  | connect (url name channel : Option String)
  | secret (clientSecret : Option String)

def ConfigCall.update : ConfigCall → ConfigUpdate
  | arm before invite => { invites := some (before ++ [invite]) }
  | deliver rest _ => { invites := some rest }
  | connect url name channel => { url, name, channels := (optStr channel).map fun ch => [ch] }
  | secret clientSecret => { clientSecret := some clientSecret }

def writeConfig (file : Option DapFileConfig) (call : ConfigCall) : DapFileConfig :=
  persistDapConfig file call.update

/-! ### The processes -/

open SharedFile (Event)

/-- `memory` is each process's `pendingInvites`. `persisted` lists the finished `persistChannelKeys`
calls, newest first; `armed` the invites armed by a finished call and not delivered since. -/
structure Adapters (ι : Type) where
  channels : SharedFile ι (String × ChannelKeys) (Record StoredKeys)
  config : SharedFile ι ConfigCall DapFileConfig
  memory : ι → List PendingInvite := fun _ => []
  persisted : List (String × ChannelKeys) := []
  armed : List PendingInvite := []

namespace Adapters

inductive Action (ι : Type) where
  | start (p : ι)
  | keys (p : ι) (e : Event (String × ChannelKeys))
  | config (p : ι) (e : Event ConfigCall)

/-- `armInvite` arms nothing that is pending already, names compared by `lower`. -/
def Callable (lower : String → String) (pendingInvites : List PendingInvite) : ConfigCall → Prop
  | .arm before invite => pendingInvites = before ∧
      ∀ p ∈ pendingInvites, ¬(lower p.name = lower invite.name ∧ p.channel = invite.channel)
  | .deliver rest invite =>
      ∃ before after, pendingInvites = before ++ invite :: after ∧ rest = before ++ after
  | _ => True

def persistedAfter (persisted : List (String × ChannelKeys)) :
    Event (String × ChannelKeys) → List (String × ChannelKeys)
  | .written call => call :: persisted
  | _ => persisted

def armedAfter (armed : List PendingInvite) : Event ConfigCall → List PendingInvite
  | .called (.deliver _ invite) => armed.filter (· ≠ invite)
  | .written (.arm _ invite) => invite :: armed
  | _ => armed

def memoryAfter (pendingInvites : List PendingInvite) : Event ConfigCall → List PendingInvite
  | .called call => call.update.invites.getD pendingInvites
  | _ => pendingInvites

variable {ι : Type} [DecidableEq ι] (lower : String → String)

/-- A process starts by loading the pending invites; then the steps of its calls follow. -/
inductive Step : Adapters ι → Action ι → Adapters ι → Prop where
  | start {s} (p : ι) (h : s.config.phase p = .idle) :
      Step s (.start p) { s with
        memory := Function.update s.memory p ((readDapConfig s.config.content).invites.getD []) }
  | keys {s p e f} (h : SharedFile.Step persistChannelKeys s.channels p e f) :
      Step s (.keys p e) { s with channels := f, persisted := persistedAfter s.persisted e }
  | config {s p e f} (h : SharedFile.Step writeConfig s.config p e f)
      (hcall : ∀ call, e = .called call → Callable lower (s.memory p) call) :
      Step s (.config p e) { s with
        config := f
        memory := Function.update s.memory p (memoryAfter (s.memory p) e)
        armed := armedAfter s.armed e }

/-- From any two files, with no call made yet; `ok` says which actions are taken where. -/
inductive Run (ok : Adapters ι → Action ι → Prop) : Adapters ι → Prop where
  | boot (channels config) :
      Run ok { channels := { content := channels }, config := { content := config } }
  | step {s s' a} (hr : Run ok s) (hok : ok s a) (hs : Step lower s a s') : Run ok s'

/-- Calls on one file are kept apart, no channel is named `__proto__`, and whoever writes the list
of invites has every armed one in memory. -/
def Careful (s : Adapters ι) : Action ι → Prop
  | .start _ => True
  | .keys p e => s.channels.Apart p e ∧ ∀ call, e = .read call → call.1 ≠ "__proto__"
  | .config p e => s.config.Apart p e ∧
      ∀ call invites, e = .read call → call.update.invites = some invites →
        ∀ invite ∈ s.armed, invite ∈ invites

def Finished (s : Adapters ι) : Prop := s.channels.Idle ∧ s.config.Idle

/-- Every keypair persisted and not overwritten, and every armed invite, is in its file. -/
def Kept (s : Adapters ι) : Prop :=
  (∀ name keys, s.persisted.lookup name = some keys →
    (loadChannelKeys s.channels.content)[name]? = some keys) ∧
  ∀ invite ∈ s.armed, invite ∈ (readDapConfig s.config.content).invites.getD []

end Adapters

/-! ### What one call keeps -/

theorem Record.getElem?_assign_self {V : Type} (record : Record V) {name : String} (value : V)
    (h : name ≠ "__proto__") : (record.assign name value)[name]? = some value := by
  rw [Record.assign, if_neg h, GoMap.getElem?_insert_ite, if_pos rfl]

theorem Record.getElem?_assign_of_ne {V : Type} (record : Record V) {name name' : String}
    (value : V) (h : name ≠ name') : (record.assign name value)[name']? = record[name']? := by
  unfold Record.assign
  split
  · rfl
  · rw [GoMap.getElem?_insert_ite, if_neg h]

theorem keepEntry_of_ne (out : Record ChannelKeys) {entry : String × StoredKeys} {name : String}
    (h : entry.1 ≠ name) : (keepEntry out entry)[name]? = out[name]? := by
  unfold keepEntry
  split
  · exact Record.getElem?_assign_of_ne _ _ h
  · rfl

theorem foldl_keepEntry_of_notMem {l : List (String × StoredKeys)} {name : String}
    (h : ∀ entry ∈ l, entry.1 ≠ name) (out : Record ChannelKeys) :
    (l.foldl keepEntry out)[name]? = out[name]? := by
  induction l generalizing out with
  | nil => rfl
  | cons entry l ih =>
    rw [List.foldl_cons, ih fun e he => h e (List.mem_cons_of_mem _ he)]
    exact keepEntry_of_ne out (h entry List.mem_cons_self)

theorem foldl_keepEntry_of_mem {l : List (String × StoredKeys)} {name pub priv : String}
    (hname : name ≠ "__proto__") (hl : l.Pairwise fun a b => a.1 ≠ b.1)
    (hmem : (name, ⟨some pub, some priv⟩) ∈ l) (out : Record ChannelKeys) :
    (l.foldl keepEntry out)[name]? = some ⟨pub, priv⟩ := by
  induction l generalizing out with
  | nil => simp at hmem
  | cons entry l ih =>
    obtain ⟨hhead, htail⟩ := List.pairwise_cons.mp hl
    rw [List.foldl_cons]
    rcases List.mem_cons.mp hmem with rfl | hmem
    · rw [foldl_keepEntry_of_notMem fun e he => (hhead e he).symm]
      exact Record.getElem?_assign_self _ _ hname
    · exact ih htail hmem _

/-- A file that `persistChannelKeys` has written reads back as the record it was written from. -/
theorem loadChannelKeys_persistChannelKeys (file : Option (Record StoredKeys))
    (call : String × ChannelKeys) {name : String} {keys : ChannelKeys} (hname : name ≠ "__proto__")
    (h : ((loadChannelKeys file).assign call.1 call.2)[name]? = some keys) :
    (loadChannelKeys (some (persistChannelKeys file call)))[name]? = some keys := by
  apply foldl_keepEntry_of_mem hname (GoMap.keys_pairwise_ne _)
  rw [GoMap.mem_toList, persistChannelKeys, Std.ExtTreeMap.getElem?_map, h]
  rfl

theorem invites_readDapConfig (cfg : DapFileConfig) :
    (readDapConfig (some cfg)).invites.getD [] = cfg.invites.getD [] := rfl

/-- The list of invites is the one the call gives, or what the file had. -/
theorem invites_writeConfig (file : Option DapFileConfig) (call : ConfigCall) :
    (readDapConfig (some (writeConfig file call))).invites.getD [] =
      call.update.invites.getD ((readDapConfig file).invites.getD []) := by
  rw [invites_readDapConfig]
  simp only [writeConfig, persistDapConfig]
  cases call.update.invites <;> rfl

/-! ### What a run keeps -/

namespace Adapters

variable {ι : Type} [DecidableEq ι] {lower : String → String} {s s' : Adapters ι} {a : Action ι}

/-- The call writes a list of invites only if the armed ones are on it. -/
def Lists (armed : List PendingInvite) (call : ConfigCall) : Prop :=
  ∀ invites, call.update.invites = some invites → ∀ invite ∈ armed, invite ∈ invites

/-- `channels` and `config` are what the finished calls alone would have left in the files. -/
structure Consistent (s : Adapters ι) (channels : Option (Record StoredKeys))
    (config : Option DapFileConfig) : Prop where
  channelsSettled : s.channels.Settled persistChannelKeys channels
  named : ∀ p call, (s.channels.phase p).middle = some call → call.1 ≠ "__proto__"
  persisted : ∀ name keys, s.persisted.lookup name = some keys →
    name ≠ "__proto__" ∧ (loadChannelKeys channels)[name]? = some keys
  configSettled : s.config.Settled writeConfig config
  listed : ∀ p call, (s.config.phase p).middle = some call → Lists s.armed call
  armed : ∀ invite ∈ s.armed, invite ∈ (readDapConfig config).invites.getD []

omit [DecidableEq ι] in
theorem Consistent.kept {channels : Option (Record StoredKeys)} {config : Option DapFileConfig}
    (h : s.Consistent channels config) (hf : s.Finished) : s.Kept := by
  unfold Kept
  rw [h.channelsSettled.idle_content hf.1, h.configSettled.idle_content hf.2]
  exact ⟨fun name keys hk => (h.persisted name keys hk).2, h.armed⟩

theorem persisted_written {persisted : List (String × ChannelKeys)} {call : String × ChannelKeys}
    {file : Option (Record StoredKeys)} (hname : call.1 ≠ "__proto__")
    (h : ∀ name keys, persisted.lookup name = some keys →
      name ≠ "__proto__" ∧ (loadChannelKeys file)[name]? = some keys) :
    ∀ name keys, (call :: persisted).lookup name = some keys → name ≠ "__proto__" ∧
      (loadChannelKeys (some (persistChannelKeys file call)))[name]? = some keys := by
  intro name keys hk
  rw [List.lookup_cons] at hk
  by_cases heq : name = call.1
  · subst heq
    rw [beq_self_eq_true] at hk
    obtain rfl := Option.some.inj hk
    exact ⟨hname, loadChannelKeys_persistChannelKeys _ _ hname
      (Record.getElem?_assign_self _ _ hname)⟩
  · rw [beq_eq_false_iff_ne.mpr heq] at hk
    obtain ⟨hproto, hold⟩ := h name keys hk
    apply And.intro hproto
    apply loadChannelKeys_persistChannelKeys _ _ hproto
    rw [Record.getElem?_assign_of_ne _ _ (Ne.symm heq), hold]

theorem mem_armedAfter_called {armed : List PendingInvite} {call : ConfigCall}
    {invite : PendingInvite} (h : invite ∈ armedAfter armed (.called call)) : invite ∈ armed := by
  cases call with
  | deliver rest delivered => exact List.mem_of_mem_filter h
  | arm before armed | connect url name channel | secret clientSecret => exact h

/-- A call that has the armed invites on its list leaves them, and the one it arms, in the file. -/
theorem armed_written {armed : List PendingInvite} {call : ConfigCall} {file : Option DapFileConfig}
    (hl : Lists armed call) (ha : ∀ invite ∈ armed, invite ∈ (readDapConfig file).invites.getD []) :
    Lists (armedAfter armed (.written call)) call ∧
      ∀ invite ∈ armedAfter armed (.written call),
        invite ∈ (readDapConfig (some (writeConfig file call))).invites.getD [] := by
  have hlists : Lists (armedAfter armed (.written call)) call := by
    cases call with
    | arm before armedNow =>
      intro invites hi invite hmem
      obtain rfl := Option.some.inj hi
      rcases List.mem_cons.mp hmem with rfl | hmem
      · simp
      · exact hl _ rfl _ hmem
    | deliver rest delivered | connect url name channel | secret clientSecret => exact hl
  refine ⟨hlists, fun invite hmem => ?_⟩
  rw [invites_writeConfig]
  cases hi : call.update.invites with
  | some invites => exact hlists invites hi invite hmem
  | none =>
    cases call with
    | arm before armedNow | deliver rest delivered => cases hi
    | connect url name channel | secret clientSecret => exact ha invite hmem

theorem Step.consistent {channels : Option (Record StoredKeys)} {config : Option DapFileConfig}
    (hs : Step lower s a s') (h : s.Consistent channels config) (hcare : s.Careful a) :
    ∃ channels' config', s'.Consistent channels' config' := by
  cases hs with
  | start p hp => exact ⟨channels, config, ⟨h.1, h.2, h.3, h.4, h.5, h.6⟩⟩
  | @keys p e f hs =>
    obtain ⟨hapart, hproto⟩ := hcare
    refine ⟨SharedFile.advance persistChannelKeys channels e, config,
      ⟨hs.settled h.channelsSettled hapart, hs.middle h.named hproto, ?_, h.4, h.5, h.6⟩⟩
    cases e with
    | called call | read call | truncated => exact h.persisted
    | written call => exact persisted_written (h.named p call hs.written_middle) h.persisted
  | @config p e f hs hcall =>
    obtain ⟨hapart, hlists⟩ := hcare
    have hsettled := hs.settled h.configSettled hapart
    cases e with
    | called call =>
      have hlisted : ∀ q u, (f.phase q).middle = some u →
          Lists (armedAfter s.armed (.called call)) u := by
        refine hs.middle (fun q u hq invites hi invite hmem => ?_) fun u hu => by cases hu
        exact h.listed q u hq invites hi invite (mem_armedAfter_called hmem)
      exact ⟨channels, config, ⟨h.1, h.2, h.3, hsettled, hlisted,
        fun invite hmem => h.armed invite (mem_armedAfter_called hmem)⟩⟩
    | read call =>
      have hlisted := hs.middle h.listed fun u hu invites => hlists u invites hu
      exact ⟨channels, config, ⟨h.1, h.2, h.3, hsettled, hlisted, h.armed⟩⟩
    | truncated =>
      have hlisted := hs.middle h.listed fun u hu => by cases hu
      exact ⟨channels, config, ⟨h.1, h.2, h.3, hsettled, hlisted, h.armed⟩⟩
    | written call =>
      have hmiddle := hs.written_middle
      obtain ⟨hlist, harmed⟩ := armed_written (h.listed p call hmiddle) h.armed
      have hlisted : ∀ q u, (f.phase q).middle = some u →
          Lists (armedAfter s.armed (.written call)) u := by
        refine hs.middle (fun q u hq => ?_) fun u hu => by cases hu
        by_cases hne : q = p
        · subst hne
          rw [hmiddle] at hq
          obtain rfl := Option.some.inj hq
          exact hlist
        · rw [h.configSettled.middle_eq_none hmiddle hne] at hq
          cases hq
      exact ⟨channels, _, ⟨h.1, h.2, h.3, hsettled, hlisted, harmed⟩⟩

theorem Run.consistent (hr : Run lower Careful s) :
    ∃ channels config, s.Consistent channels config := by
  induction hr with
  | boot channels config =>
    exact ⟨channels, config, {
      channelsSettled := .whole rfl fun _ => trivial
      named := fun p call hp => by cases hp
      persisted := fun name keys hk => by cases hk
      configSettled := .whole rfl fun _ => trivial
      listed := fun p call hp => by cases hp
      armed := fun invite hmem => by cases hmem }⟩
  | step hr hok hs ih =>
    obtain ⟨channels, config, h⟩ := ih
    exact hs.consistent h hok

/-- When calls on one file are kept apart, no channel is named `__proto__` and whoever writes the
invites has the armed ones in memory, nothing that was persisted or armed is lost. -/
theorem shared_files_kept (hr : Run lower Careful s) (hf : s.Finished) : s.Kept := by
  obtain ⟨channels, config, h⟩ := hr.consistent
  exact h.kept hf

theorem shared_files_kept_sample : ∃ s : Adapters Bool, s.Kept ∧
    s.persisted = [("general", ⟨"P", "S"⟩)] ∧
    s.armed = [⟨"dave", "general"⟩, ⟨"carol", "general"⟩] := by
  have next : ∀ {s s' : Adapters Bool} {a : Action Bool}, Run id (fun s => s.Careful) s →
      Step id s a s' → s.Careful a → Run id (fun s => s.Careful) s' :=
    fun hr hs hok => .step hr hok hs
  have h0 : Run id (fun s : Adapters Bool => s.Careful) _ := .boot none none
  have h1 := next h0 (.keys (.called ("general", ⟨"P", "S"⟩) rfl) : Step id _ (.keys false _) _)
    ⟨trivial, fun _ h => by cases h⟩
  have h2 := next h1 (.keys (.read rfl) : Step id _ (.keys false _) _)
    ⟨fun q _ => by cases q <;> trivial, by rintro _ ⟨⟩; decide⟩
  have h3 := next h2 (.keys (.truncated false rfl (by decide)) : Step id _ (.keys false _) _)
    ⟨trivial, fun _ h => by cases h⟩
  have h4 := next h3 (.keys (.written rfl) : Step id _ (.keys false _) _)
    ⟨trivial, fun _ h => by cases h⟩
  have h5 := next h4 (.config (.called (.arm [] ⟨"carol", "general"⟩) rfl)
      (by rintro _ ⟨⟩; exact ⟨rfl, by simp⟩) : Step id _ (.config false _) _)
    ⟨trivial, fun _ _ h => by cases h⟩
  have h6 := next h5 (.config (.read rfl) (fun _ h => by cases h) : Step id _ (.config false _) _)
    ⟨fun q _ => by cases q <;> trivial, by rintro _ _ ⟨⟩ ⟨⟩; decide⟩
  have h7 := next h6 (.config (.truncated false rfl (by decide)) (fun _ h => by cases h) :
      Step id _ (.config false _) _)
    ⟨trivial, fun _ _ h => by cases h⟩
  have h8 := next h7 (.config (.written rfl) (fun _ h => by cases h) :
      Step id _ (.config false _) _)
    ⟨trivial, fun _ _ h => by cases h⟩
  have h9 := next h8 (.start true rfl) trivial
  have h10 := next h9
    (.config (.called (.arm [⟨"carol", "general"⟩] ⟨"dave", "general"⟩) rfl)
      (by rintro _ ⟨⟩; exact ⟨rfl, by decide⟩) : Step id _ (.config true _) _)
    ⟨trivial, fun _ _ h => by cases h⟩
  have h11 := next h10 (.config (.read rfl) (fun _ h => by cases h) : Step id _ (.config true _) _)
    ⟨fun q _ => by cases q <;> trivial, by rintro _ _ ⟨⟩ ⟨⟩; decide⟩
  have h12 := next h11 (.config (.truncated false rfl (by decide)) (fun _ h => by cases h) :
      Step id _ (.config true _) _)
    ⟨trivial, fun _ _ h => by cases h⟩
  have h13 := next h12 (.config (.written rfl) (fun _ h => by cases h) :
      Step id _ (.config true _) _)
    ⟨trivial, fun _ _ h => by cases h⟩
  exact ⟨_, shared_files_kept h13 ⟨fun p => by cases p <;> rfl, fun p => by cases p <;> rfl⟩,
    rfl, rfl⟩

/-- Two calls read before either writes; two processes arm an invite one after the other; a channel
is named `__proto__`. -/
theorem shared_updates_lost :
    (∃ s : Adapters Bool, Run id (fun _ _ => True) s ∧ s.Finished ∧
      s.persisted.lookup "general" = some ⟨"P", "S"⟩ ∧
      (loadChannelKeys s.channels.content)["general"]? = none) ∧
    (∃ s : Adapters Bool, Run id (fun _ _ => True) s ∧ s.Finished ∧
      ⟨"carol", "general"⟩ ∈ s.armed ∧
      ⟨"carol", "general"⟩ ∉ (readDapConfig s.config.content).invites.getD []) ∧
    ∃ s : Adapters Bool, Run id (fun _ _ => True) s ∧ s.Finished ∧
      s.persisted.lookup "__proto__" = some ⟨"P", "S"⟩ ∧
      (loadChannelKeys s.channels.content)["__proto__"]? = none := by
  have boot : Run id (fun (_ : Adapters Bool) _ => True) _ := .boot none none
  refine ⟨?_, ?_, ?_⟩
  · have h1 := boot.step trivial
      (.keys (.called ("general", ⟨"P", "S"⟩) rfl) : Step id _ (.keys false _) _)
    have h2 := h1.step trivial
      (.keys (.called ("random", ⟨"Q", "T"⟩) rfl) : Step id _ (.keys true _) _)
    have h3 := h2.step trivial (.keys (.read rfl) : Step id _ (.keys false _) _)
    have h4 := h3.step trivial (.keys (.read rfl) : Step id _ (.keys true _) _)
    have h5 := h4.step trivial
      (.keys (.truncated false rfl (by decide)) : Step id _ (.keys false _) _)
    have h6 := h5.step trivial (.keys (.written rfl) : Step id _ (.keys false _) _)
    have h7 := h6.step trivial
      (.keys (.truncated false rfl (by decide)) : Step id _ (.keys true _) _)
    have h8 := h7.step trivial (.keys (.written rfl) : Step id _ (.keys true _) _)
    exact ⟨_, h8, ⟨fun p => by cases p <;> rfl, fun p => rfl⟩, rfl, by decide +kernel⟩
  · have h1 := boot.step trivial
      (.config (.called (.arm [] ⟨"carol", "general"⟩) rfl)
        (by rintro _ ⟨⟩; exact ⟨rfl, by simp⟩) : Step id _ (.config false _) _)
    have h2 := h1.step trivial
      (.config (.read rfl) (fun _ h => by cases h) : Step id _ (.config false _) _)
    have h3 := h2.step trivial (.config (.truncated false rfl (by decide))
      (fun _ h => by cases h) : Step id _ (.config false _) _)
    have h4 := h3.step trivial
      (.config (.written rfl) (fun _ h => by cases h) : Step id _ (.config false _) _)
    have h5 := h4.step trivial
      (.config (.called (.arm [] ⟨"dave", "general"⟩) rfl)
        (by rintro _ ⟨⟩; exact ⟨rfl, by simp⟩) : Step id _ (.config true _) _)
    have h6 := h5.step trivial
      (.config (.read rfl) (fun _ h => by cases h) : Step id _ (.config true _) _)
    have h7 := h6.step trivial (.config (.truncated false rfl (by decide))
      (fun _ h => by cases h) : Step id _ (.config true _) _)
    have h8 := h7.step trivial
      (.config (.written rfl) (fun _ h => by cases h) : Step id _ (.config true _) _)
    refine ⟨_, h8, ⟨fun p => rfl, fun p => by cases p <;> rfl⟩, ?_, ?_⟩
    · exact List.mem_cons_of_mem _ List.mem_cons_self
    · change _ ∉ [(⟨"dave", "general"⟩ : PendingInvite)]
      decide
  · have h1 := boot.step trivial
      (.keys (.called ("__proto__", ⟨"P", "S"⟩) rfl) : Step id _ (.keys false _) _)
    have h2 := h1.step trivial (.keys (.read rfl) : Step id _ (.keys false _) _)
    have h3 := h2.step trivial
      (.keys (.truncated false rfl (by decide)) : Step id _ (.keys false _) _)
    have h4 := h3.step trivial (.keys (.written rfl) : Step id _ (.keys false _) _)
    exact ⟨_, h4, ⟨fun p => by cases p <;> rfl, fun p => rfl⟩, rfl, by decide +kernel⟩

end Adapters

end Dap
