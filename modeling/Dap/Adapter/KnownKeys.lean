import Dap.Adapter.PluginRuns
import Dap.Adapter.RefusedChannels

/-! What local operations of either adapter do to the keys of known channels
(`adapters/dsh-plugin/src/client.ts`, `adapters/mcp-bridge/src/client.ts`). -/
namespace Dap
namespace Plugin

variable {s t : Plugin} {name channel : String}

def keyStore (s : Plugin) : KeyStore := ⟨s.channels, s.channelsFile⟩

theorem keyStore_createChannel (s : Plugin) (channel : String) :
    (s.createChannel channel).1.keyStore = s.keyStore.learn channel (s.newKeypair s.created) := rfl

theorem ensureChannel_keeps (s : Plugin) (channel : String) :
    s.keyStore.Keeps name (s.ensureChannel channel).1.keyStore := by
  unfold ensureChannel
  split
  · exact .refl _
  next hnone =>
    rw [keyStore_createChannel]
    exact (KeyStore.Provisions.creates channel _ hnone).keeps

/-- A channel that is known is known with its private key. -/
def HoldsKey (s : Plugin) (channel : String) : Prop :=
  ∀ ch, s.channels.get channel = some ch → (optStr ch.priv).isSome = true

theorem inviteKeys_keeps (h : channel = name → s.HoldsKey channel) :
    s.keyStore.Keeps name (s.inviteKeys channel).1.keyStore := by
  by_cases hname : channel = name
  · have hholds := h hname
    unfold inviteKeys
    split
    next name' pub priv hch =>
      have hpriv := hholds _ hch
      split
      next hempty =>
        subst hempty
        nomatch hpriv
      next => exact .refl _
    next hnone =>
      rw [keyStore_createChannel]
      apply KeyStore.Provisions.keeps
      apply KeyStore.Provisions.creates
      cases hch : s.channels.get channel with
      | none => exact hch
      | some ch =>
        obtain ⟨name', pub, priv⟩ := ch
        cases priv with
        | none => nomatch hholds _ hch
        | some priv => exact absurd hch (hnone name' pub priv)
  · have hcreate : s.keyStore.Keeps name (s.createChannel channel).1.keyStore :=
      KeyStore.keeps_learn s.keyStore _ hname
    unfold inviteKeys
    split
    · split
      · exact hcreate
      · exact .refl _
    · exact hcreate

@[simp] theorem keyStore_inviteFailed (s : Plugin) (msg : String) (w : InviteFor) :
    (s.inviteFailed msg w).keyStore = s.keyStore := by
  cases w <;> rfl

@[simp] theorem keyStore_inviteSent (s : Plugin) (id : String) (w : InviteFor) :
    (s.inviteSent id w).keyStore = s.keyStore := by
  cases w <;> rfl

@[simp] theorem keyStore_dmFailed (s : Plugin) (msg : String) (w : PluginDmFor) :
    (s.dmFailed msg w).keyStore = s.keyStore := by
  cases w with
  | caller op => rfl
  | invite channel w => exact keyStore_inviteFailed _ _ _

@[simp] theorem keyStore_dmSent (s : Plugin) (id : String) (w : PluginDmFor) :
    (s.dmSent id w).keyStore = s.keyStore := by
  cases w with
  | caller op => rfl
  | invite channel w => exact keyStore_inviteSent _ _ _

@[simp] theorem keyStore_dm (s : Plugin) (recipient text : String) (w : PluginDmFor) :
    (s.dm recipient text w).keyStore = s.keyStore := by
  unfold dm
  split
  · exact keyStore_dmFailed _ _ _
  · split <;> rfl

@[simp] theorem keyStore_dmInfo (s : Plugin) (recipient text : String) (info : PeerInfo)
    (w : PluginDmFor) : (s.dmInfo recipient text info w).keyStore = s.keyStore := by
  unfold dmInfo
  split
  · exact keyStore_dmFailed _ _ _
  · rfl

@[simp] theorem keyStore_dmReady (s : Plugin) (recipient text xPub : String) (w : PluginDmFor) :
    (s.dmReady recipient text xPub w).keyStore = s.keyStore := by
  unfold dmReady
  split
  next t id hsend =>
    obtain ⟨client, -, rfl, -⟩ := signAndSend_ok hsend
    exact keyStore_dmSent _ _ _
  next => exact keyStore_dmFailed _ _ _

@[simp] theorem keyStore_sendReady (s : Plugin) (op : ℕ) (channel text : String)
    (ch : ChannelKey) : (s.sendReady op channel text ch).keyStore = s.keyStore := by
  unfold sendReady
  split
  next t id hsend =>
    obtain ⟨client, -, rfl, -⟩ := signAndSend_ok hsend
    rfl
  next => rfl

@[simp] theorem keyStore_pollPending (s : Plugin) : s.pollPending.keyStore = s.keyStore := by
  unfold pollPending
  split <;> rfl

theorem invite_keeps (h : channel = name → s.client.connected = true → s.HoldsKey channel)
    (recipient : String) (w : InviteFor) :
    s.keyStore.Keeps name (s.invite recipient channel w).keyStore := by
  unfold invite
  split
  · rw [keyStore_inviteFailed]
    exact .refl _
  next hup =>
    dsimp only
    rw [keyStore_dm]
    exact inviteKeys_keeps fun hname => h hname (by simpa using hup)

/-! ### Invites -/

/-- The channel a delivery pass invites to next. -/
def passInvites (s : Plugin) (agents : List PresenceAgent) : ℕ → Option String
  | 0 => none
  | i + 1 =>
    match s.pendingInvites[i]? with
    | none => none
    | some p =>
      match s.onlineFor p agents with
      | [_] => some p.channel
      | _ => s.passInvites agents i

/-- The channel a `dap_invite` invites to once it knows who is there. -/
def namedInvites (s : Plugin) (who channel : String) (agents : List PresenceAgent) :
    Option String :=
  match s.matching who agents with
  | [_] => some channel
  | _ => none

/-- The channel a step invites to. -/
def invites (s : Plugin) : PluginOpEvent → Option String
  | .call (.invite _ channel) => some channel
  | .call (.dapInvite who channel) =>
    if isAgentId who then some ((optStr channel).getD "general") else none
  | .flow n _ =>
    match s.flows[n]? with
    | some (.named r _ who channel) =>
      match s.client.settled.lookup r with
      | some (.ok agents) => s.namedInvites who channel agents
      | _ => none
    | some (.deliver r) =>
      match s.client.settled.lookup r with
      | some (.ok agents) => s.passInvites agents s.pendingInvites.length
      | _ => none
    | _ => none
  | .pass n =>
    match s.returns[n]? with
    | some ⟨.ok _, i, agents⟩ => (s.invitedState i).passInvites agents i
    | some ⟨.error _, i, agents⟩ => s.passInvites agents i
    | none => none
  | _ => none

/-- A step brings no key of the channel from outside, and does not invite to the channel when that
is known without its private key. -/
def IsLocal (s : Plugin) (name : String) (e : PluginOpEvent) : Prop :=
  (∀ pub priv, e ≠ .chankey name pub priv) ∧
    (name ∈ s.invites e → s.client.connected = true → s.HoldsKey name)

theorem passInvites_congr (agents : List PresenceAgent)
    (hpending : t.pendingInvites = s.pendingInvites)
    (honline : ∀ p, t.onlineFor p agents = s.onlineFor p agents) (n : ℕ) :
    t.passInvites agents n = s.passInvites agents n := by
  induction n with
  | zero => rfl
  | succ i ih =>
    rw [passInvites, passInvites, hpending]
    simp only [honline, ih]

theorem deliverFrom_keeps {agents : List PresenceAgent} {n : ℕ}
    (h : name ∈ s.passInvites agents n → s.client.connected = true → s.HoldsKey name) :
    s.keyStore.Keeps name (s.deliverFrom agents n).keyStore := by
  induction n with
  | zero => exact .refl _
  | succ i ih =>
    rw [passInvites] at h
    rw [deliverFrom]
    cases hp : s.pendingInvites[i]? with
    | none => exact .refl _
    | some p =>
      simp only [hp] at h ⊢
      cases honline : s.onlineFor p agents with
      | nil =>
        simp only [honline] at h ⊢
        exact ih h
      | cons agent others =>
        cases others with
        | nil =>
          simp only [honline] at h ⊢
          refine invite_keeps (fun hname => ?_) _ _
          subst hname
          exact h rfl
        | cons other others =>
          simp only [honline] at h ⊢
          exact ih h

theorem inviteNamed_keeps {op : ℕ} {who : String} {agents : List PresenceAgent}
    (h : name ∈ s.namedInvites who channel agents → s.client.connected = true →
      s.HoldsKey name) :
    s.keyStore.Keeps name (s.inviteNamed op who channel agents).keyStore := by
  unfold namedInvites at h
  unfold inviteNamed
  split
  next =>
    have hensure : s.keyStore.Keeps name _ := s.ensureChannel_keeps channel
    unfold arm
    cases hchannel : s.ensureChannel channel with
    | mk u threw =>
      rw [hchannel] at hensure
      cases threw with
      | true => exact hensure
      | false =>
        dsimp only
        split
        · exact (keyStore_pollPending u).symm ▸ hensure
        · have hset :
              (u.setPendingInvites (u.pendingInvites ++ [⟨who, channel⟩])).pollPending.keyStore =
            u.keyStore := keyStore_pollPending _
          exact hset.symm ▸ hensure
  next agent hagent =>
    rw [hagent] at h
    refine invite_keeps (fun hname => ?_) _ _
    subst hname
    exact h rfl
  next => exact .refl _

theorem runFlow_keeps {n : ℕ} {a : PluginAnswer} (h : s.IsLocal name (.flow n a)) :
    s.keyStore.Keeps name (s.runFlow n a).keyStore := by
  have hsame : ∀ {t : Plugin}, t.keyStore = s.keyStore → s.keyStore.Keeps name t.keyStore := by
    intro t ht
    rw [ht]
    exact .refl _
  have hinvites := h.2
  unfold invites at hinvites
  unfold runFlow
  cases hn : s.flows[n]? with
  | none => exact .refl _
  | some f =>
    simp only [hn] at hinvites ⊢
    cases f with
    | named r op who channel =>
      unfold resume
      dsimp only at hinvites ⊢
      cases hsettled : s.client.settled.lookup r with
      | none => exact hsame rfl
      | some o =>
        simp only [hsettled] at hinvites
        cases o with
        | error msg => exact hsame rfl
        | ok agents =>
          exact inviteNamed_keeps (s := { s with flows := s.flows.eraseIdx n }) hinvites
    | deliver r =>
      unfold resume
      dsimp only at hinvites ⊢
      cases hsettled : s.client.settled.lookup r with
      | none => exact hsame rfl
      | some o =>
        simp only [hsettled] at hinvites
        cases o with
        | error msg => exact hsame rfl
        | ok agents =>
          have hpass := passInvites_congr (s := s) (t := s.takeFlow n) agents rfl
            (fun _ => rfl) s.pendingInvites.length
          apply deliverFrom_keeps (s := s.takeFlow n)
          exact hpass.symm ▸ hinvites
    | info recipient text cached w =>
      cases cached with
      | some p => exact hsame (keyStore_dmInfo _ _ _ _ _)
      | none =>
        cases a with
        | info p => exact hsame (keyStore_dmInfo _ _ _ _ _)
        | failed msg => exact hsame (keyStore_dmFailed _ _ _)
        | ready => exact .refl _
    | ready recipient text xPub w =>
      cases a with
      | failed msg => exact hsame (keyStore_dmFailed _ _ _)
      | info p | ready => exact hsame (keyStore_dmReady _ _ _ _ _)
    | send op channel text ch =>
      cases a with
      | failed msg => exact .refl _
      | info p | ready => exact hsame (keyStore_sendReady _ _ _ _ _)

/-- The pass at an index, taken out to go on. -/
def takeReturn (s : Plugin) (n : ℕ) : Plugin := { s with returns := s.returns.eraseIdx n }

theorem runPass_keeps {n : ℕ} (h : s.IsLocal name (.pass n)) :
    s.keyStore.Keeps name (s.runPass n).keyStore := by
  have hinvites := h.2
  unfold invites at hinvites
  unfold runPass
  cases hn : s.returns[n]? with
  | none => exact .refl _
  | some ret =>
    obtain ⟨result, i, agents⟩ := ret
    simp only [hn] at hinvites ⊢
    unfold passOn
    cases result with
    | error msg =>
      have hpass := passInvites_congr (s := s) (t := s.takeReturn n) agents rfl
        (fun _ => rfl) i
      apply deliverFrom_keeps (s := s.takeReturn n)
      exact hpass.symm ▸ hinvites
    | ok id =>
      have hpass := passInvites_congr (s := s.invitedState i) (t := (s.takeReturn n).invitedState i)
        agents rfl (fun _ => rfl) i
      apply deliverFrom_keeps (s := (s.takeReturn n).invitedState i)
      exact hpass.symm ▸ hinvites

theorem connect_keeps (s : Plugin) (op : ℕ) (url : Option String)
    (keys : Option (String × String)) (agentName channel : Option String) :
    s.keyStore.Keeps name (s.connect op url keys agentName channel).keyStore := by
  unfold connect
  split
  · exact .refl _
  · dsimp only
    cases optStr channel with
    | none => exact .refl _
    | some ch =>
      have hensure : s.keyStore.Keeps name _ := ensureChannel_keeps
        { s with
          config := some (persistDapConfig s.config
            { url, name := agentName, channels := some [ch] })
          url := (optStr url).getD s.url } ch
      dsimp only [Option.elim_some]
      split
      next u hu =>
        rw [show u = _ from (congrArg Prod.fst hu).symm]
        exact hensure
      next u hu =>
        rw [show u = _ from (congrArg Prod.fst hu).symm]
        exact hensure

theorem call_keeps {op : PluginOp} (h : s.IsLocal name (.call op)) :
    s.keyStore.Keeps name (s.call op).keyStore := by
  have hinvites := h.2
  cases op with
  | ensureChannel channel => exact ensureChannel_keeps { s with ops := s.ops + 1 } channel
  | connect url keys agentName channel =>
    exact connect_keeps { s with ops := s.ops + 1 } _ _ _ _ _
  | invite recipient channel =>
    refine invite_keeps (s := { s with ops := s.ops + 1 }) (fun hname => ?_) _ _
    subst hname
    exact hinvites rfl
  | dm recipient text =>
    have hdm := keyStore_dm { s with ops := s.ops + 1 } recipient text (.caller s.ops)
    exact hdm ▸ .refl _
  | send channel text =>
    unfold call
    dsimp only
    split
    · exact .refl _
    · split
      · exact .refl _
      next hnone =>
        exact (KeyStore.Provisions.creates channel (s.newKeypair s.created) hnone).keeps
  | dapInvite who channel =>
    unfold call
    dsimp only
    split
    · exact .refl _
    · split
      next hid =>
        simp only [invites, hid, if_true] at hinvites
        refine invite_keeps (s := { s with ops := s.ops + 1 }) (fun hname => ?_) _ _
        subst hname
        exact hinvites rfl
      next => exact .refl _

theorem step_keeps {e : PluginOpEvent} (h : s.IsLocal name e) :
    s.keyStore.Keeps name (s.step e).keyStore := by
  cases e with
  | chankey name' pub priv =>
    refine KeyStore.keeps_learn s.keyStore ⟨pub, priv⟩ ?_
    rintro rfl
    exact h.1 pub priv rfl
  | call op => exact call_keeps h
  | flow n a => exact runFlow_keeps h
  | pass n => exact runPass_keeps h
  | poll =>
    have hpoll := s.keyStore_pollPending
    exact hpoll ▸ .refl _
  | client e =>
    obtain ⟨client, known, hclient⟩ := s.clientStep_sameButClient e
    show s.keyStore.Keeps name (s.clientStep e).keyStore
    rw [hclient]
    exact .refl _

def RunsLocal (s : Plugin) (name : String) (es : List PluginOpEvent) : Prop :=
  ∀ pre e, pre ++ [e] <+: es → (s.run pre).IsLocal name e

theorem run_keeps {es : List PluginOpEvent} (h : s.RunsLocal name es) :
    s.keyStore.Keeps name (s.run es).keyStore := by
  induction es using List.reverseRecOn with
  | nil => exact .refl _
  | append_singleton es e ih =>
    rw [run_concat]
    have hbefore : s.RunsLocal name es := fun pre e' hpre =>
      h pre e' (hpre.trans (List.prefix_append _ _))
    exact (ih hbefore).trans (step_keeps (h es e (List.prefix_refl _)))

end Plugin

/-- A known channel keeps its key while none is received for it, unless the plugin invites to it
without having its private key. -/
theorem knownKeys_kept (b : Bridge) (es : List OpEvent) (s : Plugin) (es' : List PluginOpEvent) :
    (∀ name, b.RunsLocal name es → b.keyStore.Keeps name (b.run es).keyStore) ∧
      ∀ name, s.RunsLocal name es' → s.keyStore.Keeps name (s.run es').keyStore :=
  ⟨fun _ => Bridge.run_keeps, fun _ => Plugin.run_keeps⟩

namespace Plugin

/-- A member of one channel that has no private key for it. -/
def publicOnly : Plugin :=
  { samplePlugin with
    channels := (∅ : JsMap String ChannelKey).set "general" ⟨"general", "P", none⟩ }

/-- It connects and invites to a channel. -/
def invitesTo (channel : String) : List PluginOpEvent :=
  [.client .start, .client (.socket 0 .opened), .client (.socket 0 (.message .welcome)),
    .call (.invite "b0b" channel)]

theorem invitesTo_lobby_isLocal : publicOnly.RunsLocal "general" (invitesTo "lobby") := by
  intro pre e hpre
  obtain ⟨i, hi, rfl, he⟩ := take_of_prefix_concat hpre
  have hmem := List.mem_of_getElem? he
  simp only [invitesTo, List.mem_cons, List.not_mem_nil, or_false] at hmem
  rcases hmem with rfl | rfl | rfl | rfl
  · exact ⟨by rintro pub priv ⟨⟩, by rintro ⟨⟩⟩
  · exact ⟨by rintro pub priv ⟨⟩, by rintro ⟨⟩⟩
  · exact ⟨by rintro pub priv ⟨⟩, by rintro ⟨⟩⟩
  · exact ⟨by rintro pub priv ⟨⟩, by simp [invites]⟩

/-- An invite to the known channel gives it another key. -/
theorem invitesTo_general_replaces :
    ¬ ∀ (s : Plugin) (es : List PluginOpEvent) (name : String) (ch : ChannelKey),
      (∀ e ∈ es, ∀ name pub priv, e ≠ .chankey name pub priv) → s.channels.get name = some ch →
        ((s.run es).channels.get name).map ChannelKey.pub = some ch.pub := by
  intro h
  have hkept := h publicOnly (invitesTo "general") "general" ⟨"general", "P", none⟩
    (by simp [invitesTo]) rfl
  exact absurd hkept (by decide +kernel)

end Plugin

/-- The bridge invites with the key it has, and the plugin to a channel it does not know. -/
theorem knownKeys_kept_general :
    (Bridge.welcomedBridge.ensureChannelKeys "general").1.keyStore.Keeps "general"
      ((Bridge.welcomedBridge.ensureChannelKeys "general").1.run
        [.call (.invite "general" "b0b"), .client (.task 0)]).keyStore ∧
    Plugin.publicOnly.keyStore.Keeps "general"
      (Plugin.publicOnly.run (Plugin.invitesTo "lobby")).keyStore := by
  have hkept := knownKeys_kept (Bridge.welcomedBridge.ensureChannelKeys "general").1
    [.call (.invite "general" "b0b"), .client (.task 0)]
      Plugin.publicOnly (Plugin.invitesTo "lobby")
  constructor
  · apply hkept.1
    intro pre e hpre
    obtain ⟨i, hi, rfl, he⟩ := take_of_prefix_concat hpre
    have hmem := List.mem_of_getElem? he
    simp only [List.mem_cons, List.not_mem_nil, or_false] at hmem
    rcases hmem with rfl | rfl
    · exact trivial
    · have hlearns : ∀ i < 2, (((Bridge.welcomedBridge.ensureChannelKeys "general").1.run
          (([.call (.invite "general" "b0b"), .client (.task 0)] : List OpEvent).take
            i)).client.learns
            (.task 0)) = none := by decide +kernel
      intro ch hch
      rw [hlearns i hi] at hch
      nomatch hch
  · exact hkept.2 "general" Plugin.invitesTo_lobby_isLocal

end Dap
