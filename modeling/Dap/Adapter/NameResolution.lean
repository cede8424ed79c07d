import Dap.Adapter.PluginOperations
import Dap.Adapter.Settling

/-! Whom an invite by name reaches at once and whom it reaches once it is pending, in both adapters
(`inviteByName` and `deliverPendingInvites` in `adapters/mcp-bridge/src/client.ts`, `dap_invite` and
`deliverPending` in `adapters/dsh-plugin/src/index.ts`). -/
namespace Dap

/-- The entries of a roster under a name. -/
def namedIn (c : Codec) (who : String) (agents : List PresenceAgent) : List PresenceAgent :=
  agents.filter fun a => a.name.map c.toLowerCase = some (c.toLowerCase who)

/-- The roster without the inviter's own entries. -/
def others (me : String) (agents : List PresenceAgent) : List PresenceAgent :=
  agents.filter fun a => a.agentId ≠ me

def Only (l : List PresenceAgent) (x : String) : Prop := ∃ a, l = [a] ∧ a.agentId = x

/-- The invite goes to the same agent at once and later, never to the inviter, and is refused as
ambiguous only where it is without the inviter's own entries. -/
structure NamesAlike (me : String) (agents : List PresenceAgent)
    (now later : List PresenceAgent → String → Prop) (refuses : List PresenceAgent → Prop) :
    Prop where
  same : ∀ x, now agents x ↔ later agents x
  notSelf : ¬ now agents me
  notByOwn : refuses agents → refuses (others me agents)

/-- No entry under the name is the inviter's own, or two others have the name. -/
def OwnAside (c : Codec) (me who : String) (agents : List PresenceAgent) : Prop :=
  (∀ a ∈ namedIn c who agents, a.agentId ≠ me) ∨ 1 < (namedIn c who (others me agents)).length

variable {c : Codec} {me who : String}

theorem namedIn_others (c : Codec) (me who : String) (agents : List PresenceAgent) :
    namedIn c who (others me agents) = others me (namedIn c who agents) := by
  unfold namedIn others
  rw [List.filter_filter, List.filter_filter]
  simp only [Bool.and_comm]

theorem onlineFor_eq_namedIn (c : Codec) (me who : String) (agents : List PresenceAgent) :
    (agents.filter fun a => a.agentId ≠ me ∧
      a.name.map c.toLowerCase = some (c.toLowerCase who)) = namedIn c who (others me agents) := by
  unfold namedIn others
  rw [List.filter_filter]
  apply List.filter_congr
  intro a _
  simp only [Bool.decide_and, Bool.and_comm]

theorem Only.length {l : List PresenceAgent} {x : String} (h : Only l x) : l.length = 1 := by
  obtain ⟨a, rfl, -⟩ := h
  rfl

theorem resolvesAlike_iff {now later : List PresenceAgent → String → Prop}
    {refuses : List PresenceAgent → Prop} (hnow : ∀ l x, now l x ↔ Only (namedIn c who l) x)
    (hlater : ∀ l x, later l x ↔ Only (namedIn c who (others me l)) x)
    (hrefuses : ∀ l, refuses l ↔ 1 < (namedIn c who l).length) (agents : List PresenceAgent) :
    NamesAlike me agents now later refuses ↔ OwnAside c me who agents := by
  constructor
  · intro h
    by_contra haside
    unfold OwnAside at haside
    push Not at haside
    obtain ⟨⟨a, ha, hown⟩, hfew⟩ := haside
    have hone : ¬ 1 < (namedIn c who agents).length := by
      intro hmany
      have hothers := (hrefuses _).mp (h.notByOwn ((hrefuses _).mpr hmany))
      omega
    have hpos := List.length_pos_of_mem ha
    obtain ⟨b, hb⟩ := List.length_eq_one_iff.mp (show (namedIn c who agents).length = 1 by omega)
    rw [hb, List.mem_singleton] at ha
    subst ha
    exact h.notSelf ((hnow _ _).mpr ⟨a, hb, hown⟩)
  · rintro (hnone | hmany)
    · have hothers : namedIn c who (others me agents) = namedIn c who agents := by
        rw [namedIn_others, others, List.filter_eq_self]
        simpa using hnone
      constructor
      · intro x
        rw [hnow, hlater, hothers]
      · intro hself
        obtain ⟨a, ha, hown⟩ := (hnow _ _).mp hself
        exact hnone a (by simp [ha]) hown
      · rw [hrefuses, hrefuses, hothers]
        exact id
    · have hle : (namedIn c who (others me agents)).length ≤ (namedIn c who agents).length := by
        rw [namedIn_others]
        exact List.length_filter_le _ _
      constructor
      · intro x
        rw [hnow, hlater]
        constructor
        · intro honly
          have hlength := honly.length
          omega
        · intro honly
          have hlength := honly.length
          omega
      · intro hself
        have hlength := ((hnow _ _).mp hself).length
        omega
      · exact fun _ => (hrefuses _).mpr hmany

/-! ### The bridge -/

namespace Bridge

/-- An inviter, whatever else its state is. -/
def Is (s : Bridge) (c : Codec) (me : String) : Prop :=
  s.client.codec = c ∧ s.client.agentId = me

/-- `inviteByName` invites `x` once it has its roster. -/
def InvitesNow (c : Codec) (me who channel : String) (agents : List PresenceAgent) (x : String) :
    Prop :=
  ∀ (s : Bridge) (op : ℕ), s.Is c me →
    s.inviteNamed op channel who agents = s.invite channel x (.caller op)

/-- A delivery pass with this roster invites `x` for the pending entry. -/
def InvitesLater (c : Codec) (me who channel : String) (agents : List PresenceAgent) (x : String) :
    Prop :=
  ∀ (s : Bridge) (i : ℕ), s.Is c me → s.client.pendingInvites[i]? = some ⟨who, channel⟩ →
    s.deliverFrom agents (i + 1) = s.invite channel x (.pass i agents)

def Refuses (c : Codec) (me who channel : String) (agents : List PresenceAgent) : Prop :=
  ∀ (s : Bridge) (op : ℕ), s.Is c me →
    ∃ ids, s.inviteNamed op channel who agents = s.reject op (.ambiguous who ids)

/-- An inviter with one pending entry. -/
def inviterOf (c : Codec) (me : String) (p : PendingInvite) : Bridge where
  client :=
    { BridgeClient.create { BridgeClient.sampleOpts with agentId := me, codec := c } {} none 0 with
      pendingInvites := [p] }
  newKeypair _ := ⟨"", ""⟩
  msgId _ := ""
  sealMsg _ _ _ _ _ _ := .ok ""

theorem inviterOf_is (c : Codec) (me : String) (p : PendingInvite) : (inviterOf c me p).Is c me :=
  ⟨rfl, rfl⟩

variable {s : Bridge} {channel x y : String}

theorem flows_ensureChannel (s : Bridge) (name : String) (w : EnsureFor) : ∃ ch created,
    (s.ensureChannel name w).flows.getLast?.map Prod.snd = some (.ensure name ch created w) := by
  obtain ⟨created, heq⟩ := s.ensureChannel_eq name w
  refine ⟨(s.ensureChannelKeys name).2, created, ?_⟩
  rw [heq]
  simp [Bridge.await]

theorem ensureChannel_inj {name : String} {w w' : EnsureFor}
    (h : s.ensureChannel name w = s.ensureChannel name w') : w = w' := by
  obtain ⟨ch, created, hflow⟩ := s.flows_ensureChannel name w
  obtain ⟨ch', created', hflow'⟩ := s.flows_ensureChannel name w'
  rw [h, hflow'] at hflow
  simp only [Option.some.injEq, Flow.ensure.injEq] at hflow
  exact hflow.2.2.2.symm

theorem invite_inj {recipient recipient' : String} {w w' : InviteFor}
    (h : s.invite channel recipient w = s.invite channel recipient' w') :
    recipient = recipient' := by
  have hfor := ensureChannel_inj h
  simp only [EnsureFor.invite.injEq] at hfor
  exact hfor.1

theorem flows_invite_ne (s : Bridge) (channel recipient : String) (w : InviteFor) :
    (s.invite channel recipient w).flows ≠ [] := by
  obtain ⟨ch, created, hflow⟩ := s.flows_ensureChannel channel (.invite recipient w)
  intro hnil
  change (s.ensureChannel channel (.invite recipient w)).flows = [] at hnil
  rw [hnil] at hflow
  nomatch hflow

theorem matching_eq (h : s.Is c me) (who : String) (agents : List PresenceAgent) :
    s.client.matching who agents = namedIn c who agents := by
  rw [← h.1]
  rfl

theorem onlineFor_eq (h : s.Is c me) (p : PendingInvite) (agents : List PresenceAgent) :
    s.client.onlineFor p agents = namedIn c p.name (others me agents) := by
  rw [← onlineFor_eq_namedIn, ← h.1, ← h.2]
  rfl

theorem invitesNow_iff (agents : List PresenceAgent) (x : String) :
    InvitesNow c me who channel agents x ↔ Only (namedIn c who agents) x := by
  constructor
  · intro h
    have hinvite := h (inviterOf c me ⟨who, channel⟩) 0 (inviterOf_is _ _ _)
    unfold inviteNamed at hinvite
    rw [matching_eq (inviterOf_is c me _)] at hinvite
    split at hinvite
    next => nomatch ensureChannel_inj hinvite
    next a ha => exact ⟨a, ha, invite_inj hinvite⟩
    next => exact absurd (congrArg flows hinvite).symm (flows_invite_ne _ _ _ _)
  · rintro ⟨a, ha, rfl⟩ s op hs
    unfold inviteNamed
    rw [matching_eq hs, ha]

theorem invitesLater_iff (agents : List PresenceAgent) (x : String) :
    InvitesLater c me who channel agents x ↔ Only (namedIn c who (others me agents)) x := by
  constructor
  · intro h
    have hinvite := h (inviterOf c me ⟨who, channel⟩) 0 (inviterOf_is _ _ _) rfl
    rw [deliverFrom] at hinvite
    simp only [show (inviterOf c me ⟨who, channel⟩).client.pendingInvites[0]? =
      some ⟨who, channel⟩ from rfl, onlineFor_eq (inviterOf_is c me _)] at hinvite
    split at hinvite
    next a ha => exact ⟨a, ha, invite_inj hinvite⟩
    next => exact absurd (congrArg flows hinvite).symm (flows_invite_ne _ _ _ _)
  · rintro ⟨a, ha, rfl⟩ s i hs hp
    rw [deliverFrom]
    simp only [hp, onlineFor_eq hs, ha]

theorem refuses_iff (agents : List PresenceAgent) :
    Refuses c me who channel agents ↔ 1 < (namedIn c who agents).length := by
  constructor
  · intro h
    obtain ⟨ids, hreject⟩ := h (inviterOf c me ⟨who, channel⟩) 0 (inviterOf_is _ _ _)
    unfold inviteNamed at hreject
    rw [matching_eq (inviterOf_is c me _)] at hreject
    split at hreject
    next =>
      obtain ⟨ch, created, hflow⟩ :=
        (inviterOf c me ⟨who, channel⟩).flows_ensureChannel channel (.arm 0 who)
      rw [hreject] at hflow
      nomatch hflow
    next => exact absurd (congrArg flows hreject) (flows_invite_ne _ _ _ _)
    next hnil hone =>
      cases hagents : namedIn c who agents with
      | nil => exact absurd hagents hnil
      | cons a l =>
        cases l with
        | nil => exact absurd hagents (hone a)
        | cons b l => simp
  · intro hmany s op hs
    unfold inviteNamed
    rw [matching_eq hs]
    split
    next hagents => simp [hagents] at hmany
    next a hagents => simp [hagents] at hmany
    next => exact ⟨_, rfl⟩

end Bridge

/-! ### The plugin -/

namespace Plugin

/-- A connected inviter, whatever else its state is. -/
def Is (s : Plugin) (c : Codec) (me : String) : Prop :=
  s.codec = c ∧ s.client.agentId = me ∧ s.client.connected = true

/-- `dap_invite` invites `x` once it has its roster. -/
def InvitesNow (c : Codec) (me who channel : String) (agents : List PresenceAgent) (x : String) :
    Prop :=
  ∀ (s : Plugin) (op : ℕ), s.Is c me →
    s.inviteNamed op who channel agents = s.invite x channel (.caller op)

/-- A delivery pass with this roster invites `x` for the pending entry. -/
def InvitesLater (c : Codec) (me who channel : String) (agents : List PresenceAgent) (x : String) :
    Prop :=
  ∀ (s : Plugin) (i : ℕ), s.Is c me → s.pendingInvites[i]? = some ⟨who, channel⟩ →
    s.deliverFrom agents (i + 1) = s.invite x channel (.pass i agents)

def Refuses (c : Codec) (me who channel : String) (agents : List PresenceAgent) : Prop :=
  ∀ (s : Plugin) (op : ℕ), s.Is c me →
    ∃ ids, s.inviteNamed op who channel agents = s.reject op (OpError.ambiguous who ids).message

/-- An inviter with one pending entry. -/
def inviterOf (c : Codec) (me : String) (p : PendingInvite) : Plugin where
  client :=
    { agentId := me, uuid := fun _ => "", sockets := [.opened], ws := some 0, welcomed := true }
  codec := c
  url := ""
  xPriv := ""
  pendingInvites := [p]
  newKeypair _ := ⟨"", ""⟩
  msgId _ := ""
  sealMsg _ _ _ _ _ _ := .ok ""

theorem inviterOf_is (c : Codec) (me : String) (p : PendingInvite) : (inviterOf c me p).Is c me :=
  ⟨rfl, rfl, rfl⟩

variable {s : Plugin} {channel : String}

theorem connected_post (c : PluginClient) (f : ClientFrame) :
    (c.post f).connected = c.connected := by
  unfold PluginClient.post
  split
  · split <;> rfl
  · rfl

theorem inviteKeys_rest (s : Plugin) (channel : String) :
    (s.inviteKeys channel).1.client.connected = s.client.connected ∧
      (s.inviteKeys channel).1.flows = s.flows ∧ (s.inviteKeys channel).1.results = s.results := by
  have hcreated : (s.createChannel channel).1.client.connected = s.client.connected :=
    connected_post _ _
  unfold inviteKeys
  split
  · split
    · exact ⟨hcreated, rfl, rfl⟩
    · exact ⟨rfl, rfl, rfl⟩
  · exact ⟨hcreated, rfl, rfl⟩

/-- A `dm` looks its recipient up, and does not end at once. -/
theorem dm_parks (h : s.client.connected = true) (recipient text : String) (w : PluginDmFor) :
    (∃ cached, (s.dm recipient text w).flows = s.flows ++ [.info recipient text cached w]) ∧
      (s.dm recipient text w).results = s.results := by
  unfold dm
  simp only [h, Bool.not_true, Bool.false_eq_true, if_false]
  split
  next info hknown => exact ⟨⟨some info, rfl⟩, rfl⟩
  next hunknown => exact ⟨⟨none, rfl⟩, rfl⟩

theorem invite_parks (h : s.client.connected = true) (recipient channel : String) (w : InviteFor) :
    (∃ text cached, (s.invite recipient channel w).flows =
      s.flows ++ [.info recipient text cached (.invite channel w)]) ∧
      (s.invite recipient channel w).results = s.results := by
  obtain ⟨hconnected, hflows, hresults⟩ := s.inviteKeys_rest channel
  obtain ⟨⟨cached, hparked⟩, hends⟩ := dm_parks (hconnected.trans h) recipient
    (chankeyText channel (s.inviteKeys channel).2.pub (s.inviteKeys channel).2.priv)
    (.invite channel w)
  unfold invite
  simp only [h, Bool.not_true, Bool.false_eq_true, if_false]
  rw [hflows] at hparked
  exact ⟨⟨_, cached, hparked⟩, hends.trans hresults⟩

theorem invite_inj (h : s.client.connected = true) {x y : String} {w w' : InviteFor}
    (heq : s.invite x channel w = s.invite y channel w') : x = y := by
  obtain ⟨⟨text, cached, hx⟩, -⟩ := invite_parks h x channel w
  obtain ⟨⟨text', cached', hy⟩, -⟩ := invite_parks h y channel w'
  rw [heq, hy] at hx
  simp only [List.append_cancel_left_eq, List.cons.injEq, PluginFlow.info.injEq] at hx
  exact hx.1.1.symm

theorem matching_eq (h : s.Is c me) (who : String) (agents : List PresenceAgent) :
    s.matching who agents = namedIn c who agents := by
  rw [← h.1]
  rfl

theorem onlineFor_eq (h : s.Is c me) (p : PendingInvite) (agents : List PresenceAgent) :
    s.onlineFor p agents = namedIn c p.name (others me agents) := by
  rw [← onlineFor_eq_namedIn, ← h.1, ← h.2.1]
  rfl

theorem results_inviteNamed_nil {agents : List PresenceAgent} (h : namedIn c who agents = [])
    (me channel : String) (p : PendingInvite) (op : ℕ) : ∃ r,
      ((inviterOf c me p).inviteNamed op who channel agents).results = [(op, .ok r)] := by
  unfold inviteNamed
  rw [matching_eq (inviterOf_is c me p), h]
  unfold arm
  have hensured : (inviterOf c me p).ensureChannel channel =
      (((inviterOf c me p).createChannel channel).1, false) := rfl
  simp only [hensured]
  have hpoll : ∀ u : Plugin, u.pollPending.results = u.results := by
    intro u
    unfold pollPending
    split <;> rfl
  unfold resolve
  dsimp only
  rw [hpoll]
  split <;> exact ⟨_, rfl⟩

theorem results_reject (s : Plugin) (op : ℕ) (msg : String) :
    (s.reject op msg).results = s.results ++ [(op, .error msg)] := rfl

theorem invitesNow_iff (agents : List PresenceAgent) (x : String) :
    InvitesNow c me who channel agents x ↔ Only (namedIn c who agents) x := by
  constructor
  · intro h
    have hinvite := h (inviterOf c me ⟨who, channel⟩) 0 (inviterOf_is _ _ _)
    have hresults := (invite_parks (s := inviterOf c me ⟨who, channel⟩) rfl x channel (.caller 0)).2
    rw [← hinvite] at hresults
    cases hagents : namedIn c who agents with
    | nil =>
      obtain ⟨r, harmed⟩ := results_inviteNamed_nil hagents me channel ⟨who, channel⟩ 0
      rw [harmed] at hresults
      nomatch hresults
    | cons a l =>
      unfold inviteNamed at hinvite hresults
      rw [matching_eq (inviterOf_is c me _), hagents] at hinvite hresults
      cases l with
      | nil => exact ⟨a, rfl, invite_inj rfl hinvite⟩
      | cons b l => nomatch hresults
  · rintro ⟨a, ha, rfl⟩ s op hs
    unfold inviteNamed
    rw [matching_eq hs, ha]

theorem invitesLater_iff (agents : List PresenceAgent) (x : String) :
    InvitesLater c me who channel agents x ↔ Only (namedIn c who (others me agents)) x := by
  constructor
  · intro h
    have hinvite := h (inviterOf c me ⟨who, channel⟩) 0 (inviterOf_is _ _ _) rfl
    rw [deliverFrom] at hinvite
    simp only [
      show (inviterOf c me ⟨who, channel⟩).pendingInvites[0]? = some ⟨who, channel⟩ from rfl,
      onlineFor_eq (inviterOf_is c me _)] at hinvite
    split at hinvite
    next a ha => exact ⟨a, ha, invite_inj rfl hinvite⟩
    next =>
      obtain ⟨⟨text, hflows⟩, -⟩ := invite_parks (s := inviterOf c me ⟨who, channel⟩) rfl x channel
        (.pass 0 agents)
      rw [← hinvite] at hflows
      nomatch hflows
  · rintro ⟨a, ha, rfl⟩ s i hs hp
    rw [deliverFrom]
    simp only [hp, onlineFor_eq hs, ha]

theorem refuses_iff (agents : List PresenceAgent) :
    Refuses c me who channel agents ↔ 1 < (namedIn c who agents).length := by
  constructor
  · intro h
    obtain ⟨ids, hreject⟩ := h (inviterOf c me ⟨who, channel⟩) 0 (inviterOf_is _ _ _)
    have hresults := congrArg results hreject
    rw [results_reject] at hresults
    cases hagents : namedIn c who agents with
    | nil =>
      obtain ⟨r, harmed⟩ := results_inviteNamed_nil hagents me channel ⟨who, channel⟩ 0
      rw [harmed] at hresults
      nomatch hresults
    | cons a l =>
      cases l with
      | nil =>
        unfold inviteNamed at hresults
        rw [matching_eq (inviterOf_is c me _), hagents] at hresults
        rw [(invite_parks (s := inviterOf c me ⟨who, channel⟩) rfl a.agentId channel (.caller 0)).2]
          at hresults
        nomatch hresults
      | cons b l => simp
  · intro hmany s op hs
    unfold inviteNamed
    rw [matching_eq hs]
    split
    next hagents => simp [hagents] at hmany
    next a hagents => simp [hagents] at hmany
    next => exact ⟨_, rfl⟩

end Plugin

/-- Exactly when an invite by name goes the same way at once and later. -/
theorem namesAlike_iff (c : Codec) (me who channel : String) (agents : List PresenceAgent) :
    (NamesAlike me agents (Bridge.InvitesNow c me who channel)
      (Bridge.InvitesLater c me who channel)
      (Bridge.Refuses c me who channel) ↔ OwnAside c me who agents) ∧
    (NamesAlike me agents (Plugin.InvitesNow c me who channel)
      (Plugin.InvitesLater c me who channel)
      (Plugin.Refuses c me who channel) ↔ OwnAside c me who agents) := by
  constructor
  · exact resolvesAlike_iff Bridge.invitesNow_iff Bridge.invitesLater_iff Bridge.refuses_iff agents
  · exact resolvesAlike_iff Plugin.invitesNow_iff Plugin.invitesLater_iff Plugin.refuses_iff agents

/-- The inviter is alone online under the name, and invites itself. -/
theorem not_namesAlike_self : ¬ ∀ (c : Codec) (me who channel : String)
    (agents : List PresenceAgent), isAgentId who = false →
      NamesAlike me agents (Bridge.InvitesNow c me who channel)
        (Bridge.InvitesLater c me who channel)
        (Bridge.Refuses c me who channel) := by
  intro h
  have halike := h BridgeClient.sampleOpts.codec "a11ce" "alice" "general"
    [⟨⟨"a11ce", some "alice", some true, none⟩, true⟩] (by decide)
  exact halike.notSelf ((Bridge.invitesNow_iff _ _).mpr ⟨_, rfl, rfl⟩)

end Dap
