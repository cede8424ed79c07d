import Dap.Adapter.PluginOperations

/-! The list of pending invites of the dsh plugin in every run
(`adapters/dsh-plugin/src/index.ts`). -/
namespace Dap

def PluginDmFor.delivery (recipient : String) : PluginDmFor → Option Delivery
  | .caller _ => none
  | .invite channel w => w.delivery channel recipient

def PluginFlow.delivery : PluginFlow → Option Delivery
  | .info recipient _ _ w | .ready recipient _ _ w => w.delivery recipient
  | _ => none

def PluginFlow.isPass : PluginFlow → Bool
  | .deliver _ => true
  | f => f.delivery.isSome

def PluginDmFor.Carries (seen : Seen) (text : String) : PluginDmFor → Prop
  | .caller _ => True
  | .invite channel _ => seen.Carries channel text

def PluginFlow.Carries (seen : Seen) : PluginFlow → Prop
  | .info _ text _ w | .ready _ text _ w => w.Carries seen text
  | _ => True

namespace Plugin

def storedInvites (s : Plugin) : List PendingInvite := (readDapConfig s.config).invites.getD []

def listed (s : Plugin) := (s.pendingInvites, s.storedInvites, s.codec)

/-- All the passes there are. -/
def passes (s : Plugin) : ℕ := s.flows.countP PluginFlow.isPass + s.returns.length

def seesKeys (s : Plugin) (seen : Seen) : Prop :=
  ∀ channel ch, s.channels.get channel = some ch → seen.keys channel ch

def Fits (seen : Seen) (s : Plugin) (d : Option Delivery) : Prop :=
  ∀ x ∈ d, x.Fits seen s.codec s.pendingInvites

/-- The entry is still there, and it was sent if the pass returns without an error. -/
def Returned (seen : Seen) (s : Plugin) (ret : PluginReturn) : Prop :=
  seen.rosters ret.agents ∧ ∃ p, s.pendingInvites[ret.i]? = some p ∧
    ∀ id, ret.result = .ok id → p.SentBy seen s.codec id

/-- Holds between any two `await`s, with `k` more passes under way. -/
structure Inv (seen : Seen) (k : ℕ) (s : Plugin) : Prop where
  room : s.passes + k ≤ if s.delivering then 1 else 0
  fits : ∀ f ∈ s.flows, Fits seen s f.delivery
  carries : ∀ f ∈ s.flows, f.Carries seen
  returned : ∀ ret ∈ s.returns, Returned seen s ret

variable {seen : Seen} {s t : Plugin} {k : ℕ}

theorem fits_congr (h : t.listed = s.listed) {d : Option Delivery} (hd : Fits seen s d) :
    Fits seen t d := by
  simp only [listed, Prod.mk.injEq] at h
  unfold Fits
  rw [h.1, h.2.2]
  exact hd

theorem returned_congr (h : t.listed = s.listed) {ret : PluginReturn} (hret : Returned seen s ret) :
    Returned seen t ret := by
  simp only [listed, Prod.mk.injEq] at h
  unfold Returned
  rw [h.1, h.2.2]
  exact hret

theorem Inv.congr (h : Inv seen k s) (hlisted : t.listed = s.listed)
    (hdelivering : t.delivering = s.delivering) (hflows : t.flows = s.flows)
    (hreturns : t.returns = s.returns) : Inv seen k t := by
  constructor
  · unfold passes
    rw [hdelivering, hflows, hreturns]
    exact h.room
  · rw [hflows]
    exact fun f hf => fits_congr hlisted (h.fits f hf)
  · rw [hflows]
    exact h.carries
  · rw [hreturns]
    exact fun ret hret => returned_congr hlisted (h.returned ret hret)

theorem Inv.park {f : PluginFlow} (h : Inv seen (k + if f.isPass then 1 else 0) s)
    (hfits : Fits seen s f.delivery) (hcarries : f.Carries seen) : Inv seen k (s.park f) := by
  have hpasses : (s.park f).passes = s.passes + if f.isPass then 1 else 0 := by
    simp only [passes, Plugin.park, List.countP_append, List.countP_singleton]
    omega
  constructor
  · rw [hpasses, Nat.add_right_comm, Nat.add_assoc]
    exact h.room
  · intro g hg
    rcases List.mem_append.mp hg with hg | hg
    · exact h.fits g hg
    · rw [List.mem_singleton.mp hg]
      exact hfits
  · intro g hg
    rcases List.mem_append.mp hg with hg | hg
    · exact h.carries g hg
    · rw [List.mem_singleton.mp hg]
      exact hcarries
  · exact h.returned

theorem Inv.returns {ret : PluginReturn} (h : Inv seen 1 s) (hret : Returned seen s ret) :
    Inv seen 0 { s with returns := s.returns ++ [ret] } := by
  have hpasses : ({ s with returns := s.returns ++ [ret] } : Plugin).passes = s.passes + 1 := by
    unfold passes
    rw [List.length_append, List.length_singleton, Nat.add_assoc]
  refine ⟨?_, h.fits, h.carries, ?_⟩
  · rw [hpasses]
    exact h.room
  · intro ret' hret'
    rcases List.mem_append.mp hret' with hret' | hret'
    · exact h.returned ret' hret'
    · rw [List.mem_singleton.mp hret']
      exact hret

theorem Inv.alone (h : Inv seen 1 s) :
    (∀ f ∈ s.flows, f.delivery = none) ∧ s.returns = [] := by
  have hroom := h.room
  have hnone : s.passes = 0 := by split at hroom <;> omega
  obtain ⟨hflows, hreturns⟩ := Nat.add_eq_zero_iff.mp hnone
  refine ⟨?_, List.length_eq_zero_iff.mp hreturns⟩
  intro f hf
  have hpass := List.countP_eq_zero.mp hflows f hf
  cases f <;> simp_all [PluginFlow.isPass, PluginFlow.delivery]

theorem endPass_inv (h : Inv seen 1 s) : Inv seen 0 { s with delivering := false } := by
  have hroom := h.room
  refine ⟨?_, h.fits, h.carries, h.returned⟩
  show s.passes + 0 ≤ 0
  split at hroom <;> omega

/-! ### Channels -/

theorem ensureChannel_spec (h : Inv seen k s) (channel : String) :
    Inv seen k (s.ensureChannel channel).1 ∧ (s.ensureChannel channel).1.listed = s.listed := by
  unfold ensureChannel
  split
  · exact ⟨h, rfl⟩
  · exact ⟨h.congr rfl rfl rfl rfl, rfl⟩

theorem inviteKeys_spec (h : Inv seen k s) (channel : String) :
    Inv seen k (s.inviteKeys channel).1 ∧ (s.inviteKeys channel).1.listed = s.listed := by
  unfold inviteKeys
  split
  · split
    · exact ⟨h.congr rfl rfl rfl rfl, rfl⟩
    · exact ⟨h, rfl⟩
  · exact ⟨h.congr rfl rfl rfl rfl, rfl⟩

theorem createChannel_get (s : Plugin) (channel : String) :
    (s.createChannel channel).1.channels.get channel = some ⟨channel, (s.newKeypair s.created).pub,
      some (s.newKeypair s.created).priv⟩ := by
  simp [createChannel, join, createKeys, persistChannel]

theorem inviteKeys_get (s : Plugin) (channel : String) : ∃ ch,
    (s.inviteKeys channel).1.channels.get channel = some ch ∧
      ch.pub = (s.inviteKeys channel).2.pub ∧ ch.priv = some (s.inviteKeys channel).2.priv := by
  unfold inviteKeys
  split
  next name pub priv hch =>
    split
    · exact ⟨_, createChannel_get s channel, rfl, rfl⟩
    · exact ⟨_, hch, rfl, rfl⟩
  · exact ⟨_, createChannel_get s channel, rfl, rfl⟩

/-! ### Messages -/

theorem inviteFailed_inv {msg : String} {w : InviteFor} {channel recipient : String}
    (h : Inv seen (weight (w.delivery channel recipient)) s)
    (hfits : Fits seen s (w.delivery channel recipient)) : Inv seen 0 (s.inviteFailed msg w) := by
  cases w with
  | caller op => exact h.congr rfl rfl rfl rfl
  | pass i agents =>
    obtain ⟨hroster, p, hp, -⟩ := hfits _ rfl
    apply h.returns
    refine ⟨hroster, p, hp, ?_⟩
    intro id hid
    nomatch hid

theorem inviteFailed_listed (s : Plugin) (msg : String) (w : InviteFor) :
    (s.inviteFailed msg w).listed = s.listed ∧ (s.inviteFailed msg w).channels = s.channels := by
  cases w <;> exact ⟨rfl, rfl⟩

theorem inviteSent_inv {id : String} {w : InviteFor} {channel recipient : String}
    (h : Inv seen (weight (w.delivery channel recipient)) s)
    (hfits : Fits seen s (w.delivery channel recipient))
    (hsent : (w.delivery channel recipient).isSome = true → ∀ p : PendingInvite,
      p.channel = channel → seen.Named s.codec p.name recipient → p.SentBy seen s.codec id) :
    Inv seen 0 (s.inviteSent id w) := by
  cases w with
  | caller op => exact h.congr rfl rfl rfl rfl
  | pass i agents =>
    obtain ⟨hroster, p, hp, hchannel, hnamed⟩ := hfits _ rfl
    apply h.returns
    refine ⟨hroster, p, hp, ?_⟩
    intro id' hid'
    obtain rfl := Except.ok.inj hid'
    exact hsent rfl p hchannel hnamed

theorem dmFailed_inv {msg : String} {w : PluginDmFor} {recipient : String}
    (h : Inv seen (weight (w.delivery recipient)) s) (hfits : Fits seen s (w.delivery recipient)) :
    Inv seen 0 (s.dmFailed msg w) := by
  cases w with
  | caller op => exact h.congr rfl rfl rfl rfl
  | invite channel w => exact inviteFailed_inv h hfits

theorem dmFailed_listed (s : Plugin) (msg : String) (w : PluginDmFor) :
    (s.dmFailed msg w).listed = s.listed ∧ (s.dmFailed msg w).channels = s.channels := by
  cases w with
  | caller op => exact ⟨rfl, rfl⟩
  | invite channel w => exact inviteFailed_listed _ _ _

theorem dm_inv {recipient text : String} {w : PluginDmFor}
    (h : Inv seen (weight (w.delivery recipient)) s) (hfits : Fits seen s (w.delivery recipient))
    (hcarries : w.Carries seen text) : Inv seen 0 (s.dm recipient text w) := by
  unfold dm
  split
  · exact dmFailed_inv h hfits
  · split
    next info hknown =>
      rw [← Nat.zero_add (weight _)] at h
      exact h.park (f := .info recipient text (some info) w) hfits hcarries
    next hunknown =>
      have hposted : Inv seen (weight (w.delivery recipient))
          { s with client := s.client.post (.whois recipient) } := h.congr rfl rfl rfl rfl
      rw [← Nat.zero_add (weight _)] at hposted
      exact hposted.park (f := .info recipient text none w) hfits hcarries

theorem dm_listed (s : Plugin) (recipient text : String) (w : PluginDmFor) :
    (s.dm recipient text w).listed = s.listed ∧ (s.dm recipient text w).channels = s.channels := by
  unfold dm
  split
  · exact dmFailed_listed _ _ _
  · split <;> exact ⟨rfl, rfl⟩

theorem dmInfo_inv {recipient text : String} {info : PeerInfo} {w : PluginDmFor}
    (h : Inv seen (weight (w.delivery recipient)) s) (hfits : Fits seen s (w.delivery recipient))
    (hcarries : w.Carries seen text) : Inv seen 0 (s.dmInfo recipient text info w) := by
  unfold dmInfo
  split
  · exact dmFailed_inv h hfits
  · apply Inv.park (f := .ready recipient text _ w) _ hfits hcarries
    rw [Nat.zero_add]
    exact h

theorem dmInfo_listed (s : Plugin) (recipient text : String) (info : PeerInfo) (w : PluginDmFor) :
    (s.dmInfo recipient text info w).listed = s.listed := by
  unfold dmInfo
  split
  · exact (dmFailed_listed _ _ _).1
  · rfl

/-- The frame that a step puts on the socket is seen. -/
def seesFrame (s t : Plugin) (seen : Seen) : Prop :=
  ∀ socket f, t.client.sent[s.client.sent.length]? = some (socket, f) →
    seen.frames (s.msgId s.posted) f

def seesSeals (s : Plugin) (seen : Seen) : Prop :=
  ∀ n text recipient xPriv xPub ciphertext,
    s.sealMsg n text (s.msgId n) recipient xPriv xPub = .ok ciphertext →
      seen.seals text (s.msgId n) recipient ciphertext

/-- The next message can be sealed. -/
def seals (s : Plugin) (text recipient xPub : String) : Bool :=
  (s.sealMsg s.posted text (s.msgId s.posted) recipient s.xPriv xPub).isOk

theorem sent_post {c : PluginClient} {f : ClientFrame}
    (h : (c.ws.any fun i => c.sockets[i]? = some .opened) = true) :
    ∃ i, (c.post f).sent = c.sent ++ [(i, f)] := by
  unfold PluginClient.post
  cases hws : c.ws with
  | none =>
    rw [hws] at h
    nomatch h
  | some i =>
    rw [hws] at h
    have hopened : c.sockets[i]? = some .opened := by simpa using h
    exact ⟨i, by simp [hopened]⟩

/-- A message that is sent is a frame on the socket. -/
theorem signAndSend_ok {recipient channel : Option String} {text xPub id : String}
    (h : s.signAndSend recipient channel text xPub = .ok (t, id)) :
    ∃ client ciphertext, t = { s with client, posted := s.posted + 1 } ∧ id = s.msgId s.posted ∧
      s.sealMsg s.posted text id ((recipient <|> channel).getD "") s.xPriv xPub = .ok ciphertext ∧
      s.isOpen = true ∧
      ∃ i, client.sent = s.client.sent ++ [(i, .send recipient channel id ciphertext)] := by
  unfold signAndSend at h
  dsimp only at h
  split at h
  · nomatch h
  next ciphertext hsealed =>
    split at h
    next hopen =>
      simp only [Except.ok.injEq, Prod.mk.injEq] at h
      obtain ⟨rfl, rfl⟩ := h
      exact ⟨_, ciphertext, rfl, rfl, hsealed, hopen, sent_post hopen⟩
    next => nomatch h

theorem dmSent_rest (s : Plugin) (id : String) (w : PluginDmFor) :
    (s.dmSent id w).client = s.client ∧ (s.dmSent id w).listed = s.listed := by
  cases w with
  | caller op => exact ⟨rfl, rfl⟩
  | invite channel w => cases w <;> exact ⟨rfl, rfl⟩

theorem dmReady_listed (s : Plugin) (recipient text xPub : String) (w : PluginDmFor) :
    (s.dmReady recipient text xPub w).listed = s.listed := by
  unfold dmReady
  split
  next t id hsend =>
    obtain ⟨client, -, rfl, -⟩ := signAndSend_ok hsend
    exact (dmSent_rest _ _ _).2
  next => exact (dmFailed_listed _ _ _).1

theorem seals_of_ok {text recipient xPub ciphertext : String}
    (h : s.sealMsg s.posted text (s.msgId s.posted) recipient s.xPriv xPub = .ok ciphertext) :
    s.seals text recipient xPub = true := by
  rw [seals, h]
  rfl

theorem dmReady_inv {recipient text xPub : String} {w : PluginDmFor}
    (h : Inv seen (weight (w.delivery recipient)) s) (hfits : Fits seen s (w.delivery recipient))
    (hcarries : w.Carries seen text) (hseals : s.seesSeals seen)
    (hframe : (w.delivery recipient).isSome = true → s.isOpen = true →
      s.seals text recipient xPub = true → s.seesFrame (s.dmReady recipient text xPub w) seen) :
    Inv seen 0 (s.dmReady recipient text xPub w) := by
  unfold dmReady at hframe ⊢
  split at hframe
  next t id hsend =>
    obtain ⟨client, ciphertext, rfl, rfl, hsealed, hopen, socket, hsent⟩ := signAndSend_ok hsend
    have hposted : Inv seen (weight (w.delivery recipient))
        { s with client, posted := s.posted + 1 } := h.congr rfl rfl rfl rfl
    cases w with
    | caller op => exact hposted.congr rfl rfl rfl rfl
    | invite channel w =>
      apply inviteSent_inv hposted hfits
      intro hpass p hchannel hnamed
      subst hchannel
      refine ⟨recipient, text, _, hnamed, hcarries, hseals _ _ _ _ _ _ hsealed, ?_⟩
      apply hframe hpass hopen (seals_of_ok hsealed) socket
      rw [(dmSent_rest _ _ _).1]
      change client.sent[_]? = _
      rw [hsent, List.getElem?_concat_length]
  next => exact dmFailed_inv h hfits

theorem sendReady_spec {op : ℕ} {channel text : String} {ch : ChannelKey} (h : Inv seen k s) :
    Inv seen k (s.sendReady op channel text ch) ∧
      (s.sendReady op channel text ch).listed = s.listed := by
  unfold sendReady
  split
  next t id hsend =>
    obtain ⟨client, -, rfl, -⟩ := signAndSend_ok hsend
    exact ⟨h.congr rfl rfl rfl rfl, rfl⟩
  next => exact ⟨h.congr rfl rfl rfl rfl, rfl⟩

theorem invite_inv {recipient channel : String} {w : InviteFor}
    (h : Inv seen (weight (w.delivery channel recipient)) s)
    (hfits : Fits seen s (w.delivery channel recipient))
    (hkeys : (s.invite recipient channel w).seesKeys seen) :
    Inv seen 0 (s.invite recipient channel w) := by
  unfold invite at hkeys ⊢
  split at hkeys
  next hdown =>
    rw [if_pos hdown]
    exact inviteFailed_inv h hfits
  next hup =>
    rw [if_neg hup]
    obtain ⟨hinv, hlisted⟩ := inviteKeys_spec h channel
    obtain ⟨ch, hget, hpub, hpriv⟩ := s.inviteKeys_get channel
    apply dm_inv (w := .invite channel w) hinv (fits_congr hlisted hfits)
    refine ⟨ch, _, hkeys channel ch ?_, hpriv, ?_⟩
    · rw [(dm_listed _ _ _ _).2]
      exact hget
    · rw [hpub]
      rfl

theorem invite_listed (s : Plugin) (recipient channel : String) (w : InviteFor) :
    (s.invite recipient channel w).listed = s.listed := by
  unfold invite
  split
  · exact (inviteFailed_listed _ _ _).1
  · have hlisted : (s.inviteKeys channel).1.listed = s.listed := by
      unfold inviteKeys
      split
      · split <;> rfl
      · rfl
    exact (dm_listed _ _ _ _).1.trans hlisted

end Plugin

end Dap
