import Dap.Adapter.ClientFrames

/-! What holds of the pending invites of the bridge between any two `await`s, and what ensuring a
channel, a delivery pass and a message keep of it (`adapters/mcp-bridge/src/client.ts`). -/
namespace Dap

/-- One channel, and one name but for its case. -/
def PendingInvite.Agrees (c : Codec) (p q : PendingInvite) : Prop :=
  c.toLowerCase p.name = c.toLowerCase q.name ∧ p.channel = q.channel

def DistinctInvites (c : Codec) (l : List PendingInvite) : Prop :=
  l.Pairwise fun p q => ¬ p.Agrees c q

/-- What a pass delivers: the entry at an index, for a channel, to one agent of its roster. -/
structure Delivery where
  i : ℕ
  channel : String
  recipient : String
  agents : List PresenceAgent

def InviteFor.delivery (channel recipient : String) : InviteFor → Option Delivery
  | .caller _ => none
  | .pass i agents => some ⟨i, channel, recipient, agents⟩

def EnsureFor.delivery (channel : String) : EnsureFor → Option Delivery
  | .invite recipient w => w.delivery channel recipient
  | _ => none

def DmFor.delivery (recipient : String) : DmFor → Option Delivery
  | .caller _ => none
  | .invite channel _ _ w => w.delivery channel recipient

def Flow.delivery : Flow → Option Delivery
  | .ensure channel _ _ w => w.delivery channel
  | .info recipient _ w | .ready recipient _ _ w => w.delivery recipient
  | _ => none

def weight (d : Option Delivery) : ℕ := if d.isSome then 1 else 0

/-- The keys and rosters there were, the messages that were sealed, and the frames by which passes
sent their invites. -/
structure Seen where
  keys : String → ChannelKey → Prop
  rosters : List PresenceAgent → Prop
  seals (text id recipient ciphertext : String) : Prop
  frames : String → ClientFrame → Prop

/-- A message that carries a key of the channel. -/
def Seen.Carries (seen : Seen) (channel text : String) : Prop :=
  ∃ ch priv, seen.keys channel ch ∧ ch.priv = some priv ∧ text = chankeyText channel ch.pub priv

/-- The agent has the name in a roster. -/
def Seen.Named (seen : Seen) (c : Codec) (name agentId : String) : Prop :=
  ∃ agents, seen.rosters agents ∧ ∃ a ∈ agents, a.agentId = agentId ∧
    a.name.map c.toLowerCase = some (c.toLowerCase name)

def DmFor.Carries (seen : Seen) (text : String) : DmFor → Prop
  | .caller _ => True
  | .invite channel _ _ _ => seen.Carries channel text

def Flow.Carries (seen : Seen) : Flow → Prop
  | .ensure channel ch _ _ => seen.keys channel ch
  | .info _ text w | .ready _ text _ w => w.Carries seen text
  | _ => True

/-- The entry is still there, and the recipient has its name. -/
def Delivery.Fits (seen : Seen) (c : Codec) (l : List PendingInvite) (d : Delivery) : Prop :=
  seen.rosters d.agents ∧ ∃ p, l[d.i]? = some p ∧ p.channel = d.channel ∧
    seen.Named c p.name d.recipient

/-- A message that carries a key of the entry's channel to an agent with the entry's name. -/
def PendingInvite.SentBy (seen : Seen) (c : Codec) (p : PendingInvite) (id : String) : Prop :=
  ∃ recipient text ciphertext, seen.Named c p.name recipient ∧ seen.Carries p.channel text ∧
    seen.seals text id recipient ciphertext ∧
      seen.frames id (.send (some recipient) none id ciphertext)

namespace Bridge

def Fits (seen : Seen) (c : BridgeClient) (d : Option Delivery) : Prop :=
  ∀ x ∈ d, x.Fits seen c.codec c.pendingInvites

/-- The entry is still there, and it was sent if the pass returns without an error. -/
def Returned (seen : Seen) (c : BridgeClient) (ret : InviteReturn) : Prop :=
  seen.rosters ret.agents ∧ ∃ p, c.pendingInvites[ret.i]? = some p ∧
    ∀ r, ret.result = .ok r → p.SentBy seen c.codec r.id

def pendingInvites (s : Bridge) : List PendingInvite := s.client.pendingInvites

def isOpen (c : BridgeClient) : Bool := c.ws.any fun i => c.readyState i = some .opened

/-- The next message can be sealed. -/
def seals (s : Bridge) (text recipient xPub : String) : Bool :=
  (s.sealMsg s.posted text (s.msgId s.posted) recipient s.client.xpriv xPub).isOk

/-- The passes that wait for one of their invites. -/
def delivering (s : Bridge) : ℕ :=
  (s.flows.countP fun e => e.2.delivery.isSome) + s.returns.length

/-- All the passes there are. -/
def passes (s : Bridge) : ℕ := s.client.passes + s.delivering

def listed (s : Bridge) := s.client.listed

def seesKeys (s : Bridge) (seen : Seen) : Prop :=
  ∀ channel ch, s.client.channels.get channel = some ch → seen.keys channel ch

/-- Holds between any two `await`s, with `k` more passes under way. -/
structure Inv (seen : Seen) (k : ℕ) (s : Bridge) : Prop where
  room : s.client.Room (s.delivering + k)
  fits : ∀ e ∈ s.flows, Fits seen s.client e.2.delivery
  carries : ∀ e ∈ s.flows, e.2.Carries seen
  returned : ∀ ret ∈ s.returns, Returned seen s.client ret

variable {seen : Seen} {s t : Bridge} {k : ℕ}

theorem fits_congr {c c' : BridgeClient} (h : c'.listed = c.listed) {d : Option Delivery}
    (hd : Fits seen c d) : Fits seen c' d := by
  simp only [BridgeClient.listed, Prod.mk.injEq] at h
  intro x hx
  unfold Delivery.Fits
  rw [h.1, h.2.2]
  exact hd x hx

theorem returned_congr {c c' : BridgeClient} (h : c'.listed = c.listed) {ret : InviteReturn}
    (hret : Returned seen c ret) : Returned seen c' ret := by
  simp only [BridgeClient.listed, Prod.mk.injEq] at h
  unfold Returned
  rw [h.1, h.2.2]
  exact hret

theorem Inv.congr (h : Inv seen k s) (hlisted : t.listed = s.listed)
    (hroom : ∀ j, s.client.Room j → t.client.Room j) (hflows : t.flows = s.flows)
    (hreturns : t.returns = s.returns) : Inv seen k t := by
  constructor
  · unfold delivering
    rw [hflows, hreturns]
    exact hroom _ h.room
  · rw [hflows]
    exact fun e he => fits_congr hlisted (h.fits e he)
  · rw [hflows]
    exact h.carries
  · rw [hreturns]
    exact fun ret hret => returned_congr hlisted (h.returned ret hret)

/-- The client makes a call that an operation awaits. -/
theorem Inv.await {client : BridgeClient} {f : Flow} (h : Inv seen (k + weight f.delivery) s)
    (hclient : client.inviting = s.client.inviting) (hfits : Fits seen s.client f.delivery)
    (hcarries : f.Carries seen) : Inv seen k (s.await client f) := by
  have hlisted := BridgeClient.listed_of_inviting hclient
  have hdelivering : (s.await client f).delivering = s.delivering + weight f.delivery := by
    simp [delivering, Bridge.await, List.countP_append, weight, List.countP_singleton]
    omega
  constructor
  · rw [hdelivering, Nat.add_right_comm, Nat.add_assoc]
    exact h.room.of_inviting hclient
  · intro e he
    apply fits_congr hlisted
    rcases List.mem_append.mp he with he | he
    · exact h.fits e he
    · rw [List.mem_singleton.mp he]
      exact hfits
  · intro e he
    rcases List.mem_append.mp he with he | he
    · exact h.carries e he
    · rw [List.mem_singleton.mp he]
      exact hcarries
  · exact fun ret hret => returned_congr hlisted (h.returned ret hret)

/-! ### Channels -/

theorem ensureChannelKeys_inv (h : Inv seen k s) (name : String) :
    Inv seen k (s.ensureChannelKeys name).1 := by
  unfold ensureChannelKeys
  split
  · exact h
  · exact h.congr rfl (fun _ hj => hj) rfl rfl

theorem ensureChannelKeys_listed (s : Bridge) (name : String) :
    (s.ensureChannelKeys name).1.listed = s.listed := by
  unfold ensureChannelKeys
  split <;> rfl

theorem ensureChannelKeys_get (s : Bridge) (name : String) :
    (s.ensureChannelKeys name).1.client.channels.get name = some (s.ensureChannelKeys name).2 := by
  unfold ensureChannelKeys
  split
  next known hknown => exact hknown
  next => simp [persistChannel]

/-- `ensureChannel` parks one flow, with a key the channel has. -/
theorem ensureChannel_eq (s : Bridge) (name : String) (w : EnsureFor) : ∃ created,
    let next := s.ensureChannelKeys name
    s.ensureChannel name w =
      next.1.await (next.1.client.join name next.2.pub) (.ensure name next.2 created w) := by
  unfold ensureChannel
  cases hknown : s.client.channels.get name with
  | some known =>
    refine ⟨false, ?_⟩
    simp only [ensureChannelKeys, hknown]
  | none => exact ⟨true, rfl⟩

theorem channels_join (c : BridgeClient) (name pub : String) :
    (c.join name pub).channels = c.channels := by
  have h := (BridgeClient.join_keeps c name pub).inviting
  simp only [BridgeClient.inviting, BridgeClient.held, Prod.mk.injEq] at h
  exact h.1.1

theorem ensureChannel_inv {name : String} {w : EnsureFor}
    (h : Inv seen (k + weight (w.delivery name)) s) (hfits : Fits seen s.client (w.delivery name))
    (hkeys : (s.ensureChannel name w).seesKeys seen) : Inv seen k (s.ensureChannel name w) := by
  obtain ⟨created, heq⟩ := s.ensureChannel_eq name w
  rw [heq] at hkeys ⊢
  have hget := s.ensureChannelKeys_get name
  apply (ensureChannelKeys_inv h name).await (BridgeClient.join_keeps _ _ _).inviting
  · exact fits_congr (s.ensureChannelKeys_listed name) hfits
  · apply hkeys
    change (BridgeClient.join _ _ _).channels.get name = _
    rw [channels_join]
    exact hget

theorem ensureChannel_listed (s : Bridge) (name : String) (w : EnsureFor) :
    (s.ensureChannel name w).listed = s.listed := by
  obtain ⟨created, heq⟩ := s.ensureChannel_eq name w
  rw [heq]
  have hjoin := BridgeClient.join_keeps (s.ensureChannelKeys name).1.client name
    (s.ensureChannelKeys name).2.pub
  exact (BridgeClient.listed_of_inviting hjoin.inviting).trans (s.ensureChannelKeys_listed name)

/-! ### The delivery pass -/

theorem endPass_inv (h : Inv seen 1 s) : Inv seen 0 s.endPass := by
  have hroom := h.room
  refine ⟨?_, h.fits, h.carries, h.returned⟩
  unfold BridgeClient.Room at hroom
  show s.client.passes + (s.delivering + 0) ≤ 0
  split at hroom
  · omega
  · omega

theorem mem_onlineFor {c : BridgeClient} {p : PendingInvite} {agents : List PresenceAgent}
    {a : PresenceAgent} (h : a ∈ c.onlineFor p agents) : a ∈ agents ∧ a.agentId ≠ c.agentId ∧
      a.name.map c.codec.toLowerCase = some (c.codec.toLowerCase p.name) := by
  simpa [BridgeClient.onlineFor] using h

theorem deliverFrom_inv {agents : List PresenceAgent} {n : ℕ} (h : Inv seen 1 s)
    (hroster : seen.rosters agents) (hkeys : (s.deliverFrom agents n).seesKeys seen) :
    Inv seen 0 (s.deliverFrom agents n) := by
  induction n with
  | zero => exact endPass_inv h
  | succ i ih =>
    rw [deliverFrom] at hkeys ⊢
    cases hp : s.client.pendingInvites[i]? with
    | none => exact endPass_inv h
    | some p =>
      simp only [hp] at hkeys ⊢
      split at hkeys
      next agent hagent =>
        have hmem : agent ∈ s.client.onlineFor p agents := by simp [hagent]
        obtain ⟨hmem, -, hname⟩ := mem_onlineFor hmem
        apply ensureChannel_inv (w := .invite agent.agentId (.pass i agents)) h _ hkeys
        intro d hd
        obtain rfl := Option.mem_some_iff.mp hd
        exact ⟨hroster, p, hp, rfl, agents, hroster, agent, hmem, rfl, hname⟩
      next => exact ih hkeys

theorem deliverFrom_listed (s : Bridge) (agents : List PresenceAgent) (n : ℕ) :
    (s.deliverFrom agents n).listed = s.listed := by
  induction n with
  | zero => rfl
  | succ i ih =>
    rw [deliverFrom]
    split
    · rfl
    · split
      · exact ensureChannel_listed _ _ _
      · exact ih

/-- While a pass is under way no other one waits. -/
theorem Inv.alone (h : Inv seen 1 s) :
    (∀ e ∈ s.flows, e.2.delivery = none) ∧ s.returns = [] := by
  have hroom := h.room
  have hnone : s.delivering = 0 := by
    unfold BridgeClient.Room at hroom
    split at hroom <;> omega
  unfold delivering at hnone
  constructor
  · intro e he
    have hcount := List.countP_eq_zero.mp (Nat.add_eq_zero_iff.mp hnone).1 e he
    simpa using hcount
  · exact List.length_eq_zero_iff.mp (Nat.add_eq_zero_iff.mp hnone).2

/-- The list once one of its invites is delivered. -/
def invitedState (s : Bridge) (i : ℕ) : Bridge := { s with client := s.client.invited i }

theorem invited_inv {i : ℕ} (h : Inv seen 1 s) : Inv seen 1 (s.invitedState i) := by
  obtain ⟨hflows, hreturns⟩ := h.alone
  unfold invitedState BridgeClient.invited
  split
  · exact h
  next p hp =>
    refine ⟨h.room, ?_, h.carries, ?_⟩
    · intro e he d hd
      rw [hflows e he] at hd
      nomatch hd
    · intro ret hret
      change ret ∈ s.returns at hret
      rw [hreturns] at hret
      nomatch hret

theorem invited_listed {i : ℕ} {p : PendingInvite} (h : s.pendingInvites[i]? = some p) :
    (s.invitedState i).listed =
      (s.pendingInvites.eraseIdx i, s.pendingInvites.eraseIdx i, s.client.codec) := by
  have hp : s.client.pendingInvites[i]? = some p := h
  unfold invitedState BridgeClient.invited
  rw [hp]
  rfl

/-- A pass has its `invite` settled. -/
theorem Inv.returns {ret : InviteReturn} (h : Inv seen 1 s) (hret : Returned seen s.client ret) :
    Inv seen 0 { s with returns := s.returns ++ [ret] } := by
  have hdelivering : ({ s with returns := s.returns ++ [ret] } : Bridge).delivering =
      s.delivering + 1 := by
    unfold delivering
    rw [List.length_append, List.length_singleton, Nat.add_assoc]
  refine ⟨?_, h.fits, h.carries, ?_⟩
  · rw [hdelivering]
    exact h.room
  · intro ret' hret'
    rcases List.mem_append.mp hret' with hret' | hret'
    · exact h.returned ret' hret'
    · rw [List.mem_singleton.mp hret']
      exact hret

theorem inviteFailed_inv {e : OpError} {w : InviteFor} {channel recipient : String}
    (h : Inv seen (weight (w.delivery channel recipient)) s)
    (hfits : Fits seen s.client (w.delivery channel recipient)) :
    Inv seen 0 (s.inviteFailed e w) := by
  cases w with
  | caller op => exact h.congr rfl (fun _ hj => hj) rfl rfl
  | pass i agents =>
    obtain ⟨hroster, p, hp, -⟩ := hfits _ rfl
    apply h.returns
    refine ⟨hroster, p, hp, ?_⟩
    intro r hr
    nomatch hr

theorem inviteFailed_listed (s : Bridge) (e : OpError) (w : InviteFor) :
    (s.inviteFailed e w).listed = s.listed := by
  cases w <;> rfl

theorem inviteSent_inv {r : SendResult} {w : InviteFor} {channel recipient : String}
    (h : Inv seen (weight (w.delivery channel recipient)) s)
    (hfits : Fits seen s.client (w.delivery channel recipient))
    (hsent : (w.delivery channel recipient).isSome = true → ∀ p : PendingInvite,
      p.channel = channel → seen.Named s.client.codec p.name recipient →
        p.SentBy seen s.client.codec r.id) : Inv seen 0 (s.inviteSent r w) := by
  cases w with
  | caller op => exact h.congr rfl (fun _ hj => hj) rfl rfl
  | pass i agents =>
    obtain ⟨hroster, p, hp, hchannel, hnamed⟩ := hfits _ rfl
    apply h.returns
    refine ⟨hroster, p, hp, ?_⟩
    intro r' hr'
    obtain rfl := Except.ok.inj hr'
    exact hsent rfl p hchannel hnamed

theorem inviteSent_listed (s : Bridge) (r : SendResult) (w : InviteFor) :
    (s.inviteSent r w).listed = s.listed := by
  cases w <;> rfl

/-! ### Messages -/

theorem dmFailed_inv {e : OpError} {w : DmFor} {recipient : String}
    (h : Inv seen (weight (w.delivery recipient)) s)
    (hfits : Fits seen s.client (w.delivery recipient)) : Inv seen 0 (s.dmFailed e w) := by
  cases w with
  | caller op => exact h.congr rfl (fun _ hj => hj) rfl rfl
  | invite channel ch created w => exact inviteFailed_inv h hfits

theorem dmFailed_listed (s : Bridge) (e : OpError) (w : DmFor) :
    (s.dmFailed e w).listed = s.listed := by
  cases w with
  | caller op => rfl
  | invite channel ch created w => exact inviteFailed_listed _ _ _

theorem dm_inv {recipient text : String} {w : DmFor}
    (h : Inv seen (weight (w.delivery recipient)) s)
    (hfits : Fits seen s.client (w.delivery recipient)) (hcarries : w.Carries seen text) :
    Inv seen 0 (s.dm recipient text w) := by
  unfold dm
  split
  · exact dmFailed_inv h hfits
  · have hclient := (BridgeClient.agentInfo_keeps s.client recipient).inviting
    apply Inv.await (f := .info recipient text w) _ hclient hfits
      hcarries
    rw [Nat.zero_add]
    exact h

theorem dm_listed (s : Bridge) (recipient text : String) (w : DmFor) :
    (s.dm recipient text w).listed = s.listed := by
  unfold dm
  split
  · exact dmFailed_listed _ _ _
  · exact BridgeClient.listed_of_inviting (BridgeClient.agentInfo_keeps _ _).inviting

theorem dmInfo_inv {recipient text : String} {info : PeerInfo} {w : DmFor}
    (h : Inv seen (weight (w.delivery recipient)) s)
    (hfits : Fits seen s.client (w.delivery recipient)) (hcarries : w.Carries seen text) :
    Inv seen 0 (s.dmInfo recipient text info w) := by
  unfold dmInfo
  split
  · exact dmFailed_inv h hfits
  · apply Inv.await (f := .ready recipient text _ w) _ (BridgeClient.ready_keeps _).inviting hfits
      hcarries
    rw [Nat.zero_add]
    exact h

theorem dmInfo_listed (s : Bridge) (recipient text : String) (info : PeerInfo) (w : DmFor) :
    (s.dmInfo recipient text info w).listed = s.listed := by
  unfold dmInfo
  split
  · exact dmFailed_listed _ _ _
  · exact BridgeClient.listed_of_inviting (BridgeClient.ready_keeps _).inviting

theorem sendFrame_sent {c c' : BridgeClient} {f : ClientFrame} (h : c.sendFrame f = .ok c') :
    isOpen c = true ∧ ∃ i, c'.sent = c.sent ++ [(i, f)] := by
  unfold BridgeClient.sendFrame at h
  split at h
  · nomatch h
  next i hi =>
    split at h
    next hopened =>
      cases h
      exact ⟨by simp [isOpen, hi, hopened], i, rfl⟩
    · nomatch h

/-- A message that is sent is a frame on the socket. -/
theorem signAndSend_ok {recipient channel : Option String} {text xPub id : String}
    (h : s.signAndSend recipient channel text xPub = .ok (t, id)) :
    ∃ client ciphertext, t = { s with client, posted := s.posted + 1 } ∧ id = s.msgId s.posted ∧
      s.sealMsg s.posted text id ((recipient <|> channel).getD "") s.client.xpriv xPub =
        .ok ciphertext ∧
      s.client.sendFrame (.send recipient channel id ciphertext) = .ok client := by
  unfold signAndSend at h
  dsimp only at h
  split at h
  · nomatch h
  next ciphertext hsealed =>
    split at h
    next client hclient =>
      simp only [Except.ok.injEq, Prod.mk.injEq] at h
      obtain ⟨rfl, rfl⟩ := h
      exact ⟨client, ciphertext, rfl, rfl, hsealed, hclient⟩
    next => nomatch h

theorem signAndSend_inv {recipient channel : Option String} {text xPub id : String}
    (h : Inv seen k s) (hsend : s.signAndSend recipient channel text xPub = .ok (t, id)) :
    Inv seen k t ∧ t.listed = s.listed := by
  obtain ⟨client, _, rfl, -, -, hframe⟩ := signAndSend_ok hsend
  have hclient := (BridgeClient.keeps_sendFrame hframe).inviting
  have hlisted := BridgeClient.listed_of_inviting hclient
  exact ⟨h.congr hlisted (fun _ hj => hj.of_inviting hclient) rfl rfl, hlisted⟩

theorem dmSent_listed (s : Bridge) (r : SendResult) (w : DmFor) :
    (s.dmSent r w).listed = s.listed := by
  cases w with
  | caller op => rfl
  | invite channel ch created w => exact inviteSent_listed _ _ _

theorem sent_dmSent (s : Bridge) (r : SendResult) (w : DmFor) :
    (s.dmSent r w).client.sent = s.client.sent := by
  cases w with
  | caller op => rfl
  | invite channel ch created w => cases w <;> rfl

theorem dmReady_listed (s : Bridge) (recipient text xPub : String) (w : DmFor) :
    (s.dmReady recipient text xPub w).listed = s.listed := by
  unfold dmReady
  split
  next t id hsend =>
    obtain ⟨client, _, rfl, -, -, hframe⟩ := signAndSend_ok hsend
    have hclient := (BridgeClient.keeps_sendFrame hframe).inviting
    exact (dmSent_listed _ _ _).trans (BridgeClient.listed_of_inviting hclient)
  next => exact dmFailed_listed _ _ _

/-- The frame that a step puts on the socket is seen. -/
def seesFrame (s t : Bridge) (seen : Seen) : Prop :=
  ∀ socket f, t.client.sent[s.client.sent.length]? = some (socket, f) →
    seen.frames (s.msgId s.posted) f

def seesSeals (s : Bridge) (seen : Seen) : Prop :=
  ∀ n text recipient xPriv xPub ciphertext,
    s.sealMsg n text (s.msgId n) recipient xPriv xPub = .ok ciphertext →
      seen.seals text (s.msgId n) recipient ciphertext

theorem seals_of_ok {text recipient xPub ciphertext : String}
    (h : s.sealMsg s.posted text (s.msgId s.posted) recipient s.client.xpriv xPub =
      .ok ciphertext) : s.seals text recipient xPub = true := by
  rw [seals, h]
  rfl

theorem dmReady_inv {recipient text xPub : String} {w : DmFor}
    (h : Inv seen (weight (w.delivery recipient)) s)
    (hfits : Fits seen s.client (w.delivery recipient)) (hcarries : w.Carries seen text)
    (hseals : s.seesSeals seen) (hframe : (w.delivery recipient).isSome = true →
      isOpen s.client = true → s.seals text recipient xPub = true →
        s.seesFrame (s.dmReady recipient text xPub w) seen) :
    Inv seen 0 (s.dmReady recipient text xPub w) := by
  unfold dmReady at hframe ⊢
  split at hframe
  next t id hsend =>
    obtain ⟨ht, hlisted⟩ := signAndSend_inv h hsend
    obtain ⟨client, ciphertext, rfl, rfl, hsealed, hsendFrame⟩ := signAndSend_ok hsend
    obtain ⟨hopen, socket, hsent⟩ := sendFrame_sent hsendFrame
    cases w with
    | caller op => exact ht.congr rfl (fun _ hj => hj) rfl rfl
    | invite channel ch created w =>
      apply inviteSent_inv ht (fits_congr hlisted hfits)
      intro hpass p hchannel hnamed
      subst hchannel
      refine ⟨recipient, text, _, hnamed, hcarries, hseals _ _ _ _ _ _ hsealed, ?_⟩
      apply hframe hpass hopen (seals_of_ok hsealed) socket
      rw [sent_dmSent]
      change client.sent[_]? = _
      rw [hsent, List.getElem?_concat_length]
  next => exact dmFailed_inv h hfits

theorem sendReady_inv {op : ℕ} {channel text : String} {ch : ChannelKey} {created : Bool}
    (h : Inv seen 0 s) : Inv seen 0 (s.sendReady op channel ch created text) ∧
      (s.sendReady op channel ch created text).listed = s.listed := by
  unfold sendReady
  split
  next t id hsend =>
    obtain ⟨ht, hlisted⟩ := signAndSend_inv h hsend
    exact ⟨ht.congr rfl (fun _ hj => hj) rfl rfl, hlisted⟩
  next => exact ⟨h.congr rfl (fun _ hj => hj) rfl rfl, rfl⟩

end Bridge

end Dap
