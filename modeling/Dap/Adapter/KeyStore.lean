import Dap.Adapter.Deliveries

/-! The channel keys an adapter has in memory and in the channels file, and what each operation of
the bridge does to them (`adapters/mcp-bridge/src/client.ts`). -/
namespace Dap

/-- The channels that a client knows, and the channels file where it uses one. -/
structure KeyStore where
  channels : JsMap String ChannelKey
  file : Option (Option (Record StoredKeys))

namespace KeyStore

variable {s t u : KeyStore} {name : String}

/-- What the file has for a channel. -/
def stored (s : KeyStore) (name : String) : Option ChannelKeys :=
  (s.file.elim ∅ loadChannelKeys)[name]?

def learn (s : KeyStore) (name : String) (keys : ChannelKeys) : KeyStore where
  channels := s.channels.set name ⟨name, keys.pub, some keys.priv⟩
  file := s.file.map fun file => some (persistChannelKeys file (name, keys))

/-- If the channel is known, it keeps its key, in memory and in the file. -/
def Keeps (s : KeyStore) (name : String) (t : KeyStore) : Prop :=
  ∀ ch, s.channels.get name = some ch →
    t.channels.get name = some ch ∧ t.stored name = s.stored name

/-- At most one channel gets a key, and it had none. -/
inductive Provisions (s : KeyStore) : KeyStore → Prop
  | same : Provisions s s
  | creates (name : String) (keys : ChannelKeys) (h : s.channels.get name = none) :
    Provisions s (s.learn name keys)

theorem Keeps.refl (s : KeyStore) : s.Keeps name s := fun _ h => ⟨h, rfl⟩

theorem Keeps.trans (h : s.Keeps name t) (h' : t.Keeps name u) : s.Keeps name u := by
  intro ch hch
  obtain ⟨ht, hstored⟩ := h ch hch
  obtain ⟨hu, hstored'⟩ := h' ch ht
  exact ⟨hu, hstored'.trans hstored⟩

end KeyStore

theorem loadChannelKeys_proto (file : Option (Record StoredKeys)) :
    (loadChannelKeys file)["__proto__"]? = none := by
  have hfold : ∀ (l : List (String × StoredKeys)) (out : Record ChannelKeys),
      out["__proto__"]? = none → (l.foldl keepEntry out)["__proto__"]? = none := by
    intro l
    induction l with
    | nil => exact fun out hout => hout
    | cons entry l ih =>
      intro out hout
      apply ih
      unfold keepEntry
      split
      · unfold Record.assign
        split
        · exact hout
        next hname => rw [GoMap.getElem?_insert_ite, if_neg hname, hout]
      · exact hout
  cases file with
  | none => rfl
  | some raw => exact hfold _ _ rfl

/-- A file that `persistChannelKeys` has written has what it had, but for the one channel. -/
theorem getElem?_persistChannelKeys (file : Option (Record StoredKeys))
    (call : String × ChannelKeys) (name : String) :
    (loadChannelKeys (some (persistChannelKeys file call)))[name]? =
      ((loadChannelKeys file).assign call.1 call.2)[name]? := by
  by_cases hproto : name = "__proto__"
  · subst hproto
    rw [loadChannelKeys_proto]
    unfold Record.assign
    split
    · exact (loadChannelKeys_proto file).symm
    next hname => rw [GoMap.getElem?_insert_ite, if_neg hname, loadChannelKeys_proto]
  · cases hkeys : ((loadChannelKeys file).assign call.1 call.2)[name]? with
    | some keys => exact loadChannelKeys_persistChannelKeys file call hproto hkeys
    | none =>
      have hnone : (loadChannelKeys (some (persistChannelKeys file call)))[name]? =
          (∅ : Record ChannelKeys)[name]? := by
        apply foldl_keepEntry_of_notMem
        rintro ⟨name', stored⟩ hmem rfl
        rw [GoMap.mem_toList, persistChannelKeys, Std.ExtTreeMap.getElem?_map, hkeys] at hmem
        cases hmem
      rw [hnone]
      rfl

namespace KeyStore

variable {s t u : KeyStore} {name : String}

/-- The file gets the key of a channel. -/
def persist (s : KeyStore) (name : String) (keys : ChannelKeys) : KeyStore :=
  { s with file := s.file.map fun file => some (persistChannelKeys file (name, keys)) }

theorem stored_persist_self (s : KeyStore) (keys : ChannelKeys) (hfile : s.file ≠ none)
    (hname : name ≠ "__proto__") : (s.persist name keys).stored name = some keys := by
  unfold stored persist
  cases hs : s.file with
  | none => exact absurd hs hfile
  | some file =>
    change (loadChannelKeys (some (persistChannelKeys file (name, keys))))[name]? = _
    rw [getElem?_persistChannelKeys]
    exact Record.getElem?_assign_self _ _ hname

theorem stored_persist_of_ne (s : KeyStore) (keys : ChannelKeys) {name' : String}
    (h : name ≠ name') : (s.persist name keys).stored name' = s.stored name' := by
  unfold stored persist
  cases s.file with
  | none => rfl
  | some file =>
    change (loadChannelKeys (some (persistChannelKeys file (name, keys))))[name']? = _
    rw [getElem?_persistChannelKeys]
    exact Record.getElem?_assign_of_ne _ _ h

theorem keeps_persist (s : KeyStore) {name' : String} (keys : ChannelKeys) (h : name' ≠ name) :
    s.Keeps name (s.persist name' keys) := fun _ hch => ⟨hch, s.stored_persist_of_ne keys h⟩

theorem keeps_set (s : KeyStore) (ch : ChannelKey) (h : ch.name ≠ name) :
    s.Keeps name { s with channels := s.channels.set ch.name ch } :=
  fun _ hch => ⟨(s.channels.get_set_of_ne _ h).trans hch, rfl⟩

theorem keeps_learn (s : KeyStore) {name' : String} (keys : ChannelKeys) (h : name' ≠ name) :
    s.Keeps name (s.learn name' keys) :=
  (s.keeps_set ⟨name', keys.pub, some keys.priv⟩ h).trans (keeps_persist _ keys h)

theorem Provisions.keeps (h : s.Provisions t) : s.Keeps name t := by
  cases h with
  | same => exact Keeps.refl s
  | creates name' keys hname =>
    intro ch hch
    refine s.keeps_learn keys ?_ ch hch
    rintro rfl
    rw [hname] at hch
    nomatch hch

end KeyStore

/-! ### The client of the bridge -/

namespace BridgeClient

variable {s t : BridgeClient}

theorem channels_of_inviting (h : t.inviting = s.inviting) : t.channels = s.channels := by
  simp only [inviting, held, Prod.mk.injEq] at h
  exact h.1.1

theorem MayPoll.channels (h : MayPoll s t) : t.channels = s.channels := by
  rcases h with h | ⟨-, h⟩
  · exact channels_of_inviting h
  · simp only [inviting, held, Prod.mk.injEq] at h
    exact h.1.1

/-- The key that an event brings the client. -/
def learns (s : BridgeClient) : BridgeEvent → Option ChannelKey
  | .addChannel ch => some ch
  | e => s.chankeyOf e

theorem channels_received (s : BridgeClient) (m : MsgFrame) (sender : PeerInfo) :
    (s.received m sender).channels =
      ((match s.decryptMsg m sender with
        | .ok ev => if ev.dm then s.codec.parseInvite ev.text else none
        | .error _ => none).elim s.channels fun ch => s.channels.set ch.name ch) := by
  unfold received
  cases s.decryptMsg m sender with
  | error reason => rfl
  | ok ev =>
    dsimp only
    split
    next hnone =>
      rw [hnone]
      rfl
    next ch hch =>
      rw [hch]
      have hjoin := join_keeps { s with channels := s.channels.set ch.name ch } ch.name ch.pub
      exact channels_of_inviting hjoin.inviting

theorem channels_resume (s : BridgeClient) {k : Kont} (o : Settlement)
    (hk : ∀ m sender, k = .decrypt m → o ≠ .info sender) :
    (s.resume k o).channels = s.channels := by
  cases k with
  | deliverInvites => cases o <;> rfl
  | join r name chanPubkey =>
    cases o with
    | rejected e => exact channels_of_inviting (keeps_settle _ _ _).inviting
    | done | info p | agents as => exact channels_of_inviting (joinReady_keeps _ _ _ _).inviting
  | decrypt m =>
    cases o with
    | info sender => exact absurd rfl (hk m sender rfl)
    | done | agents as | rejected e => rfl

theorem channels_runTask (s : BridgeClient) (n : ℕ) : (s.runTask n).channels =
    (s.chankeyOf (.task n)).elim s.channels fun ch => s.channels.set ch.name ch := by
  unfold runTask chankeyOf
  cases htask : s.tasks[n]? with
  | none => simp only [htask, Option.elim_none]
  | some task =>
    obtain ⟨r, k⟩ := task
    have htaken : ∀ o, (∀ m sender, k = .decrypt m → o ≠ .info sender) →
        ({ s with tasks := s.tasks.eraseIdx n }.resume k o).channels = s.channels :=
      fun o hk => channels_resume { s with tasks := s.tasks.eraseIdx n } o hk
    cases k with
    | join r' name chanPubkey | deliverInvites =>
      simp only [htask, Option.elim_none]
      cases s.settled.lookup r with
      | none => rfl
      | some o => exact htaken o (by rintro m sender ⟨⟩)
    | decrypt m =>
      simp only [htask]
      cases s.settled.lookup r with
      | none => rfl
      | some o =>
        cases o with
        | info sender => exact channels_received { s with tasks := s.tasks.eraseIdx n } m sender
        | done | agents as | rejected e => rfl

/-- Only an invite and `addChannel` change the channels. -/
theorem step_channels {e : BridgeEvent} (hdrives : drives e = false) :
    (s.step e).channels = (s.learns e).elim s.channels fun ch => s.channels.set ch.name ch := by
  cases e with
  | armInvite | invited | invitesDone | send => nomatch hdrives
  | addChannel ch => rfl
  | task n => exact channels_runTask s n
  | outside env config now => rfl
  | _ => exact (step_mayPoll rfl).channels

end BridgeClient

/-! ### The operations of the bridge -/

namespace Bridge

variable {s t : Bridge}

def keyStore (s : Bridge) : KeyStore := ⟨s.client.channels, s.channelsFile⟩

theorem ensureChannelKeys_provisions (s : Bridge) (name : String) :
    s.keyStore.Provisions (s.ensureChannelKeys name).1.keyStore := by
  unfold ensureChannelKeys
  split
  · exact .same
  next hnone => exact .creates name (s.newKeypair s.created) hnone

theorem keyStore_await {client : BridgeClient} (f : Flow)
    (h : client.inviting = s.client.inviting) : (s.await client f).keyStore = s.keyStore := by
  show KeyStore.mk client.channels s.channelsFile = s.keyStore
  rw [BridgeClient.channels_of_inviting h]
  rfl

/-- `ensureChannel` gives the channel a key if it has none, whoever awaits it. -/
theorem keyStore_ensureChannel (s : Bridge) (name : String) (w : EnsureFor) :
    (s.ensureChannel name w).keyStore = (s.ensureChannelKeys name).1.keyStore := by
  obtain ⟨created, heq⟩ := s.ensureChannel_eq name w
  rw [heq]
  exact keyStore_await _ (BridgeClient.join_keeps _ _ _).inviting

theorem ensureChannel_provisions (s : Bridge) (name : String) (w : EnsureFor) :
    s.keyStore.Provisions (s.ensureChannel name w).keyStore := by
  rw [keyStore_ensureChannel]
  exact ensureChannelKeys_provisions s name

theorem deliverFrom_provisions (s : Bridge) (agents : List PresenceAgent) (n : ℕ) :
    s.keyStore.Provisions (s.deliverFrom agents n).keyStore := by
  induction n with
  | zero => exact .same
  | succ i ih =>
    rw [deliverFrom]
    split
    · exact .same
    · split
      · exact ensureChannel_provisions _ _ _
      · exact ih

@[simp] theorem keyStore_inviteFailed (s : Bridge) (e : OpError) (w : InviteFor) :
    (s.inviteFailed e w).keyStore = s.keyStore := by
  cases w <;> rfl

@[simp] theorem keyStore_inviteSent (s : Bridge) (r : SendResult) (w : InviteFor) :
    (s.inviteSent r w).keyStore = s.keyStore := by
  cases w <;> rfl

@[simp] theorem keyStore_dmFailed (s : Bridge) (e : OpError) (w : DmFor) :
    (s.dmFailed e w).keyStore = s.keyStore := by
  cases w with
  | caller op => rfl
  | invite channel ch created w => exact keyStore_inviteFailed _ _ _

@[simp] theorem keyStore_dmSent (s : Bridge) (r : SendResult) (w : DmFor) :
    (s.dmSent r w).keyStore = s.keyStore := by
  cases w with
  | caller op => rfl
  | invite channel ch created w => exact keyStore_inviteSent _ _ _

@[simp] theorem keyStore_dm (s : Bridge) (recipient text : String) (w : DmFor) :
    (s.dm recipient text w).keyStore = s.keyStore := by
  unfold dm
  split
  · exact keyStore_dmFailed _ _ _
  · exact keyStore_await _ (BridgeClient.agentInfo_keeps _ _).inviting

@[simp] theorem keyStore_dmInfo (s : Bridge) (recipient text : String) (info : PeerInfo)
    (w : DmFor) : (s.dmInfo recipient text info w).keyStore = s.keyStore := by
  unfold dmInfo
  split
  · exact keyStore_dmFailed _ _ _
  · exact keyStore_await _ (BridgeClient.ready_keeps _).inviting

theorem keyStore_signAndSend {recipient channel : Option String} {text xPub id : String}
    (h : s.signAndSend recipient channel text xPub = .ok (t, id)) : t.keyStore = s.keyStore := by
  obtain ⟨client, _, rfl, -, -, hframe⟩ := signAndSend_ok h
  show KeyStore.mk client.channels s.channelsFile = s.keyStore
  rw [BridgeClient.channels_of_inviting (BridgeClient.keeps_sendFrame hframe).inviting]
  rfl

@[simp] theorem keyStore_dmReady (s : Bridge) (recipient text xPub : String) (w : DmFor) :
    (s.dmReady recipient text xPub w).keyStore = s.keyStore := by
  unfold dmReady
  split
  next t id hsend => exact (keyStore_dmSent _ _ _).trans (keyStore_signAndSend hsend)
  next => exact keyStore_dmFailed _ _ _

@[simp] theorem keyStore_sendReady (s : Bridge) (op : ℕ) (channel : String) (ch : ChannelKey)
    (created : Bool) (text : String) :
    (s.sendReady op channel ch created text).keyStore = s.keyStore := by
  unfold sendReady
  split
  next t id hsend =>
    have hsent := keyStore_signAndSend hsend
    exact hsent
  next => rfl

@[simp] theorem keyStore_ensureFailed (s : Bridge) (e : ClientError) (w : EnsureFor) :
    (s.ensureFailed e w).keyStore = s.keyStore := by
  cases w with
  | caller op | send op text | arm op name => rfl
  | invite recipient w => exact keyStore_inviteFailed _ _ _

theorem channels_armInvite (c : BridgeClient) (name channel : String) :
    (c.armInvite name channel).channels = c.channels := by
  unfold BridgeClient.armInvite
  dsimp only
  rw [(BridgeClient.pollPendingInvites_polls _).mayPoll.channels]
  split <;> rfl

@[simp] theorem keyStore_ensured (s : Bridge) (channel : String) (ch : ChannelKey)
    (created : Bool) (w : EnsureFor) : (s.ensured channel ch created w).keyStore = s.keyStore := by
  cases w with
  | caller op => rfl
  | send op text => exact keyStore_await _ (BridgeClient.ready_keeps _).inviting
  | invite recipient w =>
    unfold ensured
    dsimp only
    split
    · exact keyStore_inviteFailed _ _ _
    · exact keyStore_dm _ _ _ _
  | arm op name =>
    show KeyStore.mk (s.client.armInvite name channel).channels s.channelsFile = s.keyStore
    rw [channels_armInvite]
    rfl

theorem inviteNamed_provisions (s : Bridge) (op : ℕ) (channel who : String)
    (agents : List PresenceAgent) :
    s.keyStore.Provisions (s.inviteNamed op channel who agents).keyStore := by
  unfold inviteNamed
  split
  · exact ensureChannel_provisions _ _ _
  · exact ensureChannel_provisions _ _ _
  · exact .same

theorem resume_provisions (s : Bridge) (f : Flow) (o : Settlement) :
    s.keyStore.Provisions (s.resume f o).keyStore := by
  have hsame : ∀ {t : Bridge}, t.keyStore = s.keyStore → s.keyStore.Provisions t.keyStore := by
    intro t ht
    rw [ht]
    exact .same
  cases f with
  | ensure channel ch created w =>
    cases o with
    | rejected e => exact hsame (keyStore_ensureFailed _ _ _)
    | done | info p | agents as => exact hsame (keyStore_ensured _ _ _ _ _)
  | send op channel ch created text =>
    cases o with
    | rejected e => exact .same
    | done | info p | agents as => exact hsame (keyStore_sendReady _ _ _ _ _ _)
  | info recipient text w =>
    cases o with
    | rejected e => exact hsame (keyStore_dmFailed _ _ _)
    | info p => exact hsame (keyStore_dmInfo _ _ _ _ _)
    | done | agents as => exact .same
  | ready recipient text xPub w =>
    cases o with
    | rejected e => exact hsame (keyStore_dmFailed _ _ _)
    | done | info p | agents as => exact hsame (keyStore_dmReady _ _ _ _ _)
  | named op channel who =>
    cases o with
    | agents as => exact inviteNamed_provisions _ _ _ _ _
    | rejected e | done | info p => exact .same

theorem runFlow_provisions (s : Bridge) (n : ℕ) :
    s.keyStore.Provisions (s.runFlow n).keyStore := by
  unfold runFlow
  split
  · exact .same
  · split
    · exact .same
    next f _ _ o _ => exact resume_provisions { s with flows := s.flows.eraseIdx n } _ o

theorem runPass_provisions (s : Bridge) (n : ℕ) :
    s.keyStore.Provisions (s.runPass n).keyStore := by
  unfold runPass
  split
  · exact .same
  next ret _ =>
    unfold passOn
    split
    · have hinvited : (s.client.invited ret.i).channels = s.client.channels := by
        unfold BridgeClient.invited
        split <;> rfl
      have hdeliver := deliverFrom_provisions
        { s with
          returns := s.returns.eraseIdx n
          client := s.client.invited ret.i } ret.agents ret.i
      unfold keyStore at hdeliver ⊢
      rw [hinvited] at hdeliver
      exact hdeliver
    · exact deliverFrom_provisions { s with returns := s.returns.eraseIdx n } ret.agents ret.i

theorem connect_provisions (s : Bridge) (op : ℕ) (url : Option String)
    (keys : Option (String × String)) (name channel : Option String) :
    s.keyStore.Provisions (s.connect op url keys name channel).keyStore := by
  unfold connect
  split
  · exact .same
  · dsimp only
    have hretarget : ∀ (u : Bridge) (config : Option DapFileConfig) (next : BridgeClient.Retarget),
        ({ u with client := { u.client with config }.retarget next } : Bridge).keyStore =
          u.keyStore := by
      intro u config next
      have hinviting := BridgeClient.inviting_retarget { u.client with config } next
      show KeyStore.mk (BridgeClient.retarget _ _).channels u.channelsFile = u.keyStore
      rw [BridgeClient.channels_of_inviting hinviting]
      rfl
    rw [hretarget]
    cases optStr channel with
    | none => exact .same
    | some ch => exact ensureChannelKeys_provisions s ch

theorem call_provisions (s : Bridge) (op : Op) : s.keyStore.Provisions (s.call op).keyStore := by
  cases op with
  | ensureChannel name | invite channel recipient | armInvite name channel =>
    exact ensureChannel_provisions { s with ops := s.ops + 1 } _ _
  | ensureChannelKeys name => exact ensureChannelKeys_provisions { s with ops := s.ops + 1 } name
  | dm recipient text =>
    have hdm := keyStore_dm { s with ops := s.ops + 1 } recipient text (.caller s.ops)
    exact hdm ▸ .same
  | send channel text =>
    unfold call
    dsimp only
    split
    · exact .same
    · exact ensureChannel_provisions { s with ops := s.ops + 1 } _ _
  | inviteByName channel who =>
    unfold call
    dsimp only
    split
    · exact .same
    · split
      · exact ensureChannel_provisions { s with ops := s.ops + 1 } _ _
      · have hawait := keyStore_await (s := { s with ops := s.ops + 1 }) (.named s.ops channel who)
          (BridgeClient.presence_keeps s.client).inviting
        exact hawait ▸ .same
  | connect url keys name channel =>
    exact connect_provisions { s with ops := s.ops + 1 } _ _ _ _ _

/-- Brings no key of the channel from outside. -/
def IsLocal (s : Bridge) (name : String) : OpEvent → Prop
  | .client e => ∀ ch ∈ s.client.learns e, ch.name ≠ name
  | .restart _ _ _ => False
  | _ => True

theorem learns_of_chankeyOf {c : BridgeClient} {e : BridgeEvent} {ch : ChannelKey}
    (h : c.chankeyOf e = some ch) : c.learns e = some ch := by
  cases e with
  | task n => exact h
  | _ => nomatch h

theorem clientStep_keeps {name : String} {e : BridgeEvent}
    (hdrives : BridgeClient.drives e = false) (h : s.IsLocal name (.client e)) :
    s.keyStore.Keeps name (s.clientStep e).keyStore := by
  have hchannels := BridgeClient.step_channels (s := s.client) hdrives
  have hnext : s.keyStore.Keeps name
      ({ s with client := s.client.step e } : Bridge).keyStore := by
    unfold keyStore
    rw [hchannels]
    cases hlearns : s.client.learns e with
    | none => exact .refl _
    | some ch => exact KeyStore.keeps_set s.keyStore ch (h ch hlearns)
  unfold clientStep
  dsimp only
  cases s.client.passOf e with
  | some agents =>
    have hdeliver := deliverFrom_provisions { s with client := s.client.step e } agents
      (s.client.step e).pendingInvites.length
    exact hnext.trans hdeliver.keeps
  | none =>
    cases hchankey : s.client.chankeyOf e with
    | none => exact hnext
    | some ch =>
      have hne := h ch (learns_of_chankeyOf hchankey)
      obtain ⟨name', pub, priv⟩ := ch
      cases priv with
      | none => exact hnext
      | some priv => exact hnext.trans (KeyStore.keeps_persist _ ⟨pub, priv⟩ hne)

theorem step_keeps {name : String} {e : OpEvent} (h : s.IsLocal name e) :
    s.keyStore.Keeps name (s.step e).keyStore := by
  cases e with
  | restart opts env now => exact absurd h id
  | call op => exact (call_provisions s op).keeps
  | flow n => exact (runFlow_provisions s n).keeps
  | pass n => exact (runPass_provisions s n).keeps
  | client e =>
    unfold step
    dsimp only
    split
    · exact .refl _
    next hdrives => exact clientStep_keeps (Bool.eq_false_iff.mpr hdrives) h

end Bridge

end Dap
