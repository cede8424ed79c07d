import Dap.Adapter.Deliveries
import Dap.Adapter.Settling

/-! The list of pending invites of the bridge in every run of its operations and delivery passes
(`adapters/mcp-bridge/src/client.ts`). -/
namespace Dap
namespace Bridge

variable {seen : Seen} {s t : Bridge} {k : ℕ}

/-! ### Arming -/

/-- A new entry is appended, and the file has the list. -/
def Arms (s t : Bridge) : Prop :=
  ∃ p, (∀ q ∈ s.pendingInvites, ¬ q.Agrees s.client.codec p) ∧
    t.listed = (s.pendingInvites ++ [p], s.pendingInvites ++ [p], s.client.codec)

/-- The list once an invite is armed. -/
def armedState (s : Bridge) (name channel : String) : Bridge :=
  { s with client := s.client.armInvite name channel }

theorem Inv.polls {c : BridgeClient} (h : Inv seen k { s with client := c }) :
    Inv seen k { s with client := c.pollPendingInvites } ∧
      c.pollPendingInvites.listed = c.listed := by
  have hpoll := c.pollPendingInvites_polls.mayPoll
  exact ⟨h.congr hpoll.listed (fun _ hj => hpoll.room hj) rfl rfl, hpoll.listed⟩

theorem armInvite_spec (h : Inv seen 0 s) (name channel : String) :
    Inv seen 0 (s.armedState name channel) ∧ ((s.armedState name channel).listed = s.listed ∨
      s.Arms (s.armedState name channel)) := by
  unfold armedState BridgeClient.armInvite
  dsimp only
  split
  next =>
    obtain ⟨hpolled, hlisted⟩ := Inv.polls (s := s) h
    exact ⟨hpolled, .inl hlisted⟩
  next hany =>
    have hfresh : ∀ q ∈ s.pendingInvites, ¬ q.Agrees s.client.codec ⟨name, channel⟩ := by
      intro q hq hagrees
      apply hany
      rw [List.any_eq_true]
      exact ⟨q, hq, by simpa [PendingInvite.Agrees] using hagrees⟩
    have hstays : ∀ {i : ℕ} {p : PendingInvite}, s.client.pendingInvites[i]? = some p →
        (s.client.pendingInvites ++ [⟨name, channel⟩])[i]? = some p := by
      intro i p hp
      rw [List.getElem?_append_left (List.getElem?_eq_some_iff.mp hp).1]
      exact hp
    have harmed : Inv seen 0
        { s with
          client :=
            s.client.setPendingInvites (s.client.pendingInvites ++ [⟨name, channel⟩]) } := by
      refine ⟨h.room, ?_, h.carries, ?_⟩
      · intro e he d hd
        obtain ⟨hroster, p, hp, hchannel, hnamed⟩ := h.fits e he d hd
        exact ⟨hroster, p, hstays hp, hchannel, hnamed⟩
      · intro ret hret
        obtain ⟨hroster, p, hp, hsent⟩ := h.returned ret hret
        exact ⟨hroster, p, hstays hp, hsent⟩
    obtain ⟨hpolled, hlisted⟩ := Inv.polls (s := s) harmed
    exact ⟨hpolled, .inr ⟨⟨name, channel⟩, hfresh, hlisted.trans rfl⟩⟩

theorem ensureFailed_inv {e : ClientError} {w : EnsureFor} {channel : String}
    (h : Inv seen (weight (w.delivery channel)) s)
    (hfits : Fits seen s.client (w.delivery channel)) : Inv seen 0 (s.ensureFailed e w) := by
  cases w with
  | caller op | send op text | arm op name => exact h.congr rfl (fun _ hj => hj) rfl rfl
  | invite recipient w => exact inviteFailed_inv h hfits

theorem ensureFailed_listed (s : Bridge) (e : ClientError) (w : EnsureFor) :
    (s.ensureFailed e w).listed = s.listed := by
  cases w with
  | caller op | send op text | arm op name => rfl
  | invite recipient w => exact inviteFailed_listed _ _ _

theorem ensured_inv {channel : String} {ch : ChannelKey} {created : Bool} {w : EnsureFor}
    (h : Inv seen (weight (w.delivery channel)) s)
    (hfits : Fits seen s.client (w.delivery channel)) (hkey : seen.keys channel ch) :
    Inv seen 0 (s.ensured channel ch created w) := by
  cases w with
  | caller op => exact h.congr rfl (fun _ hj => hj) rfl rfl
  | send op text =>
    apply Inv.await (f := .send op channel ch created text) h (BridgeClient.ready_keeps _).inviting
    · intro d hd
      nomatch hd
    · exact trivial
  | invite recipient w =>
    simp only [ensured]
    split
    next => exact inviteFailed_inv h hfits
    next priv hpriv =>
      apply dm_inv (w := .invite channel ch created w) h hfits
      exact ⟨ch, priv, hkey, (Option.filter_eq_some_iff.mp hpriv).1, rfl⟩
  | arm op name => exact (armInvite_spec h name channel).1.congr rfl (fun _ hj => hj) rfl rfl

theorem ensured_listed (h : Inv seen k s) {channel : String} {ch : ChannelKey} {created : Bool}
    {w : EnsureFor} (hw : weight (w.delivery channel) = k) :
    (s.ensured channel ch created w).listed = s.listed ∨
      s.Arms (s.ensured channel ch created w) := by
  cases w with
  | caller op => exact .inl rfl
  | send op text =>
    exact .inl (BridgeClient.listed_of_inviting (BridgeClient.ready_keeps _).inviting)
  | invite recipient w =>
    refine .inl ?_
    unfold ensured
    dsimp only
    split
    · exact inviteFailed_listed _ _ _
    · exact dm_listed _ _ _ _
  | arm op name =>
    subst hw
    exact (armInvite_spec h name channel).2

theorem inviteNamed_inv {op : ℕ} {channel who : String} {agents : List PresenceAgent}
    (h : Inv seen 0 s) (hkeys : (s.inviteNamed op channel who agents).seesKeys seen) :
    Inv seen 0 (s.inviteNamed op channel who agents) := by
  have hnone : Fits seen s.client none := fun d hd => nomatch hd
  unfold inviteNamed at hkeys ⊢
  split at hkeys
  · exact ensureChannel_inv (w := .arm op who) h hnone hkeys
  · exact ensureChannel_inv (w := .invite _ (.caller op)) h hnone hkeys
  · exact h.congr rfl (fun _ hj => hj) rfl rfl

theorem inviteNamed_listed (s : Bridge) (op : ℕ) (channel who : String)
    (agents : List PresenceAgent) :
    (s.inviteNamed op channel who agents).listed = s.listed := by
  unfold inviteNamed
  split
  · exact ensureChannel_listed _ _ _
  · exact ensureChannel_listed _ _ _
  · rfl

/-! ### Steps -/

/-- A pass that has sent the invite of its entry goes on, and exactly that entry goes. -/
def Delivers (seen : Seen) (s t : Bridge) (p : PendingInvite) : Prop :=
  ∃ ret ∈ s.returns, ∃ r, ret.result = .ok r ∧ p.SentBy seen s.client.codec r.id ∧
    s.pendingInvites[ret.i]? = some p ∧
      t.listed = (s.pendingInvites.eraseIdx ret.i, s.pendingInvites.eraseIdx ret.i, s.client.codec)

/-- What a step does to the list of pending invites. -/
inductive Change (seen : Seen) (s t : Bridge) : Prop
  | same (h : t.listed = s.listed)
  | armed (h : s.Arms t)
  | delivered (p : PendingInvite) (h : Delivers seen s t p)

/-- A flow that goes on with `o` writes the invite it is for. -/
def writes (s : Bridge) (o : Settlement) : Flow → Bool
  | .ready recipient text xPub w =>
    (w.delivery recipient).isSome && isOpen s.client && s.seals text recipient xPub &&
      match o with
      | .rejected _ => false
      | _ => true
  | _ => false

/-- The step writes the invite of a pending entry to the socket. -/
def writesInvite (s : Bridge) : OpEvent → Bool
  | .flow n =>
    match s.flows[n]? with
    | none => false
    | some (r, f) =>
      match s.client.settled.lookup r with
      | none => false
      | some o => s.writes o f
  | _ => false

theorem Inv.drop (h : Inv seen k s) : Inv seen 0 s := by
  have hroom := h.room
  refine ⟨?_, h.fits, h.carries, h.returned⟩
  unfold BridgeClient.Room at hroom ⊢
  omega

theorem resume_inv {f : Flow} {o : Settlement} (h : Inv seen (weight f.delivery) s)
    (hfits : Fits seen s.client f.delivery) (hcarries : f.Carries seen) (hseals : s.seesSeals seen)
    (hframe : s.writes o f = true → s.seesFrame (s.resume f o) seen)
    (hkeys : (s.resume f o).seesKeys seen) : Inv seen 0 (s.resume f o) := by
  cases f with
  | ensure channel ch created w =>
    cases o with
    | rejected e => exact ensureFailed_inv h hfits
    | done | info p | agents as => exact ensured_inv h hfits hcarries
  | send op channel ch created text =>
    cases o with
    | rejected e => exact h.congr rfl (fun _ hj => hj) rfl rfl
    | done | info p | agents as => exact (sendReady_inv h).1
  | info recipient text w =>
    cases o with
    | rejected e => exact dmFailed_inv h hfits
    | info p => exact dmInfo_inv h hfits hcarries
    | done | agents as => exact h.drop
  | ready recipient text xPub w =>
    cases o with
    | rejected e => exact dmFailed_inv h hfits
    | done | info p | agents as =>
      apply dmReady_inv h hfits hcarries hseals
      intro hpass hopen hseal
      apply hframe
      simp [writes, hpass, hopen, hseal]
  | named op channel who =>
    cases o with
    | rejected e => exact h.congr rfl (fun _ hj => hj) rfl rfl
    | agents as => exact inviteNamed_inv h hkeys
    | done | info p => exact h

theorem resume_listed {f : Flow} {o : Settlement} (h : Inv seen (weight f.delivery) s) :
    (s.resume f o).listed = s.listed ∨ s.Arms (s.resume f o) := by
  cases f with
  | ensure channel ch created w =>
    cases o with
    | rejected e => exact .inl (ensureFailed_listed _ _ _)
    | done | info p | agents as => exact ensured_listed h rfl
  | send op channel ch created text =>
    cases o with
    | rejected e => exact .inl rfl
    | done | info p | agents as => exact .inl (sendReady_inv h).2
  | info recipient text w =>
    cases o with
    | rejected e => exact .inl (dmFailed_listed _ _ _)
    | info p => exact .inl (dmInfo_listed _ _ _ _ _)
    | done | agents as => exact .inl rfl
  | ready recipient text xPub w =>
    cases o with
    | rejected e => exact .inl (dmFailed_listed _ _ _)
    | done | info p | agents as => exact .inl (dmReady_listed _ _ _ _ _)
  | named op channel who =>
    cases o with
    | rejected e => exact .inl rfl
    | agents as => exact .inl (inviteNamed_listed _ _ _ _ _)
    | done | info p => exact .inl rfl

/-- The flow at an index, taken out to be resumed. -/
def takeFlow (s : Bridge) (n : ℕ) : Bridge := { s with flows := s.flows.eraseIdx n }

theorem takeFlow_inv {n r : ℕ} {f : Flow} (h : Inv seen 0 s) (hn : s.flows[n]? = some (r, f)) :
    Inv seen (weight f.delivery) (s.takeFlow n) := by
  have hcount : s.delivering = (s.takeFlow n).delivering + weight f.delivery := by
    obtain ⟨hlt, hget⟩ := List.getElem?_eq_some_iff.mp hn
    have hperm := (List.getElem_cons_eraseIdx_perm hlt).countP_eq
      fun e : ℕ × Flow => e.2.delivery.isSome
    rw [List.countP_cons, hget] at hperm
    unfold delivering
    rw [← hperm]
    exact Nat.add_right_comm _ _ _
  have hroom := h.room
  rw [hcount] at hroom
  refine ⟨hroom, ?_, ?_, h.returned⟩
  · exact fun e he => h.fits e (List.mem_of_mem_eraseIdx he)
  · exact fun e he => h.carries e (List.mem_of_mem_eraseIdx he)

theorem runFlow_spec {n : ℕ} (h : Inv seen 0 s) (hseals : s.seesSeals seen)
    (hframe : s.writesInvite (.flow n) = true → s.seesFrame (s.runFlow n) seen)
    (hkeys : (s.runFlow n).seesKeys seen) :
    Inv seen 0 (s.runFlow n) ∧ ((s.runFlow n).listed = s.listed ∨ s.Arms (s.runFlow n)) := by
  unfold runFlow at hkeys hframe ⊢
  cases hn : s.flows[n]? with
  | none => exact ⟨h, .inl rfl⟩
  | some e =>
    obtain ⟨r, f⟩ := e
    cases ho : s.client.settled.lookup r with
    | none =>
      simp only [ho, true_or, and_true]
      exact h
    | some o =>
      simp only [writesInvite, hn, ho] at hframe hkeys ⊢
      have hmem := List.mem_of_getElem? hn
      have htaken := takeFlow_inv h hn
      refine ⟨resume_inv htaken (h.fits _ hmem) (h.carries _ hmem) hseals hframe hkeys, ?_⟩
      rcases resume_listed (o := o) htaken with hsame | harms
      · exact .inl hsame
      · exact .inr harms

theorem takeReturn_inv {n : ℕ} {ret : InviteReturn} (h : Inv seen 0 s)
    (hn : s.returns[n]? = some ret) : Inv seen 1 { s with returns := s.returns.eraseIdx n } := by
  have hlt := (List.getElem?_eq_some_iff.mp hn).1
  have hcount : s.delivering =
      ({ s with returns := s.returns.eraseIdx n } : Bridge).delivering + 1 := by
    change _ + s.returns.length = _ + (s.returns.eraseIdx n).length + 1
    rw [List.length_eraseIdx_of_lt hlt, Nat.add_assoc, Nat.sub_add_cancel (by omega)]
  have hroom := h.room
  rw [hcount] at hroom
  refine ⟨hroom, h.fits, h.carries, ?_⟩
  exact fun ret' hret' => h.returned ret' (List.mem_of_mem_eraseIdx hret')

theorem runPass_spec {n : ℕ} (h : Inv seen 0 s) (hkeys : (s.runPass n).seesKeys seen) :
    Inv seen 0 (s.runPass n) ∧ Change seen s (s.runPass n) := by
  unfold runPass at hkeys ⊢
  cases hn : s.returns[n]? with
  | none => exact ⟨h, .same rfl⟩
  | some ret =>
    have hmem := List.mem_of_getElem? hn
    have htaken := takeReturn_inv h hn
    obtain ⟨hroster, p, hp, hsent⟩ := h.returned ret hmem
    simp only [hn, passOn] at hkeys ⊢
    cases hresult : ret.result with
    | error e =>
      rw [hresult] at hkeys
      exact ⟨deliverFrom_inv htaken hroster hkeys, .same (deliverFrom_listed _ _ _)⟩
    | ok r =>
      rw [hresult] at hkeys
      refine ⟨deliverFrom_inv (invited_inv htaken) hroster hkeys, .delivered p ?_⟩
      refine ⟨ret, hmem, r, hresult, hsent r hresult, hp, (deliverFrom_listed _ _ _).trans ?_⟩
      exact invited_listed (s := { s with returns := _ }) hp

/-- `dap_connect` writes other fields of the config file. -/
theorem connect_spec (h : Inv seen 0 s) (op : ℕ) (url : Option String)
    (keys : Option (String × String)) (name channel : Option String) :
    Inv seen 0 (s.connect op url keys name channel) ∧
      (s.connect op url keys name channel).listed = s.listed := by
  unfold connect
  split
  · exact ⟨h.congr rfl (fun _ hj => hj) rfl rfl, rfl⟩
  · dsimp only
    have hensured : ∃ u : Bridge, (optStr channel).elim s
        (fun ch => (s.ensureChannelKeys ch).1) = u ∧ Inv seen 0 u ∧ u.listed = s.listed := by
      cases optStr channel with
      | none => exact ⟨s, rfl, h, rfl⟩
      | some ch => exact ⟨_, rfl, ensureChannelKeys_inv h ch, s.ensureChannelKeys_listed ch⟩
    obtain ⟨u, hu, hinv, hlisted⟩ := hensured
    rw [hu]
    have hretarget := BridgeClient.inviting_retarget
      { u.client with
        config := some (persistDapConfig u.client.config
          { url, name, channels := (optStr channel).map fun ch => [ch] }) }
      { url, keys, name }
    have hsame := BridgeClient.listed_of_inviting hretarget
    exact ⟨hinv.congr hsame (fun _ hj => BridgeClient.Room.of_inviting hretarget hj) rfl rfl,
      hsame.trans hlisted⟩

/-- Calls change no list before their first `await`. -/
theorem call_spec {op : Op} (h : Inv seen 0 s) (hkeys : (s.call op).seesKeys seen) :
    Inv seen 0 (s.call op) ∧ (s.call op).listed = s.listed := by
  have hcount : Inv seen 0 { s with ops := s.ops + 1 } := h.congr rfl (fun _ hj => hj) rfl rfl
  have hnone : Fits seen s.client none := fun d hd => nomatch hd
  cases op with
  | ensureChannel name =>
    exact ⟨ensureChannel_inv (w := .caller s.ops) hcount hnone hkeys, ensureChannel_listed _ _ _⟩
  | ensureChannelKeys name =>
    exact ⟨ensureChannelKeys_inv hcount name, ensureChannelKeys_listed _ _⟩
  | armInvite name channel =>
    exact ⟨ensureChannel_inv (w := .arm s.ops name) hcount hnone hkeys, ensureChannel_listed _ _ _⟩
  | invite channel recipient =>
    exact ⟨ensureChannel_inv (w := .invite recipient (.caller s.ops)) hcount hnone hkeys,
      ensureChannel_listed _ _ _⟩
  | dm recipient text =>
    exact ⟨dm_inv (w := .caller s.ops) hcount hnone trivial, dm_listed _ _ _ _⟩
  | send channel text =>
    simp only [call] at hkeys ⊢
    split at hkeys
    next hdown =>
      rw [if_pos hdown]
      exact ⟨hcount.congr rfl (fun _ hj => hj) rfl rfl, rfl⟩
    next hup =>
      rw [if_neg hup]
      exact ⟨ensureChannel_inv (w := .send s.ops text) hcount hnone hkeys,
        ensureChannel_listed _ _ _⟩
  | inviteByName channel who =>
    simp only [call] at hkeys ⊢
    split at hkeys
    next hdown =>
      rw [if_pos hdown]
      exact ⟨hcount.congr rfl (fun _ hj => hj) rfl rfl, rfl⟩
    next hup =>
      rw [if_neg hup]
      split at hkeys
      next hid =>
        rw [if_pos hid]
        exact ⟨ensureChannel_inv (w := .invite who (.caller s.ops)) hcount hnone hkeys,
          ensureChannel_listed _ _ _⟩
      next hid =>
        rw [if_neg hid]
        have hpresence := (BridgeClient.presence_keeps s.client).inviting
        refine ⟨?_, BridgeClient.listed_of_inviting hpresence⟩
        exact Inv.await (f := .named s.ops channel who) hcount hpresence hnone trivial
  | connect url keys name channel => exact connect_spec hcount s.ops url keys name channel

end Bridge

end Dap
