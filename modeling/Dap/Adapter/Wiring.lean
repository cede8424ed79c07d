import Dap.Adapter.Calls

/-! What the handlers and the calls of the client leave alone: its sockets and timers, its channels
and pending invites. -/
namespace Dap
namespace BridgeClient

variable {s t : BridgeClient}

/-- The sockets, the current one, and the timers that reconnect. -/
def wiring (s : BridgeClient) := (s.sockets, s.ws, s.timers, s.retryTimer, s.stopped)

/-- The invites in the config file. -/
def storedInvites (s : BridgeClient) : List PendingInvite :=
  (readDapConfig s.config).invites.getD []

/-- The delivery passes that wait for their roster. -/
def passes (s : BridgeClient) : ℕ := s.tasks.countP fun task => task.2 = .deliverInvites

def held (s : BridgeClient) := (s.channels, s.pendingInvites, s.storedInvites, s.codec)

def inviting (s : BridgeClient) := (s.held, s.deliveringInvites, s.passes)

structure Keeps (s t : BridgeClient) : Prop where
  wiring : t.wiring = s.wiring
  inviting : t.inviting = s.inviting

/-- All that happens is that a pass begins where there is none. -/
def MayPoll (s t : BridgeClient) : Prop :=
  t.inviting = s.inviting ∨
    s.deliveringInvites = false ∧ t.inviting = (s.held, true, s.passes + 1)

structure Polls (s t : BridgeClient) : Prop where
  wiring : t.wiring = s.wiring
  mayPoll : s.MayPoll t

namespace Keeps

theorem refl (s : BridgeClient) : s.Keeps s := ⟨rfl, rfl⟩

theorem trans {u : BridgeClient} (h : s.Keeps t) (h' : t.Keeps u) : s.Keeps u :=
  ⟨h'.wiring.trans h.wiring, h'.inviting.trans h.inviting⟩

theorem polls (h : s.Keeps t) : s.Polls t := ⟨h.wiring, .inl h.inviting⟩

end Keeps

theorem MayPoll.trans {u : BridgeClient} (h : MayPoll s t) (h' : MayPoll t u) : MayPoll s u := by
  rcases h with h | ⟨hs, h⟩
  · rcases h' with h' | ⟨ht, h'⟩
    · exact .inl (h'.trans h)
    · simp only [inviting, Prod.mk.injEq] at h
      obtain ⟨hheld, hflag, hpasses⟩ := h
      rw [hheld, hpasses] at h'
      rw [hflag] at ht
      exact .inr ⟨ht, h'⟩
  · rcases h' with h' | ⟨ht, -⟩
    · exact .inr ⟨hs, h'.trans h⟩
    · simp only [inviting, Prod.mk.injEq] at h
      rw [h.2.1] at ht
      nomatch ht

theorem Polls.trans {u : BridgeClient} (h : s.Polls t) (h' : t.Polls u) : s.Polls u :=
  ⟨h'.wiring.trans h.wiring, h.mayPoll.trans h'.mayPoll⟩

theorem keeps_foldl {α : Type} {f : BridgeClient → α → BridgeClient}
    (h : ∀ s a, Keeps s (f s a)) (l : List α) (s : BridgeClient) : s.Keeps (l.foldl f s) := by
  induction l generalizing s with
  | nil => exact .refl s
  | cons a l ih => exact (h s a).trans (ih (f s a))

theorem keeps_post {f : ClientFrame} (h : s.post f = some t) : s.Keeps t := by
  unfold post at h
  split at h
  · cases h
    exact .refl _
  · split at h <;> cases h <;> exact ⟨rfl, rfl⟩

theorem keeps_sendFrame {f : ClientFrame} (h : s.sendFrame f = .ok t) : s.Keeps t := by
  unfold sendFrame at h
  split at h
  · cases h
  · split at h <;> cases h
    exact ⟨rfl, rfl⟩

theorem keeps_settle (s : BridgeClient) (o : Settlement) (r : ℕ) : s.Keeps (s.settle o r) := by
  unfold settle
  split <;> exact ⟨rfl, rfl⟩

theorem keeps_settleAll (s : BridgeClient) (o : Settlement) (rs : List ℕ) :
    s.Keeps (s.settleAll o rs) :=
  keeps_foldl (fun s r => s.keeps_settle o r) rs s

theorem passes_await (s : BridgeClient) (r : ℕ) (k : Kont) :
    (s.await r k).passes = s.passes + if k = .deliverInvites then 1 else 0 := by
  unfold passes await
  by_cases hk : k = .deliverInvites <;> simp [List.countP_append, hk]

theorem keeps_await (s : BridgeClient) (r : ℕ) {k : Kont} (h : k ≠ .deliverInvites) :
    s.Keeps (s.await r k) := by
  refine ⟨rfl, ?_⟩
  unfold inviting
  rw [passes_await, if_neg h]
  rfl

/-! ### Calls -/

theorem ready_keeps (s : BridgeClient) : s.Keeps s.ready := by
  have hcall : s.Keeps (s.newCall .ready) := ⟨rfl, rfl⟩
  unfold ready
  dsimp only
  split
  · exact hcall.trans (keeps_settle _ _ _)
  · exact ⟨rfl, rfl⟩

theorem join_keeps (s : BridgeClient) (name chanPubkey : String) :
    s.Keeps (s.join name chanPubkey) := by
  have hcall : s.Keeps (s.newCall (.join name)) := ⟨rfl, rfl⟩
  have hready := hcall.trans (ready_keeps _)
  exact hready.trans (keeps_await _ (s.calls.length + 1) (by simp))

theorem joinReady_keeps (s : BridgeClient) (r : ℕ) (name chanPubkey : String) :
    s.Keeps (s.joinReady r name chanPubkey) := by
  have hpark : ∀ m, s.Keeps { s with joinWaiters := m } := fun m => ⟨rfl, rfl⟩
  unfold joinReady
  split
  · exact keeps_settle _ _ _
  · dsimp only
    split
    next hsend => exact (hpark _).trans (keeps_sendFrame hsend)
    next => exact (hpark _).trans (keeps_settle _ _ _)

theorem agentInfo_keeps (s : BridgeClient) (agentId : String) : s.Keeps (s.agentInfo agentId) := by
  have hcall : s.Keeps (s.newCall (.whois agentId)) := ⟨rfl, rfl⟩
  unfold agentInfo
  dsimp only
  split
  · exact hcall.trans (keeps_settle _ _ _)
  · cases hpost : post _ _ with
    | none =>
      have hsettle := keeps_settle { s.newCall (.whois agentId) with
        whoisWaiters := s.whoisWaiters.set agentId
          ((s.whoisWaiters.get agentId).getD [] ++ [s.calls.length])
        whoisCalls := s.whoisCalls + 1 } (.rejected .stillConnecting) s.calls.length
      exact ⟨hsettle.wiring, hsettle.inviting⟩
    | some t =>
      have ht := keeps_post hpost
      exact ⟨ht.wiring, ht.inviting⟩

theorem unparkPresenceWaiter_keeps (s : BridgeClient) (id : String) (w : PresenceWaiter) :
    s.Keeps (s.unparkPresenceWaiter id w) := by
  obtain ⟨m, hm⟩ := s.unparkPresenceWaiter_fields id w
  rw [hm]
  exact ⟨rfl, rfl⟩

theorem warmUpPresence_keeps (s : BridgeClient) (attempt : ℕ) :
    s.Keeps (s.warmUpPresence attempt) := by
  have hpark : s.Keeps ({ s with drawn := s.drawn + 1 }.parkPresenceWaiter (s.uuid s.drawn)
      (.warmUp attempt)) := ⟨rfl, rfl⟩
  unfold warmUpPresence
  split
  · exact .refl s
  · dsimp only
    split
    next hsend => exact hpark.trans (keeps_sendFrame hsend)
    next => exact hpark.trans (unparkPresenceWaiter_keeps _ _ _)

theorem donePresence_keeps (agents : List PresenceAgent) (s : BridgeClient)
    (waiter : String × PresenceWaiter) : s.Keeps (s.donePresence agents waiter) := by
  have hunpark := s.unparkPresenceWaiter_keeps waiter.1 waiter.2
  unfold donePresence
  dsimp only
  split
  · exact hunpark.trans (keeps_settle _ _ _)
  · split
    · exact hunpark.trans (warmUpPresence_keeps _ _)
    · exact hunpark

theorem failPresence_keeps (e : ClientError) (s : BridgeClient)
    (waiter : String × PresenceWaiter) : s.Keeps (s.failPresence e waiter) := by
  have hunpark := s.unparkPresenceWaiter_keeps waiter.1 waiter.2
  unfold failPresence
  dsimp only
  split
  · exact hunpark.trans (keeps_settle _ _ _)
  · exact hunpark

theorem presence_keeps (s : BridgeClient) : s.Keeps s.presence := by
  have hcall : s.Keeps ({ s with drawn := s.drawn + 1 }.newCall (.presence (s.uuid s.drawn))) :=
    ⟨rfl, rfl⟩
  have hpark : s.Keeps (({ s with drawn := s.drawn + 1 }.newCall
      (.presence (s.uuid s.drawn))).parkPresenceWaiter (s.uuid s.drawn) (.call s.calls.length)) :=
    ⟨rfl, rfl⟩
  unfold presence
  dsimp only
  split
  · exact hcall.trans (keeps_settle _ _ _)
  · split
    next hsend => exact hpark.trans (keeps_sendFrame hsend)
    next => exact hpark.trans (failPresence_keeps _ _ _)

theorem pollPendingInvites_polls (s : BridgeClient) : s.Polls s.pollPendingInvites := by
  unfold pollPendingInvites
  split
  · exact (Keeps.refl s).polls
  next h =>
    simp only [Bool.or_eq_true, decide_eq_true_eq, not_or, Bool.not_eq_true] at h
    obtain ⟨hwiring, hinviting⟩ := presence_keeps { s with deliveringInvites := true }
    refine ⟨hwiring, .inr ⟨h.1.1, ?_⟩⟩
    simp only [inviting, Prod.mk.injEq] at hinviting ⊢
    obtain ⟨hheld, hflag, hpasses⟩ := hinviting
    refine ⟨hheld, hflag, ?_⟩
    rw [passes_await, hpasses]
    rfl

theorem wiring_armInvite (s : BridgeClient) (name channel : String) :
    (s.armInvite name channel).wiring = s.wiring := by
  unfold armInvite
  dsimp only
  split
  · exact (pollPendingInvites_polls s).wiring
  · exact (pollPendingInvites_polls _).wiring

theorem wiring_invited (s : BridgeClient) (i : ℕ) : (s.invited i).wiring = s.wiring := by
  unfold invited
  split <;> rfl

theorem failWaiters_keeps (s : BridgeClient) (e : ClientError) : s.Keeps (s.failWaiters e) := by
  have hwhois : s.Keeps { s.settleAll (.rejected e) s.whoisWaiters.values.flatten with
      whoisWaiters := ∅ } := by
    obtain ⟨hwiring, hinviting⟩ := s.keeps_settleAll (.rejected e) s.whoisWaiters.values.flatten
    exact ⟨hwiring, hinviting⟩
  have hpresence : ∀ (ws : List (String × PresenceWaiter)) (t : BridgeClient),
      t.Keeps (ws.foldl (failPresence e) t) := keeps_foldl (failPresence_keeps e)
  have hready : ∀ t : BridgeClient, t.Keeps { t with presenceWaiters := ∅, readyWaiters := [] } :=
    fun t => ⟨rfl, rfl⟩
  unfold failWaiters
  exact ((hwhois.trans (hpresence _ _)).trans (hready _)).trans (keeps_settleAll _ _ _)

theorem timeout_keeps (s : BridgeClient) (r : ℕ) : s.Keeps (s.timeout r) := by
  have hready : s.Keeps { s with readyWaiters := s.readyWaiters.filter (· ≠ r) } := ⟨rfl, rfl⟩
  unfold timeout
  split
  · exact .refl s
  · exact failPresence_keeps _ _ _
  · exact hready.trans (keeps_settle _ _ _)
  · exact keeps_settle _ _ _

/-! ### Frames of the hub -/

theorem onPresence_keeps (s : BridgeClient) (replyTo : Option String)
    (entries : List PresenceEntry) : s.Keeps (s.onPresence replyTo entries) := by
  have hround : ∀ t : BridgeClient, t.Keeps (t.completeRound (entries.map s.markSelf)) :=
    fun t => keeps_foldl (donePresence_keeps _) _ t
  unfold onPresence
  cases replyTo with
  | none =>
    dsimp only
    split
    · exact .refl s
    · exact (hround s).trans ((hround _).trans (hround _))
  | some id =>
    have hecho : s.Keeps { s with echoSeen := true } := ⟨rfl, rfl⟩
    have hfold : ∀ (ws : List PresenceWaiter) (t : BridgeClient),
        t.Keeps (ws.foldl (fun t w => t.donePresence (entries.map s.markSelf) (id, w)) t) :=
      keeps_foldl fun t w => donePresence_keeps (entries.map s.markSelf) t (id, w)
    exact hecho.trans (hfold _ _)

theorem afterWelcome_polls (s : BridgeClient) : s.Polls s.afterWelcome := by
  have hmark : s.Keeps { s with readyWaiters := [] } := ⟨rfl, rfl⟩
  have hready := hmark.trans (keeps_settleAll _ .done s.readyWaiters)
  have hjoin : ∀ t : BridgeClient,
      t.Keeps (t.channels.entries.foldl (fun s e => s.join e.1 e.2.pub) t) :=
    fun t => keeps_foldl (fun s (e : String × ChannelKey) => join_keeps s e.1 e.2.pub) _ t
  have htimer : ∀ t : BridgeClient, t.Keeps { t with inviteTimer := true } := fun t => ⟨rfl, rfl⟩
  unfold afterWelcome
  dsimp only
  split
  · have hjoined := (hready.trans (hjoin _)).trans (htimer _)
    exact hjoined.polls.trans (pollPendingInvites_polls _)
  · exact (hready.trans (hjoin _)).polls

theorem onWelcome_polls (s : BridgeClient) : s.Polls s.onWelcome := by
  have hmark : s.Keeps
      { s with welcomed := true, welcomes := s.welcomes + 1, delay := s.initialMs, joined := [] } :=
    ⟨rfl, rfl⟩
  have hwarm := hmark.trans (warmUpPresence_keeps _ 0)
  have hthrows : ∀ t : BridgeClient, t.Keeps t.throws := fun t => ⟨rfl, rfl⟩
  unfold onWelcome
  dsimp only
  split
  next => exact (hwarm.trans (hthrows _)).polls
  next t hflush =>
    have hflushed := hwarm.trans (keeps_post hflush)
    split
    next => exact (hflushed.trans (hthrows _)).polls
    next u henroll =>
      have henrolled : t.Keeps u := by
        split at henroll
        · exact keeps_post henroll
        · cases henroll
          exact .refl _
      exact (hflushed.trans henrolled).polls.trans (afterWelcome_polls u)

theorem onEnrolled_keeps (s : BridgeClient) (secret : String) : s.Keeps (s.onEnrolled secret) := by
  unfold onEnrolled
  split <;> exact ⟨rfl, rfl⟩

theorem onJoined_keeps (s : BridgeClient) (channel : String) : s.Keeps (s.onJoined channel) := by
  obtain ⟨hwiring, hinviting⟩ := keeps_settleAll
    { s with joined := if channel ∈ s.joined then s.joined else s.joined ++ [channel] } .done
    ((s.joinWaiters.get channel).getD [])
  exact ⟨hwiring, hinviting⟩

theorem onAgentInfo_keeps (s : BridgeClient) (info : PeerInfo) : s.Keeps (s.onAgentInfo info) := by
  obtain ⟨hwiring, hinviting⟩ := keeps_settleAll
    { s with known := s.known.set info.agentId info } (.info info)
    ((s.whoisWaiters.get info.agentId).getD [])
  exact ⟨hwiring, hinviting⟩

theorem failJoins_keeps (s : BridgeClient) (e : ClientError) (channel : Option String) :
    s.Keeps (s.failJoins e channel) := by
  have hfail : ∀ (rs : List ℕ) m,
      s.Keeps { s.settleAll (.rejected e) rs with joinWaiters := m } := by
    intro rs m
    obtain ⟨hwiring, hinviting⟩ := s.keeps_settleAll (.rejected e) rs
    exact ⟨hwiring, hinviting⟩
  unfold failJoins
  split
  · exact hfail _ _
  · exact hfail _ _

theorem failWhois_keeps (s : BridgeClient) : s.Keeps s.failWhois := by
  obtain ⟨hwiring, hinviting⟩ := keeps_foldl (fun s (e : String × List ℕ) =>
    s.keeps_settleAll (.rejected (.unknownAgent e.1)) e.2) s.whoisWaiters.entries s
  exact ⟨hwiring, hinviting⟩

theorem onError_keeps (s : BridgeClient) (code msg : String) (channel : Option String) :
    s.Keeps (s.onError code msg channel) := by
  have hring : s.Keeps ({ s with lastError := (ClientError.hubError code msg).message }.ringError
      { code, msg, ts := s.now }) := ⟨rfl, rfl⟩
  unfold onError
  dsimp only
  split
  · refine Keeps.trans ?_ (failWhois_keeps _)
    split
    · exact hring.trans (failJoins_keeps _ _ _)
    · exact hring
  · split
    · exact hring.trans (failJoins_keeps _ _ _)
    · exact hring

theorem onMsg_keeps (s : BridgeClient) (m : MsgFrame) : s.Keeps (s.onMsg m) :=
  (agentInfo_keeps s m.sender).trans (keeps_await _ s.calls.length (by simp))

theorem handleRaw_polls (s : BridgeClient) (f : HubFrame) : s.Polls (s.handleRaw f) := by
  cases f with
  | welcome => exact onWelcome_polls s
  | joined channel => exact (onJoined_keeps s channel).polls
  | agentInfo info => exact (onAgentInfo_keeps s info).polls
  | presence replyTo entries => exact (onPresence_keeps s replyTo entries).polls
  | msg m => exact (onMsg_keeps s m).polls
  | error code msg channel => exact (onError_keeps s code msg channel).polls
  | enrolled secret => exact (onEnrolled_keeps s secret).polls
  | other => exact (Keeps.refl s).polls
  | notJson => exact Keeps.polls ⟨rfl, rfl⟩

/-! ### Tasks -/

/-- A message may bring the key of a channel. -/
theorem received_keeps (s : BridgeClient) (m : MsgFrame) (sender : PeerInfo) :
    ∃ channels, ({ s with channels } : BridgeClient).Keeps (s.received m sender) := by
  unfold received
  split
  · exact ⟨s.channels, rfl, rfl⟩
  · split
    · exact ⟨s.channels, rfl, rfl⟩
    next invite _ =>
      obtain ⟨hwiring, hinviting⟩ := join_keeps
        { s with channels := s.channels.set invite.name invite } invite.name invite.pub
      exact ⟨_, hwiring, hinviting⟩

/-- A task that is no delivery pass may change channels. -/
theorem resume_keeps (s : BridgeClient) {k : Kont} (o : Settlement) (hk : k ≠ .deliverInvites) :
    ∃ channels, ({ s with channels } : BridgeClient).Keeps (s.resume k o) := by
  cases k with
  | deliverInvites => exact absurd rfl hk
  | join r name chanPubkey =>
    refine ⟨s.channels, ?_⟩
    cases o with
    | rejected e => exact keeps_settle _ _ _
    | done | info p | agents as => exact joinReady_keeps _ _ _ _
  | decrypt m =>
    cases o with
    | info sender => exact received_keeps s m sender
    | rejected e => exact ⟨s.channels, rfl, rfl⟩
    | done | agents as => exact ⟨s.channels, .refl s⟩

theorem wiring_runTask (s : BridgeClient) (n : ℕ) : (s.runTask n).wiring = s.wiring := by
  unfold runTask
  split
  · rfl
  next r k hk =>
    split
    · rfl
    next o ho =>
      by_cases hpass : k = .deliverInvites
      · subst hpass
        cases o <;> rfl
      · obtain ⟨channels, h⟩ := resume_keeps { s with tasks := s.tasks.eraseIdx n } o hpass
        exact h.wiring

/-! ### Sockets -/

theorem sendHello_keeps (s : BridgeClient) : s.Keeps s.sendHello := by
  unfold sendHello
  dsimp only
  cases h : post _ _ with
  | none => exact ⟨rfl, rfl⟩
  | some t =>
    obtain ⟨hwiring, hinviting⟩ := keeps_post h
    exact ⟨hwiring, hinviting⟩

theorem onOpen_keeps (s : BridgeClient) : s.Keeps s.onOpen := by
  have hmark : ∀ i, s.Keeps { s with watched := some i } := fun i => ⟨rfl, rfl⟩
  unfold onOpen
  split
  · exact ⟨rfl, rfl⟩
  · dsimp only
    split
    · exact ⟨rfl, rfl⟩
    · exact (hmark _).trans (sendHello_keeps _)

theorem onSocketError_keeps (s : BridgeClient) (err : String) : s.Keeps (s.onSocketError err) := by
  unfold onSocketError
  split <;> exact ⟨rfl, rfl⟩

end BridgeClient

end Dap
