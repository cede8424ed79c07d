import Dap.Adapter.Calls

/-! How the frames of the hub, the tasks and the timers of the client settle its calls, and what one
event can settle. -/
namespace Dap
namespace BridgeClient

variable {P : ℕ → Settlement → Prop} {s t : BridgeClient}

/-! ### Ending calls -/

theorem mem_allPresenceWaiters {e : String × PresenceWaiter} (h : e ∈ s.allPresenceWaiters) :
    Waits s.presenceWaiters e.1 e.2 := by
  obtain ⟨entry, hentry, he⟩ := List.mem_flatMap.mp h
  obtain ⟨w, hw, rfl⟩ := List.mem_map.mp he
  exact .of_mem_entries hentry hw

/-- A table of waiters is emptied or loses a key. -/
theorem Moves.of_fewer (hcalls : t.calls = s.calls) (hsettled : t.settled = s.settled)
    (hready : t.readyWaiters ⊆ s.readyWaiters) (htasks : t.tasks ⊆ s.tasks)
    (hwhois : ∀ a r, Waits t.whoisWaiters a r → Waits s.whoisWaiters a r)
    (hjoin : ∀ ch r, Waits t.joinWaiters ch r → Waits s.joinWaiters ch r)
    (hpresence : ∀ id w, Waits t.presenceWaiters id w → Waits s.presenceWaiters id w) :
    Moves P s t := by
  refine Moves.of_awaits hcalls hsettled ?_
  intro r c ha
  cases ha with
  | ready hr => exact .inl (.ready (hready hr))
  | join hr => exact .inl (.join (hjoin _ _ hr))
  | whois hr => exact .inl (.whois (hwhois _ _ hr))
  | presence hr => exact .inl (.presence (hpresence _ _ hr))
  | task hk hc => exact .inl (.task (htasks hk) hc)

theorem not_waits_empty {V : Type} (k : String) (w : V) : ¬ Waits ∅ k w := by
  simp [Waits]

theorem failWhoisTable_moves {e : ClientError} (he : e.Ordinary) :
    Moves Ordinarily s
      { s.settleAll (.rejected e) s.whoisWaiters.values.flatten with whoisWaiters := ∅ } := by
  intro hs
  have hsettle : Moves Ordinarily s
      (s.settleAll (.rejected e) s.whoisWaiters.values.flatten) := by
    apply settleAll_moves
    intro r hr
    obtain ⟨a, ha⟩ := Waits.of_values hr
    exact ⟨⟨_, hs.awaits _ _ (.whois ha), Call.fits_rejected _ he⟩, he⟩
  refine hsettle.trans
    (Moves.of_fewer rfl rfl (List.Subset.refl _) (List.Subset.refl _) ?_ ?_ ?_) hs
  · exact fun a r hr => absurd hr (not_waits_empty a r)
  · exact fun _ _ hr => hr
  · exact fun _ _ hr => hr

theorem failPresenceTable_moves {e : ClientError} (he : e.Ordinary) :
    Moves Ordinarily s
      { s.allPresenceWaiters.foldl (failPresence e) s with presenceWaiters := ∅ } := by
  intro hs
  have hsettle : Moves Ordinarily s (s.allPresenceWaiters.foldl (failPresence e) s) := by
    apply Moves.foldl_of_calls
    intro t hcalls waiter hwaiter
    apply failPresence_moves he
    intro r hr
    refine calls_get_later hcalls (hs.awaits _ _ (.presence ?_))
    exact hr ▸ mem_allPresenceWaiters hwaiter
  refine hsettle.trans
    (Moves.of_fewer rfl rfl (List.Subset.refl _) (List.Subset.refl _) ?_ ?_ ?_) hs
  · exact fun _ _ hr => hr
  · exact fun _ _ hr => hr
  · exact fun id w hw => absurd hw (not_waits_empty id w)

theorem settleReady_moves {o : Settlement} (ho : Call.ready.Fits o) (hP : o.Ordinary) :
    Moves Ordinarily s ({ s with readyWaiters := [] }.settleAll o s.readyWaiters) := by
  intro hs
  have hclear : Moves Ordinarily s { s with readyWaiters := [] } :=
    Moves.of_fewer rfl rfl (List.nil_subset _) (List.Subset.refl _) (fun _ _ h => h)
      (fun _ _ h => h) (fun _ _ h => h)
  refine hclear.trans (settleAll_moves ?_) hs
  intro r hr
  exact ⟨⟨_, hs.awaits r _ (.ready hr), ho⟩, hP⟩

theorem failWaiters_moves (s : BridgeClient) {e : ClientError} (he : e.Ordinary) :
    Moves Ordinarily s (s.failWaiters e) :=
  (failWhoisTable_moves he).trans
    ((failPresenceTable_moves he).trans (settleReady_moves he he))

theorem timeoutError_ordinary (c : Call) : (timeoutError c).Ordinary := by
  cases c <;> trivial

theorem timeout_moves (s : BridgeClient) (r : ℕ) : Moves Ordinarily s (s.timeout r) := by
  unfold timeout
  split
  next => exact Moves.refl _ s
  next id hr =>
    have he : ClientError.timeoutPresence.Ordinary := trivial
    apply failPresence_moves he
    intro r' heq
    cases heq
    exact hr
  next hr =>
    have hdrop : Moves Ordinarily s
        { s with readyWaiters := s.readyWaiters.filter (· ≠ r) } :=
      Moves.of_fewer rfl rfl (fun _ h => List.mem_of_mem_filter h) (List.Subset.refl _)
        (fun _ _ h => h) (fun _ _ h => h) (fun _ _ h => h)
    exact hdrop.trans (settle_moves hr trivial trivial)
  next c _ _ hr =>
    exact settle_moves hr (c.fits_rejected (timeoutError_ordinary c)) (timeoutError_ordinary c)

/-! ### Frames of the hub -/

theorem startInvitePoller_moves (s : BridgeClient) : Moves Ordinarily s s.startInvitePoller := by
  have hmark : Moves Ordinarily s { s with inviteTimer := true } := Moves.of_ledger rfl
  exact hmark.trans (pollPendingInvites_moves _)

theorem afterWelcome_moves (s : BridgeClient) : Moves Ordinarily s s.afterWelcome := by
  have hready : Moves Ordinarily s _ := settleReady_moves (o := .done) trivial trivial
  have hjoin : ∀ t : BridgeClient, Moves Ordinarily t
      (t.channels.entries.foldl (fun s e => s.join e.1 e.2.pub) t) :=
    fun t => Moves.foldl (fun s e _ => join_moves s e.1 e.2.pub) t
  unfold afterWelcome
  dsimp only
  split
  · exact hready.trans ((hjoin _).trans (startInvitePoller_moves _))
  · exact hready.trans (hjoin _)

theorem onWelcome_moves (s : BridgeClient) : Moves Ordinarily s s.onWelcome := by
  have hmark : Moves Ordinarily s
      { s with welcomed := true, welcomes := s.welcomes + 1, delay := s.initialMs, joined := [] } :=
    Moves.of_ledger rfl
  have hwarm := hmark.trans (warmUpPresence_moves _ 0)
  unfold onWelcome
  dsimp only
  split
  next => exact hwarm.trans (Moves.of_ledger rfl)
  next t hflush =>
    have hflushed := hwarm.trans (Moves.of_ledger (ledger_post hflush))
    split
    next => exact hflushed.trans (Moves.of_ledger rfl)
    next u henroll =>
      have henrolled : u.ledger = t.ledger := by
        split at henroll
        · exact ledger_post henroll
        · cases henroll
          rfl
      exact hflushed.trans ((Moves.of_ledger henrolled).trans (afterWelcome_moves u))

theorem onJoined_moves (s : BridgeClient) (channel : String) :
    Moves Ordinarily s (s.onJoined channel) := by
  intro hs
  have hmark : Moves Ordinarily s
      { s with joined := if channel ∈ s.joined then s.joined else s.joined ++ [channel] } :=
    Moves.of_ledger rfl
  have hsettle := hmark.trans (settleAll_moves (P := Ordinarily) (o := .done)
    fun r (hr : r ∈ (s.joinWaiters.get channel).getD []) =>
      ⟨⟨_, hs.awaits r _ (.join hr), trivial⟩, trivial⟩)
  refine hsettle.trans
    (Moves.of_fewer rfl rfl (List.Subset.refl _) (List.Subset.refl _) ?_ ?_ ?_) hs
  · exact fun _ _ hr => hr
  · exact fun _ _ hr => hr.of_delete
  · exact fun _ _ hr => hr

theorem onAgentInfo_moves (s : BridgeClient) (info : PeerInfo) :
    Moves Ordinarily s (s.onAgentInfo info) := by
  intro hs
  have hmark : Moves Ordinarily s { s with known := s.known.set info.agentId info } :=
    Moves.of_ledger rfl
  have hsettle := hmark.trans (settleAll_moves (P := Ordinarily) (o := .info info)
    fun r (hr : r ∈ (s.whoisWaiters.get info.agentId).getD []) =>
      ⟨⟨_, hs.awaits r _ (.whois hr), trivial⟩, trivial⟩)
  refine hsettle.trans
    (Moves.of_fewer rfl rfl (List.Subset.refl _) (List.Subset.refl _) ?_ ?_ ?_) hs
  · exact fun _ _ hr => hr.of_delete
  · exact fun _ _ hr => hr
  · exact fun _ _ hr => hr

theorem onMsg_moves (s : BridgeClient) (m : MsgFrame) : Moves Ordinarily s (s.onMsg m) := by
  intro hs
  refine (agentInfo_moves s m.sender).trans (await_moves ?_) hs
  intro e he
  simp only [Kont.calls, List.mem_singleton] at he
  subst he
  exact calls_agentInfo s m.sender

/-- The joins that an error refuses. -/
def Refused (s : BridgeClient) (channel : Option String) (ch : String) (r : ℕ) : Prop :=
  Waits s.joinWaiters ch r ∧ ∀ named, optStr channel = some named → ch = named

theorem failJoins_moves {e : ClientError} (he : ∀ a, e ≠ .unknownAgent a) {channel : Option String}
    (hP : ∀ ch r, s.Refused channel ch r → P r (.rejected e)) :
    Moves P s (s.failJoins e channel) := by
  intro hs
  have hsettle : ∀ {rs : List ℕ}, (∀ r ∈ rs, ∃ ch, s.Refused channel ch r) →
      Moves P s (s.settleAll (.rejected e) rs) := by
    intro rs hrs
    apply settleAll_moves
    intro r hr
    obtain ⟨ch, hch⟩ := hrs r hr
    exact ⟨⟨_, hs.awaits r _ (.join hch.1), he⟩, hP ch r hch⟩
  unfold failJoins
  split
  next named hnamed =>
    have hrefused : ∀ r ∈ (s.joinWaiters.get named).getD [], ∃ ch, s.Refused channel ch r := by
      intro r hr
      refine ⟨named, hr, fun other hother => ?_⟩
      rw [hnamed] at hother
      exact Option.some.inj hother
    refine (hsettle hrefused).trans
      (Moves.of_fewer rfl rfl (List.Subset.refl _) (List.Subset.refl _) ?_ ?_ ?_) hs
    · exact fun _ _ hr => hr
    · exact fun _ _ hr => hr.of_delete
    · exact fun _ _ hr => hr
  next hnone =>
    have hrefused : ∀ r ∈ s.joinWaiters.values.flatten, ∃ ch, s.Refused channel ch r := by
      intro r hr
      obtain ⟨ch, hch⟩ := Waits.of_values hr
      refine ⟨ch, hch, fun other hother => ?_⟩
      rw [hnone] at hother
      cases hother
    refine (hsettle hrefused).trans
      (Moves.of_fewer rfl rfl (List.Subset.refl _) (List.Subset.refl _) ?_ ?_ ?_) hs
    · exact fun _ _ hr => hr
    · exact fun ch r hr => absurd hr (not_waits_empty ch r)
    · exact fun _ _ hr => hr

theorem failWhois_moves (hP : ∀ a r, Waits s.whoisWaiters a r → P r (.rejected (.unknownAgent a))) :
    Moves P s s.failWhois := by
  intro hs
  have hsettle : Moves P s (s.whoisWaiters.entries.foldl
      (fun s e => s.settleAll (.rejected (.unknownAgent e.1)) e.2) s) := by
    apply Moves.foldl_of_calls
    intro t hcalls e he
    apply settleAll_moves
    intro r hr
    have hwaits := Waits.of_mem_entries he hr
    refine ⟨⟨_, calls_get_later hcalls (hs.awaits r _ (.whois hwaits)), ?_⟩, hP _ _ hwaits⟩
    intro code msg heq
    cases heq
  refine hsettle.trans
    (Moves.of_fewer rfl rfl (List.Subset.refl _) (List.Subset.refl _) ?_ ?_ ?_) hs
  · exact fun a r hr => absurd hr (not_waits_empty a r)
  · exact fun _ _ hr => hr
  · exact fun _ _ hr => hr

/-- An error frame refuses the joins and the lookups that wait when it arrives. -/
theorem onError_moves {code msg : String} {channel : Option String}
    (hjoin : code = "unknown_channel" ∨ code = "access_denied" →
      ∀ ch r, s.Refused channel ch r → P r (.rejected (.hubError code msg)))
    (hwhois : code = "unknown_agent" →
      ∀ a r, Waits s.whoisWaiters a r → P r (.rejected (.unknownAgent a))) :
    Moves P s (s.onError code msg channel) := by
  have hmark : Moves P s ({ s with lastError := (ClientError.hubError code msg).message }.ringError
      { code, msg, ts := s.now }) := Moves.of_ledger rfl
  have hfail : ∀ a, ClientError.hubError code msg ≠ .unknownAgent a := by
    intro a heq
    cases heq
  unfold onError
  dsimp only
  split
  next hcode =>
    have hne : ¬ (code = "unknown_channel" ∨ code = "access_denied") := by
      subst hcode
      decide
    rw [if_neg hne]
    exact hmark.trans (failWhois_moves (hwhois hcode))
  next =>
    split
    next hcode => exact hmark.trans (failJoins_moves hfail (hjoin hcode))
    next => exact hmark

/-! ### Rosters -/

/-- A waiter's call gets the agents that are online. -/
theorem donePresence_moves {agents : List PresenceAgent} {waiter : String × PresenceWaiter}
    (hw : ∀ r, waiter.2 = .call r → s.calls[r]? = some (.presence waiter.1) ∧
      P r (.agents (agents.filter isOnline))) :
    Moves P s (s.donePresence agents waiter) := by
  obtain ⟨id, w⟩ := waiter
  have hunpark := s.unparkPresenceWaiter_moves (P := P) id w
  unfold donePresence
  cases w with
  | call r =>
    refine hunpark.trans (settle_moves (c := .presence id) ?_ trivial (hw r rfl).2)
    obtain ⟨m, hm⟩ := s.unparkPresenceWaiter_fields id (.call r)
    rw [hm]
    exact (hw r rfl).1
  | warmUp attempt =>
    dsimp only
    split
    · exact hunpark.trans (warmUpPresence_moves _ _)
    · exact hunpark

/-- No call is parked by the client itself. -/
theorem waits_warmUpPresence {attempt : ℕ} {id : String} {r : ℕ}
    (h : Waits (s.warmUpPresence attempt).presenceWaiters id (.call r)) :
    Waits s.presenceWaiters id (.call r) := by
  have hpark : ∀ {id' : String}, Waits (({ s with drawn := s.drawn + 1 } :
      BridgeClient).parkPresenceWaiter id' (.warmUp attempt)).presenceWaiters id (.call r) →
        Waits s.presenceWaiters id (.call r) := by
    intro id' hr
    rcases Waits.of_set hr with hr | ⟨-, heq⟩
    · exact hr
    · cases heq
  unfold warmUpPresence at h
  split at h
  · exact h
  · dsimp only at h
    split at h
    next t hsend =>
      have ht := ledger_sendFrame hsend
      simp only [ledger, waiting, Prod.mk.injEq] at ht
      rw [ht.2.2.2.2.2.1] at h
      exact hpark h
    next => exact hpark (waits_of_unpark h)

theorem waits_donePresence {agents : List PresenceAgent} {waiter : String × PresenceWaiter}
    {id : String} {r : ℕ}
    (h : Waits (s.donePresence agents waiter).presenceWaiters id (.call r)) :
    Waits s.presenceWaiters id (.call r) := by
  obtain ⟨id', w⟩ := waiter
  unfold donePresence at h
  cases w with
  | call r' =>
    dsimp only at h
    have hsettle := waiting_settle (s.unparkPresenceWaiter id' (.call r'))
      (.agents (agents.filter isOnline)) r'
    simp only [waiting, Prod.mk.injEq] at hsettle
    rw [hsettle.2.2.2.1] at h
    exact waits_of_unpark h
  | warmUp attempt =>
    dsimp only at h
    split at h
    · exact waits_of_unpark (waits_warmUpPresence h)
    · exact waits_of_unpark h

theorem waits_completeRound {agents : List PresenceAgent} {id : String} {r : ℕ}
    (h : Waits (s.completeRound agents).presenceWaiters id (.call r)) :
    Waits s.presenceWaiters id (.call r) := by
  unfold completeRound at h
  generalize s.allPresenceWaiters = l at h
  induction l generalizing s with
  | nil => exact h
  | cons waiter l ih => exact waits_donePresence (ih h)

theorem completeRound_moves {agents : List PresenceAgent}
    (hP : ∀ id r, Waits s.presenceWaiters id (.call r) → P r (.agents (agents.filter isOnline))) :
    Moves P s (s.completeRound agents) := by
  intro hs
  refine Moves.foldl_of_calls ?_ hs
  intro t hcalls waiter hwaiter
  apply donePresence_moves
  intro r hr
  have hwaits := mem_allPresenceWaiters hwaiter
  rw [hr] at hwaits
  exact ⟨calls_get_later hcalls (hs.awaits r _ (.presence hwaits)), hP _ _ hwaits⟩

/-- A presence frame completes the call it answers, and one without an id, before any answer came,
all of them. -/
theorem onPresence_moves {replyTo : Option String} {entries : List PresenceEntry}
    (hanswer : ∀ id r, replyTo = some id → Waits s.presenceWaiters id (.call r) →
      P r (.agents ((entries.map s.markSelf).filter isOnline)))
    (hbroadcast : ∀ id r, replyTo = none → s.echoSeen = false →
      Waits s.presenceWaiters id (.call r) →
        P r (.agents ((entries.map s.markSelf).filter isOnline))) :
    Moves P s (s.onPresence replyTo entries) := by
  unfold onPresence
  dsimp only
  cases replyTo with
  | none =>
    dsimp only
    split
    · exact Moves.refl P s
    next hecho =>
      have hP : ∀ id r, Waits s.presenceWaiters id (.call r) →
          P r (.agents ((entries.map s.markSelf).filter isOnline)) :=
        fun id r => hbroadcast id r rfl (by simpa using hecho)
      have hround : ∀ t : BridgeClient, (∀ id r, Waits t.presenceWaiters id (.call r) →
          Waits s.presenceWaiters id (.call r)) →
            Moves P t (t.completeRound (entries.map s.markSelf)) :=
        fun t ht => completeRound_moves fun id r h => hP id r (ht id r h)
      exact (hround s fun _ _ h => h).trans ((hround _ fun _ _ h => waits_completeRound h).trans
        (hround _ fun _ _ h => waits_completeRound (waits_completeRound h)))
  | some id =>
    intro hs
    have hlatch : Moves P s { s with echoSeen := true } := Moves.of_ledger rfl
    refine hlatch.trans (Moves.foldl_of_calls ?_) hs
    intro t hcalls w hw
    apply donePresence_moves
    intro r hr
    change w = .call r at hr
    subst hr
    exact ⟨calls_get_later hcalls (hs.awaits r _ (.presence hw)), hanswer id r rfl hw⟩

/-! ### Tasks -/

theorem received_moves (s : BridgeClient) (m : MsgFrame) (sender : PeerInfo) :
    Moves Ordinarily s (s.received m sender) := by
  unfold received
  split
  next => exact Moves.of_ledger rfl
  next ev =>
    split
    next => exact Moves.of_ledger rfl
    next invite _ =>
      have hset : Moves Ordinarily s { s with channels := s.channels.set invite.name invite } :=
        Moves.of_ledger rfl
      exact hset.trans ((join_moves _ invite.name invite.pub).trans (Moves.of_ledger rfl))

/-- A task settles the call it stands for, and never by the refusal of another request. -/
theorem resume_moves {r : ℕ} {k : Kont} {o : Settlement}
    (hk : ∀ e ∈ k.calls r, s.calls[e.1]? = some e.2) (ho : (r, o) ∈ s.settled) :
    Moves Ordinarily s (s.resume k o) := by
  intro hs
  cases k with
  | join r' name chanPubkey =>
    have hready : s.calls[r]? = some .ready := hk (r, .ready) (by simp [Kont.calls])
    have hjoin : s.calls[r']? = some (.join name) := hk (r', .join name) (by simp [Kont.calls])
    obtain ⟨c, hc, hfits⟩ := hs.settled r o ho
    rw [hready] at hc
    cases hc
    cases o with
    | rejected e => exact settle_moves hjoin (Call.fits_rejected _ hfits) hfits hs
    | done => exact joinReady_moves hjoin hs
    | info p => cases hfits
    | agents as => cases hfits
  | decrypt m =>
    cases o with
    | rejected e => exact Moves.of_ledger rfl hs
    | info sender => exact received_moves s m sender hs
    | done => exact Moves.refl _ s hs
    | agents as => exact Moves.refl _ s hs
  | deliverInvites =>
    cases o with
    | rejected e => exact Moves.of_ledger rfl hs
    | info sender => exact Moves.refl _ s hs
    | done => exact Moves.refl _ s hs
    | agents as => exact Moves.refl _ s hs

theorem runTask_moves (s : BridgeClient) (n : ℕ) : Moves Ordinarily s (s.runTask n) := by
  unfold runTask
  split
  next => exact Moves.refl _ s
  next r k htask =>
    split
    next => exact Moves.refl _ s
    next o ho =>
      intro hs
      have hmem := List.mem_of_getElem? htask
      have hdrop : Moves Ordinarily s { s with tasks := s.tasks.eraseIdx n } :=
        Moves.of_fewer rfl rfl (List.Subset.refl _) (List.eraseIdx_subset) (fun _ _ h => h)
          (fun _ _ h => h) (fun _ _ h => h)
      obtain ⟨l₁, l₂, hl, -⟩ := List.lookup_eq_some_iff.mp ho
      have hsettled : (r, o) ∈ s.settled := by simp [hl]
      refine hdrop.trans (resume_moves (r := r) ?_ hsettled) hs
      intro e he
      exact hs.awaits e.1 e.2 (.task hmem he)

/-! ### Steps -/

/-- The frame reaches the handlers of the client. -/
def Hears (s : BridgeClient) (i : ℕ) : Prop := (s.sockets[i]?).any Socket.attached = true

instance (s : BridgeClient) (i : ℕ) : Decidable (s.Hears i) :=
  inferInstanceAs (Decidable (_ = _))

/-- What an event may settle a call with. -/
inductive Permits (s : BridgeClient) : BridgeEvent → ℕ → Settlement → Prop
  | ordinary {e : BridgeEvent} {r : ℕ} {o : Settlement} (h : o.Ordinary) : Permits s e r o
  | answer {i : ℕ} {id : String} {entries : List PresenceEntry} {r : ℕ} (hi : s.Hears i)
      (h : Waits s.presenceWaiters id (.call r)) :
      Permits s (.socket i (.message (.presence (some id) entries))) r
        (.agents ((entries.map s.markSelf).filter isOnline))
  | broadcast {i : ℕ} {id : String} {entries : List PresenceEntry} {r : ℕ} (hi : s.Hears i)
      (hecho : s.echoSeen = false) (h : Waits s.presenceWaiters id (.call r)) :
      Permits s (.socket i (.message (.presence none entries))) r
        (.agents ((entries.map s.markSelf).filter isOnline))
  | refusesJoin {i : ℕ} {code msg : String} {channel : Option String} {ch : String} {r : ℕ}
      (hi : s.Hears i) (hcode : code = "unknown_channel" ∨ code = "access_denied")
      (h : s.Refused channel ch r) :
      Permits s (.socket i (.message (.error code msg channel))) r (.rejected (.hubError code msg))
  | refusesWhois {i : ℕ} {msg : String} {channel : Option String} {a : String} {r : ℕ}
      (hi : s.Hears i) (h : Waits s.whoisWaiters a r) :
      Permits s (.socket i (.message (.error "unknown_agent" msg channel))) r
        (.rejected (.unknownAgent a))

theorem Moves.permits {e : BridgeEvent} (h : Moves Ordinarily s t) : Moves (s.Permits e) s t :=
  h.mono fun _ _ => .ordinary

theorem onDisconnect_moves (s : BridgeClient) : Moves Ordinarily s s.onDisconnect := by
  have hmark : Moves Ordinarily s { s with watched := none, welcomed := false } :=
    Moves.of_ledger rfl
  have he : ClientError.clientStopped.Ordinary := trivial
  unfold onDisconnect
  dsimp only
  split
  · exact hmark.trans (failWaiters_moves _ he)
  · exact Moves.of_ledger rfl

theorem handleRaw_moves {i : ℕ} (hi : s.Hears i) (f : HubFrame) :
    Moves (s.Permits (.socket i (.message f))) s (s.handleRaw f) := by
  cases f with
  | welcome => exact (onWelcome_moves s).permits
  | joined channel => exact (onJoined_moves s channel).permits
  | agentInfo info => exact (onAgentInfo_moves s info).permits
  | presence replyTo entries =>
    apply onPresence_moves
    · intro id r hid h
      subst hid
      exact .answer hi h
    · intro id r hid hecho h
      subst hid
      exact .broadcast hi hecho h
  | msg m => exact (onMsg_moves s m).permits
  | error code msg channel =>
    apply onError_moves
    · intro hcode ch r h
      exact .refusesJoin hi hcode h
    · intro hcode a r h
      subst hcode
      exact .refusesWhois hi h
  | enrolled secret => exact Moves.of_ledger (ledger_onEnrolled s secret)
  | other => exact Moves.refl _ s
  | notJson => exact Moves.of_ledger rfl

theorem ledger_silence (s : BridgeClient) : s.silence.ledger = s.ledger := by
  unfold silence
  cases s.ws with
  | none => rfl
  | some i => exact ledger_closeSocket (s.detach i) i

theorem retarget_moves (s : BridgeClient) (next : Retarget) :
    Moves Ordinarily s (s.retarget next) := by
  have hclear : Moves Ordinarily s { s.clearRetry with watched := none } := Moves.of_ledger rfl
  have he : ClientError.retargeted.Ordinary := trivial
  exact hclear.trans ((Moves.of_ledger (ledger_silence _)).trans
    ((failWaiters_moves _ he).trans (Moves.of_ledger (ledger_connect _))))

/-- Every settlement of a step is one that its event permits. -/
theorem step_moves (s : BridgeClient) (e : BridgeEvent) : Moves (s.Permits e) s (s.step e) := by
  cases e with
  | start => exact Moves.of_ledger (ledger_connect _)
  | stop => exact Moves.of_ledger (ledger_stop s)
  | retarget next => exact (retarget_moves s next).permits
  | socket i e =>
    unfold step
    dsimp only
    split
    next hi =>
      cases e with
      | opened => exact Moves.of_ledger (ledger_onOpen (s.setReadyState i .opened))
      | message f => exact handleRaw_moves hi f
      | closed =>
        have hclosed : Moves Ordinarily s (s.setReadyState i .closed) := Moves.of_ledger rfl
        exact (hclosed.trans (onDisconnect_moves _)).permits
      | error err => exact Moves.of_ledger (ledger_onSocketError s err)
      | unexpectedResponse code => exact Moves.of_ledger (ledger_onUnexpectedResponse s code)
    next => cases e <;> exact Moves.of_ledger rfl
  | retry t => exact Moves.of_ledger (ledger_connect _)
  | pollInvites => exact (pollPendingInvites_moves s).permits
  | pongMissed => exact Moves.of_ledger (ledger_elim_closeSocket s s.watched)
  | ready => exact (ready_moves s).permits
  | join name chanPubkey => exact (join_moves s name chanPubkey).permits
  | whois agentId => exact (agentInfo_moves s agentId).permits
  | presence => exact (presence_moves s).permits
  | send peer channel id ciphertext =>
    simp only [step]
    split
    next hsend => exact Moves.of_ledger (ledger_sendFrame hsend)
    next => exact Moves.refl _ s
  | addChannel ch => exact Moves.of_ledger rfl
  | armInvite name channel =>
    have harm : Moves Ordinarily s (if s.pendingInvites.any fun p =>
        s.codec.toLowerCase p.name = s.codec.toLowerCase name ∧ p.channel = channel then s
          else s.setPendingInvites (s.pendingInvites ++ [⟨name, channel⟩])) := by
      split
      · exact Moves.refl _ s
      · exact Moves.of_ledger rfl
    exact (harm.trans (pollPendingInvites_moves _)).permits
  | invited i => exact Moves.of_ledger (ledger_invited s i)
  | invitesDone => exact Moves.of_ledger rfl
  | timeout r => exact (timeout_moves s r).permits
  | task n => exact (runTask_moves s n).permits
  | outside env config now => exact Moves.of_ledger rfl

theorem typed_create (opts : ClientOpts) (env : Env) (config : Option DapFileConfig) (now : ℤ) :
    (create opts env config now).Typed := by
  constructor
  · intro r c h
    cases h with
    | ready h => simp [create] at h
    | join h => exact absurd h (not_waits_empty _ _)
    | whois h => exact absurd h (not_waits_empty _ _)
    | presence h => exact absurd h (not_waits_empty _ _)
    | task h => simp [create] at h
  · intro r o h
    simp [create] at h

theorem typed_run (hs : s.Typed) (es : List BridgeEvent) : (s.run es).Typed := by
  induction es generalizing s with
  | nil => exact hs
  | cons e es ih => exact ih (step_moves s e hs).typed

theorem run_concat (s : BridgeClient) (es : List BridgeEvent) (e : BridgeEvent) :
    s.run (es ++ [e]) = (s.run es).step e := List.foldl_append

theorem calls_run_prefix (hs : s.Typed) (es : List BridgeEvent) : s.calls <+: (s.run es).calls := by
  induction es using List.reverseRecOn with
  | nil => exact List.prefix_refl _
  | append_singleton es e ih =>
    rw [run_concat]
    exact ih.trans (step_moves _ e (typed_run hs es)).calls

/-! ### What an event settles -/

theorem isSettled_settle (s : BridgeClient) (o : Settlement) (r : ℕ) :
    (s.settle o r).isSettled r = true := by
  unfold settle
  split
  next h => exact h
  next => exact isSettled_iff.mpr ⟨o, by simp⟩

theorem Grows.exists_new {P : ℕ → Settlement → Prop} (h : Grows P s t) {r : ℕ}
    (hfresh : s.isSettled r = false) (hsettled : t.isSettled r = true) :
    ∃ o, (r, o) ∈ t.settled ∧ P r o := by
  obtain ⟨o, ho⟩ := isSettled_iff.mp hsettled
  obtain ⟨new, hnew, hP⟩ := h.settled
  refine ⟨o, ho, ?_⟩
  rw [hnew] at ho
  rcases List.mem_append.mp ho with ho | ho
  · have hold := isSettled_iff.mpr ⟨o, ho⟩
    rw [hfresh] at hold
    cases hold
  · exact (hP (r, o) ho).1

/-- The event settles the call. -/
def Settles (s : BridgeClient) (e : BridgeEvent) (r : ℕ) (o : Settlement) : Prop :=
  s.isSettled r = false ∧ (r, o) ∈ (s.step e).settled

theorem Settles.permits {e : BridgeEvent} {r : ℕ} {o : Settlement} (hs : s.Typed)
    (h : s.Settles e r o) : s.Permits e r o := by
  obtain ⟨hfresh, hmem⟩ := h
  obtain ⟨new, hnew, hP⟩ := (step_moves s e hs).settled
  rw [hnew] at hmem
  rcases List.mem_append.mp hmem with hmem | hmem
  · have hold := isSettled_iff.mpr ⟨o, hmem⟩
    rw [hfresh] at hold
    cases hold
  · exact (hP (r, o) hmem).1

/-- The options that the sample runs share. -/
def sampleOpts : ClientOpts where
  url := "ws://hub/ws"
  agentId := "me"
  xpriv := ""
  codec := ⟨id, String.length, fun _ _ _ _ _ => .error ""⟩
  uuid := toString

end BridgeClient

end Dap
