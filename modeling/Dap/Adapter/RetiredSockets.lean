import Dap.Adapter.Settling
import Dap.Adapter.Wiring

/-! Sockets that the bridge's client has given up: what their late events change, and when no
reconnect is armed beside a live socket. -/
namespace Dap
namespace BridgeClient

variable {s t : BridgeClient}

/-! ### Runs -/

/-- Every event of a run meets a condition on the state it finds. -/
def Throughout (C : BridgeClient → BridgeEvent → Prop) : BridgeClient → List BridgeEvent → Prop
  | _, [] => True
  | s, e :: es => C s e ∧ Throughout C (s.step e) es

instance {C : BridgeClient → BridgeEvent → Prop} [∀ s e, Decidable (C s e)] :
    ∀ s es, Decidable (Throughout C s es)
  | _, [] => .isTrue trivial
  | s, e :: es =>
    have := instDecidableThroughout (C := C) (s.step e) es
    inferInstanceAs (Decidable (C s e ∧ Throughout C (s.step e) es))

theorem Throughout.of_invariant {C D : BridgeClient → BridgeEvent → Prop}
    {I : BridgeClient → Prop} (hstep : ∀ s e, I s → C s e → I (s.step e) ∧ D s e) (hs : I s)
    {es : List BridgeEvent} (h : Throughout C s es) : Throughout D s es := by
  induction es generalizing s with
  | nil => trivial
  | cons e es ih =>
    obtain ⟨hnext, hD⟩ := hstep s e hs h.1
    exact ⟨hD, ih hnext h.2⟩

/-- `start` comes only after the constructor or `stop`. -/
def Allowed (s : BridgeClient) : BridgeEvent → Prop
  | .start => s.stopped = true ∨ s.sockets = []
  | _ => True

instance (s : BridgeClient) : DecidablePred s.Emits
  | .socket _ .opened => inferInstanceAs (Decidable (_ = _))
  | .socket _ (.unexpectedResponse _) => inferInstanceAs (Decidable (_ = _))
  | .socket _ (.message _) => inferInstanceAs (Decidable (_ ∨ _))
  | .socket _ .closed => inferInstanceAs (Decidable (_ ∧ _))
  | .socket _ (.error _) => inferInstanceAs (Decidable (_ ∧ _))
  | .retry t => inferInstanceAs (Decidable (t ∈ s.timers))
  | .pollInvites => inferInstanceAs (Decidable (_ = _))
  | .pongMissed => inferInstanceAs (Decidable (_ ≠ _))
  | .start | .stop | .retarget _ | .ready | .join _ _ | .whois _ | .presence | .send _ _ _ _
  | .addChannel _ | .armInvite _ _ | .invited _ | .invitesDone | .timeout _ | .task _
  | .outside _ _ _ => .isTrue trivial

instance (s : BridgeClient) : DecidablePred s.Allowed
  | .start => inferInstanceAs (Decidable (_ ∨ _))
  | .stop | .retarget _ | .socket _ _ | .retry _ | .pollInvites | .pongMissed | .ready | .join _ _
  | .whois _ | .presence | .send _ _ _ _ | .addChannel _ | .armInvite _ _ | .invited _
  | .invitesDone | .timeout _ | .task _ | .outside _ _ _ => .isTrue trivial

def Alive (s : BridgeClient) (i : ℕ) : Prop :=
  s.readyState i = some .connecting ∨ s.readyState i = some .opened

instance (s : BridgeClient) (i : ℕ) : Decidable (s.Alive i) :=
  inferInstanceAs (Decidable (_ ∨ _))

def SentHello (s : BridgeClient) (i : ℕ) : Prop := ∃ agentId name, (i, .hello agentId name) ∈ s.sent

/-- An event of a socket that is not the current one changes no more than that socket, and then no
reconnect is armed beside a live socket, and at most one open socket has sent its hello. -/
structure Undisturbed (s : BridgeClient) (e : BridgeEvent) : Prop where
  retired : ∀ i se, e = .socket i se → s.ws ≠ some i → s.step e = s.socketMoves i se
  armed : (s.step e).timers ≠ [] → ∀ i, (s.step e).ws = some i → ¬ (s.step e).Alive i
  hellos : ∀ i j, (s.step e).readyState i = some .opened → (s.step e).readyState j = some .opened →
    (s.step e).SentHello i → (s.step e).SentHello j → i = j

/-- A late event of a socket that `stop` gave up finds nothing to change. -/
def Harmless (s : BridgeClient) : SocketEvent → Prop
  | .closed => s.stopped = true ∧ s.welcomed = false ∧ s.watched = none ∧ s.whoisWaiters = ∅ ∧
    s.presenceWaiters = ∅ ∧ s.readyWaiters = []
  | .error _ => (s.ws.any fun i => s.readyState i = some .opened) = false
  | .message f => f = .other
  | _ => False

instance (s : BridgeClient) : DecidablePred s.Harmless
  | .closed => inferInstanceAs (Decidable (_ ∧ _))
  | .error _ => inferInstanceAs (Decidable (_ = _))
  | .message f => inferInstanceAs (Decidable (f = .other))
  | .opened | .unexpectedResponse _ => .isFalse id

/-- The events of a socket that is not the current one come from one that `retarget` silenced, or
are harmless. -/
def Quiet (s : BridgeClient) : BridgeEvent → Prop
  | .socket i e => s.ws = some i ∨ ¬ s.Hears i ∨ s.Harmless e
  | _ => True

instance (s : BridgeClient) : DecidablePred s.Quiet
  | .socket i e => inferInstanceAs (Decidable (_ ∨ ¬ s.Hears i ∨ s.Harmless e))
  | .start | .stop | .retarget _ | .retry _ | .pollInvites | .pongMissed | .ready | .join _ _
  | .whois _ | .presence | .send _ _ _ _ | .addChannel _ | .armInvite _ _ | .invited _
  | .invitesDone | .timeout _ | .task _ | .outside _ _ _ => .isTrue trivial

/-! ### The invariant -/

/-- At most the current socket lives, and a timer is armed only once it is closed. -/
structure Wired (s : BridgeClient) : Prop where
  alive : ∀ i, s.Alive i → s.ws = some i
  timers : ∀ t ∈ s.timers, s.retryTimer = some t ∧
    ∀ i, s.ws = some i → s.readyState i = some .closed
  stopped : s.stopped = true → s.ws = none ∧ s.timers = []
  fresh : s.sockets = [] → s.ws = none ∧ s.timers = []

theorem Wired.of_wiring (h : t.wiring = s.wiring) (hs : s.Wired) : t.Wired := by
  simp only [wiring, Prod.mk.injEq] at h
  obtain ⟨hsockets, hws, htimers, hretry, hstopped⟩ := h
  have hstate : ∀ i, t.readyState i = s.readyState i := by
    intro i
    unfold readyState
    rw [hsockets]
  constructor
  · intro i hi
    rw [hws]
    apply hs.alive i
    unfold Alive at hi ⊢
    rwa [hstate] at hi
  · intro tm htm
    rw [htimers] at htm
    obtain ⟨hretry', hclosed⟩ := hs.timers tm htm
    refine ⟨hretry ▸ hretry', ?_⟩
    intro i hi
    rw [hstate]
    exact hclosed i (hws ▸ hi)
  · intro hstop
    rw [hws, htimers]
    exact hs.stopped (hstopped ▸ hstop)
  · intro hnone
    rw [hws, htimers]
    exact hs.fresh (hsockets ▸ hnone)

theorem Wired.not_armed (hs : s.Wired) (ht : s.timers ≠ []) {i : ℕ} (hi : s.ws = some i) :
    ¬ s.Alive i := by
  obtain ⟨tm, htm⟩ := List.exists_mem_of_ne_nil _ ht
  have hclosed := (hs.timers tm htm).2 i hi
  rintro (h | h)
  · rw [hclosed] at h
    cases h
  · rw [hclosed] at h
    cases h

theorem Wired.timers_of_alive (hs : s.Wired) {i : ℕ} (hi : s.ws = some i)
    (hopen : s.readyState i ≠ some .closed) : s.timers = [] := by
  by_contra ht
  obtain ⟨tm, htm⟩ := List.exists_mem_of_ne_nil _ ht
  exact hopen ((hs.timers tm htm).2 i hi)

/-! ### Sockets -/

theorem readyState_setReadyState (s : BridgeClient) (i j : ℕ) (st : ReadyState) :
    (s.setReadyState i st).readyState j =
      if i = j then (s.readyState j).map fun _ => st else s.readyState j := by
  simp only [readyState, setReadyState, List.getElem?_modify]
  cases s.sockets[j]? with
  | none => simp
  | some w => by_cases h : i = j <;> simp [h]

theorem readyState_detach (s : BridgeClient) (i j : ℕ) :
    (s.detach i).readyState j = s.readyState j := by
  simp only [readyState, detach, List.getElem?_modify]
  cases s.sockets[j]? with
  | none => simp
  | some w => by_cases h : i = j <;> simp [h]

/-- A socket that dies takes nothing with it. -/
theorem Wired.setReadyState (hs : s.Wired) (i : ℕ) {st : ReadyState}
    (hst : st = .closed ∨ (st = .closing ∧ s.readyState i ≠ some .closed)) :
    (s.setReadyState i st).Wired := by
  constructor
  · intro j hj
    apply hs.alive j
    unfold Alive at hj ⊢
    rw [readyState_setReadyState] at hj
    split at hj
    · cases hget : s.readyState j with
      | none => simp [hget] at hj
      | some old => rcases hst with rfl | ⟨rfl, -⟩ <;> simp [hget] at hj
    · exact hj
  · intro tm htm
    obtain ⟨hretry, hclosed⟩ := hs.timers tm htm
    refine ⟨hretry, ?_⟩
    intro j hj
    have hold := hclosed j hj
    rw [readyState_setReadyState]
    split
    next heq =>
      subst heq
      rcases hst with rfl | ⟨-, hopen⟩
      · rw [hold]
        rfl
      · exact absurd hold hopen
    next => exact hold
  · exact hs.stopped
  · intro hnone
    apply hs.fresh
    have hlength := congrArg List.length hnone
    simp only [BridgeClient.setReadyState, List.length_modify, List.length_nil] at hlength
    exact List.eq_nil_of_length_eq_zero hlength

theorem Wired.closeSocket (hs : s.Wired) (i : ℕ) : (s.closeSocket i).Wired := by
  unfold BridgeClient.closeSocket
  split
  next => exact hs
  next h => exact hs.setReadyState i (.inr ⟨rfl, h⟩)

theorem Wired.elim_closeSocket (hs : s.Wired) (o : Option ℕ) : (o.elim s s.closeSocket).Wired := by
  cases o with
  | none => exact hs
  | some i => exact hs.closeSocket i

/-- A new socket may be dialled where none lives and no timer is armed. -/
theorem wired_connect (hdead : ∀ i, ¬ s.Alive i) (htimers : s.timers = [])
    (hstopped : s.stopped = true → s.ws = none) (hfresh : s.sockets = [] → s.ws = none) :
    s.connect.Wired := by
  have htimer : ∀ tm, tm ∉ s.timers := by
    intro tm htm
    rw [htimers] at htm
    cases htm
  unfold connect
  split
  · exact ⟨fun i hi => absurd hi (hdead i), fun tm htm => absurd htm (htimer tm),
      fun h => ⟨hstopped h, htimers⟩,
      fun h => ⟨hfresh h, htimers⟩⟩
  next hrunning =>
    refine ⟨?_, fun tm htm => absurd htm (htimer tm), fun h => absurd h hrunning, ?_⟩
    · intro i hi
      by_contra hne
      have hi' : i ≠ s.sockets.length := fun heq => hne (heq ▸ rfl)
      apply hdead i
      unfold Alive readyState at hi ⊢
      by_cases hlt : i < s.sockets.length
      · simpa [List.getElem?_append_left hlt] using hi
      · have hnone : (s.sockets ++ [⟨s.url, (resolveAuthToken s.env s.config).map Auth.token,
            .connecting, true⟩])[i]? = none :=
          List.getElem?_eq_none (by simp; omega)
        simp only [hnone] at hi
        simp at hi
    · intro hnone
      simp at hnone

theorem Wired.opened (hs : s.Wired) {i : ℕ} (hi : s.readyState i = some .connecting) :
    (s.setReadyState i .opened).Wired := by
  have hws := hs.alive i (.inl hi)
  have htimers := hs.timers_of_alive hws (by rw [hi]; simp)
  constructor
  · intro j hj
    by_cases heq : i = j
    · subst heq
      exact hws
    · apply hs.alive j
      unfold Alive at hj ⊢
      simpa [readyState_setReadyState, heq] using hj
  · intro tm htm
    rw [show (s.setReadyState i .opened).timers = [] from htimers] at htm
    cases htm
  · exact hs.stopped
  · intro hnone
    apply hs.fresh
    have hlength := congrArg List.length hnone
    simp only [BridgeClient.setReadyState, List.length_modify, List.length_nil] at hlength
    exact List.eq_nil_of_length_eq_zero hlength

/-- Once the current socket is closed nothing lives. -/
theorem not_alive_elim_closeSocket (h : ∀ i, s.Alive i → s.ws = some i) (i : ℕ) :
    ¬ (s.ws.elim s s.closeSocket).Alive i := by
  intro hi
  cases hws : s.ws with
  | none =>
    rw [hws] at hi
    have hcurrent := h i hi
    rw [hws] at hcurrent
    cases hcurrent
  | some j =>
    rw [hws] at hi
    change (s.closeSocket j).Alive i at hi
    unfold BridgeClient.closeSocket at hi
    have hcurrent : ∀ k, s.Alive k → j = k := by
      intro k hk
      have hk' := h k hk
      rw [hws] at hk'
      exact Option.some.inj hk'
    split at hi
    next hclosed =>
      have heq := hcurrent i hi
      subst heq
      rcases hi with hi | hi
      · rw [hclosed] at hi
        cases hi
      · rw [hclosed] at hi
        cases hi
    next =>
      unfold Alive at hi
      rw [readyState_setReadyState] at hi
      split at hi
      · cases hget : s.readyState i with
        | none => simp [hget] at hi
        | some old => simp [hget] at hi
      next hne => exact hne (hcurrent i hi)

theorem Wired.clearRetry_timers (hs : s.Wired) : s.clearRetry.timers = [] := by
  unfold clearRetry
  cases hretry : s.retryTimer with
  | none =>
    apply List.eq_nil_iff_forall_not_mem.mpr
    intro tm htm
    have h := (hs.timers tm htm).1
    rw [hretry] at h
    cases h
  | some r =>
    apply List.filter_eq_nil_iff.mpr
    intro tm htm
    have h := (hs.timers tm htm).1
    rw [hretry] at h
    cases h
    simp

theorem wired_of_dead (hdead : ∀ i, ¬ s.Alive i) (htimers : s.timers = []) (hws : s.ws = none) :
    s.Wired := by
  refine ⟨fun i hi => absurd hi (hdead i), ?_, fun _ => ⟨hws, htimers⟩, fun _ => ⟨hws, htimers⟩⟩
  intro tm htm
  rw [htimers] at htm
  cases htm

/-! ### Steps -/

/-- Dialling anew where no socket is current. -/
theorem Wired.redial (hs : s.Wired) (hws : s.ws = none)
    (hsockets : t.sockets = s.sockets) (hws' : t.ws = none) (htimers' : t.timers = [])
    (hrunning : t.stopped = false) : t.connect.Wired := by
  refine wired_connect ?_ htimers' (fun h => absurd h (by rw [hrunning]; simp)) (fun _ => hws')
  intro i hi
  have hcurrent := hs.alive i (by
    unfold Alive readyState at hi ⊢
    rwa [hsockets] at hi)
  rw [hws] at hcurrent
  cases hcurrent

theorem Wired.start (hs : s.Wired) (h : s.stopped = true ∨ s.sockets = []) : s.start.Wired := by
  obtain ⟨hws, htimers⟩ := h.elim hs.stopped hs.fresh
  exact hs.redial hws rfl hws htimers rfl

theorem Wired.stop (hs : s.Wired) : s.stop.Wired := by
  have hdead := not_alive_elim_closeSocket (s := { { s with
    stopped := true, watched := none }.clearRetry with inviteTimer := false }) hs.alive
  have htimers : ∀ t : BridgeClient, ∀ o : Option ℕ,
      (o.elim t t.closeSocket).timers = t.timers := by
    intro t o
    cases o with
    | none => rfl
    | some i =>
      change (t.closeSocket i).timers = t.timers
      unfold BridgeClient.closeSocket
      split <;> rfl
  refine wired_of_dead hdead ?_ rfl
  exact (htimers _ _).trans hs.clearRetry_timers

theorem Wired.disconnect (hs : s.Wired) {i : ℕ} (hi : s.ws = some i)
    (hclosed : s.readyState i = some .closed) (htimers : s.timers = []) :
    s.onDisconnect.Wired := by
  have hmark : ({ s with watched := none, welcomed := false } : BridgeClient).wiring =
      s.wiring := rfl
  unfold onDisconnect
  dsimp only
  split
  · exact Wired.of_wiring ((failWaiters_keeps _ _).wiring.trans hmark) hs
  next hrunning =>
    refine ⟨hs.alive, ?_, fun h => absurd h hrunning, ?_⟩
    · intro tm htm
      change tm ∈ s.timers ++ [s.nextTimer] at htm
      rw [htimers] at htm
      rw [List.mem_singleton.mp htm]
      refine ⟨rfl, ?_⟩
      intro j hj
      change s.ws = some j at hj
      rw [hi] at hj
      cases hj
      exact hclosed
    · intro hnone
      change s.sockets = [] at hnone
      simp [readyState, hnone] at hclosed

theorem alive_detach (s : BridgeClient) (i j : ℕ) : (s.detach i).Alive j ↔ s.Alive j := by
  unfold Alive
  rw [readyState_detach]

theorem Wired.silence (hs : s.Wired) (htimers : s.timers = []) :
    s.silence.Wired ∧ s.silence.timers = [] := by
  have hkept : s.silence.timers = [] := by
    unfold BridgeClient.silence
    cases s.ws with
    | none => exact htimers
    | some j =>
      change ((s.detach j).closeSocket j).timers = []
      unfold BridgeClient.closeSocket
      split <;> exact htimers
  refine ⟨wired_of_dead ?_ hkept rfl, hkept⟩
  intro i hi
  cases hws : s.ws with
  | none =>
    have hsame : s.silence.Alive i ↔ s.Alive i := by
      unfold BridgeClient.silence
      rw [hws]
      exact Iff.rfl
    have hcurrent := hs.alive i (hsame.mp hi)
    rw [hws] at hcurrent
    cases hcurrent
  | some j =>
    have hdead := not_alive_elim_closeSocket (s := s.detach j) (fun k hk =>
      hs.alive k ((alive_detach s j k).mp hk)) i
    have hws' : (s.detach j).ws = some j := hws
    rw [hws'] at hdead
    apply hdead
    unfold BridgeClient.silence at hi
    rw [hws] at hi
    exact hi

theorem Wired.retarget (hs : s.Wired) (next : Retarget) : (s.retarget next).Wired := by
  have hclear : ({ s.clearRetry with watched := none } : BridgeClient).Wired := by
    refine ⟨hs.alive, ?_, fun h => ⟨(hs.stopped h).1, hs.clearRetry_timers⟩,
      fun h => ⟨(hs.fresh h).1, hs.clearRetry_timers⟩⟩
    intro tm htm
    rw [show ({ s.clearRetry with watched := none } : BridgeClient).timers = [] from
      hs.clearRetry_timers] at htm
    cases htm
  obtain ⟨hsilent, htimers⟩ := hclear.silence hs.clearRetry_timers
  have hfail := (failWaiters_keeps
    ({ s.clearRetry with watched := none } : BridgeClient).silence .retargeted).wiring
  simp only [wiring, Prod.mk.injEq] at hfail
  refine hsilent.redial rfl hfail.1 hfail.2.1 ?_ rfl
  exact hfail.2.2.1.trans htimers

/-- What an event does to the socket it comes from. -/
theorem Wired.socketMoves (hs : s.Wired) {i : ℕ} {e : SocketEvent} (h : s.Emits (.socket i e)) :
    (s.socketMoves i e).Wired := by
  cases e with
  | opened => exact hs.opened h
  | closed => exact hs.setReadyState i (.inl rfl)
  | message f => exact hs
  | error err => exact hs
  | unexpectedResponse code => exact hs

theorem Wired.onUnexpectedResponse (hs : s.Wired) (code : ℕ) :
    (s.onUnexpectedResponse code).Wired := by
  unfold BridgeClient.onUnexpectedResponse
  dsimp only
  apply Wired.elim_closeSocket
  split
  · split
    · exact Wired.of_wiring (s := s) rfl hs
    · exact Wired.of_wiring (s := s) rfl hs
  · exact Wired.of_wiring (s := s) rfl hs

theorem onDisconnect_of_idle (hstopped : s.stopped = true) (hwelcomed : s.welcomed = false)
    (hwatched : s.watched = none) (hwhois : s.whoisWaiters = ∅) (hpresence : s.presenceWaiters = ∅)
    (hready : s.readyWaiters = []) : s.onDisconnect = s := by
  cases s
  simp only at hstopped hwelcomed hwatched hwhois hpresence hready
  subst hstopped hwelcomed hwatched hwhois hpresence hready
  rfl

/-- A harmless event of a silenced or given up socket moves that socket only. -/
theorem step_retired {i : ℕ} {e : SocketEvent} (h : ¬ s.Hears i ∨ s.Harmless e) :
    s.step (.socket i e) = s.socketMoves i e := by
  by_cases hi : s.Hears i
  · have hharmless := h.resolve_left (not_not_intro hi)
    refine (if_pos hi).trans ?_
    cases e with
    | opened => exact absurd hharmless id
    | closed =>
      obtain ⟨hstopped, hwelcomed, hwatched, hwhois, hpresence, hready⟩ := hharmless
      have hidle : (s.setReadyState i .closed).onDisconnect = s.setReadyState i .closed :=
        onDisconnect_of_idle hstopped hwelcomed hwatched hwhois hpresence hready
      exact hidle
    | message f =>
      cases hharmless
      rfl
    | error err =>
      refine if_neg ?_
      intro hany
      exact absurd (hany.symm.trans hharmless) (by simp)
    | unexpectedResponse code => exact absurd hharmless id
  · exact if_neg hi

theorem step_wired (hs : s.Wired) {e : BridgeEvent} (hemits : s.Emits e) (hallowed : s.Allowed e)
    (hquiet : s.Quiet e) : (s.step e).Wired := by
  cases e with
  | start => exact hs.start hallowed
  | stop => exact hs.stop
  | retarget next => exact hs.retarget next
  | socket i e =>
    have hmoves := hs.socketMoves hemits
    rcases hquiet with hi | hretired
    · by_cases hears : s.Hears i
      · have hstep : s.step (.socket i e) = (s.socketMoves i e).handleSocket e := if_pos hears
        rw [hstep]
        cases e with
        | opened => exact hmoves.of_wiring (onOpen_keeps _).wiring
        | message f => exact hs.of_wiring (handleRaw_polls s f).wiring
        | closed =>
          have hstate : (s.setReadyState i .closed).readyState i = some .closed := by
            rw [readyState_setReadyState, if_pos rfl]
            cases hget : s.readyState i with
            | none => exact absurd hget hemits.1
            | some old => rfl
          exact hmoves.disconnect hi hstate (hs.timers_of_alive hi hemits.2)
        | error err => exact hs.of_wiring (onSocketError_keeps s err).wiring
        | unexpectedResponse code => exact hs.onUnexpectedResponse code
      · rw [step_retired (.inl hears)]
        exact hmoves
    · rw [step_retired hretired]
      exact hmoves
  | retry t =>
    obtain ⟨hretry, hclosed⟩ := hs.timers t hemits
    refine wired_connect ?_ ?_ (fun h => (hs.stopped h).1) (fun h => (hs.fresh h).1)
    · intro i hi
      have hdead := hclosed i (hs.alive i hi)
      rcases hi with hi | hi
      · change s.readyState i = _ at hi
        rw [hdead] at hi
        cases hi
      · change s.readyState i = _ at hi
        rw [hdead] at hi
        cases hi
    · apply List.filter_eq_nil_iff.mpr
      intro t' ht'
      have hsame := (hs.timers t' ht').1
      rw [hretry] at hsame
      cases hsame
      simp
  | pollInvites => exact hs.of_wiring (pollPendingInvites_polls s).wiring
  | pongMissed =>
    exact Wired.of_wiring (s := s.watched.elim s s.closeSocket) rfl (hs.elim_closeSocket _)
  | ready => exact hs.of_wiring (ready_keeps s).wiring
  | join name chanPubkey => exact hs.of_wiring (join_keeps s name chanPubkey).wiring
  | whois agentId => exact hs.of_wiring (agentInfo_keeps s agentId).wiring
  | presence => exact hs.of_wiring (presence_keeps s).wiring
  | send peer channel id ciphertext =>
    simp only [step]
    split
    next hsend => exact hs.of_wiring (keeps_sendFrame hsend).wiring
    next => exact hs
  | addChannel ch => exact Wired.of_wiring (s := s) rfl hs
  | armInvite name channel => exact hs.of_wiring (wiring_armInvite s name channel)
  | invited i => exact hs.of_wiring (wiring_invited s i)
  | invitesDone => exact Wired.of_wiring (s := s) rfl hs
  | timeout r => exact hs.of_wiring (timeout_keeps s r).wiring
  | task n => exact hs.of_wiring (wiring_runTask s n)
  | outside env config now => exact Wired.of_wiring (s := s) rfl hs

theorem step_undisturbed (hs : s.Wired) {e : BridgeEvent} (hemits : s.Emits e)
    (hallowed : s.Allowed e) (hquiet : s.Quiet e) : s.Undisturbed e := by
  have hnext := step_wired hs hemits hallowed hquiet
  constructor
  · rintro i se rfl hne
    exact step_retired (hquiet.resolve_left hne)
  · intro ht i hi
    exact hnext.not_armed ht hi
  · intro i j hi hj _ _
    have hi' := hnext.alive i (.inr hi)
    rw [hnext.alive j (.inr hj)] at hi'
    exact (Option.some.inj hi').symm

theorem wired_create (opts : ClientOpts) (env : Env) (config : Option DapFileConfig) (now : ℤ) :
    (create opts env config now).Wired := by
  apply wired_of_dead
  · rintro i (hi | hi) <;> simp [create, readyState] at hi
  · rfl
  · rfl

/-- As long as the events of retired sockets are silenced or harmless, none of them disturbs the
client, no reconnect is armed beside a live socket, and one open socket at most has said hello. -/
theorem undisturbed {opts : ClientOpts} {env : Env} {config : Option DapFileConfig} {now : ℤ}
    {es : List BridgeEvent}
    (h : Throughout (fun s e => s.Emits e ∧ s.Allowed e ∧ s.Quiet e) (create opts env config now)
      es) : Throughout Undisturbed (create opts env config now) es := by
  refine Throughout.of_invariant (I := Wired) ?_ (wired_create opts env config now) h
  intro s e hs hC
  exact ⟨step_wired hs hC.1 hC.2.1 hC.2.2, step_undisturbed hs hC.1 hC.2.1 hC.2.2⟩

/-- A stop before the welcome, a second start, and a retarget whose old socket closes late. -/
def quietRun : List BridgeEvent :=
  [.start, .socket 0 .opened, .stop, .socket 0 .closed, .start, .socket 1 .opened,
    .socket 1 (.message .welcome), .retarget {}, .socket 2 .opened, .socket 1 .closed,
    .socket 2 .closed, .retry 0, .socket 3 .opened]

theorem undisturbed_quietRun : Throughout Undisturbed (create sampleOpts {} none 0) quietRun :=
  undisturbed (by decide +kernel)

/-- The old socket closes after the second start. -/
def lateClose : List BridgeEvent :=
  [.start, .socket 0 .opened, .socket 0 (.message .welcome), .stop, .start, .socket 0 .closed,
    .socket 1 .opened, .retry 0, .socket 2 .opened]

theorem not_undisturbed_lateClose :
    Throughout (fun s e => s.Emits e ∧ s.Allowed e) (create sampleOpts {} none 0) lateClose ∧
      ¬ Throughout Undisturbed (create sampleOpts {} none 0) lateClose := by
  refine ⟨by decide +kernel, ?_⟩
  intro h
  have hlast := h.2.2.2.2.2.2.2.2.1
  have hsame := hlast.hellos 1 2 (by decide +kernel) (by decide +kernel)
    ⟨"me", none, by decide +kernel⟩ ⟨"me", none, by decide +kernel⟩
  cases hsame

end BridgeClient

end Dap
