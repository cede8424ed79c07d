import Dap.Adapter.RetiredSockets
import Dap.Adapter.Verdicts

/-! What a deliberate shutdown of the bridge's client does to the waiters it finds parked. -/
namespace Dap

/-- One entry of the four tables of waiters. -/
inductive Waiter where
  | ready (r : ℕ)
  | whois (agentId : String) (r : ℕ)
  | presence (id : String) (w : PresenceWaiter)
  | join (channel : String) (r : ℕ)

/-- The call that is settled when the waiter fires. -/
def Waiter.call : Waiter → Option ℕ
  | .ready r => some r
  | .whois _ r => some r
  | .presence _ (.call r) => some r
  | .presence _ (.warmUp _) => none
  | .join _ r => some r

def Waiter.IsJoin : Waiter → Prop
  | .join _ _ => True
  | _ => False

namespace BridgeClient

variable {s t u : BridgeClient} {e : ClientError}

def Parked (s : BridgeClient) : Waiter → Prop
  | .ready r => r ∈ s.readyWaiters
  | .whois a r => Waits s.whoisWaiters a r
  | .presence id w => Waits s.presenceWaiters id w
  | .join ch r => Waits s.joinWaiters ch r

instance (s : BridgeClient) (w : Waiter) : Decidable (s.Parked w) :=
  match w with
  | .ready r => inferInstanceAs (Decidable (r ∈ s.readyWaiters))
  | .whois a r => inferInstanceAs (Decidable (Waits s.whoisWaiters a r))
  | .presence id w => inferInstanceAs (Decidable (Waits s.presenceWaiters id w))
  | .join ch r => inferInstanceAs (Decidable (Waits s.joinWaiters ch r))

/-- Every waiter parked in `s` is gone in `t`, and its call was rejected if it was still pending. -/
def Freed (s t : BridgeClient) : Prop :=
  ∀ w, s.Parked w → ¬ t.Parked w ∧
    ∀ r ∈ w.call, s.isSettled r = false → ∃ e, (r, .rejected e) ∈ t.settled

/-! ### Settling with an error -/

/-- What is settled between `s` and `t` is rejected with `e`. -/
def Rejects (e : ClientError) (s t : BridgeClient) : Prop :=
  ∃ new, t.settled = s.settled ++ new ∧ ∀ p ∈ new, p.2 = .rejected e

theorem Rejects.of_settled (h : t.settled = s.settled) : Rejects e s t := by
  refine ⟨[], ?_, ?_⟩
  · rw [h, List.append_nil]
  · intro p hp
    cases hp

theorem Rejects.trans (h : Rejects e s t) (h' : Rejects e t u) : Rejects e s u := by
  obtain ⟨new, hnew, hall⟩ := h
  obtain ⟨new', hnew', hall'⟩ := h'
  refine ⟨new ++ new', ?_, ?_⟩
  · rw [hnew', hnew, List.append_assoc]
  · intro p hp
    rcases List.mem_append.mp hp with hp | hp
    · exact hall p hp
    · exact hall' p hp

theorem Rejects.isSettled (h : Rejects e s t) {r : ℕ} (hr : s.isSettled r = true) :
    t.isSettled r = true := by
  obtain ⟨new, hnew, -⟩ := h
  obtain ⟨o, ho⟩ := isSettled_iff.mp hr
  apply isSettled_iff.mpr
  refine ⟨o, ?_⟩
  rw [hnew]
  exact List.mem_append_left _ ho

theorem Rejects.mem (h : Rejects e s t) {r : ℕ} (hs : s.isSettled r = false)
    (ht : t.isSettled r = true) : (r, .rejected e) ∈ t.settled := by
  obtain ⟨new, hnew, hall⟩ := h
  obtain ⟨o, ho⟩ := isSettled_iff.mp ht
  have hmem := ho
  rw [hnew] at hmem
  rcases List.mem_append.mp hmem with hold | hfresh
  · have hr := isSettled_iff.mpr ⟨o, hold⟩
    rw [hs] at hr
    cases hr
  · have hrejected : o = .rejected e := hall _ hfresh
    exact hrejected ▸ ho

theorem settle_rejects (s : BridgeClient) (e : ClientError) (r : ℕ) :
    Rejects e s (s.settle (.rejected e) r) := by
  unfold settle
  split
  · exact Rejects.of_settled rfl
  · refine ⟨[(r, .rejected e)], rfl, ?_⟩
    intro p hp
    rw [List.mem_singleton.mp hp]

theorem settleAll_rejects (s : BridgeClient) (e : ClientError) (rs : List ℕ) :
    Rejects e s (s.settleAll (.rejected e) rs) := by
  induction rs generalizing s with
  | nil => exact Rejects.of_settled rfl
  | cons r rs ih => exact (settle_rejects s e r).trans (ih (s.settle (.rejected e) r))

theorem waiting_settleAll (s : BridgeClient) (o : Settlement) (rs : List ℕ) :
    (s.settleAll o rs).waiting = s.waiting := by
  induction rs generalizing s with
  | nil => rfl
  | cons r rs ih => exact (ih (s.settle o r)).trans (waiting_settle s o r)

/-! ### The clean-up -/

/-- The tables of the other three kinds. -/
def otherWaiters (s : BridgeClient) := (s.readyWaiters, s.whoisWaiters, s.joinWaiters)

theorem otherWaiters_of_waiting (h : t.waiting = s.waiting) : t.otherWaiters = s.otherWaiters := by
  simp only [waiting, Prod.mk.injEq] at h
  simp only [otherWaiters, Prod.mk.injEq]
  exact ⟨h.1, h.2.1, h.2.2.1⟩

theorem failPresence_rejects (e : ClientError) (s : BridgeClient)
    (waiter : String × PresenceWaiter) : Rejects e s (failPresence e s waiter) ∧
      (failPresence e s waiter).otherWaiters = s.otherWaiters ∧
      ∀ r, waiter.2 = .call r → (failPresence e s waiter).isSettled r = true := by
  obtain ⟨id, w⟩ := waiter
  obtain ⟨m, hm⟩ := s.unparkPresenceWaiter_fields id w
  cases w with
  | call r =>
    have hfail : failPresence e s (id, .call r) =
        ({ s with presenceWaiters := m } : BridgeClient).settle (.rejected e) r := by
      rw [← hm]
      rfl
    rw [hfail]
    refine ⟨?_, ?_, ?_⟩
    · have h := settle_rejects { s with presenceWaiters := m } e r
      exact h
    · have h := otherWaiters_of_waiting
        (waiting_settle { s with presenceWaiters := m } (.rejected e) r)
      exact h
    · intro r' hr'
      cases hr'
      exact isSettled_settle _ _ r
  | warmUp n =>
    have hfail : failPresence e s (id, .warmUp n) = { s with presenceWaiters := m } := by
      rw [← hm]
      rfl
    rw [hfail]
    refine ⟨Rejects.of_settled rfl, rfl, ?_⟩
    intro r hr
    cases hr

theorem foldl_failPresence_rejects (e : ClientError) (s : BridgeClient)
    (l : List (String × PresenceWaiter)) : Rejects e s (l.foldl (failPresence e) s) ∧
      (l.foldl (failPresence e) s).otherWaiters = s.otherWaiters ∧
      ∀ id r, (id, .call r) ∈ l → (l.foldl (failPresence e) s).isSettled r = true := by
  induction l generalizing s with
  | nil =>
    refine ⟨Rejects.of_settled rfl, rfl, ?_⟩
    intro id r hr
    cases hr
  | cons waiter l ih =>
    obtain ⟨hone, hkept, hsettled⟩ := failPresence_rejects e s waiter
    obtain ⟨hrest, hkept', hall⟩ := ih (failPresence e s waiter)
    refine ⟨hone.trans hrest, hkept'.trans hkept, ?_⟩
    intro id r hr
    rcases List.mem_cons.mp hr with rfl | hr
    · exact hrest.isSettled (hsettled r rfl)
    · exact hall id r hr

theorem mem_allPresenceWaiters_of_waits {id : String} {w : PresenceWaiter}
    (h : Waits s.presenceWaiters id w) : (id, w) ∈ s.allPresenceWaiters := by
  obtain ⟨ws, hws, hw⟩ := h.mem_entries
  apply List.mem_flatMap.mpr
  refine ⟨(id, ws), hws, ?_⟩
  exact List.mem_map.mpr ⟨w, hw, rfl⟩

theorem mem_values_of_waits {V : Type} {m : JsMap String (List V)} {k : String} {w : V}
    (h : Waits m k w) : w ∈ m.values.flatten := by
  obtain ⟨ws, hws, hw⟩ := h.mem_entries
  apply List.mem_flatten.mpr
  refine ⟨ws, ?_, hw⟩
  exact JsMap.mem_values.mpr ⟨k, JsMap.mem_entries.mp hws⟩

/-- Three tables are emptied, and every pending call of theirs is rejected. -/
theorem failWaiters_rejects (s : BridgeClient) (e : ClientError) :
    Rejects e s (s.failWaiters e) ∧
      (s.failWaiters e).readyWaiters = [] ∧ (s.failWaiters e).whoisWaiters = ∅ ∧
      (s.failWaiters e).presenceWaiters = ∅ ∧
      (s.failWaiters e).joinWaiters = s.joinWaiters ∧
      ∀ w, s.Parked w → ¬ w.IsJoin → ∀ r ∈ w.call, (s.failWaiters e).isSettled r = true := by
  -- the whois waiters, the presence waiters, the ready waiters, in this order
  have hwhois := settleAll_rejects s e s.whoisWaiters.values.flatten
  have hwhoisAll : ∀ r ∈ s.whoisWaiters.values.flatten, _ := fun r hr =>
    isSettled_settleAll (s := s) hr (.rejected e)
  have hwaiting := waiting_settleAll s (.rejected e) s.whoisWaiters.values.flatten
  generalize hs₁ : s.settleAll (.rejected e) s.whoisWaiters.values.flatten = s₁ at *
  obtain ⟨hpresence, hother, hpresenceAll⟩ := foldl_failPresence_rejects e
    { s₁ with whoisWaiters := ∅ } s₁.allPresenceWaiters
  generalize hs₂ : s₁.allPresenceWaiters.foldl (failPresence e)
    { s₁ with whoisWaiters := ∅ } = s₂ at *
  have hready := settleAll_rejects
    { s₂ with presenceWaiters := ∅, readyWaiters := [] } e s₂.readyWaiters
  have hwaiting' := waiting_settleAll
    { s₂ with presenceWaiters := ∅, readyWaiters := [] } (.rejected e) s₂.readyWaiters
  have hfail : s.failWaiters e =
      ({ s₂ with presenceWaiters := ∅, readyWaiters := [] } : BridgeClient).settleAll
        (.rejected e) s₂.readyWaiters := by
    rw [← hs₂, ← hs₁]
    rfl
  rw [hfail]
  simp only [waiting, Prod.mk.injEq] at hwaiting hwaiting'
  simp only [otherWaiters, Prod.mk.injEq] at hother
  have hafter : Rejects e s₁ s₂ := by
    obtain ⟨new, hnew, hall⟩ := hpresence
    exact ⟨new, hnew, hall⟩
  have hlast : Rejects e s₂ _ := hready
  refine ⟨hwhois.trans (hafter.trans hlast), hwaiting'.1, ?_, hwaiting'.2.2.2.1, ?_, ?_⟩
  · exact hwaiting'.2.1.trans hother.2.1
  · exact hwaiting'.2.2.1.trans (hother.2.2.trans hwaiting.2.2.1)
  · intro w hw hjoin r hr
    cases w with
    | ready r' =>
      cases hr
      refine isSettled_settleAll ?_ _
      rw [hother.1, hwaiting.1]
      exact hw
    | whois a r' =>
      cases hr
      exact hlast.isSettled (hafter.isSettled (hwhoisAll r (mem_values_of_waits hw)))
    | presence id w =>
      cases w with
      | call r' =>
        cases hr
        apply hlast.isSettled
        apply hpresenceAll id r
        apply mem_allPresenceWaiters_of_waits
        rw [hwaiting.2.2.2.1]
        exact hw
      | warmUp n => cases hr
    | join ch r' => exact absurd trivial hjoin

/-- The clean-up frees every waiter unless a join is parked. -/
theorem freed_failWaiters_iff (s : BridgeClient) (e : ClientError) :
    s.Freed (s.failWaiters e) ↔ ∀ w, s.Parked w → ¬ w.IsJoin := by
  obtain ⟨hrejects, hready, hwhois, hpresence, hjoin, hall⟩ := failWaiters_rejects s e
  constructor
  · intro hfreed w hw hisJoin
    cases w with
    | join ch r =>
      apply (hfreed (.join ch r) hw).1
      change Waits (s.failWaiters e).joinWaiters ch r
      rw [hjoin]
      exact hw
    | ready r => exact hisJoin
    | whois a r => exact hisJoin
    | presence id w => exact hisJoin
  · intro hnone w hw
    refine ⟨?_, ?_⟩
    · intro hleft
      cases w with
      | ready r =>
        change r ∈ (s.failWaiters e).readyWaiters at hleft
        rw [hready] at hleft
        cases hleft
      | whois a r =>
        change Waits (s.failWaiters e).whoisWaiters a r at hleft
        rw [hwhois] at hleft
        exact not_waits_empty a r hleft
      | presence id w =>
        change Waits (s.failWaiters e).presenceWaiters id w at hleft
        rw [hpresence] at hleft
        exact not_waits_empty id w hleft
      | join ch r => exact hnone _ hw trivial
    · intro r hr hpending
      refine ⟨e, hrejects.mem hpending ?_⟩
      exact hall w hw (hnone w hw) r hr

/-! ### What the shutdowns do -/

theorem parked_congr (h : t.ledger = s.ledger) (w : Waiter) : t.Parked w ↔ s.Parked w := by
  simp only [ledger, waiting, Prod.mk.injEq] at h
  obtain ⟨-, -, hready, hwhois, hjoin, hpresence, -⟩ := h
  cases w with
  | ready r => simp only [Parked, hready]
  | whois a r => simp only [Parked, hwhois]
  | presence id w => simp only [Parked, hpresence]
  | join ch r => simp only [Parked, hjoin]

theorem freed_congr {s' t' : BridgeClient} (hs : s'.ledger = s.ledger) (ht : t'.ledger = t.ledger) :
    s'.Freed t' ↔ s.Freed t := by
  have hsettled : s'.settled = s.settled := congrArg (fun l => l.2.1) hs
  have hsettled' : t'.settled = t.settled := congrArg (fun l => l.2.1) ht
  unfold Freed isSettled
  simp only [parked_congr hs, parked_congr ht, hsettled, hsettled']

/-- A state in which nothing moved frees nothing. -/
theorem freed_self_iff (h : t.ledger = s.ledger) : s.Freed t ↔ ∀ w, ¬ s.Parked w := by
  rw [freed_congr rfl h]
  constructor
  · intro hfreed w hw
    exact (hfreed w hw).1 hw
  · intro hnone w hw
    exact absurd hw (hnone w)

theorem freed_retarget_iff (s : BridgeClient) (next : Retarget) :
    s.Freed (s.retarget next) ↔ ∀ w, s.Parked w → ¬ w.IsJoin := by
  have hbefore : ({ s.clearRetry with watched := none } : BridgeClient).silence.ledger = s.ledger :=
    ledger_silence _
  have hafter : (s.retarget next).ledger = (({ s.clearRetry with watched := none } :
      BridgeClient).silence.failWaiters .retargeted).ledger := ledger_connect _
  rw [freed_congr hbefore.symm hafter, freed_failWaiters_iff]
  simp only [parked_congr hbefore]

/-- The library ends every socket that is closed with its `close` event, after an error if it was
still connecting. -/
def triggered (s : BridgeClient) : List BridgeEvent :=
  match s.ws with
  | none => []
  | some i =>
    match s.readyState i with
    | some .connecting =>
      [.socket i (.error "Error: WebSocket was closed before the connection was established"),
        .socket i .closed]
    | some .opened => [.socket i .closed]
    | some .closing => [.socket i .closed]
    | _ => []

/-- `stop()`, and the events it triggers. -/
def afterStop (s : BridgeClient) : BridgeClient := s.stop.run s.triggered

/-- A socket is there to be closed, and its `close` event is heard. -/
def Closes (s : BridgeClient) : Prop :=
  ∃ i, s.ws = some i ∧ s.Hears i ∧ s.readyState i ≠ some .closed

theorem hears_setReadyState (s : BridgeClient) (i j : ℕ) (st : ReadyState) :
    (s.setReadyState j st).Hears i ↔ s.Hears i := by
  simp only [Hears, setReadyState, List.getElem?_modify]
  cases s.sockets[i]? with
  | none => simp
  | some w => by_cases h : j = i <;> simp [h]

theorem elim_closeSocket_wires (s : BridgeClient) (o : Option ℕ) (i : ℕ) :
    ((o.elim s s.closeSocket).Hears i ↔ s.Hears i) ∧
      (o.elim s s.closeSocket).stopped = s.stopped := by
  cases o with
  | none => exact ⟨Iff.rfl, rfl⟩
  | some j =>
    change ((s.closeSocket j).Hears i ↔ _) ∧ (s.closeSocket j).stopped = _
    unfold closeSocket
    split
    · exact ⟨Iff.rfl, rfl⟩
    · exact ⟨hears_setReadyState s i j .closing, rfl⟩

theorem stop_wires (s : BridgeClient) (i : ℕ) :
    (s.stop.Hears i ↔ s.Hears i) ∧ s.stop.stopped = true := by
  have h := elim_closeSocket_wires
    { { s with stopped := true, watched := none }.clearRetry with inviteTimer := false } s.ws i
  exact h

/-- The `close` event of a socket that `stop()` closed. -/
theorem step_closed_of_stopped (hstopped : s.stopped = true) {i : ℕ} :
    (s.Hears i → ∃ t : BridgeClient, t.ledger = s.ledger ∧
        s.step (.socket i .closed) = t.failWaiters .clientStopped) ∧
      (¬ s.Hears i → (s.step (.socket i .closed)).ledger = s.ledger) := by
  refine ⟨?_, ?_⟩
  · intro hears
    refine ⟨{ s.setReadyState i .closed with watched := none, welcomed := false }, rfl, ?_⟩
    have hstep : s.step (.socket i .closed) = (s.setReadyState i .closed).onDisconnect :=
      if_pos hears
    rw [hstep]
    exact if_pos hstopped
  · intro hears
    have hstep : s.step (.socket i .closed) = s.setReadyState i .closed := if_neg hears
    rw [hstep, ledger_setReadyState]

/-- The error of a connection given up while it was dialled changes no call. -/
theorem step_error (s : BridgeClient) (i : ℕ) (err : String) :
    (s.step (.socket i (.error err))).ledger = s.ledger ∧
      (s.step (.socket i (.error err))).stopped = s.stopped ∧
      ((s.step (.socket i (.error err))).Hears i ↔ s.Hears i) := by
  by_cases hears : s.Hears i
  · have hstep : s.step (.socket i (.error err)) = s.onSocketError err := if_pos hears
    rw [hstep]
    unfold onSocketError
    split
    · exact ⟨rfl, rfl, Iff.rfl⟩
    · exact ⟨rfl, rfl, Iff.rfl⟩
  · have hstep : s.step (.socket i (.error err)) = s := if_neg hears
    rw [hstep]
    exact ⟨rfl, rfl, Iff.rfl⟩

theorem afterStop_of_closes (h : s.Closes) :
    ∃ t : BridgeClient, t.ledger = s.ledger ∧ s.afterStop = t.failWaiters .clientStopped := by
  obtain ⟨i, hws, hears, hopen⟩ := h
  obtain ⟨hheard, hstopped⟩ := stop_wires s i
  have hears' := hheard.mpr hears
  have hledger := ledger_stop s
  unfold afterStop triggered
  simp only [hws]
  cases hstate : s.readyState i with
  | none =>
    have hnone : s.sockets[i]? = none := Option.map_eq_none_iff.mp hstate
    unfold Hears at hears
    rw [hnone] at hears
    cases hears
  | some st =>
    cases st with
    | connecting =>
      obtain ⟨hsame, hkept, hheard⟩ := step_error s.stop i
        "Error: WebSocket was closed before the connection was established"
      have hstopped' := hkept.trans hstopped
      obtain ⟨t, ht, hstep⟩ := (step_closed_of_stopped hstopped').1 (hheard.mpr hears')
      exact ⟨t, ht.trans (hsame.trans hledger), hstep⟩
    | opened =>
      obtain ⟨t, ht, hstep⟩ := (step_closed_of_stopped hstopped).1 hears'
      exact ⟨t, ht.trans hledger, hstep⟩
    | closing =>
      obtain ⟨t, ht, hstep⟩ := (step_closed_of_stopped hstopped).1 hears'
      exact ⟨t, ht.trans hledger, hstep⟩
    | closed => exact absurd hstate hopen

theorem afterStop_of_not_closes (h : ¬ s.Closes) : s.afterStop.ledger = s.ledger := by
  have hledger := ledger_stop s
  unfold afterStop triggered
  cases hws : s.ws with
  | none => exact hledger
  | some i =>
    obtain ⟨hstop, hstopped⟩ := stop_wires s i
    simp only
    cases hstate : s.readyState i with
    | none => exact hledger
    | some st =>
      have hears : st ≠ .closed → ¬ s.stop.Hears i := by
        intro hst hears
        apply h
        refine ⟨i, hws, hstop.mp hears, ?_⟩
        rw [hstate]
        intro heq
        exact hst (Option.some.inj heq)
      cases st with
      | connecting =>
        obtain ⟨hsame, hkept, hheard⟩ := step_error s.stop i
          "Error: WebSocket was closed before the connection was established"
        have hclosed := (step_closed_of_stopped (hkept.trans hstopped)).2
          (fun h => hears (by simp) (hheard.mp h))
        exact hclosed.trans (hsame.trans hledger)
      | opened => exact ((step_closed_of_stopped hstopped).2 (hears (by simp))).trans hledger
      | closing => exact ((step_closed_of_stopped hstopped).2 (hears (by simp))).trans hledger
      | closed => exact hledger

theorem freed_afterStop_iff (s : BridgeClient) :
    s.Freed s.afterStop ↔
      (∀ w, ¬ s.Parked w) ∨ (s.Closes ∧ ∀ w, s.Parked w → ¬ w.IsJoin) := by
  by_cases hcloses : s.Closes
  · obtain ⟨t, ht, hafter⟩ := afterStop_of_closes hcloses
    rw [hafter, freed_congr ht.symm rfl, freed_failWaiters_iff]
    simp only [parked_congr ht]
    constructor
    · intro h
      exact .inr ⟨hcloses, h⟩
    · rintro (hnone | ⟨-, h⟩)
      · intro w hw
        exact absurd hw (hnone w)
      · exact h
  · rw [freed_self_iff (afterStop_of_not_closes hcloses)]
    constructor
    · exact .inl
    · rintro (hnone | ⟨h, -⟩)
      · exact hnone
      · exact absurd h hcloses

/-- A retarget frees every waiter exactly when no join is parked; a stop must also find a socket to
close, unless nothing is parked at all. -/
theorem shutdown_freed_iff (s : BridgeClient) (next : Retarget) :
    (s.Freed (s.retarget next) ↔ ∀ w, s.Parked w → ¬ w.IsJoin) ∧
      (s.Freed s.afterStop ↔
        (∀ w, ¬ s.Parked w) ∨ (s.Closes ∧ ∀ w, s.Parked w → ¬ w.IsJoin)) :=
  ⟨freed_retarget_iff s next, freed_afterStop_iff s⟩

/-- A join in flight, and a lookup that is made while a reconnect is due. -/
def joinInFlight : List BridgeEvent :=
  [.start, .socket 0 .opened, .socket 0 (.message .welcome), .join "c" "pub", .task 0]

def lookupWhileDown : List BridgeEvent :=
  [.start, .socket 0 .opened, .socket 0 (.message .welcome), .whois "peer", .socket 0 .closed]

theorem not_shutdown_freed :
    Throughout (fun s e => s.Emits e ∧ s.Allowed e) (create sampleOpts {} none 0) joinInFlight ∧
      ¬ ((create sampleOpts {} none 0).run joinInFlight).Freed
        (((create sampleOpts {} none 0).run joinInFlight).retarget {}) ∧
      Throughout (fun s e => s.Emits e ∧ s.Allowed e) (create sampleOpts {} none 0)
        lookupWhileDown ∧
      ¬ ((create sampleOpts {} none 0).run lookupWhileDown).Freed
        ((create sampleOpts {} none 0).run lookupWhileDown).afterStop := by
  refine ⟨by decide +kernel, ?_, by decide +kernel, ?_⟩
  · intro h
    have hjoin := (h (.join "c" 0) (by decide +kernel)).1
    exact hjoin (by decide +kernel)
  · intro h
    have hwhois := (h (.whois "peer" 0) (by decide +kernel)).1
    exact hwhois (by decide +kernel)

end BridgeClient

end Dap
