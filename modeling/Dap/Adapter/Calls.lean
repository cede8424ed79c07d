import Dap.Adapter.BridgeClient

/-! What the handlers of the client do to its outstanding calls: who waits for what, and what each
call is settled with. -/
namespace Dap

/-- The calls a task stands for: the one it awaits and the one it settles. -/
def Kont.calls (r : ℕ) : Kont → List (ℕ × Call)
  | .join r' name _ => [(r, .ready), (r', .join name)]
  | .decrypt m => [(r, .whois m.sender)]
  | .deliverInvites => []

/-- An error that is the verdict of no request. -/
def ClientError.Ordinary : ClientError → Prop
  | unknownAgent _ => False
  | hubError _ _ => False
  | _ => True

/-- What a call can be settled with. -/
def Call.Fits : Call → Settlement → Prop
  | .ready, .done => True
  | .ready, .rejected e => e.Ordinary
  | .join _, .done => True
  | .join _, .rejected e => ∀ a, e ≠ .unknownAgent a
  | .whois _, .info _ => True
  | .whois _, .rejected e => ∀ code msg, e ≠ .hubError code msg
  | .presence _, .agents _ => True
  | .presence _, .rejected e => e.Ordinary
  | _, _ => False

theorem ClientError.Ordinary.ne_unknownAgent {e : ClientError} (h : e.Ordinary) (a : String) :
    e ≠ .unknownAgent a := by
  intro heq
  subst heq
  exact h

theorem ClientError.Ordinary.ne_hubError {e : ClientError} (h : e.Ordinary) (code msg : String) :
    e ≠ .hubError code msg := by
  intro heq
  subst heq
  exact h

theorem Call.fits_rejected (c : Call) {e : ClientError} (h : e.Ordinary) :
    c.Fits (.rejected e) := by
  cases c with
  | ready => exact h
  | join => exact h.ne_unknownAgent
  | whois => exact h.ne_hubError
  | presence => exact h

/-- Settled by neither a roster nor the refusal of a request. -/
def Settlement.Ordinary : Settlement → Prop
  | .agents _ => False
  | .rejected e => e.Ordinary
  | _ => True

/-- A waiter parked under a key. -/
def Waits {V : Type} (m : JsMap String (List V)) (k : String) (w : V) : Prop :=
  w ∈ (m.get k).getD []

instance {V : Type} [DecidableEq V] (m : JsMap String (List V)) (k : String) (w : V) :
    Decidable (Waits m k w) :=
  inferInstanceAs (Decidable (w ∈ (m.get k).getD []))

theorem Waits.of_get {V : Type} {m : JsMap String (List V)} {k : String} {w : V} {ws : List V}
    (h : m.get k = some ws) (hw : w ∈ ws) : Waits m k w := by
  rw [Waits, h]
  exact hw

theorem Waits.of_mem_entries {V : Type} {m : JsMap String (List V)} {e : String × List V} {w : V}
    (h : e ∈ m.entries) (hw : w ∈ e.2) : Waits m e.1 w :=
  .of_get (JsMap.mem_entries.mp h) hw

/-- A waiter joins those of its key. -/
theorem Waits.of_set {V : Type} {m : JsMap String (List V)} {k k' : String} {w w' : V}
    (h : Waits (m.set k ((m.get k).getD [] ++ [w])) k' w') : Waits m k' w' ∨ (k' = k ∧ w' = w) := by
  rw [Waits, JsMap.get_set] at h
  split at h
  next heq =>
    subst heq
    rcases List.mem_append.mp h with h | h
    · exact .inl h
    · exact .inr ⟨rfl, List.mem_singleton.mp h⟩
  next => exact .inl h

theorem Waits.of_delete {V : Type} {m : JsMap String (List V)} {k k' : String} {w : V}
    (h : Waits (m.delete k) k' w) : Waits m k' w := by
  rw [Waits, JsMap.get_delete] at h
  split at h
  · simp at h
  · exact h

theorem Waits.mem_entries {V : Type} {m : JsMap String (List V)} {k : String} {w : V}
    (h : Waits m k w) : ∃ ws, (k, ws) ∈ m.entries ∧ w ∈ ws := by
  cases hm : m.get k with
  | none => simp [Waits, hm] at h
  | some ws =>
    refine ⟨ws, JsMap.mem_entries.mpr hm, ?_⟩
    simpa [Waits, hm] using h

theorem Waits.of_values {V : Type} {m : JsMap String (List V)} {w : V}
    (h : w ∈ m.values.flatten) : ∃ k, Waits m k w := by
  obtain ⟨ws, hws, hw⟩ := List.mem_flatten.mp h
  obtain ⟨k, hk⟩ := JsMap.mem_values.mp hws
  exact ⟨k, .of_get hk hw⟩

namespace BridgeClient

inductive Awaits (s : BridgeClient) : ℕ → Call → Prop
  | ready {r : ℕ} (h : r ∈ s.readyWaiters) : Awaits s r .ready
  | join {r : ℕ} {ch : String} (h : Waits s.joinWaiters ch r) : Awaits s r (.join ch)
  | whois {r : ℕ} {a : String} (h : Waits s.whoisWaiters a r) : Awaits s r (.whois a)
  | presence {r : ℕ} {id : String} (h : Waits s.presenceWaiters id (.call r)) :
      Awaits s r (.presence id)
  | task {r r' : ℕ} {k : Kont} {c : Call} (h : (r, k) ∈ s.tasks) (hc : (r', c) ∈ k.calls r) :
      Awaits s r' c

/-- Waiters and tasks stand for calls of their own kind, and every call is settled with a value of
its kind. -/
structure Typed (s : BridgeClient) : Prop where
  awaits : ∀ r c, s.Awaits r c → s.calls[r]? = some c
  settled : ∀ r o, (r, o) ∈ s.settled → ∃ c, s.calls[r]? = some c ∧ c.Fits o

/-- Some calls are made, and some settled within `P`. -/
structure Grows (P : ℕ → Settlement → Prop) (s s' : BridgeClient) : Prop where
  typed : s'.Typed
  calls : s.calls <+: s'.calls
  settled : ∃ new, s'.settled = s.settled ++ new ∧
    ∀ e ∈ new, P e.1 e.2 ∧ s.isSettled e.1 = false

def Moves (P : ℕ → Settlement → Prop) (s s' : BridgeClient) : Prop := s.Typed → Grows P s s'

def Ordinarily (_ : ℕ) (o : Settlement) : Prop := o.Ordinary

variable {P Q : ℕ → Settlement → Prop} {s t u : BridgeClient}

theorem isSettled_iff {r : ℕ} : s.isSettled r = true ↔ ∃ o, (r, o) ∈ s.settled := by
  simp only [isSettled, List.any_eq_true, decide_eq_true_eq]
  constructor
  · rintro ⟨⟨r', o⟩, h, rfl⟩
    exact ⟨o, h⟩
  · rintro ⟨o, h⟩
    exact ⟨(r, o), h, rfl⟩

theorem isSettled_of_append {new : List (ℕ × Settlement)} (h : t.settled = s.settled ++ new) {r : ℕ}
    (hr : t.isSettled r = false) : s.isSettled r = false := by
  unfold isSettled at hr ⊢
  rw [h, List.any_append, Bool.or_eq_false_iff] at hr
  exact hr.1

theorem Moves.refl (P : ℕ → Settlement → Prop) (s : BridgeClient) : Moves P s s :=
  fun h => ⟨h, List.prefix_refl _, [], by simp, by simp⟩

theorem Moves.trans (h : Moves P s t) (h' : Moves P t u) : Moves P s u := by
  intro hs
  obtain ⟨ht, hcalls, new, hnew, hP⟩ := h hs
  obtain ⟨hu, hcalls', new', hnew', hP'⟩ := h' ht
  refine ⟨hu, hcalls.trans hcalls', new ++ new', ?_, ?_⟩
  · rw [hnew', hnew, List.append_assoc]
  · intro e he
    rcases List.mem_append.mp he with he | he
    · exact hP e he
    · exact ⟨(hP' e he).1, isSettled_of_append hnew (hP' e he).2⟩

theorem Moves.mono (hPQ : ∀ r o, P r o → Q r o) (h : Moves P s t) : Moves Q s t := by
  intro hs
  obtain ⟨ht, hcalls, new, hnew, hP⟩ := h hs
  exact ⟨ht, hcalls, new, hnew, fun e he => ⟨hPQ e.1 e.2 (hP e he).1, (hP e he).2⟩⟩

theorem Moves.foldl {α : Type} {f : BridgeClient → α → BridgeClient} {l : List α}
    (h : ∀ s, ∀ a ∈ l, Moves P s (f s a)) (s : BridgeClient) : Moves P s (l.foldl f s) := by
  induction l generalizing s with
  | nil => exact Moves.refl P s
  | cons a l ih =>
    have hhead := h s a List.mem_cons_self
    exact hhead.trans (ih (fun s b hb => h s b (List.mem_cons_of_mem a hb)) (f s a))

/-- Where what happens at one element relies on the calls made before. -/
theorem Moves.foldl_of_calls {α : Type} {f : BridgeClient → α → BridgeClient} {l : List α}
    (h : ∀ t, s.calls <+: t.calls → ∀ a ∈ l, Moves P t (f t a)) : Moves P s (l.foldl f s) := by
  induction l generalizing s with
  | nil => exact Moves.refl P s
  | cons a l ih =>
    intro hs
    have hhead := h s (List.prefix_refl _) a List.mem_cons_self
    have hcalls := (hhead hs).calls
    have htail : Moves P (f s a) (l.foldl f (f s a)) := by
      apply ih
      intro t ht b hb
      exact h t (hcalls.trans ht) b (List.mem_cons_of_mem a hb)
    exact (hhead.trans htail) hs

/-! ### Frames -/

/-- Who waits. -/
def waiting (s : BridgeClient) :=
  (s.readyWaiters, s.whoisWaiters, s.joinWaiters, s.presenceWaiters, s.tasks)

/-- What the bookkeeping of calls reads. -/
def ledger (s : BridgeClient) := (s.calls, s.settled, s.waiting)

theorem Awaits.of_waiting (h : t.waiting = s.waiting) {r : ℕ} {c : Call} (ht : t.Awaits r c) :
    s.Awaits r c := by
  simp only [waiting, Prod.mk.injEq] at h
  obtain ⟨hready, hwhois, hjoin, hpresence, htasks⟩ := h
  cases ht with
  | ready hr => exact .ready (hready ▸ hr)
  | join hr => exact .join (hjoin ▸ hr)
  | whois hr => exact .whois (hwhois ▸ hr)
  | presence hr => exact .presence (hpresence ▸ hr)
  | task hk hc => exact .task (htasks ▸ hk) hc

/-- Only calls that are there begin to be waited for. -/
theorem Moves.of_awaits (hcalls : t.calls = s.calls) (hsettled : t.settled = s.settled)
    (h : ∀ r c, t.Awaits r c → s.Awaits r c ∨ s.calls[r]? = some c) : Moves P s t := by
  intro hs
  refine ⟨⟨?_, ?_⟩, ?_, [], by simp [hsettled], by simp⟩
  · intro r c hr
    rw [hcalls]
    rcases h r c hr with hr | hr
    · exact hs.awaits r c hr
    · exact hr
  · intro r o hr
    rw [hcalls]
    exact hs.settled r o (hsettled ▸ hr)
  · rw [hcalls]

theorem Moves.of_ledger (h : t.ledger = s.ledger) : Moves P s t := by
  simp only [ledger, Prod.mk.injEq] at h
  obtain ⟨hcalls, hsettled, hwaiting⟩ := h
  exact Moves.of_awaits hcalls hsettled fun _ _ hr => .inl (hr.of_waiting hwaiting)

theorem ledger_post {f : ClientFrame} (h : s.post f = some t) : t.ledger = s.ledger := by
  unfold post at h
  split at h
  · cases h
    rfl
  · split at h <;> cases h <;> rfl

theorem ledger_sendFrame {f : ClientFrame} (h : s.sendFrame f = .ok t) : t.ledger = s.ledger := by
  unfold sendFrame at h
  split at h
  · cases h
  · split at h <;> cases h
    rfl

theorem sendFrame_error {f : ClientFrame} {e : ClientError} (h : s.sendFrame f = .error e) :
    e.Ordinary := by
  unfold sendFrame at h
  split at h
  · cases h
    trivial
  · split at h <;> cases h
    trivial

@[simp] theorem ledger_setReadyState (s : BridgeClient) (i : ℕ) (st : ReadyState) :
    (s.setReadyState i st).ledger = s.ledger := rfl

@[simp] theorem ledger_closeSocket (s : BridgeClient) (i : ℕ) :
    (s.closeSocket i).ledger = s.ledger := by
  unfold closeSocket
  split <;> rfl

@[simp] theorem ledger_elim_closeSocket (s : BridgeClient) (o : Option ℕ) :
    (o.elim s s.closeSocket).ledger = s.ledger := by
  cases o with
  | none => rfl
  | some i => exact ledger_closeSocket s i

@[simp] theorem ledger_connect (s : BridgeClient) : s.connect.ledger = s.ledger := by
  unfold connect
  split <;> rfl

@[simp] theorem ledger_ringError (s : BridgeClient) (e : HubErrorEvent) :
    (s.ringError e).ledger = s.ledger := rfl

@[simp] theorem ledger_deliver (s : BridgeClient) (ev : MsgEvent) :
    (s.deliver ev).ledger = s.ledger := rfl

@[simp] theorem ledger_throws (s : BridgeClient) : s.throws.ledger = s.ledger := rfl

@[simp] theorem ledger_setPendingInvites (s : BridgeClient) (pending : List PendingInvite) :
    (s.setPendingInvites pending).ledger = s.ledger := rfl

@[simp] theorem ledger_undecryptable (s : BridgeClient) (m : MsgFrame) (reason : String) :
    (s.undecryptable m reason).ledger = s.ledger := rfl

theorem ledger_invited (s : BridgeClient) (i : ℕ) : (s.invited i).ledger = s.ledger := by
  unfold invited
  split <;> rfl

theorem ledger_sendHello (s : BridgeClient) : s.sendHello.ledger = s.ledger := by
  unfold sendHello
  dsimp only
  cases h : post _ _ with
  | none => rfl
  | some t =>
    have ht := ledger_post h
    exact ht

theorem ledger_onOpen (s : BridgeClient) : s.onOpen.ledger = s.ledger := by
  unfold onOpen
  split
  · rfl
  · dsimp only
    split
    · rfl
    · exact ledger_sendHello _

theorem ledger_onSocketError (s : BridgeClient) (err : String) :
    (s.onSocketError err).ledger = s.ledger := by
  unfold onSocketError
  split <;> rfl

theorem ledger_onEnrolled (s : BridgeClient) (secret : String) :
    (s.onEnrolled secret).ledger = s.ledger := by
  unfold onEnrolled
  split <;> rfl

theorem ledger_onUnexpectedResponse (s : BridgeClient) (code : ℕ) :
    (s.onUnexpectedResponse code).ledger = s.ledger := by
  unfold onUnexpectedResponse
  dsimp only
  rw [ledger_elim_closeSocket]
  split
  · split <;> rfl
  · rfl

theorem ledger_stop (s : BridgeClient) : s.stop.ledger = s.ledger := by
  unfold stop
  exact (ledger_elim_closeSocket _ _).trans rfl

/-! ### Settling and making calls -/

@[simp] theorem calls_settle (s : BridgeClient) (o : Settlement) (r : ℕ) :
    (s.settle o r).calls = s.calls := by
  unfold settle
  split <;> rfl

@[simp] theorem waiting_settle (s : BridgeClient) (o : Settlement) (r : ℕ) :
    (s.settle o r).waiting = s.waiting := by
  unfold settle
  split <;> rfl

theorem settle_moves {o : Settlement} {r : ℕ} {c : Call} (hc : s.calls[r]? = some c)
    (ho : c.Fits o) (hP : P r o) : Moves P s (s.settle o r) := by
  intro hs
  refine ⟨⟨?_, ?_⟩, by simp, ?_⟩
  · intro r' c' hr
    rw [calls_settle]
    exact hs.awaits r' c' (hr.of_waiting (waiting_settle s o r))
  · intro r' o' hr
    rw [calls_settle]
    unfold settle at hr
    split at hr
    · exact hs.settled r' o' hr
    · rcases List.mem_append.mp hr with hr | hr
      · exact hs.settled r' o' hr
      · cases List.mem_singleton.mp hr
        exact ⟨c, hc, ho⟩
  · unfold settle
    split
    next => exact ⟨[], by simp, by simp⟩
    next hfresh => exact ⟨[(r, o)], rfl, by simpa using ⟨hP, by simpa using hfresh⟩⟩

theorem settleAll_moves {o : Settlement} {rs : List ℕ}
    (h : ∀ r ∈ rs, (∃ c, s.calls[r]? = some c ∧ c.Fits o) ∧ P r o) :
    Moves P s (s.settleAll o rs) := by
  induction rs generalizing s with
  | nil => exact Moves.refl P s
  | cons r rs ih =>
    obtain ⟨⟨c, hc, ho⟩, hP⟩ := h r List.mem_cons_self
    refine (settle_moves hc ho hP).trans (ih ?_)
    intro r' hr'
    rw [calls_settle]
    exact h r' (List.mem_cons_of_mem r hr')

theorem calls_get_later (h : s.calls <+: t.calls) {r : ℕ} {c : Call}
    (hr : s.calls[r]? = some c) : t.calls[r]? = some c := by
  obtain ⟨i, hi⟩ := List.getElem?_eq_some_iff.mp hr
  rw [← hi]
  exact List.prefix_iff_getElem?.mp h r i

theorem newCall_moves (c : Call) : Moves P s (s.newCall c) := by
  intro hs
  have hget : ∀ {r : ℕ} {c' : Call}, s.calls[r]? = some c' → (s.newCall c).calls[r]? = some c' := by
    intro r c' hr
    exact calls_get_later (List.prefix_append s.calls [c]) hr
  refine ⟨⟨?_, ?_⟩, List.prefix_append _ _, [], by simp [newCall], by simp⟩
  · intro r c' hr
    have hwaiting : (s.newCall c).waiting = s.waiting := rfl
    exact hget (hs.awaits r c' (hr.of_waiting hwaiting))
  · intro r o hr
    obtain ⟨c', hc', ho⟩ := hs.settled r o hr
    exact ⟨c', hget hc', ho⟩

theorem calls_newCall_length (s : BridgeClient) (c : Call) :
    (s.newCall c).calls[s.calls.length]? = some c := by
  simp [newCall]

theorem await_moves {r : ℕ} {k : Kont} (h : ∀ e ∈ k.calls r, s.calls[e.1]? = some e.2) :
    Moves P s (s.await r k) := by
  refine Moves.of_awaits rfl rfl ?_
  intro r' c hr
  cases hr with
  | ready hr => exact .inl (.ready hr)
  | join hr => exact .inl (.join hr)
  | whois hr => exact .inl (.whois hr)
  | presence hr => exact .inl (.presence hr)
  | task hk hc =>
    rcases List.mem_append.mp hk with hk | hk
    · exact .inl (.task hk hc)
    · cases List.mem_singleton.mp hk
      exact .inr (h _ hc)

/-! ### The calls -/

theorem ready_moves (s : BridgeClient) : Moves Ordinarily s s.ready := by
  have hr := calls_newCall_length s .ready
  unfold ready
  dsimp only
  split
  · exact (newCall_moves .ready).trans (settle_moves hr trivial trivial)
  · refine (newCall_moves .ready).trans (Moves.of_awaits rfl rfl ?_)
    intro r c hw
    cases hw with
    | ready hr' =>
      rcases List.mem_append.mp hr' with hr' | hr'
      · exact .inl (.ready hr')
      · cases List.mem_singleton.mp hr'
        exact .inr hr
    | join hr => exact .inl (.join hr)
    | whois hr => exact .inl (.whois hr)
    | presence hr => exact .inl (.presence hr)
    | task hk hc => exact .inl (.task hk hc)

theorem calls_ready (s : BridgeClient) : s.ready.calls = s.calls ++ [.ready] := by
  unfold ready
  dsimp only
  split
  · exact calls_settle _ _ _
  · rfl

theorem join_moves (s : BridgeClient) (name chanPubkey : String) :
    Moves Ordinarily s (s.join name chanPubkey) := by
  refine (newCall_moves (.join name)).trans ((ready_moves _).trans (await_moves ?_))
  intro e he
  rw [calls_ready]
  simp only [Kont.calls, List.mem_cons, List.not_mem_nil, or_false] at he
  rcases he with rfl | rfl
  · simp [newCall]
  · simp [newCall]

theorem joinReady_moves {r : ℕ} {name chanPubkey : String}
    (hr : s.calls[r]? = some (.join name)) :
    Moves Ordinarily s (s.joinReady r name chanPubkey) := by
  unfold joinReady
  split
  · exact settle_moves hr trivial trivial
  · have hpark : Moves Ordinarily s { s with
        joinWaiters := s.joinWaiters.set name ((s.joinWaiters.get name).getD [] ++ [r]) } := by
      refine Moves.of_awaits rfl rfl ?_
      intro r' c hw
      cases hw with
      | ready hr' => exact .inl (.ready hr')
      | join hr' =>
        rcases Waits.of_set hr' with hr' | ⟨rfl, rfl⟩
        · exact .inl (.join hr')
        · exact .inr hr
      | whois hr' => exact .inl (.whois hr')
      | presence hr' => exact .inl (.presence hr')
      | task hk hc => exact .inl (.task hk hc)
    dsimp only
    split
    next hsend => exact hpark.trans (Moves.of_ledger (ledger_sendFrame hsend))
    next hsend =>
      refine hpark.trans (settle_moves hr ?_ ?_)
      · exact Call.fits_rejected _ (sendFrame_error hsend)
      · exact sendFrame_error hsend

theorem agentInfo_moves (s : BridgeClient) (agentId : String) :
    Moves Ordinarily s (s.agentInfo agentId) := by
  have hr := calls_newCall_length s (.whois agentId)
  unfold agentInfo
  dsimp only
  split
  · exact (newCall_moves _).trans (settle_moves hr trivial trivial)
  · refine (newCall_moves (.whois agentId)).trans ?_
    generalize s.newCall (.whois agentId) = s₁ at hr ⊢
    generalize s.calls.length = r at hr ⊢
    have hpark : Moves Ordinarily s₁ { s₁ with
        whoisWaiters := s₁.whoisWaiters.set agentId
          ((s₁.whoisWaiters.get agentId).getD [] ++ [r])
        whoisCalls := s₁.whoisCalls + 1 } := by
      refine Moves.of_awaits rfl rfl ?_
      intro r' c hw
      cases hw with
      | ready hr' => exact .inl (.ready hr')
      | join hr' => exact .inl (.join hr')
      | whois hr' =>
        rcases Waits.of_set hr' with hr' | ⟨rfl, rfl⟩
        · exact .inl (.whois hr')
        · exact .inr hr
      | presence hr' => exact .inl (.presence hr')
      | task hk hc => exact .inl (.task hk hc)
    refine hpark.trans ?_
    cases hpost : post _ _ with
    | none => exact settle_moves hr (Call.fits_rejected _ trivial) trivial
    | some t => exact Moves.of_ledger (ledger_post hpost)

theorem calls_agentInfo (s : BridgeClient) (agentId : String) :
    (s.agentInfo agentId).calls[s.calls.length]? = some (.whois agentId) := by
  have hr := calls_newCall_length s (.whois agentId)
  unfold agentInfo
  dsimp only
  split
  · rw [calls_settle]
    exact hr
  · cases hpost : post _ _ with
    | none =>
      rw [Option.getD_none, calls_settle]
      exact hr
    | some t =>
      have ht := congrArg Prod.fst (ledger_post hpost)
      change t.calls = _ at ht
      rw [Option.getD_some, ht]
      exact hr

/-! ### Presence -/

theorem parkPresenceWaiter_moves {id : String} {w : PresenceWaiter}
    (hw : ∀ r, w = .call r → s.calls[r]? = some (.presence id)) :
    Moves P s (s.parkPresenceWaiter id w) := by
  refine Moves.of_awaits rfl rfl ?_
  intro r c ha
  cases ha with
  | ready hr => exact .inl (.ready hr)
  | join hr => exact .inl (.join hr)
  | whois hr => exact .inl (.whois hr)
  | presence hr =>
    rcases Waits.of_set hr with hr | ⟨rfl, heq⟩
    · exact .inl (.presence hr)
    · exact .inr (hw r heq.symm)
  | task hk hc => exact .inl (.task hk hc)

/-- Whoever is left waits as before. -/
theorem waits_of_unpark {id id' : String} {w w' : PresenceWaiter}
    (h : Waits (s.unparkPresenceWaiter id w).presenceWaiters id' w') :
    Waits s.presenceWaiters id' w' := by
  unfold unparkPresenceWaiter at h
  split at h
  next => exact h
  next ws hws =>
    split at h
    · exact h
    · split at h
      · exact Waits.of_delete h
      · change Waits (s.presenceWaiters.set id (ws.erase w)) id' w' at h
        rw [Waits, JsMap.get_set] at h
        split at h
        next heq =>
          subst heq
          exact .of_get hws (List.mem_of_mem_erase h)
        next => exact h

theorem unparkPresenceWaiter_fields (s : BridgeClient) (id : String) (w : PresenceWaiter) :
    ∃ m, s.unparkPresenceWaiter id w = { s with presenceWaiters := m } := by
  unfold unparkPresenceWaiter
  split
  · exact ⟨_, rfl⟩
  · split
    · exact ⟨_, rfl⟩
    · split
      · exact ⟨_, rfl⟩
      · exact ⟨_, rfl⟩

theorem unparkPresenceWaiter_moves (s : BridgeClient) (id : String) (w : PresenceWaiter) :
    Moves P s (s.unparkPresenceWaiter id w) := by
  have hleft : ∀ {id' : String} {w' : PresenceWaiter},
      Waits (s.unparkPresenceWaiter id w).presenceWaiters id' w' →
        Waits s.presenceWaiters id' w' := waits_of_unpark
  obtain ⟨m, hm⟩ := s.unparkPresenceWaiter_fields id w
  rw [hm] at hleft ⊢
  refine Moves.of_awaits rfl rfl ?_
  intro r c ha
  cases ha with
  | ready hr => exact .inl (.ready hr)
  | join hr => exact .inl (.join hr)
  | whois hr => exact .inl (.whois hr)
  | presence hr => exact .inl (.presence (hleft hr))
  | task hk hc => exact .inl (.task hk hc)

theorem warmUpPresence_moves (s : BridgeClient) (attempt : ℕ) :
    Moves P s (s.warmUpPresence attempt) := by
  unfold warmUpPresence
  split
  · exact Moves.refl P s
  · dsimp only
    have hdraw : Moves P s { s with drawn := s.drawn + 1 } := Moves.of_ledger rfl
    have hpark : ∀ r, PresenceWaiter.warmUp attempt = .call r →
        ({ s with drawn := s.drawn + 1 } : BridgeClient).calls[r]? =
          some (.presence (s.uuid s.drawn)) := by
      intro r heq
      cases heq
    have hparked := hdraw.trans (parkPresenceWaiter_moves hpark)
    split
    next hsend => exact hparked.trans (Moves.of_ledger (ledger_sendFrame hsend))
    next => exact hparked.trans (unparkPresenceWaiter_moves _ _ _)

theorem failPresence_moves {e : ClientError} (he : e.Ordinary) {id : String} {w : PresenceWaiter}
    (hw : ∀ r, w = .call r → s.calls[r]? = some (.presence id)) :
    Moves Ordinarily s (s.failPresence e (id, w)) := by
  have hunpark := s.unparkPresenceWaiter_moves (P := Ordinarily) id w
  unfold failPresence
  dsimp only
  cases w with
  | warmUp attempt => exact hunpark
  | call r =>
    refine hunpark.trans (settle_moves (c := .presence id) ?_ he he)
    obtain ⟨m, hm⟩ := s.unparkPresenceWaiter_fields id (.call r)
    rw [hm]
    exact hw r rfl

theorem presence_moves (s : BridgeClient) : Moves Ordinarily s s.presence := by
  unfold presence
  dsimp only
  have hdraw : Moves Ordinarily s { s with drawn := s.drawn + 1 } := Moves.of_ledger rfl
  refine hdraw.trans ?_
  have hr := calls_newCall_length { s with drawn := s.drawn + 1 } (.presence (s.uuid s.drawn))
  refine (newCall_moves (.presence (s.uuid s.drawn))).trans ?_
  change (newCall _ _).calls[s.calls.length]? = _ at hr
  generalize newCall _ _ = s₁ at hr ⊢
  generalize s.calls.length = r at hr ⊢
  split
  · exact settle_moves hr trivial trivial
  · have hcall : ∀ r', PresenceWaiter.call r = .call r' →
        s₁.calls[r']? = some (.presence (s.uuid s.drawn)) := by
      intro r' heq
      cases heq
      exact hr
    have hpark : Moves Ordinarily s₁ _ := parkPresenceWaiter_moves hcall
    split
    next hsend => exact hpark.trans (Moves.of_ledger (ledger_sendFrame hsend))
    next hsend => exact hpark.trans (failPresence_moves (sendFrame_error hsend) hcall)

theorem pollPendingInvites_moves (s : BridgeClient) : Moves Ordinarily s s.pollPendingInvites := by
  unfold pollPendingInvites
  split
  · exact Moves.refl _ s
  · have hmark : Moves Ordinarily s { s with deliveringInvites := true } := Moves.of_ledger rfl
    refine hmark.trans ((presence_moves _).trans (await_moves ?_))
    intro e he
    simp [Kont.calls] at he

end BridgeClient

end Dap
