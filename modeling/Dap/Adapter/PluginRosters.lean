import Dap.Adapter.PluginClient
import Dap.Adapter.Rosters

/-! Which presence frame completes a `presence()` call of the plugin's client, and of both
clients. -/
namespace Dap
namespace PluginClient

variable {P Q : ℕ → PluginSettlement → Prop} {s t u : PluginClient}

/-- A waiting call waits under its own id. -/
def Typed (s : PluginClient) : Prop :=
  ∀ id r, s.presenceWaiters.get id = some (.call r) → s.calls[r]? = some id

/-- Some calls are made, and some settled within `P`. -/
structure Grows (P : ℕ → PluginSettlement → Prop) (s s' : PluginClient) : Prop where
  typed : s'.Typed
  calls : s.calls <+: s'.calls
  settled : ∃ new, s'.settled = s.settled ++ new ∧
    ∀ e ∈ new, P e.1 e.2 ∧ s.isSettled e.1 = false

def Moves (P : ℕ → PluginSettlement → Prop) (s s' : PluginClient) : Prop := s.Typed → Grows P s s'

theorem isSettled_iff {r : ℕ} : s.isSettled r = true ↔ ∃ o, (r, o) ∈ s.settled := by
  simp only [isSettled, List.any_eq_true, decide_eq_true_eq]
  constructor
  · rintro ⟨⟨r', o⟩, h, rfl⟩
    exact ⟨o, h⟩
  · rintro ⟨o, h⟩
    exact ⟨(r, o), h, rfl⟩

theorem isSettled_of_append {new : List (ℕ × PluginSettlement)} (h : t.settled = s.settled ++ new)
    {r : ℕ} (hr : t.isSettled r = false) : s.isSettled r = false := by
  unfold isSettled at hr ⊢
  rw [h, List.any_append, Bool.or_eq_false_iff] at hr
  exact hr.1

theorem Moves.refl (P : ℕ → PluginSettlement → Prop) (s : PluginClient) : Moves P s s :=
  fun h => ⟨h, List.prefix_refl _, [], by simp, by simp⟩

theorem Moves.trans (h : Moves P s t) (h' : Moves P t u) : Moves P s u := by
  intro hs
  obtain ⟨ht, hcalls, new, hnew, hP⟩ := h hs
  obtain ⟨hu, hcalls', new', hnew', hP'⟩ := h' ht
  refine ⟨hu, hcalls.trans hcalls', new ++ new', ?_, ?_⟩
  · rw [hnew', hnew, List.append_assoc]
  · intro e he
    rcases List.mem_append.mp he with he | he
    · exact hP e he
    · exact ⟨(hP' e he).1, isSettled_of_append hnew (hP' e he).2⟩

theorem Moves.mono (hPQ : ∀ r o, P r o → Q r o) (h : Moves P s t) : Moves Q s t := by
  intro hs
  obtain ⟨ht, hcalls, new, hnew, hP⟩ := h hs
  exact ⟨ht, hcalls, new, hnew, fun e he => ⟨hPQ e.1 e.2 (hP e he).1, (hP e he).2⟩⟩

theorem Moves.foldl {α : Type} {f : PluginClient → α → PluginClient} {l : List α}
    (h : ∀ s, ∀ a ∈ l, Moves P s (f s a)) (s : PluginClient) : Moves P s (l.foldl f s) := by
  induction l generalizing s with
  | nil => exact Moves.refl P s
  | cons a l ih =>
    have hhead := h s a List.mem_cons_self
    exact hhead.trans (ih (fun s b hb => h s b (List.mem_cons_of_mem a hb)) (f s a))

theorem Moves.of_waiters (hcalls : t.calls = s.calls) (hsettled : t.settled = s.settled)
    (h : ∀ id r, t.presenceWaiters.get id = some (.call r) →
      s.presenceWaiters.get id = some (.call r) ∨ s.calls[r]? = some id) : Moves P s t := by
  intro hs
  refine ⟨?_, ?_, [], by simp [hsettled], by simp⟩
  · intro id r hr
    rw [hcalls]
    exact (h id r hr).elim (hs id r) fun hcall => hcall
  · rw [hcalls]

/-- What the bookkeeping of calls reads. -/
def ledger (s : PluginClient) := (s.calls, s.settled, s.presenceWaiters)

theorem Moves.of_ledger (h : t.ledger = s.ledger) : Moves P s t := by
  simp only [ledger, Prod.mk.injEq] at h
  obtain ⟨hcalls, hsettled, hwaiters⟩ := h
  refine Moves.of_waiters hcalls hsettled ?_
  intro id r hr
  rw [hwaiters] at hr
  exact .inl hr

theorem ledger_post (s : PluginClient) (f : ClientFrame) : (s.post f).ledger = s.ledger := by
  unfold post
  split
  · split <;> rfl
  · rfl

theorem ledger_connect (s : PluginClient) : s.connect.ledger = s.ledger := by
  unfold connect
  split <;> rfl

theorem ledger_elim_closeSocket (s : PluginClient) (o : Option ℕ) :
    (o.elim s s.closeSocket).ledger = s.ledger := by
  cases o with
  | none => rfl
  | some i =>
    change (s.closeSocket i).ledger = s.ledger
    unfold closeSocket
    split <;> rfl

/-! ### Queries -/

theorem settle_moves {o : PluginSettlement} {r : ℕ} (hP : P r o) : Moves P s (s.settle o r) := by
  intro hs
  unfold settle
  split
  next => exact Moves.refl P s hs
  next hfresh =>
    exact ⟨hs, List.prefix_refl _, [(r, o)], rfl, by simpa using ⟨hP, by simpa using hfresh⟩⟩

theorem isSettled_settle (s : PluginClient) (o : PluginSettlement) (r : ℕ) :
    (s.settle o r).isSettled r = true := by
  unfold settle
  split
  next h => exact h
  next => exact isSettled_iff.mpr ⟨o, by simp⟩

theorem queryPresence_moves {id : String} {w : PresenceWaiter}
    (hw : ∀ r, w = .call r → s.calls[r]? = some id) : Moves P s (s.queryPresence id w) := by
  have hset : Moves P s { s with presenceWaiters := s.presenceWaiters.set id w } := by
    refine Moves.of_waiters rfl rfl ?_
    intro id' r hr
    rw [JsMap.get_set] at hr
    split at hr
    next heq =>
      subst heq
      exact .inr (hw r (Option.some.inj hr))
    next => exact .inl hr
  exact hset.trans (Moves.of_ledger (ledger_post _ _))

theorem presence_moves (hP : ∀ r, P r (.error notConnected)) : Moves P s s.presence := by
  have hcall : Moves P s
      { s with drawn := s.drawn + 1, calls := s.calls ++ [s.uuid s.drawn] } := by
    intro hs
    refine ⟨?_, List.prefix_append _ _, [], by simp, by simp⟩
    intro id r hr
    have hold := hs id r hr
    have hlt := (List.getElem?_eq_some_iff.mp hold).1
    rw [List.getElem?_append_left hlt]
    exact hold
  unfold presence
  dsimp only
  split
  · exact hcall.trans (settle_moves (hP _))
  · refine hcall.trans (queryPresence_moves ?_)
    intro r heq
    cases heq
    simp

theorem warmUpEcho_moves (s : PluginClient) (attempt : ℕ) : Moves P s (s.warmUpEcho attempt) := by
  unfold warmUpEcho
  split
  · have hdraw : Moves P s { s with drawn := s.drawn + 1 } := Moves.of_ledger rfl
    refine hdraw.trans (queryPresence_moves ?_)
    intro r heq
    cases heq
  · exact Moves.refl P s

theorem resolve_moves {agents : List PresenceEntry} {w : PresenceWaiter}
    (hP : ∀ r, w = .call r → P r (.ok (s.roster agents))) : Moves P s (s.resolve agents w) := by
  cases w with
  | call r => exact settle_moves (hP r rfl)
  | warmUp attempt => exact Moves.of_ledger rfl

theorem waiters_delete_moves (s : PluginClient) (id : String) :
    Moves P s { s with presenceWaiters := s.presenceWaiters.delete id } := by
  refine Moves.of_waiters rfl rfl ?_
  intro id' r hr
  rw [JsMap.get_delete] at hr
  split at hr
  · cases hr
  · exact .inl hr

theorem agentId_resolve (s : PluginClient) (agents : List PresenceEntry) (w : PresenceWaiter) :
    (s.resolve agents w).agentId = s.agentId := by
  cases w with
  | call r =>
    unfold resolve settle
    dsimp only
    split <;> rfl
  | warmUp attempt => rfl

/-- All waiters are resolved in turn, each with the one roster. -/
theorem foldl_resolve_moves {agents : List PresenceEntry} {ws : List PresenceWaiter}
    (hP : ∀ r, .call r ∈ ws → P r (.ok (s.roster agents))) :
    Moves P s (ws.foldl (fun s w => s.resolve agents w) s) := by
  induction ws generalizing s with
  | nil => exact Moves.refl P s
  | cons w ws ih =>
    have hhead : Moves P s (s.resolve agents w) := by
      apply resolve_moves
      intro r heq
      exact hP r (heq ▸ List.mem_cons_self)
    refine hhead.trans (ih ?_)
    intro r hr
    have hroster : (s.resolve agents w).roster agents = s.roster agents := by
      unfold roster
      rw [agentId_resolve]
    rw [hroster]
    exact hP r (List.mem_cons_of_mem w hr)

theorem resolvePresence_moves {replyTo : Option String} {agents : List PresenceEntry}
    (hanswer : ∀ id r, replyTo = some id → s.presenceWaiters.get id = some (.call r) →
      P r (.ok (s.roster agents)))
    (hbroadcast : ∀ id r, optStr replyTo = none → s.echoSeen = false →
      s.presenceWaiters.get id = some (.call r) → P r (.ok (s.roster agents))) :
    Moves P s (s.resolvePresence replyTo agents) := by
  unfold resolvePresence
  split
  next rid hrid =>
    have hreply : replyTo = some rid := (Option.filter_eq_some_iff.mp hrid).1
    have hlatch : Moves P s { s with echoSeen := true } := Moves.of_ledger rfl
    dsimp only
    split
    next => exact hlatch
    next w hw =>
      refine hlatch.trans ((waiters_delete_moves _ rid).trans (resolve_moves ?_))
      intro r heq
      subst heq
      exact hanswer rid r hreply hw
  next hnone =>
    split
    · exact Moves.refl P s
    next hecho =>
      have hresolve : Moves P s
          (s.presenceWaiters.values.foldl (fun s w => s.resolve agents w) s) := by
        apply foldl_resolve_moves
        intro r hr
        obtain ⟨id, hid⟩ := JsMap.mem_values.mp hr
        exact hbroadcast id r hnone (by simpa using hecho) hid
      refine hresolve.trans (Moves.of_waiters rfl rfl ?_)
      intro id r hr
      simp at hr

theorem timeout_moves (hP : ∀ r, P r (.error noReply)) (id : String) (w : PresenceWaiter) :
    Moves P s (s.timeout id w) := by
  have hdrop : Moves P s (if s.presenceWaiters.get id = some w then
      { s with presenceWaiters := s.presenceWaiters.delete id } else s) := by
    split
    · exact waiters_delete_moves s id
    · exact Moves.refl P s
  unfold timeout
  cases w with
  | call r => exact hdrop.trans (settle_moves (hP r))
  | warmUp attempt => exact hdrop.trans (Moves.of_ledger rfl)

/-! ### Steps -/

/-- What an event may settle a call with. -/
inductive Permits (s : PluginClient) : PluginEvent → ℕ → PluginSettlement → Prop
  | fails {e : PluginEvent} {r : ℕ} {err : String} : Permits s e r (.error err)
  | answer {i : ℕ} {id : String} {agents : List PresenceEntry} {r : ℕ}
      (h : s.presenceWaiters.get id = some (.call r)) :
      Permits s (.socket i (.message (.presence (some id) agents))) r (.ok (s.roster agents))
  | broadcast {i : ℕ} {id : String} {replyTo : Option String} {agents : List PresenceEntry} {r : ℕ}
      (hi : s.ws = some i) (hnone : optStr replyTo = none) (hecho : s.echoSeen = false)
      (h : s.presenceWaiters.get id = some (.call r)) :
      Permits s (.socket i (.message (.presence replyTo agents))) r (.ok (s.roster agents))

theorem onWelcome_moves (s : PluginClient) : Moves P s s.onWelcome := by
  have hmark : Moves P s { s with welcomed := true, welcomes := s.welcomes + 1 } :=
    Moves.of_ledger rfl
  exact hmark.trans ((Moves.of_ledger (ledger_post _ _)).trans (warmUpEcho_moves _ 0))

theorem handleSocket_moves {i : ℕ} (hi : s.ws = some i) (e : SocketEvent) :
    Moves (s.Permits (.socket i e)) s (s.handleSocket e) := by
  cases e with
  | opened => exact Moves.of_ledger (ledger_post _ _)
  | message f =>
    cases f with
    | welcome => exact onWelcome_moves s
    | presence replyTo agents =>
      apply resolvePresence_moves
      · intro id r hid h
        subst hid
        exact .answer h
      · intro id r hnone hecho h
        exact .broadcast hi hnone hecho h
    | joined _ => exact Moves.refl _ s
    | agentInfo _ => exact Moves.refl _ s
    | msg _ => exact Moves.refl _ s
    | error _ _ _ => exact Moves.refl _ s
    | enrolled _ => exact Moves.refl _ s
    | other => exact Moves.refl _ s
    | notJson => exact Moves.refl _ s
  | closed => exact Moves.of_ledger rfl
  | error _ => exact Moves.refl _ s
  | unexpectedResponse code =>
    simp only [handleSocket]
    split
    · exact Moves.of_ledger (ledger_elim_closeSocket s s.ws)
    · exact Moves.refl _ s

theorem step_moves (s : PluginClient) (e : PluginEvent) : Moves (s.Permits e) s (s.step e) := by
  cases e with
  | start => exact Moves.of_ledger (ledger_connect _)
  | stop =>
    exact Moves.of_ledger (ledger_elim_closeSocket { s with stopped := true } s.ws)
  | retarget agentId name =>
    have hretire : Moves (s.Permits (.retarget agentId name)) s s.retire :=
      Moves.of_ledger (ledger_elim_closeSocket s s.ws)
    exact hretire.trans (Moves.of_ledger (ledger_connect _))
  | retry => exact Moves.of_ledger (ledger_connect s)
  | socket i e =>
    have hmoves : Moves (s.Permits (.socket i e)) s (s.socketMoves i e) := by
      cases e <;> exact Moves.of_ledger rfl
    unfold step
    dsimp only
    split
    next hi =>
      cases e with
      | opened => exact hmoves.trans (Moves.of_ledger (ledger_post _ _))
      | message f => exact handleSocket_moves hi (.message f)
      | closed => exact hmoves.trans (Moves.of_ledger rfl)
      | error err => exact Moves.refl _ s
      | unexpectedResponse code => exact handleSocket_moves hi (.unexpectedResponse code)
    next => exact hmoves
  | presence => exact presence_moves fun _ => .fails
  | timeout id w => exact timeout_moves (fun _ => .fails) id w
  | warmUp n =>
    simp only [step]
    split
    next => exact Moves.refl _ s
    next attempt _ =>
      have hdrop : Moves (s.Permits (.warmUp n)) s { s with warmUps := s.warmUps.eraseIdx n } :=
        Moves.of_ledger rfl
      exact hdrop.trans (warmUpEcho_moves _ attempt)

theorem typed_create (agentId : String) (name : Option String) (uuid : ℕ → String) :
    ({ agentId, name, uuid } : PluginClient).Typed := by
  intro id r hr
  simp at hr

theorem typed_run (hs : s.Typed) (es : List PluginEvent) : (s.run es).Typed := by
  induction es generalizing s with
  | nil => exact hs
  | cons e es ih => exact ih (step_moves s e hs).typed

/-! ### Answers -/

/-- The event settles the call. -/
def Settles (s : PluginClient) (e : PluginEvent) (r : ℕ) (o : PluginSettlement) : Prop :=
  s.isSettled r = false ∧ (r, o) ∈ (s.step e).settled

theorem Settles.permits {e : PluginEvent} {r : ℕ} {o : PluginSettlement} (hs : s.Typed)
    (h : s.Settles e r o) : s.Permits e r o := by
  obtain ⟨hfresh, hmem⟩ := h
  obtain ⟨new, hnew, hP⟩ := (step_moves s e hs).settled
  rw [hnew] at hmem
  rcases List.mem_append.mp hmem with hmem | hmem
  · have hold := isSettled_iff.mpr ⟨o, hmem⟩
    rw [hfresh] at hold
    cases hold
  · exact (hP (r, o) hmem).1

/-- Every call that resolves does so with the roster of the frame that carries its id. -/
def Answered (s : PluginClient) (e : PluginEvent) : Prop :=
  ∀ r id agents, (s.step e).calls[r]? = some id → s.Settles e r (.ok agents) →
    ∃ i entries, e = .socket i (.message (.presence (some id) entries)) ∧
      agents = s.roster entries

/-- A frame without an id arrives while a call waits and no answer has come yet. -/
def Steals (s : PluginClient) : PluginEvent → Prop
  | .socket i (.message (.presence replyTo _)) => s.ws = some i ∧ optStr replyTo = none ∧
    s.echoSeen = false ∧ ∃ id r, s.presenceWaiters.get id = some (.call r) ∧
      s.isSettled r = false ∧ replyTo ≠ some id
  | _ => False

theorem Answered.of_not_steals {e : PluginEvent} (hs : s.Typed) (h : ¬ s.Steals e) :
    s.Answered e := by
  have hgrows := step_moves s e hs
  intro r id agents hcall hsettles
  have hid : ∀ {id'}, s.presenceWaiters.get id' = some (.call r) → id' = id := by
    intro id' hwaits
    have hcall' : (s.step e).calls[r]? = some id' := by
      obtain ⟨hlt, hget⟩ := List.getElem?_eq_some_iff.mp (hs id' r hwaits)
      rw [← hget]
      exact List.prefix_iff_getElem?.mp hgrows.calls r hlt
    rw [hcall] at hcall'
    exact (Option.some.inj hcall').symm
  cases hsettles.permits hs with
  | answer hwaits => exact ⟨_, _, by rw [hid hwaits], rfl⟩
  | @broadcast i id' replyTo entries _ hi hnone hecho hwaits =>
    by_cases heq : replyTo = some id'
    · exact ⟨i, entries, by rw [heq, hid hwaits], rfl⟩
    · exact absurd ⟨hi, hnone, hecho, id', r, hwaits, hsettles.1, heq⟩ h

theorem isSettled_settle_of {r r' : ℕ} (h : s.isSettled r = true) (o : PluginSettlement) :
    (s.settle o r').isSettled r = true := by
  unfold settle
  split
  · exact h
  · obtain ⟨o', ho'⟩ := isSettled_iff.mp h
    exact isSettled_iff.mpr ⟨o', List.mem_append_left _ ho'⟩

theorem isSettled_resolve_of {agents : List PresenceEntry} {w : PresenceWaiter} {r : ℕ}
    (h : s.isSettled r = true) : (s.resolve agents w).isSettled r = true := by
  cases w with
  | call r' => exact isSettled_settle_of h _
  | warmUp attempt => exact h

theorem isSettled_foldl_resolve_of {agents : List PresenceEntry} {ws : List PresenceWaiter} {r : ℕ}
    (h : s.isSettled r = true) :
    (ws.foldl (fun s w => s.resolve agents w) s).isSettled r = true := by
  induction ws generalizing s with
  | nil => exact h
  | cons w ws ih => exact ih (isSettled_resolve_of h)

theorem isSettled_foldl_resolve {agents : List PresenceEntry} {ws : List PresenceWaiter} {r : ℕ}
    (h : .call r ∈ ws) : (ws.foldl (fun s w => s.resolve agents w) s).isSettled r = true := by
  induction ws generalizing s with
  | nil => cases h
  | cons w ws ih =>
    rcases List.mem_cons.mp h with rfl | h
    · have hnow : (s.resolve agents (.call r)).isSettled r = true := isSettled_settle s _ r
      rw [List.foldl_cons]
      exact isSettled_foldl_resolve_of hnow
    · exact ih h

theorem Answered.not_steals {e : PluginEvent} (hs : s.Typed) (h : s.Answered e) :
    ¬ s.Steals e := by
  intro hsteals
  unfold Steals at hsteals
  split at hsteals
  next i replyTo entries =>
    obtain ⟨hi, hnone, hecho, id, r, hwaits, hfresh, hne⟩ := hsteals
    have hstep : s.step (.socket i (.message (.presence replyTo entries))) =
        s.resolvePresence replyTo entries := if_pos hi
    have hresolve : s.resolvePresence replyTo entries =
        { s.presenceWaiters.values.foldl (fun s w => s.resolve entries w) s with
          presenceWaiters := ∅ } := by
      simp [resolvePresence, hnone, hecho]
    have hgrows : Grows (fun _ o => ∃ agents, o = .ok agents) s
        (s.resolvePresence replyTo entries) :=
      resolvePresence_moves (fun _ _ _ _ => ⟨_, rfl⟩) (fun _ _ _ _ _ => ⟨_, rfl⟩) hs
    have hsettled : (s.resolvePresence replyTo entries).isSettled r = true := by
      rw [hresolve]
      exact isSettled_foldl_resolve (JsMap.mem_values.mpr ⟨id, hwaits⟩)
    obtain ⟨o, ho⟩ := isSettled_iff.mp hsettled
    obtain ⟨new, hnew, hP⟩ := hgrows.settled
    have hmem := ho
    rw [hnew] at hmem
    have hold : (r, o) ∉ s.settled := by
      intro hr
      have hsettled' := isSettled_iff.mpr ⟨o, hr⟩
      rw [hfresh] at hsettled'
      cases hsettled'
    obtain ⟨agents, hagents⟩ := (hP (r, o) ((List.mem_append.mp hmem).resolve_left hold)).1
    change o = .ok agents at hagents
    subst hagents
    have hcall : (s.step (.socket i (.message (.presence replyTo entries)))).calls[r]? =
        some id := by
      obtain ⟨hlt, hget⟩ := List.getElem?_eq_some_iff.mp (hs id r hwaits)
      rw [← hget, hstep]
      exact List.prefix_iff_getElem?.mp hgrows.calls r hlt
    rw [← hstep] at ho
    obtain ⟨i', entries', heq, -⟩ := h r id agents hcall ⟨hfresh, ho⟩
    cases heq
    exact hne rfl
  next => exact hsteals

theorem answered_iff (hs : s.Typed) (e : PluginEvent) : s.Answered e ↔ ¬ s.Steals e :=
  ⟨Answered.not_steals hs, Answered.of_not_steals hs⟩

end PluginClient

/-- In a run of either client every `presence()` call that resolves is answered by its own frame
exactly when no frame without an id arrives while a call waits and no answer has come yet. -/
theorem presence_answered_iff (opts : ClientOpts) (env : Env) (config : Option DapFileConfig)
    (now : ℤ) (agentId : String) (name : Option String) (uuid : ℕ → String) :
    (∀ es, (∀ pre e, pre ++ [e] <+: es →
        ((BridgeClient.create opts env config now).run pre).Answered e) ↔
      ∀ pre e, pre ++ [e] <+: es →
        ¬ ((BridgeClient.create opts env config now).run pre).Steals e) ∧
    (∀ es, (∀ pre e, pre ++ [e] <+: es →
        (({ agentId, name, uuid } : PluginClient).run pre).Answered e) ↔
      ∀ pre e, pre ++ [e] <+: es →
        ¬ (({ agentId, name, uuid } : PluginClient).run pre).Steals e) := by
  constructor
  · intro es
    have hs := BridgeClient.typed_create opts env config now
    refine forall_congr' fun pre => forall_congr' fun e => forall_congr' fun _ => ?_
    exact BridgeClient.answered_iff (BridgeClient.typed_run hs pre) e
  · intro es
    have hs := PluginClient.typed_create agentId name uuid
    refine forall_congr' fun pre => forall_congr' fun e => forall_congr' fun _ => ?_
    exact PluginClient.answered_iff (PluginClient.typed_run hs pre) e

/-- A peer's broadcast arrives before the answers to the warm-up and to a first query. -/
def earlyBroadcast : SocketEvent :=
  .message (.presence none [{ agentId := "peer", online := some true }])

def untilFirstQuery : List BridgeEvent :=
  [.start, .socket 0 .opened, .socket 0 (.message .welcome), .presence]

def untilFirstPluginQuery : List PluginEvent :=
  [.start, .socket 0 .opened, .socket 0 (.message .welcome), .presence]

theorem not_answered_earlyBroadcast :
    ¬ ((BridgeClient.create BridgeClient.sampleOpts {} none 0).run untilFirstQuery).Answered
        (.socket 0 earlyBroadcast) ∧
    ¬ (({ agentId := "me", uuid := toString } : PluginClient).run untilFirstPluginQuery).Answered
        (.socket 0 earlyBroadcast) := by
  constructor
  · intro h
    obtain ⟨i, entries, heq, -⟩ := h 0 "1"
      (.agents [{ agentId := "peer", online := some true, self := false }]) (by decide +kernel)
      (by unfold BridgeClient.Settles; decide +kernel) (by simp)
    cases heq
  · intro h
    obtain ⟨i, entries, heq, -⟩ := h 0 "1"
      [{ agentId := "peer", online := some true, self := false }] (by decide +kernel)
      (by unfold PluginClient.Settles; decide +kernel)
    cases heq

end Dap
