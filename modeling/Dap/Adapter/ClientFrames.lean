import Dap.Adapter.Operations
import Dap.Adapter.Wiring

/-! What the events of the client do to its pending invites and their delivery pass. -/
namespace Dap
namespace BridgeClient

variable {s t : BridgeClient}

/-! ### Socket events and public operations -/

@[simp] theorem inviting_closeSocket (s : BridgeClient) (i : ℕ) :
    (s.closeSocket i).inviting = s.inviting := by
  unfold closeSocket
  split <;> rfl

@[simp] theorem inviting_elim_closeSocket (s : BridgeClient) (o : Option ℕ) :
    (o.elim s s.closeSocket).inviting = s.inviting := by
  cases o with
  | none => rfl
  | some i => exact inviting_closeSocket s i

theorem inviting_connect (s : BridgeClient) : s.connect.inviting = s.inviting := by
  unfold connect
  split <;> rfl

theorem inviting_onDisconnect (s : BridgeClient) : s.onDisconnect.inviting = s.inviting := by
  unfold onDisconnect
  dsimp only
  split
  · exact (failWaiters_keeps _ _).inviting.trans rfl
  · rfl

theorem inviting_onUnexpectedResponse (s : BridgeClient) (code : ℕ) :
    (s.onUnexpectedResponse code).inviting = s.inviting := by
  unfold onUnexpectedResponse
  dsimp only
  rw [inviting_elim_closeSocket]
  split
  · split <;> rfl
  · rfl

theorem handleSocket_mayPoll (s : BridgeClient) (e : SocketEvent) :
    MayPoll s (s.handleSocket e) := by
  cases e with
  | opened => exact (onOpen_keeps s).polls.mayPoll
  | message f => exact (handleRaw_polls s f).mayPoll
  | closed => exact .inl (inviting_onDisconnect s)
  | error err => exact (onSocketError_keeps s err).polls.mayPoll
  | unexpectedResponse code => exact .inl (inviting_onUnexpectedResponse s code)

theorem inviting_stop (s : BridgeClient) : s.stop.inviting = s.inviting := by
  unfold stop
  exact (inviting_elim_closeSocket _ _).trans rfl

theorem inviting_silence (s : BridgeClient) : s.silence.inviting = s.inviting := by
  unfold silence
  cases h : s.ws with
  | none => rfl
  | some i => exact (inviting_closeSocket _ _).trans rfl

theorem inviting_retarget (s : BridgeClient) (next : Retarget) :
    (s.retarget next).inviting = s.inviting := by
  unfold retarget
  dsimp only
  rw [inviting_connect]
  refine (show _ = _ from (failWaiters_keeps _ _).inviting).trans ?_
  rw [inviting_silence]
  rfl

/-! ### Events -/

def listed (s : BridgeClient) := (s.pendingInvites, s.storedInvites, s.codec)

/-- At most one delivery pass, counting `k` that wait for other things, and none while
`deliveringInvites` is off. -/
def Room (k : ℕ) (s : BridgeClient) : Prop :=
  s.passes + k ≤ if s.deliveringInvites then 1 else 0

theorem listed_of_inviting (h : t.inviting = s.inviting) : t.listed = s.listed := by
  simp only [inviting, held, Prod.mk.injEq] at h
  obtain ⟨⟨-, hpending, hstored, hcodec⟩, -⟩ := h
  rw [listed, listed, hpending, hstored, hcodec]

theorem Room.of_inviting {k : ℕ} (h : t.inviting = s.inviting) (hs : Room k s) : Room k t := by
  simp only [inviting, Prod.mk.injEq] at h
  unfold Room
  rw [h.2.1, h.2.2]
  exact hs

theorem MayPoll.listed (h : MayPoll s t) : t.listed = s.listed := by
  rcases h with h | ⟨-, h⟩
  · exact listed_of_inviting h
  · simp only [inviting, held, Prod.mk.injEq] at h
    obtain ⟨⟨-, hpending, hstored, hcodec⟩, -⟩ := h
    rw [BridgeClient.listed, BridgeClient.listed, hpending, hstored, hcodec]

theorem MayPoll.room {k : ℕ} (h : MayPoll s t) (hs : Room k s) : Room k t := by
  rcases h with h | ⟨hflag, h⟩
  · exact hs.of_inviting h
  · simp only [inviting, Prod.mk.injEq] at h
    obtain ⟨-, hflag', hpasses⟩ := h
    unfold Room at hs ⊢
    rw [hflag] at hs
    rw [hflag', hpasses]
    simp only [Bool.false_eq_true, if_false] at hs
    simp only [if_true]
    omega

theorem passes_eraseIdx {n : ℕ} {task : ℕ × Kont} (h : s.tasks[n]? = some task) :
    s.passes = ({ s with tasks := s.tasks.eraseIdx n } : BridgeClient).passes +
      if task.2 = .deliverInvites then 1 else 0 := by
  obtain ⟨hn, rfl⟩ := List.getElem?_eq_some_iff.mp h
  have hperm := (List.getElem_cons_eraseIdx_perm hn).countP_eq
    fun task : ℕ × Kont => decide (task.2 = .deliverInvites)
  rw [List.countP_cons] at hperm
  simp only [decide_eq_true_eq] at hperm
  exact hperm.symm

theorem runTask_listed (s : BridgeClient) (n : ℕ) : (s.runTask n).listed = s.listed := by
  unfold runTask
  split
  · rfl
  next r k hk =>
    split
    · rfl
    next o ho =>
      by_cases hpass : k = .deliverInvites
      · subst hpass
        cases o <;> rfl
      · obtain ⟨channels, h⟩ := resume_keeps { s with tasks := s.tasks.eraseIdx n } o hpass
        exact (listed_of_inviting h.inviting).trans rfl

theorem runTask_room {k : ℕ} (n : ℕ) (h : Room k s) : Room k (s.runTask n) := by
  unfold runTask
  split
  · exact h
  next r kont hkont =>
    split
    · exact h
    next o ho =>
      have hpasses := passes_eraseIdx hkont
      by_cases hpass : kont = .deliverInvites
      · subst hpass
        simp only [if_true] at hpasses
        cases hflag : s.deliveringInvites with
        | false =>
          unfold Room at h
          rw [hflag, hpasses] at h
          simp at h
        | true =>
          have hroom : ({ s with tasks := s.tasks.eraseIdx n } : BridgeClient).passes + k = 0 := by
            unfold Room at h
            rw [hflag] at h
            simp only [if_true] at h
            omega
          have hless : ∀ b : Bool,
              ({ s with tasks := s.tasks.eraseIdx n } : BridgeClient).passes + k ≤
                if b then 1 else 0 := fun b => hroom.le.trans (Nat.zero_le _)
          cases o with
          | rejected e => exact hless false
          | done | info p | agents as => exact hless true
      · obtain ⟨channels, hkeeps⟩ :=
          resume_keeps { s with tasks := s.tasks.eraseIdx n } o hpass
        rw [if_neg hpass, Nat.add_zero] at hpasses
        have hroom : Room k { s with tasks := s.tasks.eraseIdx n, channels } := by
          unfold Room at h
          rw [hpasses] at h
          exact h
        exact hroom.of_inviting hkeeps.inviting

/-- A pass that has its roster is handed on. -/
theorem step_of_passOf {e : BridgeEvent} {agents : List PresenceAgent}
    (h : s.passOf e = some agents) {k : ℕ} (hroom : Room k s) : Room (k + 1) (s.step e) := by
  unfold passOf at h
  split at h
  next n =>
    split at h
    next r htask =>
      split at h
      next as hsettled =>
        have hpasses := passes_eraseIdx htask
        simp only [if_true] at hpasses
        have hstep : s.step (.task n) = { s with tasks := s.tasks.eraseIdx n } := by
          simp only [step, runTask, htask, hsettled, resume]
        rw [hstep]
        unfold Room at hroom
        rw [hpasses] at hroom
        show ({ s with tasks := s.tasks.eraseIdx n } : BridgeClient).passes + (k + 1) ≤
          if s.deliveringInvites then 1 else 0
        omega
      · nomatch h
    · nomatch h
  · nomatch h

/-- Neither driven by an operation nor one that brings channels, files or the end of a task. -/
def quiet : BridgeEvent → Bool
  | .addChannel _ | .task _ | .outside _ _ _ => false
  | e => !drives e

theorem step_mayPoll {e : BridgeEvent} (h : quiet e = true) : s.MayPoll (s.step e) := by
  cases e with
  | armInvite | invited | invitesDone | send | addChannel | task | outside => nomatch h
  | start => exact .inl (inviting_connect _)
  | stop => exact .inl (inviting_stop s)
  | retarget next => exact .inl (inviting_retarget s next)
  | socket i e =>
    have hmoves : s.MayPoll (s.socketMoves i e) := by cases e <;> exact .inl rfl
    simp only [step]
    split
    · exact hmoves.trans (handleSocket_mayPoll _ e)
    · exact hmoves
  | retry t => exact .inl ((inviting_connect _).trans rfl)
  | pollInvites => exact (pollPendingInvites_polls s).mayPoll
  | pongMissed => exact .inl (inviting_elim_closeSocket s s.watched)
  | ready => exact (ready_keeps s).polls.mayPoll
  | join name chanPubkey => exact (join_keeps s name chanPubkey).polls.mayPoll
  | whois agentId => exact (agentInfo_keeps s agentId).polls.mayPoll
  | presence => exact (presence_keeps s).polls.mayPoll
  | timeout r => exact (timeout_keeps s r).polls.mayPoll

/-- Leaves the invites in the config file as they are. -/
def KeepsInvites (s : BridgeClient) : BridgeEvent → Prop
  | .outside _ config _ => (readDapConfig config).invites.getD [] = s.storedInvites
  | _ => True

theorem step_listed {e : BridgeEvent} (hdrives : drives e = false) (h : s.KeepsInvites e) :
    (s.step e).listed = s.listed := by
  cases e with
  | armInvite | invited | invitesDone | send => nomatch hdrives
  | addChannel ch => rfl
  | task n => exact runTask_listed s n
  | outside env config now =>
    change (s.pendingInvites, (readDapConfig config).invites.getD [], s.codec) = _
    rw [show _ = _ from h]
    rfl
  | _ => exact (step_mayPoll rfl).listed

theorem step_room {k : ℕ} {e : BridgeEvent} (hdrives : drives e = false) (h : Room k s) :
    Room k (s.step e) := by
  cases e with
  | armInvite | invited | invitesDone | send => nomatch hdrives
  | addChannel ch => exact h
  | task n => exact runTask_room n h
  | outside env config now => exact h
  | _ => exact (step_mayPoll rfl).room h

end BridgeClient

end Dap
