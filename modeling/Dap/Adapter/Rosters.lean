import Dap.Adapter.Settling

/-! Which presence frame completes a `presence()` call of the bridge's client. -/
namespace Dap
namespace BridgeClient

variable {s : BridgeClient}

/-- The roster that a call gets from a frame. -/
def roster (s : BridgeClient) (entries : List PresenceEntry) : List PresenceAgent :=
  (entries.map s.markSelf).filter isOnline

/-- Every call that resolves does so with the roster of the frame that carries its id. -/
def Answered (s : BridgeClient) (e : BridgeEvent) : Prop :=
  ∀ r id o, (s.step e).calls[r]? = some (.presence id) → s.Settles e r o →
    (∀ err, o ≠ .rejected err) →
      ∃ i entries, e = .socket i (.message (.presence (some id) entries)) ∧
        o = .agents (s.roster entries)

/-- A frame without an id arrives while a call waits and no answer has come yet. -/
def Steals (s : BridgeClient) : BridgeEvent → Prop
  | .socket i (.message (.presence none _)) => s.Hears i ∧ s.echoSeen = false ∧
    ∃ id r, Waits s.presenceWaiters id (.call r) ∧ s.isSettled r = false
  | _ => False

theorem Answered.of_not_steals {e : BridgeEvent} (hs : s.Typed) (h : ¬ s.Steals e) :
    s.Answered e := by
  have hgrows := step_moves s e hs
  intro r id o hcall hsettles hresolved
  obtain ⟨c, hc, hfits⟩ := hgrows.typed.settled r o hsettles.2
  rw [hcall] at hc
  cases hc
  cases o with
  | done => cases hfits
  | info p => cases hfits
  | rejected err => exact absurd rfl (hresolved err)
  | agents as =>
    cases hsettles.permits hs with
    | ordinary ho => cases ho
    | answer hi hwaits =>
      have hid := calls_get_later hgrows.calls (hs.awaits r _ (.presence hwaits))
      rw [hcall] at hid
      cases hid
      exact ⟨_, _, rfl, rfl⟩
    | broadcast hi hecho hwaits => exact absurd ⟨hi, hecho, _, r, hwaits, hsettles.1⟩ h

theorem Grows.isSettled_of {P : ℕ → Settlement → Prop} {t : BridgeClient} (h : Grows P s t) {r : ℕ}
    (hr : s.isSettled r = true) : t.isSettled r = true := by
  obtain ⟨o, ho⟩ := isSettled_iff.mp hr
  obtain ⟨new, hnew, -⟩ := h.settled
  refine isSettled_iff.mpr ⟨o, ?_⟩
  rw [hnew]
  exact List.mem_append_left _ ho

theorem isSettled_foldl_donePresence {agents : List PresenceAgent} {id : String} {r : ℕ}
    {l : List (String × PresenceWaiter)} (hs : s.Typed)
    (hl : ∀ w ∈ l, ∀ r, w.2 = .call r → s.calls[r]? = some (.presence w.1))
    (h : (id, .call r) ∈ l) : (l.foldl (donePresence agents) s).isSettled r = true := by
  induction l generalizing s with
  | nil => cases h
  | cons w l ih =>
    have hhead : Moves (fun _ _ => True) s (s.donePresence agents w) :=
      donePresence_moves fun r hr => ⟨hl w List.mem_cons_self r hr, trivial⟩
    have hcalls := (hhead hs).calls
    have hrest : ∀ w' ∈ l, ∀ r, w'.2 = .call r →
        (s.donePresence agents w).calls[r]? = some (.presence w'.1) := fun w' hw' r hr =>
      calls_get_later hcalls (hl w' (List.mem_cons_of_mem w hw') r hr)
    rcases List.mem_cons.mp h with rfl | h
    · have htail : Moves (fun _ _ => True) (s.donePresence agents (id, .call r))
          (l.foldl (donePresence agents) (s.donePresence agents (id, .call r))) := by
        apply Moves.foldl_of_calls
        intro t ht w hw
        apply donePresence_moves
        intro r' hr'
        exact ⟨calls_get_later ht (hrest w hw r' hr'), trivial⟩
      exact (htail (hhead hs).typed).isSettled_of (isSettled_settle _ _ r)
    · exact ih (hhead hs).typed hrest h

theorem isSettled_completeAll {agents : List PresenceAgent} {id : String} {r : ℕ} (hs : s.Typed)
    (h : Waits s.presenceWaiters id (.call r)) : (s.completeAll agents).isSettled r = true := by
  have hround : ∀ t : BridgeClient, Moves (fun _ _ => True) t (t.completeRound agents) :=
    fun t => completeRound_moves fun _ _ _ => trivial
  have hmem : (id, PresenceWaiter.call r) ∈ s.allPresenceWaiters := by
    obtain ⟨ws, hentry, hw⟩ := h.mem_entries
    exact List.mem_flatMap.mpr ⟨(id, ws), hentry, List.mem_map.mpr ⟨_, hw, rfl⟩⟩
  have hfirst : (s.completeRound agents).isSettled r = true := by
    refine isSettled_foldl_donePresence hs ?_ hmem
    intro w hw r' hr'
    have hwaits := mem_allPresenceWaiters hw
    rw [hr'] at hwaits
    exact hs.awaits r' _ (.presence hwaits)
  have hs' := (hround s hs).typed
  exact (((hround _).trans (hround _)) hs').isSettled_of hfirst

theorem Answered.not_steals {e : BridgeEvent} (hs : s.Typed) (h : s.Answered e) : ¬ s.Steals e := by
  intro hsteals
  unfold Steals at hsteals
  split at hsteals
  next i entries =>
    obtain ⟨hi, hecho, id, r, hwaits, hfresh⟩ := hsteals
    have hstep : s.step (.socket i (.message (.presence none entries))) =
        s.completeAll (entries.map s.markSelf) := by
      refine (if_pos hi).trans ?_
      simp [socketMoves, handleSocket, handleRaw, onPresence, hecho]
    have hgrows : Grows (fun _ o => ∃ as, o = .agents as) s
        (s.onPresence none entries) :=
      onPresence_moves (fun _ _ _ _ => ⟨_, rfl⟩) (fun _ _ _ _ _ => ⟨_, rfl⟩) hs
    have honPresence : s.onPresence none entries = s.completeAll (entries.map s.markSelf) := by
      simp [onPresence, hecho]
    rw [honPresence, ← hstep] at hgrows
    obtain ⟨o, ho, as, rfl⟩ := hgrows.exists_new hfresh
      (by rw [hstep]; exact isSettled_completeAll hs hwaits)
    have hcall := calls_get_later hgrows.calls (hs.awaits r _ (.presence hwaits))
    obtain ⟨i', entries', heq, -⟩ := h r id _ hcall ⟨hfresh, ho⟩ (by simp)
    cases heq
  next => exact hsteals

/-- A step answers only its own calls exactly when it steals none. -/
theorem answered_iff (hs : s.Typed) (e : BridgeEvent) : s.Answered e ↔ ¬ s.Steals e :=
  ⟨Answered.not_steals hs, Answered.of_not_steals hs⟩

end BridgeClient

end Dap
