import Dap.Adapter.Receiving

/-! Messages of one sender enter the inbox in the order they came in, unless one comes right behind
the key that an earlier one of the plugin's waited for. -/
namespace Dap
open Recovery (Adapter)

namespace Receiver

variable {s : Receiver}

/-! ### What a frame adds -/

def waiters (s : Receiver) (agentId : String) : List Arrival :=
  (s.whoisWaiters.get agentId).getD []

theorem going_onMsg_known {frame : MsgFrame} {info : PeerInfo}
    (h : s.known.get frame.sender = some info) : (s.onMsg frame).going =
      (s.attempts ++ (atStage 1 s.queue ++ atStage 2 s.queue)) ++
        ([⟨s.arrived, frame⟩] ++ atStage 3 s.queue) := by
  have hstep : s.onMsg frame = { s with arrived := s.arrived + 1 }.enqueue
      [.decrypt ⟨s.arrived, frame⟩ info] := by
    unfold onMsg
    simp only [h]
  rw [hstep]
  change s.attempts ++ (atStage 1 (s.queue ++ [.decrypt _ _]) ++ (atStage 2 (s.queue ++
    [.decrypt _ _]) ++ atStage 3 (s.queue ++ [.decrypt _ _]))) = _
  simp [atStage, Microtask.stage, Microtask.arrival]

theorem onMsg_unknown {frame : MsgFrame} (h : s.known.get frame.sender = none) :
    s.onMsg frame = { s with
      arrived := s.arrived + 1
      whoisWaiters := s.whoisWaiters.set frame.sender
        (s.waiters frame.sender ++ [⟨s.arrived, frame⟩]) } := by
  unfold onMsg
  simp only [h]
  rfl

theorem atStage_answer (s : Receiver) (info : PeerInfo) (ms : List Arrival) (k : ℕ) :
    atStage k (ms.map (s.answer info)) =
      if k = (match s.adapter with | .mcpBridge => 2 | .dshPlugin => 3) then ms else [] := by
  unfold atStage answer
  cases s.adapter with
  | mcpBridge =>
    by_cases hk : k = 2
    · subst hk
      induction ms with
      | nil => rfl
      | cons m ms ih => simpa [Microtask.stage, Microtask.arrival] using ih
    · rw [if_neg hk]
      have hk' : 2 ≠ k := Ne.symm hk
      simp [Microtask.stage, hk']
  | dshPlugin =>
    by_cases hk : k = 3
    · subst hk
      induction ms with
      | nil => rfl
      | cons m ms ih => simpa [Microtask.stage, Microtask.arrival] using ih
    · rw [if_neg hk]
      have hk' : 3 ≠ k := Ne.symm hk
      simp [Microtask.stage, hk']

theorem going_onAgentInfo (s : Receiver) (info : PeerInfo) : (s.onAgentInfo info).going =
    match s.adapter with
    | .mcpBridge => (s.attempts ++ (atStage 1 s.queue ++ atStage 2 s.queue)) ++
        (s.waiters info.agentId ++ atStage 3 s.queue)
    | .dshPlugin => s.going ++ s.waiters info.agentId := by
  have hqueue : (s.onAgentInfo info).queue =
      s.queue ++ (s.waiters info.agentId).map (s.answer info) := rfl
  have hattempts : (s.onAgentInfo info).attempts = s.attempts := rfl
  unfold going
  rw [hqueue, hattempts]
  simp only [atStage_append, atStage_answer]
  cases s.adapter with
  | mcpBridge => simp
  | dshPlugin => simp

/-- Nothing under way is lost or reordered by a frame. -/
theorem going_sublist_handle (s : Receiver) (f : InboundFrame) :
    s.going.Sublist (s.handle f).going := by
  have hsplit : s.going = (s.attempts ++ (atStage 1 s.queue ++ atStage 2 s.queue)) ++
      atStage 3 s.queue := by
    unfold going
    simp only [List.append_assoc]
  have hinsert : ∀ ms : List Arrival, s.going.Sublist
      ((s.attempts ++ (atStage 1 s.queue ++ atStage 2 s.queue)) ++ (ms ++ atStage 3 s.queue)) := by
    intro ms
    rw [hsplit]
    exact (List.Sublist.refl _).append (List.sublist_append_right ms _)
  cases f with
  | msg frame =>
    change s.going.Sublist (s.onMsg frame).going
    cases hknown : s.known.get frame.sender with
    | some info =>
      rw [going_onMsg_known hknown]
      exact hinsert _
    | none =>
      rw [onMsg_unknown hknown]
      exact List.Sublist.refl _
  | agentInfo info =>
    change s.going.Sublist (s.onAgentInfo info).going
    rw [going_onAgentInfo]
    cases s.adapter with
    | mcpBridge => exact hinsert _
    | dshPlugin => exact List.sublist_append_left _ _

/-! ### The invariant -/

/-- Messages are under way once their sender's key is there, and wait in order until then; only the
plugin has a callback to pass. -/
structure Tracked (s : Receiver) : Prop where
  counted : ∀ m ∈ s.going, m.n < s.arrived
  keyed : ∀ m ∈ s.going, s.known.get m.frame.sender ≠ none
  unknown : ∀ a, s.waiters a ≠ [] → s.known.get a = none
  sorted : ∀ a, (s.waiters a).Pairwise fun x y => x.n < y.n
  waiting : ∀ a, ∀ m ∈ s.waiters a, m.frame.sender = a ∧ m.n < s.arrived
  bridge : s.adapter = .mcpBridge → atStage 3 s.queue = []

theorem tracked_create (adapter : Adapter) (codec : Codec) (xpriv : String)
    (channels : JsMap String ChannelKey) : (create adapter codec xpriv channels).Tracked := by
  have hgoing : (create adapter codec xpriv channels).going = [] := rfl
  have hwaiters : ∀ a, (create adapter codec xpriv channels).waiters a = [] := fun _ => rfl
  constructor
  · rw [hgoing]
    intro m hm
    cases hm
  · rw [hgoing]
    intro m hm
    cases hm
  · intro a ha
    exact absurd (hwaiters a) ha
  · intro a
    rw [hwaiters]
    exact List.Pairwise.nil
  · intro a m hm
    rw [hwaiters] at hm
    cases hm
  · exact fun _ => rfl

theorem mem_going_insert {A C l : List Arrival} {m : Arrival} (h : m ∈ A ++ (l ++ C)) :
    m ∈ A ++ C ∨ m ∈ l := by
  simp only [List.mem_append] at h ⊢
  tauto

/-- What is under way after a frame was so before, or is new. -/
theorem mem_going_handle {f : InboundFrame} {m : Arrival} (h : m ∈ (s.handle f).going) :
    m ∈ s.going ∨ (∃ frame, f = .msg frame ∧ m = ⟨s.arrived, frame⟩ ∧
      s.known.get frame.sender ≠ none) ∨
      ∃ info, f = .agentInfo info ∧ m ∈ s.waiters info.agentId := by
  have hsplit : s.going = (s.attempts ++ (atStage 1 s.queue ++ atStage 2 s.queue)) ++
      atStage 3 s.queue := by
    unfold going
    simp only [List.append_assoc]
  cases f with
  | msg frame =>
    change m ∈ (s.onMsg frame).going at h
    cases hknown : s.known.get frame.sender with
    | some info =>
      rw [going_onMsg_known hknown] at h
      rcases mem_going_insert h with h | h
      · exact .inl (hsplit ▸ h)
      · refine .inr (.inl ⟨frame, rfl, List.mem_singleton.mp h, ?_⟩)
        rw [hknown]
        simp
    | none =>
      rw [onMsg_unknown hknown] at h
      exact .inl h
  | agentInfo info =>
    change m ∈ (s.onAgentInfo info).going at h
    rw [going_onAgentInfo] at h
    cases hadapter : s.adapter with
    | mcpBridge =>
      simp only [hadapter] at h
      rcases mem_going_insert h with h | h
      · exact .inl (hsplit ▸ h)
      · exact .inr (.inr ⟨info, rfl, h⟩)
    | dshPlugin =>
      simp only [hadapter] at h
      rcases List.mem_append.mp h with h | h
      · exact .inl h
      · exact .inr (.inr ⟨info, rfl, h⟩)

theorem known_handle (s : Receiver) (f : InboundFrame) (a : String) :
    (s.handle f).known.get a = match f with
      | .msg _ => s.known.get a
      | .agentInfo info => if info.agentId = a then some info else s.known.get a := by
  cases f with
  | msg frame =>
    change (s.onMsg frame).known.get a = _
    unfold onMsg
    dsimp only
    split <;> rfl
  | agentInfo info => exact JsMap.get_set s.known info.agentId a info

theorem arrived_handle (s : Receiver) (f : InboundFrame) : s.arrived ≤ (s.handle f).arrived ∧
    ∀ frame, f = .msg frame → (s.handle f).arrived = s.arrived + 1 := by
  cases f with
  | msg frame =>
    have hnext : (s.onMsg frame).arrived = s.arrived + 1 := by
      unfold onMsg
      dsimp only
      split <;> rfl
    change s.arrived ≤ (s.onMsg frame).arrived ∧ ∀ frame', _ → (s.onMsg frame).arrived = _
    rw [hnext]
    exact ⟨by omega, fun _ _ => rfl⟩
  | agentInfo info =>
    refine ⟨le_refl _, ?_⟩
    intro frame hf
    cases hf

theorem waiters_handle (s : Receiver) (f : InboundFrame) (a : String) :
    (s.handle f).waiters a = match f with
      | .msg frame =>
        if s.known.get frame.sender = none ∧ frame.sender = a then
          s.waiters a ++ [⟨s.arrived, frame⟩] else s.waiters a
      | .agentInfo info => if info.agentId = a then [] else s.waiters a := by
  cases f with
  | msg frame =>
    change (s.onMsg frame).waiters a = _
    cases hknown : s.known.get frame.sender with
    | some info =>
      have hsame : (s.onMsg frame).waiters a = s.waiters a := by
        unfold onMsg
        simp only [hknown]
        rfl
      simp [hsame, hknown]
    | none =>
      rw [onMsg_unknown hknown]
      simp only [waiters, JsMap.get_set, hknown, true_and]
      by_cases h : frame.sender = a
      · subst h
        simp
      · simp [h]
  | agentInfo info =>
    change ((s.whoisWaiters.delete info.agentId).get a).getD [] = _
    rw [JsMap.get_delete]
    by_cases h : info.agentId = a
    · simp [h]
    · simp [h, waiters]

theorem callbacks_handle (s : Receiver) (f : InboundFrame) (h : s.adapter = .mcpBridge) :
    (s.handle f).adapter = .mcpBridge ∧ atStage 3 (s.handle f).queue = atStage 3 s.queue := by
  cases f with
  | msg frame =>
    change (s.onMsg frame).adapter = _ ∧ atStage 3 (s.onMsg frame).queue = _
    unfold onMsg
    dsimp only
    split
    · refine ⟨h, ?_⟩
      change atStage 3 (s.queue ++ [.decrypt _ _]) = _
      simp [atStage, Microtask.stage]
    · exact ⟨h, rfl⟩
  | agentInfo info =>
    refine ⟨h, ?_⟩
    change atStage 3 (s.queue ++ (s.waiters info.agentId).map (s.answer info)) = _
    rw [atStage_append, atStage_answer, h]
    simp

theorem Tracked.handle (h : s.Tracked) (f : InboundFrame) : (s.handle f).Tracked := by
  obtain ⟨hlater, hnext⟩ := arrived_handle s f
  constructor
  · intro m hm
    rcases mem_going_handle hm with hold | ⟨frame, rfl, rfl, -⟩ | ⟨info, rfl, hwait⟩
    · have hn := h.counted m hold
      omega
    · rw [hnext frame rfl]
      exact Nat.lt_succ_self _
    · have hn := (h.waiting _ m hwait).2
      omega
  · intro m hm
    rw [known_handle]
    rcases mem_going_handle hm with hold | ⟨frame, rfl, rfl, hknown⟩ | ⟨info, rfl, hwait⟩
    · have hknown := h.keyed m hold
      cases f with
      | msg frame => exact hknown
      | agentInfo info =>
        simp only
        split
        · simp
        · exact hknown
    · exact hknown
    · simp [(h.waiting _ m hwait).1]
  · intro a ha
    rw [waiters_handle] at ha
    rw [known_handle]
    cases f with
    | msg frame =>
      simp only at ha ⊢
      split at ha
      next hcond => exact hcond.2 ▸ hcond.1
      next => exact h.unknown a ha
    | agentInfo info =>
      simp only at ha ⊢
      split at ha
      next => exact absurd rfl ha
      next hne =>
        rw [if_neg hne]
        exact h.unknown a ha
  · intro a
    rw [waiters_handle]
    cases f with
    | msg frame =>
      simp only
      split
      · rw [List.pairwise_append]
        refine ⟨h.sorted a, List.pairwise_singleton _ _, ?_⟩
        intro x hx y hy
        rw [List.mem_singleton.mp hy]
        exact (h.waiting a x hx).2
      · exact h.sorted a
    | agentInfo info =>
      simp only
      split
      · exact List.Pairwise.nil
      · exact h.sorted a
  · intro a m hm
    rw [waiters_handle] at hm
    have hold : m ∈ s.waiters a → m.frame.sender = a ∧ m.n < (s.handle f).arrived := by
      intro hm
      obtain ⟨hsender, hn⟩ := h.waiting a m hm
      exact ⟨hsender, by omega⟩
    cases f with
    | msg frame =>
      simp only at hm
      split at hm
      next hcond =>
        rcases List.mem_append.mp hm with hm | hm
        · exact hold hm
        · rw [List.mem_singleton.mp hm, hnext frame rfl]
          exact ⟨hcond.2, Nat.lt_succ_self _⟩
      next => exact hold hm
    | agentInfo info =>
      simp only at hm
      split at hm
      · cases hm
      · exact hold hm
  · intro hbridge
    have hbefore : s.adapter = .mcpBridge := by
      cases f with
      | msg frame =>
        change (s.onMsg frame).adapter = _ at hbridge
        unfold onMsg at hbridge
        dsimp only at hbridge
        split at hbridge
        · exact hbridge
        · exact hbridge
      | agentInfo info => exact hbridge
    rw [(callbacks_handle s f hbefore).2]
    exact h.bridge hbefore

/-! ### Order -/

theorem pairwise_insert {R : Arrival → Arrival → Prop} {A C l : List Arrival}
    (h : (A ++ C).Pairwise R) (hl : l.Pairwise R) (hA : ∀ x ∈ A, ∀ y ∈ l, R x y)
    (hC : ∀ y ∈ l, ∀ z ∈ C, R y z) : (A ++ (l ++ C)).Pairwise R := by
  rw [List.pairwise_append] at h
  obtain ⟨hpA, hpC, hAC⟩ := h
  rw [List.pairwise_append, List.pairwise_append]
  refine ⟨hpA, ⟨hl, hpC, hC⟩, ?_⟩
  intro x hx y hy
  rcases List.mem_append.mp hy with hy | hy
  · exact hA x hx y hy
  · exact hAC x hx y hy

/-- A frame keeps the order exactly when it is clear. -/
theorem ordered_handle_iff (h : s.Tracked) (f : InboundFrame) :
    (s.handle f).going.Pairwise Before ↔ s.going.Pairwise Before ∧ s.Clear f := by
  have hsplit : s.going = (s.attempts ++ (atStage 1 s.queue ++ atStage 2 s.queue)) ++
      atStage 3 s.queue := by
    unfold going
    simp only [List.append_assoc]
  have hwaiters : ∀ a, (s.waiters a).Pairwise Before := by
    intro a
    apply (h.sorted a).imp
    intro x y hxy _
    exact hxy
  have happart : ∀ a, ∀ x ∈ s.going, ∀ y ∈ s.waiters a, x.frame.sender ≠ y.frame.sender := by
    intro a x hx y hy heq
    have hunknown := h.unknown a (List.ne_nil_of_mem hy)
    rw [← (h.waiting a y hy).1, ← heq] at hunknown
    exact h.keyed x hx hunknown
  constructor
  · intro hafter
    refine ⟨hafter.sublist (going_sublist_handle s f), ?_⟩
    cases f with
    | agentInfo info => trivial
    | msg frame =>
      intro _ hknown m hm heq
      obtain ⟨info, hinfo⟩ := Option.ne_none_iff_exists'.mp hknown
      change (s.onMsg frame).going.Pairwise Before at hafter
      rw [going_onMsg_known hinfo] at hafter
      have htail := (List.pairwise_append.mp (List.pairwise_append.mp hafter).2.1).2.2
      have hbefore := htail ⟨s.arrived, frame⟩ List.mem_cons_self m hm heq.symm
      have hcounted := h.counted m (hsplit ▸ List.mem_append_right _ hm)
      simp only at hbefore
      omega
  · rintro ⟨hgoing, hclear⟩
    cases f with
    | msg frame =>
      change (s.onMsg frame).going.Pairwise Before
      cases hknown : s.known.get frame.sender with
      | none =>
        rw [onMsg_unknown hknown]
        exact hgoing
      | some info =>
        rw [going_onMsg_known hknown]
        refine pairwise_insert (hsplit ▸ hgoing) (List.pairwise_singleton _ _) ?_ ?_
        · intro x hx y hy _
          rw [List.mem_singleton.mp hy]
          exact h.counted x (hsplit ▸ List.mem_append_left _ hx)
        · intro y hy z hz heq
          rw [List.mem_singleton.mp hy] at heq
          cases hadapter : s.adapter with
          | mcpBridge =>
            rw [h.bridge hadapter] at hz
            cases hz
          | dshPlugin =>
            have hne := hclear hadapter (by rw [hknown]; simp) z hz
            exact absurd heq.symm hne
    | agentInfo info =>
      change (s.onAgentInfo info).going.Pairwise Before
      rw [going_onAgentInfo]
      have hcross := happart info.agentId
      cases hadapter : s.adapter with
      | mcpBridge =>
        simp only
        refine pairwise_insert (hsplit ▸ hgoing) (hwaiters _) ?_ ?_
        · intro x hx y hy heq
          exact absurd heq (hcross x (hsplit ▸ List.mem_append_left _ hx) y hy)
        · intro y _ z hz
          rw [h.bridge hadapter] at hz
          cases hz
      | dshPlugin =>
        simp only
        rw [List.pairwise_append]
        refine ⟨hgoing, hwaiters _, ?_⟩
        intro x hx y hy heq
        exact absurd heq (hcross x hx y hy)

theorem ordered_frames_iff (h : s.Tracked) (fs : List InboundFrame) :
    (fs.foldl Receiver.handle s).Tracked ∧
      ((fs.foldl Receiver.handle s).going.Pairwise Before ↔
        s.going.Pairwise Before ∧ s.PromptFrames fs) := by
  induction fs generalizing s with
  | nil => exact ⟨h, by simp [PromptFrames]⟩
  | cons f fs ih =>
    obtain ⟨htracked, hiff⟩ := ih (h.handle f)
    refine ⟨htracked, ?_⟩
    rw [List.foldl_cons, hiff, ordered_handle_iff h, PromptFrames]
    tauto

theorem Tracked.drain (h : s.Tracked) : s.drain.Tracked := by
  obtain ⟨hgoing, htable⟩ := s.drain_keeps
  simp only [table, Prod.mk.injEq] at htable
  obtain ⟨hknown, hwaiting, harrived, hadapter⟩ := htable
  have hwaiters : ∀ a, s.drain.waiters a = s.waiters a := by
    intro a
    unfold waiters
    rw [hwaiting]
  constructor
  · rw [hgoing, harrived]
    exact h.counted
  · rw [hgoing, hknown]
    exact h.keyed
  · intro a ha
    rw [hwaiters] at ha
    rw [hknown]
    exact h.unknown a ha
  · intro a
    rw [hwaiters]
    exact h.sorted a
  · intro a
    rw [hwaiters, harrived]
    exact h.waiting a
  · intro _
    rw [drain_queue]
    rfl

theorem Tracked.timeout (h : s.Tracked) (agentId : String) (n : ℕ) :
    (s.step (.timeout agentId n)).Tracked := by
  simp only [step]
  cases hget : s.whoisWaiters.get agentId with
  | none => exact h
  | some ms =>
    have hms : s.waiters agentId = ms := by
      unfold waiters
      rw [hget]
      rfl
    have hwaiters : ∀ a, ({ s with
        whoisWaiters := s.whoisWaiters.set agentId (ms.filter fun m => m.n ≠ n) } :
          Receiver).waiters a =
          if agentId = a then (s.waiters a).filter (fun m => m.n ≠ n) else s.waiters a := by
      intro a
      simp only [waiters, JsMap.get_set]
      by_cases ha : agentId = a
      · subst ha
        simp [hget]
      · simp [ha]
    have hsub : ∀ a, (({ s with
        whoisWaiters := s.whoisWaiters.set agentId (ms.filter fun m => m.n ≠ n) } :
          Receiver).waiters a).Sublist (s.waiters a) := by
      intro a
      rw [hwaiters]
      split
      · exact List.filter_sublist
      · exact List.Sublist.refl _
    refine ⟨h.counted, h.keyed, ?_, ?_, ?_, h.bridge⟩
    · intro a ha
      apply h.unknown a
      intro hnil
      apply ha
      have hshort := hsub a
      rw [hnil] at hshort
      exact List.sublist_nil.mp hshort
    · intro a
      exact (h.sorted a).sublist (hsub a)
    · intro a m hm
      exact h.waiting a m ((hsub a).subset hm)

theorem ordered_step_iff (h : s.Tracked) (t : ReceiverTask) :
    (s.step t).Tracked ∧ ((s.step t).going.Pairwise Before ↔
      s.going.Pairwise Before ∧ ∀ fs, t = .frames fs → s.PromptFrames fs) := by
  cases t with
  | frames fs =>
    obtain ⟨htracked, hiff⟩ := ordered_frames_iff h fs
    refine ⟨htracked.drain, ?_⟩
    have hgoing : (s.step (.frames fs)).going = (fs.foldl Receiver.handle s).going :=
      (drain_keeps _).1
    rw [hgoing, hiff]
    constructor
    · rintro ⟨hordered, hprompt⟩
      refine ⟨hordered, ?_⟩
      rintro fs' hfs
      cases hfs
      exact hprompt
    · rintro ⟨hordered, hprompt⟩
      exact ⟨hordered, hprompt fs rfl⟩
  | timeout agentId n =>
    refine ⟨h.timeout agentId n, ?_⟩
    have hgoing : (s.step (.timeout agentId n)).going = s.going := by
      simp only [step]
      cases s.whoisWaiters.get agentId with
      | none => rfl
      | some ms => rfl
    rw [hgoing]
    simp
  | addChannel ch =>
    refine ⟨⟨h.counted, h.keyed, h.unknown, h.sorted, h.waiting, h.bridge⟩, ?_⟩
    change s.going.Pairwise Before ↔ _
    simp

theorem ordered_run_iff (h : s.Tracked) (ts : List ReceiverTask) :
    (s.run ts).going.Pairwise Before ↔ s.going.Pairwise Before ∧ s.Prompt ts := by
  induction ts generalizing s with
  | nil => simp [run, Prompt]
  | cons t ts ih =>
    obtain ⟨htracked, hiff⟩ := ordered_step_iff h t
    have hrest := ih htracked
    rw [Prompt]
    change ((s.step t).run ts).going.Pairwise Before ↔ _
    rw [hrest, hiff]
    tauto

theorem step_queue (t : ReceiverTask) (h : s.queue = []) : (s.step t).queue = [] := by
  cases t with
  | frames fs => exact drain_queue _
  | timeout agentId n =>
    simp only [step]
    cases s.whoisWaiters.get agentId with
    | none => exact h
    | some ms => exact h
  | addChannel ch => exact h

theorem run_queue (ts : List ReceiverTask) (h : s.queue = []) : (s.run ts).queue = [] := by
  induction ts generalizing s with
  | nil => exact h
  | cons t ts ih => exact ih (step_queue t h)

theorem inOrder_attempted_iff (h : s.queue = []) :
    InOrder s.attempted ↔ s.going.Pairwise Before := by
  have hgoing : s.going = s.attempts := by
    unfold going
    rw [h]
    exact List.append_nil _
  rw [hgoing]
  unfold InOrder attempted
  rw [List.pairwise_map]
  exact Iff.rfl

/-! ### The inbox -/

theorem decryptMsg_sender {m : MsgFrame} {sender : PeerInfo} {ev : MsgEvent}
    (h : s.decryptMsg m sender = .ok ev) : ev.sender = m.sender := by
  have hmap : ∀ {r : Except String String} {f : String → MsgEvent},
      (∀ text, (f text).sender = m.sender) → r.map f = .ok ev → ev.sender = m.sender := by
    intro r f hf hr
    cases r with
    | error reason => cases hr
    | ok text =>
      cases hr
      exact hf text
  unfold decryptMsg at h
  split at h
  · split at h
    · cases h
    · exact hmap (fun _ => rfl) h
  · split at h
    · cases h
    · exact hmap (fun _ => rfl) h

/-- What is due to be finished has the sender of its frame. -/
def Signed (s : Receiver) : Prop :=
  ∀ m ev, .finish m (.ok ev) ∈ s.queue → ev.sender = m.frame.sender

theorem Signed.microtask (h : s.Signed) : s.microtask.Signed := by
  unfold Receiver.microtask
  cases hqueue : s.queue with
  | nil => exact h
  | cons t rest =>
    have hrest : ∀ m ev, .finish m (.ok ev) ∈ rest → ev.sender = m.frame.sender := by
      intro m ev hm
      apply h m ev
      rw [hqueue]
      exact List.mem_cons_of_mem _ hm
    cases t with
    | answered m sender =>
      intro m' ev hm
      rcases List.mem_append.mp hm with hm | hm
      · exact hrest m' ev hm
      · cases List.mem_singleton.mp hm
    | decrypt m sender =>
      intro m' ev hm
      rcases List.mem_append.mp hm with hm | hm
      · exact hrest m' ev hm
      · simp only [List.mem_singleton, Microtask.finish.injEq] at hm
        obtain ⟨rfl, hok⟩ := hm
        exact decryptMsg_sender hok.symm
    | finish m result =>
      cases result with
      | error reason => exact hrest
      | ok ev =>
        have hq := (accept_fields { s with queue := rest, attempts := s.attempts ++ [m] } m.n ev).1
        intro m' ev' hm
        change _ ∈ (accept _ m.n ev).queue at hm
        rw [hq] at hm
        exact hrest m' ev' hm

theorem Signed.handle (h : s.Signed) (f : InboundFrame) : (s.handle f).Signed := by
  cases f with
  | msg frame =>
    change (s.onMsg frame).Signed
    unfold onMsg
    dsimp only
    split
    · intro m ev hm
      rcases List.mem_append.mp hm with hm | hm
      · exact h m ev hm
      · cases List.mem_singleton.mp hm
    · exact h
  | agentInfo info =>
    intro m ev hm
    rcases List.mem_append.mp hm with hm | hm
    · exact h m ev hm
    · obtain ⟨m', -, hm'⟩ := List.mem_map.mp hm
      unfold answer at hm'
      split at hm'
      · cases hm'
      · cases hm'

theorem Signed.frames (h : s.Signed) (fs : List InboundFrame) :
    (fs.foldl Receiver.handle s).Signed := by
  induction fs generalizing s with
  | nil => exact h
  | cons f fs ih => exact ih (h.handle f)

/-! ### What becomes of the messages -/

/-- The next `n` reactions' outcomes of decrypting. -/
def outcomes : ℕ → Receiver → List (Arrival × Except String MsgEvent)
  | 0, _ => []
  | n + 1, s =>
    (match s.queue with
      | .finish m result :: _ => [(m, result)]
      | _ => []) ++ outcomes n s.microtask

/-- The outcomes of a run, in order. -/
def decrypted : Receiver → List ReceiverTask → List (Arrival × Except String MsgEvent)
  | _, [] => []
  | s, t :: ts =>
    (match t with
      | .frames fs => outcomes (fs.foldl handle s).work (fs.foldl handle s)
      | _ => []) ++ decrypted (s.step t) ts

/-- What a message leaves in the inbox: nothing if it cannot be decrypted, and nothing if it is an
invite that the plugin takes in. -/
def shown (adapter : Adapter) (codec : Codec) :
    Arrival × Except String MsgEvent → Option (ℕ × String)
  | (_, .error _) => none
  | (m, .ok ev) =>
    if adapter = .dshPlugin ∧ ev.dm = true ∧ (codec.parseInvite ev.text).isSome then none
    else some (m.n, ev.sender)

/-- Where the inbox is and what decides on it. -/
def desk (s : Receiver) := (s.inbox, s.attempts, s.adapter, s.codec)

theorem desk_accept (s : Receiver) (m : Arrival) (ev : MsgEvent) : (s.accept m.n ev).desk =
    (s.inbox ++ (shown s.adapter s.codec (m, .ok ev)).toList, s.attempts, s.adapter, s.codec) := by
  unfold accept shown
  by_cases hdm : ev.dm = true
  · cases hinvite : s.codec.parseInvite ev.text with
    | none => simp [hdm, hinvite, desk, deliver, inbox]
    | some invite => cases s.adapter <;> simp [hdm, hinvite, desk, deliver, inbox]
  · simp [hdm, desk, deliver, inbox]

theorem desk_microtask (s : Receiver) : s.microtask.desk =
    (s.inbox ++ (outcomes 1 s).filterMap (shown s.adapter s.codec),
      s.attempts ++ (outcomes 1 s).map Prod.fst, s.adapter, s.codec) := by
  unfold microtask outcomes
  cases s.queue with
  | nil => simp [desk, outcomes]
  | cons t rest =>
    cases t with
    | answered m sender => simp [desk, outcomes, react, enqueue, inbox]
    | decrypt m sender => simp [desk, outcomes, react, enqueue, inbox]
    | finish m result =>
      cases result with
      | error reason => simp [desk, outcomes, react, inbox, shown]
      | ok ev =>
        have hdesk := desk_accept { s with queue := rest, attempts := s.attempts ++ [m] } m ev
        refine hdesk.trans ?_
        cases hshown : shown s.adapter s.codec (m, .ok ev) with
        | none => simp [outcomes, inbox, hshown]
        | some x => simp [outcomes, inbox, hshown]

theorem desk_iterate (n : ℕ) (s : Receiver) : (microtask^[n] s).desk =
    (s.inbox ++ (outcomes n s).filterMap (shown s.adapter s.codec),
      s.attempts ++ (outcomes n s).map Prod.fst, s.adapter, s.codec) := by
  induction n generalizing s with
  | zero => simp [outcomes, desk]
  | succ n ih =>
    have hfirst := desk_microtask s
    simp only [desk, Prod.mk.injEq, outcomes, List.append_nil] at hfirst
    obtain ⟨hinbox, hattempts, hadapter, hcodec⟩ := hfirst
    rw [Function.iterate_succ_apply, ih, hinbox, hattempts, hadapter, hcodec, outcomes,
      List.filterMap_append, List.map_append, List.append_assoc, List.append_assoc]

theorem desk_handle (s : Receiver) (f : InboundFrame) : (s.handle f).desk = s.desk := by
  cases f with
  | msg frame =>
    change (s.onMsg frame).desk = _
    unfold onMsg
    dsimp only
    split <;> rfl
  | agentInfo info => rfl

theorem desk_frames (fs : List InboundFrame) (s : Receiver) :
    (fs.foldl Receiver.handle s).desk = s.desk := by
  induction fs generalizing s with
  | nil => rfl
  | cons f fs ih => exact (ih (s.handle f)).trans (desk_handle s f)

/-- The inbox grows by exactly what the messages of a run leave there, in the order in which they
were tried: every message that decrypts enters it, but for the invites that the plugin takes in. -/
theorem desk_run (s : Receiver) (ts : List ReceiverTask) : (s.run ts).desk =
    (s.inbox ++ (s.decrypted ts).filterMap (shown s.adapter s.codec),
      s.attempts ++ (s.decrypted ts).map Prod.fst, s.adapter, s.codec) := by
  induction ts generalizing s with
  | nil => simp [run, decrypted, desk]
  | cons t ts ih =>
    have hstill : (s.step t).desk = s.desk → decrypted s (t :: ts) = (s.step t).decrypted ts →
        ((s.step t).run ts).desk = (s.inbox ++ (s.decrypted (t :: ts)).filterMap
          (shown s.adapter s.codec), s.attempts ++ (s.decrypted (t :: ts)).map Prod.fst, s.adapter,
            s.codec) := by
      intro hdesk hnext
      simp only [desk, Prod.mk.injEq] at hdesk
      obtain ⟨hinbox, hattempts, hadapter, hcodec⟩ := hdesk
      rw [ih, hinbox, hattempts, hadapter, hcodec, hnext]
    cases t with
    | frames fs =>
      have hdrain := desk_iterate (fs.foldl Receiver.handle s).work (fs.foldl Receiver.handle s)
      have hframes := desk_frames fs s
      simp only [desk, Prod.mk.injEq] at hdrain hframes
      obtain ⟨hinbox, hattempts, hadapter, hcodec⟩ := hframes
      rw [hinbox, hattempts, hadapter, hcodec] at hdrain
      obtain ⟨hinbox', hattempts', hadapter', hcodec'⟩ := hdrain
      change ((fs.foldl Receiver.handle s).drain.run ts).desk = _
      rw [ih]
      unfold drain
      rw [hinbox', hattempts', hadapter', hcodec', decrypted, List.filterMap_append,
        List.map_append, List.append_assoc, List.append_assoc]
      rfl
    | timeout agentId n =>
      refine hstill ?_ rfl
      simp only [step]
      cases s.whoisWaiters.get agentId <;> rfl
    | addChannel ch => exact hstill rfl rfl

theorem outcomes_sender (n : ℕ) (h : s.Signed) {m : Arrival} {ev : MsgEvent}
    (hm : (m, .ok ev) ∈ outcomes n s) : ev.sender = m.frame.sender := by
  induction n generalizing s with
  | zero => cases hm
  | succ n ih =>
    rcases List.mem_append.mp hm with hm | hm
    · split at hm
      next heq =>
        obtain ⟨rfl, rfl⟩ := Prod.mk.inj (List.mem_singleton.mp hm)
        exact h m ev (heq ▸ List.mem_cons_self)
      next => cases hm
    · exact ih h.microtask hm

theorem decrypted_sender (hqueue : s.queue = []) (ts : List ReceiverTask) {m : Arrival}
    {ev : MsgEvent} (hm : (m, .ok ev) ∈ s.decrypted ts) : ev.sender = m.frame.sender := by
  induction ts generalizing s with
  | nil => cases hm
  | cons t ts ih =>
    rcases List.mem_append.mp hm with hm | hm
    · cases t with
      | frames fs =>
        have hsigned : s.Signed := by
          intro m ev hin
          rw [hqueue] at hin
          cases hin
        exact outcomes_sender _ (hsigned.frames fs) hm
      | timeout agentId n => cases hm
      | addChannel ch => cases hm
    · exact ih (step_queue t hqueue) hm

theorem shown_sublist {adapter : Adapter} {codec : Codec}
    {l : List (Arrival × Except String MsgEvent)}
    (h : ∀ m ev, (m, .ok ev) ∈ l → ev.sender = m.frame.sender) :
    (l.filterMap (shown adapter codec)).Sublist
      ((l.map Prod.fst).map fun m => (m.n, m.frame.sender)) := by
  induction l with
  | nil => exact List.Sublist.refl _
  | cons x l ih =>
    have ih := ih fun m ev hm => h m ev (List.mem_cons_of_mem _ hm)
    obtain ⟨m, result⟩ := x
    cases hshown : shown adapter codec (m, result) with
    | none =>
      rw [List.filterMap_cons_none hshown]
      exact ih.cons _
    | some y =>
      rw [List.filterMap_cons_some hshown]
      cases result with
      | error reason => cases hshown
      | ok ev =>
        simp only [shown, Option.ite_none_left_eq_some, Option.some.injEq] at hshown
        rw [← hshown.2, h m ev List.mem_cons_self]
        exact ih.cons_cons _

/-! ### The results -/

/-- The messages of each sender are decrypted in the order they came in exactly when every task is
prompt. -/
theorem attempted_inOrder_iff (adapter : Adapter) (codec : Codec) (xpriv : String)
    (channels : JsMap String ChannelKey) (ts : List ReceiverTask) :
    InOrder ((create adapter codec xpriv channels).run ts).attempted ↔
      (create adapter codec xpriv channels).Prompt ts := by
  rw [inOrder_attempted_iff (run_queue ts rfl),
    ordered_run_iff (tracked_create adapter codec xpriv channels)]
  constructor
  · exact fun h => h.2
  · exact fun h => ⟨List.Pairwise.nil, h⟩

theorem adapter_handle (s : Receiver) (f : InboundFrame) : (s.handle f).adapter = s.adapter := by
  cases f with
  | msg frame =>
    change (s.onMsg frame).adapter = _
    unfold onMsg
    dsimp only
    split
    · rfl
    · rfl
  | agentInfo info => rfl

theorem promptFrames_mcpBridge (fs : List InboundFrame) (h : s.adapter = .mcpBridge) :
    s.PromptFrames fs ∧ (fs.foldl Receiver.handle s).adapter = .mcpBridge := by
  induction fs generalizing s with
  | nil => exact ⟨trivial, h⟩
  | cons f fs ih =>
    obtain ⟨hprompt, hadapter⟩ := ih ((adapter_handle s f).trans h)
    refine ⟨⟨?_, hprompt⟩, hadapter⟩
    cases f with
    | msg frame =>
      intro hplugin
      rw [h] at hplugin
      cases hplugin
    | agentInfo info => trivial

theorem adapter_step (t : ReceiverTask) (h : s.adapter = .mcpBridge) :
    (s.step t).adapter = .mcpBridge := by
  cases t with
  | frames fs =>
    have htable := (drain_keeps (fs.foldl Receiver.handle s)).2
    simp only [table, Prod.mk.injEq] at htable
    exact htable.2.2.2.trans (promptFrames_mcpBridge fs h).2
  | timeout agentId n =>
    simp only [step]
    cases s.whoisWaiters.get agentId with
    | none => exact h
    | some ms => exact h
  | addChannel ch => exact h

/-- The bridge is always prompt. -/
theorem prompt_mcpBridge (ts : List ReceiverTask) (h : s.adapter = .mcpBridge) : s.Prompt ts := by
  induction ts generalizing s with
  | nil => trivial
  | cons t ts ih =>
    refine ⟨?_, ih (adapter_step t h)⟩
    intro fs _
    exact (promptFrames_mcpBridge fs h).1

/-- As long as every task is prompt, the messages of each sender enter the inbox in the order they
came in; `desk_run` says which of them enter it. -/
theorem inbox_inOrder (adapter : Adapter) (codec : Codec) (xpriv : String)
    (channels : JsMap String ChannelKey) (ts : List ReceiverTask)
    (h : (create adapter codec xpriv channels).Prompt ts) :
    InOrder ((create adapter codec xpriv channels).run ts).inbox := by
  have hdesk := desk_run (create adapter codec xpriv channels) ts
  simp only [desk, Prod.mk.injEq] at hdesk
  have hsub : ((create adapter codec xpriv channels).run ts).inbox.Sublist
      ((create adapter codec xpriv channels).run ts).attempted := by
    unfold attempted
    rw [hdesk.1, hdesk.2.1]
    exact shown_sublist fun m ev hm => decrypted_sender rfl ts hm
  exact ((attempted_inOrder_iff adapter codec xpriv channels ts).mpr h).sublist hsub

/-- Every text opens as itself. -/
def plainCodec : Codec where
  toLowerCase := id
  keyLength := String.length
  openMsg ciphertext _ _ _ _ := .ok ciphertext

def dmFrame (id : String) : MsgFrame :=
  { id, sender := "a", peer := some "me", channel := none, ciphertext := id, ts := 0 }

def senderInfo : PeerInfo := ⟨"a", "", "key", none, none⟩

/-- The key comes with nothing behind it. -/
theorem inbox_inOrder_apart :
    InOrder ((create .dshPlugin plainCodec "" ∅).run
      [.frames [.msg (dmFrame "1"), .agentInfo senderInfo], .frames [.msg (dmFrame "2")]]).inbox :=
  inbox_inOrder .dshPlugin plainCodec "" ∅ _
    ⟨fun fs h => by cases h; decide +kernel, fun fs h => by cases h; decide +kernel, trivial⟩

/-- A message right behind the key of its sender overtakes the one that waited for the key. -/
theorem not_inbox_inOrder_together :
    ¬ InOrder ((create .dshPlugin plainCodec "" ∅).run
      [.frames [.msg (dmFrame "1")],
        .frames [.agentInfo senderInfo, .msg (dmFrame "2")]]).inbox := by
  have hinbox : ((create .dshPlugin plainCodec "" ∅).run
      [.frames [.msg (dmFrame "1")],
        .frames [.agentInfo senderInfo, .msg (dmFrame "2")]]).inbox = [(1, "a"), (0, "a")] := by
    decide +kernel
  rw [hinbox]
  intro h
  have hlt := (List.pairwise_cons.mp h).1 (0, "a") List.mem_cons_self rfl
  exact absurd hlt (by decide)

end Receiver

end Dap
