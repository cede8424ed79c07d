import Dap.Adapter.InviteRuns
import Dap.Adapter.PluginInvites

/-! What every run of the dsh plugin does to its pending invites, and when either adapter consumes
one (`adapters/dsh-plugin/src/index.ts`). -/
namespace Dap
namespace Plugin

variable {seen : Seen} {s t : Plugin} {k : ℕ}

/-! ### The delivery pass -/

theorem mem_onlineFor {p : PendingInvite} {agents : List PresenceAgent} {a : PresenceAgent}
    (h : a ∈ s.onlineFor p agents) : a ∈ agents ∧ a.agentId ≠ s.client.agentId ∧
      a.name.map s.codec.toLowerCase = some (s.codec.toLowerCase p.name) := by
  simpa [onlineFor] using h

theorem deliverFrom_inv {agents : List PresenceAgent} {n : ℕ} (h : Inv seen 1 s)
    (hroster : seen.rosters agents) (hkeys : (s.deliverFrom agents n).seesKeys seen) :
    Inv seen 0 (s.deliverFrom agents n) := by
  induction n with
  | zero => exact endPass_inv h
  | succ i ih =>
    rw [deliverFrom] at hkeys ⊢
    cases hp : s.pendingInvites[i]? with
    | none => exact endPass_inv h
    | some p =>
      simp only [hp] at hkeys ⊢
      split at hkeys
      next agent hagent =>
        have hmem : agent ∈ s.onlineFor p agents := by simp [hagent]
        obtain ⟨hmem, -, hname⟩ := mem_onlineFor hmem
        apply invite_inv (w := .pass i agents) h _ hkeys
        intro d hd
        obtain rfl := Option.mem_some_iff.mp hd
        exact ⟨hroster, p, hp, rfl, agents, hroster, agent, hmem, rfl, hname⟩
      next => exact ih hkeys

theorem deliverFrom_listed (s : Plugin) (agents : List PresenceAgent) (n : ℕ) :
    (s.deliverFrom agents n).listed = s.listed := by
  induction n with
  | zero => rfl
  | succ i ih =>
    rw [deliverFrom]
    split
    · rfl
    · split
      · exact invite_listed _ _ _ _
      · exact ih

/-- The list once one of its invites is delivered. -/
def invitedState (s : Plugin) (i : ℕ) : Plugin := s.setPendingInvites (s.pendingInvites.eraseIdx i)

theorem invited_inv {i : ℕ} (h : Inv seen 1 s) : Inv seen 1 (s.invitedState i) := by
  obtain ⟨hflows, hreturns⟩ := h.alone
  refine ⟨h.room, ?_, h.carries, ?_⟩
  · intro f hf d hd
    rw [hflows f hf] at hd
    nomatch hd
  · intro ret hret
    change ret ∈ s.returns at hret
    rw [hreturns] at hret
    nomatch hret

theorem pollPending_spec (h : Inv seen 0 s) :
    Inv seen 0 s.pollPending ∧ s.pollPending.listed = s.listed := by
  unfold pollPending
  split
  · exact ⟨h, rfl⟩
  next hidle =>
    simp only [Bool.or_eq_true, not_or] at hidle
    obtain ⟨⟨hoff, -⟩, -⟩ := hidle
    have hroom := h.room
    rw [if_neg hoff] at hroom
    have hopened : Inv seen 1 { s with delivering := true, client := s.client.presence } := by
      refine ⟨?_, h.fits, h.carries, h.returned⟩
      show s.passes + 1 ≤ 1
      omega
    have hparked := hopened.park (k := 0) (f := .deliver s.client.calls.length)
      (fun d hd => nomatch hd) trivial
    exact ⟨hparked, rfl⟩

/-! ### Arming -/

/-- A new entry is appended, and the file has the list. -/
def Arms (s t : Plugin) : Prop :=
  ∃ p, t.listed = (s.pendingInvites ++ [p], s.pendingInvites ++ [p], s.codec)

theorem append_inv (h : Inv seen 0 s) (p : PendingInvite) :
    Inv seen 0 (s.setPendingInvites (s.pendingInvites ++ [p])) := by
  have hstays : ∀ {i : ℕ} {q : PendingInvite}, s.pendingInvites[i]? = some q →
      (s.pendingInvites ++ [p])[i]? = some q := by
    intro i q hq
    rw [List.getElem?_append_left (List.getElem?_eq_some_iff.mp hq).1]
    exact hq
  refine ⟨h.room, ?_, h.carries, ?_⟩
  · intro f hf d hd
    obtain ⟨hroster, q, hq, hchannel, hnamed⟩ := h.fits f hf d hd
    exact ⟨hroster, q, hstays hq, hchannel, hnamed⟩
  · intro ret hret
    obtain ⟨hroster, q, hq, hsent⟩ := h.returned ret hret
    exact ⟨hroster, q, hstays hq, hsent⟩

theorem arm_spec (h : Inv seen 0 s) (op : ℕ) (who channel : String) :
    Inv seen 0 (s.arm op who channel) ∧
      ((s.arm op who channel).listed = s.listed ∨ s.Arms (s.arm op who channel)) := by
  obtain ⟨hensured, hlisted⟩ := ensureChannel_spec h channel
  unfold arm
  cases hchannel : s.ensureChannel channel with
  | mk u threw =>
    rw [hchannel] at hensured hlisted
    cases threw with
    | true => exact ⟨hensured.congr rfl rfl rfl rfl, .inl hlisted⟩
    | false =>
      dsimp only
      split
      next =>
        obtain ⟨hpolled, hsame⟩ := pollPending_spec hensured
        exact ⟨hpolled.congr rfl rfl rfl rfl, .inl (hsame.trans hlisted)⟩
      next =>
        obtain ⟨hpolled, hsame⟩ := pollPending_spec (append_inv hensured ⟨who, channel⟩)
        refine ⟨hpolled.congr rfl rfl rfl rfl, .inr ⟨⟨who, channel⟩, hsame.trans ?_⟩⟩
        simp only [listed, Prod.mk.injEq] at hlisted
        obtain ⟨hpending, -, hcodec⟩ := hlisted
        rw [← hpending, ← hcodec]
        rfl

theorem inviteNamed_spec {op : ℕ} {who channel : String} {agents : List PresenceAgent}
    (h : Inv seen 0 s) (hkeys : (s.inviteNamed op who channel agents).seesKeys seen) :
    Inv seen 0 (s.inviteNamed op who channel agents) ∧
      ((s.inviteNamed op who channel agents).listed = s.listed ∨
        s.Arms (s.inviteNamed op who channel agents)) := by
  unfold inviteNamed at hkeys ⊢
  split at hkeys
  · exact arm_spec h op who channel
  · have hnone : Fits seen s none := fun d hd => nomatch hd
    exact ⟨invite_inv (w := .caller op) h hnone hkeys, .inl (invite_listed _ _ _ _)⟩
  · exact ⟨h.congr rfl rfl rfl rfl, .inl rfl⟩

/-! ### Steps -/

/-- A pass that has sent the invite of its entry goes on, and exactly that entry goes. -/
def Delivers (seen : Seen) (s t : Plugin) (p : PendingInvite) : Prop :=
  ∃ ret ∈ s.returns, ∃ id, ret.result = .ok id ∧ p.SentBy seen s.codec id ∧
    s.pendingInvites[ret.i]? = some p ∧
      t.listed = (s.pendingInvites.eraseIdx ret.i, s.pendingInvites.eraseIdx ret.i, s.codec)

/-- What a step does to the list of pending invites. -/
inductive Change (seen : Seen) (s t : Plugin) : Prop
  | same (h : t.listed = s.listed)
  | armed (h : s.Arms t)
  | delivered (p : PendingInvite) (h : Delivers seen s t p)

/-- A flow that goes on with `a` writes the invite it is for. -/
def writes (s : Plugin) (a : PluginAnswer) : PluginFlow → Bool
  | .ready recipient text xPub w =>
    (w.delivery recipient).isSome && s.isOpen && s.seals text recipient xPub &&
      match a with
      | .failed _ => false
      | _ => true
  | _ => false

/-- The step writes the invite of a pending entry to the socket. -/
def writesInvite (s : Plugin) : PluginOpEvent → Bool
  | .flow n a =>
    match s.flows[n]? with
    | none => false
    | some f => s.writes a f
  | _ => false

/-- What is there before and after a step, and what the step sends, is seen. -/
structure Sees (seen : Seen) (s : Plugin) (e : PluginOpEvent) : Prop where
  keys : (s.step e).seesKeys seen
  rosters : ∀ r agents, (r, .ok agents) ∈ s.client.settled → seen.rosters agents
  seals : s.seesSeals seen
  frames : s.writesInvite e = true → s.seesFrame (s.step e) seen

theorem settled_of_lookup {c : PluginClient} {r : ℕ} {o : PluginSettlement}
    (h : c.settled.lookup r = some o) : (r, o) ∈ c.settled := by
  obtain ⟨l, l', hl, -⟩ := List.lookup_eq_some_iff.mp h
  rw [hl]
  simp

theorem resume_inv {f : PluginFlow} {a : PluginAnswer}
    (h : Inv seen (if f.isPass then 1 else 0) s) (hfits : Fits seen s f.delivery)
    (hcarries : f.Carries seen) (hseals : s.seesSeals seen)
    (hrosters : ∀ r agents, (r, .ok agents) ∈ s.client.settled → seen.rosters agents)
    (hframe : s.writes a f = true → s.seesFrame (s.resume f a) seen)
    (hkeys : (s.resume f a).seesKeys seen) : Inv seen 0 (s.resume f a) := by
  cases f with
  | named r op who channel =>
    unfold resume at hkeys ⊢
    dsimp only at hkeys ⊢
    cases hsettled : s.client.settled.lookup r with
    | none => exact h.park (f := .named r op who channel) hfits trivial
    | some o =>
      cases o with
      | error msg => exact h.congr rfl rfl rfl rfl
      | ok agents =>
        simp only [hsettled] at hkeys
        exact (inviteNamed_spec h hkeys).1
  | deliver r =>
    unfold resume at hkeys ⊢
    dsimp only at hkeys ⊢
    cases hsettled : s.client.settled.lookup r with
    | none => exact h.park (k := 0) (f := .deliver r) hfits trivial
    | some o =>
      cases o with
      | error msg => exact endPass_inv h
      | ok agents =>
        simp only [hsettled] at hkeys
        exact deliverFrom_inv h (hrosters r agents (settled_of_lookup hsettled)) hkeys
  | info recipient text cached w =>
    cases cached with
    | some p => exact dmInfo_inv h hfits hcarries
    | none =>
      cases a with
      | info p => exact dmInfo_inv h hfits hcarries
      | failed msg => exact dmFailed_inv h hfits
      | ready =>
        rw [← Nat.zero_add (ite _ _ _)] at h
        exact h.park (f := .info recipient text none w) hfits hcarries
  | ready recipient text xPub w =>
    cases a with
    | failed msg => exact dmFailed_inv h hfits
    | info p | ready =>
      apply dmReady_inv h hfits hcarries hseals
      intro hpass hopen hseal
      apply hframe
      simp [writes, hpass, hopen, hseal]
  | send op channel text ch =>
    cases a with
    | failed msg => exact h.congr rfl rfl rfl rfl
    | info p | ready => exact (sendReady_spec h).1

theorem resume_listed {f : PluginFlow} {a : PluginAnswer}
    (h : Inv seen (if f.isPass then 1 else 0) s) (hkeys : (s.resume f a).seesKeys seen) :
    (s.resume f a).listed = s.listed ∨ s.Arms (s.resume f a) := by
  cases f with
  | named r op who channel =>
    unfold resume at hkeys ⊢
    dsimp only at hkeys ⊢
    cases hsettled : s.client.settled.lookup r with
    | none => exact .inl rfl
    | some o =>
      cases o with
      | error msg => exact .inl rfl
      | ok agents =>
        simp only [hsettled] at hkeys
        exact (inviteNamed_spec h hkeys).2
  | deliver r =>
    unfold resume
    dsimp only
    cases s.client.settled.lookup r with
    | none => exact .inl rfl
    | some o =>
      cases o with
      | error msg => exact .inl rfl
      | ok agents => exact .inl (deliverFrom_listed _ _ _)
  | info recipient text cached w =>
    cases cached with
    | some p => exact .inl (dmInfo_listed _ _ _ _ _)
    | none =>
      cases a with
      | info p => exact .inl (dmInfo_listed _ _ _ _ _)
      | failed msg => exact .inl (dmFailed_listed _ _ _).1
      | ready => exact .inl rfl
  | ready recipient text xPub w =>
    cases a with
    | failed msg => exact .inl (dmFailed_listed _ _ _).1
    | info p | ready => exact .inl (dmReady_listed _ _ _ _ _)
  | send op channel text ch =>
    cases a with
    | failed msg => exact .inl rfl
    | info p | ready => exact .inl (sendReady_spec h).2

/-- The flow at an index, taken out to be resumed. -/
def takeFlow (s : Plugin) (n : ℕ) : Plugin := { s with flows := s.flows.eraseIdx n }

theorem takeFlow_inv {n : ℕ} {f : PluginFlow} (h : Inv seen 0 s) (hn : s.flows[n]? = some f) :
    Inv seen (if f.isPass then 1 else 0) (s.takeFlow n) := by
  have hcount : s.passes = (s.takeFlow n).passes + if f.isPass then 1 else 0 := by
    obtain ⟨hlt, hget⟩ := List.getElem?_eq_some_iff.mp hn
    have hperm := (List.getElem_cons_eraseIdx_perm hlt).countP_eq PluginFlow.isPass
    rw [List.countP_cons, hget] at hperm
    unfold passes
    rw [← hperm]
    exact Nat.add_right_comm _ _ _
  have hroom := h.room
  rw [hcount] at hroom
  refine ⟨hroom, ?_, ?_, h.returned⟩
  · exact fun f hf => h.fits f (List.mem_of_mem_eraseIdx hf)
  · exact fun f hf => h.carries f (List.mem_of_mem_eraseIdx hf)

theorem runFlow_spec {n : ℕ} {a : PluginAnswer} (h : Inv seen 0 s)
    (hsees : Sees seen s (.flow n a)) : Inv seen 0 (s.runFlow n a) ∧
      ((s.runFlow n a).listed = s.listed ∨ s.Arms (s.runFlow n a)) := by
  obtain ⟨hkeys, hrosters, hseals, hframe⟩ := hsees
  simp only [step] at hkeys hframe
  unfold runFlow at hkeys hframe ⊢
  cases hn : s.flows[n]? with
  | none => exact ⟨h, .inl rfl⟩
  | some f =>
    simp only [writesInvite, hn] at hframe hkeys ⊢
    have hmem := List.mem_of_getElem? hn
    have htaken := takeFlow_inv h hn
    refine ⟨resume_inv htaken (h.fits f hmem) (h.carries f hmem) hseals hrosters hframe hkeys, ?_⟩
    rcases resume_listed (a := a) htaken hkeys with hsame | harms
    · exact .inl hsame
    · exact .inr harms

theorem takeReturn_inv {n : ℕ} {ret : PluginReturn} (h : Inv seen 0 s)
    (hn : s.returns[n]? = some ret) : Inv seen 1 { s with returns := s.returns.eraseIdx n } := by
  have hlt := (List.getElem?_eq_some_iff.mp hn).1
  have hcount : s.passes = ({ s with returns := s.returns.eraseIdx n } : Plugin).passes + 1 := by
    change _ + s.returns.length = _ + (s.returns.eraseIdx n).length + 1
    rw [List.length_eraseIdx_of_lt hlt, Nat.add_assoc, Nat.sub_add_cancel (by omega)]
  have hroom := h.room
  rw [hcount] at hroom
  refine ⟨hroom, h.fits, h.carries, ?_⟩
  exact fun ret' hret' => h.returned ret' (List.mem_of_mem_eraseIdx hret')

theorem runPass_spec {n : ℕ} (h : Inv seen 0 s) (hkeys : (s.runPass n).seesKeys seen) :
    Inv seen 0 (s.runPass n) ∧ Change seen s (s.runPass n) := by
  unfold runPass at hkeys ⊢
  cases hn : s.returns[n]? with
  | none => exact ⟨h, .same rfl⟩
  | some ret =>
    have hmem := List.mem_of_getElem? hn
    have htaken := takeReturn_inv h hn
    obtain ⟨hroster, p, hp, hsent⟩ := h.returned ret hmem
    simp only [hn, passOn] at hkeys ⊢
    cases hresult : ret.result with
    | error e =>
      rw [hresult] at hkeys
      exact ⟨deliverFrom_inv htaken hroster hkeys, .same (deliverFrom_listed _ _ _)⟩
    | ok id =>
      rw [hresult] at hkeys
      refine ⟨deliverFrom_inv (invited_inv htaken) hroster hkeys, .delivered p ?_⟩
      exact ⟨ret, hmem, id, hresult, hsent id hresult, hp, (deliverFrom_listed _ _ _).trans rfl⟩

/-- `dap_connect` writes other fields of the config file. -/
theorem connect_spec (h : Inv seen 0 s) (op : ℕ) (url : Option String)
    (keys : Option (String × String)) (name channel : Option String) :
    Inv seen 0 (s.connect op url keys name channel) ∧
      (s.connect op url keys name channel).listed = s.listed := by
  unfold connect
  split
  · exact ⟨h.congr rfl rfl rfl rfl, rfl⟩
  · dsimp only
    cases optStr channel with
    | none => exact ⟨h.congr rfl rfl rfl rfl, rfl⟩
    | some ch =>
      have hpersisted : Inv seen 0
          { s with
            config := some (persistDapConfig s.config { url, name, channels := some [ch] })
            url := (optStr url).getD s.url } := h.congr rfl rfl rfl rfl
      obtain ⟨hensured, hlisted⟩ := ensureChannel_spec hpersisted ch
      dsimp only [Option.elim_some]
      split
      next u hu =>
        rw [show u = _ from (congrArg Prod.fst hu).symm]
        exact ⟨hensured.congr rfl rfl rfl rfl, hlisted⟩
      next u hu =>
        rw [show u = _ from (congrArg Prod.fst hu).symm]
        exact ⟨hensured.congr rfl rfl rfl rfl, hlisted⟩

/-- Calls change no list before their first `await`. -/
theorem call_spec {op : PluginOp} (h : Inv seen 0 s) (hkeys : (s.call op).seesKeys seen) :
    Inv seen 0 (s.call op) ∧ (s.call op).listed = s.listed := by
  have hcount : Inv seen 0 { s with ops := s.ops + 1 } := h.congr rfl rfl rfl rfl
  have hnone : ∀ t : Plugin, Fits seen t none := by
    intro t d hd
    cases hd
  cases op with
  | ensureChannel name => exact ensureChannel_spec hcount name
  | invite recipient channel =>
    exact ⟨invite_inv (w := .caller s.ops) hcount (hnone s) hkeys, invite_listed _ _ _ _⟩
  | dm recipient text =>
    exact ⟨dm_inv (w := .caller s.ops) hcount (hnone s) trivial, (dm_listed _ _ _ _).1⟩
  | send channel text =>
    unfold call
    dsimp only
    split
    · exact ⟨hcount.congr rfl rfl rfl rfl, rfl⟩
    · split
      next ch hch =>
        have hparked := hcount.park (k := 0) (f := .send s.ops channel text ch) (hnone _) trivial
        exact ⟨hparked, rfl⟩
      next =>
        have hcreated : Inv seen 0 ({ s with ops := s.ops + 1 }.createChannel channel).1 :=
          h.congr rfl rfl rfl rfl
        have hparked := hcreated.park (k := 0)
          (f := .send s.ops channel text ⟨channel, (s.newKeypair s.created).pub,
            some (s.newKeypair s.created).priv⟩) (hnone _) trivial
        exact ⟨hparked, rfl⟩
  | dapInvite who channel =>
    unfold call at hkeys ⊢
    dsimp only at hkeys ⊢
    split at hkeys
    next hdown =>
      rw [if_pos hdown]
      exact ⟨hcount.congr rfl rfl rfl rfl, rfl⟩
    next hup =>
      rw [if_neg hup]
      split at hkeys
      next hid =>
        rw [if_pos hid]
        exact ⟨invite_inv (w := .caller s.ops) hcount (hnone s) hkeys, invite_listed _ _ _ _⟩
      next hid =>
        rw [if_neg hid]
        have hasked : Inv seen 0 { s with ops := s.ops + 1, client := s.client.presence } :=
          h.congr rfl rfl rfl rfl
        have hparked := hasked.park (k := 0)
          (f := .named s.client.calls.length s.ops who ((optStr channel).getD "general"))
          (hnone _) trivial
        exact ⟨hparked, rfl⟩
  | connect url keys name channel => exact connect_spec hcount s.ops url keys name channel

/-- A state that differs in the client and the agents it knows alone. -/
def SameButClient (s t : Plugin) : Prop := ∃ client known, t = { s with client, known }

theorem SameButClient.inv (h : s.SameButClient t) (hs : Inv seen k s) :
    Inv seen k t ∧ t.listed = s.listed := by
  obtain ⟨client, known, rfl⟩ := h
  exact ⟨hs.congr rfl rfl rfl rfl, rfl⟩

theorem foldl_join_sameButClient (l : List (String × ChannelKey)) (s : Plugin) :
    s.SameButClient (l.foldl (fun s e => (s.join e.2.name e.2.pub).1) s) := by
  induction l generalizing s with
  | nil => exact ⟨s.client, s.known, rfl⟩
  | cons e l ih =>
    obtain ⟨client, known, hclient⟩ := ih (s.join e.2.name e.2.pub).1
    rw [List.foldl_cons, hclient]
    exact ⟨client, known, rfl⟩

theorem clientStep_sameButClient (s : Plugin) (e : PluginEvent) :
    s.SameButClient (s.clientStep e) := by
  have hwelcome : s.SameButClient s.onWelcome := by
    unfold onWelcome
    dsimp only
    obtain ⟨client, known, hclient⟩ := foldl_join_sameButClient s.channels.entries
      { s with
        client := { s.client with
          welcomed := true
          welcomes := s.client.welcomes + 1 }.post .flush }
    rw [hclient]
    exact ⟨client.warmUpEcho 0, known, rfl⟩
  unfold clientStep
  split
  · split
    · exact hwelcome
    · exact ⟨s.client, s.known, rfl⟩
  next i info =>
    split
    · exact ⟨s.client, s.known.set info.agentId info, rfl⟩
    · exact ⟨s.client, s.known, rfl⟩
  next agentId name => exact ⟨s.client.retarget agentId name, ∅, rfl⟩
  next => exact ⟨s.client.step e, s.known, rfl⟩

theorem step_spec {e : PluginOpEvent} (h : Inv seen 0 s) (hsees : Sees seen s e) :
    Inv seen 0 (s.step e) ∧ Change seen s (s.step e) := by
  cases e with
  | client e =>
    obtain ⟨hinv, hlisted⟩ := (s.clientStep_sameButClient e).inv h
    exact ⟨hinv, .same hlisted⟩
  | call op =>
    obtain ⟨hinv, hlisted⟩ := call_spec h hsees.keys
    exact ⟨hinv, .same hlisted⟩
  | flow n a =>
    obtain ⟨hinv, hsame | harms⟩ := runFlow_spec h hsees
    · exact ⟨hinv, .same hsame⟩
    · exact ⟨hinv, .armed harms⟩
  | pass n => exact runPass_spec h hsees.keys
  | poll =>
    obtain ⟨hinv, hlisted⟩ := pollPending_spec h
    exact ⟨hinv, .same hlisted⟩
  | chankey name pub priv => exact ⟨h.congr rfl rfl rfl rfl, .same rfl⟩

/-! ### Runs -/

/-- Right after `apply`, when no operation has begun. -/
def Fresh (s : Plugin) : Prop := s.flows = [] ∧ s.returns = [] ∧ s.delivering = false

theorem Fresh.inv (h : s.Fresh) : Inv seen 0 s := by
  obtain ⟨hflows, hreturns, hdelivering⟩ := h
  constructor
  · unfold passes
    rw [hflows, hreturns, hdelivering]
    exact Nat.le_refl 0
  · rw [hflows]
    rintro f ⟨⟩
  · rw [hflows]
    rintro f ⟨⟩
  · rw [hreturns]
    rintro ret ⟨⟩

theorem run_concat (s : Plugin) (es : List PluginOpEvent) (e : PluginOpEvent) :
    s.run (es ++ [e]) = (s.run es).step e := by
  rw [run, List.foldl_concat]
  rfl

/-- What there is in a run. -/
def seenIn (s : Plugin) (es : List PluginOpEvent) : Seen where
  keys channel ch := ∃ pre, pre <+: es ∧ (s.run pre).channels.get channel = some ch
  rosters agents := ∃ pre r, pre <+: es ∧ (r, .ok agents) ∈ (s.run pre).client.settled
  seals text id recipient ciphertext := ∃ pre n xPriv xPub, pre <+: es ∧ id = (s.run pre).msgId n ∧
    (s.run pre).sealMsg n text id recipient xPriv xPub = .ok ciphertext
  frames id f := ∃ pre e socket, pre ++ [e] <+: es ∧ (s.run pre).writesInvite e = true ∧
    id = (s.run pre).msgId (s.run pre).posted ∧
      ((s.run pre).step e).client.sent[(s.run pre).client.sent.length]? = some (socket, f)

theorem sees_seenIn {es pre : List PluginOpEvent} {e : PluginOpEvent} (hpre : pre ++ [e] <+: es) :
    Sees (s.seenIn es) (s.run pre) e := by
  have hbefore : pre <+: es := (List.prefix_append pre [e]).trans hpre
  constructor
  · rw [← run_concat]
    exact fun channel ch hget => ⟨pre ++ [e], hpre, hget⟩
  · exact fun r agents hmem => ⟨pre, r, hbefore, hmem⟩
  · exact fun n text recipient xPriv xPub ciphertext hsealed =>
      ⟨pre, n, xPriv, xPub, hbefore, rfl, hsealed⟩
  · exact fun hwrites socket f hsent => ⟨pre, e, socket, hpre, hwrites, rfl, hsent⟩

theorem run_inv {es : List PluginOpEvent} (h : Inv (s.seenIn es) 0 s) {pre : List PluginOpEvent}
    (hpre : pre <+: es) : Inv (s.seenIn es) 0 (s.run pre) := by
  induction pre using List.reverseRecOn with
  | nil => exact h
  | append_singleton pre e ih =>
    have hbefore : pre <+: es := (List.prefix_append pre [e]).trans hpre
    rw [run_concat]
    exact (step_spec (ih hbefore) (sees_seenIn hpre)).1

/-! ### Consumption -/

/-- An entry stays, in memory and if it was there in the file, unless it is delivered. -/
theorem Change.kept (h : Change seen s t) {p : PendingInvite} (hp : p ∈ s.pendingInvites) :
    (p ∈ t.pendingInvites ∧ (p ∈ s.storedInvites → p ∈ t.storedInvites)) ∨
      Delivers seen s t p := by
  have hmem : ∀ {l l' c}, t.listed = (l, l', c) → p ∈ l → (p ∈ s.storedInvites → p ∈ l') →
      p ∈ t.pendingInvites ∧ (p ∈ s.storedInvites → p ∈ t.storedInvites) := by
    intro l l' c hlisted hl hl'
    simp only [listed, Prod.mk.injEq] at hlisted
    obtain ⟨hpending, hstored, -⟩ := hlisted
    rw [hpending, hstored]
    exact ⟨hl, hl'⟩
  cases h with
  | same h => exact .inl (hmem h hp id)
  | armed h =>
    obtain ⟨q, hlisted⟩ := h
    have hl := List.mem_append_left [q] hp
    exact .inl (hmem hlisted hl fun _ => hl)
  | delivered q h =>
    have hdelivers := h
    obtain ⟨ret, -, id, -, -, hq, hlisted⟩ := h
    rcases Bridge.mem_eraseIdx_or hq hp with hl | rfl
    · exact .inl (hmem hlisted hl fun _ => hl)
    · exact .inr hdelivers

/-- An entry goes, in memory or in the file, only once it was sent in a message that is
`accepted`. -/
def Consumes (accepted : String → Prop) (seen : Seen) (s t : Plugin) : Prop :=
  ∀ p ∈ s.pendingInvites,
    (p ∈ t.pendingInvites ∧ (p ∈ s.storedInvites → p ∈ t.storedInvites)) ∨
      ∃ id, accepted id ∧ p.SentBy seen s.codec id

/-- No invite that a pass writes to the socket is lost on the way or rejected. -/
def NoInviteLost (accepted : String → Prop) (s : Plugin) (es : List PluginOpEvent) : Prop :=
  ∀ pre e, pre ++ [e] <+: es → (s.run pre).writesInvite e = true →
    accepted ((s.run pre).msgId (s.run pre).posted)

theorem consumes_of_noInviteLost {accepted : String → Prop} {es : List PluginOpEvent}
    (h : Inv (s.seenIn es) 0 s) (hlost : s.NoInviteLost accepted es) {pre : List PluginOpEvent}
    {e : PluginOpEvent} (hpre : pre ++ [e] <+: es) :
    Consumes accepted (s.seenIn es) (s.run pre) ((s.run pre).step e) := by
  intro p hp
  have hbefore : pre <+: es := (List.prefix_append pre [e]).trans hpre
  rcases (step_spec (run_inv h hbefore) (sees_seenIn hpre)).2.kept hp with hstays | hdelivers
  · exact .inl hstays
  · obtain ⟨ret, -, id, -, hsent, -⟩ := hdelivers
    have hframes := hsent
    obtain ⟨recipient, text, ciphertext, -, -, -, pre', e', socket, hpre', hwrites, hid, -⟩ :=
      hframes
    refine .inr ⟨id, ?_, hsent⟩
    rw [hid]
    exact hlost pre' e' hpre' hwrites

end Plugin

/-- Either adapter consumes an entry only by delivery while no invite is lost. -/
theorem consumes_only_by_delivery (accepted : String → Prop) :
    (∀ (s : Bridge) (opts : ClientOpts) (env : Env) (now : ℤ)
      (es pre : List OpEvent) (e : OpEvent),
      (s.restart opts env now).NoInviteLost accepted es → pre ++ [e] <+: es →
        ((s.restart opts env now).run pre).Alone e → e.isRestart = false →
          Bridge.Consumes accepted ((s.restart opts env now).seenIn es)
            ((s.restart opts env now).run pre) (((s.restart opts env now).run pre).step e)) ∧
    ∀ (s : Plugin) (es pre : List PluginOpEvent) (e : PluginOpEvent),
      s.Fresh → s.NoInviteLost accepted es → pre ++ [e] <+: es →
        Plugin.Consumes accepted (s.seenIn es) (s.run pre) ((s.run pre).step e) := by
  constructor
  · intro s opts env now es pre e hlost hpre halone hrestart
    exact Bridge.consumes_of_noInviteLost (s.restart_inv opts env now) hlost hpre halone hrestart
  · intro s es pre e hfresh hlost hpre
    exact Plugin.consumes_of_noInviteLost hfresh.inv hlost hpre

/-! ### A pending invite delivered -/

namespace Plugin

def samplePlugin : Plugin where
  client := { agentId := "me", uuid := toString }
  codec := BridgeClient.sampleOpts.codec
  url := BridgeClient.sampleOpts.url
  xPriv := ""
  config := some { invites := some [⟨"bob", "general"⟩] }
  pendingInvites := [⟨"bob", "general"⟩]
  newKeypair n := ⟨"pub" ++ toString n, "priv" ++ toString n⟩
  msgId := toString
  sealMsg _ text _ _ _ _ := .ok text

/-- Bob is pending, comes online and is sent the key of the channel. -/
def bobOnline : List PluginOpEvent :=
  [.client .start, .client (.socket 0 .opened), .client (.socket 0 (.message .welcome)), .poll,
    .client (.socket 0 (.message (.presence (some "1") [⟨"b0b", some "bob", some true, none⟩]))),
    .flow 0 .ready, .flow 0 (.info ⟨"b0b", "", "X", some "bob", some true⟩), .flow 0 .ready,
      .pass 0]

end Plugin

theorem take_of_prefix_concat {α : Type} {l pre : List α} {e : α} (h : pre ++ [e] <+: l) :
    ∃ i < l.length, pre = l.take i ∧ e ∈ l[i]? := by
  obtain ⟨post, rfl⟩ := h
  refine ⟨pre.length, ?_, ?_, ?_⟩ <;> simp

/-- The only message of the run is accepted, and bob's entry goes. -/
theorem consumes_only_by_delivery_bobOnline :
    Bridge.Consumes (· = "0") (Bridge.pollingBridge.seenIn Bridge.bobOnline)
      (Bridge.pollingBridge.run Bridge.bobOnline.dropLast)
      ((Bridge.pollingBridge.run Bridge.bobOnline.dropLast).step (.pass 0)) ∧
    Plugin.Consumes (· = "0") (Plugin.samplePlugin.seenIn Plugin.bobOnline)
      (Plugin.samplePlugin.run Plugin.bobOnline.dropLast)
      ((Plugin.samplePlugin.run Plugin.bobOnline.dropLast).step (.pass 0)) := by
  have hbridge : ∀ i < Bridge.bobOnline.length, ∀ e ∈ Bridge.bobOnline[i]?,
      (Bridge.pollingBridge.run (Bridge.bobOnline.take i)).writesInvite e = true →
        (Bridge.pollingBridge.run (Bridge.bobOnline.take i)).msgId
          (Bridge.pollingBridge.run (Bridge.bobOnline.take i)).posted = "0" := by decide +kernel
  have hplugin : ∀ i < Plugin.bobOnline.length, ∀ e ∈ Plugin.bobOnline[i]?,
      (Plugin.samplePlugin.run (Plugin.bobOnline.take i)).writesInvite e = true →
        (Plugin.samplePlugin.run (Plugin.bobOnline.take i)).msgId
          (Plugin.samplePlugin.run (Plugin.bobOnline.take i)).posted = "0" := by decide +kernel
  constructor
  · apply (consumes_only_by_delivery (· = "0")).1 Bridge.sampleBridge
      { BridgeClient.sampleOpts with invites := true } {} 0
    · intro pre e hpre hwrites
      obtain ⟨i, hi, rfl, he⟩ := take_of_prefix_concat hpre
      exact hbridge i hi e he hwrites
    · simp [Bridge.bobOnline]
    · exact trivial
    · rfl
  · apply (consumes_only_by_delivery (· = "0")).2
    · exact ⟨rfl, rfl, rfl⟩
    · intro pre e hpre hwrites
      obtain ⟨i, hi, rfl, he⟩ := take_of_prefix_concat hpre
      exact hplugin i hi e he hwrites
    · simp [Plugin.bobOnline]

end Dap
