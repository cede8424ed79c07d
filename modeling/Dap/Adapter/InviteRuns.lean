import Dap.Adapter.PendingInvites

/-! What every run of the bridge keeps of its pending invites, and when one is consumed
(`adapters/mcp-bridge/src/client.ts`). -/
namespace Dap

def OpEvent.isRestart : OpEvent → Bool
  | .restart _ _ _ => true
  | _ => false

namespace Bridge

variable {seen : Seen} {s t : Bridge} {k : ℕ}

/-! ### Steps -/

/-- No other process writes the invites of the config file. -/
def Alone (s : Bridge) : OpEvent → Prop
  | .client e => s.client.KeepsInvites e
  | _ => True

/-- What is there before and after a step, and what the step sends, is seen. -/
structure Sees (seen : Seen) (s : Bridge) (e : OpEvent) : Prop where
  keys : (s.step e).seesKeys seen
  rosters : ∀ r agents, (r, .agents agents) ∈ s.client.settled → seen.rosters agents
  seals : s.seesSeals seen
  frames : s.writesInvite e = true → s.seesFrame (s.step e) seen

theorem passOf_mem {c : BridgeClient} {e : BridgeEvent} {agents : List PresenceAgent}
    (h : c.passOf e = some agents) : ∃ r, (r, .agents agents) ∈ c.settled := by
  unfold BridgeClient.passOf at h
  split at h
  · split at h
    next r _ =>
      split at h
      next as hsettled =>
        obtain rfl := Option.some.inj h
        obtain ⟨l, l', hl, -⟩ := List.lookup_eq_some_iff.mp hsettled
        exact ⟨r, by simp [hl]⟩
      · nomatch h
    · nomatch h
  · nomatch h

theorem clientStep_spec {e : BridgeEvent} (h : Inv seen 0 s)
    (hdrives : BridgeClient.drives e = false) (halone : s.client.KeepsInvites e)
    (hrosters : ∀ r agents, (r, .agents agents) ∈ s.client.settled → seen.rosters agents)
    (hkeys : (s.clientStep e).seesKeys seen) :
    Inv seen 0 (s.clientStep e) ∧ (s.clientStep e).listed = s.listed := by
  have hlisted := BridgeClient.step_listed hdrives halone
  have hnext : Inv seen 0 { s with client := s.client.step e } :=
    h.congr hlisted (fun _ hj => BridgeClient.step_room hdrives hj) rfl rfl
  unfold clientStep at hkeys ⊢
  dsimp only at hkeys ⊢
  cases hpass : s.client.passOf e with
  | none =>
    cases hchankey : s.client.chankeyOf e with
    | none => exact ⟨hnext, hlisted⟩
    | some ch =>
      obtain ⟨name, pub, priv⟩ := ch
      cases priv with
      | none => exact ⟨hnext, hlisted⟩
      | some priv => exact ⟨hnext.congr rfl (fun _ hj => hj) rfl rfl, hlisted⟩
  | some agents =>
    obtain ⟨r, hmem⟩ := passOf_mem hpass
    rw [hpass] at hkeys
    have hroom := BridgeClient.step_of_passOf hpass h.room
    have hheld : Inv seen 1 { s with client := s.client.step e } :=
      ⟨hroom, hnext.fits, hnext.carries, hnext.returned⟩
    exact ⟨deliverFrom_inv hheld (hrosters r agents hmem) hkeys,
      (deliverFrom_listed _ _ _).trans hlisted⟩

/-- Another process writes the files. -/
theorem outside_inv (h : Inv seen 0 s) (env : Env) (config : Option DapFileConfig) (now : ℤ) :
    Inv seen 0 (s.clientStep (.outside env config now)) :=
  ⟨h.room, h.fits, h.carries, h.returned⟩

theorem restart_inv (s : Bridge) (opts : ClientOpts) (env : Env) (now : ℤ) :
    Inv seen 0 (s.restart opts env now) :=
  ⟨Nat.le_refl 0, by rintro e ⟨⟩, by rintro e ⟨⟩, by rintro ret ⟨⟩⟩

theorem step_spec {e : OpEvent} (h : Inv seen 0 s) (hsees : Sees seen s e) :
    Inv seen 0 (s.step e) ∧ (s.Alone e → e.isRestart = false → Change seen s (s.step e)) := by
  cases e with
  | client e =>
    have hkeys := hsees.keys
    simp only [step] at hkeys ⊢
    split at hkeys
    next hdrives =>
      rw [if_pos hdrives]
      exact ⟨h, fun _ _ => .same rfl⟩
    next hdrives =>
      rw [if_neg hdrives]
      have hspec : s.client.KeepsInvites e → Inv seen 0 (s.clientStep e) ∧
          (s.clientStep e).listed = s.listed :=
        fun halone => clientStep_spec h (by simpa using hdrives) halone hsees.rosters hkeys
      refine ⟨?_, fun halone _ => .same (hspec halone).2⟩
      cases e with
      | outside env config now => exact outside_inv h env config now
      | _ => exact (hspec trivial).1
  | call op =>
    obtain ⟨hinv, hlisted⟩ := call_spec h hsees.keys
    exact ⟨hinv, fun _ _ => .same hlisted⟩
  | flow n =>
    obtain ⟨hinv, hsame | harms⟩ := runFlow_spec h hsees.seals hsees.frames hsees.keys
    · exact ⟨hinv, fun _ _ => .same hsame⟩
    · exact ⟨hinv, fun _ _ => .armed harms⟩
  | pass n =>
    obtain ⟨hinv, hchange⟩ := runPass_spec h hsees.keys
    exact ⟨hinv, fun _ _ => hchange⟩
  | restart opts env now =>
    exact ⟨restart_inv s opts env now, fun _ hrestart => nomatch hrestart⟩

/-- No two entries agree, in memory or in the config file. -/
def Distinct (s : Bridge) : Prop :=
  DistinctInvites s.client.codec s.pendingInvites ∧
    DistinctInvites s.client.codec s.client.storedInvites

theorem distinct_of_listed {l : List PendingInvite}
    (ht : t.listed = (l, l, s.client.codec)) (hl : DistinctInvites s.client.codec l) :
    t.Distinct := by
  simp only [listed, BridgeClient.listed, Prod.mk.injEq] at ht
  obtain ⟨hpending, hstored, hcodec⟩ := ht
  unfold Distinct pendingInvites
  rw [hpending, hstored, hcodec]
  exact ⟨hl, hl⟩

theorem Change.distinct (h : Change seen s t) (hs : s.Distinct) : t.Distinct := by
  cases h with
  | same hlisted =>
    simp only [listed, BridgeClient.listed, Prod.mk.injEq] at hlisted
    obtain ⟨hpending, hstored, hcodec⟩ := hlisted
    unfold Distinct pendingInvites at hs ⊢
    rw [hpending, hstored, hcodec]
    exact hs
  | armed harms =>
    obtain ⟨p, hfresh, hlisted⟩ := harms
    apply distinct_of_listed hlisted
    apply List.pairwise_append.mpr
    refine ⟨hs.1, List.pairwise_singleton _ _, ?_⟩
    intro q hq p' hp'
    rw [List.mem_singleton.mp hp']
    exact hfresh q hq
  | delivered p hdelivers =>
    obtain ⟨ret, -, r, -, -, -, hlisted⟩ := hdelivers
    exact distinct_of_listed hlisted (hs.1.sublist (List.eraseIdx_sublist _ _))

theorem restart_distinct (opts : ClientOpts) (env : Env) (now : ℤ)
    (h : DistinctInvites s.client.codec s.client.storedInvites) :
    (s.restart opts env now).Distinct := by
  refine ⟨?_, h⟩
  show DistinctInvites s.client.codec
    (if opts.invites then (readDapConfig s.client.config).invites.getD [] else [])
  split
  · exact h
  · exact List.Pairwise.nil

/-! ### Runs -/

theorem run_concat (s : Bridge) (es : List OpEvent) (e : OpEvent) :
    s.run (es ++ [e]) = (s.run es).step e := by
  rw [run, List.foldl_concat]
  rfl

/-- What there is in a run. -/
def seenIn (s : Bridge) (es : List OpEvent) : Seen where
  keys channel ch := ∃ pre, pre <+: es ∧ (s.run pre).client.channels.get channel = some ch
  rosters agents := ∃ pre r, pre <+: es ∧ (r, .agents agents) ∈ (s.run pre).client.settled
  seals text id recipient ciphertext := ∃ pre n xPriv xPub, pre <+: es ∧ id = (s.run pre).msgId n ∧
    (s.run pre).sealMsg n text id recipient xPriv xPub = .ok ciphertext
  frames id f := ∃ pre e socket, pre ++ [e] <+: es ∧ (s.run pre).writesInvite e = true ∧
    id = (s.run pre).msgId (s.run pre).posted ∧
      ((s.run pre).step e).client.sent[(s.run pre).client.sent.length]? = some (socket, f)

/-- No other process writes the invites during the run. -/
def RunsAlone (s : Bridge) (es : List OpEvent) : Prop :=
  ∀ pre e, pre ++ [e] <+: es → (s.run pre).Alone e

theorem sees_seenIn {es pre : List OpEvent} {e : OpEvent} (hpre : pre ++ [e] <+: es) :
    Sees (s.seenIn es) (s.run pre) e := by
  have hbefore : pre <+: es := (List.prefix_append pre [e]).trans hpre
  constructor
  · rw [← run_concat]
    exact fun channel ch hget => ⟨pre ++ [e], hpre, hget⟩
  · exact fun r agents hmem => ⟨pre, r, hbefore, hmem⟩
  · exact fun n text recipient xPriv xPub ciphertext hsealed =>
      ⟨pre, n, xPriv, xPub, hbefore, rfl, hsealed⟩
  · exact fun hwrites socket f hsent => ⟨pre, e, socket, hpre, hwrites, rfl, hsent⟩

theorem run_inv {es : List OpEvent} (h : Inv (s.seenIn es) 0 s) {pre : List OpEvent}
    (hpre : pre <+: es) : Inv (s.seenIn es) 0 (s.run pre) := by
  induction pre using List.reverseRecOn with
  | nil => exact h
  | append_singleton pre e ih =>
    have hbefore : pre <+: es := (List.prefix_append pre [e]).trans hpre
    rw [run_concat]
    exact (step_spec (ih hbefore) (sees_seenIn hpre)).1

theorem run_change {es : List OpEvent} (h : Inv (s.seenIn es) 0 s) {pre : List OpEvent}
    {e : OpEvent} (hpre : pre ++ [e] <+: es) (halone : (s.run pre).Alone e)
    (hrestart : e.isRestart = false) :
    Change (s.seenIn es) (s.run pre) ((s.run pre).step e) := by
  have hbefore : pre <+: es := (List.prefix_append pre [e]).trans hpre
  exact (step_spec (run_inv h hbefore) (sees_seenIn hpre)).2 halone hrestart

theorem run_distinct {es : List OpEvent} (h : Inv (s.seenIn es) 0 s) (hs : s.Distinct)
    (halone : s.RunsAlone es) {pre : List OpEvent} (hpre : pre <+: es) : (s.run pre).Distinct := by
  induction pre using List.reverseRecOn with
  | nil => exact hs
  | append_singleton pre e ih =>
    have hbefore : pre <+: es := (List.prefix_append pre [e]).trans hpre
    rw [run_concat]
    cases hrestart : e.isRestart with
    | false => exact (run_change h hpre (halone pre e hpre) hrestart).distinct (ih hbefore)
    | true =>
      cases e with
      | restart opts env now => exact restart_distinct opts env now (ih hbefore).2
      | _ => nomatch hrestart

/-! ### What every run keeps -/

theorem mem_eraseIdx_or {α : Type} {l : List α} {i : ℕ} {x y : α} (hi : l[i]? = some y)
    (hx : x ∈ l) : x ∈ l.eraseIdx i ∨ x = y := by
  obtain ⟨hlt, rfl⟩ := List.getElem?_eq_some_iff.mp hi
  have hperm := (List.getElem_cons_eraseIdx_perm hlt).mem_iff.mpr hx
  rcases List.mem_cons.mp hperm with rfl | hmem
  · exact .inr rfl
  · exact .inl hmem

/-- An entry stays, in memory and if it was there in the file, unless it is delivered. -/
theorem Change.kept (h : Change seen s t) {p : PendingInvite} (hp : p ∈ s.pendingInvites) :
    (p ∈ t.pendingInvites ∧ (p ∈ s.client.storedInvites → p ∈ t.client.storedInvites)) ∨
      Delivers seen s t p := by
  have hmem : ∀ {l l' c}, t.listed = (l, l', c) → p ∈ l → (p ∈ s.client.storedInvites → p ∈ l') →
      p ∈ t.pendingInvites ∧ (p ∈ s.client.storedInvites → p ∈ t.client.storedInvites) := by
    intro l l' c hlisted hl hl'
    simp only [listed, BridgeClient.listed, Prod.mk.injEq] at hlisted
    obtain ⟨hpending, hstored, -⟩ := hlisted
    rw [pendingInvites, hpending, hstored]
    exact ⟨hl, hl'⟩
  cases h with
  | same h => exact .inl (hmem h hp id)
  | armed h =>
    obtain ⟨q, -, hlisted⟩ := h
    have hl := List.mem_append_left [q] hp
    exact .inl (hmem hlisted hl fun _ => hl)
  | delivered q h =>
    have hdelivers := h
    obtain ⟨ret, -, r, -, -, hq, hlisted⟩ := h
    rcases mem_eraseIdx_or hq hp with hl | rfl
    · exact .inl (hmem hlisted hl fun _ => hl)
    · exact .inr hdelivers

/-- Throughout a run no two entries agree, at most one pass is under way, each step changes the list
in memory and in the file by one new entry or by the one that its pass has just sent, and an entry
stays until it is sent. -/
structure Orderly (s : Bridge) (es : List OpEvent) : Prop where
  distinct : ∀ pre, pre <+: es → (s.run pre).Distinct
  onePass : ∀ pre, pre <+: es → (s.run pre).passes ≤ 1
  change : ∀ pre e, pre ++ [e] <+: es → e.isRestart = false →
    Change (s.seenIn es) (s.run pre) ((s.run pre).step e)
  kept : ∀ pre post p, pre ++ post <+: es → (∀ e ∈ post, e.isRestart = false) →
    p ∈ (s.run pre).pendingInvites → p ∈ (s.run (pre ++ post)).pendingInvites ∨
      ∃ mid e, mid ++ [e] <+: post ∧
        Delivers (s.seenIn es) (s.run (pre ++ mid)) ((s.run (pre ++ mid)).step e) p

theorem passes_le_one (h : Inv seen 0 s) : s.passes ≤ 1 := by
  have hroom := h.room
  unfold BridgeClient.Room at hroom
  unfold passes
  split at hroom <;> omega

theorem orderly_of_inv {es : List OpEvent} (h : Inv (s.seenIn es) 0 s) (hs : s.Distinct)
    (halone : s.RunsAlone es) : s.Orderly es := by
  constructor
  · exact fun pre hpre => run_distinct h hs halone hpre
  · exact fun pre hpre => passes_le_one (run_inv h hpre)
  · exact fun pre e hpre hrestart => run_change h hpre (halone pre e hpre) hrestart
  · intro pre post p hpost hrestart hp
    induction post using List.reverseRecOn with
    | nil =>
      rw [List.append_nil]
      exact .inl hp
    | append_singleton post e ih =>
      rw [← List.append_assoc] at hpost
      have hbefore := (List.prefix_append (pre ++ post) [e]).trans hpost
      have hpost' := fun e' he' => hrestart e' (List.mem_append_left [e] he')
      rcases ih hbefore hpost' with hmem | ⟨mid, e', hmid, hdelivers⟩
      · have hchange := run_change h hpost (halone _ e hpost) (hrestart e (by simp))
        rcases hchange.kept hmem with ⟨hmem, -⟩ | hdelivers
        · refine .inl ?_
          rw [← List.append_assoc, run_concat]
          exact hmem
        · exact .inr ⟨post, e, List.prefix_refl _, hdelivers⟩
      · exact .inr ⟨mid, e', hmid.trans (List.prefix_append _ _), hdelivers⟩

/-- An entry goes, in memory or in the file, only once it was sent in a message that is
`accepted`. -/
def Consumes (accepted : String → Prop) (seen : Seen) (s t : Bridge) : Prop :=
  ∀ p ∈ s.pendingInvites,
    (p ∈ t.pendingInvites ∧ (p ∈ s.client.storedInvites → p ∈ t.client.storedInvites)) ∨
      ∃ id, accepted id ∧ p.SentBy seen s.client.codec id

/-- No invite that a pass writes to the socket is lost on the way or rejected. -/
def NoInviteLost (accepted : String → Prop) (s : Bridge) (es : List OpEvent) : Prop :=
  ∀ pre e, pre ++ [e] <+: es → (s.run pre).writesInvite e = true →
    accepted ((s.run pre).msgId (s.run pre).posted)

theorem consumes_of_noInviteLost {accepted : String → Prop} {es : List OpEvent}
    (h : Inv (s.seenIn es) 0 s) (hlost : s.NoInviteLost accepted es) {pre : List OpEvent}
    {e : OpEvent} (hpre : pre ++ [e] <+: es) (halone : (s.run pre).Alone e)
    (hrestart : e.isRestart = false) :
    Consumes accepted (s.seenIn es) (s.run pre) ((s.run pre).step e) := by
  intro p hp
  rcases (run_change h hpre halone hrestart).kept hp with hstays | hdelivers
  · exact .inl hstays
  · obtain ⟨ret, -, r, -, hsent, -⟩ := hdelivers
    have hframes := hsent
    obtain ⟨recipient, text, ciphertext, -, -, -, pre', e', socket, hpre', hwrites, hid, -⟩ :=
      hframes
    refine .inr ⟨r.id, ?_, hsent⟩
    rw [hid]
    exact hlost pre' e' hpre' hwrites

/-! ### A pending invite delivered -/

def sampleBridge : Bridge where
  client := .create BridgeClient.sampleOpts {} none 0
  channelsFile := some none
  newKeypair n := ⟨"pub" ++ toString n, "priv" ++ toString n⟩
  msgId := toString
  sealMsg _ text _ _ _ _ := .ok text

def pollingBridge : Bridge :=
  sampleBridge.restart { BridgeClient.sampleOpts with invites := true } {} 0

/-- Bob is armed, comes online and is sent the key of the channel. -/
def bobOnline : List OpEvent :=
  [.client .start, .client (.socket 0 .opened), .client (.socket 0 (.message .welcome)),
    .call (.armInvite "bob" "general"), .client (.task 0),
    .client (.socket 0 (.message (.joined "general"))), .flow 0,
    .client (.socket 0 (.message (.presence (some "1") [⟨"b0b", some "bob", some true, none⟩]))),
    .client (.task 0), .client (.task 0), .flow 0,
    .client (.socket 0 (.message (.agentInfo ⟨"b0b", "", "X", some "bob", some true⟩))), .flow 0,
    .flow 0, .pass 0]

/-- Where only this process writes the config file. -/
theorem runsAlone_of_notMem {es : List OpEvent}
    (h : ∀ e ∈ es, ∀ env config now, e ≠ .client (.outside env config now)) : s.RunsAlone es := by
  intro pre e hpre
  have hmem : e ∈ es := hpre.subset (by simp)
  cases e with
  | client e =>
    cases e with
    | outside env config now => exact absurd rfl (h _ hmem env config now)
    | _ => exact trivial
  | _ => exact trivial

/-- Bob's invite is consumed whether or not the hub accepts it. -/
theorem not_consumes_bobOnline : ¬ ∀ (accepted : String → Prop) (s : Bridge) (opts : ClientOpts)
    (env : Env) (now : ℤ) (es pre : List OpEvent) (e : OpEvent), pre ++ [e] <+: es →
      ((s.restart opts env now).run pre).Alone e → e.isRestart = false →
        Consumes accepted ((s.restart opts env now).seenIn es) ((s.restart opts env now).run pre)
          (((s.restart opts env now).run pre).step e) := by
  intro h
  have hconsumes := h (fun _ => False) sampleBridge { BridgeClient.sampleOpts with invites := true }
    {} 0 bobOnline bobOnline.dropLast (.pass 0) (by simp [bobOnline]) trivial rfl
  rcases hconsumes ⟨"bob", "general"⟩ (by decide +kernel) with ⟨hstays, -⟩ | ⟨id, hfalse, -⟩
  · exact absurd hstays (by decide +kernel)
  · exact hfalse

end Bridge

end Dap
