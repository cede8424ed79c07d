import Dap.Adapter.Settling

/-! When a lookup and a join of the client fail by the verdict of their own request: an error frame
of the hub does not say which request it refuses. -/
namespace Dap

/-- The request that the hub refuses by an error frame. -/
inductive Refusal where
  | whois (agentId : String)
  | join (channel : String)
  | other
  deriving DecidableEq

namespace BridgeClient

variable {s t : BridgeClient}

/-! ### What is settled -/

theorem isSettled_settle_of {r r' : ℕ} (h : s.isSettled r = true) (o : Settlement) :
    (s.settle o r').isSettled r = true := by
  unfold settle
  split
  · exact h
  · obtain ⟨o', ho'⟩ := isSettled_iff.mp h
    exact isSettled_iff.mpr ⟨o', List.mem_append_left _ ho'⟩

theorem isSettled_settleAll_of {r : ℕ} (h : s.isSettled r = true) (o : Settlement) (rs : List ℕ) :
    (s.settleAll o rs).isSettled r = true := by
  induction rs generalizing s with
  | nil => exact h
  | cons r' rs ih => exact ih (isSettled_settle_of h o)

theorem isSettled_settleAll {r : ℕ} {rs : List ℕ} (h : r ∈ rs) (o : Settlement) :
    (s.settleAll o rs).isSettled r = true := by
  induction rs generalizing s with
  | nil => cases h
  | cons r' rs ih =>
    rcases List.mem_cons.mp h with rfl | h
    · exact isSettled_settleAll_of (isSettled_settle s o r) o rs
    · exact ih h

theorem isSettled_failWhois {x : String} {r : ℕ} (h : Waits s.whoisWaiters x r) :
    s.failWhois.isSettled r = true := by
  have hkeep : ∀ (l : List (String × List ℕ)) (t : BridgeClient), t.isSettled r = true →
      (l.foldl (fun s e => s.settleAll (.rejected (.unknownAgent e.1)) e.2) t).isSettled r
        = true := by
    intro l
    induction l with
    | nil => exact fun t ht => ht
    | cons e l ih => exact fun t ht => ih _ (isSettled_settleAll_of ht _ e.2)
  have hfold : ∀ (l : List (String × List ℕ)) (t : BridgeClient), (∃ e ∈ l, r ∈ e.2) →
      (l.foldl (fun s e => s.settleAll (.rejected (.unknownAgent e.1)) e.2) t).isSettled r
        = true := by
    intro l
    induction l with
    | nil =>
      rintro t ⟨e, he, -⟩
      cases he
    | cons e l ih =>
      rintro t ⟨e', he', hr⟩
      rcases List.mem_cons.mp he' with rfl | he'
      · exact hkeep l _ (isSettled_settleAll hr _)
      · exact ih _ ⟨e', he', hr⟩
  obtain ⟨rs, hentry, hr⟩ := h.mem_entries
  exact hfold _ s ⟨(x, rs), hentry, hr⟩

theorem isSettled_failJoins {e : ClientError} {channel : Option String} {ch : String} {r : ℕ}
    (h : s.Refused channel ch r) : (s.failJoins e channel).isSettled r = true := by
  obtain ⟨hwaits, hnamed⟩ := h
  unfold failJoins
  split
  next named hsome =>
    rw [hnamed named hsome] at hwaits
    exact isSettled_settleAll hwaits _
  next =>
    obtain ⟨rs, hentry, hr⟩ := hwaits.mem_entries
    refine isSettled_settleAll (List.mem_flatten.mpr ⟨rs, ?_, hr⟩) _
    exact List.mem_map.mpr ⟨(ch, rs), hentry, rfl⟩

theorem isSettled_onError_whois {msg : String} {channel : Option String} {x : String} {r : ℕ}
    (h : Waits s.whoisWaiters x r) :
    (s.onError "unknown_agent" msg channel).isSettled r = true := by
  unfold onError
  dsimp only
  rw [if_pos rfl, if_neg (by decide)]
  exact isSettled_failWhois h

theorem isSettled_onError_join {code msg : String} {channel : Option String} {ch : String} {r : ℕ}
    (hcode : code = "unknown_channel" ∨ code = "access_denied") (h : s.Refused channel ch r) :
    (s.onError code msg channel).isSettled r = true := by
  have hne : code ≠ "unknown_agent" := by
    rcases hcode with rfl | rfl <;> decide
  unfold onError
  dsimp only
  rw [if_neg hne, if_pos hcode]
  exact isSettled_failJoins h

/-! ### One step -/

/-- A lookup fails as unknown only by such an error, and a join by the hub only by a refusal that
names its channel or none. -/
structure ByRefusal (s : BridgeClient) (e : BridgeEvent) : Prop where
  whois : ∀ r x a, (s.step e).calls[r]? = some (.whois x) →
    s.Settles e r (.rejected (.unknownAgent a)) →
      a = x ∧ ∃ i msg channel, e = .socket i (.message (.error "unknown_agent" msg channel))
  join : ∀ r ch code msg, (s.step e).calls[r]? = some (.join ch) →
    s.Settles e r (.rejected (.hubError code msg)) →
      (code = "unknown_channel" ∨ code = "access_denied") ∧
        ∃ i channel, e = .socket i (.message (.error code msg channel)) ∧
          ∀ named, optStr channel = some named → ch = named

theorem step_byRefusal (hs : s.Typed) (e : BridgeEvent) : s.ByRefusal e := by
  have hcalls := (step_moves s e hs).calls
  constructor
  · intro r x a hcall hsettles
    cases hsettles.permits hs with
    | ordinary ho => cases ho
    | refusesWhois hi hwaits =>
      have hx := calls_get_later hcalls (hs.awaits r _ (.whois hwaits))
      rw [hcall] at hx
      cases hx
      exact ⟨rfl, _, _, _, rfl⟩
  · intro r ch code msg hcall hsettles
    cases hsettles.permits hs with
    | ordinary ho => cases ho
    | refusesJoin hi hcode hrefused =>
      have hch := calls_get_later hcalls (hs.awaits r _ (.join hrefused.1))
      rw [hcall] at hch
      cases hch
      exact ⟨hcode, _, _, rfl, hrefused.2⟩

/-- A lookup fails as unknown only by the verdict on its agent, and a join by the hub only by the
verdict on its channel. -/
structure OwnVerdict (s : BridgeClient) (v : Refusal) (e : BridgeEvent) : Prop where
  whois : ∀ r x a, (s.step e).calls[r]? = some (.whois x) →
    s.Settles e r (.rejected (.unknownAgent a)) →
      v = .whois x ∧ ∃ i msg channel, e = .socket i (.message (.error "unknown_agent" msg channel))
  join : ∀ r ch code msg, (s.step e).calls[r]? = some (.join ch) →
    s.Settles e r (.rejected (.hubError code msg)) →
      v = .join ch ∧ ∃ i channel, e = .socket i (.message (.error code msg channel))

/-- An `unknown_agent` finds no lookup waiting but for the agent it is about, and a channel error no
join but of the channel it is about. -/
def Alone (s : BridgeClient) (v : Refusal) : BridgeEvent → Prop
  | .socket i (.message (.error code _ channel)) => s.Hears i →
    (code = "unknown_agent" → ∀ x r, Waits s.whoisWaiters x r → s.isSettled r = false →
      v = .whois x) ∧
    (code = "unknown_channel" ∨ code = "access_denied" → ∀ ch r, s.Refused channel ch r →
      s.isSettled r = false → v = .join ch)
  | _ => True

theorem OwnVerdict.of_alone {v : Refusal} {e : BridgeEvent} (hs : s.Typed) (h : s.Alone v e) :
    s.OwnVerdict v e := by
  have hcalls := (step_moves s e hs).calls
  constructor
  · intro r x a hcall hsettles
    cases hsettles.permits hs with
    | ordinary ho => cases ho
    | refusesWhois hi hwaits =>
      have hx := calls_get_later hcalls (hs.awaits r _ (.whois hwaits))
      rw [hcall] at hx
      cases hx
      exact ⟨(h hi).1 rfl x r hwaits hsettles.1, _, _, _, rfl⟩
  · intro r ch code msg hcall hsettles
    cases hsettles.permits hs with
    | ordinary ho => cases ho
    | refusesJoin hi hcode hrefused =>
      have hch := calls_get_later hcalls (hs.awaits r _ (.join hrefused.1))
      rw [hcall] at hch
      cases hch
      exact ⟨(h hi).2 hcode ch r hrefused hsettles.1, _, _, rfl⟩

theorem OwnVerdict.alone {v : Refusal} {e : BridgeEvent} (hs : s.Typed) (h : s.OwnVerdict v e) :
    s.Alone v e := by
  have hcalls := (step_moves s e hs).calls
  unfold Alone
  split
  next i code msg channel =>
    intro hi
    have hstep : s.step (.socket i (.message (.error code msg channel))) =
        s.onError code msg channel := if_pos hi
    constructor
    · rintro rfl x r hwaits hfresh
      have hcall := hs.awaits r _ (.whois hwaits)
      have hgrows : Grows (fun _ o => ∃ a, o = .rejected (.unknownAgent a)) s
          (s.onError "unknown_agent" msg channel) :=
        onError_moves (fun hcode => absurd hcode (by decide)) (fun _ a _ _ => ⟨a, rfl⟩) hs
      obtain ⟨o, ho, a, rfl⟩ := hgrows.exists_new hfresh (isSettled_onError_whois hwaits)
      rw [← hstep] at ho
      exact (h.whois r x a (calls_get_later hcalls hcall) ⟨hfresh, ho⟩).1
    · intro hcode ch r hrefused hfresh
      have hcall := hs.awaits r _ (.join hrefused.1)
      have hne : code ≠ "unknown_agent" := by
        rcases hcode with rfl | rfl <;> decide
      have hgrows : Grows (fun _ o => o = .rejected (.hubError code msg)) s
          (s.onError code msg channel) :=
        onError_moves (fun _ _ _ _ => rfl) (fun hunknown => absurd hunknown hne) hs
      obtain ⟨o, ho, rfl⟩ := hgrows.exists_new hfresh (isSettled_onError_join hcode hrefused)
      rw [← hstep] at ho
      exact (h.join r ch code msg (calls_get_later hcalls hcall) ⟨hfresh, ho⟩).1
  next => trivial

/-! ### Runs -/

/-- A message is reported undecryptable since its sender is unknown. -/
def ReportsUnknown (s : BridgeClient) (e : BridgeEvent) (m : MsgFrame) : Prop :=
  ∃ n r a, e = .task n ∧ s.tasks[n]? = some (r, .decrypt m) ∧
    (r, .rejected (.unknownAgent a)) ∈ s.settled

/-- Throughout the run lookups and joins fail by their own verdicts, and a message is reported for
an unknown sender only after the hub did not know that sender. -/
def OwnVerdicts (s : BridgeClient) (es : List (Refusal × BridgeEvent)) : Prop :=
  ∀ pre v e, pre ++ [(v, e)] <+: es →
    (s.run (pre.map Prod.snd)).OwnVerdict v e ∧
    ∀ m, (s.run (pre.map Prod.snd)).ReportsUnknown e m → ∃ i msg channel,
      (.whois m.sender, .socket i (.message (.error "unknown_agent" msg channel))) ∈ pre

/-- Throughout the run lookups and joins fail by refusals, and a message is reported for an unknown
sender only after a lookup was refused. -/
def ByRefusals (s : BridgeClient) (es : List (Refusal × BridgeEvent)) : Prop :=
  ∀ pre v e, pre ++ [(v, e)] <+: es →
    (s.run (pre.map Prod.snd)).ByRefusal e ∧
    ∀ m, (s.run (pre.map Prod.snd)).ReportsUnknown e m → ∃ w i msg channel,
      (w, .socket i (.message (.error "unknown_agent" msg channel))) ∈ pre

/-- Whatever is settled was settled by some event of the run. -/
theorem exists_settles {α : Type} (hs : s.Typed) (hsettled : s.settled = [])
    {es : List (α × BridgeEvent)} {r : ℕ}
    {o : Settlement} (h : (r, o) ∈ (s.run (es.map Prod.snd)).settled) :
    ∃ pre a e, pre ++ [(a, e)] <+: es ∧ (s.run (pre.map Prod.snd)).Settles e r o := by
  induction es using List.reverseRecOn with
  | nil => simp [run, hsettled] at h
  | append_singleton es e ih =>
    have hrun : s.run ((es ++ [e]).map Prod.snd) = (s.run (es.map Prod.snd)).step e.2 := by
      rw [List.map_append]
      exact run_concat s _ e.2
    rw [hrun] at h
    by_cases hold : (r, o) ∈ (s.run (es.map Prod.snd)).settled
    · obtain ⟨pre, a, e', hpre, hsettles⟩ := ih hold
      exact ⟨pre, a, e', hpre.trans (List.prefix_append _ _), hsettles⟩
    · obtain ⟨new, hnew, hP⟩ := (step_moves _ e.2 (typed_run hs (es.map Prod.snd))).settled
      have hmem := h
      rw [hnew] at hmem
      have hfresh := (hP (r, o) ((List.mem_append.mp hmem).resolve_left hold)).2
      exact ⟨es, e.1, e.2, List.prefix_refl _, hfresh, h⟩

/-- What a report of an unknown sender goes back to. -/
theorem ReportsUnknown.exists_settles (hs : s.Typed) (hsettled : s.settled = [])
    {es : List (Refusal × BridgeEvent)} {e : BridgeEvent} {m : MsgFrame}
    (h : (s.run (es.map Prod.snd)).ReportsUnknown e m) :
    ∃ pre v e' r a, pre ++ [(v, e')] <+: es ∧
      ((s.run (pre.map Prod.snd)).step e').calls[r]? = some (.whois m.sender) ∧
      (s.run (pre.map Prod.snd)).Settles e' r (.rejected (.unknownAgent a)) := by
  obtain ⟨n, r, a, -, htask, hr⟩ := h
  have htyped := typed_run hs (es.map Prod.snd)
  have hcall := htyped.awaits r (.whois m.sender)
    (.task (List.mem_of_getElem? htask) (by simp [Kont.calls]))
  obtain ⟨pre, v, e', hpre, hsettles⟩ := BridgeClient.exists_settles hs hsettled hr
  refine ⟨pre, v, e', r, a, hpre, ?_, hsettles⟩
  have hthen := (step_moves _ e' (typed_run hs (pre.map Prod.snd))).typed
  obtain ⟨c, hc, -⟩ := hthen.settled r _ hsettles.2
  obtain ⟨rest, rfl⟩ := hpre
  have hlater := calls_run_prefix hthen (rest.map Prod.snd)
  have hsame : ((s.run (pre.map Prod.snd)).step e').run (rest.map Prod.snd) =
      s.run ((pre ++ [(v, e')] ++ rest).map Prod.snd) := by
    simp [run]
  rw [hsame] at hlater
  have hwhois := calls_get_later hlater hc
  rw [hcall] at hwhois
  cases hwhois
  exact hc

theorem mem_of_concat_prefix {α : Type} {pre es : List α} {a : α} (h : pre ++ [a] <+: es) :
    a ∈ es :=
  h.subset (by simp)

theorem byRefusals (hs : s.Typed) (hsettled : s.settled = [])
    (es : List (Refusal × BridgeEvent)) : s.ByRefusals es := by
  intro pre v e hpre
  refine ⟨step_byRefusal (typed_run hs _) e, ?_⟩
  intro m hm
  obtain ⟨pre', v', e', r, a, hpre', hcall, hsettles⟩ := hm.exists_settles hs hsettled
  obtain ⟨-, i, msg, channel, rfl⟩ :=
    (step_byRefusal (typed_run hs _) e').whois r m.sender a hcall hsettles
  exact ⟨v', i, msg, channel, mem_of_concat_prefix hpre'⟩

/-- Lookups and joins fail by their own verdicts exactly when each refusal finds only its own
request waiting. -/
theorem ownVerdicts_iff (hs : s.Typed) (hsettled : s.settled = [])
    (es : List (Refusal × BridgeEvent)) :
    s.OwnVerdicts es ↔
      ∀ pre v e, pre ++ [(v, e)] <+: es → (s.run (pre.map Prod.snd)).Alone v e := by
  constructor
  · intro h pre v e hpre
    exact (h pre v e hpre).1.alone (typed_run hs _)
  · intro h pre v e hpre
    refine ⟨.of_alone (typed_run hs _) (h pre v e hpre), ?_⟩
    intro m hm
    obtain ⟨pre', v', e', r, a, hpre', hcall, hsettles⟩ := hm.exists_settles hs hsettled
    have hpast : pre' ++ [(v', e')] <+: es :=
      hpre'.trans ((List.prefix_append _ _).trans hpre)
    obtain ⟨rfl, i, msg, channel, rfl⟩ :=
      (OwnVerdict.of_alone (typed_run hs _) (h pre' v' e' hpast)).whois r m.sender a hcall hsettles
    exact ⟨i, msg, channel, mem_of_concat_prefix hpre'⟩

/-- In every run lookups and joins fail by refusals of their kind, and by their own verdicts when
each refusal finds only its own request waiting. -/
theorem verdicts (opts : ClientOpts) (env : Env) (config : Option DapFileConfig) (now : ℤ)
    (es : List (Refusal × BridgeEvent)) :
    (create opts env config now).ByRefusals es ∧
      ((∀ pre v e, pre ++ [(v, e)] <+: es →
        ((create opts env config now).run (pre.map Prod.snd)).Alone v e) →
          (create opts env config now).OwnVerdicts es) := by
  have hs := typed_create opts env config now
  exact ⟨byRefusals hs rfl es, (ownVerdicts_iff hs rfl es).mpr⟩

/-- Two lookups wait, and the hub does not know the first agent. -/
def twoLookups : List (Refusal × BridgeEvent) :=
  [(.other, .start),
   (.other, .socket 0 .opened),
   (.other, .socket 0 (.message .welcome)),
   (.other, .whois "a"),
   (.other, .whois "b"),
   (.whois "a", .socket 0 (.message (.error "unknown_agent" "no such agent: a" none)))]

theorem not_ownVerdicts_twoLookups :
    ¬ (create sampleOpts {} none 0).OwnVerdicts twoLookups := by
  intro h
  have hlast := (h (twoLookups.take 5) (.whois "a")
    (.socket 0 (.message (.error "unknown_agent" "no such agent: a" none))) (List.prefix_refl _)).1
  have hown := (hlast.whois 1 "b" "b" (by decide +kernel) (by unfold Settles; decide +kernel)).1
  exact absurd hown (by decide)

end BridgeClient

end Dap
