import Dap.Hub.Mailbox
import Dap.Hub.Replay

/-! What the checks on hellos and sends decide: the nonce cache against a ledger that forgets
nothing, and the freshness window in exact arithmetic (`hub/auth.go`). -/
namespace Dap
open Proc

/-! ### The nonce cache and its ideal -/

/-- A nonce is presented, or the cache is swept. -/
inductive NonceEvent where
  | check (pub nonce : String) (now : ℤ)
  | sweep (now : ℤ)

namespace NonceEvent

def now : NonceEvent → ℤ
  | .check _ _ now => now
  | .sweep now => now

def isCheck : NonceEvent → Bool
  | .check _ _ _ => true
  | .sweep _ => false

end NonceEvent

/-- What the cache answers. -/
def nonceAnswers : NonceCache → List NonceEvent → List Bool
  | _, [] => []
  | n, .check pub nonce now :: es =>
    (n.check pub nonce now).1 :: nonceAnswers (n.check pub nonce now).2 es
  | n, .sweep now :: es => nonceAnswers (n.sweepLocked now) es

/-- When each nonce of each key was last accepted. -/
abbrev NonceLedger := String → String → Option ℤ

namespace NonceLedger

/-- The nonce was last accepted at a `t` with `now < t + replayKeep`. -/
def Held (l : NonceLedger) (pub nonce : String) (now : ℤ) : Prop :=
  ∃ t, l pub nonce = some t ∧ now < t + replayKeep

def accept (l : NonceLedger) (pub nonce : String) (now : ℤ) : NonceLedger := fun p k =>
  if p = pub ∧ k = nonce then some now else l p k

open Classical in
/-- The answers that never depend on what is purged or swept. -/
noncomputable def answers : NonceLedger → List NonceEvent → List Bool
  | _, [] => []
  | l, .check pub nonce now :: es =>
    if l.Held pub nonce now then false :: answers l es
    else true :: answers (l.accept pub nonce now) es
  | l, .sweep _ :: es => answers l es

theorem answers_filter (l : NonceLedger) (es : List NonceEvent) :
    answers l (es.filter NonceEvent.isCheck) = answers l es := by
  induction es generalizing l with
  | nil => rfl
  | cons e es ih =>
    cases e with
    | check pub nonce now =>
      rw [List.filter_cons_of_pos rfl]
      unfold answers
      rw [ih, ih]
    | sweep now =>
      rw [List.filter_cons_of_neg (by simp [NonceEvent.isCheck])]
      exact ih l

end NonceLedger

/-- The live nonces are those the ledger holds. -/
def NonceCache.Agrees (n : NonceCache) (l : NonceLedger) (now : ℤ) : Prop :=
  ∀ pub nonce, n.live now pub nonce =
    ((l pub nonce).map (· + replayKeep)).filter fun exp => now < exp

namespace NonceCache.Agrees

variable {n : NonceCache} {l : NonceLedger} {now : ℤ}

theorem empty (now : ℤ) : Agrees {} (fun _ _ => none) now := by
  intro pub nonce
  simp [live]

theorem later (h : n.Agrees l now) {later : ℤ} (hle : now ≤ later) : n.Agrees l later := by
  intro pub nonce
  rw [n.live_mono hle, h, Option.filter_filter]
  congr 1
  funext exp
  by_cases he : later < exp
  · simp [he, hle.trans_lt he]
  · simp [he]

theorem swept (h : n.Agrees l now) : (n.sweepLocked now).Agrees l now := by
  intro pub nonce
  rw [live_sweepLocked]
  exact h pub nonce

theorem isNone_iff (h : n.Agrees l now) (pub nonce : String) :
    (n.live now pub nonce).isNone = true ↔ ¬ l.Held pub nonce now := by
  rw [h]
  unfold NonceLedger.Held
  cases hl : l pub nonce with
  | none => simp
  | some t =>
    by_cases hlt : now < t + replayKeep
    · simp [Option.filter, hlt]
    · simp [Option.filter, hlt]

theorem checked (h : n.Agrees l now) {pub nonce : String} (hheld : ¬ l.Held pub nonce now) :
    (n.check pub nonce now).2.Agrees (l.accept pub nonce now) now := by
  have hnone := (h.isNone_iff pub nonce).mpr hheld
  have hkeep : now < now + replayKeep := by
    unfold replayKeep
    omega
  intro p k
  rw [live_check]
  unfold NonceLedger.accept
  by_cases hpk : p = pub ∧ k = nonce
  · rw [if_pos ⟨hnone, hpk⟩, if_pos hpk]
    simp [Option.filter, hkeep]
  · rw [if_neg fun hc => hpk hc.2, if_neg hpk]
    exact h p k

theorem unchecked (h : n.Agrees l now) {pub nonce : String} (hheld : l.Held pub nonce now) :
    (n.check pub nonce now).2.Agrees l now := by
  have hsome : ¬ (n.live now pub nonce).isNone = true := fun hn =>
    (h.isNone_iff pub nonce).mp hn hheld
  intro p k
  rw [live_check, if_neg fun hc => hsome hc.1]
  exact h p k

end NonceCache.Agrees

theorem nonceAnswers_eq_answers {n : NonceCache} {l : NonceLedger} {es : List NonceEvent}
    {now : ℤ} (h : n.Agrees l now) (hnow : ∀ e ∈ es, now ≤ e.now)
    (hs : es.Pairwise fun a b => a.now ≤ b.now) : nonceAnswers n es = l.answers es := by
  induction es generalizing n l now with
  | nil => rfl
  | cons e es ih =>
    obtain ⟨hfirst, hrest⟩ := List.pairwise_cons.mp hs
    have hat := h.later (hnow e List.mem_cons_self)
    cases e with
    | check pub nonce t =>
      dsimp only [NonceEvent.now] at hat
      unfold nonceAnswers NonceLedger.answers
      by_cases hheld : l.Held pub nonce t
      · rw [if_pos hheld, ih (hat.unchecked hheld) hfirst hrest, NonceCache.check_fst]
        congr 1
        rw [Bool.eq_false_iff]
        exact fun hn => (hat.isNone_iff pub nonce).mp hn hheld
      · rw [if_neg hheld, ih (hat.checked hheld) hfirst hrest, NonceCache.check_fst]
        congr 1
        exact (hat.isNone_iff pub nonce).mpr hheld
    | sweep t => exact ih hat.swept hfirst hrest

/-- A sweep leaves neither an expired nonce nor a key without live ones. -/
theorem NonceCache.sweepLocked_live {n : NonceCache} {now : ℤ} {pub : String} {perPub : GoMap ℤ}
    (h : (n.sweepLocked now).seen[pub]? = some perPub) :
    (∃ nonce, nonce ∈ perPub) ∧ ∀ (nonce : String) exp, perPub[nonce]? = some exp → now < exp := by
  unfold sweepLocked at h
  dsimp only at h
  rw [GoMap.getElem?_rewrite] at h
  obtain ⟨old, -, hlive⟩ := Option.bind_eq_some_iff.mp h
  split at hlive
  next => simp at hlive
  next hne =>
    obtain rfl := Option.some.inj hlive
    constructor
    · by_contra hno
      apply hne
      rw [Std.ExtTreeMap.isEmpty_iff, Std.ExtTreeMap.eq_empty_iff_forall_not_mem]
      exact fun nonce hmem => hno ⟨nonce, hmem⟩
    · intro nonce exp hexp
      rw [GoMap.getElem?_sweep] at hexp
      have hkept := (Option.filter_eq_some_iff.mp hexp).2
      simpa using hkept

/-- For every sequence of checks and sweeps in the order of time, the cache answers like a ledger of
all acceptances: a nonce is refused while it was last accepted less than `replayKeep` ago, whatever
was purged or swept before; and a sweep keeps live nonces only. -/
theorem nonceAnswers_ideal (es : List NonceEvent) (hs : es.Pairwise fun a b => a.now ≤ b.now) :
    nonceAnswers {} es = NonceLedger.answers (fun _ _ => none) es ∧
    nonceAnswers {} (es.filter NonceEvent.isCheck) =
      NonceLedger.answers (fun _ _ => none) es ∧
    ∀ (n : NonceCache) (now : ℤ) (pub : String) (perPub : GoMap ℤ),
      (n.sweepLocked now).seen[pub]? = some perPub →
        (∃ nonce, nonce ∈ perPub) ∧ ∀ (nonce : String) exp, perPub[nonce]? = some exp →
          now < exp := by
  have hideal : ∀ es : List NonceEvent, es.Pairwise (fun a b => a.now ≤ b.now) →
      nonceAnswers {} es = NonceLedger.answers (fun _ _ => none) es := by
    intro es hs
    cases es with
    | nil => rfl
    | cons e es =>
      refine nonceAnswers_eq_answers (.empty e.now) (fun x hx => ?_) hs
      rcases List.mem_cons.mp hx with rfl | hx
      · exact le_refl _
      · exact (List.pairwise_cons.mp hs).1 x hx
  refine ⟨hideal es hs, ?_, fun _ _ _ _ h => NonceCache.sweepLocked_live h⟩
  rw [hideal _ (hs.filter _), NonceLedger.answers_filter]

theorem nonceAnswers_ideal_sample :
    NonceLedger.answers (fun _ _ => none)
      [.check "p" "n" 0, .sweep 1, .check "p" "n" 359999999999, .check "p" "n" 360000000000] =
        [true, false, true] := by
  rw [← (nonceAnswers_ideal _ (by simp [NonceEvent.now])).1]
  decide +kernel

/-! ### The freshness window -/

def staleError : ProtoError := ⟨codeStaleTS, "timestamp outside ±300s window"⟩

def staleFrame : Frame := errorFrame staleError.code staleError.msg

section Unoffered

variable {P : Platform} {c d : ConnID} {α : Type} {r0 : Reply}

/-- A section in which nobody calls `sendFrame` for `c` with the reply. -/
def Unoffered (c : ConnID) (r : Reply) (e : HubSection) : Prop := offers c r e = false

theorem unoffered_of_label {label : Label} {s s' : Hub} {pick : Bool}
    (hl : ∀ d r, label ≠ .load d r) : Unoffered c r0 ⟨label, s, s', pick⟩ := by
  unfold Unoffered offers
  exact decide_eq_false (hl c r0)

theorem unoffered_logf (event : String) (kvs : Hub → List (String × String)) :
    Emits (Unoffered c r0) (logf event kvs) :=
  Emits.modify fun _ _ => unoffered_of_label fun _ _ => Label.noConfusion

theorem unoffered_sendFrame {r : Reply} (hr : r ≠ r0) : Emits (Unoffered c r0) (sendFrame d r) := by
  unfold sendFrame
  have hrelease : Emits (Unoffered c r0) (release d r) :=
    Emits.modify fun _ _ => unoffered_of_label fun _ _ => Label.noConfusion
  refine Emits.bind (Emits.read fun s pick => ?_) fun queued => ?_
  · unfold Unoffered offers
    refine decide_eq_false fun heq => ?_
    exact hr (Label.load.inj heq).2
  split
  · refine Emits.bind (unoffered_logf _ _) fun _ => Emits.bind (Emits.modify fun _ _ => ?_) fun _ =>
      Emits.bind (Emits.modify fun _ _ => ?_) fun _ => Emits.pure _
    · exact unoffered_of_label fun _ _ => Label.noConfusion
    · exact unoffered_of_label fun _ _ => Label.noConfusion
  · refine Emits.bind (Emits.modify fun _ _ => ?_) fun _ =>
      Emits.bind (Emits.read fun _ _ => ?_) fun closed => ?_
    · exact unoffered_of_label fun _ _ => Label.noConfusion
    · exact unoffered_of_label fun _ _ => Label.noConfusion
    split
    · exact Emits.bind hrelease fun _ => Emits.pure _
    · refine Emits.bind (Emits.guarded fun _ _ _ _ _ => ?_) fun pushed => ?_
      · exact unoffered_of_label fun _ _ => Label.noConfusion
      split
      · exact Emits.pure _
      · exact Emits.bind hrelease fun _ => Emits.pure _

theorem unoffered_sendErr {code msg : String} (hr : Reply.frame (errorFrame code msg) ≠ r0) :
    Emits (Unoffered c r0) (sendErr d code msg) :=
  Emits.bind (Emits.modify fun _ _ => unoffered_of_label fun _ _ => Label.noConfusion) fun _ =>
    Emits.bind (unoffered_logf _ _) fun _ => Emits.bind (unoffered_sendFrame hr) fun _ =>
      Emits.pure _

theorem unoffered_enqueue (id : String) (g : Frame) : Emits (Unoffered c r0) (enqueue id g) :=
  Emits.atomically fun _ _ => unoffered_of_label fun _ _ => Label.noConfusion

/-- A delivery answers with other errors only. -/
theorem unoffered_deliver (f : Frame) :
    Emits (Unoffered c (.frame staleFrame)) (deliver P d f) := by
  have hmsg : ∀ g : Frame, g.op = "msg" → Reply.frame g ≠ .frame staleFrame := by
    intro g hg heq
    rw [Reply.frame.inj heq] at hg
    exact absurd hg (by decide)
  have hcode : ∀ code msg : String, code ≠ codeStaleTS →
      Reply.frame (errorFrame code msg) ≠ .frame staleFrame := fun code msg hne heq =>
    hne (congrArg Frame.code (Reply.frame.inj heq))
  have hstore : ∀ (id : String) (g : Frame) (kvs : ℕ → Hub → List (String × String)),
      Emits (Unoffered c (.frame staleFrame)) (do
        let size ← enqueue id g
        logf "dm" (kvs size)
        return true) := fun id g kvs =>
    Emits.bind (unoffered_enqueue id g) fun _ => Emits.bind (unoffered_logf _ _) fun _ =>
      Emits.pure _
  have hread : ∀ {β : Type} (label : Label) (g : Hub → β), (∀ d r, label ≠ .load d r) →
      Emits (Unoffered c (.frame staleFrame)) (Proc.read label g) := fun label g hl =>
    Emits.read fun _ _ => unoffered_of_label hl
  unfold deliver
  split
  · unfold deliverDM
    refine Emits.bind (hread _ _ fun _ _ => Label.noConfusion) fun k =>
      Emits.bind (hread _ _ fun _ _ => Label.noConfusion) fun e => ?_
    split
    · exact Emits.bind (unoffered_logf _ _) fun _ =>
        Emits.bind (unoffered_sendErr (hcode _ _ (by decide))) fun _ => Emits.pure _
    refine Emits.bind (hread _ _ fun _ _ => Label.noConfusion) fun target => ?_
    split
    · exact hstore _ _ _
    refine Emits.bind (unoffered_sendFrame (hmsg _ rfl)) fun sent => ?_
    split
    · exact Emits.bind (unoffered_logf _ _) fun _ => Emits.pure _
    · exact hstore _ _ _
  · unfold deliverChannel
    refine Emits.bind (hread _ _ fun _ _ => Label.noConfusion) fun k =>
      Emits.bind_atomically (fun _ _ => unoffered_of_label fun _ _ => Label.noConfusion) fun s => ?_
    cases ht : s.channelTargets P d f with
    | error e =>
      have hne : e.code ≠ codeStaleTS := by
        rcases channelTargets_code ht with h | h
        · rw [h]
          decide
        · rw [h]
          decide
      exact Emits.bind (unoffered_logf _ _) fun _ =>
        Emits.bind (unoffered_sendErr (hcode _ _ hne)) fun _ => Emits.pure _
    | ok t =>
      refine Emits.bind (Emits.forM fun m _ => ?_) fun _ =>
        Emits.bind (Emits.forM fun id _ => ?_) fun _ =>
          Emits.bind (unoffered_logf _ _) fun _ => Emits.pure _
      · exact Emits.bind (unoffered_sendFrame (hmsg _ rfl)) fun _ => Emits.pure _
      · exact Emits.bind (unoffered_enqueue _ _) fun _ => Emits.pure _

theorem records_unoffered {p : HubProc α} (hp : Emits (Unoffered c r0) p) :
    Records p fun _ t => ∀ e ∈ t, offers c r0 e = false := fun _ _ _ hrun => hp.of_run hrun

end Unoffered

section Freshness

variable {P : Platform} {c : ConnID} {f : Frame} {raw : Raw}

theorem records_staleErr : Records (sendErr c codeStaleTS staleError.msg)
    fun _ t => ∃ e ∈ t, offers c (.frame staleFrame) e = true := by
  unfold sendErr
  refine Records.bind (Q := fun _ _ => True) (Records.modify fun _ _ => trivial) fun _ t1 _ => ?_
  refine Records.bind (records_logf _ _) fun _ t2 _ => ?_
  refine Records.bind (records_sendFrame _ _) fun ok t3 ht => Records.pure ?_
  have hcount := ht.offers_count (.frame staleFrame)
  rw [if_pos (by rfl)] at hcount
  obtain ⟨e, he, hoff⟩ := List.countP_pos_iff.mp (by rw [hcount]; exact Nat.one_pos)
  exact ⟨e, by simp [he], hoff⟩

/-- A verified send is answered with `stale_ts` exactly when `tsFresh` says no at the clock it
reads. -/
theorem records_handleSend_stale : Records (handleSend P c f raw) fun _ t =>
    ∃ key rest, t = key :: rest ∧ (verifySignature P f raw (key.pre.conns c).pubkey = none →
      ∃ now rest', rest = now :: rest' ∧
        ((∀ e ∈ rest', offers c (.frame staleFrame) e = false) ↔
          tsFresh f.ts now.pre.nowMS = true)) := by
  have hpast : ∀ {p : HubProc Unit}, Emits (Unoffered c (.frame staleFrame)) p →
      ∀ {now : Int64}, tsFresh f.ts now = true → Records p fun _ t =>
        ((∀ e ∈ t, offers c (.frame staleFrame) e = false) ↔ tsFresh f.ts now = true) :=
    fun hp _ hfresh => (records_unoffered hp).mono fun _ _ ht => ⟨fun _ => hfresh, fun _ => ht⟩
  have herr : ∀ {code msg : String}, code ≠ codeStaleTS →
      Emits (Unoffered c (.frame staleFrame)) (sendErr c code msg) := fun hne =>
    unoffered_sendErr fun heq => hne (congrArg Frame.code (Reply.frame.inj heq))
  unfold handleSend
  refine Records.bind (Q := fun k t => ∃ key : HubSection, t = [key] ∧ key.pre.conns c = k)
    (Records.read fun _ _ => ⟨_, rfl, rfl⟩) ?_
  rintro k _ ⟨key, rfl, rfl⟩
  split
  next e he =>
    refine (records_sendErr c e.code e.msg).mono fun _ t _ => ⟨key, t, rfl, fun hv => ?_⟩
    rw [hv] at he
    cases he
  next hv =>
    refine Records.bind (Q := fun now t => ∃ e : HubSection, t = [e] ∧ e.pre.nowMS = now)
      (Records.read fun _ _ => ⟨_, rfl, rfl⟩) ?_
    rintro now _ ⟨e, rfl, rfl⟩
    refine Records.mono (Q := fun _ t =>
      ((∀ x ∈ t, offers c (.frame staleFrame) x = false) ↔ tsFresh f.ts e.pre.nowMS = true)) ?_
      fun _ t ht => ⟨key, e :: t, rfl, fun _ => ⟨e, t, rfl, ht⟩⟩
    split
    next hstale =>
      refine records_staleErr.mono ?_
      rintro - t ⟨x, hx, hoff⟩
      refine ⟨fun hnone => ?_, fun hfresh => absurd hfresh hstale⟩
      rw [hnone x hx] at hoff
      cases hoff
    next hfresh =>
      refine hpast ?_ (not_not.mp hfresh)
      split
      · exact herr (by decide)
      refine Emits.bind (Emits.read fun _ _ => unoffered_of_label fun _ _ => Label.noConfusion)
        fun used => ?_
      split
      · exact herr (by decide)
      refine Emits.bind (unoffered_deliver f) fun accepted => ?_
      split
      · exact Emits.modify fun _ _ => unoffered_of_label fun _ _ => Label.noConfusion
      · exact Emits.pure _

/-- A hello that gets as far as its timestamp is stale exactly when `tsFresh` says no. -/
theorem checkHello_stale_iff {now : ℤ} {n : NonceCache}
    (hlen : nonceMinLen ≤ f.nonce.utf8ByteSize) (hv : verifySignature P f raw f.pubkey = none) :
    (checkHello P f raw now n).1 ≠ some staleError ↔
      tsFresh f.ts (Int64.ofInt (now / 1000000)) = true := by
  unfold checkHello
  rw [if_neg (Nat.not_lt.mpr hlen), hv]
  dsimp only
  split
  next hstale => exact ⟨fun h => absurd rfl h, fun h => absurd h hstale⟩
  next hfresh =>
    refine ⟨fun _ => not_not.mp hfresh, fun _ => ?_⟩
    split
    · simp
    · refine fun heq => absurd (congrArg ProtoError.code (Option.some.inj heq)) ?_
      decide

/-- `tsFresh` is exact but for the one timestamp that lies `2 ^ 63` milliseconds back. -/
theorem tsFresh_exact_iff {ts : Int64} {now : ℤ} (h0 : 0 ≤ now) (h1 : now ≤ 2 ^ 62) :
    ((tsFresh ts (Int64.ofInt now) = true ↔ |now - ts.toInt| ≤ 300000) ↔
      now - ts.toInt ≠ 2 ^ 63) := by
  have hsize : (Int64.size : ℤ) = 2 ^ 64 := rfl
  have hnow : (Int64.ofInt now).toInt = now := by
    rw [Int64.toInt_ofInt, Int.bmod_def, hsize]
    omega
  rw [tsFresh_iff (by omega) (by omega), hnow]
  constructor
  · intro h hfar
    have hnear := h.mp (.inr hfar)
    rw [hfar] at hnear
    exact absurd hnear (by norm_num)
  · intro hfar
    exact ⟨fun h => h.resolve_right hfar, .inl⟩

end Freshness

/-- At any hub time from the epoch to `2 ^ 62` milliseconds, hellos and sends get past the timestamp
check exactly when they are at most 300000 milliseconds off, unless they are stamped exactly
`2 ^ 63` milliseconds ago. -/
theorem timestamp_check_exact_iff (P : Platform) (f : Frame) (raw : Raw) :
    (∀ (now : ℤ) (n : NonceCache), nonceMinLen ≤ f.nonce.utf8ByteSize →
      verifySignature P f raw f.pubkey = none → 0 ≤ now / 1000000 → now / 1000000 ≤ 2 ^ 62 →
      (((checkHello P f raw now n).1 ≠ some staleError ↔
          |now / 1000000 - f.ts.toInt| ≤ 300000) ↔ now / 1000000 - f.ts.toInt ≠ 2 ^ 63)) ∧
    ∀ (c : ConnID) (w w' : World Hub Label), w.trace = [] →
      handleSend P c f raw w = some ((), w') → ∃ key rest, w'.trace = key :: rest ∧
        (verifySignature P f raw (key.pre.conns c).pubkey = none →
          ∃ now rest', rest = now :: rest' ∧
            (0 ≤ now.pre.clock / 1000000 → now.pre.clock / 1000000 ≤ 2 ^ 62 →
              (((∀ e ∈ rest', offers c (.frame staleFrame) e = false) ↔
                  |now.pre.clock / 1000000 - f.ts.toInt| ≤ 300000) ↔
                now.pre.clock / 1000000 - f.ts.toInt ≠ 2 ^ 63))) := by
  constructor
  · intro now n hlen hv h0 h1
    rw [checkHello_stale_iff hlen hv]
    exact tsFresh_exact_iff h0 h1
  · intro c w w' hw hrun
    obtain ⟨t, ht, key, rest, rfl, hrest⟩ := records_handleSend_stale w () w' hrun
    rw [hw, List.nil_append] at ht
    refine ⟨key, rest, ht, fun hv => ?_⟩
    obtain ⟨now, rest', rfl, hiff⟩ := hrest hv
    refine ⟨now, rest', rfl, fun h0 h1 => ?_⟩
    rw [hiff]
    exact tsFresh_exact_iff h0 h1

/-- The hello of the first agent, stamped with the least timestamp, at the epoch. -/
theorem oldest_hello_fresh :
    (checkHello lenientPlatform (sampleHello (-9223372036854775808)) [] 0 {}).1 = none ∧
      ¬ |(0 : ℤ) / 1000000 - (sampleHello (-9223372036854775808)).ts.toInt| ≤ 300000 := by
  decide +kernel

theorem timestamp_check_exact_iff_sample :
    ((checkHello lenientPlatform (sampleHello 300000) [] 0 {}).1 ≠ some staleError ↔
      |(0 : ℤ) / 1000000 - (sampleHello 300000).ts.toInt| ≤ 300000) :=
  ((timestamp_check_exact_iff lenientPlatform (sampleHello 300000) []).1 0 {} (by decide +kernel)
    (sampleHello_verifies 300000 []) (by decide) (by decide)).mpr (by decide)

end Dap
