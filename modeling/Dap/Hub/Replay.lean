import Dap.Hub.Auth

/-! The nonce cache seen as the set of its live entries, and what it means for replayed hellos. -/
namespace Dap

namespace NonceCache

/-- The expiry of a nonce that has not expired at `now`. -/
def live (n : NonceCache) (now : ℤ) (pub nonce : String) : Option ℤ :=
  (n.seen[pub]?.bind fun perPub => perPub[nonce]?).filter fun exp => now < exp

theorem live_mono (n : NonceCache) {now later : ℤ} (h : now ≤ later) (pub nonce : String) :
    n.live later pub nonce = (n.live now pub nonce).filter fun exp => later < exp := by
  unfold live
  rw [Option.filter_filter]
  congr 1
  funext exp
  by_cases he : later < exp
  · simp [he, h.trans_lt he]
  · simp [he]

@[simp] theorem not_expired (now exp : ℤ) : (!expired now exp) = decide (now < exp) := by
  by_cases h : now < exp <;> simp [expired, h]

/-- Sweeping forgets nothing that is live. -/
theorem live_sweepLocked (n : NonceCache) (now : ℤ) (pub nonce : String) :
    (n.sweepLocked now).live now pub nonce = n.live now pub nonce := by
  unfold live sweepLocked
  simp only [GoMap.getElem?_rewrite]
  cases n.seen[pub]? with
  | none => rfl
  | some perPub =>
    simp only [Option.bind_some]
    split
    next hempty =>
      have hnone : (GoMap.sweep (expired now) perPub)[nonce]? = none := by
        rw [Std.ExtTreeMap.isEmpty_iff.mp hempty]
        simp
      simpa using hnone.symm
    next => simp [Option.filter_filter]

theorem check_fst (n : NonceCache) (pub nonce : String) (now : ℤ) :
    (n.check pub nonce now).1 = (n.live now pub nonce).isNone := by
  unfold check live
  cases hp : n.seen[pub]? with
  | none => simp [check.record]
  | some perPub =>
    cases hk : perPub[nonce]? with
    | none => simp [hk, check.record]
    | some exp =>
      by_cases hlt : now < exp
      · simp [hk, hlt]
      · simp [hk, hlt, check.record]

private theorem live_record (n : NonceCache) (pub nonce : String) (now : ℤ) (p k : String) :
    (check.record n pub (n.seen[pub]?.getD ∅) nonce now).2.live now p k =
      if p = pub ∧ k = nonce then some (now + replayKeep) else n.live now p k := by
  have hkeep : now < now + replayKeep := by unfold replayKeep; omega
  have hpurge : ({ n with seen := n.seen.insert pub (GoMap.sweep (expired now)
      ((n.seen[pub]?.getD ∅).insert nonce (now + replayKeep))) } : NonceCache).live now p k =
      if p = pub ∧ k = nonce then some (now + replayKeep) else n.live now p k := by
    unfold live
    by_cases hp : pub = p
    · subst hp
      by_cases hk : nonce = k
      · simp [hk, hkeep, Option.filter]
      · have hk' : k ≠ nonce := fun h => hk h.symm
        cases hs : n.seen[pub]? <;>
          simp [hk, hk', Std.ExtTreeMap.getElem?_insert, Option.filter_filter]
    · have hp' : p ≠ pub := fun h => hp h.symm
      simp [hp', Std.ExtTreeMap.getElem?_insert, hp]
  unfold check.record
  dsimp only
  split
  · rw [live_sweepLocked]
    exact hpurge
  · exact hpurge

/-- A replay leaves the cache as it is. -/
theorem check_of_live {n : NonceCache} {pub nonce : String} {now exp : ℤ}
    (h : n.live now pub nonce = some exp) : n.check pub nonce now = (false, n) := by
  obtain ⟨hexp, hlt⟩ := Option.filter_eq_some_iff.mp h
  obtain ⟨perPub, hpub, hnonce⟩ := Option.bind_eq_some_iff.mp hexp
  have hsame : n.seen.insert pub perPub = n.seen := by
    apply GoMap.ext_lookup
    intro q
    rw [GoMap.getElem?_insert_ite]
    split
    next hq => rw [← hq, hpub]
    next => rfl
  have hlt' : now < exp := by simpa using hlt
  simp [check, hpub, hnonce, hlt', hsame]

private theorem check_of_not_live {n : NonceCache} {pub nonce : String} {now : ℤ}
    (h : n.live now pub nonce = none) :
    n.check pub nonce now = check.record n pub (n.seen[pub]?.getD ∅) nonce now := by
  have hlive : n.live now pub nonce = (n.seen[pub]?.getD ∅)[nonce]?.filter (now < ·) := by
    unfold live
    cases n.seen[pub]? <;> simp
  rw [hlive] at h
  unfold check
  dsimp only
  cases hk : (n.seen[pub]?.getD ∅)[nonce]? with
  | none => rfl
  | some exp =>
    rw [hk] at h
    have hge : ¬ now < exp := by
      intro hlt
      simp [Option.filter, hlt] at h
    simp only [if_neg hge]

/-- What one check does to the live nonces, whatever it purges and sweeps. -/
theorem live_check (n : NonceCache) (pub nonce : String) (now : ℤ) (p k : String) :
    (n.check pub nonce now).2.live now p k =
      if (n.live now pub nonce).isNone ∧ p = pub ∧ k = nonce then some (now + replayKeep)
      else n.live now p k := by
  cases h : n.live now pub nonce with
  | none =>
    rw [check_of_not_live h, live_record]
    simp
  | some exp =>
    rw [check_of_live h]
    simp

theorem check_check (n : NonceCache) (pub nonce : String) (now : ℤ) :
    ((n.check pub nonce now).2.check pub nonce now).2 = (n.check pub nonce now).2 := by
  have hlive := n.live_check pub nonce now pub nonce
  have hsome : ((n.check pub nonce now).2.live now pub nonce).isSome := by
    rw [hlive]
    cases n.live now pub nonce <;> simp
  obtain ⟨exp, hexp⟩ := Option.isSome_iff_exists.mp hsome
  rw [check_of_live hexp]

end NonceCache

/-- The freshness window in exact arithmetic; the second case is the wrapped negation. -/
theorem tsFresh_iff {ts now : Int64} (h0 : 0 ≤ now.toInt) (h1 : now.toInt ≤ 2 ^ 62) :
    tsFresh ts now = true ↔ |now.toInt - ts.toInt| ≤ 300000 ∨ now.toInt - ts.toInt = 2 ^ 63 := by
  have hlo := Int64.le_toInt ts
  have hhi := Int64.toInt_lt ts
  have hw : tsWindow.toInt = 300000 := by decide
  have hz : (0 : Int64).toInt = 0 := by decide
  unfold tsFresh
  dsimp only
  rw [decide_eq_true_iff, Int64.le_iff_toInt_le, hw, abs_le]
  split
  next hneg =>
    rw [Int64.lt_iff_toInt_lt, Int64.toInt_sub, hz, Int.bmod_def] at hneg
    rw [Int64.toInt_neg, Int64.toInt_sub, Int.bmod_def, Int.bmod_def]
    omega
  next hneg =>
    rw [Int64.lt_iff_toInt_lt, Int64.toInt_sub, hz, Int.bmod_def] at hneg
    rw [Int64.toInt_sub, Int.bmod_def]
    omega

/-! ### Runs of hello checks -/

/-- A hello presented at an instant of the hub clock, or a sweep of the nonce cache. -/
inductive HelloEvent where
  | hello (f : Frame) (raw : Raw) (now : ℤ)
  | sweep (now : ℤ)

namespace HelloEvent

def now : HelloEvent → ℤ
  | .hello _ _ now => now
  | .sweep now => now

/-- The hub clock lies between the epoch and `2^62` milliseconds. -/
def InRange (e : HelloEvent) : Prop := 0 ≤ e.now ∧ e.now / 1000000 ≤ 2 ^ 62

instance : DecidablePred InRange := fun e =>
  inferInstanceAs (Decidable (0 ≤ e.now ∧ e.now / 1000000 ≤ 2 ^ 62))

end HelloEvent

abbrev HelloKey := String × String × Int64

def Frame.helloKey (f : Frame) : HelloKey := (f.pubkey, f.nonce, f.ts)

/-- The hellos that pass, in the order in which they are presented. -/
def acceptedHellos (P : Platform) : NonceCache → List HelloEvent → List HelloKey
  | _, [] => []
  | n, .sweep now :: es => acceptedHellos P (n.sweepLocked now) es
  | n, .hello f raw now :: es =>
    let r := checkHello P f raw now n
    if r.1 = none then f.helloKey :: acceptedHellos P r.2 es else acceptedHellos P r.2 es

/-- How far a timestamp lies ahead of the hub clock, in milliseconds. -/
def skew (ts : Int64) (now : ℤ) : ℤ := ts.toInt - now / 1000000

variable {P : Platform}

theorem checkHello_accepts {f : Frame} {raw : Raw} {now : ℤ} {n : NonceCache} :
    (checkHello P f raw now n).1 = none ↔
      nonceMinLen ≤ f.nonce.utf8ByteSize ∧ verifySignature P f raw f.pubkey = none ∧
      tsFresh f.ts (Int64.ofInt (now / 1000000)) = true ∧
      n.live now f.pubkey f.nonce = none := by
  have hfst := n.check_fst f.pubkey f.nonce now
  unfold checkHello
  cases hv : verifySignature P f raw f.pubkey with
  | some e => split <;> simp
  | none =>
    split
    next hlen => simp [Nat.not_le.mpr hlen]
    next hlen =>
      cases hc : n.check f.pubkey f.nonce now with
      | mk ok n' =>
        rw [hc] at hfst
        dsimp only at hfst
        cases ok <;> cases ht : tsFresh f.ts (Int64.ofInt (now / 1000000)) <;>
          cases hl : n.live now f.pubkey f.nonce <;> simp_all

/-- A check leaves the cache alone or records through `NonceCache.check`. -/
theorem checkHello_cache (f : Frame) (raw : Raw) (now : ℤ) (n : NonceCache) :
    (checkHello P f raw now n).2 = n ∨
      (checkHello P f raw now n).2 = (n.check f.pubkey f.nonce now).2 := by
  unfold checkHello
  split
  · exact .inl rfl
  split
  · exact .inl rfl
  split
  · exact .inl rfl
  · right
    split <;> simp_all

theorem checkHello_records {f : Frame} {raw : Raw} {now : ℤ} {n : NonceCache}
    (h : (checkHello P f raw now n).1 = none) :
    (checkHello P f raw now n).2.live now f.pubkey f.nonce = some (now + replayKeep) := by
  obtain ⟨hlen, hv, ht, hl⟩ := checkHello_accepts.mp h
  have hcache : (checkHello P f raw now n).2 = (n.check f.pubkey f.nonce now).2 := by
    have hok := n.check_fst f.pubkey f.nonce now
    rw [hl] at hok
    unfold checkHello
    rw [if_neg (by omega), hv]
    dsimp only
    rw [if_neg (by simp [ht])]
    cases hc : n.check f.pubkey f.nonce now with
    | mk ok n' => cases ok <;> simp_all
  rw [hcache, NonceCache.live_check, hl]
  simp

/-- A nonce accepted at `t` is still held, or its retention is over. -/
def Retained (n : NonceCache) (now : ℤ) (pub nonce : String) (t : ℤ) : Prop :=
  t + replayKeep ≤ now ∨ ∃ exp, n.live now pub nonce = some exp ∧ t + replayKeep ≤ exp

theorem Retained.later {n : NonceCache} {now later : ℤ} {pub nonce : String} {t : ℤ}
    (h : Retained n now pub nonce t) (hle : now ≤ later) : Retained n later pub nonce t := by
  by_cases hover : t + replayKeep ≤ later
  · exact .inl hover
  · rcases h with h | ⟨exp, hlive, hexp⟩
    · exact .inl (h.trans hle)
    · refine .inr ⟨exp, ?_, hexp⟩
      rw [n.live_mono hle, hlive]
      have : later < exp := by omega
      simp [this, Option.filter]

theorem Retained.checkHello {n : NonceCache} {now : ℤ} {pub nonce : String} {t : ℤ}
    (h : Retained n now pub nonce t) (f : Frame) (raw : Raw) :
    Retained (checkHello P f raw now n).2 now pub nonce t := by
  rcases checkHello_cache f raw now n with hc | hc
  · rwa [hc]
  · rw [hc]
    rcases h with h | ⟨exp, hlive, hexp⟩
    · exact .inl h
    · refine .inr ⟨exp, ?_, hexp⟩
      rw [NonceCache.live_check]
      split
      next hk =>
        obtain ⟨hnone, rfl, rfl⟩ := hk
        simp [hlive] at hnone
      next => exact hlive

private theorem toInt_nowMS {now : ℤ} (h0 : 0 ≤ now) (h1 : now / 1000000 ≤ 2 ^ 62) :
    (Int64.ofInt (now / 1000000)).toInt = now / 1000000 := by
  have hsize : (Int64.size : ℤ) = 2 ^ 64 := rfl
  rw [Int64.toInt_ofInt, Int.bmod_def, hsize]
  omega

/-- A hello stamped less than a minute ahead of the clock is stale once its nonce may be
forgotten. -/
theorem not_fresh_after_retention {ts : Int64} {t now : ℤ} (ht : 0 ≤ t ∧ t / 1000000 ≤ 2 ^ 62)
    (hn : 0 ≤ now ∧ now / 1000000 ≤ 2 ^ 62) (hskew : skew ts t < 60000)
    (hfresh : tsFresh ts (Int64.ofInt (t / 1000000)) = true) (hover : t + replayKeep ≤ now) :
    tsFresh ts (Int64.ofInt (now / 1000000)) = false := by
  have ht' := toInt_nowMS ht.1 ht.2
  have hn' := toInt_nowMS hn.1 hn.2
  rw [tsFresh_iff (by omega) (by omega), ht', abs_le] at hfresh
  rw [← Bool.not_eq_true, tsFresh_iff (by omega) (by omega), hn', abs_le]
  unfold skew at hskew
  unfold replayKeep at hover
  omega

/-- While its nonce is retained, a hello accepted at `t` is not accepted again. -/
theorem not_mem_acceptedHellos {es : List HelloEvent} {n : NonceCache} {now t : ℤ} {f : Frame}
    (hret : Retained n now f.pubkey f.nonce t) (hsorted : es.Pairwise fun a b => a.now ≤ b.now)
    (hlater : ∀ e ∈ es, now ≤ e.now) (ht : 0 ≤ t ∧ t / 1000000 ≤ 2 ^ 62)
    (hrange : ∀ e ∈ es, e.InRange) (hskew : skew f.ts t < 60000)
    (hfresh : tsFresh f.ts (Int64.ofInt (t / 1000000)) = true) :
    f.helloKey ∉ acceptedHellos P n es := by
  induction es generalizing n now with
  | nil => simp [acceptedHellos]
  | cons e es ih =>
    obtain ⟨hhead, htail⟩ := List.pairwise_cons.mp hsorted
    have hrange' : ∀ e ∈ es, e.InRange := fun x hx => hrange x (by simp [hx])
    have hret' : Retained n e.now f.pubkey f.nonce t := hret.later (hlater e (by simp))
    cases e with
    | sweep at_ =>
      refine ih (?_ : Retained (n.sweepLocked at_) at_ f.pubkey f.nonce t) htail hhead hrange'
      rcases hret' with h | ⟨exp, hlive, hexp⟩
      · exact .inl h
      · refine .inr ⟨exp, ?_, hexp⟩
        rw [HelloEvent.now] at hlive
        rw [NonceCache.live_sweepLocked, hlive]
    | hello g raw at_ =>
      have hnext := ih (hret'.checkHello (P := P) g raw) htail hhead hrange'
      unfold acceptedHellos
      dsimp only
      split
      next hacc =>
        rw [List.mem_cons, not_or]
        refine ⟨?_, hnext⟩
        intro hkey
        obtain ⟨hpub, hnonce, hts⟩ : f.pubkey = g.pubkey ∧ f.nonce = g.nonce ∧ f.ts = g.ts := by
          simpa [Frame.helloKey] using hkey
        obtain ⟨-, -, hg, hfree⟩ := checkHello_accepts.mp hacc
        rcases hret' with hover | ⟨exp, hlive, -⟩
        · have hstale := not_fresh_after_retention ht (hrange _ (by simp)) hskew hfresh hover
          rw [hts, HelloEvent.now, hg] at hstale
          exact Bool.noConfusion hstale
        · rw [hpub, hnonce, HelloEvent.now, hfree] at hlive
          simp at hlive
      next => exact hnext

/-- A signed hello that is never presented a minute or more ahead of the hub clock is accepted at
most once. -/
theorem hello_accepted_at_most_once (P : Platform) (es : List HelloEvent) (f : Frame)
    (n : NonceCache) (hsorted : es.Pairwise fun a b => a.now ≤ b.now)
    (hrange : ∀ e ∈ es, e.InRange)
    (hskew : ∀ g raw now, .hello g raw now ∈ es → g.helloKey = f.helloKey →
      skew g.ts now < 60000) :
    (acceptedHellos P n es).count f.helloKey ≤ 1 := by
  induction es generalizing n with
  | nil => simp [acceptedHellos]
  | cons e es ih =>
    obtain ⟨hhead, htail⟩ := List.pairwise_cons.mp hsorted
    have hrange' : ∀ e ∈ es, e.InRange := fun x hx => hrange x (by simp [hx])
    have hskew' : ∀ g raw now, .hello g raw now ∈ es → g.helloKey = f.helloKey →
        skew g.ts now < 60000 := fun g raw now hg => hskew g raw now (List.mem_cons_of_mem _ hg)
    cases e with
    | sweep now => exact ih _ htail hrange' hskew'
    | hello g raw now =>
      have hnext := fun n => ih n htail hrange' hskew'
      unfold acceptedHellos
      dsimp only
      split
      next hacc =>
        by_cases hkey : g.helloKey = f.helloKey
        · -- the first acceptance: from here on the nonce is retained
          have hfree := not_mem_acceptedHellos (P := P) (f := g)
            (.inr ⟨_, checkHello_records hacc, le_refl _⟩) htail hhead
            (hrange (.hello g raw now) (by simp)) hrange' (hskew g raw now (by simp) hkey)
            (checkHello_accepts.mp hacc).2.2.1
          rw [hkey, List.count_cons_self, List.count_eq_zero_of_not_mem (hkey ▸ hfree)]
        · rw [List.count_cons_of_ne hkey]
          exact hnext _
      next => exact hnext _

/-- A hello presented with the raw object its frame decodes to. -/
def sampleEvent (ts : Int64) (nowMS : ℤ) : HelloEvent :=
  .hello (sampleHello ts) (GoJson.toAnyMembers (sampleHello ts).members) (nowMS * 1000000)

theorem hello_accepted_at_most_once_sample :
    (acceptedHellos lenientPlatform {}
      [sampleEvent 1700000000000 1700000000000, .sweep (1700000100000 * 1000000),
        sampleEvent 1700000000000 1700000200000]).count (sampleHello 1700000000000).helloKey ≤ 1 :=
  hello_accepted_at_most_once lenientPlatform _ _ _ (by decide +kernel) (by decide +kernel) (by
    intro g raw now hg _
    simp only [sampleEvent, List.mem_cons, HelloEvent.hello.injEq, reduceCtorEq, List.not_mem_nil,
      or_false, false_or] at hg
    rcases hg with ⟨rfl, -, rfl⟩ | ⟨rfl, -, rfl⟩ <;> decide +kernel)

/-- Stamped 300 s ahead of the clock, one hello passes now and again 360 s later. -/
theorem future_hello_accepted_twice :
    let early := sampleEvent 1700000300000 1700000000000
    let late := sampleEvent 1700000300000 1700000360000
    [early, late].Pairwise (fun a b => a.now ≤ b.now) ∧ (∀ e ∈ [early, late], e.InRange) ∧
      ¬ (acceptedHellos lenientPlatform {} [early, late]).count
        (sampleHello 1700000300000).helloKey ≤ 1 := by
  decide +kernel

/-- The bound is exact: a hello accepted a minute or more ahead of the clock is accepted again as
soon as its nonce has expired. -/
theorem hello_replayable {f : Frame} {raw : Raw} {now : ℤ} {n : NonceCache}
    (hacc : (checkHello P f raw now n).1 = none) (hrange : 0 ≤ now ∧ now / 1000000 ≤ 2 ^ 61)
    (hskew : 60000 ≤ skew f.ts now) :
    (checkHello P f raw (now + replayKeep) (checkHello P f raw now n).2).1 = none := by
  obtain ⟨hlen, hv, ht, -⟩ := checkHello_accepts.mp hacc
  have h0 := toInt_nowMS hrange.1 (hrange.2.trans (by decide))
  have hkeep : (now + replayKeep) / 1000000 = now / 1000000 + 360000 := by
    unfold replayKeep
    omega
  have hlater : 0 ≤ now + replayKeep := by
    unfold replayKeep
    omega
  have h1 := toInt_nowMS hlater (by omega)
  refine checkHello_accepts.mpr ⟨hlen, hv, ?_, ?_⟩
  · rw [tsFresh_iff (by omega) (by omega), h0, abs_le] at ht
    rw [tsFresh_iff (by omega) (by omega), h1, hkeep, abs_le]
    unfold skew at hskew
    omega
  · rw [NonceCache.live_mono _ (by unfold replayKeep; omega : now ≤ now + replayKeep),
      checkHello_records hacc]
    simp [Option.filter]

end Dap
