import Dap.Adapter.Gloss

/-! What an abbreviation means, over every course of a conversation: own messages, drops, and the
frames of any number of peers. -/
namespace Dap
open Gloss

/-! ### Fresh abbreviations -/

namespace Gloss

theorem suffixed_injective (base : JsString) : Function.Injective (suffixed base) := by
  intro i j h
  have hstr : toString i = toString j := JsString.ofString_injective (List.append_cancel_left h)
  have hdigits : Nat.toDigits 10 i = Nat.toDigits 10 j := by
    simpa [Nat.repr] using congrArg String.toList hstr
  rw [← GoJson.digitsValue_toDigits i, hdigits, GoJson.digitsValue_toDigits]

theorem suffixed_mem_of_nextFree {base : JsString} {reserved : List JsString} {fuel i : ℕ}
    (h : nextFree base reserved fuel i ∈ reserved) :
    ∀ k ≤ fuel, suffixed base (i + k) ∈ reserved := by
  induction fuel generalizing i with
  | zero =>
    intro k hk
    obtain rfl : k = 0 := by omega
    exact h
  | succ fuel ih =>
    rw [nextFree] at h
    by_cases hi : suffixed base i ∈ reserved
    · rw [if_pos hi] at h
      intro k hk
      cases k with
      | zero => exact hi
      | succ k =>
        have hnext := ih h k (by omega)
        rwa [show i + 1 + k = i + (k + 1) by omega] at hnext
    · rw [if_neg hi] at h
      exact absurd h hi

/-- The search for a free abbreviation ends, and what it finds was never used. -/
theorem genAbbrev_notMem (term : JsString) (reserved : List JsString) :
    (genAbbrev term reserved).1 ∉ reserved := by
  change (if baseAbbrev term ∈ reserved then
    nextFree (baseAbbrev term) reserved reserved.length 2 else baseAbbrev term) ∉ reserved
  split
  next hbase =>
    intro h
    have hall := suffixed_mem_of_nextFree h
    have hnodup : ((List.range (reserved.length + 1)).map
        fun k => suffixed (baseAbbrev term) (2 + k)).Nodup := by
      refine List.nodup_range.map fun j k hjk => ?_
      have := suffixed_injective _ hjk
      omega
    have hsubset : ((List.range (reserved.length + 1)).map
        fun k => suffixed (baseAbbrev term) (2 + k)) ⊆ reserved := by
      intro a ha
      obtain ⟨k, hk, rfl⟩ := List.mem_map.mp ha
      exact hall k (by simpa using Nat.lt_succ_iff.mp (List.mem_range.mp hk))
    have hlen := (hnodup.subperm hsubset).length_le
    simp at hlen
  next hbase => exact hbase

theorem subset_addReserved (reserved : List JsString) (abbr : JsString) :
    reserved ⊆ addReserved reserved abbr := by
  unfold addReserved
  split
  · exact List.Subset.refl _
  · exact List.subset_append_left _ _

theorem mem_addReserved (reserved : List JsString) (abbr : JsString) :
    abbr ∈ addReserved reserved abbr := by
  unfold addReserved
  split
  next h => exact h
  next => simp

end Gloss

namespace Conv

theorem abbreviate_fresh (terms reserved : List JsString) :
    (∀ p ∈ (abbreviate terms reserved).1, p.1 ∈ terms ∧ p.2 ∉ reserved) ∧
      reserved ⊆ (abbreviate terms reserved).2 := by
  induction terms generalizing reserved with
  | nil => exact ⟨by simp [abbreviate], List.Subset.refl _⟩
  | cons term terms ih =>
    have hgrow : reserved ⊆ (genAbbrev term reserved).2 := subset_addReserved _ _
    obtain ⟨hfresh, hrest⟩ := ih (genAbbrev term reserved).2
    refine ⟨fun p hp => ?_, fun a ha => hrest (hgrow ha)⟩
    rcases List.mem_cons.mp hp with rfl | hmem
    · exact ⟨by simp, genAbbrev_notMem term reserved⟩
    · obtain ⟨hterm, hnot⟩ := hfresh p hmem
      exact ⟨List.mem_cons_of_mem _ hterm, fun h => hnot (hgrow h)⟩

/-! ### Active terms -/

def Active (c : Conv) (term abbr : JsString) : Prop :=
  ∃ p, c.entries.get term = some p ∧ p.state = .active ∧ p.abbr = abbr

/-- `reverse` is the inverse of the active entries. -/
def Inverse (c : Conv) : Prop :=
  ∀ abbr term, c.reverse.get abbr = some term ↔ c.Active term abbr

/-- The entry of `term` changes and has this abbreviation from now on. -/
def Binds (c c' : Conv) (term abbr : JsString) : Prop :=
  ∃ p, c'.entries.get term = some p ∧ p.abbr = abbr ∧ c.entries.get term ≠ some p

theorem Active.abbr_eq {c : Conv} {term a b : JsString} (ha : c.Active term a)
    (hb : c.Active term b) : a = b := by
  obtain ⟨p, hp, -, rfl⟩ := ha
  obtain ⟨q, hq, -, rfl⟩ := hb
  rw [hp] at hq
  rw [Option.some.inj hq]

theorem Inverse.empty : Inverse {} := by
  intro abbr term
  constructor
  · intro h
    cases h
  · rintro ⟨p, hp, -⟩
    cases hp

theorem adopt_get (c : Conv) (pair : JsString × JsString) (term : JsString) :
    (c.adopt pair).entries.get term =
      if pair.1 = term then some ⟨pair.1, pair.2, .active⟩ else c.entries.get term :=
  c.entries.get_set _ _ _

theorem active_adopt {c : Conv} {pair : JsString × JsString} {term abbr : JsString} :
    (c.adopt pair).Active term abbr ↔
      if pair.1 = term then pair.2 = abbr else c.Active term abbr := by
  unfold Active
  rw [adopt_get]
  split
  next => simp
  next => rfl

/-- A term goes live under an abbreviation that is live for no other. -/
theorem Inverse.adopt {c : Conv} (h : c.Inverse) {pair : JsString × JsString}
    (hterm : ∀ abbr, ¬ c.Active pair.1 abbr)
    (habbr : ∀ term, c.Active term pair.2 → term = pair.1) : (c.adopt pair).Inverse := by
  intro abbr term
  have hrev : (c.adopt pair).reverse.get abbr =
      if pair.2 = abbr then some pair.1 else c.reverse.get abbr := c.reverse.get_set _ _ _
  rw [hrev, active_adopt]
  by_cases ha : pair.2 = abbr
  · subst ha
    rw [if_pos rfl]
    by_cases ht : pair.1 = term
    · simp [ht]
    · rw [if_neg ht]
      refine iff_of_false (by simpa using ht) fun hact => ht (habbr term hact).symm
  · rw [if_neg ha, h abbr term]
    by_cases ht : pair.1 = term
    · subst ht
      rw [if_pos rfl]
      exact iff_of_false (hterm abbr) ha
    · rw [if_neg ht]

/-! ### Drops -/

def deactivateOne (c : Conv) (abbr : JsString) : Conv := c.deactivate [abbr]

theorem deactivate_cons (c : Conv) (abbr : JsString) (abbrs : List JsString) :
    c.deactivate (abbr :: abbrs) = (c.deactivateOne abbr).deactivate abbrs := rfl

theorem deactivateOne_cases (c : Conv) (abbr : JsString) :
    c.reverse.get abbr = none ∧ c.deactivateOne abbr = c ∨
      ∃ term, c.reverse.get abbr = some term ∧
        (c.deactivateOne abbr).entries = c.entries.delete term ∧
        (c.deactivateOne abbr).reverse = c.reverse.delete abbr ∧
        (c.deactivateOne abbr).reserved = c.reserved := by
  unfold deactivateOne deactivate
  rw [List.foldl_cons, List.foldl_nil]
  cases hr : c.reverse.get abbr with
  | none => exact Or.inl ⟨rfl, rfl⟩
  | some term => exact Or.inr ⟨term, rfl, rfl, rfl, rfl⟩

theorem active_of_delete {c c' : Conv} {gone term abbr : JsString}
    (h : c'.entries = c.entries.delete gone) :
    c'.Active term abbr ↔ gone ≠ term ∧ c.Active term abbr := by
  unfold Active
  rw [h, JsMap.get_delete]
  by_cases hg : gone = term <;> simp [hg]

theorem Inverse.deactivateOne {c : Conv} (h : c.Inverse) (abbr : JsString) :
    (c.deactivateOne abbr).Inverse := by
  rcases c.deactivateOne_cases abbr with ⟨-, hsame⟩ | ⟨gone, hget, hentries, hreverse, -⟩
  · rwa [hsame]
  · have hgone := (h abbr gone).mp hget
    intro a term
    rw [active_of_delete hentries, hreverse, JsMap.get_delete]
    by_cases ha : abbr = a
    · subst ha
      rw [if_pos rfl]
      refine iff_of_false (by simp) fun ⟨hne, hact⟩ => hne ?_
      have hterm := (h abbr term).mpr hact
      rw [hget] at hterm
      exact Option.some.inj hterm
    · rw [if_neg ha, h a term]
      refine ⟨fun hact => ⟨?_, hact⟩, And.right⟩
      rintro rfl
      exact ha (hgone.abbr_eq hact)

/-- What a drop leaves was there before. -/
structure Drops (c c' : Conv) : Prop where
  inverse : c.Inverse → c'.Inverse
  get : ∀ term p, c'.entries.get term = some p → c.entries.get term = some p
  reserved : c'.reserved = c.reserved

theorem Drops.refl (c : Conv) : Drops c c := ⟨id, fun _ _ => id, rfl⟩

theorem deactivate_drops (c : Conv) (abbrs : List JsString) : Drops c (c.deactivate abbrs) := by
  induction abbrs generalizing c with
  | nil => exact Drops.refl c
  | cons abbr abbrs ih =>
    rw [deactivate_cons]
    obtain ⟨hinverse, hget, hreserved⟩ := ih (c.deactivateOne abbr)
    rcases c.deactivateOne_cases abbr with ⟨-, hsame⟩ | ⟨gone, -, hentries, -, hres⟩
    · rw [hsame] at hinverse hget hreserved ⊢
      exact ⟨hinverse, hget, hreserved⟩
    · refine ⟨fun h => hinverse (h.deactivateOne abbr), fun term p hp => ?_, hreserved.trans hres⟩
      have hone := hget term p hp
      rw [hentries, JsMap.get_delete] at hone
      split at hone
      · cases hone
      · exact hone

/-! ### Own messages -/

/-- What proposals leave: the terms they name get fresh abbreviations that are not live yet. -/
structure Proposes (c c' : Conv) : Prop where
  reverse : c'.reverse = c.reverse
  active : ∀ term abbr, c'.Active term abbr ↔ c.Active term abbr
  binds : ∀ term abbr, Binds c c' term abbr → abbr ∉ c.reserved
  reserved : c.reserved ⊆ c'.reserved

theorem propose_foldl_get (proposals : List (JsString × JsString)) (c : Conv) (term : JsString) :
    ((∀ p ∈ proposals, p.1 ≠ term) ∧
        (proposals.foldl propose c).entries.get term = c.entries.get term) ∨
      ∃ p ∈ proposals, p.1 = term ∧
        (proposals.foldl propose c).entries.get term = some ⟨term, p.2, .proposed⟩ := by
  induction proposals generalizing c with
  | nil => exact Or.inl ⟨by simp, rfl⟩
  | cons p proposals ih =>
    rw [List.foldl_cons]
    rcases ih (c.propose p) with ⟨hnot, hget⟩ | ⟨q, hq, hterm, hget⟩
    · have hset : (c.propose p).entries.get term =
          if p.1 = term then some ⟨p.1, p.2, .proposed⟩ else c.entries.get term :=
        c.entries.get_set _ _ _
      rw [hget, hset]
      by_cases hp : p.1 = term
      · exact Or.inr ⟨p, by simp, hp, by rw [if_pos hp, hp]⟩
      · refine Or.inl ⟨fun q hq => ?_, if_neg hp⟩
        rcases List.mem_cons.mp hq with rfl | hmem
        · exact hp
        · exact hnot q hmem
    · exact Or.inr ⟨q, List.mem_cons_of_mem p hq, hterm, hget⟩

theorem propose_foldl_frame (proposals : List (JsString × JsString)) (c : Conv) :
    (proposals.foldl propose c).reverse = c.reverse ∧
      (proposals.foldl propose c).reserved = c.reserved := by
  induction proposals generalizing c with
  | nil => exact ⟨rfl, rfl⟩
  | cons p proposals ih => exact ih (c.propose p)

theorem get_of_mem_candidates {c : Conv} {term : JsString} (h : term ∈ c.candidates) :
    c.entries.get term = none := by
  obtain ⟨e, he, rfl⟩ := List.mem_map.mp h
  have hkeep := (List.mem_filter.mp he).2
  simp only [decide_eq_true_eq] at hkeep
  exact hkeep.2.2.1

theorem sayTo_proposes (c : Conv) (text : JsString) : Proposes c (c.sayTo text).1 := by
  obtain ⟨hfresh, hgrow⟩ := abbreviate_fresh (c.observe text).candidates c.reserved
  have hframe := propose_foldl_frame (abbreviate (c.observe text).candidates c.reserved).1
    { c.observe text with reserved := (abbreviate (c.observe text).candidates c.reserved).2 }
  have hget := propose_foldl_get (abbreviate (c.observe text).candidates c.reserved).1
    { c.observe text with reserved := (abbreviate (c.observe text).candidates c.reserved).2 }
  change Proposes c ((abbreviate (c.observe text).candidates c.reserved).1.foldl propose
    { c.observe text with reserved := (abbreviate (c.observe text).candidates c.reserved).2 })
  refine ⟨hframe.1, fun term abbr => ?_, fun term abbr hbinds => ?_, ?_⟩
  · unfold Active
    rcases hget term with ⟨-, hsame⟩ | ⟨p, hp, rfl, hnew⟩
    · rw [hsame]
      rfl
    · have hnone : c.entries.get p.1 = none :=
        get_of_mem_candidates (c := c.observe text) (hfresh p hp).1
      rw [hnew, hnone]
      simp
  · obtain ⟨q, hq, rfl, hne⟩ := hbinds
    rcases hget term with ⟨-, hsame⟩ | ⟨p, hp, rfl, hnew⟩
    · rw [hsame] at hq
      exact absurd hq hne
    · rw [hnew] at hq
      obtain rfl := Option.some.inj hq
      exact (hfresh p hp).2
  · rw [hframe.2]
    exact hgrow

/-! ### Frames of the peers -/

/-- Is a pair taken over whose term has this entry here? -/
def wantsProposed (cur : Option GlossPair) : Bool := cur.all fun p => p.state ≠ .active

def wantsAcked (cur : Option GlossPair) : Bool := cur.any fun p => p.state = .proposed

/-- The pairs that are taken over from a frame. -/
def taken (wants : Option GlossPair → Bool) : Conv → List (JsString × JsString) →
    List (JsString × JsString)
  | _, [] => []
  | c, pair :: pairs =>
    if wants (c.entries.get pair.1) then pair :: taken wants (c.adopt pair) pairs
    else taken wants c pairs

def adopted (c : Conv) (frame : GlossFrame) : List (JsString × JsString) :=
  if frame.act = some "propose" then taken wantsProposed c (frame.entries.getD [])
  else if frame.act = some "ack" then taken wantsAcked c (frame.entries.getD [])
  else []

theorem onProposed_foldl (pairs : List (JsString × JsString)) (c : Conv)
    (ack : List (JsString × JsString)) :
    (pairs.foldl onProposed (c, ack)).1 = (taken wantsProposed c pairs).foldl adopt c := by
  induction pairs generalizing c ack with
  | nil => rfl
  | cons pair pairs ih =>
    rw [List.foldl_cons, taken]
    cases hget : c.entries.get pair.1 with
    | none => simpa [onProposed, hget, wantsProposed] using ih (c.adopt pair) _
    | some p =>
      obtain ⟨term, abbr, state⟩ := p
      cases state with
      | proposed => simpa [onProposed, hget, wantsProposed] using ih (c.adopt pair) _
      | active => simpa [onProposed, hget, wantsProposed] using ih c _

theorem onAcked_foldl (pairs : List (JsString × JsString)) (c : Conv) :
    pairs.foldl onAcked c = (taken wantsAcked c pairs).foldl adopt c := by
  induction pairs generalizing c with
  | nil => rfl
  | cons pair pairs ih =>
    rw [List.foldl_cons, taken]
    cases hget : c.entries.get pair.1 with
    | none => simpa [onAcked, hget, wantsAcked] using ih c
    | some p =>
      obtain ⟨term, abbr, state⟩ := p
      cases state with
      | proposed => simpa [onAcked, hget, wantsAcked] using ih (c.adopt pair)
      | active => simpa [onAcked, hget, wantsAcked] using ih c

/-- What is taken over from a frame: no term twice, and none that is live already. -/
structure Takes (c : Conv) (pairs : List (JsString × JsString)) : Prop where
  nodup : (pairs.map Prod.fst).Nodup
  idle : ∀ p ∈ pairs, ∀ abbr, ¬ c.Active p.1 abbr

theorem Takes.nil (c : Conv) : Takes c [] := ⟨List.nodup_nil, by simp⟩

theorem taken_takes {wants : Option GlossPair → Bool}
    (hwants : ∀ p : GlossPair, p.state = .active → wants (some p) = false) (c : Conv)
    (pairs : List (JsString × JsString)) : Takes c (taken wants c pairs) := by
  induction pairs generalizing c with
  | nil => exact Takes.nil c
  | cons pair pairs ih =>
    rw [taken]
    split
    next hwant =>
      obtain ⟨hnodup, hidle⟩ := ih (c.adopt pair)
      have hother : ∀ q ∈ taken wants (c.adopt pair) pairs, pair.1 ≠ q.1 := by
        intro q hq heq
        refine hidle q hq pair.2 (active_adopt.mpr ?_)
        rw [if_pos heq]
      refine ⟨?_, fun q hq abbr hact => ?_⟩
      · rw [List.map_cons, List.nodup_cons]
        refine ⟨fun hmem => ?_, hnodup⟩
        obtain ⟨q, hq, heq⟩ := List.mem_map.mp hmem
        exact hother q hq heq.symm
      · rcases List.mem_cons.mp hq with rfl | hmem
        · obtain ⟨p, hp, hstate, -⟩ := hact
          rw [hp, hwants p hstate] at hwant
          cases hwant
        · refine hidle q hmem abbr (active_adopt.mpr ?_)
          rw [if_neg (hother q hmem)]
          exact hact
    next => exact ih c

theorem handleGloss_cases (c : Conv) (frame : GlossFrame) :
    Takes c (c.adopted frame) ∧ (c.handleGloss frame).1 = (c.adopted frame).foldl adopt c ∨
      c.adopted frame = [] ∧ Drops c (c.handleGloss frame).1 := by
  unfold adopted handleGloss
  by_cases hpropose : frame.act = some "propose"
  · rw [if_pos hpropose, if_pos hpropose]
    exact Or.inl ⟨taken_takes (fun p hp => by simp [wantsProposed, hp]) _ _,
      onProposed_foldl _ _ _⟩
  · rw [if_neg hpropose, if_neg hpropose]
    by_cases hack : frame.act = some "ack"
    · rw [if_pos hack, if_pos hack]
      exact Or.inl ⟨taken_takes (fun p hp => by simp [wantsAcked, hp]) _ _, onAcked_foldl _ _⟩
    · rw [if_neg hack, if_neg hack]
      split
      · exact Or.inr ⟨rfl, deactivate_drops _ _⟩
      · exact Or.inr ⟨rfl, Drops.refl c⟩

theorem Takes.tail {c : Conv} {pair : JsString × JsString} {pairs : List (JsString × JsString)}
    (h : Takes c (pair :: pairs)) : Takes (c.adopt pair) pairs := by
  obtain ⟨hnot, hnodup⟩ := List.nodup_cons.mp h.nodup
  refine ⟨hnodup, fun q hq abbr hact => ?_⟩
  rw [active_adopt] at hact
  split at hact
  next heq => exact hnot (heq ▸ List.mem_map_of_mem hq)
  next => exact h.idle q (List.mem_cons_of_mem pair hq) abbr hact

theorem adopt_foldl_get {pairs : List (JsString × JsString)} {c : Conv} (h : Takes c pairs)
    (term : JsString) :
    ((∀ p ∈ pairs, p.1 ≠ term) ∧
        (pairs.foldl adopt c).entries.get term = c.entries.get term) ∨
      ∃ p ∈ pairs, p.1 = term ∧
        (pairs.foldl adopt c).entries.get term = some ⟨term, p.2, .active⟩ := by
  induction pairs generalizing c with
  | nil => exact Or.inl ⟨by simp, rfl⟩
  | cons pair pairs ih =>
    rw [List.foldl_cons]
    rcases ih h.tail with ⟨hnot, hget⟩ | ⟨q, hq, hterm, hget⟩
    · rw [hget, adopt_get]
      by_cases hp : pair.1 = term
      · exact Or.inr ⟨pair, by simp, hp, by rw [if_pos hp, hp]⟩
      · refine Or.inl ⟨fun q hq => ?_, if_neg hp⟩
        rcases List.mem_cons.mp hq with rfl | hmem
        · exact hp
        · exact hnot q hmem
    · exact Or.inr ⟨q, List.mem_cons_of_mem pair hq, hterm, hget⟩

theorem Takes.binds {c : Conv} {pairs : List (JsString × JsString)} (h : Takes c pairs)
    {term abbr : JsString} (hbinds : Binds c (pairs.foldl adopt c) term abbr) :
    (term, abbr) ∈ pairs := by
  obtain ⟨q, hq, rfl, hne⟩ := hbinds
  rcases adopt_foldl_get h term with ⟨-, hsame⟩ | ⟨p, hp, rfl, hnew⟩
  · rw [hsame] at hq
    exact absurd hq hne
  · rw [hnew] at hq
    obtain rfl := Option.some.inj hq
    exact hp

/-- What is taken over is live afterwards, and was not before. -/
theorem Takes.live {c : Conv} {pairs : List (JsString × JsString)} (h : Takes c pairs)
    {pair : JsString × JsString} (hpair : pair ∈ pairs) :
    (pairs.foldl adopt c).Active pair.1 pair.2 ∧ Binds c (pairs.foldl adopt c) pair.1 pair.2 := by
  have hget : (pairs.foldl adopt c).entries.get pair.1 = some ⟨pair.1, pair.2, .active⟩ := by
    rcases adopt_foldl_get h pair.1 with ⟨hnot, -⟩ | ⟨q, hq, hterm, hget⟩
    · exact absurd rfl (hnot pair hpair)
    · obtain rfl := List.inj_on_of_nodup_map h.nodup hq hpair hterm
      exact hget
  refine ⟨⟨_, hget, rfl, rfl⟩, ⟨_, hget, rfl, fun hold => ?_⟩⟩
  exact h.idle pair hpair pair.2 ⟨_, hold, rfl, rfl⟩

/-- The state agrees with the pairs that were taken over so far. -/
structure Sound (c : Conv) (past : List (JsString × JsString)) : Prop where
  inverse : c.Inverse
  live : ∀ term abbr, c.Active term abbr → (term, abbr) ∈ past
  reserved : ∀ p ∈ past, p.2 ∈ c.reserved

/-- No abbreviation comes with two terms. -/
def Apart (pairs : List (JsString × JsString)) : Prop :=
  pairs.Pairwise fun p q => p.2 = q.2 → p.1 = q.1

theorem Sound.adopt {c : Conv} {past : List (JsString × JsString)} (h : Sound c past)
    {pair : JsString × JsString} (hidle : ∀ abbr, ¬ c.Active pair.1 abbr)
    (hapart : ∀ p ∈ past, p.2 = pair.2 → p.1 = pair.1) :
    Sound (c.adopt pair) (past ++ [pair]) := by
  refine ⟨h.inverse.adopt hidle fun term hact => ?_, fun term abbr hact => ?_, fun p hp => ?_⟩
  · exact hapart (term, pair.2) (h.live term pair.2 hact) rfl
  · rw [active_adopt] at hact
    split at hact
    next hterm => simp [← hterm, ← hact]
    next => exact List.mem_append_left _ (h.live term abbr hact)
  · rcases List.mem_append.mp hp with hpast | hpair
    · exact subset_addReserved _ _ (h.reserved p hpast)
    · rw [List.mem_singleton.mp hpair]
      exact mem_addReserved _ _

theorem Sound.adopt_foldl {pairs : List (JsString × JsString)} {c : Conv}
    {past : List (JsString × JsString)} (h : Sound c past) (htakes : Takes c pairs)
    (hapart : Apart (past ++ pairs)) : Sound (pairs.foldl Conv.adopt c) (past ++ pairs) := by
  induction pairs generalizing c past with
  | nil => simpa using h
  | cons pair pairs ih =>
    have hbefore := (List.pairwise_append.mp hapart).2.2
    have hone := h.adopt (htakes.idle pair (by simp))
      fun p hp heq => hbefore p hp pair (by simp) heq
    have hrest := ih hone htakes.tail (by simpa using hapart)
    simpa using hrest

theorem Sound.drops {c c' : Conv} {past : List (JsString × JsString)} (h : Sound c past)
    (hdrops : Drops c c') : Sound c' past := by
  refine ⟨hdrops.inverse h.inverse, fun term abbr hact => ?_, fun p hp => ?_⟩
  · obtain ⟨p, hp, hrest⟩ := hact
    exact h.live term abbr ⟨p, hdrops.get term p hp, hrest⟩
  · rw [hdrops.reserved]
    exact h.reserved p hp

theorem Sound.proposes {c c' : Conv} {past : List (JsString × JsString)} (h : Sound c past)
    (hp : Proposes c c') : Sound c' past := by
  refine ⟨fun abbr term => ?_, fun term abbr hact => ?_, fun p hpast => ?_⟩
  · rw [hp.reverse, hp.active]
    exact h.inverse abbr term
  · exact h.live term abbr ((hp.active term abbr).mp hact)
  · exact hp.reserved (h.reserved p hpast)

end Conv

end Dap
