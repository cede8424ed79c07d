import Dap.Adapter.Compaction
import Dap.Adapter.GlossSends

/-! The abbreviations an agent generates: the search for them ends, and no two are alike. -/
namespace Dap
open Gloss

namespace Gloss

/-- The loop of `genAbbrev`: `abbr` is tried now, `i` numbers the next one. -/
def searchFree (base : JsString) (reserved : List JsString) : ℕ → ℕ → JsString → Option JsString
  | 0, _, _ => none
  | fuel + 1, i, abbr =>
    if abbr ∈ reserved then searchFree base reserved fuel (i + 1) (suffixed base i) else some abbr

def digit (u : UInt16) : Bool := 0x30 ≤ u && u ≤ 0x39

/-- `[a-z]{1,4}[0-9]*` -/
def AbbrevShape (abbr : JsString) : Prop :=
  ∃ stem digits, abbr = stem ++ digits ∧ stem ≠ [] ∧ stem.length ≤ maxAbbrev ∧
    (∀ u ∈ stem, letter u = true) ∧ ∀ u ∈ digits, digit u = true

/-- A marked abbreviation is one token of a body, whatever follows that is no part of a word. -/
def OneToken (abbr : JsString) : Prop :=
  ∀ (c : Conv) (rest : JsString), Shorthand.atBreak wordUnit rest = true →
    c.expand (tilde :: (abbr ++ rest)) =
      (c.reverse.get abbr).getD (tilde :: abbr) ++ c.expand rest

/-- One call of `genAbbrev`. -/
structure FreshAbbrev (term : JsString) (reserved : List JsString) : Prop where
  ends : ∃ n, ∀ fuel, n ≤ fuel → searchFree (baseAbbrev term) reserved fuel 2 (baseAbbrev term) =
    some (genAbbrev term reserved).1
  shape : AbbrevShape (genAbbrev term reserved).1
  fresh : (genAbbrev term reserved).1 ∉ reserved
  recorded : (genAbbrev term reserved).1 ∈ (genAbbrev term reserved).2
  oneToken : OneToken (genAbbrev term reserved).1

/-! ### The search -/

theorem searchFree_nextFree {base : JsString} {reserved : List JsString} {n i : ℕ}
    (h : nextFree base reserved n i ∉ reserved) (k : ℕ) :
    searchFree base reserved (n + 1 + k) (i + 1) (suffixed base i) =
      some (nextFree base reserved n i) := by
  induction n generalizing i with
  | zero =>
    rw [nextFree] at h ⊢
    rw [show 0 + 1 + k = k + 1 by omega, searchFree, if_neg h]
  | succ n ih =>
    rw [nextFree] at h ⊢
    rw [show n + 1 + 1 + k = n + 1 + k + 1 by omega, searchFree]
    by_cases hi : suffixed base i ∈ reserved
    · rw [if_pos hi] at h ⊢
      rw [if_pos hi]
      exact ih h
    · rw [if_neg hi, if_neg hi]

theorem searchFree_genAbbrev (term : JsString) (reserved : List JsString) {fuel : ℕ}
    (h : reserved.length + 2 ≤ fuel) :
    searchFree (baseAbbrev term) reserved fuel 2 (baseAbbrev term) =
      some (genAbbrev term reserved).1 := by
  have hfree := genAbbrev_notMem term reserved
  change (if baseAbbrev term ∈ reserved then
    nextFree (baseAbbrev term) reserved reserved.length 2 else baseAbbrev term) ∉ reserved at hfree
  show _ = some (if baseAbbrev term ∈ reserved then
    nextFree (baseAbbrev term) reserved reserved.length 2 else baseAbbrev term)
  obtain ⟨k, rfl⟩ := Nat.exists_eq_add_of_le h
  rw [show reserved.length + 2 + k = reserved.length + 1 + k + 1 by omega, searchFree]
  by_cases hbase : baseAbbrev term ∈ reserved
  · rw [if_pos hbase] at hfree
    rw [if_pos hbase, if_pos hbase]
    exact searchFree_nextFree hfree k
  · rw [if_neg hbase, if_neg hbase]

/-! ### The shape -/

theorem length_baseAbbrev_le (term : JsString) : (baseAbbrev term).length ≤ maxAbbrev := by
  unfold baseAbbrev
  split
  · exact List.length_take_le _ _
  · exact List.length_take_le _ _

theorem nextFree_suffixed (base : JsString) (reserved : List JsString) (fuel i : ℕ) :
    ∃ k, nextFree base reserved fuel i = suffixed base k := by
  induction fuel generalizing i with
  | zero => exact ⟨i, rfl⟩
  | succ fuel ih =>
    rw [nextFree]
    split
    · exact ih (i + 1)
    · exact ⟨i, rfl⟩

theorem genAbbrev_shape {text term : JsString} (h : term ∈ ngrams text) (reserved : List JsString) :
    AbbrevShape (genAbbrev term reserved).1 := by
  obtain ⟨hne, hletters⟩ := (ngrams_isTerm h).baseAbbrev
  have hlen := length_baseAbbrev_le term
  show AbbrevShape (if baseAbbrev term ∈ reserved then
    nextFree (baseAbbrev term) reserved reserved.length 2 else baseAbbrev term)
  split
  · obtain ⟨k, hk⟩ := nextFree_suffixed (baseAbbrev term) reserved reserved.length 2
    rw [hk]
    exact ⟨_, _, rfl, hne, hlen, hletters, fun u hu => ofString_digits hu⟩
  · exact ⟨baseAbbrev term, [], (List.append_nil _).symm, hne, hlen, hletters, by simp⟩

theorem AbbrevShape.oneToken {abbr : JsString} (h : AbbrevShape abbr) : OneToken abbr := by
  obtain ⟨stem, digits, rfl, hne, -, hletters, hdigits⟩ := h
  intro c rest hrest
  apply Shorthand.expandFrom_token
  · simp [hne]
  · intro u hu
    unfold wordUnit
    rcases List.mem_append.mp hu with hu | hu
    · rw [hletters u hu, Bool.true_or]
    · have hdigit := hdigits u hu
      unfold digit at hdigit
      rw [hdigit, Bool.or_true]
  · exact hrest

theorem genAbbrev_freshAbbrev {text term : JsString} (h : term ∈ ngrams text)
    (reserved : List JsString) : FreshAbbrev term reserved where
  ends := ⟨reserved.length + 2, fun _ hfuel => searchFree_genAbbrev term reserved hfuel⟩
  shape := genAbbrev_shape h reserved
  fresh := genAbbrev_notMem term reserved
  recorded := mem_addReserved reserved _
  oneToken := (genAbbrev_shape h reserved).oneToken

end Gloss

/-! ### Whole conversations -/

namespace Conv

theorem abbreviate_nodup (terms reserved : List JsString) :
    ((abbreviate terms reserved).1.map Prod.snd).Nodup := by
  induction terms generalizing reserved with
  | nil => exact List.nodup_nil
  | cons term terms ih =>
    apply List.nodup_cons.mpr
    constructor
    · intro hmem
      obtain ⟨p, hp, heq⟩ := List.mem_map.mp hmem
      have hfresh := ((abbreviate_fresh terms (genAbbrev term reserved).2).1 p hp).2
      rw [heq] at hfresh
      exact hfresh (mem_addReserved reserved _)
    · exact ih (genAbbrev term reserved).2

theorem mem_abbreviate {terms reserved : List JsString} {p : JsString × JsString}
    (h : p ∈ (abbreviate terms reserved).1) :
    p.1 ∈ terms ∧ ∃ used, p.2 = (genAbbrev p.1 used).1 := by
  induction terms generalizing reserved with
  | nil => simp [abbreviate] at h
  | cons term terms ih =>
    rcases List.mem_cons.mp h with rfl | hmem
    · exact ⟨List.mem_cons_self, reserved, rfl⟩
    · obtain ⟨hterm, hused⟩ := ih hmem
      exact ⟨List.mem_cons_of_mem term hterm, hused⟩

/-- Only n-grams of own texts are counted. -/
def CountsNgrams (c : Conv) : Prop :=
  ∀ term n, c.seen.get term = some n → ∃ text, term ∈ ngrams text

theorem CountsNgrams.observe {c : Conv} (h : c.CountsNgrams) (text : JsString) :
    (c.observe text).CountsNgrams := by
  have hfold : ∀ (terms : List JsString) (seen : JsMap JsString ℕ),
      (∀ term ∈ terms, ∃ text, term ∈ ngrams text) →
      (∀ term n, seen.get term = some n → ∃ text, term ∈ ngrams text) →
      ∀ term n, (terms.foldl (fun seen term => seen.set term ((seen.get term).getD 0 + 1))
        seen).get term = some n → ∃ text, term ∈ ngrams text := by
    intro terms
    induction terms with
    | nil => exact fun _ _ hseen => hseen
    | cons t terms ih =>
      intro seen hterms hseen
      apply ih _ fun term hterm => hterms term (List.mem_cons_of_mem t hterm)
      intro term n hget
      rw [JsMap.get_set] at hget
      split at hget
      next heq => exact heq ▸ hterms t List.mem_cons_self
      next => exact hseen term n hget
  exact hfold _ c.seen (fun term hterm => ⟨text, List.mem_eraseDups.mp hterm⟩) h

theorem seen_adopt_foldl (pairs : List (JsString × JsString)) (c : Conv) :
    (pairs.foldl adopt c).seen = c.seen := by
  induction pairs generalizing c with
  | nil => rfl
  | cons p pairs ih => exact ih (c.adopt p)

theorem seen_propose_foldl (pairs : List (JsString × JsString)) (c : Conv) :
    (pairs.foldl propose c).seen = c.seen := by
  induction pairs generalizing c with
  | nil => rfl
  | cons p pairs ih => exact ih (c.propose p)

theorem seen_deactivate (c : Conv) (abbrs : List JsString) :
    (c.deactivate abbrs).seen = c.seen := by
  induction abbrs generalizing c with
  | nil => rfl
  | cons abbr abbrs ih =>
    rw [deactivate_cons, ih]
    unfold deactivateOne deactivate
    rw [List.foldl_cons, List.foldl_nil]
    split <;> rfl

theorem seen_handleGloss (c : Conv) (frame : GlossFrame) :
    (c.handleGloss frame).1.seen = c.seen := by
  unfold handleGloss
  split
  · show ((frame.entries.getD []).foldl onProposed (c, [])).1.seen = c.seen
    rw [onProposed_foldl, seen_adopt_foldl]
  · split
    · show ((frame.entries.getD []).foldl onAcked c).seen = c.seen
      rw [onAcked_foldl, seen_adopt_foldl]
    · split
      · exact c.seen_deactivate _
      · rfl

theorem seen_sayTo (c : Conv) (text : JsString) : (c.sayTo text).1.seen = (c.observe text).seen :=
  seen_propose_foldl _ _

end Conv

namespace GlossAgent
open Conv

variable {agentId key : JsString}

/-- What an event proposes in the conversation. -/
def generatedBy (a : GlossAgent) (key : JsString) : GlossEvent → List (JsString × JsString)
  | .say dest text => if dest.key = key then ((a.conv dest.key).sayTo text).2 else []
  | _ => []

def generatedFrom (key : JsString) : GlossAgent → List GlossEvent → List (JsString × JsString)
  | _, [] => []
  | a, e :: es => a.generatedBy key e ++ generatedFrom key (a.step e) es

/-- Every term that gets an abbreviation of the agent's own in the conversation. -/
def generated (agentId key : JsString) (es : List GlossEvent) : List (JsString × JsString) :=
  generatedFrom key { agentId } es

theorem generatedFrom_concat (a : GlossAgent) (es : List GlossEvent) (e : GlossEvent) :
    generatedFrom key a (es ++ [e]) =
      generatedFrom key a es ++ (es.foldl step a).generatedBy key e := by
  induction es generalizing a with
  | nil => exact (List.append_nil _).trans (List.nil_append _).symm
  | cons e' es ih =>
    rw [List.cons_append, generatedFrom, generatedFrom, ih, List.append_assoc]
    rfl

theorem step_countsNgrams {a : GlossAgent} (h : (a.conv key).CountsNgrams) (e : GlossEvent) :
    ((a.step e).conv key).CountsNgrams := by
  cases e with
  | say dest text =>
    rw [conv_say]
    split
    next hkey =>
      subst hkey
      unfold CountsNgrams
      rw [seen_sayTo]
      exact h.observe text
    next => exact h
  | body dest text => exact h
  | drop channel abbr =>
    change ((a.setConv (Dest.channel channel).key
      ((a.conv (Dest.channel channel).key).deactivate [abbr])).conv key).CountsNgrams
    rw [conv_setConv]
    split
    next hkey =>
      subst hkey
      unfold CountsNgrams
      rwa [seen_deactivate]
    next => exact h
  | inbound m =>
    rcases a.inbound_cases m with ⟨⟨hstep, -⟩, -⟩ | ⟨frame, -, hstep, -, -⟩
    · rwa [hstep]
    · rw [hstep, conv_setConv]
      split
      next hkey =>
        subst hkey
        unfold CountsNgrams
        rwa [seen_handleGloss]
      next => exact h

theorem run_countsNgrams (agentId key : JsString) (es : List GlossEvent) :
    ((run agentId es).conv key).CountsNgrams := by
  induction es using List.reverseRecOn with
  | nil =>
    intro term n hget
    cases hget
  | append_singleton es e ih =>
    rw [run, List.foldl_append]
    exact step_countsNgrams ih e

/-- A term that is proposed was said, and is long enough. -/
theorem mem_generatedBy {a : GlossAgent} (hcounts : (a.conv key).CountsNgrams) {e : GlossEvent}
    {p : JsString × JsString} (h : p ∈ a.generatedBy key e) :
    (∃ text, p.1 ∈ ngrams text) ∧ minTerm ≤ p.1.length ∧
      (∃ used, p.2 = (genAbbrev p.1 used).1) ∧
      p.2 ∉ (a.conv key).reserved ∧ p.2 ∈ ((a.step e).conv key).reserved := by
  cases e with
  | say dest text =>
    unfold generatedBy at h
    dsimp only at h
    split at h
    next hkey =>
      subst hkey
      obtain ⟨hterm, hused⟩ := mem_abbreviate h
      obtain ⟨entry, hentry, hfst⟩ := List.mem_map.mp hterm
      obtain ⟨hseen, hkeep⟩ := List.mem_filter.mp hentry
      have hget := JsMap.mem_entries.mp hseen
      obtain ⟨-, hlen, -⟩ := of_decide_eq_true hkeep
      rw [hfst] at hlen hget
      have hfresh := (a.conv dest.key).sayTo_fresh text p h
      rw [conv_say, if_pos rfl]
      exact ⟨hcounts.observe text _ _ hget, hlen, hused, hfresh⟩
    next => cases h
  | body dest text => cases h
  | drop channel abbr => cases h
  | inbound m => cases h

theorem nodup_generatedBy (a : GlossAgent) (key : JsString) (e : GlossEvent) :
    ((a.generatedBy key e).map Prod.snd).Nodup := by
  cases e with
  | say dest text =>
    unfold generatedBy
    dsimp only
    split
    · exact abbreviate_nodup _ _
    · exact List.nodup_nil
  | body dest text => exact List.nodup_nil
  | drop channel abbr => exact List.nodup_nil
  | inbound m => exact List.nodup_nil

theorem run_generated (agentId key : JsString) (es : List GlossEvent) :
    ((generated agentId key es).map Prod.snd).Nodup ∧
      ∀ p ∈ generated agentId key es, p.2 ∈ ((run agentId es).conv key).reserved ∧
        (∃ text, p.1 ∈ ngrams text) ∧ minTerm ≤ p.1.length ∧
          ∃ used, p.2 = (genAbbrev p.1 used).1 := by
  induction es using List.reverseRecOn with
  | nil => exact ⟨List.nodup_nil, by simp [generated, generatedFrom]⟩
  | append_singleton es e ih =>
    obtain ⟨hnodup, hold⟩ := ih
    have hcounts := run_countsNgrams agentId key es
    have hgenerated : generated agentId key (es ++ [e]) =
        generated agentId key es ++ (run agentId es).generatedBy key e :=
      generatedFrom_concat { agentId } es e
    have hrun : run agentId (es ++ [e]) = (run agentId es).step e := by
      rw [run, List.foldl_append]
      rfl
    rw [hgenerated, hrun]
    constructor
    · rw [List.map_append]
      apply List.nodup_append.mpr
      refine ⟨hnodup, nodup_generatedBy _ key e, fun abbr hmem abbr' hmem' heq => ?_⟩
      obtain ⟨p, hp, rfl⟩ := List.mem_map.mp hmem
      obtain ⟨q, hq, rfl⟩ := List.mem_map.mp hmem'
      obtain ⟨-, -, -, hfresh, -⟩ := mem_generatedBy hcounts hq
      rw [← heq] at hfresh
      exact hfresh (hold p hp).1
    · intro p hp
      rcases List.mem_append.mp hp with hp | hp
      · obtain ⟨hreserved, hrest⟩ := hold p hp
        exact ⟨(run agentId es).step_reserved key e hreserved, hrest⟩
      · obtain ⟨htext, hlen, hused, -, hreserved⟩ := mem_generatedBy hcounts hp
        exact ⟨hreserved, htext, hlen, hused⟩

/-- Every call of `genAbbrev` for a term of a text finds a fresh abbreviation, and the abbreviations
generated in one conversation differ, whatever the peers send in between. -/
theorem generated_fresh (agentId key : JsString) (es : List GlossEvent) :
    (∀ text term reserved, term ∈ ngrams text → minTerm ≤ term.length →
        FreshAbbrev term reserved) ∧
      ((generated agentId key es).map Prod.snd).Nodup ∧
      ∀ p ∈ generated agentId key es, AbbrevShape p.2 ∧ OneToken p.2 := by
  obtain ⟨hnodup, hmem⟩ := run_generated agentId key es
  refine ⟨fun text term reserved hterm _ => genAbbrev_freshAbbrev hterm reserved, hnodup, ?_⟩
  intro p hp
  obtain ⟨-, ⟨text, htext⟩, -, used, hused⟩ := hmem p hp
  have hshape := genAbbrev_shape htext used
  rw [← hused] at hshape
  exact ⟨hshape, hshape.oneToken⟩

end GlossAgent

end Dap
