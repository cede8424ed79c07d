import Dap.Adapter.Glossary

/-! Whole conversations of an agent: when each abbreviation means one thing throughout. -/
namespace Dap
open Gloss Conv

/-- What can happen to an agent: `body` is the second half of a `sayTo`. -/
inductive GlossEvent where
  | say (dest : Dest) (text : JsString)
  | body (dest : Dest) (text : JsString)
  | drop (channel abbr : JsString)
  | inbound (m : GlossMsg)

namespace GlossAgent

def step (a : GlossAgent) : GlossEvent → GlossAgent
  | .say dest text => (a.sayTo dest text).1
  | .body _ _ => a
  | .drop channel abbr => (a.drop channel abbr).1
  | .inbound m => (a.handleInbound m).1

def run (agentId : JsString) (es : List GlossEvent) : GlossAgent := es.foldl step { agentId }

/-- The conversation after these events. -/
def after (agentId key : JsString) (es : List GlossEvent) : Conv := (run agentId es).conv key

/-- The pairs that the conversation takes over at this event. -/
def adopted (a : GlossAgent) (key : JsString) : GlossEvent → List (JsString × JsString)
  | .inbound m =>
    match m.frame with
    | some frame =>
      if m.sender ≠ a.agentId ∧ m.dest.key = key ∧ frame.t = "gloss" then
        (a.conv key).adopted frame
      else []
    | none => []
  | _ => []

def adoptionsFrom (key : JsString) : GlossAgent → List GlossEvent → List (JsString × JsString)
  | _, [] => []
  | a, e :: es => a.adopted key e ++ adoptionsFrom key (a.step e) es

/-- Every pair the conversation takes over from a `propose` or an `ack`. -/
def adoptions (agentId key : JsString) (es : List GlossEvent) : List (JsString × JsString) :=
  adoptionsFrom key { agentId } es

theorem conv_setConv (a : GlossAgent) (k key : JsString) (c : Conv) :
    (a.setConv k c).conv key = if k = key then c else a.conv key := by
  unfold conv setConv
  rw [JsMap.get_set]
  split <;> rfl

/-- What an event does to a conversation. -/
inductive Moves (c : Conv) : List (JsString × JsString) → Conv → Prop
  | takes {pairs : List (JsString × JsString)} (h : Takes c pairs) :
      Moves c pairs (pairs.foldl adopt c)
  | drops {c' : Conv} (h : Drops c c') : Moves c [] c'
  | proposes {c' : Conv} (h : Proposes c c') : Moves c [] c'

theorem Moves.refl (c : Conv) : Moves c [] c := Moves.drops (Drops.refl c)

theorem handleGloss_moves (c : Conv) (frame : GlossFrame) :
    Moves c (c.adopted frame) (c.handleGloss frame).1 := by
  rcases c.handleGloss_cases frame with ⟨htakes, hfold⟩ | ⟨hnil, hdrops⟩
  · rw [hfold]
    exact Moves.takes htakes
  · rw [hnil]
    exact Moves.drops hdrops

theorem step_moves (a : GlossAgent) (key : JsString) (e : GlossEvent) :
    Moves (a.conv key) (a.adopted key e) ((a.step e).conv key) := by
  cases e with
  | say dest text =>
    change Moves _ [] ((a.setConv dest.key ((a.conv dest.key).sayTo text).1).conv key)
    rw [conv_setConv]
    split
    next hkey =>
      rw [hkey]
      exact Moves.proposes (sayTo_proposes _ text)
    next => exact Moves.refl _
  | body dest text => exact Moves.refl _
  | drop channel abbr =>
    change Moves _ [] ((a.setConv (Dest.channel channel).key
      ((a.conv (Dest.channel channel).key).deactivate [abbr])).conv key)
    rw [conv_setConv]
    split
    next hkey =>
      rw [hkey]
      exact Moves.drops (deactivate_drops _ _)
    next => exact Moves.refl _
  | inbound m =>
    simp only [step, handleInbound, adopted]
    cases m.frame with
    | none =>
      have hsame : (if m.sender = a.agentId then (a, [], []) else (a, [], []) :
          GlossAgent × List (Dest × GlossFrame) × List ChatEvent) = (a, [], []) := by
        split <;> rfl
      dsimp only
      rw [hsame]
      exact Moves.refl _
    | some frame =>
      dsimp only
      by_cases hself : m.sender = a.agentId
      · rw [if_pos hself, if_neg (by simp [hself])]
        exact Moves.refl _
      · rw [if_neg hself]
        by_cases hgloss : frame.t = "gloss"
        · rw [if_pos hgloss]
          dsimp only
          rw [conv_setConv]
          by_cases hkey : m.dest.key = key
          · rw [if_pos hkey, if_pos ⟨hself, hkey, hgloss⟩, hkey]
            exact handleGloss_moves _ frame
          · rw [if_neg hkey, if_neg (by simp [hkey])]
            exact Moves.refl _
        · rw [if_neg hgloss, if_neg (by simp [hgloss])]
          split
          all_goals exact Moves.refl _

variable {agentId key : JsString}

theorem after_concat (es : List GlossEvent) (e : GlossEvent) :
    after agentId key (es ++ [e]) = ((run agentId es).step e).conv key := by
  rw [after, run, List.foldl_append]
  rfl

theorem adoptionsFrom_append (a : GlossAgent) (es es' : List GlossEvent) :
    adoptionsFrom key a (es ++ es') =
      adoptionsFrom key a es ++ adoptionsFrom key (es.foldl step a) es' := by
  induction es generalizing a with
  | nil => rfl
  | cons e es ih =>
    rw [List.cons_append, adoptionsFrom, adoptionsFrom, ih, List.append_assoc]
    rfl

theorem adoptions_concat (es : List GlossEvent) (e : GlossEvent) :
    adoptions agentId key (es ++ [e]) =
      adoptions agentId key es ++ (run agentId es).adopted key e := by
  rw [adoptions, adoptionsFrom_append]
  simp [adoptionsFrom, adoptions, run]

theorem adoptions_initial {es₀ es : List GlossEvent} (h : es₀ <+: es) :
    adoptions agentId key es₀ <+: adoptions agentId key es := by
  obtain ⟨rest, rfl⟩ := h
  rw [adoptions, adoptions, adoptionsFrom_append]
  exact List.prefix_append _ _

theorem after_moves (es : List GlossEvent) (e : GlossEvent) :
    Moves (after agentId key es) ((run agentId es).adopted key e)
      (after agentId key (es ++ [e])) := by
  rw [after_concat]
  exact step_moves (run agentId es) key e

theorem Moves.sound {c c' : Conv} {pairs past : List (JsString × JsString)}
    (h : Moves c pairs c') (hs : Sound c past) (hapart : Apart (past ++ pairs)) :
    Sound c' (past ++ pairs) := by
  cases h with
  | takes h => exact hs.adopt_foldl h hapart
  | drops h => simpa using hs.drops h
  | proposes h => simpa using hs.proposes h

theorem sound_after {es : List GlossEvent} (h : Apart (adoptions agentId key es)) :
    Sound (after agentId key es) (adoptions agentId key es) := by
  induction es using List.reverseRecOn with
  | nil =>
    refine ⟨Inverse.empty, fun term abbr hact => ?_, fun p hp => ?_⟩
    · obtain ⟨p, hp, -⟩ := hact
      cases hp
    · cases hp
  | append_singleton es e ih =>
    rw [adoptions_concat] at h ⊢
    exact (after_moves es e).sound (ih (List.pairwise_append.mp h).1) h

theorem exists_active_of_mem_adoptions {es : List GlossEvent} {pair : JsString × JsString}
    (h : pair ∈ adoptions agentId key es) :
    ∃ es₀, es₀ <+: es ∧ (after agentId key es₀).Active pair.1 pair.2 := by
  induction es using List.reverseRecOn with
  | nil => simp [adoptions, adoptionsFrom] at h
  | append_singleton es e ih =>
    rw [adoptions_concat] at h
    rcases List.mem_append.mp h with hpast | hnow
    · obtain ⟨es₀, hes₀, hact⟩ := ih hpast
      exact ⟨es₀, hes₀.trans (List.prefix_append _ _), hact⟩
    · refine ⟨es ++ [e], List.prefix_refl _, ?_⟩
      generalize hpairs : (run agentId es).adopted key e = pairs at hnow
      have hmoves : Moves (after agentId key es) _ _ := after_moves es e
      rw [hpairs] at hmoves
      generalize after agentId key (es ++ [e]) = c' at hmoves ⊢
      cases hmoves with
      | takes htakes => exact (htakes.live hnow).1
      | drops _ => simp at hnow
      | proposes _ => simp at hnow

/-- In every state `reverse` is the inverse of the active entries, and no term is bound to an
abbreviation that was active for another before. -/
def OneMeaning (agentId key : JsString) (es : List GlossEvent) : Prop :=
  (∀ es₁, es₁ <+: es → (after agentId key es₁).Inverse) ∧
    ∀ es₀ es₁ e, es₀ <+: es₁ → es₁ ++ [e] <+: es → ∀ term term' abbr,
      (after agentId key es₀).Active term abbr →
        Binds (after agentId key es₁) (after agentId key (es₁ ++ [e])) term' abbr → term' = term

theorem oneMeaning_of_apart {es : List GlossEvent} (h : Apart (adoptions agentId key es)) :
    OneMeaning agentId key es := by
  refine ⟨fun es₁ hes₁ => ?_, fun es₀ es₁ e hes₀ hes₁ term term' abbr hact hbinds => ?_⟩
  · exact (sound_after (h.sublist (adoptions_initial hes₁).sublist)).inverse
  · have hapart : Apart (adoptions agentId key (es₁ ++ [e])) :=
      h.sublist (adoptions_initial hes₁).sublist
    rw [adoptions_concat] at hapart
    have hpast := (List.pairwise_append.mp hapart).1
    have hpast₀ : Apart (adoptions agentId key es₀) :=
      hpast.sublist (adoptions_initial hes₀).sublist
    have hsound₀ := sound_after hpast₀
    have hmem := (adoptions_initial hes₀).subset (hsound₀.live term abbr hact)
    have hsound := sound_after hpast
    have hmoves : Moves (after agentId key es₁) _ _ := after_moves es₁ e
    generalize (run agentId es₁).adopted key e = pairs at hmoves hapart
    generalize after agentId key (es₁ ++ [e]) = c' at hmoves hbinds
    cases hmoves with
    | takes htakes =>
      exact ((List.pairwise_append.mp hapart).2.2 _ hmem _ (htakes.binds hbinds) rfl).symm
    | drops hdrops =>
      obtain ⟨p, hp, -, hne⟩ := hbinds
      exact absurd (hdrops.get term' p hp) hne
    | proposes hproposes =>
      exact absurd (hsound.reserved _ hmem) (hproposes.binds term' abbr hbinds)

theorem OneMeaning.of_prefix {es₁ es : List GlossEvent} (h : OneMeaning agentId key es)
    (hes : es₁ <+: es) : OneMeaning agentId key es₁ :=
  ⟨fun es₂ hes₂ => h.1 es₂ (hes₂.trans hes),
    fun es₀ es₂ e hes₀ hes₂ => h.2 es₀ es₂ e hes₀ (hes₂.trans hes)⟩

theorem OneMeaning.apart {es : List GlossEvent} (h : OneMeaning agentId key es) :
    Apart (adoptions agentId key es) := by
  induction es using List.reverseRecOn with
  | nil => exact List.Pairwise.nil
  | append_singleton es e ih =>
    have hpast := ih (h.of_prefix (List.prefix_append _ _))
    have hinverse := h.1 _ (List.prefix_refl _)
    have hbinds := fun es₀ (hes₀ : es₀ <+: es) => h.2 es₀ es e hes₀ (List.prefix_refl _)
    have hmoves : Moves (after agentId key es) _ _ := after_moves es e
    rw [adoptions_concat]
    generalize (run agentId es).adopted key e = pairs at hmoves ⊢
    generalize after agentId key (es ++ [e]) = c' at hmoves hinverse hbinds
    cases hmoves with
    | takes htakes =>
      refine List.pairwise_append.mpr ⟨hpast, ?_, fun p hp q hq heq => ?_⟩
      · refine List.pairwise_of_forall_mem_list fun p hp q hq heq => ?_
        have hp' := (hinverse _ _).mpr (htakes.live hp).1
        have hq' := (hinverse _ _).mpr (htakes.live hq).1
        rw [heq, hq'] at hp'
        exact (Option.some.inj hp').symm
      · obtain ⟨es₀, hes₀, hact⟩ := exists_active_of_mem_adoptions hp
        exact (hbinds es₀ hes₀ p.1 q.1 q.2 (heq ▸ hact) (htakes.live hq).2).symm
    | drops _ => simpa using hpast
    | proposes _ => simpa using hpast

/-- An abbreviation means one thing exactly when no two terms with one abbreviation are taken over
from the peers. -/
theorem oneMeaning_iff (agentId key : JsString) (es : List GlossEvent) :
    OneMeaning agentId key es ↔ Apart (adoptions agentId key es) :=
  ⟨OneMeaning.apart, oneMeaning_of_apart⟩

/-- Two members of a channel propose the one abbreviation that both terms have. -/
def twoProposals : List GlossEvent :=
  ["implementation", "implements"].map fun term => .inbound
    { dm := false
      channel := some (JsString.ofString "dev")
      sender := JsString.ofString (if term = "implements" then "b" else "a")
      frame := some
        { t := "gloss"
          act := some "propose"
          entries := some [(JsString.ofString term, JsString.ofString "impl")] }
      ts := 0 }

theorem not_oneMeaning_twoProposals : ¬ OneMeaning (JsString.ofString "c")
    (Dest.channel (JsString.ofString "dev")).key twoProposals := by
  intro h
  have hinverse := h.1 twoProposals (List.prefix_refl _)
  have hactive : (after (JsString.ofString "c") (Dest.channel (JsString.ofString "dev")).key
      twoProposals).Active (JsString.ofString "implementation") (JsString.ofString "impl") :=
    ⟨⟨JsString.ofString "implementation", JsString.ofString "impl", .active⟩, by decide +kernel,
      rfl, rfl⟩
  have hget := (hinverse _ _).mpr hactive
  revert hget
  decide +kernel

end GlossAgent

end Dap
