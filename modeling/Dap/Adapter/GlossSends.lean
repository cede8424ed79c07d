import Dap.Adapter.Meaning

/-! What the glossary of an agent says was sent, when every send of the client may be rejected. -/
namespace Dap
open Gloss Conv

/-- A payload handed to the client, and the pairs that went live for it. -/
structure GlossSend where
  dest : Dest
  frame : GlossFrame
  activated : List (JsString × JsString)

def GlossSend.Carries (s : GlossSend) (act : String) (key : JsString) (pair : JsString × JsString) :
    Prop :=
  s.dest.key = key ∧ s.frame.act = some act ∧ pair ∈ s.frame.entries.getD []

/-- An agent with everything it sent, and which of it was rejected. -/
structure GlossSender where
  agent : GlossAgent
  sent : List GlossSend := []
  rejected : List ℕ := []

/-- A send is rejected at any time after it was made. -/
inductive SenderEvent where
  | agent (e : GlossEvent)
  | rejects (n : ℕ)

namespace GlossAgent

/-- What the agent hands to the client at an event. -/
def sends (a : GlossAgent) : GlossEvent → List (Dest × GlossFrame)
  | .say dest text => (a.sayTo dest text).2
  | .body dest text => [a.sayBody dest text]
  | .drop channel abbr => (a.drop channel abbr).2
  | .inbound m => (a.handleInbound m).2.1

def sendings (a : GlossAgent) (e : GlossEvent) : List GlossSend :=
  (a.sends e).map fun f => ⟨f.1, f.2, a.adopted f.1.key e⟩

end GlossAgent

namespace GlossSender

/-- A rejection ends the call that waits for it and changes nothing else. -/
def step (s : GlossSender) : SenderEvent → GlossSender
  | .agent e => { s with agent := s.agent.step e, sent := s.sent ++ s.agent.sendings e }
  | .rejects n => if n < s.sent.length then { s with rejected := s.rejected ++ [n] } else s

def run (agentId : JsString) (es : List SenderEvent) : GlossSender :=
  es.foldl step { agent := { agentId } }

/-- The client has the `n`-th payload and did not reject it. -/
def Handed (s : GlossSender) (n : ℕ) (p : GlossSend) : Prop := s.sent[n]? = some p ∧ n ∉ s.rejected

/-- The entry waits for the peer's ack. -/
def Waits (s : GlossSender) (key : JsString) (pair : JsString × JsString) : Prop :=
  ∃ e, (s.agent.conv key).entries.get pair.1 = some e ∧ e.state = .proposed ∧ e.abbr = pair.2

/-- Every entry that waits was proposed to the peer, every pair that went live for a proposal was
acknowledged, and no entry waits for the answer to a proposal that was rejected. -/
structure MatchesSent (agentId : JsString) (es : List SenderEvent) : Prop where
  proposed : ∀ es₀, es₀ <+: es → ∀ key pair, (run agentId es₀).Waits key pair →
    ∃ n p, (run agentId es₀).Handed n p ∧ p.Carries "propose" key pair
  acked : ∀ es₀ m frame, es₀ ++ [.agent (.inbound m)] <+: es → m.frame = some frame →
    frame.act = some "propose" →
    ∀ pair ∈ (run agentId es₀).agent.adopted m.dest.key (.inbound m),
      ∃ p, (run agentId es).Handed (run agentId es₀).sent.length p ∧
        p.Carries "ack" m.dest.key pair
  eligible : ∀ es₀, es₀ <+: es → ∀ n p, (run agentId es₀).sent[n]? = some p →
    n ∈ (run agentId es₀).rejected → ∀ key pair, p.Carries "propose" key pair →
      ¬ (run agentId es₀).Waits key pair

/-- No rejected payload is a proposal that is still waited for, or answers one that brought
something new. -/
def Harmless (agentId : JsString) (es : List SenderEvent) : Prop :=
  ∀ es₀ n, es₀ ++ [.rejects n] <+: es → ∀ p, (run agentId es₀).sent[n]? = some p →
    p.activated = [] ∧
      ∀ key pair, p.Carries "propose" key pair → ¬ (run agentId es₀).Waits key pair

end GlossSender

namespace Conv

/-! ### What an ack lists -/

theorem subset_onProposed_foldl (pairs : List (JsString × JsString)) (c : Conv)
    (ack : List (JsString × JsString)) : ack ⊆ (pairs.foldl onProposed (c, ack)).2 := by
  induction pairs generalizing c ack with
  | nil => exact List.Subset.refl _
  | cons pair pairs ih =>
    rw [List.foldl_cons]
    have hstep : ack ⊆ (onProposed (c, ack) pair).2 := by
      unfold onProposed
      split
      all_goals exact List.subset_append_left _ _
    exact List.Subset.trans hstep (ih (onProposed (c, ack) pair).1 (onProposed (c, ack) pair).2)

theorem taken_subset_ack (pairs : List (JsString × JsString)) (c : Conv)
    (ack : List (JsString × JsString)) :
    taken wantsProposed c pairs ⊆ (pairs.foldl onProposed (c, ack)).2 := by
  induction pairs generalizing c ack with
  | nil => simp [taken]
  | cons pair pairs ih =>
    rw [List.foldl_cons, taken]
    have hnew : wantsProposed (c.entries.get pair.1) = true →
        onProposed (c, ack) pair = (c.adopt pair, ack ++ [pair]) := by
      intro hwants
      unfold onProposed
      cases hget : c.entries.get pair.1 with
      | none => rfl
      | some p =>
        obtain ⟨term, abbr, state⟩ := p
        cases state with
        | proposed => rfl
        | active => simp [hget, wantsProposed] at hwants
    have hold : wantsProposed (c.entries.get pair.1) = false →
        (onProposed (c, ack) pair).1 = c := by
      intro hwants
      unfold onProposed
      cases hget : c.entries.get pair.1 with
      | none => simp [hget, wantsProposed] at hwants
      | some p =>
        obtain ⟨term, abbr, state⟩ := p
        cases state with
        | proposed => simp [hget, wantsProposed] at hwants
        | active => rfl
    cases hwants : wantsProposed (c.entries.get pair.1) with
    | true =>
      rw [if_pos rfl, hnew hwants]
      apply List.cons_subset.mpr
      constructor
      · apply subset_onProposed_foldl
        simp
      · exact ih (c.adopt pair) (ack ++ [pair])
    | false =>
      have hrest := ih (onProposed (c, ack) pair).1 (onProposed (c, ack) pair).2
      rw [hold hwants] at hrest
      rw [if_neg (by simp)]
      have hpair : onProposed (c, ack) pair = (c, (onProposed (c, ack) pair).2) :=
        Prod.ext (hold hwants) rfl
      rw [hpair]
      exact hrest

theorem handleGloss_ack {c : Conv} {frame : GlossFrame} (h : frame.act = some "propose") :
    ∃ ack : List (JsString × JsString), c.adopted frame ⊆ ack ∧
      (c.handleGloss frame).2 = [{ t := "gloss", act := some "ack", entries := some ack }] := by
  unfold adopted handleGloss
  rw [if_pos h, if_pos h]
  exact ⟨_, taken_subset_ack _ _ _, rfl⟩

theorem handleGloss_silent {c : Conv} {frame : GlossFrame} (h : frame.act ≠ some "propose") :
    (c.handleGloss frame).2 = [] := by
  unfold handleGloss
  rw [if_neg h]
  split
  · rfl
  · split <;> rfl

/-! ### Entries that wait -/

theorem abbreviate_reserved (terms reserved : List JsString) :
    ∀ p ∈ (abbreviate terms reserved).1, p.2 ∈ (abbreviate terms reserved).2 := by
  induction terms generalizing reserved with
  | nil => simp [abbreviate]
  | cons term terms ih =>
    intro p hp
    have hgrow := (abbreviate_fresh terms (genAbbrev term reserved).2).2
    rcases List.mem_cons.mp hp with rfl | hmem
    · exact hgrow (mem_addReserved reserved _)
    · exact ih (genAbbrev term reserved).2 p hmem

theorem sayTo_fresh (c : Conv) (text : JsString) :
    ∀ p ∈ (c.sayTo text).2, p.2 ∉ c.reserved ∧ p.2 ∈ (c.sayTo text).1.reserved := by
  intro p hp
  have hfresh := (abbreviate_fresh (c.observe text).candidates c.reserved).1 p hp
  have hframe := propose_foldl_frame (abbreviate (c.observe text).candidates c.reserved).1
    { c.observe text with reserved := (abbreviate (c.observe text).candidates c.reserved).2 }
  constructor
  · exact hfresh.2
  · show p.2 ∈ ((abbreviate (c.observe text).candidates c.reserved).1.foldl propose
      { c.observe text with
        reserved := (abbreviate (c.observe text).candidates c.reserved).2 }).reserved
    rw [hframe.2]
    exact abbreviate_reserved _ _ p hp

theorem sayTo_entry (c : Conv) (text term : JsString) :
    (c.sayTo text).1.entries.get term = c.entries.get term ∨
      ∃ p ∈ (c.sayTo text).2, p.1 = term ∧
        (c.sayTo text).1.entries.get term = some ⟨term, p.2, .proposed⟩ := by
  have hget := propose_foldl_get (abbreviate (c.observe text).candidates c.reserved).1
    { c.observe text with reserved := (abbreviate (c.observe text).candidates c.reserved).2 } term
  rcases hget with ⟨-, hsame⟩ | hnew
  · exact Or.inl hsame
  · exact Or.inr hnew

theorem handleGloss_waiting {c : Conv} {frame : GlossFrame} {term : JsString} {e : GlossPair}
    (h : (c.handleGloss frame).1.entries.get term = some e) (hstate : e.state = .proposed) :
    c.entries.get term = some e := by
  rcases c.handleGloss_cases frame with ⟨htakes, hfold⟩ | ⟨-, hdrops⟩
  · rw [hfold] at h
    rcases adopt_foldl_get htakes term with ⟨-, hsame⟩ | ⟨p, -, -, hnew⟩
    · rwa [hsame] at h
    · rw [hnew] at h
      rw [← Option.some.inj h] at hstate
      cases hstate
  · exact hdrops.get term e h

theorem adopt_foldl_reserved (pairs : List (JsString × JsString)) (c : Conv) :
    c.reserved ⊆ (pairs.foldl adopt c).reserved := by
  induction pairs generalizing c with
  | nil => exact List.Subset.refl _
  | cons pair pairs ih =>
    have hone : c.reserved ⊆ (c.adopt pair).reserved := subset_addReserved _ _
    exact List.Subset.trans hone (ih (c.adopt pair))

end Conv

/-! ### One event -/

namespace GlossAgent

variable {a : GlossAgent} {e : GlossEvent} {m : GlossMsg} {key : JsString}
  {pair : JsString × JsString} {p : GlossSend}

theorem inbound_cases (a : GlossAgent) (m : GlossMsg) :
    (a.step (.inbound m) = a ∧ a.sends (.inbound m) = []) ∧
        (∀ key, a.adopted key (.inbound m) = []) ∨
      ∃ frame, m.frame = some frame ∧
        a.step (.inbound m) = a.setConv m.dest.key ((a.conv m.dest.key).handleGloss frame).1 ∧
        a.sends (.inbound m) =
          ((a.conv m.dest.key).handleGloss frame).2.map (fun f => (m.dest, f)) ∧
        a.adopted m.dest.key (.inbound m) = (a.conv m.dest.key).adopted frame := by
  unfold step sends handleInbound adopted
  cases hframe : m.frame with
  | none =>
    apply Or.inl
    by_cases hself : m.sender = a.agentId
    · simp [hself, hframe]
    · simp [hself, hframe]
  | some frame =>
    by_cases hself : m.sender = a.agentId
    · apply Or.inl
      simp [hself, hframe]
    · by_cases hgloss : frame.t = "gloss"
      · apply Or.inr
        exact ⟨frame, rfl, by simp [hself, hgloss, hframe]⟩
      · apply Or.inl
        by_cases hmsg : frame.t = "msg"
        · simp [hself, hframe, hmsg]
        · simp [hself, hframe, hgloss, hmsg]

theorem step_reserved (a : GlossAgent) (key : JsString) (e : GlossEvent) :
    (a.conv key).reserved ⊆ ((a.step e).conv key).reserved := by
  have hmoves := a.step_moves key e
  generalize (a.step e).conv key = c' at hmoves
  generalize a.adopted key e = pairs at hmoves
  cases hmoves with
  | takes h => exact adopt_foldl_reserved pairs _
  | drops h =>
    rw [h.reserved]
    exact List.Subset.refl _
  | proposes h => exact h.reserved

theorem sendings_say (dest : Dest) (text : JsString) (h : p ∈ a.sendings (.say dest text)) :
    p.dest = dest ∧ p.frame.act = some "propose" ∧
      p.frame.entries = some ((a.conv dest.key).sayTo text).2 := by
  obtain ⟨f, hf, rfl⟩ := List.mem_map.mp h
  unfold sends GlossAgent.sayTo at hf
  dsimp only at hf
  split at hf
  · cases hf
  · rw [List.mem_singleton.mp hf]
    exact ⟨rfl, rfl, rfl⟩

theorem sendings_length_le (a : GlossAgent) (e : GlossEvent) : (a.sendings e).length ≤ 1 := by
  unfold sendings
  rw [List.length_map]
  cases e with
  | say dest text =>
    unfold sends sayTo
    dsimp only
    split <;> simp
  | body dest text => simp [sends]
  | drop channel abbr => simp [sends, GlossAgent.drop]
  | inbound m =>
    rcases a.inbound_cases m with ⟨⟨-, hsends⟩, -⟩ | ⟨frame, -, -, hsends, -⟩
    · simp [hsends]
    · rw [hsends, List.length_map]
      by_cases hact : frame.act = some "propose"
      · obtain ⟨ack, -, hack⟩ := handleGloss_ack (c := a.conv m.dest.key) hact
        simp [hack]
      · simp [handleGloss_silent hact]

/-- What answers a proposal lists everything that went live for it. -/
theorem sendings_inbound (h : p ∈ a.sendings (.inbound m)) :
    p.dest = m.dest ∧ p.frame.act = some "ack" ∧
      p.activated = a.adopted m.dest.key (.inbound m) ∧
      ∃ frame, m.frame = some frame ∧ frame.act = some "propose" := by
  obtain ⟨f, hf, rfl⟩ := List.mem_map.mp h
  rcases a.inbound_cases m with ⟨⟨-, hsends⟩, -⟩ | ⟨frame, hframe, -, hsends, -⟩
  · rw [hsends] at hf
    cases hf
  · rw [hsends] at hf
    by_cases hact : frame.act = some "propose"
    · obtain ⟨ack, -, hack⟩ := handleGloss_ack (c := a.conv m.dest.key) hact
      rw [hack] at hf
      rw [List.mem_singleton.mp hf]
      exact ⟨rfl, rfl, rfl, frame, hframe, hact⟩
    · rw [handleGloss_silent hact] at hf
      cases hf

theorem exists_ack {frame : GlossFrame} (hframe : m.frame = some frame)
    (hact : frame.act = some "propose") (h : pair ∈ a.adopted m.dest.key (.inbound m)) :
    ∃ p, a.sendings (.inbound m) = [p] ∧ p.Carries "ack" m.dest.key pair := by
  rcases a.inbound_cases m with ⟨-, hnone⟩ | ⟨f, hf, -, hsends, hadopted⟩
  · rw [hnone] at h
    cases h
  · rw [hframe] at hf
    obtain rfl := Option.some.inj hf
    obtain ⟨ack, hsub, hack⟩ := handleGloss_ack (c := a.conv m.dest.key) hact
    rw [hadopted] at h
    rw [hack] at hsends
    refine ⟨_, congrArg _ hsends, rfl, rfl, ?_⟩
    exact hsub h

theorem carries_propose (h : p ∈ a.sendings e) (hcarries : p.Carries "propose" key pair) :
    ∃ dest text, e = .say dest text ∧ dest.key = key ∧ pair ∈ ((a.conv key).sayTo text).2 := by
  obtain ⟨hkey, hact, hpair⟩ := hcarries
  cases e with
  | say dest text =>
    obtain ⟨hdest, -, hentries⟩ := sendings_say dest text h
    rw [hdest] at hkey
    rw [hentries, hkey] at hpair
    exact ⟨dest, text, rfl, hkey, hpair⟩
  | body dest text =>
    rw [List.mem_singleton.mp h] at hact
    cases hact
  | drop channel abbr =>
    rw [List.mem_singleton.mp h] at hact
    exact absurd (Option.some.inj hact) (by decide)
  | inbound m =>
    rw [(sendings_inbound h).2.1] at hact
    exact absurd (Option.some.inj hact) (by decide)

theorem conv_say (dest : Dest) (text key : JsString) :
    (a.step (.say dest text)).conv key =
      if dest.key = key then ((a.conv dest.key).sayTo text).1 else a.conv key :=
  conv_setConv a dest.key key ((a.conv dest.key).sayTo text).1

/-- A proposal uses abbreviations that nothing used before. -/
theorem carries_fresh (h : p ∈ a.sendings e) (hcarries : p.Carries "propose" key pair) :
    pair.2 ∉ (a.conv key).reserved ∧ pair.2 ∈ ((a.step e).conv key).reserved := by
  obtain ⟨dest, text, rfl, rfl, hpair⟩ := carries_propose h hcarries
  rw [conv_say, if_pos rfl]
  exact sayTo_fresh _ text pair hpair

/-- An entry waits only from the proposal of it on. -/
theorem step_waiting {term : JsString} {x : GlossPair}
    (h : ((a.step e).conv key).entries.get term = some x) (hstate : x.state = .proposed) :
    (a.conv key).entries.get term = some x ∨
      ∃ p ∈ a.sendings e, p.Carries "propose" key (term, x.abbr) := by
  cases e with
  | say dest text =>
    rw [conv_say] at h
    split at h
    next hkey =>
      subst hkey
      rcases (a.conv dest.key).sayTo_entry text term with hsame | ⟨q, hq, rfl, hnew⟩
      · rw [hsame] at h
        exact Or.inl h
      · rw [hnew] at h
        have hne : ((a.conv dest.key).sayTo text).2 ≠ [] := List.ne_nil_of_mem hq
        have hmade : ∃ p, p ∈ a.sendings (.say dest text) := by
          apply List.exists_mem_of_ne_nil
          unfold sendings sends GlossAgent.sayTo
          dsimp only
          rw [if_neg hne]
          exact List.cons_ne_nil _ _
        obtain ⟨p, hp⟩ := hmade
        obtain ⟨hdest, hact, hentries⟩ := sendings_say dest text hp
        refine Or.inr ⟨p, hp, congrArg Dest.key hdest, hact, ?_⟩
        rw [hentries, ← Option.some.inj h]
        exact hq
    next => exact Or.inl h
  | body dest text => exact Or.inl h
  | drop channel abbr =>
    change ((a.setConv (Dest.channel channel).key
      ((a.conv (Dest.channel channel).key).deactivate [abbr])).conv key).entries.get term = _ at h
    rw [conv_setConv] at h
    split at h
    next hkey =>
      subst hkey
      exact Or.inl ((deactivate_drops _ _).get term x h)
    next => exact Or.inl h
  | inbound m =>
    rcases a.inbound_cases m with ⟨⟨hstep, -⟩, -⟩ | ⟨frame, -, hstep, -, -⟩
    · rw [hstep] at h
      exact Or.inl h
    · rw [hstep, conv_setConv] at h
      split at h
      next hkey =>
        subst hkey
        exact Or.inl (handleGloss_waiting h hstate)
      next => exact Or.inl h

end GlossAgent

/-! ### Runs -/

namespace GlossSender

variable {s : GlossSender} {agentId : JsString} {es es₀ : List SenderEvent} {e : SenderEvent}

theorem run_concat (agentId : JsString) (es : List SenderEvent) (e : SenderEvent) :
    run agentId (es ++ [e]) = (run agentId es).step e := by
  rw [run, List.foldl_append]
  rfl

/-- The sends so far account for the entries that wait, and no two of them propose one pair. -/
structure Ledger (s : GlossSender) : Prop where
  waiting : ∀ key pair, s.Waits key pair →
    ∃ (n : ℕ) (p : GlossSend), s.sent[n]? = some p ∧ p.Carries "propose" key pair
  reserved : ∀ (n : ℕ) (p : GlossSend), s.sent[n]? = some p →
    ∀ key pair, p.Carries "propose" key pair → pair.2 ∈ (s.agent.conv key).reserved
  unique : ∀ (i j : ℕ) (p q : GlossSend), s.sent[i]? = some p → s.sent[j]? = some q → ∀ key pair,
    p.Carries "propose" key pair → q.Carries "propose" key pair → i = j

theorem getElem?_step {n : ℕ} {p : GlossSend} (h : s.sent[n]? = some p) :
    (s.step e).sent[n]? = some p := by
  obtain ⟨hn, -⟩ := List.getElem?_eq_some_iff.mp h
  cases e with
  | agent e =>
    show (s.sent ++ s.agent.sendings e)[n]? = some p
    rw [List.getElem?_append_left hn]
    exact h
  | rejects k =>
    unfold step
    dsimp only
    split <;> exact h

theorem sent_agent {e : GlossEvent} {n : ℕ} {p : GlossSend}
    (h : (s.step (.agent e)).sent[n]? = some p) :
    s.sent[n]? = some p ∨ n = s.sent.length ∧ s.agent.sendings e = [p] := by
  change (s.sent ++ s.agent.sendings e)[n]? = some p at h
  by_cases hn : n < s.sent.length
  · rw [List.getElem?_append_left hn] at h
    exact Or.inl h
  · rw [List.getElem?_append_right (by omega)] at h
    have hlength := s.agent.sendings_length_le e
    generalize s.agent.sendings e = made at h hlength
    cases made with
    | nil => cases h
    | cons q rest =>
      cases rest with
      | cons r rest => simp at hlength
      | nil =>
        apply Or.inr
        obtain ⟨hlt, hq⟩ := List.getElem?_eq_some_iff.mp h
        rw [List.length_singleton] at hlt
        constructor
        · omega
        · simpa using hq

theorem rejects_frame (s : GlossSender) (n : ℕ) :
    (s.step (.rejects n)).agent = s.agent ∧ (s.step (.rejects n)).sent = s.sent := by
  unfold step
  dsimp only
  split <;> exact ⟨rfl, rfl⟩

theorem waits_agent {e : GlossEvent} {key : JsString} {pair : JsString × JsString}
    (h : (s.step (.agent e)).Waits key pair) :
    s.Waits key pair ∨ ∃ p, s.agent.sendings e = [p] ∧ p.Carries "propose" key pair := by
  obtain ⟨x, hget, hstate, habbr⟩ := h
  rcases GlossAgent.step_waiting hget hstate with hold | ⟨p, hp, hcarries⟩
  · exact Or.inl ⟨x, hold, hstate, habbr⟩
  · apply Or.inr
    have hlength := s.agent.sendings_length_le e
    rw [habbr] at hcarries
    generalize s.agent.sendings e = made at hp hlength
    cases made with
    | nil => cases hp
    | cons q rest =>
      cases rest with
      | cons r rest => simp at hlength
      | nil => exact ⟨q, rfl, List.mem_singleton.mp hp ▸ hcarries⟩

theorem Ledger.step (h : s.Ledger) (e : SenderEvent) : (s.step e).Ledger := by
  cases e with
  | rejects n =>
    obtain ⟨hagent, hsent⟩ := s.rejects_frame n
    constructor
    · unfold Waits
      rw [hagent, hsent]
      exact h.waiting
    · rw [hagent, hsent]
      exact h.reserved
    · rw [hsent]
      exact h.unique
  | agent e =>
    have hfresh : ∀ (n : ℕ) (p : GlossSend), s.sent[n]? = some p →
        ∀ q : GlossSend, s.agent.sendings e = [q] → ∀ key pair,
        p.Carries "propose" key pair → ¬ q.Carries "propose" key pair := by
      intro n p hp q hq key pair hold hnew
      have hmem : q ∈ s.agent.sendings e := by
        rw [hq]
        exact List.mem_singleton_self q
      exact (GlossAgent.carries_fresh hmem hnew).1 (h.reserved n p hp key pair hold)
    constructor
    · intro key pair hwaits
      rcases waits_agent hwaits with hold | ⟨p, hp, hcarries⟩
      · obtain ⟨n, p, hn, hcarries⟩ := h.waiting key pair hold
        exact ⟨n, p, getElem?_step hn, hcarries⟩
      · refine ⟨s.sent.length, p, ?_, hcarries⟩
        show (s.sent ++ s.agent.sendings e)[s.sent.length]? = some p
        simp [hp]
    · intro n p hp key pair hcarries
      rcases sent_agent hp with hold | ⟨-, hnew⟩
      · exact s.agent.step_reserved key e (h.reserved n p hold key pair hcarries)
      · have hmem : p ∈ s.agent.sendings e := by
          rw [hnew]
          exact List.mem_singleton_self p
        exact (GlossAgent.carries_fresh hmem hcarries).2
    · intro i j p q hp hq key pair hpc hqc
      rcases sent_agent hp with hpold | ⟨hi, hpnew⟩
      · rcases sent_agent hq with hqold | ⟨hj, hqnew⟩
        · exact h.unique i j p q hpold hqold key pair hpc hqc
        · exact absurd hqc (hfresh i p hpold q hqnew key pair hpc)
      · rcases sent_agent hq with hqold | ⟨hj, hqnew⟩
        · exact absurd hpc (hfresh j q hqold p hpnew key pair hqc)
        · omega

theorem run_ledger (agentId : JsString) (es : List SenderEvent) : (run agentId es).Ledger := by
  induction es using List.reverseRecOn with
  | nil =>
    constructor
    · intro key pair hwaits
      obtain ⟨x, hget, -⟩ := hwaits
      cases hget
    · intro n p hp
      cases hp
    · intro i j p q hp
      cases hp
  | append_singleton es e ih =>
    rw [run_concat]
    exact ih.step e

theorem run_sent (h : es₀ <+: es) {n : ℕ} {p : GlossSend}
    (hp : (run agentId es₀).sent[n]? = some p) : (run agentId es).sent[n]? = some p := by
  obtain ⟨rest, rfl⟩ := h
  induction rest using List.reverseRecOn with
  | nil => rwa [List.append_nil]
  | append_singleton rest e ih =>
    rw [← List.append_assoc, run_concat]
    exact getElem?_step ih

theorem run_rejected (h : es₀ <+: es) : (run agentId es₀).rejected ⊆ (run agentId es).rejected := by
  obtain ⟨rest, rfl⟩ := h
  induction rest using List.reverseRecOn with
  | nil =>
    rw [List.append_nil]
    exact List.Subset.refl _
  | append_singleton rest e ih =>
    rw [← List.append_assoc, run_concat]
    apply List.Subset.trans ih
    cases e with
    | agent e => exact List.Subset.refl _
    | rejects n =>
      unfold step
      dsimp only
      split
      · exact List.subset_append_left _ _
      · exact List.Subset.refl _

theorem exists_rejects {n : ℕ} (h : n ∈ (run agentId es).rejected) :
    ∃ es₀ p, es₀ ++ [.rejects n] <+: es ∧ (run agentId es₀).sent[n]? = some p := by
  induction es using List.reverseRecOn with
  | nil => cases h
  | append_singleton es e ih =>
    rw [run_concat] at h
    have hbefore : n ∈ (run agentId es).rejected → ∃ es₀ p,
        es₀ ++ [.rejects n] <+: es ++ [e] ∧ (run agentId es₀).sent[n]? = some p := by
      intro hold
      obtain ⟨es₀, p, hprefix, hp⟩ := ih hold
      exact ⟨es₀, p, hprefix.trans (List.prefix_append _ _), hp⟩
    cases e with
    | agent e => exact hbefore h
    | rejects k =>
      unfold step at h
      dsimp only at h
      split at h
      next hk =>
        rcases List.mem_append.mp h with hold | hnew
        · exact hbefore hold
        · obtain rfl := List.mem_singleton.mp hnew
          exact ⟨es, _, List.prefix_refl _, List.getElem?_eq_getElem hk⟩
      next => exact hbefore h

/-- A pair that was proposed once does not wait again. -/
theorem not_waits_of_prefix (h : es₀ <+: es) {n : ℕ} {p : GlossSend} {key : JsString}
    {pair : JsString × JsString} (hp : (run agentId es₀).sent[n]? = some p)
    (hcarries : p.Carries "propose" key pair) (hnot : ¬ (run agentId es₀).Waits key pair) :
    ¬ (run agentId es).Waits key pair := by
  obtain ⟨rest, rfl⟩ := h
  induction rest using List.reverseRecOn with
  | nil => rwa [List.append_nil]
  | append_singleton rest e ih =>
    rw [← List.append_assoc, run_concat]
    have hnow := run_sent (List.prefix_append es₀ rest) hp
    have hledger := run_ledger agentId (es₀ ++ rest)
    cases e with
    | rejects k =>
      unfold Waits
      rw [((run agentId (es₀ ++ rest)).rejects_frame k).1]
      exact ih
    | agent e =>
      intro hwaits
      rcases waits_agent hwaits with hold | ⟨q, hq, hagain⟩
      · exact ih hold
      · have hmem : q ∈ (run agentId (es₀ ++ rest)).agent.sendings e := by
          rw [hq]
          exact List.mem_singleton_self q
        exact (GlossAgent.carries_fresh hmem hagain).1
          (hledger.reserved n p hnow key pair hcarries)

theorem exists_sent {n : ℕ} {p : GlossSend} (h : (run agentId es).sent[n]? = some p) :
    ∃ es₀ e, es₀ ++ [.agent e] <+: es ∧ (run agentId es₀).sent.length = n ∧
      (run agentId es₀).agent.sendings e = [p] := by
  induction es using List.reverseRecOn with
  | nil => cases h
  | append_singleton es e ih =>
    have hbefore : (run agentId es).sent[n]? = some p → ∃ es₀ e',
        es₀ ++ [.agent e'] <+: es ++ [e] ∧ (run agentId es₀).sent.length = n ∧
          (run agentId es₀).agent.sendings e' = [p] := by
      intro hold
      obtain ⟨es₀, e', hprefix, hrest⟩ := ih hold
      exact ⟨es₀, e', hprefix.trans (List.prefix_append _ _), hrest⟩
    rw [run_concat] at h
    cases e with
    | rejects k =>
      rw [((run agentId es).rejects_frame k).2] at h
      exact hbefore h
    | agent e =>
      rcases sent_agent h with hold | ⟨hn, hmade⟩
      · exact hbefore hold
      · exact ⟨es, e, List.prefix_refl _, hn.symm, hmade⟩

theorem Harmless.handed (h : Harmless agentId es) (hes : es₀ <+: es) {key : JsString}
    {pair : JsString × JsString} (hwaits : (run agentId es₀).Waits key pair) :
    ∃ n p, (run agentId es₀).Handed n p ∧ p.Carries "propose" key pair := by
  obtain ⟨n, p, hp, hcarries⟩ := (run_ledger agentId es₀).waiting key pair hwaits
  refine ⟨n, p, ⟨hp, fun hrejected => ?_⟩, hcarries⟩
  obtain ⟨es₁, q, hes₁, hq⟩ := exists_rejects hrejected
  have hprefix := (List.prefix_append es₁ [.rejects n]).trans hes₁
  have hsame := run_sent hprefix hq
  rw [hp] at hsame
  obtain rfl := Option.some.inj hsame
  have hnot := (h es₁ n (hes₁.trans hes) p hq).2 key pair hcarries
  exact not_waits_of_prefix hprefix hq hcarries hnot hwaits

theorem Harmless.acked (h : Harmless agentId es) {m : GlossMsg} {frame : GlossFrame}
    (hes : es₀ ++ [.agent (.inbound m)] <+: es) (hframe : m.frame = some frame)
    (hact : frame.act = some "propose") {pair : JsString × JsString}
    (hpair : pair ∈ (run agentId es₀).agent.adopted m.dest.key (.inbound m)) :
    ∃ p, (run agentId es).Handed (run agentId es₀).sent.length p ∧
      p.Carries "ack" m.dest.key pair := by
  obtain ⟨p, hmade, hcarries⟩ := GlossAgent.exists_ack hframe hact hpair
  have hsent : (run agentId (es₀ ++ [.agent (.inbound m)])).sent[
      (run agentId es₀).sent.length]? = some p := by
    rw [run_concat]
    show ((run agentId es₀).sent ++ _)[_]? = some p
    simp [hmade]
  have hactivated : p.activated = (run agentId es₀).agent.adopted m.dest.key (.inbound m) := by
    have hmem : p ∈ (run agentId es₀).agent.sendings (.inbound m) := by
      rw [hmade]
      exact List.mem_singleton_self p
    exact (GlossAgent.sendings_inbound hmem).2.2.1
  refine ⟨p, ⟨run_sent hes hsent, fun hrejected => ?_⟩, hcarries⟩
  obtain ⟨es₁, q, hes₁, hq⟩ := exists_rejects hrejected
  have hsame := run_sent ((List.prefix_append es₁ [.rejects _]).trans hes₁) hq
  rw [run_sent hes hsent] at hsame
  obtain rfl := Option.some.inj hsame
  have hnone := (h es₁ _ hes₁ p hq).1
  rw [← hactivated, hnone] at hpair
  cases hpair

theorem Harmless.matchesSent (h : Harmless agentId es) : MatchesSent agentId es := by
  constructor
  · intro es₀ hes key pair hwaits
    exact h.handed hes hwaits
  · intro es₀ m frame hes hframe hact pair hpair
    exact h.acked hes hframe hact hpair
  · intro es₀ hes n p hp hrejected key pair hcarries hwaits
    obtain ⟨k, q, ⟨hq, hkept⟩, hqc⟩ := h.handed hes hwaits
    have hsame := (run_ledger agentId es₀).unique n k p q hp hq key pair hcarries hqc
    exact hkept (hsame ▸ hrejected)

theorem MatchesSent.harmless (h : MatchesSent agentId es) : Harmless agentId es := by
  intro es₀ n hes p hp
  obtain ⟨hn, -⟩ := List.getElem?_eq_some_iff.mp hp
  have hrejected : n ∈ (run agentId (es₀ ++ [.rejects n])).rejected := by
    rw [run_concat]
    unfold step
    dsimp only
    rw [if_pos hn]
    simp
  have hsent := run_sent (List.prefix_append es₀ [.rejects n]) hp
  constructor
  · by_contra hne
    obtain ⟨pair, hpair⟩ := List.exists_mem_of_ne_nil _ hne
    obtain ⟨es₁, e, hes₁, hlength, hmade⟩ := exists_sent hp
    have hmem : p ∈ (run agentId es₁).agent.sendings e := by
      rw [hmade]
      exact List.mem_singleton_self p
    cases e with
    | inbound m =>
      obtain ⟨-, -, hactivated, frame, hframe, hact⟩ := GlossAgent.sendings_inbound hmem
      rw [hactivated] at hpair
      have hprefix := (hes₁.trans (List.prefix_append es₀ [.rejects n])).trans hes
      obtain ⟨q, ⟨-, hkept⟩, -⟩ := h.acked es₁ m frame hprefix hframe hact pair hpair
      rw [hlength] at hkept
      exact hkept (run_rejected hes hrejected)
    | say dest text =>
      obtain ⟨f, -, rfl⟩ := List.mem_map.mp hmem
      cases hpair
    | body dest text =>
      obtain ⟨f, -, rfl⟩ := List.mem_map.mp hmem
      cases hpair
    | drop channel abbr =>
      obtain ⟨f, -, rfl⟩ := List.mem_map.mp hmem
      cases hpair
  · intro key pair hcarries hwaits
    refine h.eligible _ hes n p hsent hrejected key pair hcarries ?_
    rw [run_concat]
    unfold Waits
    rw [((run agentId es₀).rejects_frame n).1]
    exact hwaits

/-- The glossary matches what was sent exactly in the runs where every rejected send is harmless. -/
theorem matchesSent_iff (agentId : JsString) (es : List SenderEvent) :
    MatchesSent agentId es ↔ Harmless agentId es :=
  ⟨MatchesSent.harmless, Harmless.matchesSent⟩

/-- The second message brings a proposal, which the client rejects. -/
def lostProposal : List SenderEvent :=
  [.agent (.say (.channel (JsString.ofString "dev")) (JsString.ofString "implementation")),
    .agent (.body (.channel (JsString.ofString "dev")) (JsString.ofString "implementation")),
    .agent (.say (.channel (JsString.ofString "dev")) (JsString.ofString "implementation")),
    .rejects 1]

theorem not_matchesSent_lostProposal : ¬ MatchesSent (JsString.ofString "a") lostProposal := by
  intro h
  have hwaits : (run (JsString.ofString "a") lostProposal).Waits
      (Dest.channel (JsString.ofString "dev")).key
      (JsString.ofString "implementation", JsString.ofString "impl") :=
    ⟨⟨JsString.ofString "implementation", JsString.ofString "impl", .proposed⟩, by decide +kernel,
      rfl, rfl⟩
  obtain ⟨n, p, ⟨hsent, hkept⟩, -, hact, -⟩ :=
    h.proposed lostProposal (List.prefix_refl _) _ _ hwaits
  have hacts : (run (JsString.ofString "a") lostProposal).sent.map (fun q => q.frame.act) =
      [none, some "propose"] := by decide +kernel
  have hn : ((run (JsString.ofString "a") lostProposal).sent.map (fun q => q.frame.act))[n]? =
      some p.frame.act := by
    rw [List.getElem?_map, hsent]
    rfl
  rw [hacts, hact] at hn
  cases n with
  | zero => simp at hn
  | succ n =>
    cases n with
    | zero => exact hkept (by decide +kernel)
    | succ n => simp at hn

end GlossSender

end Dap
