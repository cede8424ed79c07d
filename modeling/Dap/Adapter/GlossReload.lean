import Dap.Adapter.CanonicalJson
import Dap.Adapter.GlossSends
import Dap.Lib.JsObject

/-! What of an agent's glossaries `serialize` writes down, and what `load` makes of it. -/
namespace Dap
open Gloss Conv

namespace Conv

/-- The active terms with their abbreviations. -/
def pairs (c : Conv) : List (JsString × JsString) := c.active.map fun e => (e.term, e.abbr)

def terms (c : Conv) : JsObject JsString := c.pairs.foldl (fun o p => o.put p.1 p.2) {}

end Conv

namespace GlossAgent

/-- A conversation without active terms is left out. -/
def data (a : GlossAgent) : JsObject (JsObject JsString) :=
  a.convs.entries.foldl
    (fun out e => if e.2.terms.entries = [] then out else out.put e.1 e.2.terms) {}

def dataJson (data : JsObject (JsObject JsString)) : Json JsString :=
  .obj (data.entries.map fun m => (m.1, .obj (m.2.entries.map fun p => (p.1, .str p.2))))

def serialize (a : GlossAgent) : String := String.ofList ((dataJson a.data).print JsString.quote)

def readTerm (m : JsString × Json JsString) : Option (JsString × JsString) :=
  match m.2 with
  | .str abbr => some (m.1, abbr)
  | _ => none

def readTerms (m : JsString × Json JsString) : Option (JsString × JsObject JsString) :=
  match m.2 with
  | .obj terms => (terms.mapM readTerm).map fun ps => (m.1, JsObject.ofMembers ps)
  | _ => none

/-- The text as the record of records that `load` takes it for. -/
def readData : Json JsString → Option (JsObject (JsObject JsString))
  | .obj convs => (convs.mapM readTerms).map JsObject.ofMembers
  | _ => none

def loadConv (a : GlossAgent) (m : JsString × JsObject JsString) : GlossAgent :=
  a.setConv m.1 (m.2.entries.foldl adopt (a.conv m.1))

/-- Defined for texts that hold a record of records of strings. -/
def load (a : GlossAgent) (json : String) : Option GlossAgent :=
  ((JsParse.parse json.toList).bind readData).map fun data => data.entries.foldl loadConv a

/-- A fresh agent that loads the session has the same active pairs everywhere, and reads every body
the same way. -/
def Survives (a : GlossAgent) : Prop :=
  ∀ agentId, ∃ a', load { agentId } a.serialize = some a' ∧ ∀ key,
    (∀ p, p ∈ (a'.conv key).pairs ↔ p ∈ (a.conv key).pairs) ∧
      ∀ body, (a'.conv key).expand body = (a.conv key).expand body

end GlossAgent

namespace Conv

/-- What the abbreviation reads as. -/
def token (c : Conv) (abbr : JsString) : JsString := (c.reverse.get abbr).getD (tilde :: abbr)

/-- The last term with this abbreviation. -/
def lastTerm (ps : List (JsString × JsString)) (abbr : JsString) : Option JsString :=
  (ps.reverse.find? fun p => p.2 = abbr).map Prod.fst

/-- The active pairs in the order of an object with the terms as keys. -/
def stored (c : Conv) : List (JsString × JsString) := JsObject.arrange c.pairs

/-- `__proto__` is no active term, and each abbreviation that can stand in a body reads as the last
stored term that has it. -/
def Restorable (c : Conv) : Prop :=
  (∀ abbr, (JsObject.protoKey, abbr) ∉ c.pairs) ∧
    ∀ abbr, abbr ≠ [] → (∀ u ∈ abbr, wordUnit u = true) →
      c.token abbr = (lastTerm c.stored abbr).getD (tilde :: abbr)

/-! ### Entries are filed under their terms -/

def Keyed (c : Conv) : Prop := ∀ term p, c.entries.get term = some p → p.term = term

theorem mem_pairs {c : Conv} (h : c.Keyed) {p : JsString × JsString} :
    p ∈ c.pairs ↔ c.Active p.1 p.2 := by
  unfold pairs active Active
  rw [List.mem_map]
  constructor
  · rintro ⟨e, he, rfl⟩
    obtain ⟨hvalue, hstate⟩ := List.mem_filter.mp he
    obtain ⟨term, hget⟩ := JsMap.mem_values.mp hvalue
    have hterm := h term e hget
    subst hterm
    exact ⟨e, hget, by simpa using hstate, rfl⟩
  · rintro ⟨e, hget, hstate, habbr⟩
    refine ⟨e, List.mem_filter.mpr ⟨JsMap.mem_values.mpr ⟨p.1, hget⟩, by simpa using hstate⟩, ?_⟩
    rw [h p.1 e hget, habbr]

theorem nodup_pairs {c : Conv} (h : c.Keyed) : (c.pairs.map Prod.fst).Nodup := by
  have hterms : c.entries.values.map GlossPair.term = c.entries.entries.map Prod.fst := by
    unfold JsMap.values
    rw [List.map_map]
    apply List.map_congr_left
    intro e he
    exact h e.1 e.2 (JsMap.mem_entries.mp he)
  have hkeys : c.pairs.map Prod.fst = c.active.map GlossPair.term := by
    unfold pairs
    rw [List.map_map]
    rfl
  rw [hkeys]
  apply List.Nodup.sublist (List.Sublist.map _ List.filter_sublist)
  rw [hterms]
  exact c.entries.nodup

theorem Keyed.adopt {c : Conv} (h : c.Keyed) (pair : JsString × JsString) :
    (c.adopt pair).Keyed := by
  intro term p hp
  rw [adopt_get] at hp
  split at hp
  next heq =>
    rw [← Option.some.inj hp]
    exact heq
  next => exact h term p hp

theorem Keyed.adopt_foldl {c : Conv} (h : c.Keyed) (ps : List (JsString × JsString)) :
    (ps.foldl Conv.adopt c).Keyed := by
  induction ps generalizing c with
  | nil => exact h
  | cons p ps ih => exact ih (h.adopt p)

theorem Keyed.empty : Keyed {} := by
  intro term p hp
  cases hp

/-! ### A loaded conversation -/

theorem terms_entries {c : Conv} (h : c.Keyed) : c.terms.entries =
    JsObject.arrange (c.pairs.filter fun p => p.1 ≠ JsObject.protoKey) := by
  have hmade := @JsObject.made_foldl_put JsString c.pairs {} (nodup_pairs h)
  rw [JsObject.entries, terms, hmade]
  rfl

theorem mem_terms {c : Conv} (h : c.Keyed) {p : JsString × JsString} :
    p ∈ c.terms.entries ↔ p ∈ c.pairs ∧ p.1 ≠ JsObject.protoKey := by
  rw [terms_entries h, (JsObject.arrange_perm _).mem_iff, List.mem_filter]
  simp

theorem takes_empty {ps : List (JsString × JsString)} (h : (ps.map Prod.fst).Nodup) :
    Takes {} ps := by
  refine ⟨h, fun p _ abbr hact => ?_⟩
  obtain ⟨e, he, -⟩ := hact
  cases he

theorem mem_pairs_loaded {ps : List (JsString × JsString)} (h : (ps.map Prod.fst).Nodup)
    {p : JsString × JsString} : p ∈ (ps.foldl adopt {}).pairs ↔ p ∈ ps := by
  rw [mem_pairs (Keyed.empty.adopt_foldl ps)]
  constructor
  · rintro ⟨e, hget, -, habbr⟩
    rcases adopt_foldl_get (takes_empty h) p.1 with ⟨-, hnone⟩ | ⟨q, hq, hterm, hnew⟩
    · rw [hnone] at hget
      cases hget
    · rw [hnew] at hget
      rw [← Option.some.inj hget] at habbr
      have hpq : q = p := Prod.ext hterm habbr
      rwa [← hpq]
  · intro hp
    exact ((takes_empty h).live hp).1

theorem reverse_loaded (ps : List (JsString × JsString)) (abbr : JsString) :
    (ps.foldl adopt {}).reverse.get abbr = lastTerm ps abbr := by
  induction ps using List.reverseRecOn with
  | nil => rfl
  | append_singleton ps p ih =>
    rw [List.foldl_append, List.foldl_cons, List.foldl_nil]
    have hset : ((ps.foldl adopt {}).adopt p).reverse.get abbr =
        if p.2 = abbr then some p.1 else (ps.foldl adopt {}).reverse.get abbr :=
      JsMap.get_set _ _ _ _
    rw [hset, ih, lastTerm, lastTerm, List.reverse_append, List.reverse_singleton,
      List.singleton_append, List.find?_cons]
    by_cases hp : p.2 = abbr <;> simp [hp]

/-- Loading what was stored restores a conversation exactly if it is restorable. -/
theorem restorable_iff {c : Conv} (h : c.Keyed) :
    ((∀ p, p ∈ (c.terms.entries.foldl adopt {}).pairs ↔ p ∈ c.pairs) ∧
        ∀ body, (c.terms.entries.foldl adopt {}).expand body = c.expand body) ↔ c.Restorable := by
  have hpairs : ∀ p, p ∈ (c.terms.entries.foldl adopt {}).pairs ↔
      p ∈ c.pairs ∧ p.1 ≠ JsObject.protoKey := by
    intro p
    rw [mem_pairs_loaded c.terms.nodup_entries, mem_terms h]
  have hproto : (∀ p, p ∈ (c.terms.entries.foldl adopt {}).pairs ↔ p ∈ c.pairs) ↔
      ∀ abbr, (JsObject.protoKey, abbr) ∉ c.pairs := by
    constructor
    · intro hsame abbr hmem
      exact ((hpairs _).mp ((hsame _).mpr hmem)).2 rfl
    · intro hnone p
      rw [hpairs]
      constructor
      · exact And.left
      · intro hp
        exact ⟨hp, fun heq => hnone p.2 (heq ▸ hp)⟩
  unfold Restorable
  rw [hproto]
  apply and_congr_right
  intro hnone
  have hstored : c.terms.entries = c.stored := by
    have hall : ∀ p ∈ c.pairs, decide (p.1 ≠ JsObject.protoKey) = true := by
      intro p hp
      exact decide_eq_true fun heq => hnone p.2 (heq ▸ hp)
    rw [terms_entries h, List.filter_eq_self.mpr hall]
    rfl
  unfold expand token
  rw [Shorthand.expandAll_congr_iff, hstored]
  simp only [reverse_loaded]
  constructor
  · intro hsame abbr hne hword
    exact (hsame abbr hne hword).symm
  · intro hsame abbr hne hword
    exact (hsame abbr hne hword).symm

end Conv

/-! ### The text -/

namespace GlossAgent

theorem mapM_map_some {α β γ : Type} {f : β → Option γ} {g : α → β} {k : α → γ}
    (h : ∀ x, f (g x) = some (k x)) (xs : List α) : (xs.map g).mapM f = some (xs.map k) := by
  induction xs with
  | nil => rfl
  | cons x xs ih => simp [List.mapM_cons, h, ih]

theorem numerals_dataJson (data : JsObject (JsObject JsString)) :
    JsParse.Numerals (dataJson data) := by
  apply (JsValue.numeralsMembers_iff _).mpr
  intro m hm
  obtain ⟨n, -, rfl⟩ := List.mem_map.mp hm
  apply (JsValue.numeralsMembers_iff _).mpr
  intro p hp
  obtain ⟨q, -, rfl⟩ := List.mem_map.mp hp
  trivial

theorem readData_dataJson (data : JsObject (JsObject JsString)) :
    readData (dataJson data) = some (JsObject.ofMembers
      (data.entries.map (Prod.map id fun terms => JsObject.ofMembers terms.entries))) := by
  have hterm : ∀ p : JsString × JsString, readTerm (p.1, .str p.2) = some p := fun _ => rfl
  have hterms : ∀ m : JsString × JsObject JsString,
      readTerms (m.1, .obj (m.2.entries.map fun p => (p.1, .str p.2))) =
        some (Prod.map id (fun terms => JsObject.ofMembers terms.entries) m) := by
    intro m
    have hread := mapM_map_some (k := id) hterm m.2.entries
    rw [List.map_id] at hread
    show (List.mapM readTerm _).map _ = _
    rw [hread]
    rfl
  show (List.mapM readTerms _).map _ = _
  rw [mapM_map_some hterms]
  rfl

theorem load_serialize (a b : GlossAgent) :
    b.load a.serialize = some (a.data.entries.foldl loadConv b) := by
  have hnodup : ((a.data.entries.map
      (Prod.map id fun terms : JsObject JsString => JsObject.ofMembers terms.entries)).map
        Prod.fst).Nodup := by
    rw [List.map_map]
    exact a.data.nodup_entries
  have hentries := JsObject.entries_ofMembers hnodup
  rw [JsObject.arrange_map] at hentries
  have hordered : JsObject.arrange a.data.entries = a.data.entries :=
    JsObject.arrange_arrange a.data.made.entries
  rw [hordered] at hentries
  unfold load serialize
  rw [String.toList_ofList, JsParse.parse_print (numerals_dataJson a.data), Option.bind_some,
    readData_dataJson, Option.map_some, hentries, List.foldl_map]
  have hload : ∀ (b : GlossAgent) (m : JsString × JsObject JsString),
      b.loadConv (Prod.map id (fun terms => JsObject.ofMembers terms.entries) m) =
        b.loadConv m := by
    intro b m
    unfold loadConv
    rw [Prod.map_fst, Prod.map_snd, JsObject.entries_ofMembers_entries]
    rfl
  simp only [hload]

/-! ### The conversations -/

theorem loadConv_foldl {ms : List (JsString × JsObject JsString)} (h : (ms.map Prod.fst).Nodup)
    (a : GlossAgent) (key : JsString) : (ms.foldl loadConv a).conv key =
      (JsMap.lookup key ms).elim (a.conv key) fun terms =>
        terms.entries.foldl adopt (a.conv key) := by
  induction ms generalizing a with
  | nil => rfl
  | cons m ms ih =>
    obtain ⟨hfresh, hrest⟩ := List.nodup_cons.mp h
    rw [List.foldl_cons, ih hrest]
    have hone : (a.loadConv m).conv key =
        if m.1 = key then m.2.entries.foldl adopt (a.conv m.1) else a.conv key :=
      conv_setConv a m.1 key _
    have hlookup : JsMap.lookup key (m :: ms) =
        if m.1 = key then some m.2 else JsMap.lookup key ms := rfl
    rw [hone, hlookup]
    by_cases hkey : m.1 = key
    · subst hkey
      rw [if_pos rfl, if_pos rfl, JsMap.lookup_eq_none.mpr hfresh]
      rfl
    · rw [if_neg hkey, if_neg hkey]

theorem data_foldl {cs : List (JsString × Conv)} (h : (cs.map Prod.fst).Nodup)
    (out : JsObject (JsObject JsString)) {key : JsString} (hkey : key ≠ JsObject.protoKey) :
    (cs.foldl (fun out e => if e.2.terms.entries = [] then out else out.put e.1 e.2.terms)
        out).made.get key =
      (JsMap.lookup key cs).elim (out.made.get key) fun c =>
        if c.terms.entries = [] then out.made.get key else some c.terms := by
  induction cs generalizing out with
  | nil => rfl
  | cons e cs ih =>
    obtain ⟨hfresh, hrest⟩ := List.nodup_cons.mp h
    have hlookup : JsMap.lookup key (e :: cs) =
        if e.1 = key then some e.2 else JsMap.lookup key cs := rfl
    rw [List.foldl_cons, ih hrest, hlookup]
    by_cases hsame : e.1 = key
    · subst hsame
      rw [JsMap.lookup_eq_none.mpr hfresh, if_pos rfl]
      show _ = if e.2.terms.entries = [] then _ else _
      by_cases hterms : e.2.terms.entries = []
      · rw [if_pos hterms, if_pos hterms]
        rfl
      · have hput := out.get_put e.1 e.1 e.2.terms
        rw [if_pos ⟨hkey, rfl⟩] at hput
        rw [if_neg hterms, if_neg hterms]
        exact hput
    · rw [if_neg hsame]
      by_cases hterms : e.2.terms.entries = []
      · rw [if_pos hterms]
      · have hput := out.get_put e.1 key e.2.terms
        rw [if_neg (by simp [hsame])] at hput
        rw [if_neg hterms, hput]

theorem get_data (a : GlossAgent) {key : JsString} (hkey : key ≠ JsObject.protoKey) :
    a.data.made.get key =
      if (a.conv key).terms.entries = [] then none else some (a.conv key).terms := by
  have hfold := data_foldl a.convs.nodup {} hkey
  change a.data.made.get key = _ at hfold
  rw [hfold]
  have hconv : a.conv key = (JsMap.lookup key a.convs.entries).getD {} := rfl
  rw [hconv]
  cases JsMap.lookup key a.convs.entries with
  | none => rfl
  | some c => rfl

theorem not_mem_data_protoKey (cs : List (JsString × Conv)) (out : JsObject (JsObject JsString))
    (h : out.made.get JsObject.protoKey = none) :
    (cs.foldl (fun out e => if e.2.terms.entries = [] then out else out.put e.1 e.2.terms)
      out).made.get JsObject.protoKey = none := by
  induction cs generalizing out with
  | nil => exact h
  | cons e cs ih =>
    rw [List.foldl_cons]
    apply ih
    split
    · exact h
    · rw [JsObject.get_put, if_neg]
      · exact h
      · intro hboth
        exact hboth.1 hboth.2

theorem lookup_entries {V : Type} (o : JsObject V) (key : JsString) :
    JsMap.lookup key o.entries = o.made.get key := by
  cases hget : o.made.get key with
  | some v =>
    apply (JsMap.mem_iff_lookup o.nodup_entries).mp
    exact JsObject.mem_entries.mpr hget
  | none =>
    apply JsMap.lookup_eq_none.mpr
    intro hmem
    obtain ⟨m, hm, rfl⟩ := List.mem_map.mp hmem
    have hsome := JsObject.mem_entries.mp hm
    rw [hget] at hsome
    cases hsome

/-- A fresh agent has each conversation as its stored terms tell. -/
theorem conv_loaded (a : GlossAgent) (agentId : JsString) {key : JsString}
    (h : a.conv JsObject.protoKey = {}) :
    (a.data.entries.foldl loadConv { agentId }).conv key =
      (a.conv key).terms.entries.foldl adopt {} := by
  rw [loadConv_foldl a.data.nodup_entries, lookup_entries]
  by_cases hkey : key = JsObject.protoKey
  · subst hkey
    have hnone : a.data.made.get JsObject.protoKey = none :=
      not_mem_data_protoKey a.convs.entries {} rfl
    rw [hnone, h]
    rfl
  · rw [get_data a hkey]
    split
    next hempty =>
      rw [hempty]
      rfl
    next => rfl

theorem survives_iff_restorable {a : GlossAgent} (hkeyed : ∀ key, (a.conv key).Keyed)
    (hproto : a.conv JsObject.protoKey = {}) :
    a.Survives ↔ ∀ key, (a.conv key).Restorable := by
  constructor
  · intro h key
    obtain ⟨b, hload, hsame⟩ := h []
    rw [load_serialize] at hload
    have hkey := hsame key
    rw [← Option.some.inj hload, a.conv_loaded [] hproto] at hkey
    exact (restorable_iff (hkeyed key)).mp hkey
  · intro h agentId
    refine ⟨_, load_serialize a _, fun key => ?_⟩
    rw [a.conv_loaded agentId hproto]
    exact (restorable_iff (hkeyed key)).mpr (h key)

/-! ### Runs -/

theorem step_keyed {a : GlossAgent} {key : JsString} (h : (a.conv key).Keyed) (e : GlossEvent) :
    ((a.step e).conv key).Keyed := by
  cases e with
  | say dest text =>
    rw [conv_say]
    split
    next hkey =>
      subst hkey
      intro term p hp
      rcases (a.conv dest.key).sayTo_entry text term with hsame | ⟨q, -, -, hnew⟩
      · exact h term p (hsame ▸ hp)
      · rw [hnew] at hp
        rw [← Option.some.inj hp]
    next => exact h
  | body dest text => exact h
  | drop channel abbr =>
    change ((a.setConv (Dest.channel channel).key
      ((a.conv (Dest.channel channel).key).deactivate [abbr])).conv key).Keyed
    rw [conv_setConv]
    split
    next hkey =>
      subst hkey
      intro term p hp
      exact h term p ((deactivate_drops _ _).get term p hp)
    next => exact h
  | inbound m =>
    rcases a.inbound_cases m with ⟨⟨hstep, -⟩, -⟩ | ⟨frame, -, hstep, -, -⟩
    · rwa [hstep]
    · rw [hstep, conv_setConv]
      split
      next hkey =>
        subst hkey
        rcases (a.conv m.dest.key).handleGloss_cases frame with ⟨-, hfold⟩ | ⟨-, hdrops⟩
        · rw [hfold]
          exact h.adopt_foldl _
        · intro term p hp
          exact h term p (hdrops.get term p hp)
      next => exact h

theorem conv_step_of_not_key {a : GlossAgent} {key : JsString} (h : ∀ dest : Dest, dest.key ≠ key)
    (e : GlossEvent) : (a.step e).conv key = a.conv key := by
  cases e with
  | say dest text => rw [conv_say, if_neg (h dest)]
  | body dest text => rfl
  | drop channel abbr => exact (conv_setConv a _ key _).trans (if_neg (h _))
  | inbound m =>
    rcases a.inbound_cases m with ⟨⟨hstep, -⟩, -⟩ | ⟨frame, -, hstep, -, -⟩
    · rw [hstep]
    · rw [hstep, conv_setConv, if_neg (h _)]

theorem dest_key_ne_protoKey (dest : Dest) : dest.key ≠ JsObject.protoKey := by
  intro h
  have hhead := congrArg List.head? h
  have hproto : JsObject.protoKey.head? = some 0x5f := by decide +kernel
  cases dest with
  | channel name =>
    have hchan : (JsString.ofString "chan:").head? = some 0x63 := by decide +kernel
    rw [Dest.key, List.head?_append, hchan, hproto, Option.some_or] at hhead
    exact absurd hhead (by decide)
  | dm peer =>
    have hdm : (JsString.ofString "dm:").head? = some 0x64 := by decide +kernel
    rw [Dest.key, List.head?_append, hdm, hproto, Option.some_or] at hhead
    exact absurd hhead (by decide)

variable {agentId : JsString} {es : List GlossEvent}

theorem run_keyed (agentId : JsString) (es : List GlossEvent) (key : JsString) :
    ((run agentId es).conv key).Keyed := by
  induction es using List.reverseRecOn with
  | nil => exact Keyed.empty
  | append_singleton es e ih =>
    rw [run, List.foldl_append]
    exact step_keyed ih e

theorem run_conv_protoKey (agentId : JsString) (es : List GlossEvent) :
    (run agentId es).conv JsObject.protoKey = {} := by
  induction es using List.reverseRecOn with
  | nil => rfl
  | append_singleton es e ih =>
    rw [run, List.foldl_append]
    exact (conv_step_of_not_key dest_key_ne_protoKey e).trans ih

/-- No two terms with one abbreviation are taken over, and never the term `__proto__`. -/
def Plain (agentId : JsString) (es : List GlossEvent) : Prop :=
  ∀ key, Apart (adoptions agentId key es) ∧ ∀ p ∈ adoptions agentId key es, p.1 ≠ JsObject.protoKey

theorem Plain.of_prefix {es₀ : List GlossEvent} (h : Plain agentId es) (hes : es₀ <+: es) :
    Plain agentId es₀ := by
  intro key
  have hadoptions := @adoptions_initial agentId key _ _ hes
  exact ⟨(h key).1.sublist hadoptions.sublist, fun p hp => (h key).2 p (hadoptions.subset hp)⟩

theorem Plain.restorable (h : Plain agentId es) (key : JsString) :
    ((run agentId es).conv key).Restorable := by
  have hkeyed := run_keyed agentId es key
  have hsound : Sound ((run agentId es).conv key) (adoptions agentId key es) :=
    sound_after (h key).1
  have hactive : ∀ p, p ∈ ((run agentId es).conv key).pairs ↔
      ((run agentId es).conv key).reverse.get p.2 = some p.1 := by
    intro p
    rw [mem_pairs hkeyed]
    exact (hsound.inverse p.2 p.1).symm
  constructor
  · intro abbr hmem
    have hlive := hsound.live _ _ ((mem_pairs hkeyed).mp hmem)
    exact (h key).2 _ hlive rfl
  · intro abbr _ _
    have hstored : ∀ p, p ∈ ((run agentId es).conv key).stored.reverse ↔
        p ∈ ((run agentId es).conv key).pairs := by
      intro p
      rw [List.mem_reverse]
      exact (JsObject.arrange_perm _).mem_iff
    unfold token lastTerm
    cases hfind : ((run agentId es).conv key).stored.reverse.find? fun p => p.2 = abbr with
    | some p =>
      have hmem := (hactive p).mp ((hstored p).mp (List.mem_of_find?_eq_some hfind))
      have habbr : p.2 = abbr := by simpa using List.find?_some hfind
      rw [habbr] at hmem
      rw [hmem]
      rfl
    | none =>
      cases hget : ((run agentId es).conv key).reverse.get abbr with
      | none => rfl
      | some term =>
        have hmem := (hstored (term, abbr)).mpr ((hactive (term, abbr)).mpr hget)
        have hnot := List.find?_eq_none.mp hfind _ hmem
        exact absurd (decide_eq_true rfl) hnot

/-- A session survives a reload exactly in the restorable states; in a plain run all are. -/
theorem run_survives_iff (agentId : JsString) (es : List GlossEvent) :
    ((run agentId es).Survives ↔ ∀ key, ((run agentId es).conv key).Restorable) ∧
      (Plain agentId es → ∀ es₀, es₀ <+: es → (run agentId es₀).Survives) := by
  have hiff : ∀ es, (run agentId es).Survives ↔ ∀ key, ((run agentId es).conv key).Restorable :=
    fun es => survives_iff_restorable (run_keyed agentId es) (run_conv_protoKey agentId es)
  constructor
  · exact hiff es
  · intro h es₀ hes
    exact (hiff es₀).mpr (h.of_prefix hes).restorable

/-- Two members propose one abbreviation, and it is dropped. -/
def droppedOnce : List GlossEvent :=
  twoProposals ++ [.drop (JsString.ofString "dev") (JsString.ofString "impl")]

theorem not_survives_droppedOnce : ¬ (run (JsString.ofString "c") droppedOnce).Survives := by
  intro h
  obtain ⟨b, hload, hsame⟩ := h (JsString.ofString "c")
  rw [load_serialize] at hload
  have hbody := (hsame (Dest.channel (JsString.ofString "dev")).key).2 (JsString.ofString "~impl")
  rw [← Option.some.inj hload] at hbody
  revert hbody
  decide +kernel

end GlossAgent

end Dap
