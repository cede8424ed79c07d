import Dap.Lib.Striking

/-! What a text with phrases struck out reads back as: the text itself, exactly when striking out
met no name that the text or a later phrase has too. -/
namespace Dap
namespace Shorthand

open Item

variable {α : Type} [DecidableEq α] {word : α → Bool} {m : α} {look : List α → Option (List α)}

variable (word) in
/-- Behind a struck occurrence no word goes on. -/
def Free : List (Item α) → Prop
  | [] => True
  | i :: items => (∀ q, i = struck q → itemBreak word items = true) ∧ Free items

omit [DecidableEq α] in
theorem Free.of_append {xs ys : List (Item α)} (hf : Free word (xs ++ ys)) : Free word xs := by
  induction xs with
  | nil => trivial
  | cons i xs ih =>
    refine ⟨fun q hq => ?_, ih hf.2⟩
    have hb := hf.1 q hq
    cases xs with
    | nil => rfl
    | cons j xs => exact hb

omit [DecidableEq α] in
theorem Free.of_append_right {xs ys : List (Item α)} (hf : Free word (xs ++ ys)) :
    Free word ys := by
  induction xs with
  | nil => exact hf
  | cons i xs ih => exact ih hf.2

theorem Strikes.itemBreak {e : Entry α} {closed : Bool} {items out : List (Item α)}
    (h : Strikes word e closed items out) (hb : Shorthand.itemBreak word items = true) :
    Shorthand.itemBreak word out = true := by
  cases h with
  | nil => rfl
  | hit hfree h => rfl
  | miss hno h => exact hb

theorem Strikes.free {e : Entry α} {closed : Bool} {items out : List (Item α)}
    (h : Strikes word e closed items out) (hf : Free word items) : Free word out := by
  induction h with
  | nil => trivial
  | hit hfree h ih => exact ⟨fun _ _ => h.itemBreak hfree, ih hf.of_append_right⟩
  | miss hno h ih => exact ⟨fun q hq => h.itemBreak (hf.1 q hq), ih hf.2⟩

theorem Strikes.mem {e : Entry α} {closed : Bool} {items out : List (Item α)}
    (h : Strikes word e closed items out) {i : Item α} (hi : i ∈ out) :
    i = struck e ∨ i ∈ items := by
  induction h with
  | nil => simp at hi
  | hit hfree h ih =>
    rcases List.mem_cons.mp hi with heq | hmem
    · exact Or.inl heq
    · exact (ih hmem).imp_right (List.mem_append_right _)
  | miss hno h ih =>
    rcases List.mem_cons.mp hi with heq | hmem
    · exact Or.inr (by simp [heq])
    · exact (ih hmem).imp_right (List.mem_cons_of_mem _)

/-- The names stand for the known phrases, each of them valid. -/
structure Codes (word : α → Bool) (m : α) (look : List α → Option (List α))
    (known : List (Entry α)) : Prop where
  mark : word m = false
  valid : ∀ q ∈ known, Valid word m q
  look_iff : ∀ name phrase, look name = some phrase ↔ (phrase, name) ∈ known

variable {known : List (Entry α)}

omit [DecidableEq α] in
theorem LiveName.cons {i : Item α} {items : List (Item α)} (h : LiveName word m look items) :
    LiveName word m look (i :: items) := by
  obtain ⟨pre, name, term, post, rfl, hrest⟩ := h
  exact ⟨i :: pre, name, term, post, rfl, hrest⟩

omit [DecidableEq α] in
/-- What is left of a live name when something before it goes. -/
theorem LiveName.of_cons {i : Item α} {items : List (Item α)}
    (h : LiveName word m look (i :: items)) :
    LiveName word m look items ∨ i = unit m ∧ ∃ name term post, items = name.map unit ++ post ∧
      name ≠ [] ∧ look name = some term ∧ (∀ u ∈ name, word u = true) ∧
      itemBreak word post = true := by
  obtain ⟨pre, name, term, post, hitems, hrest⟩ := h
  cases pre with
  | nil =>
    obtain ⟨rfl, htail⟩ := List.cons.inj hitems
    exact Or.inr ⟨rfl, name, term, post, htail, hrest⟩
  | cons j pre =>
    obtain ⟨-, htail⟩ := List.cons.inj hitems
    exact Or.inl ⟨pre, name, term, post, htail, hrest⟩

omit [DecidableEq α] in
/-- The run of word units at the head of the items. -/
theorem exists_run (hword : word m = false) (items : List (Item α)) {tail : List α}
    (htail : atBreak word tail = true) :
    ∃ post, items = ((render m items ++ tail).takeWhile word).map unit ++ post ∧
      itemBreak word post = true := by
  induction items with
  | nil =>
    have hnone : ∀ u ∈ ([] : List α), word u = true := by simp
    have hrun := takeWhile_append_of_atBreak hnone htail
    exact ⟨[], by simpa [render] using hrun, rfl⟩
  | cons i items ih =>
    by_cases hi : i.opens word = true
    · cases i with
      | struck q => simp [opens] at hi
      | unit c =>
        obtain ⟨post, hitems, hpost⟩ := ih
        have hrun : (render m (unit c :: items) ++ tail).takeWhile word =
            c :: (render m items ++ tail).takeWhile word :=
          List.takeWhile_cons_of_pos hi
        exact ⟨post, by rw [hrun, List.map_cons, List.cons_append, ← hitems], hpost⟩
    · refine ⟨i :: items, ?_, by simp [itemBreak, hi]⟩
      have hb : atBreak word (render m (i :: items) ++ tail) = true := by
        have hrender := atBreak_render (m := m) hword (i :: items)
        cases i <;> simpa [render, write, atBreak, itemBreak, hi] using hrender
      have hnone : ∀ u ∈ ([] : List α), word u = true := by simp
      have hrun := takeWhile_append_of_atBreak hnone hb
      rw [List.nil_append] at hrun
      rw [hrun]
      rfl

omit [DecidableEq α] in
theorem atBreak_render_append (hword : word m = false) {items : List (Item α)} {tail : List α}
    (hb : itemBreak word items = true) (htail : atBreak word tail = true) :
    atBreak word (render m items ++ tail) = true := by
  rw [← atBreak_render hword] at hb
  cases hr : render m items with
  | nil => exact htail
  | cons c cs => rwa [hr] at hb

theorem Codes.expandFrom_struck (hc : Codes word m look known) {q : Entry α}
    {items : List (Item α)} (hb : itemBreak word items = true) (hq : q ∈ known) {tail : List α}
    (htail : atBreak word tail = true) :
    expandFrom word m look 0 (render m (struck q :: items) ++ tail) =
      q.1 ++ expandFrom word m look 0 (render m items ++ tail) := by
  have hvalid := hc.valid q hq
  rw [render_struck, List.cons_append, List.append_assoc]
  exact expandFrom_name hvalid.name hvalid.words (atBreak_render_append hc.mark hb htail)
    ((hc.look_iff q.2 q.1).mpr hq)

/-- Struck items without a live name read back as what was struck out. -/
theorem Codes.expandFrom_render (hc : Codes word m look known) {items : List (Item α)}
    (hfree : Free word items) (hknown : ∀ q, struck q ∈ items → q ∈ known)
    (hlive : ¬ LiveName word m look items) {tail : List α} (htail : atBreak word tail = true) :
    expandFrom word m look 0 (render m items ++ tail) =
      source items ++ expandFrom word m look 0 tail := by
  induction items with
  | nil => rfl
  | cons i items ih =>
    have hrec := ih hfree.2 (fun q hq => hknown q (List.mem_cons_of_mem i hq))
      fun h => hlive h.cons
    cases i with
    | unit c =>
      change expandFrom word m look 0 (c :: (render m items ++ tail)) = c :: (source items ++ _)
      rw [← hrec]
      by_cases hcm : c = m
      · subst hcm
        apply expandFrom_mark hc.mark
        by_contra hcon
        obtain ⟨hne, hsome⟩ := not_or.mp hcon
        obtain ⟨term, hterm⟩ := Option.ne_none_iff_exists'.mp hsome
        obtain ⟨post, hitems, hpost⟩ := exists_run hc.mark items htail
        have hall : ((render c items ++ tail).takeWhile word).all word = true :=
          List.all_takeWhile
        exact hlive ⟨[], _, term, post, congrArg (unit c :: ·) hitems, hne, hterm,
          List.all_eq_true.mp hall, hpost⟩
      · exact expandFrom_of_ne hcm _
    | struck q =>
      rw [hc.expandFrom_struck (hfree.1 q rfl) (hknown q (by simp)) htail, hrec,
        ← List.append_assoc]
      rfl

/-- A live name reads back as something else. -/
theorem Codes.expandFrom_render_ne (hc : Codes word m look known) {items : List (Item α)}
    (hfree : Free word items) (hknown : ∀ q, struck q ∈ items → q ∈ known)
    (hlive : LiveName word m look items) {tail : List α} (htail : atBreak word tail = true)
    (xs : List α) : expandFrom word m look 0 (render m items ++ tail) ≠ source items ++ xs := by
  induction items with
  | nil =>
    obtain ⟨pre, name, term, post, hitems, -⟩ := hlive
    simp at hitems
  | cons i items ih =>
    have hrec := ih hfree.2 (fun q hq => hknown q (List.mem_cons_of_mem i hq))
    cases i with
    | unit c =>
      change expandFrom word m look 0 (c :: (render m items ++ tail)) ≠ c :: (source items ++ xs)
      by_cases hcm : c = m
      · subst hcm
        by_cases hrun : (render c items ++ tail).takeWhile word = [] ∨
            look ((render c items ++ tail).takeWhile word) = none
        · rw [expandFrom_mark hc.mark hrun]
          intro heq
          rcases hlive.of_cons with hlater | ⟨-, name, term, post, rfl, hne, hlook, hwords, hpost⟩
          · exact hrec hlater (List.cons.inj heq).2
          · have hbreak := atBreak_render_append hc.mark hpost htail
            have hname : (render c (name.map unit ++ post) ++ tail).takeWhile word = name := by
              rw [render_append, render_map_unit, List.append_assoc]
              exact takeWhile_append_of_atBreak hwords hbreak
            rw [hname] at hrun
            rcases hrun with hempty | hnone
            · exact hne hempty
            · rw [hlook] at hnone
              cases hnone
        · obtain ⟨hne, hsome⟩ := not_or.mp hrun
          obtain ⟨term, hterm⟩ := Option.ne_none_iff_exists'.mp hsome
          have hvalid := hc.valid _ ((hc.look_iff _ _).mp hterm)
          rw [expandFrom, if_pos ⟨rfl, hne⟩, hterm, Option.getD_some]
          obtain ⟨d, ds, hd⟩ := List.exists_cons_of_ne_nil hvalid.phrase
          rw [show term = d :: ds from hd]
          intro heq
          have hdc : d = c := (List.cons.inj heq).1
          exact hvalid.unmarked (by rw [hd, hdc]; exact List.mem_cons_self)
      · rw [expandFrom_of_ne hcm]
        intro heq
        rcases hlive.of_cons with hlater | ⟨hunit, -⟩
        · exact hrec hlater (List.cons.inj heq).2
        · exact hcm (Item.unit.inj hunit)
    | struck q =>
      rw [hc.expandFrom_struck (hfree.1 q rfl) (hknown q (by simp)) htail]
      change q.1 ++ _ ≠ q.1 ++ source items ++ xs
      rw [List.append_assoc]
      intro heq
      rcases hlive.of_cons with hlater | ⟨hunit, -⟩
      · exact hrec hlater (List.append_cancel_left heq)
      · cases hunit

/-! ### One phrase after the other -/

variable (word) in
def compactAll (m : α) (es : List (Entry α)) (text : List α) : List α :=
  es.foldl (fun out e => replaceAll word e.1 (fun _ _ => m :: e.2) out) text

/-- The items that the replacements so far have struck out of the text. -/
structure Faithful (word : α → Bool) (known : List (Entry α)) (items : List (Item α)) : Prop where
  free : Free word items
  known : ∀ q, struck q ∈ items → q ∈ known

theorem Faithful.next (hc : Codes word m look known) {items : List (Item α)}
    (hf : Faithful word known items) {e : Entry α} (he : e ∈ known) :
    Faithful word known (strike word e items) := by
  have hstrikes : Strikes word e _ _ (strike word e items) :=
    strikeFrom_strikes (hc.valid e he).phrase false items
  refine ⟨hstrikes.free hf.free, fun q hq => ?_⟩
  rcases hstrikes.mem hq with heq | hmem
  · exact Item.struck.inj heq ▸ he
  · exact hf.known q hmem

theorem source_strike {e : Entry α} (he : e.1 ≠ []) (items : List (Item α)) :
    source (strike word e items) = source items :=
  (strikeFrom_strikes he false items).source

theorem Faithful.render_strike (hc : Codes word m look known) {items : List (Item α)}
    (hf : Faithful word known items) {e : Entry α} (he : e ∈ known)
    (hno : ¬ Straddles word e items) :
    render m (strike word e items) =
      replaceAll word e.1 (fun _ _ => m :: e.2) (render m items) := by
  have hvalid := hc.valid e he
  exact (strikeFrom_strikes hvalid.phrase false items).render hc.mark hvalid.phrase
    hvalid.unmarked (fun q hq => hc.valid q (hf.known q hq)) hno [] rfl

/-- A phrase that straddles leaves two marks in a row, where the text has a phrase. -/
def Spoilt (word : α → Bool) (m : α) (known : List (Entry α)) (out text : List α) : Prop :=
  ∃ items rest c cs, Faithful word known items ∧ out = render m items ++ m :: m :: rest ∧
    text = source items ++ c :: cs ∧ c ≠ m

omit [DecidableEq α] in
/-- The first occurrence that a phrase straddles. -/
theorem Straddles.first {e : Entry α} {items : List (Item α)} (h : Straddles word e items) :
    ∃ pre q rest post, items = pre ++ struck q :: (rest.map unit ++ post) ∧ e.1 = q.2 ++ rest ∧
      itemBreak word post = true ∧ ¬ Straddles word e pre := by
  induction hn : items.length using Nat.strong_induction_on generalizing items with
  | _ n ih =>
    obtain ⟨pre, q, rest, post, rfl, he, hpost⟩ := h
    by_cases hpre : Straddles word e pre
    · obtain ⟨pre', q', rest', post', rfl, he', hpost', hno⟩ :=
        ih pre.length (by simp at hn; omega) hpre rfl
      refine ⟨pre', q', rest', post' ++ struck q :: (rest.map unit ++ post), by simp, he', ?_, hno⟩
      cases post' with
      | nil => rfl
      | cons i post' => exact hpost'
    · exact ⟨pre, q, rest, post, rfl, he, hpost, hpre⟩

theorem Faithful.spoilt (hc : Codes word m look known) {items : List (Item α)}
    (hf : Faithful word known items) {e : Entry α} (he : e ∈ known)
    (hs : Straddles word e items) (rest cs : List α) :
    Spoilt word m known (replaceAll word e.1 (fun _ _ => m :: e.2) (render m items) ++ rest)
      (source items ++ cs) := by
  obtain ⟨pre, q, tail, post, rfl, hphrase, hpost, hno⟩ := hs.first
  have hvalid := hc.valid e he
  have hq := hc.valid q (hf.known q (by simp))
  have hpre : Faithful word known pre :=
    ⟨hf.free.of_append, fun r hr => hf.known r (List.mem_append_left _ hr)⟩
  obtain ⟨c, ds, hd⟩ := List.exists_cons_of_ne_nil hq.phrase
  have hrender : render m (pre ++ struck q :: (tail.map unit ++ post)) =
      render m pre ++ m :: (e.1 ++ render m post) := by
    rw [render_append, render_struck, render_append, render_map_unit, hphrase, List.append_assoc]
  have hmatch : matchesAt word e.1 (m :: ((render m pre).reverse ++ []))
      (e.1 ++ render m post) = true :=
    matchesAt_iff.mpr ⟨by simp [atBreak, hc.mark], _, rfl, by rwa [atBreak_render hc.mark]⟩
  have hout : replaceAll word e.1 (fun _ _ => m :: e.2)
      (render m (pre ++ struck q :: (tail.map unit ++ post))) =
        render m (strike word e pre) ++ m :: m :: (e.2 ++ replaceFrom word e.1 (fun _ _ => m :: e.2)
          (e.1.reverse ++ m :: ((render m pre).reverse ++ [])) 0 (render m post)) := by
    rw [hpre.render_strike hc he hno, hrender, replaceAll,
      replaceFrom_append_mark hvalid.phrase hvalid.unmarked hc.mark,
      replaceFrom_of_matchesAt hvalid.phrase hmatch]
    rfl
  have htext : source (pre ++ struck q :: (tail.map unit ++ post)) =
      source (strike word e pre) ++ c :: (ds ++ source (tail.map unit ++ post)) := by
    rw [source_strike hvalid.phrase, source_append]
    change source pre ++ (q.1 ++ source (tail.map unit ++ post)) = _
    rw [hd]
    rfl
  rw [hout, htext, List.append_assoc, List.append_assoc]
  refine ⟨strike word e pre, _, c, _, hpre.next hc he, rfl, rfl, ?_⟩
  rintro rfl
  exact hq.unmarked (by rw [hd]; exact List.mem_cons_self)

theorem Spoilt.replaceAll (hc : Codes word m look known) {out text : List α}
    (hs : Spoilt word m known out text) {e : Entry α} (he : e ∈ known) :
    Spoilt word m known (Shorthand.replaceAll word e.1 (fun _ _ => m :: e.2) out) text := by
  obtain ⟨items, rest, c, cs, hf, rfl, rfl, hne⟩ := hs
  have hvalid := hc.valid e he
  have hsecond := replaceFrom_append_mark hvalid.phrase hvalid.unmarked hc.mark (m :: e.2)
    [] rest (m :: ((render m items).reverse ++ []))
  rw [List.nil_append, replaceFrom_nil hvalid.phrase, List.nil_append] at hsecond
  rw [Shorthand.replaceAll, replaceFrom_append_mark hvalid.phrase hvalid.unmarked hc.mark, hsecond]
  by_cases hstraddles : Straddles word e items
  · exact hf.spoilt hc he hstraddles _ (c :: cs)
  · rw [← source_strike hvalid.phrase items]
    exact ⟨_, _, c, cs, hf.next hc he, by rw [hf.render_strike hc he hstraddles]; rfl, rfl, hne⟩

theorem Spoilt.expandAll_ne (hc : Codes word m look known) {out text : List α}
    (hs : Spoilt word m known out text) : expandAll word m look out ≠ text := by
  obtain ⟨items, rest, c, cs, hf, rfl, rfl, hne⟩ := hs
  have htail : atBreak word (m :: m :: rest) = true := by simp [atBreak, hc.mark]
  by_cases hlive : LiveName word m look items
  · exact hc.expandFrom_render_ne hf.free hf.known hlive htail _
  · have hmark : expandFrom word m look 0 (m :: m :: rest) = _ := expandFrom_mark hc.mark
      (Or.inl (List.takeWhile_cons_of_neg (by simp [hc.mark])))
    rw [expandAll, hc.expandFrom_render hf.free hf.known hlive htail, hmark]
    intro heq
    exact hne (List.cons.inj (List.append_cancel_left heq)).1.symm

theorem Spoilt.compactAll (hc : Codes word m look known) {es : List (Entry α)}
    (hes : ∀ e ∈ es, e ∈ known) {out text : List α} (hs : Spoilt word m known out text) :
    expandAll word m look (compactAll word m es out) ≠ text := by
  induction es generalizing out with
  | nil => exact hs.expandAll_ne hc
  | cons e es ih =>
    exact ih (fun e' he' => hes e' (List.mem_cons_of_mem e he'))
      (hs.replaceAll hc (hes e (by simp)))

theorem Faithful.expandAll_compactAll (hc : Codes word m look known) {es : List (Entry α)}
    (hes : ∀ e ∈ es, e ∈ known) {items : List (Item α)} (hf : Faithful word known items) :
    expandAll word m look (compactAll word m es (render m items)) = source items ↔
      Clear word m look es items := by
  induction es generalizing items with
  | nil =>
    have hnil : render m items ++ [] = render m items := List.append_nil _
    constructor
    · intro h hlive
      have hend : atBreak word [] = true := rfl
      have hne := hc.expandFrom_render_ne hf.free hf.known hlive hend []
      rw [hnil, List.append_nil] at hne
      exact hne h
    · intro h
      have hend : atBreak word [] = true := rfl
      have heq := hc.expandFrom_render hf.free hf.known h hend
      rw [hnil] at heq
      exact heq.trans (List.append_nil _)
  | cons e es ih =>
    have he := hes e (by simp)
    have hes' : ∀ e' ∈ es, e' ∈ known := fun e' he' => hes e' (List.mem_cons_of_mem e he')
    change expandAll word m look (compactAll word m es
        (Shorthand.replaceAll word e.1 (fun _ _ => m :: e.2) (render m items))) = _ ↔
      ¬ Straddles word e items ∧ Clear word m look es (strike word e items)
    by_cases hstraddles : Straddles word e items
    · have hspoilt := hf.spoilt hc he hstraddles [] []
      rw [List.append_nil, List.append_nil] at hspoilt
      exact iff_of_false (hspoilt.compactAll hc hes') fun h => h.1 hstraddles
    · rw [← hf.render_strike hc he hstraddles,
        ← source_strike (hc.valid e he).phrase items, ih hes' (hf.next hc he)]
      exact (and_iff_right hstraddles).symm

omit [DecidableEq α] in
theorem faithful_map_unit (text : List α) : Faithful word known (text.map unit) := by
  refine ⟨?_, fun q hq => by simp at hq⟩
  induction text with
  | nil => trivial
  | cons c cs ih => exact ⟨fun q hq => by simp at hq, ih⟩

/-- Compacting and expanding give the text back exactly when the text is clear. -/
theorem expandAll_compactAll_iff (hc : Codes word m look known) {es : List (Entry α)}
    (hes : ∀ e ∈ es, e ∈ known) (text : List α) :
    expandAll word m look (compactAll word m es text) = text ↔
      Clear word m look es (text.map unit) := by
  have h := (faithful_map_unit text).expandAll_compactAll hc hes
  rwa [render_map_unit, source_map_unit] at h

omit [DecidableEq α] in
theorem Free.itemBreak_of_struck {pre items : List (Item α)} {q : Entry α}
    (hf : Free word (pre ++ struck q :: items)) : itemBreak word items = true := by
  induction pre with
  | nil => exact hf.1 q rfl
  | cons i pre ih => exact ih hf.2

/-- Without a mark in the text, and without a phrase that begins with a name, nothing is in the
way. -/
theorem clear_of_plain (hc : Codes word m look known) {es : List (Entry α)}
    (hes : ∀ e ∈ es, e ∈ known)
    (hphrases : ∀ e ∈ known, ∀ q ∈ known, ∀ rest, e.1 = q.2 ++ rest → atBreak word rest = false)
    {items : List (Item α)} (hf : Faithful word known items) (hitems : unit m ∉ items) :
    Clear word m look es items := by
  induction es generalizing items with
  | nil =>
    rintro ⟨pre, name, term, post, rfl, -⟩
    exact hitems (by simp)
  | cons e es ih =>
    have he := hes e (by simp)
    refine ⟨?_, ih (fun e' he' => hes e' (List.mem_cons_of_mem e he')) (hf.next hc he) ?_⟩
    · rintro ⟨pre, q, rest, post, rfl, hphrase, -⟩
      have hgoes := hphrases e he q (hf.known q (by simp)) rest hphrase
      have hbreak := hf.free.itemBreak_of_struck
      cases rest with
      | nil => cases hgoes
      | cons c rest => exact absurd (hgoes.symm.trans hbreak) (by decide)
    · intro hmem
      have hstrikes : Strikes word e _ _ (strike word e items) :=
        strikeFrom_strikes (hc.valid e he).phrase false items
      rcases hstrikes.mem hmem with heq | hold
      · cases heq
      · exact hitems hold

end Shorthand
end Dap
