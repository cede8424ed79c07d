import Dap.Lib.Bytes
import Mathlib.Data.List.DropRight

/-! The WHATWG URL parser on what follows the scheme of a special URL, over scalar values. The
parser of its authority (user, host and port) is a parameter. -/
namespace Dap

namespace Url

/-! ### Percent-encoding -/

def control (c : Char) : Bool := c.toNat ≤ 0x1F ∨ 0x7E < c.toNat

/-- The percent-encode sets of paths, of queries of special URLs, and of fragments. -/
def pathSet (c : Char) : Bool :=
  control c ∨ c.toNat ∈ [0x20, 0x22, 0x23, 0x3C, 0x3E, 0x3F, 0x5E, 0x60, 0x7B, 0x7D]

def querySet (c : Char) : Bool := control c ∨ c.toNat ∈ [0x20, 0x22, 0x23, 0x27, 0x3C, 0x3E]

def fragmentSet (c : Char) : Bool := control c ∨ c.toNat ∈ [0x20, 0x22, 0x3C, 0x3E, 0x60]

def hexDigit (n : ℕ) : Char := Char.ofNat (if n < 10 then 0x30 + n else 0x37 + n)

def percentByte (b : UInt8) : List Char :=
  ['%', hexDigit (b.toNat / 16), hexDigit (b.toNat % 16)]

def percentChar (set : Char → Bool) (c : Char) : List Char :=
  if set c then (Bytes.utf8 [c]).flatMap percentByte else [c]

def percentEncode (set : Char → Bool) (s : List Char) : List Char := s.flatMap (percentChar set)

/-! ### The path state -/

def isSlash (c : Char) : Bool := c.toNat = 0x2F ∨ c.toNat = 0x5C

def singleDot (buffer : List Char) : Bool :=
  buffer.map Char.toLower ∈ [['.'], ['%', '2', 'e']]

def doubleDot (buffer : List Char) : Bool :=
  buffer.map Char.toLower ∈ [['.', '.'], ['.', '%', '2', 'e'], ['%', '2', 'e', '.'],
    ['%', '2', 'e', '%', '2', 'e']]

/-- The segments after one that ends in a slash. -/
def closed (kept : List (List Char)) (buffer : List Char) : List (List Char) :=
  if doubleDot buffer then kept.dropLast
  else if singleDot buffer then kept
  else kept ++ [buffer]

/-- The segments after the last one. -/
def finished (kept : List (List Char)) (buffer : List Char) : List (List Char) :=
  if doubleDot buffer then kept.dropLast ++ [[]]
  else if singleDot buffer then kept ++ [[]]
  else kept ++ [buffer]

def pathState (kept : List (List Char)) (buffer : List Char) : List Char → List (List Char)
  | [] => finished kept buffer
  | c :: rest =>
    if isSlash c then pathState (closed kept buffer) [] rest
    else pathState kept (buffer ++ percentChar pathSet c) rest

/-! ### The parser -/

def questionMark (c : Char) : Bool := c.toNat = 0x3F

def numberSign (c : Char) : Bool := c.toNat = 0x23

/-- Where an authority ends. -/
def pastAuthority (c : Char) : Bool := isSlash c ∨ questionMark c ∨ numberSign c

def pastPath (c : Char) : Bool := questionMark c ∨ numberSign c

/-- Trailing controls and spaces go, and tabs and newlines anywhere. -/
def clean (s : List Char) : List Char :=
  (s.rdropWhile fun c => c.toNat ≤ 0x20).filter fun c =>
    ¬ (c.toNat = 0x09 ∨ c.toNat = 0x0A ∨ c.toNat = 0x0D)

def queryOf : List Char → Option (List Char)
  | [] => none
  | c :: rest =>
    if questionMark c then
      some (percentEncode querySet (rest.takeWhile fun c => !numberSign c))
    else none

def fragmentOf (s : List Char) : Option (List Char) :=
  match s.dropWhile fun c => !numberSign c with
  | [] => none
  | _ :: rest => some (percentEncode fragmentSet rest)

end Url

/-- A special URL without its scheme, its components serialized. -/
structure Url where
  authority : List Char
  path : List (List Char)
  query : Option (List Char)
  fragment : Option (List Char)
  deriving DecidableEq

namespace Url

def parse (authority : List Char → Option (List Char)) (s : List Char) : Option Url :=
  let s := (clean s).dropWhile isSlash
  let rest := s.dropWhile fun c => !pastAuthority c
  (authority (s.takeWhile fun c => !pastAuthority c)).map fun a =>
    { authority := a
      path := pathState [] [] ((rest.takeWhile fun c => !pastPath c).drop 1)
      query := queryOf (rest.dropWhile fun c => !pastPath c)
      fragment := fragmentOf (rest.dropWhile fun c => !pastPath c) }

def pathname (u : Url) : List Char := u.path.flatMap ('/' :: ·)

/-- The query and the fragment, each with its mark. -/
def search (u : Url) : List Char := u.query.elim [] ('?' :: ·)

def hash (u : Url) : List Char := u.fragment.elim [] ('#' :: ·)

def text (u : Url) : List Char := u.authority ++ u.pathname ++ u.search ++ u.hash

/-- What the standard says of the parser of authorities: what it returns it accepts as it is, and
that text is not empty, does not end in a colon, and has no delimiter, control or space. -/
structure AuthorityParser (authority : List Char → Option (List Char)) : Prop where
  again : ∀ s a, authority s = some a → authority a = some a
  ne_nil : ∀ s a, authority s = some a → a ≠ []
  noColon : ∀ s a, authority s = some a → a.getLast? ≠ some ':'
  plain : ∀ s a, authority s = some a → ∀ c ∈ a, pastAuthority c = false ∧ 0x20 < c.toNat

structure Segment (seg : List Char) : Prop where
  chars : ∀ c ∈ seg, pathSet c = false ∧ isSlash c = false
  notSingle : singleDot seg = false
  notDouble : doubleDot seg = false

/-- What the parser returns. -/
structure Canonical (authority : List Char → Option (List Char)) (u : Url) : Prop where
  authority : authority u.authority = some u.authority
  path_ne : u.path ≠ []
  path : ∀ seg ∈ u.path, Segment seg
  query : ∀ q, u.query = some q → ∀ c ∈ q, querySet c = false
  fragment : ∀ f, u.fragment = some f → ∀ c ∈ f, fragmentSet c = false

/-! ### Encoded text -/

theorem hexDigit_plain {n : ℕ} (h : n < 16) :
    pathSet (hexDigit n) = false ∧ isSlash (hexDigit n) = false ∧
      querySet (hexDigit n) = false ∧ fragmentSet (hexDigit n) = false := by
  have hall : ∀ i : Fin 16, pathSet (hexDigit i) = false ∧ isSlash (hexDigit i) = false ∧
      querySet (hexDigit i) = false ∧ fragmentSet (hexDigit i) = false := by decide
  exact hall ⟨n, h⟩

theorem percentByte_forall {p : Char → Prop} (hpercent : p '%')
    (hdigit : ∀ n, n < 16 → p (hexDigit n)) (b : UInt8) : ∀ c ∈ percentByte b, p c := by
  have hb : b.toNat < 256 := UInt8.toNat_lt_size b
  intro c hc
  simp only [percentByte, List.mem_cons, List.not_mem_nil, or_false] at hc
  rcases hc with rfl | rfl | rfl
  · exact hpercent
  · exact hdigit _ (by omega)
  · exact hdigit _ (by omega)

/-- An encoded character is itself, outside the set, or made of the percent sign and digits. -/
theorem percentChar_forall {set : Char → Bool} {p : Char → Prop} {c : Char}
    (hpercent : p '%') (hdigit : ∀ n, n < 16 → p (hexDigit n)) (hc : set c = false → p c) :
    ∀ d ∈ percentChar set c, p d := by
  unfold percentChar
  split
  · intro d hd
    obtain ⟨b, -, hb⟩ := List.mem_flatMap.mp hd
    exact percentByte_forall hpercent hdigit b d hb
  next hset =>
    intro d hd
    rw [List.mem_singleton] at hd
    exact hd ▸ hc (by simpa using hset)

theorem percentEncode_forall {set : Char → Bool} (hpercent : set '%' = false)
    (hdigit : ∀ n, n < 16 → set (hexDigit n) = false) (s : List Char) :
    ∀ c ∈ percentEncode set s, set c = false := by
  intro d hd
  obtain ⟨c, -, hc⟩ := List.mem_flatMap.mp hd
  exact percentChar_forall (p := fun c => set c = false) hpercent hdigit id d hc

theorem percentChar_self {set : Char → Bool} {c : Char} (h : set c = false) :
    percentChar set c = [c] := by
  simp [percentChar, h]

theorem percentEncode_self {set : Char → Bool} {s : List Char} (h : ∀ c ∈ s, set c = false) :
    percentEncode set s = s := by
  induction s with
  | nil => rfl
  | cons c s ih =>
    rw [percentEncode, List.flatMap_cons, percentChar_self (h c (by simp))]
    change [c] ++ percentEncode set s = c :: s
    rw [ih fun d hd => h d (List.mem_cons_of_mem _ hd)]
    rfl

/-! ### Segments -/

theorem segment_nil : Segment [] := ⟨by simp, rfl, rfl⟩

theorem finished_segments {kept : List (List Char)} {buffer : List Char}
    (hkept : ∀ seg ∈ kept, Segment seg)
    (hbuffer : ∀ c ∈ buffer, pathSet c = false ∧ isSlash c = false) :
    ∀ seg ∈ finished kept buffer, Segment seg := by
  unfold finished
  intro seg hseg
  split at hseg
  · rcases List.mem_append.mp hseg with h | h
    · exact hkept seg (List.mem_of_mem_dropLast h)
    · rw [List.mem_singleton.mp h]
      exact segment_nil
  next hdouble =>
    split at hseg
    · rcases List.mem_append.mp hseg with h | h
      · exact hkept seg h
      · rw [List.mem_singleton.mp h]
        exact segment_nil
    next hsingle =>
      rcases List.mem_append.mp hseg with h | h
      · exact hkept seg h
      · rw [List.mem_singleton.mp h]
        exact ⟨hbuffer, by simpa using hsingle, by simpa using hdouble⟩

theorem closed_segments {kept : List (List Char)} {buffer : List Char}
    (hkept : ∀ seg ∈ kept, Segment seg)
    (hbuffer : ∀ c ∈ buffer, pathSet c = false ∧ isSlash c = false) :
    ∀ seg ∈ closed kept buffer, Segment seg := by
  unfold closed
  intro seg hseg
  split at hseg
  · exact hkept seg (List.mem_of_mem_dropLast hseg)
  next hdouble =>
    split at hseg
    · exact hkept seg hseg
    next hsingle =>
      rcases List.mem_append.mp hseg with h | h
      · exact hkept seg h
      · rw [List.mem_singleton.mp h]
        exact ⟨hbuffer, by simpa using hsingle, by simpa using hdouble⟩

theorem pathState_segments (s : List Char) {kept : List (List Char)} {buffer : List Char}
    (hkept : ∀ seg ∈ kept, Segment seg)
    (hbuffer : ∀ c ∈ buffer, pathSet c = false ∧ isSlash c = false) :
    ∀ seg ∈ pathState kept buffer s, Segment seg := by
  induction s generalizing kept buffer with
  | nil => exact finished_segments hkept hbuffer
  | cons c s ih =>
    unfold pathState
    split
    · exact ih (closed_segments hkept hbuffer) (by simp)
    next hslash =>
      apply ih hkept
      intro d hd
      have hencoded : ∀ d ∈ percentChar pathSet c, pathSet d = false ∧ isSlash d = false := by
        apply percentChar_forall
        · decide
        · exact fun n hn => ⟨(hexDigit_plain hn).1, (hexDigit_plain hn).2.1⟩
        · exact fun hset => ⟨hset, by simpa using hslash⟩
      rcases List.mem_append.mp hd with hd | hd
      · exact hbuffer d hd
      · exact hencoded d hd

theorem pathState_ne_nil (s : List Char) (kept : List (List Char)) (buffer : List Char) :
    pathState kept buffer s ≠ [] := by
  induction s generalizing kept buffer with
  | nil =>
    unfold pathState finished
    split
    · simp
    · split <;> simp
  | cons c s ih =>
    unfold pathState
    split
    · exact ih _ _
    · exact ih _ _

/-- The state reads the characters of a segment into the buffer. -/
theorem pathState_chunk {seg : List Char} (h : ∀ c ∈ seg, pathSet c = false ∧ isSlash c = false)
    (kept : List (List Char)) (buffer rest : List Char) :
    pathState kept buffer (seg ++ rest) = pathState kept (buffer ++ seg) rest := by
  induction seg generalizing buffer with
  | nil => simp
  | cons c seg ih =>
    obtain ⟨hset, hslash⟩ := h c (by simp)
    rw [List.cons_append, pathState, hslash, percentChar_self hset]
    simp only [Bool.false_eq_true, if_false]
    rw [ih (fun d hd => h d (List.mem_cons_of_mem _ hd)), List.append_assoc]
    rfl

theorem pathState_path (path : List (List Char)) {seg : List Char} (hseg : Segment seg)
    (hpath : ∀ seg ∈ path, Segment seg) (kept : List (List Char)) :
    pathState kept [] (seg ++ path.flatMap ('/' :: ·)) = kept ++ seg :: path := by
  induction path generalizing seg kept with
  | nil =>
    rw [pathState_chunk hseg.chars]
    simp [pathState, finished, hseg.notSingle, hseg.notDouble]
  | cons next path ih =>
    rw [pathState_chunk hseg.chars, List.flatMap_cons, List.cons_append, pathState,
      if_pos (by decide), List.nil_append]
    simp only [closed, hseg.notSingle, hseg.notDouble, Bool.false_eq_true, if_false]
    rw [ih (hpath next (by simp)) fun s hs => hpath s (List.mem_cons_of_mem _ hs)]
    simp

/-! ### What the parser returns -/

section Parser

variable {authority : List Char → Option (List Char)} {u : Url} {s : List Char}

theorem queryOf_encoded {q : List Char} (h : queryOf s = some q) :
    ∀ c ∈ q, querySet c = false := by
  cases s with
  | nil => cases h
  | cons c rest =>
    by_cases hc : questionMark c = true
    · simp only [queryOf, if_pos hc] at h
      rw [← Option.some.inj h]
      exact percentEncode_forall (by decide) (fun n hn => (hexDigit_plain hn).2.2.1) _
    · simp only [queryOf, if_neg hc] at h
      cases h

theorem fragmentOf_encoded {f : List Char} (h : fragmentOf s = some f) :
    ∀ c ∈ f, fragmentSet c = false := by
  unfold fragmentOf at h
  split at h
  · cases h
  · rw [← Option.some.inj h]
    exact percentEncode_forall (by decide) (fun n hn => (hexDigit_plain hn).2.2.2) _

theorem parse_canonical (hA : AuthorityParser authority) (h : parse authority s = some u) :
    Canonical authority u := by
  obtain ⟨a, ha, rfl⟩ := Option.map_eq_some_iff.mp h
  exact {
    authority := hA.again _ a ha
    path_ne := pathState_ne_nil _ _ _
    path := pathState_segments _ (by simp) (by simp)
    query := fun q hq => queryOf_encoded hq
    fragment := fun f hf => fragmentOf_encoded hf }

end Parser

/-! ### What the parser reads back -/

theorem visible_of_pathSet {c : Char} (h : pathSet c = false) :
    0x20 < c.toNat ∧ pastPath c = false := by
  simp only [pathSet, control, pastPath, questionMark, numberSign, List.mem_cons,
    List.not_mem_nil, or_false, decide_eq_false_iff_not, not_or] at h ⊢
  grind

theorem visible_of_querySet {c : Char} (h : querySet c = false) :
    0x20 < c.toNat ∧ numberSign c = false := by
  simp only [querySet, control, numberSign, List.mem_cons, List.not_mem_nil, or_false,
    decide_eq_false_iff_not, not_or] at h ⊢
  grind

theorem visible_of_fragmentSet {c : Char} (h : fragmentSet c = false) : 0x20 < c.toNat := by
  simp only [fragmentSet, control, List.mem_cons, List.not_mem_nil, or_false,
    decide_eq_false_iff_not, not_or] at h
  grind

theorem clean_self {s : List Char} (h : ∀ c ∈ s, 0x20 < c.toNat) : clean s = s := by
  have hlast : (s.rdropWhile fun c => c.toNat ≤ 0x20) = s := by
    rw [List.rdropWhile_eq_self_iff]
    intro hne
    have hc := h _ (List.getLast_mem hne)
    simpa using hc
  rw [clean, hlast, List.filter_eq_self]
  intro c hc
  have hc' := h c hc
  simp only [decide_eq_true_eq]
  omega

theorem takeWhile_stop {p : Char → Bool} {l r : List Char} (hl : ∀ c ∈ l, p c = true)
    (hr : ∀ c, r.head? = some c → p c = false) :
    (l ++ r).takeWhile p = l ∧ (l ++ r).dropWhile p = r := by
  rw [List.takeWhile_append_of_pos hl, List.dropWhile_append_of_pos hl]
  cases r with
  | nil => simp
  | cons c r =>
    have hc : p c = false := hr c rfl
    simp [hc]

section Text

variable {authority : List Char → Option (List Char)} {u : Url}

theorem mem_pathname {u : Url} {c : Char} (h : c ∈ u.pathname) :
    c = '/' ∨ ∃ seg ∈ u.path, c ∈ seg := by
  obtain ⟨seg, hseg, hc⟩ := List.mem_flatMap.mp h
  rcases List.mem_cons.mp hc with rfl | hc
  · exact .inl rfl
  · exact .inr ⟨seg, hseg, hc⟩

theorem mem_search {u : Url} {c : Char} (h : c ∈ u.search) :
    c = '?' ∨ ∃ q, u.query = some q ∧ c ∈ q := by
  unfold search at h
  cases hq : u.query with
  | none => simp [hq] at h
  | some q => simpa [hq] using h

theorem mem_hash {u : Url} {c : Char} (h : c ∈ u.hash) :
    c = '#' ∨ ∃ f, u.fragment = some f ∧ c ∈ f := by
  unfold hash at h
  cases hf : u.fragment with
  | none => simp [hf] at h
  | some f => simpa [hf] using h

namespace Canonical

theorem pathname_char (h : Canonical authority u) {c : Char} (hc : c ∈ u.pathname) :
    0x20 < c.toNat ∧ pastPath c = false := by
  rcases mem_pathname hc with rfl | ⟨seg, hseg, hc⟩
  · decide
  · exact visible_of_pathSet ((h.path seg hseg).chars c hc).1

theorem search_char (h : Canonical authority u) {c : Char} (hc : c ∈ u.search) :
    0x20 < c.toNat ∧ numberSign c = false := by
  rcases mem_search hc with rfl | ⟨q, hq, hc⟩
  · decide
  · exact visible_of_querySet (h.query q hq c hc)

theorem hash_char (h : Canonical authority u) {c : Char} (hc : c ∈ u.hash) : 0x20 < c.toNat := by
  rcases mem_hash hc with rfl | ⟨f, hf, hc⟩
  · decide
  · exact visible_of_fragmentSet (h.fragment f hf c hc)

theorem clean_text (hA : AuthorityParser authority) (h : Canonical authority u) :
    clean u.text = u.text := by
  apply clean_self
  intro c hc
  simp only [text, List.mem_append] at hc
  rcases hc with ((hc | hc) | hc) | hc
  · exact (hA.plain _ _ h.authority c hc).2
  · exact (h.pathname_char hc).1
  · exact (h.search_char hc).1
  · exact h.hash_char hc

theorem pathname_eq (h : Canonical authority u) :
    ∃ seg path, u.path = seg :: path ∧ u.pathname = '/' :: (seg ++ path.flatMap ('/' :: ·)) := by
  cases hpath : u.path with
  | nil => exact absurd hpath h.path_ne
  | cons seg path => exact ⟨seg, path, rfl, by simp [pathname, hpath]⟩

theorem head_tail {u : Url} {c : Char} (h : (u.search ++ u.hash).head? = some c) :
    pastPath c = true := by
  unfold search hash at h
  cases hq : u.query with
  | some q =>
    obtain rfl : '?' = c := by simpa [hq] using h
    rfl
  | none =>
    cases hf : u.fragment with
    | some f =>
      obtain rfl : '#' = c := by simpa [hq, hf] using h
      rfl
    | none => simp [hq, hf] at h

theorem queryOf_tail (h : Canonical authority u) : queryOf (u.search ++ u.hash) = u.query := by
  cases hq : u.query with
  | some q =>
    have hsearch : u.search = '?' :: q := by simp [search, hq]
    have hstop := (takeWhile_stop (p := fun c => !numberSign c) (l := q) (r := u.hash)
      (fun c hc => by simpa using (visible_of_querySet (h.query q hq c hc)).2)
      (fun c hc => by
        rcases mem_hash (List.mem_of_head? hc) with rfl | ⟨f, hf, -⟩
        · rfl
        · obtain rfl : '#' = c := by simpa [hash, hf] using hc
          rfl)).1
    rw [hsearch, List.cons_append, queryOf, if_pos (by decide), hstop,
      percentEncode_self (h.query q hq)]
  | none =>
    have hsearch : u.search = [] := by simp [search, hq]
    rw [hsearch, List.nil_append]
    cases hf : u.fragment with
    | none => simp [hash, hf, queryOf]
    | some f => simp [hash, hf, queryOf, questionMark]

theorem fragmentOf_tail (h : Canonical authority u) :
    fragmentOf (u.search ++ u.hash) = u.fragment := by
  have hstop := (takeWhile_stop (p := fun c => !numberSign c) (l := u.search) (r := u.hash)
    (fun c hc => by simpa using (h.search_char hc).2)
    (fun c hc => by
      cases hf : u.fragment with
      | none => simp [hash, hf] at hc
      | some f =>
        obtain rfl : '#' = c := by simpa [hash, hf] using hc
        rfl)).2
  rw [fragmentOf, hstop]
  cases hf : u.fragment with
  | none => simp [hash, hf]
  | some f => simp [hash, hf, percentEncode_self (h.fragment f hf)]

/-- What the parser returns it reads back from its text. -/
theorem parse_text (hA : AuthorityParser authority) (h : Canonical authority u) :
    parse authority u.text = some u := by
  obtain ⟨seg, path, hpath, hpathname⟩ := h.pathname_eq
  have hplain := hA.plain _ _ h.authority
  have hslashes : u.text.dropWhile isSlash = u.text := by
    cases ha : u.authority with
    | nil => exact absurd ha (hA.ne_nil _ _ h.authority)
    | cons c a =>
      have hc : pastAuthority c = false := (hplain c (by simp [ha])).1
      have hslash : isSlash c = false := by
        simp only [pastAuthority, decide_eq_false_iff_not, not_or] at hc
        simpa using hc.1
      simp [text, ha, hslash]
  have hauthority := takeWhile_stop (p := fun c => !pastAuthority c) (l := u.authority)
    (r := u.pathname ++ (u.search ++ u.hash)) (fun c hc => by simpa using (hplain c hc).1)
    (fun c hc => by
      obtain rfl : '/' = c := by simpa [hpathname] using hc
      rfl)
  have hrest := takeWhile_stop (p := fun c => !pastPath c) (l := u.pathname)
    (r := u.search ++ u.hash) (fun c hc => by simpa using (h.pathname_char hc).2)
    (fun c hc => by simpa using head_tail hc)
  have htext : u.text = u.authority ++ (u.pathname ++ (u.search ++ u.hash)) := by
    simp [text]
  unfold parse
  dsimp only
  rw [h.clean_text hA, hslashes, htext, hauthority.1, hauthority.2, hrest.1, hrest.2, h.authority,
    h.queryOf_tail, h.fragmentOf_tail, hpathname]
  rw [List.drop_one, List.tail_cons,
    pathState_path path (h.path seg (by simp [hpath])) fun s hs => h.path s (by simp [hpath, hs])]
  simp [← hpath]

end Canonical

/-- An authority alone stands for the root. -/
theorem parse_authority {a : List Char} (hA : AuthorityParser authority)
    (ha : authority a = some a) : parse authority a = some ⟨a, [[]], none, none⟩ := by
  have hplain := hA.plain _ _ ha
  have hclean : clean a = a := clean_self fun c hc => (hplain c hc).2
  have hslashes : a.dropWhile isSlash = a := by
    cases a with
    | nil => rfl
    | cons c a =>
      have hc : pastAuthority c = false := (hplain c (by simp)).1
      have hslash : isSlash c = false := by
        simp only [pastAuthority, decide_eq_false_iff_not, not_or] at hc
        simpa using hc.1
      simp [hslash]
  have hstop := takeWhile_stop (p := fun c => !pastAuthority c) (l := a) (r := [])
    (fun c hc => by simpa using (hplain c hc).1) (by simp)
  rw [List.append_nil] at hstop
  unfold parse
  dsimp only
  rw [hclean, hslashes, hstop.1, hstop.2, ha]
  rfl

end Text

/-! ### Cutting a text before its last slash -/

theorem suffix_of_append {x l r w : List Char} {c : Char} (h : l ++ c :: r = x ++ w)
    (hc : c ∉ w) : ∃ r', r = r' ++ w ∧ x = l ++ c :: r' := by
  rcases List.append_eq_append_iff.mp h with ⟨a, hx, hw⟩ | ⟨a, -, hw⟩
  · cases a with
    | nil => exact absurd (by rw [← List.nil_append w, ← hw]; simp) hc
    | cons d a =>
      obtain ⟨rfl, hr⟩ := List.cons_eq_cons.mp hw
      exact ⟨a, hr, hx⟩
  · exact absurd (by rw [hw]; simp) hc

theorem append_cons_inj {x y l r : List Char} {c : Char} (h : x ++ c :: l = y ++ c :: r)
    (hl : c ∉ l) (hr : c ∉ r) : x = y ∧ l = r := by
  rcases List.append_eq_append_iff.mp h with ⟨a, hy, hw⟩ | ⟨a, hx, hw⟩
  · cases a with
    | nil => exact ⟨by simpa using hy.symm, by simpa using hw⟩
    | cons d a =>
      obtain ⟨-, hl'⟩ := List.cons_eq_cons.mp hw
      exact absurd (by rw [hl']; simp) hl
  · cases a with
    | nil => exact ⟨by simpa using hx, by simpa using hw.symm⟩
    | cons d a =>
      obtain ⟨-, hr'⟩ := List.cons_eq_cons.mp hw
      exact absurd (by rw [hr']; simp) hr

theorem Segment.noSlash {seg : List Char} (h : Segment seg) : '/' ∉ seg := by
  intro hmem
  have hslash := (h.chars '/' hmem).2
  exact absurd hslash (by decide)

/-- Without its end from a slash on, the text of a URL is the text of a URL or its authority. -/
theorem Canonical.cut {authority : List Char → Option (List Char)} {u : Url}
    (h : Canonical authority u) {x tail : List Char} (htext : u.text = x ++ '/' :: tail)
    (hslash : '/' ∉ tail) (hquestion : '?' ∉ tail) (hnumber : '#' ∉ tail) :
    (u.path = [tail] ∧ u.query = none ∧ u.fragment = none) ∨
      ∃ v, Canonical authority v ∧ x = v.text ∧
        (v.path = u.path ∨ v.query = none ∧ v.fragment = none) := by
  cases hf : u.fragment with
  | some f =>
    have hsplit : (u.authority ++ u.pathname ++ u.search) ++ '#' :: f = x ++ '/' :: tail := by
      rw [← htext]
      simp [text, hash, hf]
    obtain ⟨f', rfl, rfl⟩ := suffix_of_append hsplit (by simpa using hnumber)
    right
    refine ⟨{ u with fragment := some f' }, ?_, ?_, .inl rfl⟩
    · exact { h with
        fragment := fun g hg c hc => by
          obtain rfl : f' = g := by simpa using hg
          exact h.fragment _ hf c (List.mem_append_left _ hc) }
    · simp [text, hash, pathname, search]
  | none =>
    cases hq : u.query with
    | some q =>
      have hsplit : (u.authority ++ u.pathname) ++ '?' :: q = x ++ '/' :: tail := by
        rw [← htext]
        simp [text, hash, hf, search, hq]
      obtain ⟨q', rfl, rfl⟩ := suffix_of_append hsplit (by simpa using hquestion)
      right
      refine ⟨{ u with query := some q' }, ?_, ?_, .inl rfl⟩
      · exact { h with
          query := fun g hg c hc => by
            obtain rfl : q' = g := by simpa using hg
            exact h.query _ hq c (List.mem_append_left _ hc) }
      · simp [text, hash, hf, pathname, search]
    | none =>
      obtain ⟨init, last, hpath⟩ : ∃ init last, u.path = init ++ [last] :=
        ⟨_, _, (List.dropLast_append_getLast h.path_ne).symm⟩
      have hsplit : (u.authority ++ init.flatMap ('/' :: ·)) ++ '/' :: last = x ++ '/' :: tail := by
        rw [← htext]
        simp [text, hash, hf, search, hq, pathname, hpath]
      have hlast : Segment last := h.path last (by simp [hpath])
      obtain ⟨rfl, rfl⟩ := append_cons_inj hsplit hlast.noSlash hslash
      by_cases hinit : init = []
      · left
        exact ⟨by rw [hpath, hinit, List.nil_append], rfl, rfl⟩
      · right
        refine ⟨{ u with path := init }, ?_, ?_, .inr ⟨hq, hf⟩⟩
        · exact { h with
            path_ne := hinit
            path := fun seg hseg => h.path seg (by simp [hpath, hseg]) }
        · simp [text, hash, hf, search, hq, pathname]

end Url
end Dap
