import Dap.Lib.Url

/-! The hub url of an adapter and the host that it prints for others to paste
(`hostOf` of `adapters/mcp-bridge/src/client.ts`, `normalizeHost` of its `server.ts`, and the same
functions of `adapters/dsh-plugin/src/index.ts`). Strings are given by their scalar values. -/
namespace Dap.HubUrls

/-! ### Model -/

inductive Scheme where
  | ws | wss
  deriving DecidableEq

def Scheme.text : Scheme → List Char
  | .ws => ['w', 's', ':', '/', '/']
  | .wss => ['w', 's', 's', ':', '/', '/']

/-- `/^wss?:\/\//`, with what follows the match. -/
def matchScheme (t : List Char) : Option (Scheme × List Char) :=
  if Scheme.ws.text <+: t then some (.ws, t.drop 5)
  else if Scheme.wss.text <+: t then some (.wss, t.drop 6)
  else none

/-- `replace(/\/$/, '')`. -/
def trimSlash (t : List Char) : List Char := if t.getLast? = some '/' then t.dropLast else t

/-- The path `/ws`. -/
def hubPath : List (List Char) := [['w', 's']]

/-- Host and path of the shareable line: no scheme, and no `/ws` at the end. -/
def hostOf (url : List Char) : List Char :=
  let t := ((matchScheme url).map Prod.snd).getD url
  if ['/', 'w', 's'] <:+ t then t.take (t.length - 3) else t

variable (authority : Scheme → List Char → Option (List Char))

/-- `new URL(h)` with `ws://` where `h` has no scheme, the path set where `missing` says so, and the
text without its last slash. `none` when `new URL` throws. -/
def normalizeHost (missing : List Char → Bool) (h : List Char) : Option (List Char) :=
  let (s, rest) := (matchScheme h).getD (.ws, h)
  (Url.parse (authority s) rest).map fun u =>
    trimSlash (s.text ++ (if missing u.pathname then { u with path := hubPath } else u).text)

def Bridge.normalizeHost : List Char → Option (List Char) :=
  HubUrls.normalizeHost authority fun pathname => pathname = ['/'] ∨ pathname = []

def Plugin.normalizeHost : List Char → Option (List Char) :=
  HubUrls.normalizeHost authority fun pathname => pathname = ['/']

/-- Pasted into `dap_connect`, the printed host and the url itself both give the url. -/
def LeadsBack (normalize : List Char → Option (List Char)) (url : List Char) : Prop :=
  normalize (hostOf url) = some url ∧ normalize url = some url

/-- A `ws` url that has `/ws` for its path and nothing after it, or whose text ends neither in a
slash nor in `/ws`. -/
def Shareable (url : List Char) : Prop :=
  ∃ rest, url = Scheme.ws.text ++ rest ∧
    ((∃ host, rest = host ++ ['/', 'w', 's'] ∧ ∀ c ∈ host, Url.pastAuthority c = false) ∨
      ¬ ['/'] <:+ rest ∧ ¬ ['/', 'w', 's'] <:+ rest)

/-! ### Texts -/

theorem trimSlash_concat (t : List Char) : trimSlash (t ++ ['/']) = t := by
  simp [trimSlash]

theorem trimSlash_self {t : List Char} (h : ¬ ['/'] <:+ t) : trimSlash t = t := by
  unfold trimSlash
  rw [if_neg]
  intro hlast
  obtain ⟨init, rfl⟩ := List.getLast?_eq_some_iff.mp hlast
  exact h (List.suffix_append _ _)

theorem trimSlash_append {t : List Char} (l : List Char) (h : t ≠ []) :
    trimSlash (l ++ t) = l ++ trimSlash t := by
  unfold trimSlash
  rw [List.getLast?_append_of_ne_nil _ h]
  split
  · rw [List.dropLast_append_of_ne_nil h]
  · rfl

theorem length_trimSlash_le (t : List Char) : (trimSlash t).length ≤ t.length := by
  unfold trimSlash
  split
  · simp
  · exact le_rfl

theorem matchScheme_text (s : Scheme) (t : List Char) :
    matchScheme (s.text ++ t) = some (s, t) := by
  cases s with
  | ws =>
    unfold matchScheme
    rw [if_pos (List.prefix_append _ _)]
    rfl
  | wss =>
    unfold matchScheme
    rw [if_neg (by simp [Scheme.text]), if_pos (List.prefix_append _ _)]
    rfl

theorem hostOf_text (s : Scheme) {t : List Char} (h : ¬ ['/', 'w', 's'] <:+ t) :
    hostOf (s.text ++ t) = t := by
  unfold hostOf
  rw [matchScheme_text]
  exact if_neg h

theorem hostOf_text_ws (s : Scheme) (t : List Char) :
    hostOf (s.text ++ (t ++ ['/', 'w', 's'])) = t := by
  unfold hostOf
  rw [matchScheme_text]
  refine (if_pos (List.suffix_append _ _)).trans ?_
  simp

/-! ### What normalizing gives -/

/-- The url with the hub's path where it had none. -/
def shown (u : Url) : Url := if u.path = [[]] then { u with path := hubPath } else u

theorem pathname_eq_root {u : Url} (h : u.path ≠ []) : u.pathname = ['/'] ↔ u.path = [[]] := by
  constructor
  · intro hroot
    cases hpath : u.path with
    | nil => exact absurd hpath h
    | cons seg path =>
      cases path with
      | nil => simpa [Url.pathname, hpath] using hroot
      | cons next path => simp [Url.pathname, hpath] at hroot
  · intro hpath
    simp [Url.pathname, hpath]

theorem pathname_ne_nil {u : Url} (h : u.path ≠ []) : u.pathname ≠ [] := by
  cases hpath : u.path with
  | nil => exact absurd hpath h
  | cons seg path => simp [Url.pathname, hpath]

theorem text_ne_nil {u : Url} (h : u.path ≠ []) : u.text ≠ [] := by
  have hne := pathname_ne_nil h
  simp [Url.text, hne]

theorem shown_path_ne {u : Url} (h : u.path ≠ []) : (shown u).path ≠ [] := by
  unfold shown
  split
  · exact List.cons_ne_nil _ _
  · exact h

theorem shown_path_ne_root (u : Url) : (shown u).path ≠ [[]] := by
  unfold shown
  split
  · show hubPath ≠ [[]]
    decide
  next h => exact h

theorem length_shown_le (u : Url) : (shown u).text.length ≤ u.text.length + 2 := by
  unfold shown
  split
  next h =>
    simp only [Url.text, Url.pathname, Url.search, Url.hash, h, hubPath, List.length_append,
      List.flatMap_cons, List.flatMap_nil, List.length_cons, List.length_nil]
    omega
  next => omega

section Normalize

variable {authority : Scheme → List Char → Option (List Char)} {missing : List Char → Bool}

/-- The two adapters ask for a missing path in different words. -/
def FindsMissing (missing : List Char → Bool) : Prop :=
  ∀ u : Url, u.path ≠ [] → (missing u.pathname = true ↔ u.path = [[]])

theorem bridge_findsMissing :
    FindsMissing fun pathname => pathname = ['/'] ∨ pathname = [] := by
  intro u hu
  simp [pathname_ne_nil hu, pathname_eq_root hu]

theorem plugin_findsMissing : FindsMissing fun pathname => pathname = ['/'] := by
  intro u hu
  simp [pathname_eq_root hu]

theorem FindsMissing.shown (hm : FindsMissing missing) {u : Url} (h : u.path ≠ []) :
    (if missing u.pathname then { u with path := hubPath } else u) = shown u := by
  unfold HubUrls.shown
  by_cases hroot : u.path = [[]]
  · rw [if_pos ((hm u h).mpr hroot), if_pos hroot]
  · rw [if_neg fun hmissing => hroot ((hm u h).mp hmissing), if_neg hroot]

theorem parse_path_ne {parser : List Char → Option (List Char)} {t : List Char} {u : Url}
    (h : Url.parse parser t = some u) : u.path ≠ [] := by
  obtain ⟨a, -, rfl⟩ := Option.map_eq_some_iff.mp h
  exact Url.pathState_ne_nil _ _ _

theorem normalizeHost_eq (hm : FindsMissing missing) {h rest : List Char} {s : Scheme}
    (hsplit : (matchScheme h).getD (.ws, h) = (s, rest)) :
    normalizeHost authority missing h =
      (Url.parse (authority s) rest).map fun u => s.text ++ trimSlash (shown u).text := by
  have hdef : normalizeHost authority missing h = (Url.parse (authority s) rest).map fun u =>
      trimSlash (s.text ++
        (if missing u.pathname then { u with path := hubPath } else u).text) := by
    simp only [normalizeHost, hsplit]
  rw [hdef]
  apply Option.map_congr
  intro u hu
  have hne := parse_path_ne hu
  rw [hm.shown hne, trimSlash_append _ (text_ne_nil (shown_path_ne hne))]

theorem normalizeHost_matched (hm : FindsMissing missing) {h rest : List Char} {s : Scheme}
    (hmatch : matchScheme h = some (s, rest)) : normalizeHost authority missing h =
      (Url.parse (authority s) rest).map fun u => s.text ++ trimSlash (shown u).text := by
  have hsplit : (matchScheme h).getD (.ws, h) = (s, rest) := by rw [hmatch, Option.getD_some]
  exact normalizeHost_eq hm hsplit

theorem normalizeHost_bare (hm : FindsMissing missing) {h : List Char}
    (hmatch : matchScheme h = none) : normalizeHost authority missing h =
      (Url.parse (authority .ws) h).map fun u => Scheme.ws.text ++ trimSlash (shown u).text := by
  have hsplit : (matchScheme h).getD (.ws, h) = (.ws, h) := by rw [hmatch, Option.getD_none]
  exact normalizeHost_eq hm hsplit

theorem segment_hubPath : ∀ seg ∈ hubPath, Url.Segment seg := by
  intro seg hseg
  rw [hubPath, List.mem_singleton] at hseg
  subst hseg
  refine ⟨?_, by decide, by decide⟩
  simp only [List.forall_mem_cons, List.not_mem_nil, IsEmpty.forall_iff, implies_true, and_true]
  decide

theorem canonical_shown {parser : List Char → Option (List Char)} {u : Url}
    (h : Url.Canonical parser u) : Url.Canonical parser (shown u) := by
  unfold shown
  split
  · exact { h with path_ne := List.cons_ne_nil _ _, path := segment_hubPath }
  · exact h

/-- What `normalizeHost` returns is the text of a url, with the root for its path only where nothing
follows. -/
theorem normalizeHost_range (hA : ∀ s, Url.AuthorityParser (authority s))
    (hm : FindsMissing missing) {h t : List Char}
    (ht : normalizeHost authority missing h = some t) :
    ∃ s v, Url.Canonical (authority s) v ∧ t = s.text ++ v.text ∧
      (v.path = [[]] → v.query = none ∧ v.fragment = none) := by
  obtain ⟨⟨s, rest⟩, hsplit⟩ : ∃ p, (matchScheme h).getD (.ws, h) = p := ⟨_, rfl⟩
  rw [normalizeHost_eq hm hsplit] at ht
  obtain ⟨u, hu, rfl⟩ := Option.map_eq_some_iff.mp ht
  have hshown := canonical_shown (Url.parse_canonical (hA s) hu)
  have hroot := shown_path_ne_root u
  by_cases hslash : ['/'] <:+ (shown u).text
  · obtain ⟨x, hx⟩ := hslash
    have hcut := hshown.cut hx.symm (by simp) (by simp) (by simp)
    rcases hcut with ⟨hpath, -, -⟩ | ⟨v, hv, rfl, hkept⟩
    · exact absurd hpath hroot
    · refine ⟨s, v, hv, ?_, ?_⟩
      · rw [← hx, trimSlash_concat]
      · intro hpath
        rcases hkept with hsame | hnone
        · exact absurd (hsame.symm.trans hpath) hroot
        · exact hnone
  · exact ⟨s, shown u, hshown, by rw [trimSlash_self hslash], fun hpath => absurd hpath hroot⟩

theorem normalize_text (hA : ∀ s, Url.AuthorityParser (authority s)) (hm : FindsMissing missing)
    {s : Scheme} {v : Url} (hv : Url.Canonical (authority s) v) :
    normalizeHost authority missing (s.text ++ v.text) =
      some (s.text ++ trimSlash (shown v).text) := by
  rw [normalizeHost_matched hm (matchScheme_text s v.text), hv.parse_text (hA s)]
  rfl

theorem slash_mem_text {parser : List Char → Option (List Char)} {v : Url}
    (hv : Url.Canonical parser v) : '/' ∈ v.text := by
  obtain ⟨seg, path, -, hpathname⟩ := hv.pathname_eq
  simp [Url.text, hpathname]

theorem plain_of_all {t : List Char} (h : (t.all fun c => !Url.pastAuthority c) = true) :
    ∀ c ∈ t, Url.pastAuthority c = false := by
  simpa using h

/-- The first slash of a url's text ends its authority. -/
theorem authority_of_prefix {parser : List Char → Option (List Char)} {v : Url} {l r : List Char}
    (hA : Url.AuthorityParser parser) (hv : Url.Canonical parser v)
    (h : v.text = l ++ '/' :: r) (hl : ∀ c ∈ l, Url.pastAuthority c = false) :
    v.authority = l := by
  obtain ⟨seg, path, -, hpathname⟩ := hv.pathname_eq
  have htext : v.text = v.authority ++ (v.pathname ++ (v.search ++ v.hash)) := by
    simp [Url.text]
  have hfirst := (Url.takeWhile_stop (p := fun c => !Url.pastAuthority c) (l := v.authority)
    (r := v.pathname ++ (v.search ++ v.hash))
    (fun c hc => by simpa using (hA.plain _ _ hv.authority c hc).1)
    (fun c hc => by
      obtain rfl : '/' = c := by simpa [hpathname] using hc
      rfl)).1
  have hsecond := (Url.takeWhile_stop (p := fun c => !Url.pastAuthority c) (l := l) (r := '/' :: r)
    (fun c hc => by simpa using hl c hc)
    (fun c hc => by
      obtain rfl : '/' = c := by simpa using hc
      rfl)).1
  rw [← hfirst, ← hsecond, ← htext, h]

/-- The text of a url without its scheme does not begin with one. -/
theorem matchScheme_bare {parser : List Char → Option (List Char)} {v : Url} {t : List Char}
    (hA : Url.AuthorityParser parser) (hv : Url.Canonical parser v) (ht : t <+: v.text) :
    matchScheme t = none := by
  obtain ⟨r, hr⟩ := ht
  unfold matchScheme
  rw [if_neg, if_neg]
  · rintro ⟨x, rfl⟩
    have hauthority := authority_of_prefix hA hv (l := ['w', 's', 's', ':'])
      (r := '/' :: (x ++ r)) (by rw [← hr]; simp [Scheme.text]) (plain_of_all (by decide))
    exact hA.noColon _ _ hv.authority (by rw [hauthority]; rfl)
  · rintro ⟨x, rfl⟩
    have hauthority := authority_of_prefix hA hv (l := ['w', 's', ':'])
      (r := '/' :: (x ++ r)) (by rw [← hr]; simp [Scheme.text]) (plain_of_all (by decide))
    exact hA.noColon _ _ hv.authority (by rw [hauthority]; rfl)

theorem normalize_bare (hA : ∀ s, Url.AuthorityParser (authority s)) (hm : FindsMissing missing)
    {v : Url} (hv : Url.Canonical (authority .ws) v) :
    normalizeHost authority missing v.text =
      some (Scheme.ws.text ++ trimSlash (shown v).text) := by
  have hbare := matchScheme_bare (hA .ws) hv List.prefix_rfl
  rw [normalizeHost_bare hm hbare, hv.parse_text (hA .ws)]
  rfl

/-- A host without a scheme is dialled with `ws`. -/
theorem normalize_bare_ws (hm : FindsMissing missing) {h t : List Char}
    (hbare : matchScheme h = none) (ht : normalizeHost authority missing h = some t) :
    ∃ y, t = Scheme.ws.text ++ y := by
  rw [normalizeHost_bare hm hbare] at ht
  obtain ⟨u, -, rfl⟩ := Option.map_eq_some_iff.mp ht
  exact ⟨_, rfl⟩

theorem ws_ne_wss {x y : List Char} : Scheme.ws.text ++ x ≠ Scheme.wss.text ++ y := by
  simp [Scheme.text]

/-- Normalizing again changes a url that ends in a slash, and no other. -/
theorem normalize_text_eq_iff (v : Url)
    (hroot : v.path = [[]] → v.query = none ∧ v.fragment = none) :
    trimSlash (shown v).text = v.text ↔ ¬ ['/'] <:+ v.text := by
  by_cases hpath : v.path = [[]]
  · obtain ⟨hq, hf⟩ := hroot hpath
    have htext : v.text = v.authority ++ ['/'] := by
      simp [Url.text, Url.pathname, Url.search, Url.hash, hpath, hq, hf]
    have hshown : (shown v).text = v.authority ++ ['/', 'w', 's'] := by
      simp [shown, hubPath, Url.text, Url.pathname, Url.search, Url.hash, hpath, hq, hf]
    have hslash : ['/'] <:+ v.text := htext ▸ List.suffix_append _ _
    have htrim : trimSlash (shown v).text = v.authority ++ ['/', 'w', 's'] := by
      rw [hshown, trimSlash_append _ (by simp)]
      rfl
    rw [htrim, htext]
    constructor
    · intro h
      have hlength := congrArg List.length h
      simp at hlength
    · intro h
      exact absurd (List.suffix_append _ _) h
  · have hshown : shown v = v := if_neg hpath
    rw [hshown]
    constructor
    · rintro h ⟨x, hx⟩
      rw [← hx, trimSlash_concat] at h
      have hlength := congrArg List.length h
      simp at hlength
    · exact trimSlash_self

theorem not_slash_of_ws {x : List Char} : ¬ ['/'] <:+ x ++ ['/', 'w', 's'] := by
  rintro ⟨y, hy⟩
  have hlast := congrArg List.getLast? hy
  simp at hlast

/-- The core of both directions, on the parts of the url. -/
theorem leadsBack_ws (hA : ∀ s, Url.AuthorityParser (authority s)) (hm : FindsMissing missing)
    {v : Url} (hv : Url.Canonical (authority .ws) v)
    (hroot : v.path = [[]] → v.query = none ∧ v.fragment = none) :
    LeadsBack (normalizeHost authority missing) (Scheme.ws.text ++ v.text) ↔
      Shareable (Scheme.ws.text ++ v.text) := by
  have hagain : normalizeHost authority missing (Scheme.ws.text ++ v.text) =
      some (Scheme.ws.text ++ v.text) ↔ ¬ ['/'] <:+ v.text := by
    rw [normalize_text hA hm hv, Option.some.injEq, List.append_cancel_left_eq,
      normalize_text_eq_iff v hroot]
  have hshare : Shareable (Scheme.ws.text ++ v.text) ↔
      (∃ host, v.text = host ++ ['/', 'w', 's'] ∧ ∀ c ∈ host, Url.pastAuthority c = false) ∨
        ¬ ['/'] <:+ v.text ∧ ¬ ['/', 'w', 's'] <:+ v.text := by
    constructor
    · rintro ⟨rest, hrest, h⟩
      obtain rfl : v.text = rest := by simpa using hrest
      exact h
    · exact fun h => ⟨v.text, rfl, h⟩
  rw [LeadsBack, hagain, hshare]
  by_cases hws : ['/', 'w', 's'] <:+ v.text
  · obtain ⟨x, hx⟩ := hws
    have hslash : ¬ ['/'] <:+ v.text := hx ▸ not_slash_of_ws
    have hhost : hostOf (Scheme.ws.text ++ v.text) = x := by rw [← hx, hostOf_text_ws]
    rw [hhost]
    rcases hv.cut hx.symm (by decide) (by decide) (by decide) with
      ⟨hpath, hq, hf⟩ | ⟨v', hv', rfl, -⟩
    · have htext : v.text = v.authority ++ ['/', 'w', 's'] := by
        simp [Url.text, Url.pathname, Url.search, Url.hash, hpath, hq, hf]
      obtain rfl : x = v.authority := List.append_cancel_right (hx.trans htext)
      have hplain := (hA .ws).plain _ _ hv.authority
      have hbare : matchScheme v.authority = none :=
        matchScheme_bare (hA .ws) hv (htext ▸ List.prefix_append _ _)
      have hback : normalizeHost authority missing v.authority =
          some (Scheme.ws.text ++ v.text) := by
        rw [normalizeHost_bare hm hbare, Url.parse_authority (hA .ws) hv.authority, htext,
          Option.map_some, Option.some.injEq, List.append_cancel_left_eq]
        have hshown : (shown ⟨v.authority, [[]], none, none⟩).text =
            v.authority ++ ['/', 'w', 's'] := by
          simp [shown, hubPath, Url.text, Url.pathname, Url.search, Url.hash]
        rw [hshown, trimSlash_self not_slash_of_ws]
      constructor
      · exact fun _ => .inl ⟨v.authority, htext, fun c hc => (hplain c hc).1⟩
      · exact fun _ => ⟨hback, hslash⟩
    · have hlost : normalizeHost authority missing v'.text ≠ some (Scheme.ws.text ++ v.text) := by
        rw [normalize_bare hA hm hv', ne_eq, Option.some.injEq, List.append_cancel_left_eq, ← hx]
        intro h
        have htrim := length_trimSlash_le (shown v').text
        have hle := length_shown_le v'
        rw [h, List.length_append] at htrim
        simp only [List.length_cons, List.length_nil] at htrim
        omega
      constructor
      · exact fun h => absurd h.1 hlost
      · rintro (⟨host, hhost, hplain⟩ | ⟨-, hnot⟩)
        · obtain rfl : v'.text = host := List.append_cancel_right (hx.trans hhost)
          exact absurd (hplain '/' (slash_mem_text hv')) (by decide)
        · exact absurd ⟨_, hx⟩ hnot
  · have hback : normalizeHost authority missing (hostOf (Scheme.ws.text ++ v.text)) =
        some (Scheme.ws.text ++ v.text) ↔ ¬ ['/'] <:+ v.text := by
      rw [hostOf_text _ hws, normalize_bare hA hm hv, Option.some.injEq, List.append_cancel_left_eq,
        normalize_text_eq_iff v hroot]
    rw [hback]
    constructor
    · exact fun h => .inr ⟨h.1, hws⟩
    · rintro (⟨host, hhost, -⟩ | ⟨h, -⟩)
      · exact absurd (hhost ▸ List.suffix_append _ _) hws
      · exact ⟨h, h⟩

theorem not_leadsBack_wss (hA : ∀ s, Url.AuthorityParser (authority s)) (hm : FindsMissing missing)
    {v : Url} (hv : Url.Canonical (authority .wss) v) :
    ¬ LeadsBack (normalizeHost authority missing) (Scheme.wss.text ++ v.text) := by
  rintro ⟨hback, -⟩
  have hprefix : hostOf (Scheme.wss.text ++ v.text) <+: v.text := by
    by_cases hws : ['/', 'w', 's'] <:+ v.text
    · obtain ⟨x, hx⟩ := hws
      rw [← hx, hostOf_text_ws]
      exact List.prefix_append _ _
    · rw [hostOf_text _ hws]
  have hbare := matchScheme_bare (hA .wss) hv hprefix
  obtain ⟨y, hy⟩ := normalize_bare_ws hm hbare hback
  exact ws_ne_wss hy.symm

/-- A url that `normalizeHost` gives survives the way through the printed host, and another
normalizing, exactly when it is a `ws` url with the path `/ws`, or with neither a slash nor `/ws` at
its end. -/
theorem normalizeHost_leadsBack_iff (hA : ∀ s, Url.AuthorityParser (authority s))
    (hm : FindsMissing missing) {h url : List Char}
    (hurl : normalizeHost authority missing h = some url) :
    LeadsBack (normalizeHost authority missing) url ↔ Shareable url := by
  obtain ⟨s, v, hv, rfl, hroot⟩ := normalizeHost_range hA hm hurl
  cases s with
  | ws => exact leadsBack_ws hA hm hv hroot
  | wss =>
    constructor
    · exact fun hback => absurd hback (not_leadsBack_wss hA hm hv)
    · rintro ⟨rest, hrest, -⟩
      exact absurd hrest.symm ws_ne_wss

end Normalize

/-- In both adapters a url that `normalizeHost` gives survives the way through the printed host, and
another normalizing, exactly when it is a `ws` url with the path `/ws` and nothing after it, or with
neither a slash nor `/ws` at its end. -/
theorem leadsBack_iff {authority : Scheme → List Char → Option (List Char)}
    (hA : ∀ s, Url.AuthorityParser (authority s)) (url : List Char) :
    ((∃ h, Bridge.normalizeHost authority h = some url) →
      (LeadsBack (Bridge.normalizeHost authority) url ↔ Shareable url)) ∧
    ((∃ h, Plugin.normalizeHost authority h = some url) →
      (LeadsBack (Plugin.normalizeHost authority) url ↔ Shareable url)) := by
  constructor
  · rintro ⟨h, hurl⟩
    exact normalizeHost_leadsBack_iff hA bridge_findsMissing hurl
  · rintro ⟨h, hurl⟩
    exact normalizeHost_leadsBack_iff hA plugin_findsMissing hurl

/-- Authorities of lower-case letters only. -/
def plainAuthority (_ : Scheme) (t : List Char) : Option (List Char) :=
  if t ≠ [] ∧ t.all fun c => 97 ≤ c.toNat ∧ c.toNat ≤ 122 then some t else none

theorem plainAuthority_lawful (s : Scheme) : Url.AuthorityParser (plainAuthority s) := by
  have hcases : ∀ t a, plainAuthority s t = some a →
      t = a ∧ a ≠ [] ∧ ∀ c ∈ a, 97 ≤ c.toNat ∧ c.toNat ≤ 122 := by
    intro t a h
    unfold plainAuthority at h
    split at h
    next hplain =>
      obtain rfl : t = a := by simpa using h
      exact ⟨rfl, hplain.1, by simpa using hplain.2⟩
    next => cases h
  refine ⟨?_, ?_, ?_, ?_⟩
  · intro t a h
    obtain ⟨rfl, -, -⟩ := hcases t a h
    exact h
  · exact fun t a h => (hcases t a h).2.1
  · intro t a h hlast
    have hc := (hcases t a h).2.2 ':' (List.mem_of_getLast? hlast)
    exact absurd hc (by decide)
  · intro t a h c hc
    have hplain := (hcases t a h).2.2 c hc
    refine ⟨?_, by omega⟩
    simp only [Url.pastAuthority, Url.isSlash, Url.questionMark, Url.numberSign,
      decide_eq_false_iff_not, decide_eq_true_eq]
    omega

theorem leadsBack_hub : LeadsBack (Bridge.normalizeHost plainAuthority) "ws://hub/ws".toList :=
  ((leadsBack_iff plainAuthority_lawful "ws://hub/ws".toList).1
    ⟨"hub".toList, by decide +kernel⟩).mpr
    ⟨"hub/ws".toList, by decide +kernel, .inl ⟨"hub".toList, by decide +kernel,
      plain_of_all (by decide +kernel)⟩⟩

/-- The printed host of a `wss` url is dialled with `ws`. -/
theorem not_leadsBack_secure : ¬ ∀ (authority : Scheme → List Char → Option (List Char)),
    (∀ s, Url.AuthorityParser (authority s)) → ∀ h url,
      Bridge.normalizeHost authority h = some url →
        LeadsBack (Bridge.normalizeHost authority) url := by
  intro hall
  have hback := hall plainAuthority plainAuthority_lawful "wss://hub".toList "wss://hub/ws".toList
    (by decide +kernel)
  exact absurd hback.1 (by decide +kernel)

end Dap.HubUrls
