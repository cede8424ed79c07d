import Dap.Lib.JsString

/-! Node's POSIX `path.join` and `path.normalize` on JavaScript strings. -/
namespace Dap.PosixPath

def slash : UInt16 := 47

def dot : UInt16 := 46

/-- One segment of `normalizeString`, with the segments kept so far, the last one first. -/
def walk (absolute : Bool) (kept : List JsString) (segment : JsString) : List JsString :=
  if segment = [] ∨ segment = [dot] then kept
  else if segment = [dot, dot] then
    match kept with
    | [] => if absolute then [] else [segment]
    | last :: rest => if last = [dot, dot] then segment :: kept else rest
  else segment :: kept

def normalizeString (absolute : Bool) (path : JsString) : JsString :=
  [slash].intercalate ((path.splitOn slash).foldl (walk absolute) []).reverse

def normalize (path : JsString) : JsString :=
  if path = [] then [dot]
  else
    let absolute : Bool := path.head? = some slash
    let trailing : Bool := path.getLast? = some slash
    let body := normalizeString absolute path
    if body = [] then
      if absolute then [slash] else if trailing then [dot, slash] else [dot]
    else
      (if absolute then [slash] else []) ++ body ++ if trailing then [slash] else []

def join (args : List JsString) : JsString :=
  let parts := args.filter (· ≠ [])
  if parts = [] then [dot] else normalize ([slash].intercalate parts)

example : join [.ofString "/home//u/./x/..", .ofString ".dap", .ofString "k.key"] =
    .ofString "/home/u/.dap/k.key" := by decide +kernel

/-- A name that `normalize` keeps as it is. -/
structure FileName (file : JsString) : Prop where
  ne_nil : file ≠ []
  ne_dot : file ≠ [dot]
  ne_dots : file ≠ [dot, dot]
  noSlash : slash ∉ file

namespace FileName

variable {file : JsString}

theorem walk (h : FileName file) (absolute : Bool) (kept : List JsString) :
    walk absolute kept file = file :: kept := by
  unfold PosixPath.walk
  rw [if_neg (not_or.mpr ⟨h.ne_nil, h.ne_dot⟩), if_neg h.ne_dots]

theorem getLast_append (h : FileName file) (dir : JsString) :
    (dir ++ file).getLast? ≠ some slash := by
  intro hlast
  have hmem : slash ∈ file := by
    rw [List.getLast?_append_of_ne_nil _ h.ne_nil] at hlast
    exact List.mem_of_getLast? hlast
  exact h.noSlash hmem

theorem head_ne (h : FileName file) : file.head? ≠ some slash := by
  intro hhead
  exact h.noSlash (List.mem_of_head? hhead)

end FileName

theorem intercalate_concat (sep : JsString) (dirs : List JsString) :
    ∃ front, ∀ file, sep.intercalate (dirs ++ [file]) = front ++ file := by
  induction dirs with
  | nil => exact ⟨[], fun file => List.intercalate_singleton⟩
  | cons dir dirs ih =>
    obtain ⟨front, hfront⟩ := ih
    refine ⟨dir ++ sep ++ front, fun file => ?_⟩
    rw [List.cons_append, List.intercalate_cons_of_ne_nil (by simp), hfront]
    simp only [List.append_assoc]

theorem intercalate_concat_of_ne_nil (sep file : JsString) {dirs : List JsString} (h : dirs ≠ []) :
    sep.intercalate (dirs ++ [file]) = sep.intercalate dirs ++ sep ++ file := by
  induction dirs with
  | nil => exact absurd rfl h
  | cons dir dirs ih =>
    rw [List.cons_append, List.intercalate_cons_of_ne_nil (by simp)]
    by_cases hdirs : dirs = []
    · subst hdirs
      rw [List.nil_append, List.intercalate_singleton, List.intercalate_singleton]
    · rw [ih hdirs, List.intercalate_cons_of_ne_nil hdirs]
      simp only [List.append_assoc]

theorem normalizeString_append (absolute : Bool) (dir : JsString) :
    ∃ front, ∀ file, FileName file →
      normalizeString absolute (dir ++ slash :: file) = front ++ file := by
  obtain ⟨front, hfront⟩ := intercalate_concat [slash]
    ((dir.splitOn slash).foldl (walk absolute) []).reverse
  refine ⟨front, fun file h => ?_⟩
  unfold normalizeString
  rw [List.splitOn_append_cons_self, List.splitOn_eq_singleton h.noSlash, List.foldl_append,
    List.foldl_cons, List.foldl_nil, h.walk, List.reverse_cons, hfront]

theorem normalize_append (dir : JsString) :
    ∃ front, ∀ file, FileName file → normalize (dir ++ slash :: file) = front ++ file := by
  obtain ⟨body, hbody⟩ := normalizeString_append ((dir ++ [slash]).head? = some slash) dir
  refine ⟨(if (dir ++ [slash]).head? = some slash then [slash] else []) ++ body, fun file h => ?_⟩
  have hhead : (dir ++ slash :: file).head? = (dir ++ [slash]).head? := by
    cases dir <;> rfl
  have hlast : (dir ++ slash :: file).getLast? ≠ some slash := by
    have happend := h.getLast_append (dir ++ [slash])
    rwa [List.append_assoc] at happend
  have hne : body ++ file ≠ [] := List.append_ne_nil_of_right_ne_nil _ h.ne_nil
  unfold normalize
  rw [if_neg (by simp)]
  dsimp only
  rw [hhead, hbody file h, if_neg hne]
  simp only [decide_eq_true_eq, if_neg hlast, List.append_nil, List.append_assoc]

theorem normalize_fileName {file : JsString} (h : FileName file) : normalize file = file := by
  have hlast : file.getLast? ≠ some slash := by simpa using h.getLast_append []
  have hbody (absolute : Bool) : normalizeString absolute file = file := by
    unfold normalizeString
    rw [List.splitOn_eq_singleton h.noSlash, List.foldl_cons, List.foldl_nil, h.walk]
    exact List.intercalate_singleton
  unfold normalize
  rw [if_neg h.ne_nil]
  dsimp only
  rw [hbody, if_neg h.ne_nil]
  simp [h.head_ne, hlast]

/-- What stands before the name of a file depends on its directory alone. -/
theorem join_concat (dirs : List JsString) :
    ∃ front, ∀ file, FileName file → join (dirs ++ [file]) = front ++ file := by
  have hparts (file : JsString) (h : FileName file) :
      (dirs ++ [file]).filter (· ≠ []) = dirs.filter (· ≠ []) ++ [file] := by
    rw [List.filter_append, List.filter_singleton]
    simp [h.ne_nil]
  by_cases hdirs : dirs.filter (· ≠ []) = []
  · refine ⟨[], fun file h => ?_⟩
    unfold join
    rw [hparts file h, hdirs]
    simpa [List.intercalate_singleton] using normalize_fileName h
  · obtain ⟨front, hfront⟩ := normalize_append ([slash].intercalate (dirs.filter (· ≠ [])))
    refine ⟨front, fun file h => ?_⟩
    unfold join
    dsimp only
    rw [hparts file h, if_neg (by simp), intercalate_concat_of_ne_nil _ _ hdirs, List.append_assoc]
    exact hfront file h

/-- Two names in one directory are two files. -/
theorem join_inj {dirs : List JsString} {file file' : JsString} (h : FileName file)
    (h' : FileName file') : join (dirs ++ [file]) = join (dirs ++ [file']) ↔ file = file' := by
  obtain ⟨front, hfront⟩ := join_concat dirs
  rw [hfront file h, hfront file' h', List.append_cancel_left_eq]

end Dap.PosixPath
