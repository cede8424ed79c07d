import Mathlib.Data.List.DropRight
import Mathlib.Tactic

/-! A ring buffer that overwrites its oldest entry once it is full, and the sliding window of the
last `cap` entries that it holds. -/
namespace Dap

/-- The entries in memory order, and the index of the oldest. -/
structure Ring (α : Type) (cap : ℕ) where
  items : List α
  next : ℕ
  length_le : items.length ≤ cap
  next_lt : next < cap
  filling : items.length < cap → next = 0

namespace Ring

variable {α : Type} {cap : ℕ}

def empty (h : 0 < cap) : Ring α cap := ⟨[], 0, Nat.zero_le _, h, fun _ => rfl⟩

def push (r : Ring α cap) (x : α) : Ring α cap :=
  if h : r.items.length < cap then
    ⟨r.items ++ [x], r.next, by rw [List.length_append]; exact h, r.next_lt,
      fun _ => r.filling h⟩
  else
    ⟨r.items.set r.next x, (r.next + 1) % cap, by rw [List.length_set]; exact r.length_le,
      Nat.mod_lt _ (Nat.zero_lt_of_lt r.next_lt), fun h' => absurd (by simpa using h') h⟩

/-- The entries from the oldest to the newest. -/
def window (r : Ring α cap) : List α := r.items.rotate r.next

theorem mem_window (r : Ring α cap) (x : α) : x ∈ r.window ↔ x ∈ r.items := List.mem_rotate

theorem rotate_set (l : List α) (x : α) {i : ℕ} (h : i < l.length) :
    (l.set i x).rotate (i + 1) = (l.rotate i).tail ++ [x] := by
  have hset : (l.set i x).length = l.length := List.length_set ..
  have htake : (l.set i x).take (i + 1) = l.take i ++ [x] := by
    rw [List.take_add_one, List.take_set_of_le (le_refl i), List.getElem?_set_self h]
    rfl
  have htail : (l.drop i).tail = l.drop (i + 1) := List.tail_drop
  have hne : l.drop i ≠ [] := by
    intro hnil
    have hlen := congrArg List.length hnil
    rw [List.length_drop, List.length_nil] at hlen
    omega
  rw [List.rotate_eq_drop_append_take (by omega), List.rotate_eq_drop_append_take (by omega),
    List.drop_set_of_lt (by omega), htake, List.tail_append_of_ne_nil hne, htail,
    List.append_assoc]

/-- A push slides the window. -/
theorem window_push (r : Ring α cap) (x : α) :
    (r.push x).window = (r.window ++ [x]).rtake cap := by
  unfold push
  split
  next h =>
    have hlen : (r.items ++ [x]).length - cap = 0 := by
      rw [List.length_append, List.length_singleton]
      omega
    simp only [window, r.filling h, List.rotate_zero, List.rtake, hlen, List.drop_zero]
  next h =>
    have hfull : r.items.length = cap := le_antisymm r.length_le (not_lt.mp h)
    have hset : (r.items.set r.next x).length = cap := (List.length_set ..).trans hfull
    have hrot : (r.items.rotate r.next).length = cap := (List.length_rotate ..).trans hfull
    have hnext : r.next < r.items.length := hfull.symm ▸ r.next_lt
    have hmod := List.rotate_mod (r.items.set r.next x) (r.next + 1)
    rw [hset] at hmod
    simp only [window, hmod]
    rw [rotate_set r.items x hnext, List.rtake, List.length_append,
      List.length_singleton, hrot, Nat.add_sub_cancel_left, List.drop_append_of_le_length]
    · rw [List.drop_one]
    · omega

theorem rtake_append_rtake (l : List α) (x : α) (cap : ℕ) :
    (l.rtake cap ++ [x]).rtake cap = (l ++ [x]).rtake cap := by
  cases cap with
  | zero => simp
  | succ n =>
    rw [List.rtake_concat_succ, List.rtake_concat_succ]
    congr 1
    simp only [List.rtake_eq_reverse_take_reverse, List.reverse_reverse, List.take_take]
    congr 2
    omega

theorem mem_rtake_of_append {x : α} {l l' : List α} {n : ℕ} (h : l'.length < n) :
    x ∈ (l ++ x :: l').rtake n := by
  have hle : (l ++ x :: l').length - n ≤ l.length := by
    rw [List.length_append, List.length_cons]
    omega
  rw [List.rtake, List.drop_append_of_le_length hle]
  simp

/-- After any number of pushes the window is the end of everything pushed. -/
theorem window_foldl_push (r : Ring α cap) {past : List α} (hr : r.window = past.rtake cap)
    (xs : List α) : (xs.foldl push r).window = (past ++ xs).rtake cap := by
  induction xs generalizing r past with
  | nil => simpa using hr
  | cons x xs ih =>
    have hx : (r.push x).window = (past ++ [x]).rtake cap := by
      rw [window_push, hr, rtake_append_rtake]
    have hxs := ih (r.push x) hx
    rwa [List.append_assoc, List.singleton_append] at hxs

end Ring

end Dap
