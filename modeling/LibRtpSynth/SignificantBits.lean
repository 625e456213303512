/-
Numbers rounded to their leading bits.

`lead k m` are the leading `k + 1` bits of `m`, and `shift k m` is how many bits
come behind them.  The numbers with the same leading bits behind the same number
of places are a cell, an interval of `2 ^ shift k m` numbers, and `mid k m` is
the middle of the cell of `m`.

* `mid_le_add`, `le_mid_add` — the middle is at most half a cell away;
* `mid_mono` — it is non-decreasing;
* `mirror` — a function on magnitudes as an odd function on the integers, which
  keeps both (`mirror_mono`, `mirror_near`).
-/
import Mathlib.Algebra.Order.Group.Abs
import Mathlib.Algebra.Order.Group.Int
import Mathlib.Data.Nat.Bitwise
import Mathlib.Data.Nat.Log
import Mathlib.Tactic.Ring

namespace SignificantBits

variable {k m n : ℕ}

/-- The number of bits behind the leading `k + 1` ones. -/
def shift (k m : ℕ) : ℕ := Nat.log2 m - k

/-- The leading `k + 1` bits. -/
def lead (k m : ℕ) : ℕ := m / 2 ^ shift k m

/-- The middle of the numbers with these leading bits. -/
def mid (k m : ℕ) : ℕ := lead k m * 2 ^ shift k m + 2 ^ shift k m / 2

theorem ne_zero_of_two_pow_le (h : 2 ^ k ≤ m) : m ≠ 0 := by
  have := Nat.two_pow_pos k
  omega

theorem le_log2 (h : 2 ^ k ≤ m) : k ≤ Nat.log2 m := (Nat.le_log2 (ne_zero_of_two_pow_le h)).mpr h

theorem two_pow_le_lead (h : 2 ^ k ≤ m) : 2 ^ k ≤ lead k m := by
  rw [lead, Nat.le_div_iff_mul_le (Nat.two_pow_pos _), ← Nat.pow_add, shift,
    Nat.add_sub_cancel' (le_log2 h)]
  exact Nat.log2_self_le (ne_zero_of_two_pow_le h)

theorem lead_lt (h : 2 ^ k ≤ m) : lead k m < 2 ^ (k + 1) := by
  have hexp : k + 1 + (Nat.log2 m - k) = Nat.log2 m + 1 := by
    have := le_log2 h
    omega
  rw [lead, Nat.div_lt_iff_lt_mul (Nat.two_pow_pos _), ← Nat.pow_add, shift, hexp]
  exact Nat.lt_log2_self

theorem lead_mul_le (k m : ℕ) : lead k m * 2 ^ shift k m ≤ m := Nat.div_mul_le_self m _

theorem lt_lead_mul_add (k m : ℕ) : m < lead k m * 2 ^ shift k m + 2 ^ shift k m := by
  have hdiv := Nat.div_add_mod' m (2 ^ shift k m)
  have hmod := Nat.mod_lt m (Nat.two_pow_pos (shift k m))
  rw [lead]
  omega

theorem mid_le_add (k m : ℕ) : mid k m ≤ m + 2 ^ shift k m / 2 :=
  Nat.add_le_add_right (lead_mul_le k m) _

theorem le_mid_add (k m : ℕ) : m ≤ mid k m + 2 ^ shift k m / 2 := by
  have hlt := lt_lead_mul_add k m
  have hpos := Nat.two_pow_pos (shift k m)
  rw [mid]
  obtain hzero | ⟨s, hs⟩ : shift k m = 0 ∨ ∃ s, shift k m = s + 1 := by
    cases shift k m with
    | zero => exact .inl rfl
    | succ s => exact .inr ⟨s, rfl⟩
  · rw [hzero] at hlt ⊢
    omega
  · rw [hs, Nat.pow_succ] at hlt ⊢
    omega

/-- A larger number has its leading bits in front of no fewer places. -/
theorem shift_mono (hm : m ≠ 0) (h : m ≤ n) : shift k m ≤ shift k n := by
  have hn : n ≠ 0 := by omega
  exact Nat.sub_le_sub_right ((Nat.le_log2 hn).mpr ((Nat.log2_self_le hm).trans h)) k

/-- The middle is non-decreasing: the leading bits are, in front of as many
places, and the cells with more places begin where those with fewer end. -/
theorem mid_mono (hm : 2 ^ k ≤ m) (h : m ≤ n) : mid k m ≤ mid k n := by
  rcases (shift_mono (k := k) (ne_zero_of_two_pow_le hm) h).eq_or_lt with heq | hlt
  · rw [mid, mid, lead, lead, heq]
    exact Nat.add_le_add_right (Nat.mul_le_mul_right _ (Nat.div_le_div_right h)) _
  · calc mid k m ≤ lead k m * 2 ^ shift k m + 2 ^ shift k m :=
        Nat.add_le_add_left (Nat.div_le_self _ _) _
      _ = (lead k m + 1) * 2 ^ shift k m := by ring
      _ ≤ 2 ^ (k + 1) * 2 ^ shift k m := Nat.mul_le_mul_right _ (lead_lt hm)
      _ = 2 ^ k * 2 ^ (shift k m + 1) := by ring
      _ ≤ lead k n * 2 ^ shift k n :=
        Nat.mul_le_mul (two_pow_le_lead (hm.trans h)) (Nat.pow_le_pow_right (by omega) hlt)
      _ ≤ mid k n := Nat.le_add_right _ _

/-- The test for the leading bit. -/
theorem and_two_pow_eq_zero_iff {i : ℕ} (h : m < 2 ^ (i + 1)) : m &&& 2 ^ i = 0 ↔ m < 2 ^ i := by
  rw [Nat.and_two_pow]
  constructor
  · intro hzero
    by_contra hle
    have hpos := Nat.two_pow_pos i
    rw [Nat.testBit_of_two_pow_le_and_two_pow_add_one_gt (not_lt.mp hle) h, Bool.toNat_true,
      one_mul] at hzero
    omega
  · intro hlt
    rw [Nat.testBit_lt_two_pow hlt, Bool.toNat_false, zero_mul]

/-! ### Signs -/

/-- A function on magnitudes, as an odd function. -/
def mirror (f : ℕ → ℕ) (z : ℤ) : ℤ := if z < 0 then -f z.natAbs else f z.natAbs

variable {f : ℕ → ℕ} {y z : ℤ}

theorem mirror_mono (hf : ∀ m n, m ≤ n → f m ≤ f n) (h : y ≤ z) : mirror f y ≤ mirror f z := by
  rw [mirror, mirror]
  split <;> split
  · have := hf z.natAbs y.natAbs (by omega)
    omega
  · omega
  · omega
  · have := hf y.natAbs z.natAbs (by omega)
    omega

theorem mirror_near {d : ℕ} (h1 : f z.natAbs ≤ z.natAbs + d) (h2 : z.natAbs ≤ f z.natAbs + d) :
    |mirror f z - z| ≤ d := by
  rw [mirror, abs_le]
  split <;> omega

end SignificantBits
