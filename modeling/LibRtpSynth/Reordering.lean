/-
Bounded reordering of consecutive numbers.

A list of numbers is `Bounded b` when every number comes after at most `b`
larger ones and before at most `b` smaller ones.  For a reordering of
consecutive numbers this bounds what a prefix can look like:

* `Bounded.countP_missing` — at most `b` numbers of a prefix are larger than a
  number that is still to come;
* `Bounded.near` — the next number is near the largest one so far.
-/
import Mathlib.Data.Finset.Card
import Mathlib.Data.List.Perm.Basic
import Mathlib.Order.Interval.Finset.Nat

open scoped List

namespace Reordering

variable {a b n m x y : ℕ} {xs p q : List ℕ}

/-- Every number comes after at most `b` larger and before at most `b` smaller
ones. -/
structure Bounded (b : ℕ) (xs : List ℕ) : Prop where
  earlier : ∀ i, ∀ h : i < xs.length, (xs.take i).countP (xs[i] < ·) ≤ b
  later : ∀ i, ∀ h : i < xs.length, (xs.drop (i + 1)).countP (· < xs[i]) ≤ b

theorem Bounded.earlier_of_append (h : Bounded b (p ++ x :: q)) : p.countP (x < ·) ≤ b := by
  have hx := h.earlier p.length (by simp)
  simpa using hx

theorem Bounded.later_of_append (h : Bounded b (p ++ x :: q)) : q.countP (· < x) ≤ b := by
  have hx := h.later p.length (by simp)
  have hdrop : (p ++ x :: q).drop (p.length + 1) = q := by
    rw [List.append_cons, List.drop_left' (by simp)]
  simpa [hdrop] using hx

/-- At most `b` numbers so far are larger than one that is still to come. -/
theorem Bounded.countP_missing (h : Bounded b (p ++ q)) (hy : y ∈ q) : p.countP (y < ·) ≤ b := by
  obtain ⟨q₁, q₂, rfl⟩ := List.append_of_mem hy
  rw [← List.append_assoc] at h
  have hy := h.earlier_of_append
  rw [List.countP_append] at hy
  omega

/-- Numbers with the property `P` that are all in a list are at most as many as
the list has such numbers. -/
theorem card_le_countP (s : Finset ℕ) (l : List ℕ) (P : ℕ → Bool) (h : ∀ y ∈ s, y ∈ l ∧ P y) :
    s.card ≤ l.countP P := by
  have hsub : s ⊆ (l.filter P).toFinset := by
    intro y hy
    simpa using h y hy
  rw [List.countP_eq_length_filter]
  exact (Finset.card_le_card hsub).trans (List.toFinset_card_le _)

/-- **The next number is near the largest one so far.** -/
theorem Bounded.near (h : Bounded b (p ++ x :: q)) (hperm : p ++ x :: q ~ List.range' a n)
    (hm : m ∈ p) (hmax : ∀ y ∈ p, y ≤ m) : x ≤ m + b + 1 ∧ m ≤ x + 2 * b := by
  have hmem : ∀ y, y ∈ p ++ x :: q ↔ a ≤ y ∧ y < a + n := by
    intro y
    rw [hperm.mem_iff, List.mem_range'_1]
  have hma := (hmem m).mp (List.mem_append_left _ hm)
  have hxa := (hmem x).mp (by simp)
  have hnodup : (p ++ x :: q).Nodup := hperm.nodup_iff.mpr List.nodup_range'
  constructor
  · -- the numbers between `m` and `x` are still to come
    have hcard : (Finset.Ioo m x).card ≤ q.countP (· < x) := by
      refine card_le_countP _ _ _ fun y hy => ?_
      rw [Finset.mem_Ioo] at hy
      refine ⟨?_, by simpa using hy.2⟩
      rcases List.mem_append.mp ((hmem y).mpr ⟨by omega, by omega⟩) with hp | hq
      · have := hmax y hp
        omega
      · exact (List.mem_cons.mp hq).resolve_left (by omega)
    have hlater := h.later_of_append
    rw [Nat.card_Ioo] at hcard
    omega
  · -- the numbers from `x` up to `m` came before `x`, or come after `m`
    obtain ⟨p₁, p₂, rfl⟩ := List.append_of_mem hm
    have hearlier := h.earlier_of_append
    have hlater : (p₂ ++ x :: q).countP (· < m) ≤ b := by
      rw [List.append_assoc, List.cons_append] at h
      exact h.later_of_append
    have hx : x ∉ p₁ := by
      intro hx
      rw [List.append_assoc] at hnodup
      exact List.disjoint_of_nodup_append hnodup hx (by simp)
    -- split at `m`: larger than `x` and before it, or smaller than `m` and behind it
    have hcover : Finset.Ico x m ⊆
        (p₁.filter (x < ·)).toFinset ∪ ((p₂ ++ x :: q).filter (· < m)).toFinset := by
      intro y hy
      rw [Finset.mem_Ico] at hy
      rw [Finset.mem_union, List.mem_toFinset, List.mem_toFinset, List.mem_filter, List.mem_filter]
      have hmem' := (hmem y).mpr ⟨by omega, by omega⟩
      rw [List.append_assoc, List.mem_append, List.cons_append, List.mem_cons] at hmem'
      rcases hmem' with hp | rfl | hq
      · refine .inl ⟨hp, ?_⟩
        have : y ≠ x := fun heq => hx (heq ▸ hp)
        simp only [decide_eq_true_eq]
        omega
      · omega
      · exact .inr ⟨hq, by simpa using hy.2⟩
    have hcard := (Finset.card_le_card hcover).trans (Finset.card_union_le _ _)
    have h1 := List.toFinset_card_le (p₁.filter (x < ·))
    have h2 := List.toFinset_card_le ((p₂ ++ x :: q).filter (· < m))
    rw [← List.countP_eq_length_filter] at h1 h2
    rw [List.countP_append] at hearlier
    rw [Nat.card_Ico] at hcard
    omega

end Reordering
