/-
Objects that are counted by their references.

`Counts` tells how many references there are to each object.  Taking a reference adds one,
and `decref` releases one; `none` stands for the release of a reference that there is not.

* `increfs_apply`, `decrefs_apply` — what lists of references do to the counts;
* `decrefs_isSome` — references that are held can be released.
-/
import Mathlib.Data.List.Count
import Mathlib.Logic.Function.Basic

namespace RefCounts

variable {α : Type*} [DecidableEq α]

/-- The number of references to each object. -/
abbrev Counts (α : Type*) := α → ℕ

/-- Take a reference. -/
def incref (c : Counts α) (x : α) : Counts α := Function.update c x (c x + 1)

/-- Release a reference. -/
def decref (c : Counts α) (x : α) : Option (Counts α) :=
  if c x = 0 then none else some (Function.update c x (c x - 1))

/-- Take references one after the other. -/
def increfs (c : Counts α) (xs : List α) : Counts α := xs.foldl incref c

/-- Release references one after the other. -/
def decrefs (c : Counts α) : List α → Option (Counts α)
  | [] => some c
  | x :: xs => (decref c x).bind fun c => decrefs c xs

variable {c c' : Counts α} {x : α} {xs : List α}

theorem incref_apply (c : Counts α) (x y : α) : incref c x y = c y + [x].count y := by
  by_cases hxy : y = x
  · rw [hxy, incref, Function.update_self, List.count_singleton_self]
  · rw [incref, Function.update_of_ne hxy, List.count_singleton]
    simp [Ne.symm hxy]

theorem increfs_apply (c : Counts α) (xs : List α) (y : α) :
    increfs c xs y = c y + xs.count y := by
  induction xs generalizing c with
  | nil => rfl
  | cons x xs ih =>
    show increfs (incref c x) xs y = _
    rw [ih, incref_apply, Nat.add_assoc, ← List.count_append, List.singleton_append]

theorem decref_apply (h : decref c x = some c') (y : α) : c' y + [x].count y = c y := by
  unfold decref at h
  split_ifs at h with hzero
  cases h
  by_cases hxy : y = x
  · rw [hxy, Function.update_self, List.count_singleton_self]
    omega
  · rw [Function.update_of_ne hxy, List.count_singleton]
    simp [Ne.symm hxy]

theorem decref_isSome (h : c x ≠ 0) : ∃ c', decref c x = some c' := ⟨_, if_neg h⟩

theorem decrefs_apply (h : decrefs c xs = some c') (y : α) : c' y + xs.count y = c y := by
  induction xs generalizing c with
  | nil =>
    cases h
    rfl
  | cons x xs ih =>
    obtain ⟨c₁, hone, hrest⟩ := Option.bind_eq_some_iff.mp h
    have hhere : c₁ y + [x].count y = c y := decref_apply hone y
    have hthere : c' y + xs.count y = c₁ y := ih hrest
    rw [← List.singleton_append, List.count_append]
    omega

/-- References that there are can be released. -/
theorem decrefs_isSome (xs : List α) (h : ∀ y, xs.count y ≤ c y) :
    ∃ c', decrefs c xs = some c' := by
  induction xs generalizing c with
  | nil => exact ⟨c, rfl⟩
  | cons x xs ih =>
    have hhead : c x ≠ 0 := fun hzero => by
      have hle := h x
      rw [List.count_cons_self] at hle
      omega
    obtain ⟨c₁, hone⟩ := decref_isSome hhead
    obtain ⟨c', hc'⟩ := ih (c := c₁) fun y => by
      have hle := h y
      have hback := decref_apply hone y
      rw [← List.singleton_append, List.count_append] at hle
      omega
    exact ⟨c', by rw [decrefs, hone, Option.bind_some, hc']⟩

end RefCounts
