/-
Singly linked lists threaded through records.

The records of an intrusive list live somewhere else, in an array or on the
heap; the list itself is a head pointer and the pointer that every record has
to the next one.  A place where a pointer is stored is a *link*: the head, or
the pointer in a record.  This file collects

* `ListsFrom` — the records one comes to by following the pointers from a
  link, up to the null pointer;
* `ListsFrom.nodup` — no record is met twice, since the list ends;
* `ListsFrom.insert`, `ListsFrom.remove`, `ListsFrom.splice` — what overwriting
  one link does;
* `walk` — the loop that looks for a link, and `walk_eq`, where it stops;
* `follow` — the records of a list, and `follow_eq`.
-/
import Mathlib.Data.List.Induction
import Mathlib.Data.List.Nodup
import Mathlib.Logic.Function.Basic

namespace Linked

/-- A head pointer and the pointers to the next record. -/
structure Links (α : Type*) where
  head : Option α
  next : α → Option α

variable {α : Type*} {l : Links α} {link : Option α} {x z : α} {xs ys : List α}

/-- What is stored at a link; the link `none` is the head. -/
def Links.get (l : Links α) : Option α → Option α
  | none => l.head
  | some x => l.next x

/-- Overwrite a link. -/
def Links.set [DecidableEq α] (l : Links α) : Option α → Option α → Links α
  | none, p => { l with head := p }
  | some x, p => { l with next := Function.update l.next x p }

/-- Following the pointers from `link` leads to the records `xs`, and then to
the null pointer. -/
def ListsFrom (l : Links α) : Option α → List α → Prop
  | link, [] => l.get link = none
  | link, x :: xs => l.get link = some x ∧ ListsFrom l (some x) xs

/-- The link behind the records `xs` that start at `link`. -/
def after : Option α → List α → Option α
  | link, [] => link
  | _, x :: xs => after (some x) xs

theorem after_append : ∀ (xs : List α) (link : Option α) (ys : List α),
    after link (xs ++ ys) = after (after link xs) ys := by
  intro xs
  induction xs with
  | nil => exact fun _ _ => rfl
  | cons x xs ih => exact fun _ ys => ih (some x) ys

theorem after_none : ∀ (xs : List α), after none xs = xs.getLast? := by
  intro xs
  induction xs using List.reverseRecOn with
  | nil => rfl
  | append_singleton xs x _ =>
    rw [after_append, List.getLast?_append]
    rfl

/-- The link behind a record and what follows it is in one of these. -/
theorem after_mem : ∀ (x : α) (xs : List α), after (some x) xs ∈ (x :: xs).map some := by
  intro x xs
  induction xs generalizing x with
  | nil => exact List.mem_cons_self
  | cons y xs ih => exact List.mem_cons_of_mem (some x) (ih y)

/-! ### What a list of records says -/

theorem ListsFrom.get_eq (h : ListsFrom l link xs) : l.get link = xs.head? := by
  cases xs with
  | nil => exact h
  | cons x xs => exact h.1

theorem listsFrom_append : ∀ {xs : List α} {link : Option α},
    ListsFrom l link (xs ++ ys) → ListsFrom l (after link xs) ys := by
  intro xs
  induction xs with
  | nil => exact fun h => h
  | cons x xs ih => exact fun h => ih h.2

theorem ListsFrom.unique : ∀ {xs ys : List α} {link : Option α},
    ListsFrom l link xs → ListsFrom l link ys → xs = ys := by
  intro xs
  induction xs with
  | nil =>
    intro ys link h h'
    cases ys with
    | nil => rfl
    | cons y ys =>
      rw [ListsFrom, h'.1] at h
      cases h
  | cons x xs ih =>
    intro ys link h h'
    cases ys with
    | nil =>
      rw [ListsFrom, h.1] at h'
      cases h'
    | cons y ys =>
      have hxy : x = y := Option.some.inj (h.1.symm.trans h'.1)
      subst hxy
      rw [ih h.2 h'.2]

/-- A list does not come back to the record it starts from. -/
theorem ListsFrom.not_mem (h : ListsFrom l (some x) xs) : x ∉ xs := by
  intro hx
  obtain ⟨pre, post, rfl⟩ := List.append_of_mem hx
  -- otherwise what follows the record would be a proper part of itself
  have hpost : ListsFrom l (some x) post := by
    rw [show pre ++ x :: post = (pre ++ [x]) ++ post by simp] at h
    have := listsFrom_append h
    rwa [after_append] at this
  have hlen := congrArg List.length (h.unique hpost)
  rw [List.length_append, List.length_cons] at hlen
  omega

theorem ListsFrom.nodup : ∀ {xs : List α} {link : Option α}, ListsFrom l link xs → xs.Nodup := by
  intro xs
  induction xs with
  | nil => exact fun _ => List.nodup_nil
  | cons x xs ih => exact fun h => List.nodup_cons.mpr ⟨h.2.not_mem, ih h.2⟩

/-- A list depends on the link it starts from and on the records in it. -/
theorem ListsFrom.congr {l' : Links α} : ∀ {xs : List α} {link link' : Option α},
    ListsFrom l link xs → l'.get link' = l.get link → (∀ x ∈ xs, l'.next x = l.next x) →
    ListsFrom l' link' xs := by
  intro xs
  induction xs with
  | nil => exact fun h hlink _ => hlink.trans h
  | cons x xs ih =>
    intro link link' h hlink hnext
    refine ⟨hlink.trans h.1, ih h.2 (hnext x List.mem_cons_self) fun y hy => ?_⟩
    exact hnext y (List.mem_cons_of_mem x hy)

/-! ### Overwriting a link -/

/-- The link behind a record of the list is not the one the list starts from. -/
theorem ListsFrom.ne_after (h : ListsFrom l link (x :: xs ++ ys)) : link ≠ after link (x :: xs) := by
  intro heq
  have hin : after (some x) xs ∈ (x :: xs).map some := after_mem x xs
  rw [show after link (x :: xs) = after (some x) xs from rfl] at heq
  rw [← heq] at hin
  obtain ⟨y, hy, rfl⟩ := List.mem_map.mp hin
  exact h.not_mem (List.mem_append_left ys hy)

section set

variable [DecidableEq α]

@[simp] theorem get_set_self (l : Links α) (link p : Option α) : (l.set link p).get link = p := by
  cases link with
  | none => rfl
  | some x => exact Function.update_self x p l.next

theorem get_set_of_ne {link' : Option α} (hne : link' ≠ link) (p : Option α) :
    (l.set link p).get link' = l.get link' := by
  cases link with
  | none =>
    cases link' with
    | none => exact absurd rfl hne
    | some x => rfl
  | some x =>
    cases link' with
    | none => rfl
    | some y => exact Function.update_of_ne (fun h => hne (congrArg some h)) p l.next

theorem next_set_of_ne (hne : some x ≠ link) (p : Option α) : (l.set link p).next x = l.next x :=
  get_set_of_ne hne p

/-- Overwriting a link that is not on the list. -/
theorem ListsFrom.set {w : Option α} (h : ListsFrom l link xs) (hlink : link ≠ w)
    (hmem : ∀ x ∈ xs, some x ≠ w) (p : Option α) : ListsFrom (l.set w p) link xs :=
  h.congr (get_set_of_ne hlink p) fun x hx => next_set_of_ne (hmem x hx) p

/-- A new record is put at the link behind `xs`. -/
theorem ListsFrom.insert : ∀ {xs : List α} {link : Option α},
    ListsFrom l link (xs ++ ys) → z ∉ xs ++ ys → link ≠ some z →
    ListsFrom ((l.set (some z) (l.get (after link xs))).set (after link xs) (some z)) link
      (xs ++ z :: ys) := by
  intro xs
  induction xs with
  | nil =>
    intro link h hz hlink
    rw [show after link ([] : List α) = link from rfl]
    refine ⟨get_set_self _ _ _, h.congr ?_ fun y hy => ?_⟩
    · rw [get_set_of_ne (Ne.symm hlink), get_set_self]
    · have hyz : some y ≠ some z := fun heq => hz (Option.some.inj heq ▸ hy)
      have hylink : some y ≠ link := by
        rintro rfl
        exact h.not_mem hy
      rw [next_set_of_ne hylink, next_set_of_ne hyz]
  | cons x xs ih =>
    intro link h hz hlink
    have hxz : some x ≠ some z := fun heq => hz (Option.some.inj heq ▸ List.mem_cons_self)
    refine ⟨?_, ih h.2 (fun hmem => hz (List.mem_cons_of_mem x hmem)) hxz⟩
    -- the link that is overwritten lies behind `x`
    rw [get_set_of_ne h.ne_after, get_set_of_ne hlink]
    exact h.1

/-- The record behind `xs` is taken out. -/
theorem ListsFrom.remove : ∀ {xs : List α} {link : Option α},
    ListsFrom l link (xs ++ z :: ys) →
    ListsFrom (l.set (after link xs) (l.next z)) link (xs ++ ys) := by
  intro xs
  induction xs with
  | nil =>
    intro link h
    refine h.2.congr (get_set_self _ _ _) fun y hy => next_set_of_ne ?_ _
    rintro rfl
    exact h.not_mem (List.mem_cons_of_mem z hy)
  | cons x xs ih =>
    intro link h
    refine ⟨?_, ih h.2⟩
    rw [get_set_of_ne h.ne_after]
    exact h.1

/-- What follows `xs` is replaced by the list that starts at `p`. -/
theorem ListsFrom.splice {p : Option α} {zs : List α} : ∀ {xs : List α} {link : Option α},
    ListsFrom l link (xs ++ ys) → ListsFrom ⟨p, l.next⟩ none zs → (∀ z ∈ zs, some z ≠ after link xs) →
    ListsFrom (l.set (after link xs) p) link (xs ++ zs) := by
  intro xs
  induction xs with
  | nil =>
    intro link _ hzs hne
    exact hzs.congr (get_set_self _ _ _) fun z hz => next_set_of_ne (hne z hz) p
  | cons x xs ih =>
    intro link h hzs hne
    refine ⟨?_, ih h.2 hzs hne⟩
    rw [get_set_of_ne h.ne_after]
    exact h.1

end set

/-! ### Looking for a link -/

/-- Go from link to link, as far as a record where `stop` says so or the end of
the list; `none` when `stop` fails, or after `fuel` links. -/
def walk (l : Links α) (stop : α → Option Bool) : ℕ → Option α → Option (Option α)
  | 0, _ => none
  | fuel + 1, link =>
    match l.get link with
    | none => some link
    | some x => (stop x).bind fun b => if b then some link else walk l stop fuel (some x)

theorem walk_eq {stop : α → Option Bool} : ∀ {xs : List α} {link : Option α} {fuel : ℕ},
    ListsFrom l link (xs ++ ys) → (∀ x ∈ xs, stop x = some false) →
    (∀ y ∈ ys.head?, stop y = some true) → xs.length < fuel →
    walk l stop fuel link = some (after link xs) := by
  intro xs
  induction xs with
  | nil =>
    intro link fuel h _ hstop hfuel
    obtain ⟨fuel, rfl⟩ := Nat.exists_eq_succ_of_ne_zero (Nat.ne_of_gt hfuel)
    rw [List.nil_append] at h
    rw [walk, h.get_eq]
    cases ys with
    | nil => rfl
    | cons y ys =>
      show (stop y).bind _ = _
      rw [hstop y rfl]
      rfl
  | cons x xs ih =>
    intro link fuel h hgo hstop hfuel
    obtain ⟨fuel, rfl⟩ := Nat.exists_eq_succ_of_ne_zero (Nat.ne_of_gt (Nat.zero_lt_of_lt hfuel))
    rw [walk, h.1]
    show (stop x).bind _ = _
    rw [hgo x List.mem_cons_self]
    exact ih h.2 (fun y hy => hgo y (List.mem_cons_of_mem x hy)) hstop (Nat.lt_of_succ_lt_succ hfuel)

/-! ### The records of a list -/

/-- The records one comes to from `link`, at most `fuel` of them. -/
def follow (l : Links α) : ℕ → Option α → List α
  | 0, _ => []
  | fuel + 1, link =>
    match l.get link with
    | none => []
    | some x => x :: follow l fuel (some x)

theorem follow_eq : ∀ {xs : List α} {link : Option α} {fuel : ℕ},
    ListsFrom l link xs → xs.length ≤ fuel → follow l fuel link = xs := by
  intro xs
  induction xs with
  | nil =>
    intro link fuel h _
    cases fuel with
    | zero => rfl
    | succ fuel =>
      rw [follow, h.get_eq]
      rfl
  | cons x xs ih =>
    intro link fuel h hfuel
    obtain ⟨fuel, rfl⟩ := Nat.exists_eq_succ_of_ne_zero (Nat.ne_of_gt (Nat.zero_lt_of_lt hfuel))
    rw [follow, h.1]
    exact congrArg (x :: ·) (ih h.2 (Nat.le_of_succ_le_succ hfuel))

end Linked
