/-
Channels that lose, repeat, reorder and damage messages.

A message carries a number, or none when it was damaged (`num`).  What comes out
of the channel is a list of messages; a number that does not come is lost.

* `firsts`, `copies` — the messages that bring a number for the first time, and
  those that bring it again;
* `Loose b` — a bound on the reordering: a new number comes after at most `b`
  larger ones, and after its arrival come at most `b` messages that are damaged or
  do not go beyond it;
* `Loose.of_append` — the bound holds at every moment (`Loose.earlier_of_append`,
  `Loose.later_of_append`).
-/
import Mathlib.Data.Finset.Card
import Mathlib.Data.List.Induction
import Mathlib.Data.List.TakeWhile

namespace Channel

variable {β α : Type*} {num : β → Option α} {b : ℕ} {x : α} {m : β} {ms ms' : List β}

/-! ### Numbers -/

/-- The numbers that came. -/
def nums (num : β → Option α) (ms : List β) : List α := ms.filterMap num

theorem nums_append : nums num (ms ++ ms') = nums num ms ++ nums num ms' := List.filterMap_append

theorem nums_concat_none (h : num m = none) : nums num (ms ++ [m]) = nums num ms := by
  rw [nums_append, nums, nums, List.filterMap_cons_none h, List.filterMap_nil, List.append_nil]

theorem nums_concat_some (h : num m = some x) : nums num (ms ++ [m]) = nums num ms ++ [x] := by
  rw [nums_append, nums, nums, List.filterMap_cons_some h, List.filterMap_nil]

theorem mem_nums : x ∈ nums num ms ↔ ∃ m ∈ ms, num m = some x := List.mem_filterMap

variable [LinearOrder α]

/-- How many different numbers of `l` are larger than `x`. -/
def larger (x : α) (l : List α) : ℕ := (l.toFinset.filter (x < ·)).card

theorem larger_mono {l l' : List α} (h : l ⊆ l') : larger x l ≤ larger x l' := by
  refine Finset.card_le_card (Finset.filter_subset_filter _ ?_)
  intro y hy
  rw [List.mem_toFinset] at hy ⊢
  exact h hy

/-- Numbers above `x` that are in a list. -/
theorem length_le_larger {l l' : List α} (hnd : l.Nodup) (hsub : l ⊆ l') (hlt : ∀ y ∈ l, x < y) :
    l.length ≤ larger x l' := by
  rw [← List.toFinset_card_of_nodup hnd]
  refine Finset.card_le_card fun y hy => ?_
  rw [List.mem_toFinset] at hy
  rw [Finset.mem_filter, List.mem_toFinset]
  exact ⟨hsub hy, hlt y hy⟩

/-! ### First messages and copies -/

/-- The messages whose number is new (`fresh`), or those whose number came before, when the
numbers `seen` have come already. -/
def sift (num : β → Option α) (fresh : Bool) : List α → List β → List β
  | _, [] => []
  | seen, m :: ms =>
    match num m with
    | none => sift num fresh seen ms
    | some x =>
      if decide (x ∈ seen) = fresh then sift num fresh (seen ++ [x]) ms
      else m :: sift num fresh (seen ++ [x]) ms

/-- The messages that bring a number for the first time. -/
def firsts (num : β → Option α) (ms : List β) : List β := sift num true [] ms

/-- The messages that bring a number again. -/
def copies (num : β → Option α) (ms : List β) : List β := sift num false [] ms

theorem sift_append (fresh : Bool) : ∀ (ms : List β) (seen : List α),
    sift num fresh seen (ms ++ ms') =
      sift num fresh seen ms ++ sift num fresh (seen ++ nums num ms) ms' := by
  intro ms
  induction ms with
  | nil =>
    intro seen
    rw [nums, List.filterMap_nil, List.append_nil]
    rfl
  | cons m ms ih =>
    intro seen
    rw [List.cons_append, sift, sift]
    cases hm : num m with
    | none =>
      dsimp only
      rw [ih, nums, nums, List.filterMap_cons_none hm]
    | some x =>
      dsimp only
      rw [ih, nums, nums, List.filterMap_cons_some hm, List.append_assoc, List.singleton_append]
      split_ifs <;> rfl

/-- One message more. -/
theorem sift_concat (fresh : Bool) :
    sift num fresh [] (ms ++ [m]) =
      sift num fresh [] ms ++
        if ∃ x ∈ num m, ¬ decide (x ∈ nums num ms) = fresh then [m] else [] := by
  rw [sift_append, List.nil_append, List.append_cancel_left_eq, sift]
  cases hm : num m with
  | none =>
    rw [if_neg (by rintro ⟨x, hx, -⟩; cases hx)]
    rfl
  | some x =>
    dsimp only
    by_cases hx : decide (x ∈ nums num ms) = fresh
    · rw [if_pos hx, if_neg (by rintro ⟨y, hy, hne⟩; cases hy; exact hne hx)]
      rfl
    · rw [if_neg hx, if_pos ⟨x, rfl, hx⟩]
      rfl

theorem firsts_concat_none (h : num m = none) : firsts num (ms ++ [m]) = firsts num ms := by
  rw [firsts, sift_concat, if_neg (by rw [h]; rintro ⟨x, hx, -⟩; cases hx), List.append_nil, firsts]

theorem copies_concat_none (h : num m = none) : copies num (ms ++ [m]) = copies num ms := by
  rw [copies, sift_concat, if_neg (by rw [h]; rintro ⟨x, hx, -⟩; cases hx), List.append_nil, copies]

theorem firsts_concat_new (h : num m = some x) (hx : x ∉ nums num ms) :
    firsts num (ms ++ [m]) = firsts num ms ++ [m] := by
  rw [firsts, sift_concat, if_pos ⟨x, h, by simpa using hx⟩, firsts]

theorem copies_concat_new (h : num m = some x) (hx : x ∉ nums num ms) :
    copies num (ms ++ [m]) = copies num ms := by
  rw [copies, sift_concat, if_neg, List.append_nil, copies]
  rintro ⟨y, hy, hne⟩
  rw [h] at hy
  cases hy
  exact hne (by simpa using hx)

theorem firsts_concat_old (h : num m = some x) (hx : x ∈ nums num ms) :
    firsts num (ms ++ [m]) = firsts num ms := by
  rw [firsts, sift_concat, if_neg, List.append_nil, firsts]
  rintro ⟨y, hy, hne⟩
  rw [h] at hy
  cases hy
  exact hne (by simpa using hx)

theorem copies_concat_old (h : num m = some x) (hx : x ∈ nums num ms) :
    copies num (ms ++ [m]) = copies num ms ++ [m] := by
  rw [copies, sift_concat, if_pos ⟨x, h, by simpa using hx⟩, copies]

/-- Every number that came has a first message. -/
theorem mem_nums_firsts : x ∈ nums num (firsts num ms) ↔ x ∈ nums num ms := by
  induction ms using List.reverseRecOn with
  | nil => rfl
  | append_singleton ms m ih =>
    cases hm : num m with
    | none => rw [firsts_concat_none hm, nums_concat_none hm, ih]
    | some z =>
      rw [nums_concat_some hm]
      by_cases hz : z ∈ nums num ms
      · rw [firsts_concat_old hm hz, ih, List.mem_append, List.mem_singleton]
        refine ⟨.inl, ?_⟩
        rintro (hx | rfl)
        · exact hx
        · exact hz
      · rw [firsts_concat_new hm hz, nums_concat_some hm, List.mem_append, List.mem_append, ih]

theorem firsts_sublist : (firsts num ms).Sublist ms := by
  induction ms using List.reverseRecOn with
  | nil => exact .slnil
  | append_singleton ms m ih =>
    rw [firsts, sift_concat]
    split_ifs
    · exact ih.append (.refl _)
    · rw [List.append_nil]
      exact ih.trans (List.sublist_append_left _ _)

/-! ### A bound on the reordering -/

/-- The messages behind the first one with the number `x`. -/
def after (num : β → Option α) (x : α) (ms : List β) : List β :=
  (ms.dropWhile fun m => num m ≠ some x).tail

/-- How many messages after the first one with the number `x` are damaged or do not go beyond
it. -/
def behind (num : β → Option α) (x : α) (ms : List β) : ℕ :=
  (after num x ms).countP fun m => ∀ y ∈ num m, y ≤ x

theorem after_append (h : x ∈ nums num ms) : after num x (ms ++ ms') = after num x ms ++ ms' := by
  obtain ⟨m, hm, hx⟩ := mem_nums.mp h
  have hne : (ms.dropWhile fun m => num m ≠ some x) ≠ [] := by
    rw [Ne, List.dropWhile_eq_nil_iff]
    intro hall
    simpa [hx] using hall m hm
  rw [after, List.dropWhile_append, if_neg (by simpa using hne), List.tail_append_of_ne_nil hne,
    after]

theorem behind_concat (h : x ∈ nums num ms) :
    behind num x (ms ++ [m]) = behind num x ms + if ∀ y ∈ num m, y ≤ x then 1 else 0 := by
  rw [behind, after_append h, List.countP_append, List.countP_singleton, behind]
  simp

theorem behind_mono (h : x ∈ nums num ms) : behind num x ms ≤ behind num x (ms ++ ms') := by
  rw [behind, behind, after_append h, List.countP_append]
  exact Nat.le_add_right _ _

/-- A new number comes after at most `b` larger ones, and is followed by at most `b` messages
that are damaged or do not go beyond it. -/
structure Loose (num : β → Option α) (b : ℕ) (ms : List β) : Prop where
  earlier : ∀ i, ∀ h : i < ms.length, ∀ x ∈ num ms[i], x ∉ nums num (ms.take i) →
    larger x (nums num (ms.take i)) ≤ b
  later : ∀ x ∈ nums num ms, behind num x ms ≤ b

theorem Loose.earlier_of_append (h : Loose num b (ms ++ m :: ms')) (hm : num m = some x)
    (hx : x ∉ nums num ms) : larger x (nums num ms) ≤ b := by
  have hi : ms.length < (ms ++ m :: ms').length := by
    rw [List.length_append, List.length_cons]
    omega
  have htake : (ms ++ m :: ms').take ms.length = ms := List.take_left
  have hget : (ms ++ m :: ms')[ms.length] = m := by
    rw [List.getElem_append_right (le_refl _)]
    simp
  have hle := h.earlier ms.length hi x (by rw [hget]; exact hm)
  rw [htake] at hle
  exact hle hx

theorem Loose.later_of_append (h : Loose num b (ms ++ ms')) (hx : x ∈ nums num ms) :
    behind num x ms ≤ b :=
  (behind_mono hx).trans (h.later x (by rw [nums_append]; exact List.mem_append_left _ hx))

end Channel
