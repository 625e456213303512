/-
Runs of partial step functions.

A component is a state type `σ`, a type `ι` of calls and a step function
`σ → ι → Option (σ × o)`: a call either yields the next state with an output,
or `none`, which stands for a program that stops (a failed assertion, a read
or write outside a buffer) or, in a system of threads, for a step that is not
possible.  This file collects what every development on top
of such a component needs:

* `run` — the calls of a list made one after the other, with all outputs;
* `Always` — a condition that every call of a run meets, in the state it is
  made in (`always_iff`);
* `run_induction` — an invariant over the calls made, the outputs returned and
  the state reached, from one step;
* `run_keeps` — a property that a call keeps in the states of an invariant;
* `run_total` — the first of these rules, when the invariant also rules out `none`;
* `run_amortized` — what the calls of a run cost, when each is paid by what it earns and
  by what it takes on as a debt;
* `Since` — something held at a moment of a run since the last call of a kind, and `Lately`
  the same for outputs.
-/
import Mathlib.Algebra.GroupWithZero.Nat
import Mathlib.Data.List.Induction

namespace Runs

variable {σ ι o : Type*} (step : σ → ι → Option (σ × o))

/-- The calls `is` made in order from `s`; `none` as soon as one of them
stops. -/
def run : σ → List ι → Option (σ × List o)
  | s, [] => some (s, [])
  | s, i :: is =>
    (step s i).bind fun p => (run p.1 is).map fun q => (q.1, p.2 :: q.2)

/-- `P` holds of every call of the run, at the state the call is made in. -/
def Always (P : σ → ι → Prop) : σ → List ι → Prop
  | _, [] => True
  | s, i :: is => P s i ∧ ∀ p, step s i = some p → Always P p.1 is

instance decidableAlways (P : σ → ι → Prop) [∀ s i, Decidable (P s i)] :
    ∀ (s : σ) (is : List ι), Decidable (Always step P s is)
  | _, [] => inferInstanceAs (Decidable True)
  | s, i :: is =>
    match hs : step s i with
    -- nothing comes after a call that stops
    | none => decidable_of_iff (P s i) (by simp [Always, hs])
    | some p =>
      haveI := decidableAlways P p.1 is
      decidable_of_iff (P s i ∧ Always step P p.1 is) (by simp [Always, hs])

variable {step}

@[simp] theorem run_nil (s : σ) : run step s [] = some (s, []) := rfl

theorem run_cons_eq_some {s t : σ} {i : ι} {is : List ι} {os : List o} :
    run step s (i :: is) = some (t, os) ↔
      ∃ s' r os', step s i = some (s', r) ∧ run step s' is = some (t, os') ∧
        os = r :: os' := by
  simp only [run, Option.bind_eq_some_iff, Option.map_eq_some_iff, Prod.exists, Prod.mk.injEq]
  constructor
  · rintro ⟨s', r, hs, t', os', hr, rfl, rfl⟩
    exact ⟨s', r, os', hs, hr, rfl⟩
  · rintro ⟨s', r, os', hs, hr, rfl⟩
    exact ⟨s', r, hs, t, os', hr, rfl, rfl⟩

theorem run_append_eq_some : ∀ {is js : List ι} {s t : σ} {os : List o},
    run step s (is ++ js) = some (t, os) ↔
      ∃ u os₁ os₂, run step s is = some (u, os₁) ∧ run step u js = some (t, os₂) ∧
        os = os₁ ++ os₂ := by
  intro is
  induction is with
  | nil =>
    intro js s t os
    simp [eq_comm]
  | cons i is ih =>
    intro js s t os
    -- the first call is the same on both sides
    rw [List.cons_append, run_cons_eq_some]
    constructor
    · rintro ⟨s', r, os', hs, hr, rfl⟩
      obtain ⟨u, os₁, os₂, h1, h2, rfl⟩ := ih.mp hr
      exact ⟨u, r :: os₁, os₂, run_cons_eq_some.mpr ⟨s', r, os₁, hs, h1, rfl⟩, h2, rfl⟩
    · rintro ⟨u, os₁, os₂, h1, h2, rfl⟩
      obtain ⟨s', r, os', hs, hr, rfl⟩ := run_cons_eq_some.mp h1
      exact ⟨s', r, os' ++ os₂, hs, ih.mpr ⟨u, os', os₂, hr, h2, rfl⟩, rfl⟩

theorem run_singleton_eq_some {s t : σ} {i : ι} {os : List o} :
    run step s [i] = some (t, os) ↔ ∃ r, step s i = some (t, r) ∧ os = [r] := by
  rw [run_cons_eq_some]
  constructor
  · rintro ⟨s', r, os', hs, hr, rfl⟩
    simp only [run_nil, Option.some.injEq, Prod.mk.injEq] at hr
    obtain ⟨rfl, rfl⟩ := hr
    exact ⟨r, hs, rfl⟩
  · rintro ⟨r, hs, rfl⟩
    exact ⟨t, r, [], hs, rfl, rfl⟩

theorem run_concat_eq_some {is : List ι} {i : ι} {s t : σ} {os : List o} :
    run step s (is ++ [i]) = some (t, os) ↔
      ∃ u os' r, run step s is = some (u, os') ∧ step u i = some (t, r) ∧
        os = os' ++ [r] := by
  rw [run_append_eq_some]
  constructor
  · rintro ⟨u, os₁, os₂, h1, h2, rfl⟩
    obtain ⟨r, hr, rfl⟩ := run_singleton_eq_some.mp h2
    exact ⟨u, os₁, r, h1, hr, rfl⟩
  · rintro ⟨u, os', r, h1, h2, rfl⟩
    exact ⟨u, os', [r], h1, run_singleton_eq_some.mpr ⟨r, h2, rfl⟩, rfl⟩

/-- A run has one output for each call. -/
theorem run_length : ∀ {is : List ι} {s t : σ} {os : List o}, run step s is = some (t, os) →
    os.length = is.length := by
  intro is
  induction is with
  | nil =>
    intro s t os h
    simp only [run_nil, Option.some.injEq, Prod.mk.injEq] at h
    rw [← h.2]
    rfl
  | cons i is ih =>
    intro s t os h
    obtain ⟨s', r, os', -, hr, rfl⟩ := run_cons_eq_some.mp h
    rw [List.length_cons, List.length_cons, ih hr]

theorem always_append {P : σ → ι → Prop} : ∀ {is js : List ι} {s : σ},
    Always step P s (is ++ js) ↔
      Always step P s is ∧ ∀ u os, run step s is = some (u, os) → Always step P u js := by
  intro is
  induction is with
  | nil =>
    intro js s
    simp [Always]
  | cons i is ih =>
    intro js s
    -- a state reached by `i :: is` is reached by `is` from the state after `i`
    rw [List.cons_append]
    constructor
    · rintro ⟨hi, hrest⟩
      refine ⟨⟨hi, fun p hp => (ih.mp (hrest p hp)).1⟩, fun u os hu => ?_⟩
      obtain ⟨s', r, os', hs, hr, rfl⟩ := run_cons_eq_some.mp hu
      exact (ih.mp (hrest _ hs)).2 u os' hr
    · rintro ⟨⟨hi, hrest⟩, hlast⟩
      refine ⟨hi, fun p hp => ih.mpr ⟨hrest p hp, fun u os hu => ?_⟩⟩
      exact hlast u (p.2 :: os) (run_cons_eq_some.mpr ⟨p.1, p.2, os, hp, hu, rfl⟩)

theorem always_concat {P : σ → ι → Prop} {is : List ι} {i : ι} {s : σ} :
    Always step P s (is ++ [i]) ↔
      Always step P s is ∧ ∀ u os, run step s is = some (u, os) → P u i := by
  rw [always_append]
  exact and_congr_right fun _ => forall₂_congr fun u os => imp_congr_right fun _ =>
    and_iff_left fun _ _ => trivial

/-- Every call that the run comes to meets the condition. -/
theorem always_iff {P : σ → ι → Prop} {is : List ι} {s : σ} :
    Always step P s is ↔ ∀ earlier i later, is = earlier ++ i :: later →
      ∀ u os, run step s earlier = some (u, os) → P u i := by
  constructor
  · rintro h earlier i later rfl u os hu
    induction earlier generalizing s os with
    | nil =>
      simp only [run_nil, Option.some.injEq, Prod.mk.injEq] at hu
      exact hu.1 ▸ h.1
    | cons j earlier ih =>
      obtain ⟨s', r, os', hs, hr, -⟩ := run_cons_eq_some.mp hu
      exact ih (h.2 _ hs) os' hr
  · induction is generalizing s with
    | nil => exact fun _ => trivial
    | cons j is ih =>
      intro h
      refine ⟨h [] j is rfl s [] rfl, fun p hp => ih ?_⟩
      rintro earlier i later rfl u os hu
      exact h (j :: earlier) i later rfl u (p.2 :: os) (run_cons_eq_some.mpr ⟨p.1, p.2, os, hp, hu, rfl⟩)

theorem Always.mono {P Q : σ → ι → Prop} {is : List ι} {s : σ} (h : Always step P s is)
    (hmono : ∀ s i, P s i → Q s i) : Always step Q s is := by
  rw [always_iff] at h ⊢
  intro earlier i later heq u os hu
  exact hmono u i (h earlier i later heq u os hu)

theorem Always.of_forall {P : σ → ι → Prop} : ∀ {is : List ι} {s : σ},
    (∀ i ∈ is, ∀ s, P s i) → Always step P s is := by
  intro is
  induction is with
  | nil =>
    intro s _
    trivial
  | cons i is ih =>
    intro s h
    refine ⟨h i List.mem_cons_self s, fun _ _ => ih ?_⟩
    intro j hj
    exact h j (List.mem_cons_of_mem i hj)

/-- **The invariant rule.**  A property of the calls made so far, the outputs
returned so far and the state reached holds of a whole run when one step
keeps it. -/
theorem run_induction {P : σ → ι → Prop} (Inv : List ι → List o → σ → Prop) {s₀ : σ}
    (hinit : Inv [] [] s₀)
    (hstep : ∀ {is os s i s' r}, Inv is os s → P s i → step s i = some (s', r) →
      Inv (is ++ [i]) (os ++ [r]) s') :
    ∀ {is : List ι} {os : List o} {s : σ}, Always step P s₀ is →
      run step s₀ is = some (s, os) → Inv is os s := by
  intro is
  -- from the end: the last call is the step
  induction is using List.reverseRecOn with
  | nil =>
    intro os s _ h
    simp only [run_nil, Option.some.injEq, Prod.mk.injEq] at h
    obtain ⟨rfl, rfl⟩ := h
    exact hinit
  | append_singleton is i ih =>
    intro os s hP h
    obtain ⟨u, os', r, hu, hr, rfl⟩ := run_concat_eq_some.mp h
    obtain ⟨hP1, hP2⟩ := always_concat.mp hP
    exact hstep (ih hP1 hu) (hP2 u os' hu) hr

/-- A property that every call meeting the condition keeps in the states of an
invariant is kept by a run from such a state. -/
theorem run_keeps {P : σ → ι → Prop} {I K : σ → Prop}
    (hinv : ∀ {s i s' r}, I s → step s i = some (s', r) → I s')
    (hkeep : ∀ {s i s' r}, I s → K s → P s i → step s i = some (s', r) → K s')
    {s₀ s : σ} {is : List ι} {os : List o} (hinv₀ : I s₀) (hK₀ : K s₀)
    (hP : Always step P s₀ is) (h : run step s₀ is = some (s, os)) : K s := by
  have hboth : I s ∧ K s := by
    refine run_induction (fun _ _ s => I s ∧ K s) ⟨hinv₀, hK₀⟩ ?_ hP h
    rintro _ _ u i u' r ⟨hu, hK⟩ hi hs
    exact ⟨hinv hu hs, hkeep hu hK hi hs⟩
  exact hboth.2

/-- **The invariant rule with progress.**  When the invariant also makes every
call succeed, no run that meets the condition stops.  `Q` is a condition on the
calls alone, such as a bound on their number, that is passed on to shorter
runs. -/
theorem run_total {P : σ → ι → Prop} (Q : List ι → Prop) (Inv : List ι → List o → σ → Prop)
    {s₀ : σ} (hQ : ∀ {is i}, Q (is ++ [i]) → Q is) (hinit : Inv [] [] s₀)
    (hstep : ∀ {is os s i}, Q (is ++ [i]) → Inv is os s → P s i →
      ∃ s' r, step s i = some (s', r) ∧ Inv (is ++ [i]) (os ++ [r]) s') :
    ∀ {is : List ι}, Q is → Always step P s₀ is →
      ∃ s os, run step s₀ is = some (s, os) ∧ Inv is os s := by
  intro is
  induction is using List.reverseRecOn with
  | nil =>
    intro _ _
    exact ⟨s₀, [], rfl, hinit⟩
  | append_singleton is i ih =>
    intro hq hP
    -- the shorter run succeeds, and the invariant it reaches makes the last call succeed
    obtain ⟨hP1, hP2⟩ := always_concat.mp hP
    obtain ⟨u, os, hu, hinv⟩ := ih (hQ hq) hP1
    obtain ⟨s', r, hr, hinv'⟩ := hstep hq hinv (hP2 u os hu)
    exact ⟨s', os ++ [r], run_concat_eq_some.mpr ⟨u, os, r, hu, hr, rfl⟩, hinv'⟩

/-- **Amortized cost.**  When what a call costs is covered by what it earns and by the
growth of a debt, the same holds of the calls of a run together. -/
theorem run_amortized {P : σ → ι → Prop} {I : σ → Prop} (cost gain : o → ℕ) (debt : σ → ℕ)
    (hinv : ∀ {s i s' r}, I s → P s i → step s i = some (s', r) → I s')
    (hstep : ∀ {s i s' r}, I s → P s i → step s i = some (s', r) →
      debt s + cost r ≤ debt s' + gain r)
    {s₀ s : σ} {is : List ι} {os : List o} (hinv₀ : I s₀) (hP : Always step P s₀ is)
    (h : run step s₀ is = some (s, os)) :
    debt s₀ + (os.map cost).sum ≤ debt s + (os.map gain).sum := by
  have hboth : I s ∧ debt s₀ + (os.map cost).sum ≤ debt s + (os.map gain).sum := by
    refine run_induction
      (fun _ os s => I s ∧ debt s₀ + (os.map cost).sum ≤ debt s + (os.map gain).sum)
      ⟨hinv₀, Nat.le_refl _⟩ ?_ hP h
    rintro _ os u i u' r ⟨hu, hle⟩ hi hs
    refine ⟨hinv hu hi hs, ?_⟩
    have hone := hstep hu hi hs
    simp only [List.map_append, List.sum_append_nat, List.map_cons, List.map_nil, List.sum_cons,
      List.sum_nil]
    omega
  exact hboth.2

/-! ### Moments of a run -/

/-- An element of a list that got one more is that one, or it was there before. -/
theorem concat_eq_append_cons {α : Type*} {l pre post : List α} {x y : α}
    (h : l ++ [x] = pre ++ y :: post) :
    l = pre ∧ x = y ∨ ∃ post', l = pre ++ y :: post' := by
  rcases List.eq_nil_or_concat post with rfl | ⟨post', z, rfl⟩
  · obtain ⟨hpre, hlast⟩ := List.append_inj' h rfl
    exact .inl ⟨hpre, List.head_eq_of_cons_eq hlast⟩
  · rw [List.concat_eq_append, ← List.cons_append, ← List.append_assoc] at h
    exact .inr ⟨post', (List.append_inj' h rfl).1⟩

/-- `Q` held of the outputs and the state at some moment of the run `is` since
the last call that is a `P`. -/
def Since (step : σ → ι → Option (σ × o)) (P : ι → Prop) (Q : List o → σ → Prop) (s₀ : σ)
    (is : List ι) : Prop :=
  ∃ earlier later, is = earlier ++ later ∧ (∀ i ∈ later, ¬ P i) ∧
    ∃ s os, run step s₀ earlier = some (s, os) ∧ Q os s

theorem Since.now {P : ι → Prop} {Q : List o → σ → Prop} {s₀ s : σ} {is : List ι} {os : List o}
    (h : run step s₀ is = some (s, os)) (hQ : Q os s) : Since step P Q s₀ is :=
  ⟨is, [], (List.append_nil is).symm, by simp, s, os, h, hQ⟩

theorem Since.concat {P : ι → Prop} {Q : List o → σ → Prop} {s₀ : σ} {is : List ι} {i : ι}
    (h : Since step P Q s₀ is) (hi : ¬ P i) : Since step P Q s₀ (is ++ [i]) := by
  obtain ⟨earlier, later, rfl, hlater, hQ⟩ := h
  refine ⟨earlier, later ++ [i], by rw [List.append_assoc], fun j hj => ?_, hQ⟩
  rcases List.mem_append.mp hj with hj | hj
  · exact hlater j hj
  · rw [List.mem_singleton.mp hj]
    exact hi

/-- `Q` held of the outputs at some moment since the last output that is a `P`. -/
def Lately (P : o → Prop) (Q : List o → Prop) (os : List o) : Prop :=
  ∃ earlier later, os = earlier ++ later ∧ (∀ r ∈ later, ¬ P r) ∧ Q earlier

theorem Lately.now {P : o → Prop} {Q : List o → Prop} {os : List o} (hQ : Q os) : Lately P Q os :=
  ⟨os, [], (List.append_nil os).symm, by simp, hQ⟩

theorem Lately.concat {P : o → Prop} {Q : List o → Prop} {os : List o} {r : o}
    (h : Lately P Q os) (hr : ¬ P r) : Lately P Q (os ++ [r]) := by
  obtain ⟨earlier, later, rfl, hlater, hQ⟩ := h
  refine ⟨earlier, later ++ [r], by rw [List.append_assoc], fun r' hr' => ?_, hQ⟩
  rcases List.mem_append.mp hr' with hr' | hr'
  · exact hlater r' hr'
  · rw [List.mem_singleton.mp hr']
    exact hr

end Runs
