/-
`SPMCQueue` inside a larger system.

The system takes the steps of the queue between others of its own.  What it has pushed and
popped, and since when the queue was full or empty, it knows from its own history: the
invariant of `SpmcQueueFifo` is here in terms of these, and one step of the queue keeps it.

* `Inside.step` — one step;
* `Inside.goes` — a thread in a call is never stuck;
* `tryPush_pushed`, `TryPop.step` — what an access comes to; a consumer that only calls
  `try_pop` pops one value at a time.
-/
import LibRtpSynth.SpmcQueueProgress

open CWords Runs

namespace Spmc

variable {ι α : Type} {P R : List α} {full full' : Prop} {empty empty' : ι → Prop}
  {s s' : Sys ι α} {act : Action ι α} {e : Event ι α}

/-- What holds of a queue and its threads when the values `P` were pushed and `R` popped. -/
structure Inside (P R : List α) (full : Prop) (empty : ι → Prop) (s : Sys ι α) : Prop where
  queue : QueueInv P R s.queue
  producer : ProducerInv P R s.queue full s.producer
  consumers : ∀ c, ConsumerInv P R (empty c) (s.consumers c)

/-- Other parts of the system make a step. -/
theorem Inside.mono (h : Inside P R full empty s) (hfull : full → full')
    (hempty : ∀ c, empty c → empty' c) : Inside P R full' empty' s :=
  ⟨h.queue, h.producer.mono le_rfl rfl rfl rfl hfull,
    fun c => (h.consumers c).mono (List.prefix_refl _) le_rfl (hempty c)⟩

/-- **One step.** -/
theorem Inside.step [DecidableEq ι] (h : Inside P R full empty s) (hok : act.ok) (hs : sysStep s act = some (s', e))
    (hbound : (P ++ e.push).length < 2 ^ 63) (hfull : ¬ act.isPush → full → full')
    (hempty : ∀ c, ¬ act.isPop c → empty c → empty' c)
    (hfullNow : ¬ act.isPush → P.length = R.length + s.queue.capacity → full')
    (hemptyNow : ∀ c, ¬ act.isPop c → P.length = R.length → empty' c) :
    Inside (P ++ e.push) (R ++ e.pop) full' empty' s' ∧ Justified full empty e ∧
      s'.queue.capacity = s.queue.capacity := by
  rcases sysStep_cases hs with ⟨value, rfl, rfl, rfl⟩ | ⟨queue, k, rfl, hk, rfl⟩ |
    ⟨c, op, rfl, rfl, rfl⟩ | ⟨c, spurious, queue, k, rfl, hk, rfl⟩
  · -- `try_push` is called
    rw [show P ++ (Event.call : Event ι α).push = P from List.append_nil P,
      show R ++ (Event.call : Event ι α).pop = R from List.append_nil R]
    refine ⟨⟨h.queue, trivial, fun c => ?_⟩, ⟨nofun, nofun, nofun, nofun⟩, rfl⟩
    exact (h.consumers c).mono (List.prefix_refl _) le_rfl (hempty c id)
  · -- the producer makes an access
    obtain ⟨hq, hprod, hevent, hpop, hcap⟩ :=
      tryPush_inv h.queue h.producer hk hbound (hfull id) (hfullNow id)
    rw [hpop, List.append_nil]
    refine ⟨⟨hq, hprod, fun c => ?_⟩, hevent.mono id fun _ => False.elim, hcap⟩
    exact (h.consumers c).mono (List.prefix_append _ _) le_rfl (hempty c id)
  · -- a consumer calls
    rw [show P ++ (Event.call : Event ι α).push = P from List.append_nil P,
      show R ++ (Event.call : Event ι α).pop = R from List.append_nil R]
    refine ⟨⟨h.queue, h.producer.mono le_rfl rfl rfl rfl (hfull id), fun c' => ?_⟩,
      ⟨nofun, nofun, nofun, nofun⟩, rfl⟩
    by_cases hcc : c' = c
    · subst hcc
      show ConsumerInv P R (empty' c') (Function.update s.consumers c' (.loadReadIdx op) c')
      rw [Function.update_self]
      exact hok
    · show ConsumerInv P R (empty' c') (Function.update s.consumers c (.loadReadIdx op) c')
      rw [Function.update_of_ne hcc]
      exact (h.consumers c').mono (List.prefix_refl _) le_rfl (hempty c' (Ne.symm hcc))
  · -- a consumer makes an access
    obtain ⟨hq, hcons, hevent, hnopush, hcap, hcache, hslots⟩ :=
      popStep_inv h.queue (h.consumers c) hk (hemptyNow c id)
    rw [hnopush, List.append_nil]
    have hgrow : R.length ≤ (R ++ e.pop).length := by
      rw [List.length_append]
      exact Nat.le_add_right _ _
    refine ⟨⟨hq, h.producer.mono hgrow hcap hcache hslots (hfull id), fun c' => ?_⟩,
      hevent.mono False.elim fun c' hc => ?_, hcap⟩
    · by_cases hcc : c' = c
      · subst hcc
        show ConsumerInv P _ (empty' c') (Function.update s.consumers c' k c')
        rw [Function.update_self]
        exact hcons
      · show ConsumerInv P _ (empty' c') (Function.update s.consumers c k c')
        rw [Function.update_of_ne hcc]
        exact (h.consumers c').mono (List.prefix_refl _) hgrow (hempty c' id)
    · obtain ⟨rfl, hnow⟩ := hc
      exact hnow

/-- A new queue. -/
theorem inside_init {capacity : ℕ} {slots : ℕ → α} {queue : SPMCQueue α}
    (h : createQueue capacity slots = some queue) :
    Inside [] [] full empty (Sys.init queue : Sys ι α) ∧ queue.capacity = capacity := by
  obtain ⟨hq, hcap⟩ := queueInv_createQueue h
  exact ⟨⟨hq, trivial, fun _ => trivial⟩, hcap⟩

/-- A thread in a call can make its next access. -/
theorem Inside.goes [DecidableEq ι] (h : Inside P R full empty s) :
    (s.producer ≠ .idle → (sysStep s .producer).isSome) ∧
      ∀ c spurious, s.consumers c ≠ .idle → (sysStep s (.consumer c spurious)).isSome := by
  refine ⟨fun hidle => ?_, fun c spurious hidle => ?_⟩
  · obtain ⟨p, hp⟩ := tryPush_isSome (ι := ι) s.queue hidle
    rw [sysStep, hp]
    rfl
  · obtain ⟨p, hp⟩ : ∃ p, popStep c spurious s.queue (s.consumers c) = some p :=
      popStep_isSome c spurious (h.consumers c) hidle
    rw [sysStep, hp]
    rfl

/-! ### One value at a time -/

/-- The consumer is in `try_pop`, if it is in a call. -/
def TryPop : Consumer α → Prop
  | .idle | .aborted => True
  | .loadReadIdx op | .loadWriteIdxCache op _ | .loadWriteIdx op _ | .storeWriteIdxCache op _ _ =>
    op = .tryPop
  | .readSlot op _ _ _ values => op = .tryPop ∧ values = []
  | .updateReadIdx op _ _ values => op = .tryPop ∧ ∃ value, values = [value]

/-- What an access in `try_pop` comes to: the call goes on, it pops one value, or it finds
none; or the assertion fails. -/
inductive Tried (c : ι) : Consumer α → Event ι α → Prop
  | on (k : Consumer α) (hk : TryPop k) (hidle : k ≠ .idle) : Tried c k .access
  | popped (value : α) (rval : ℕ) : Tried c .idle (.popped c .tryPop [value] rval)
  | empty : Tried c .idle (.popEmpty c .tryPop)
  | failed : Tried c .aborted (.assertFailed c)

theorem Tried.tryPop {c : ι} {k : Consumer α} {e : Event ι α} (h : Tried c k e) : TryPop k := by
  cases h with
  | on _ hk _ => exact hk
  | popped | empty | failed => trivial

/-- **One access of `try_pop`.** -/
theorem TryPop.step {queue queue' : SPMCQueue α} {c : ι} {spurious : Bool} {k k' : Consumer α}
    {e : Event ι α} (h : TryPop k) (hs : popStep c spurious queue k = some (queue', k', e)) :
    Tried c k' e := by
  cases k with
  | idle | aborted => cases hs
  | loadReadIdx op =>
    simp only [popStep, Option.some.injEq, Prod.mk.injEq] at hs
    obtain ⟨-, rfl, rfl⟩ := hs
    exact .on _ h (by simp)
  | loadWriteIdxCache op readIdx =>
    obtain rfl : op = .tryPop := h
    rw [popStep] at hs
    split at hs
    · simp only [Option.some.injEq, Prod.mk.injEq] at hs
      obtain ⟨-, rfl, rfl⟩ := hs
      exact .on _ rfl (by simp)
    · simp only [Option.some.injEq, Prod.mk.injEq] at hs
      obtain ⟨-, rfl, rfl⟩ := hs
      exact .on _ ⟨rfl, rfl⟩ (by simp [notEmpty])
  | loadWriteIdx op readIdx =>
    simp only [popStep, Option.some.injEq, Prod.mk.injEq] at hs
    obtain ⟨-, rfl, rfl⟩ := hs
    exact .on _ h (by simp)
  | storeWriteIdxCache op readIdx writeIdxCache =>
    obtain rfl : op = .tryPop := h
    rw [popStep] at hs
    split at hs
    · simp only [Option.some.injEq, Prod.mk.injEq] at hs
      obtain ⟨-, rfl, rfl⟩ := hs
      exact .empty
    · split at hs
      · simp only [Option.some.injEq, Prod.mk.injEq] at hs
        obtain ⟨-, rfl, rfl⟩ := hs
        exact .on _ ⟨rfl, rfl⟩ (by simp [notEmpty])
      · simp only [Option.some.injEq, Prod.mk.injEq] at hs
        obtain ⟨-, rfl, rfl⟩ := hs
        exact .failed
  | readSlot op readIdx newReadIdx i values =>
    obtain ⟨rfl, rfl⟩ := h
    simp only [popStep, Option.some.injEq, Prod.mk.injEq] at hs
    obtain ⟨-, rfl, rfl⟩ := hs
    exact .on _ ⟨rfl, _, rfl⟩ (by simp)
  | updateReadIdx op readIdx newReadIdx values =>
    obtain ⟨rfl, value, rfl⟩ := h
    rw [popStep] at hs
    split at hs
    · simp only [Option.some.injEq, Prod.mk.injEq] at hs
      obtain ⟨-, rfl, rfl⟩ := hs
      exact .popped value _
    · simp only [Option.some.injEq, Prod.mk.injEq] at hs
      obtain ⟨-, rfl, rfl⟩ := hs
      exact .on _ rfl (by simp)

/-- What an access in `try_push` comes to: the call goes on, it has pushed its value, or it
found the queue full. -/
inductive Pushed : Producer α → Event ι α → Prop
  | on (k : Producer α) (hidle : k ≠ .idle) : Pushed k .access
  | pushed (value : α) : Pushed .idle (.pushed value)
  | full : Pushed .idle .pushFull

/-- **One access of `try_push`.** -/
theorem tryPush_pushed {queue queue' : SPMCQueue α} {k k' : Producer α} {e : Event ι α}
    (hs : tryPush queue k = some (queue', k', e)) : Pushed k' e := by
  cases k with
  | idle => cases hs
  | loadWriteIdx | loadReadIdx | storeReadIdxCache | writeSlot =>
    simp only [tryPush, Option.some.injEq, Prod.mk.injEq] at hs
    obtain ⟨-, rfl, rfl⟩ := hs
    exact .on _ (by simp)
  | storeWriteIdx =>
    simp only [tryPush, Option.some.injEq, Prod.mk.injEq] at hs
    obtain ⟨-, rfl, rfl⟩ := hs
    exact .pushed _
  | checkSize =>
    simp only [tryPush] at hs
    split at hs
    · simp only [Option.some.injEq, Prod.mk.injEq] at hs
      obtain ⟨-, rfl, rfl⟩ := hs
      exact .on _ (by simp)
    · simp only [Option.some.injEq, Prod.mk.injEq] at hs
      obtain ⟨-, rfl, rfl⟩ := hs
      exact .on _ (by simp)
  | recheckSize =>
    simp only [tryPush] at hs
    split at hs
    · simp only [Option.some.injEq, Prod.mk.injEq] at hs
      obtain ⟨-, rfl, rfl⟩ := hs
      exact .on _ (by simp)
    · simp only [Option.some.injEq, Prod.mk.injEq] at hs
      obtain ⟨-, rfl, rfl⟩ := hs
      exact .full

end Spmc
