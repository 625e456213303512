/-
The clock of the worker of `RtpServer` (`rtp_server_worker` in `python/RtpServer_mod.c`).

`RtpServer` leaves open at which iterations the tick has come.  Here the worker has its
variable `next_tick_ns`, and reads the clock.

* `pacedStep_worker` — such a worker is one of `RtpServer`;
* `afterTick_eq` — the loop that catches up;
* `pacedRun_pace` — in any stretch of a run in which there are channels, `poll_inputs` and
  `drain_outputs` run at the first reading and at the first one in each later interval of
  `tick_ns`, and the worker waits up to the end of the interval otherwise.
-/
import LibRtpSynth.RtpServerPoll
import LibRtpSynth.TickGrid

open CWords Runs TickGrid

namespace RtpServer

/-! ### The interval -/

/-- `tick_ns`. -/
structure TickNs where
  ns : ℕ
  pos : 0 < ns
  le : ns ≤ 1000000000

/-- The loop that raises `next_tick_ns` above `now_ns`.  Each round raises it by one at
least, and `rounds` is large enough. -/
def catchUp (tickNs nowNs : ℕ) : ℕ → ℕ → ℕ
  | 0, nextTickNs => nextTickNs
  | rounds + 1, nextTickNs =>
    if nextTickNs ≤ nowNs then
      if 2 ^ 64 - 1 - nextTickNs < tickNs then nowNs
      else catchUp tickNs nowNs rounds (add64 nextTickNs tickNs)
    else nextTickNs

/-- `next_tick_ns` at the end of an iteration that came to it. -/
def afterTick (tickNs nowNs nextTickNs : ℕ) : ℕ :=
  if 2 ^ 64 - 1 - nextTickNs < tickNs then nowNs
  else catchUp tickNs nowNs (nowNs + 1) (add64 nextTickNs tickNs)

/-! ### The worker -/

/-- The worker with its variable. -/
structure PacedWorker where
  worker : Worker
  nextTickNs : ℕ
  deriving DecidableEq, Repr

/-- What the worker meets; the clock shows `nowNs`, if it is read. -/
inductive PacedEvent
  | command (cmd : RtpServerCmd) (addr : Option ℕ)
  | iteration (pfdsAddr indexAddr : Option ℕ) (nowNs : ℕ) (ready : List ℕ)
  deriving DecidableEq, Repr

/-- How an iteration goes. -/
inductive Outcome
  /-- There was none. -/
  | command
  /-- The worker leaves its loop. -/
  | left
  /-- The arrays for `poll` could not be made longer. -/
  | failed
  /-- There is nothing to poll, and it waits for a command. -/
  | idle
  /-- The clock was read: it polls and drains, or waits for a command or the deadline. -/
  | clock (moment : Moment)
  deriving DecidableEq, Repr

/-- One step of the worker. -/
def pacedStep (tick : TickNs) (w : PacedWorker) :
    PacedEvent → Option (PacedWorker × WorkerOut × Outcome)
  | .command cmd addr =>
    (workerStep w.worker (.command cmd addr)).map fun p => ({ w with worker := p.1 }, p.2, .command)
  | .iteration pfdsAddr indexAddr nowNs ready =>
    w.worker.shutdownSeen.bind fun seen =>
      if seen then some (⟨⟨w.worker.self, none⟩, w.nextTickNs⟩, .quiet, .left)
      else
        (refreshPollCache w.worker.self pfdsAddr indexAddr).bind fun p =>
          let worker : Worker := ⟨p.1, some false⟩
          if !p.2 then
            if p.1.pollfdsLen = 0 then some (⟨worker, 0⟩, .quiet, .idle)
            else some (⟨worker, w.nextTickNs⟩, .quiet, .failed)
          else if p.1.pollfdsLen = 0 then some (⟨worker, 0⟩, .quiet, .idle)
          else
            let nextTickNs := if w.nextTickNs = 0 then nowNs else w.nextTickNs
            if nowNs < nextTickNs then
              some (⟨worker, nextTickNs⟩, .quiet, .clock (.wait nowNs nextTickNs))
            else
              (pollInputs p.1 ready).map fun q =>
                (⟨worker, afterTick tick.ns nowNs nextTickNs⟩, ⟨0, [], q.1, q.2⟩,
                  .clock (.tick nowNs))

/-- The clock in an iteration, if it was read. -/
def Outcome.moment : Outcome → Option Moment
  | .clock moment => some moment
  | _ => none

/-- What the readings of the clock led to. -/
def moments (outcomes : List Outcome) : List Moment := outcomes.filterMap Outcome.moment

/-- The readings. -/
def readings (outcomes : List Outcome) : List ℕ := (moments outcomes).map Moment.reading

/-! ### The worker without its clock -/

/-- The iteration polls. -/
def Outcome.ticks : Outcome → Bool
  | .clock (.tick _) => true
  | _ => false

/-- The event for `workerStep`. -/
def PacedEvent.plain (outcome : Outcome) : PacedEvent → WorkerEvent
  | .command cmd addr => .command cmd addr
  | .iteration pfdsAddr indexAddr _ ready => .iteration pfdsAddr indexAddr outcome.ticks ready

section steps

variable {tick : TickNs} {w w' : PacedWorker} {event : PacedEvent} {out : WorkerOut}
  {outcome : Outcome}

/-- **The worker of `RtpServer`**, with the ticks that the clock gives. -/
theorem pacedStep_worker (h : pacedStep tick w event = some (w', out, outcome)) :
    workerStep w.worker (event.plain outcome) = some (w'.worker, out) := by
  cases event with
  | command cmd addr =>
    obtain ⟨p, hp, heq⟩ := Option.map_eq_some_iff.mp h
    simp only [Prod.mk.injEq] at heq
    obtain ⟨rfl, rfl, -⟩ := heq
    exact hp
  | iteration pfdsAddr indexAddr nowNs ready =>
    obtain ⟨seen, hseen, h⟩ := Option.bind_eq_some_iff.mp h
    rw [PacedEvent.plain, workerStep, hseen, Option.bind_some]
    cases seen with
    | true =>
      simp only [if_true, Option.some.injEq, Prod.mk.injEq] at h
      obtain ⟨rfl, rfl, -⟩ := h
      rfl
    | false =>
      obtain ⟨⟨self, ok⟩, hp, h⟩ := Option.bind_eq_some_iff.mp h
      rw [if_neg Bool.false_ne_true, iteration, hp, Option.bind_some]
      dsimp only at h ⊢
      generalize (if w.nextTickNs = 0 then nowNs else w.nextTickNs) = nextTickNs at h
      split_ifs at h with hok hlen hlen hwait
      · simp only [Option.some.injEq, Prod.mk.injEq] at h
        obtain ⟨rfl, rfl, rfl⟩ := h
        rw [if_pos (.inl hok)]
        rfl
      · simp only [Option.some.injEq, Prod.mk.injEq] at h
        obtain ⟨rfl, rfl, rfl⟩ := h
        rw [if_pos (.inl hok)]
        rfl
      · simp only [Option.some.injEq, Prod.mk.injEq] at h
        obtain ⟨rfl, rfl, rfl⟩ := h
        rw [if_pos (.inr (.inl hlen))]
        rfl
      · simp only [Option.some.injEq, Prod.mk.injEq] at h
        obtain ⟨rfl, rfl, rfl⟩ := h
        rw [if_pos (.inr (.inr rfl))]
        rfl
      · obtain ⟨q, hq, heq⟩ := Option.map_eq_some_iff.mp h
        simp only [Prod.mk.injEq] at heq
        obtain ⟨rfl, rfl, rfl⟩ := heq
        rw [if_neg (by simp [hok, hlen, Outcome.ticks]), hq]
        rfl

/-- What a step does with `next_tick_ns`. -/
theorem pacedStep_cases (h : pacedStep tick w event = some (w', out, outcome)) :
    (outcome.moment = none ∧ outcome ≠ .idle ∧ w'.nextTickNs = w.nextTickNs) ∨
    (outcome = .idle ∧ w'.nextTickNs = 0) ∨
    ∃ nowNs nextTickNs, nextTickNs = (if w.nextTickNs = 0 then nowNs else w.nextTickNs) ∧
      (nowNs < nextTickNs ∧ outcome = .clock (.wait nowNs nextTickNs) ∧ w'.nextTickNs = nextTickNs ∨
        nextTickNs ≤ nowNs ∧ outcome = .clock (.tick nowNs) ∧
          w'.nextTickNs = afterTick tick.ns nowNs nextTickNs) := by
  cases event with
  | command cmd addr =>
    obtain ⟨p, -, heq⟩ := Option.map_eq_some_iff.mp h
    simp only [Prod.mk.injEq] at heq
    obtain ⟨rfl, -, rfl⟩ := heq
    exact .inl ⟨rfl, nofun, rfl⟩
  | iteration pfdsAddr indexAddr nowNs ready =>
    obtain ⟨seen, -, h⟩ := Option.bind_eq_some_iff.mp h
    cases seen with
    | true =>
      simp only [if_true, Option.some.injEq, Prod.mk.injEq] at h
      obtain ⟨rfl, -, rfl⟩ := h
      exact .inl ⟨rfl, nofun, rfl⟩
    | false =>
      obtain ⟨⟨self, ok⟩, -, h⟩ := Option.bind_eq_some_iff.mp h
      dsimp only at h
      generalize hnext : (if w.nextTickNs = 0 then nowNs else w.nextTickNs) = nextTickNs at h
      split_ifs at h with hok hlen hlen hwait
      · simp only [Option.some.injEq, Prod.mk.injEq] at h
        obtain ⟨rfl, -, rfl⟩ := h
        exact .inr (.inl ⟨rfl, rfl⟩)
      · simp only [Option.some.injEq, Prod.mk.injEq] at h
        obtain ⟨rfl, -, rfl⟩ := h
        exact .inl ⟨rfl, nofun, rfl⟩
      · simp only [Option.some.injEq, Prod.mk.injEq] at h
        obtain ⟨rfl, -, rfl⟩ := h
        exact .inr (.inl ⟨rfl, rfl⟩)
      · simp only [Option.some.injEq, Prod.mk.injEq] at h
        obtain ⟨rfl, -, rfl⟩ := h
        exact .inr (.inr ⟨nowNs, nextTickNs, hnext.symm, .inl ⟨hwait, rfl, rfl⟩⟩)
      · obtain ⟨q, -, heq⟩ := Option.map_eq_some_iff.mp h
        simp only [Prod.mk.injEq] at heq
        obtain ⟨rfl, -, rfl⟩ := heq
        exact .inr (.inr ⟨nowNs, nextTickNs, hnext.symm, .inr ⟨Nat.le_of_not_lt hwait, rfl, rfl⟩⟩)

end steps

/-! ### The next deadline -/

section deadline

variable {start tickNs nowNs nextTickNs rounds j : ℕ}

/-- The loop comes to its end. -/
theorem catchUp_ge (hpos : 0 < tickNs) (hrounds : nowNs < rounds + nextTickNs) :
    nowNs ≤ catchUp tickNs nowNs rounds nextTickNs := by
  induction rounds generalizing nextTickNs with
  | zero =>
    rw [catchUp]
    omega
  | succ rounds ih =>
    rw [catchUp]
    split_ifs with hle hover
    · exact le_rfl
    · refine ih ?_
      rw [add64_of_lt (by omega)]
      omega
    · exact Nat.le_of_not_le hle

/-- The loop raises a deadline on the grid to the first one behind `now_ns`. -/
theorem catchUp_eq (hpos : 0 < tickNs) (hclock : nowNs + tickNs < 2 ^ 64) (hstart : start ≤ nowNs)
    (hj : j ≤ cell start tickNs nowNs + 1) (hrounds : cell start tickNs nowNs + 1 < rounds + j) :
    catchUp tickNs nowNs rounds (start + j * tickNs) = start + (cell start tickNs nowNs + 1) * tickNs := by
  induction rounds generalizing j with
  | zero => omega
  | succ rounds ih =>
    rw [catchUp]
    by_cases hle : start + j * tickNs ≤ nowNs
    · have hbehind : j ≤ cell start tickNs nowNs := by
        rw [cell, Nat.le_div_iff_mul_le hpos]
        omega
      rw [if_pos hle, if_neg (by omega), add64_of_lt (by omega)]
      have hnext : start + j * tickNs + tickNs = start + (j + 1) * tickNs := by ring
      rw [hnext]
      exact ih (Nat.succ_le_succ hbehind) (by omega)
    · have hlast : j = cell start tickNs nowNs + 1 := by
        refine le_antisymm hj (Nat.lt_of_not_le fun hcell => hle ?_)
        exact (Nat.add_le_add_left (Nat.mul_le_mul_right _ hcell) _).trans (cell_begin_le tickNs hstart)
      rw [if_neg hle, hlast]

/-- **The next deadline** is the first one on the grid behind `now_ns`. -/
theorem afterTick_eq (hpos : 0 < tickNs) (hclock : nowNs + tickNs < 2 ^ 64)
    (hle : start + j * tickNs ≤ nowNs) :
    afterTick tickNs nowNs (start + j * tickNs) = start + (cell start tickNs nowNs + 1) * tickNs := by
  have hbehind : j ≤ cell start tickNs nowNs := by
    rw [cell, Nat.le_div_iff_mul_le hpos]
    omega
  have hcell : cell start tickNs nowNs ≤ nowNs := (Nat.div_le_self _ _).trans (Nat.sub_le _ _)
  have hnext : start + j * tickNs + tickNs = start + (j + 1) * tickNs := by ring
  rw [afterTick, if_neg (by omega), add64_of_lt (by omega), hnext]
  exact catchUp_eq hpos hclock (by omega) (Nat.succ_le_succ hbehind) (by omega)

end deadline

/-! ### Runs -/

section runs

variable {tick : TickNs} {w w' : PacedWorker}

/-- **A run of the worker of `RtpServer`.** -/
theorem pacedRun_worker : ∀ {events : List PacedEvent} {w w' : PacedWorker}
    {outs : List (WorkerOut × Outcome)}, run (pacedStep tick) w events = some (w', outs) →
    run workerStep w.worker (List.zipWith (fun out event => event.plain out.2) outs events) =
      some (w'.worker, outs.map Prod.fst) := by
  intro events
  induction events with
  | nil =>
    intro w w' outs h
    simp only [run_nil, Option.some.injEq, Prod.mk.injEq] at h
    obtain ⟨rfl, rfl⟩ := h
    rfl
  | cons event events ih =>
    intro w w' outs h
    obtain ⟨u, out, outs', hu, hrest, rfl⟩ := run_cons_eq_some.mp h
    rw [List.zipWith_cons_cons, run_cons_eq_some]
    exact ⟨u.worker, out.1, outs'.map Prod.fst, pacedStep_worker hu, ih hrest, rfl⟩

theorem moments_cons (outcome : Outcome) (outcomes : List Outcome) :
    moments (outcome :: outcomes) = outcome.moment.toList ++ moments outcomes := by
  rw [moments, List.filterMap_cons]
  cases outcome.moment <;> rfl

theorem readings_cons (outcome : Outcome) (outcomes : List Outcome) :
    readings (outcome :: outcomes) = outcome.moment.toList.map Moment.reading ++ readings outcomes := by
  rw [readings, moments_cons, List.map_append, readings]

/-- What the next readings lead to, for this `next_tick_ns`. -/
def Follows (tickNs nextTickNs : ℕ) (f : List ℕ → List Moment) : Prop :=
  nextTickNs = 0 ∧ f = pace tickNs ∨
    ∃ start last, nextTickNs = start + (last + 1) * tickNs ∧ f = paceFrom start tickNs last

theorem Follows.nil {tickNs nextTickNs : ℕ} {f : List ℕ → List Moment}
    (h : Follows tickNs nextTickNs f) : f [] = [] := by
  rcases h with ⟨-, rfl⟩ | ⟨start, last, -, rfl⟩ <;> rfl

/-- **One step.** -/
theorem Follows.step {f : List ℕ → List Moment} {event : PacedEvent} {out : WorkerOut}
    {outcome : Outcome} (h : Follows tick.ns w.nextTickNs f)
    (hs : pacedStep tick w event = some (w', out, outcome)) (hbusy : outcome ≠ .idle)
    (hclock : ∀ moment ∈ outcome.moment, moment.reading + 1000000000 < 2 ^ 64) :
    ∃ f', Follows tick.ns w'.nextTickNs f' ∧ ∀ rest,
      f (outcome.moment.toList.map Moment.reading ++ rest) = outcome.moment.toList ++ f' rest := by
  rcases pacedStep_cases hs with ⟨hnone, -, hsame⟩ | ⟨hidle, -⟩ |
    ⟨nowNs, nextTickNs, hdeadline, hmoment⟩
  · -- the clock was not read
    refine ⟨f, hsame ▸ h, fun rest => ?_⟩
    rw [hnone]
    rfl
  · exact absurd hidle hbusy
  · rcases h with ⟨hzero, rfl⟩ | ⟨start, last, hnext, rfl⟩
    · -- the first reading starts the grid
      rw [if_pos hzero] at hdeadline
      subst hdeadline
      rcases hmoment with ⟨hwait, -, -⟩ | ⟨-, rfl, hafter⟩
      · exact absurd hwait (lt_irrefl _)
      · have hbound : nextTickNs + tick.ns < 2 ^ 64 :=
          (Nat.add_le_add_left tick.le nextTickNs).trans_lt (hclock _ rfl)
        have hstart : nextTickNs + 0 * tick.ns ≤ nextTickNs := by omega
        have hgrid := afterTick_eq tick.pos hbound hstart
        rw [Nat.zero_mul, Nat.add_zero, cell_self] at hgrid
        exact ⟨paceFrom nextTickNs tick.ns 0, .inr ⟨nextTickNs, 0, hafter.trans hgrid, rfl⟩, fun _ => rfl⟩
    · have hpos : 0 < (last + 1) * tick.ns := Nat.mul_pos (Nat.succ_pos last) tick.pos
      rw [if_neg (by omega), hnext] at hdeadline
      subst hdeadline
      rcases hmoment with ⟨hwait, rfl, hsame⟩ | ⟨htick, rfl, hafter⟩
      · have hbefore : ¬ last < cell start tick.ns nowNs := fun hlt =>
          absurd ((lt_cell_iff tick.pos).mp hlt) (Nat.not_le_of_lt hwait)
        exact ⟨paceFrom start tick.ns last, .inr ⟨start, last, hsame, rfl⟩, fun _ => if_neg hbefore⟩
      · have hbound : nowNs + tick.ns < 2 ^ 64 :=
          (Nat.add_le_add_left tick.le nowNs).trans_lt (hclock _ rfl)
        have hgrid := afterTick_eq tick.pos hbound htick
        exact ⟨_, .inr ⟨start, _, hafter.trans hgrid, rfl⟩, fun _ =>
          if_pos ((lt_cell_iff tick.pos).mpr htick)⟩

/-- **A run.** -/
theorem Follows.run : ∀ {events : List PacedEvent} {w w' : PacedWorker}
    {f : List ℕ → List Moment} {outs : List (WorkerOut × Outcome)}, Follows tick.ns w.nextTickNs f →
    run (pacedStep tick) w events = some (w', outs) → .idle ∉ outs.map Prod.snd →
    (∀ now ∈ readings (outs.map Prod.snd), now + 1000000000 < 2 ^ 64) →
    moments (outs.map Prod.snd) = f (readings (outs.map Prod.snd)) := by
  intro events
  induction events with
  | nil =>
    intro w w' f outs hf h _ _
    simp only [run_nil, Option.some.injEq, Prod.mk.injEq] at h
    obtain ⟨-, rfl⟩ := h
    exact hf.nil.symm
  | cons event events ih =>
    intro w w' f outs hf h hbusy hclock
    obtain ⟨u, ⟨out, outcome⟩, outs', hu, hrest, rfl⟩ := run_cons_eq_some.mp h
    rw [List.map_cons] at hbusy hclock ⊢
    rw [readings_cons] at hclock ⊢
    obtain ⟨hnow, hlater⟩ := List.ne_and_not_mem_of_not_mem_cons hbusy
    obtain ⟨f', hf', heq⟩ := hf.step hu (Ne.symm hnow) fun moment hmoment =>
      hclock _ (List.mem_append_left _ (List.mem_map_of_mem (Option.mem_toList.mpr hmoment)))
    rw [moments_cons, heq, ih hf' hrest hlater fun now hmem => hclock now (List.mem_append_right _ hmem)]

end runs

end RtpServer
