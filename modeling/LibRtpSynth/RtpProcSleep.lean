/-
The bottom of the loop of `rtp_proc_worker` (`python/RtpProc_mod.c`): how long the worker
of `RtpProc` sleeps.

`RtpProc` leaves open what ends a wait.  Here there are the queue of the commands and two
clocks, and `wait_for_commands` returns when there is a command or its deadline has come.
The schedule is in the time of `CLOCK_MONOTONIC`, and the deadline in that of the clock of
`cmd_cv`, which is `CLOCK_REALTIME` where the other one is not available.

* `timedStep_worker` — such a worker is one of `RtpProc`;
* `timedRun_sleeps` — it sleeps without a deadline when nothing is scheduled, and otherwise
  up to the earliest time of the schedule;
* `timedRun_busy` — it does not spin: in any stretch of a run there are no more passes of
  its loop than commands and due channels, and two;
* `timedRun_starves` — it processes no command while the callbacks ask to be called at times
  that have come.
-/
import LibRtpSynth.RtpProcTrace

open Linked Runs

namespace RtpProc

/-! ### The clocks -/

/-- `cmd_cv_clock`. -/
inductive ClockId
  | realtime
  | monotonic
  deriving DecidableEq, Repr

/-- What the clocks show. -/
structure Clocks where
  monotonic : ℕ
  realtime : ℕ
  deriving DecidableEq, Repr

/-- `now_ns_for_clock`. -/
def Clocks.read (c : Clocks) : ClockId → ℕ
  | .realtime => c.realtime
  | .monotonic => c.monotonic

/-- `monotonic_deadline_to_cmd_clock`, where the clock of `cmd_cv` shows `cmdNow`. -/
def monotonicDeadlineToCmdClock (clock : ClockId) (cmdNow monotonicDeadline monotonicNow : ℕ) : ℕ :=
  match clock with
  | .monotonic => if monotonicDeadline ≤ monotonicNow then monotonicNow else monotonicDeadline
  | .realtime =>
    if monotonicDeadline ≤ monotonicNow then cmdNow
    else
      let waitNs := monotonicDeadline - monotonicNow
      if 2 ^ 64 - 1 - cmdNow < waitNs then 2 ^ 64 - 1 else cmdNow + waitNs

/-! ### The worker -/

/-- Where the worker is between its loop over the due channels and the next pass. -/
inductive Pause
  /-- It has not come to the clock, or it is elsewhere. -/
  | no
  /-- The clock was read, and no channel is due. -/
  | looked (nowNs : ℕ)
  /-- It is in `wait_for_commands`, with `wait_until_ns` unless it waits forever. -/
  | waits (waitUntilNs : Option ℕ)
  deriving DecidableEq, Repr

/-- The worker, the list from `cmd_head`, and the commands that `process_commands` has
detached and not processed yet. -/
structure TimedProc where
  worker : Worker
  queue : List ProcCmd
  batch : Option (List ProcCmd)
  pause : Pause
  clocks : Clocks
  deriving DecidableEq, Repr

/-- The worker thread when it starts. -/
def timedStart (clocks : Clocks) : TimedProc := ⟨workerStart, [], none, .no, clocks⟩

/-- Time passes; another thread sends a command; or the worker goes on.  After the callback
of a due channel the clocks show `after`. -/
inductive TimedEvent
  | elapse (after : Clocks)
  | push (cmd : ProcCmd)
  | detach
  | command (addr : Option ℕ) (result : CbResult)
  | batchEnd
  | dueRound (result : CbResult) (after : Clocks)
  | look
  | arm
  | wake
  deriving DecidableEq, Repr

/-- What has been done: a pass of the loop of `rtp_proc_worker` was begun, a command
processed, or a due channel taken from the schedule. -/
inductive Did
  | nothing
  | pass
  | command (out : CmdOut)
  | due (out : CmdOut)
  deriving DecidableEq, Repr

/-- `sched_head->...`. -/
def PyRtpProc.head (self : PyRtpProc) : Option ProcChannelState := self.schedHead.bind self.deref

/-- The worker is back at the top of its loop. -/
def TimedProc.resume (s : TimedProc) : Option (TimedProc × Did) :=
  (workerStep s.worker .woken).map fun p => ({ s with worker := p.1, pause := .no }, .nothing)

/-- One step. -/
def timedStep (clock : ClockId) (s : TimedProc) : TimedEvent → Option (TimedProc × Did)
  | .elapse after =>
    if s.clocks.monotonic ≤ after.monotonic then some ({ s with clocks := after }, .nothing) else none
  | .push cmd => some ({ s with queue := s.queue ++ [cmd] }, .nothing)
  | .detach =>
    match s.worker.phase, s.batch with
    | .commands false, none => some ({ s with queue := [], batch := some s.queue }, .pass)
    | _, _ => none
  | .command addr result =>
    match s.batch with
    | some (cmd :: batch) =>
      (workerStep s.worker (.command cmd ⟨addr, s.clocks.monotonic, result⟩)).map fun p =>
        ({ s with worker := p.1, batch := some batch }, .command p.2)
    | _ => none
  | .batchEnd =>
    match s.batch with
    | some [] =>
      (workerStep s.worker (.batchEnd s.clocks.monotonic)).map fun p =>
        ({ s with worker := p.1, batch := none }, .nothing)
    | _ => none
  | .dueRound result after =>
    if s.clocks.monotonic ≤ after.monotonic then
      (workerStep s.worker (.dueRound result after.monotonic)).map fun p =>
        ({ s with worker := p.1, clocks := after },
          if p.1.phase = .wait then .nothing else .due p.2)
    else none
  | .look =>
    match s.worker.phase, s.pause with
    | .wait, .no =>
      if s.worker.self.schedHead = none then some ({ s with pause := .waits none }, .nothing)
      else
        s.worker.self.head.bind fun c =>
          if c.nextRunNs ≤ s.clocks.monotonic then s.resume
          else some ({ s with pause := .looked s.clocks.monotonic }, .nothing)
    | _, _ => none
  | .arm =>
    match s.pause with
    | .looked nowNs =>
      s.worker.self.head.map fun c =>
        ({ s with
            pause := .waits (some
              (monotonicDeadlineToCmdClock clock (s.clocks.read clock) c.nextRunNs nowNs)) },
          .nothing)
    | _ => none
  | .wake =>
    match s.pause with
    | .waits waitUntilNs =>
      if s.queue ≠ [] ∨ waitUntilNs.any fun t => t ≤ s.clocks.read clock then s.resume else none
    | _ => none

/-! ### Steps -/

/-- **What a step does.** -/
inductive TimedMove (clock : ClockId) (s : TimedProc) : TimedEvent → TimedProc → Did → Prop
  | elapse {after : Clocks} (hafter : s.clocks.monotonic ≤ after.monotonic) :
      TimedMove clock s (.elapse after) { s with clocks := after } .nothing
  | push {cmd : ProcCmd} :
      TimedMove clock s (.push cmd) { s with queue := s.queue ++ [cmd] } .nothing
  | detach (hphase : s.worker.phase = .commands false) (hbatch : s.batch = none) :
      TimedMove clock s .detach { s with queue := [], batch := some s.queue } .pass
  | command {addr : Option ℕ} {result : CbResult} {cmd : ProcCmd} {batch : List ProcCmd}
      {worker : Worker} {out : CmdOut} (hbatch : s.batch = some (cmd :: batch))
      (hworker : workerStep s.worker (.command cmd ⟨addr, s.clocks.monotonic, result⟩) =
        some (worker, out)) :
      TimedMove clock s (.command addr result) { s with worker := worker, batch := some batch }
        (.command out)
  | batchEnd {worker : Worker} {out : CmdOut} (hbatch : s.batch = some [])
      (hworker : workerStep s.worker (.batchEnd s.clocks.monotonic) = some (worker, out)) :
      TimedMove clock s .batchEnd { s with worker := worker, batch := none } .nothing
  | dueRound {result : CbResult} {after : Clocks} {worker : Worker} {out : CmdOut}
      (hafter : s.clocks.monotonic ≤ after.monotonic)
      (hworker : workerStep s.worker (.dueRound result after.monotonic) = some (worker, out)) :
      TimedMove clock s (.dueRound result after) { s with worker := worker, clocks := after }
        (if worker.phase = .wait then .nothing else .due out)
  | lookForever (hphase : s.worker.phase = .wait) (hpause : s.pause = .no)
      (hhead : s.worker.self.schedHead = none) :
      TimedMove clock s .look { s with pause := .waits none } .nothing
  | lookDue {c : ProcChannelState} (hpause : s.pause = .no)
      (hworker : workerStep s.worker .woken =
        some (⟨s.worker.self, .commands false⟩, ⟨0, none, none⟩))
      (hhead : s.worker.self.head = some c) (hdue : c.nextRunNs ≤ s.clocks.monotonic) :
      TimedMove clock s .look
        { s with worker := ⟨s.worker.self, .commands false⟩, pause := .no } .nothing
  | look {c : ProcChannelState} (hphase : s.worker.phase = .wait) (hpause : s.pause = .no)
      (hhead : s.worker.self.head = some c) (hlater : s.clocks.monotonic < c.nextRunNs) :
      TimedMove clock s .look { s with pause := .looked s.clocks.monotonic } .nothing
  | arm {nowNs : ℕ} {c : ProcChannelState} (hpause : s.pause = .looked nowNs)
      (hhead : s.worker.self.head = some c) :
      TimedMove clock s .arm
        { s with
          pause := .waits (some
            (monotonicDeadlineToCmdClock clock (s.clocks.read clock) c.nextRunNs nowNs)) } .nothing
  | wake {waitUntilNs : Option ℕ} (hpause : s.pause = .waits waitUntilNs)
      (hworker : workerStep s.worker .woken =
        some (⟨s.worker.self, .commands false⟩, ⟨0, none, none⟩))
      (hwhy : s.queue ≠ [] ∨ ∃ t ∈ waitUntilNs, t ≤ s.clocks.read clock) :
      TimedMove clock s .wake
        { s with worker := ⟨s.worker.self, .commands false⟩, pause := .no } .nothing

section steps

variable {clock : ClockId} {s s' : TimedProc} {event : TimedEvent} {did : Did}

/-- The end of a wait. -/
theorem woken_spec {w w' : Worker} {out : CmdOut} (h : workerStep w .woken = some (w', out)) :
    w.phase = .wait ∧ w' = ⟨w.self, .commands false⟩ ∧ out = ⟨0, none, none⟩ := by
  obtain ⟨self, phase⟩ := w
  cases phase with
  | wait =>
    simp only [workerStep] at h
    split at h
    · simp only [Option.some.injEq, Prod.mk.injEq] at h
      exact ⟨rfl, h.1.symm, h.2.symm⟩
    · obtain ⟨c, -, heq⟩ := Option.map_eq_some_iff.mp h
      simp only [Prod.mk.injEq] at heq
      exact ⟨rfl, heq.1.symm, heq.2.symm⟩
  | _ => simp [workerStep] at h

theorem resume_spec (h : s.resume = some (s', did)) :
    workerStep s.worker .woken = some (⟨s.worker.self, .commands false⟩, ⟨0, none, none⟩) ∧
      s' = { s with worker := ⟨s.worker.self, .commands false⟩, pause := .no } ∧
      did = .nothing := by
  obtain ⟨⟨w, out⟩, hw, heq⟩ := Option.map_eq_some_iff.mp h
  obtain ⟨-, rfl, rfl⟩ := woken_spec hw
  simp only [Prod.mk.injEq] at heq
  exact ⟨hw, heq.1.symm, heq.2.symm⟩

theorem timedStep_cases (h : timedStep clock s event = some (s', did)) :
    TimedMove clock s event s' did := by
  cases event with
  | elapse after =>
    simp only [timedStep] at h
    split_ifs at h with hafter
    cases h
    exact .elapse hafter
  | push cmd =>
    cases h
    exact .push
  | detach =>
    simp only [timedStep] at h
    split at h
    · next hphase hbatch =>
      cases h
      exact .detach hphase hbatch
    · cases h
  | command addr result =>
    simp only [timedStep] at h
    split at h
    · next cmd batch hbatch =>
      obtain ⟨p, hp, heq⟩ := Option.map_eq_some_iff.mp h
      cases heq
      exact .command hbatch hp
    · cases h
  | batchEnd =>
    simp only [timedStep] at h
    split at h
    · next hbatch =>
      obtain ⟨p, hp, heq⟩ := Option.map_eq_some_iff.mp h
      cases heq
      exact .batchEnd hbatch hp
    · cases h
  | dueRound result after =>
    simp only [timedStep] at h
    split_ifs at h with hafter
    obtain ⟨p, hp, heq⟩ := Option.map_eq_some_iff.mp h
    cases heq
    exact .dueRound hafter hp
  | look =>
    simp only [timedStep] at h
    split at h
    · next hphase hpause =>
      split_ifs at h with hnone
      · cases h
        exact .lookForever hphase hpause hnone
      · obtain ⟨c, hc, h⟩ := Option.bind_eq_some_iff.mp h
        split_ifs at h with hdue
        · obtain ⟨hworker, rfl, rfl⟩ := resume_spec h
          exact .lookDue hpause hworker hc hdue
        · cases h
          exact .look hphase hpause hc (Nat.lt_of_not_le hdue)
    · cases h
  | arm =>
    simp only [timedStep] at h
    split at h
    · next nowNs hpause =>
      obtain ⟨c, hc, heq⟩ := Option.map_eq_some_iff.mp h
      cases heq
      exact .arm hpause hc
    · cases h
  | wake =>
    simp only [timedStep] at h
    split at h
    · next waitUntilNs hpause =>
      split_ifs at h with hwhy
      obtain ⟨hworker, rfl, rfl⟩ := resume_spec h
      refine .wake hpause hworker (hwhy.imp id fun hany => ?_)
      cases waitUntilNs with
      | none => cases hany
      | some t => exact ⟨t, rfl, of_decide_eq_true hany⟩
    · cases h

/-! ### The steps of `RtpProc` -/

/-- The end of a batch. -/
theorem batchEnd_spec {w w' : Worker} {nowNs : ℕ} {out : CmdOut}
    (h : workerStep w (.batchEnd nowNs) = some (w', out)) :
    out.invoked = none ∧
      (w.phase = .commands false ∧ w' = ⟨w.self, .due nowNs⟩ ∨
        w.phase = .commands true ∧ w'.phase = .exited) := by
  obtain ⟨self, phase⟩ := w
  cases phase with
  | commands seen =>
    cases seen with
    | false =>
      simp only [workerStep, Option.some.injEq, Prod.mk.injEq] at h
      obtain ⟨rfl, rfl⟩ := h
      exact ⟨rfl, .inl ⟨rfl, rfl⟩⟩
    | true =>
      obtain ⟨self', -, heq⟩ := Option.map_eq_some_iff.mp h
      simp only [Prod.mk.injEq] at heq
      obtain ⟨rfl, rfl⟩ := heq
      exact ⟨rfl, .inr ⟨rfl, rfl⟩⟩
  | _ => simp [workerStep] at h

theorem command_phase {w w' : Worker} {cmd : ProcCmd} {env : CmdEnv} {out : CmdOut}
    (h : workerStep w (.command cmd env) = some (w', out)) :
    (∃ seen, w.phase = .commands seen) ∧ ∃ seen, w'.phase = .commands seen := by
  obtain ⟨self, phase⟩ := w
  cases phase with
  | commands seen =>
    obtain ⟨p, -, heq⟩ := Option.map_eq_some_iff.mp h
    simp only [Prod.mk.injEq] at heq
    obtain ⟨rfl, -⟩ := heq
    exact ⟨⟨seen, rfl⟩, _, rfl⟩
  | _ => simp [workerStep] at h

/-- The first channel is not due. -/
theorem popDueChannel_none {self self' : PyRtpProc} {nowNs : ℕ}
    (h : popDueChannel self nowNs = some (self', none)) :
    self' = self ∧ ∀ c ∈ self.head, nowNs < c.nextRunNs := by
  rw [popDueChannel] at h
  rw [PyRtpProc.head]
  cases hhead : self.schedHead with
  | none =>
    rw [hhead] at h
    cases h
    exact ⟨rfl, nofun⟩
  | some p =>
    rw [hhead] at h
    obtain ⟨c, hc, h⟩ := Option.bind_eq_some_iff.mp h
    rw [Option.bind_some, hc]
    by_cases hlater : c.nextRunNs > nowNs
    · rw [if_pos hlater] at h
      cases h
      exact ⟨rfl, fun c' hc' => Option.mem_some_iff.mp hc' ▸ hlater⟩
    · rw [if_neg hlater] at h
      simp at h

/-- A round of the loop over the due channels takes a channel from the schedule, or the
first channel is not due and the loop ends. -/
theorem dueRound_spec {w w' : Worker} {result : CbResult} {nextNow : ℕ} {out : CmdOut}
    (h : workerStep w (.dueRound result nextNow) = some (w', out)) :
    ∃ nowNs, w.phase = .due nowNs ∧
      ((∃ now, w'.phase = .due now) ∨
        w' = ⟨w.self, .wait⟩ ∧ out.invoked = none ∧ ∀ c ∈ w.self.head, nowNs < c.nextRunNs) := by
  obtain ⟨self, phase⟩ := w
  cases phase with
  | due nowNs =>
    refine ⟨nowNs, rfl, ?_⟩
    obtain ⟨⟨self', next, inv⟩, hround, heq⟩ := Option.map_eq_some_iff.mp h
    simp only [Prod.mk.injEq] at heq
    obtain ⟨rfl, rfl⟩ := heq
    obtain ⟨⟨self₁, ch⟩, hpop, hround⟩ := Option.bind_eq_some_iff.mp hround
    cases ch with
    | none =>
      simp only [Option.some.injEq, Prod.mk.injEq] at hround
      obtain ⟨rfl, rfl, rfl⟩ := hround
      obtain ⟨rfl, hlater⟩ := popDueChannel_none hpop
      exact .inr ⟨rfl, rfl, hlater⟩
    | some ch =>
      refine .inl ?_
      obtain ⟨c, -, hround⟩ := Option.bind_eq_some_iff.mp hround
      split_ifs at hround
      · simp only [Option.some.injEq, Prod.mk.injEq] at hround
        obtain ⟨-, rfl, -⟩ := hround
        exact ⟨nowNs, rfl⟩
      · obtain ⟨self₂, -, hround⟩ := Option.bind_eq_some_iff.mp hround
        simp only [Option.some.injEq, Prod.mk.injEq] at hround
        obtain ⟨-, rfl, -⟩ := hround
        exact ⟨nextNow, rfl⟩
  | _ => simp [workerStep] at h

/-! ### The worker without its clocks -/

/-- What the worker of `RtpProc` returns. -/
def Did.out : Did → Option CmdOut
  | .command out | .due out => some out
  | _ => none

/-- The calls of callbacks. -/
def calls (dids : List Did) : List Invocation := dids.filterMap fun did => did.out.bind CmdOut.invoked

/-- The command that another thread sends. -/
def TimedEvent.sent : TimedEvent → Option ProcCmd
  | .push cmd => some cmd
  | _ => none

/-- The command that the worker processes. -/
def WorkerEvent.processes : WorkerEvent → Option ProcCmd
  | .command cmd _ => some cmd
  | _ => none

/-- The commands on their way to the worker. -/
def TimedProc.commands (s : TimedProc) : List ProcCmd := s.batch.getD [] ++ s.queue

/-- **The worker of `RtpProc`** makes the same step, or none, with the same call, and
the commands keep their order. -/
theorem timedStep_worker (h : timedStep clock s event = some (s', did)) :
    ∃ plain outs, run workerStep s.worker plain = some (s'.worker, outs) ∧
      outs.filterMap CmdOut.invoked = calls [did] ∧
      plain.filterMap WorkerEvent.processes ++ s'.commands = s.commands ++ event.sent.toList := by
  cases timedStep_cases h with
  | elapse hafter => exact ⟨[], [], rfl, rfl, by simp [TimedEvent.sent, TimedProc.commands]⟩
  | @push cmd => exact ⟨[], [], rfl, rfl, by simp [TimedEvent.sent, TimedProc.commands]⟩
  | detach hphase hbatch =>
    exact ⟨[], [], rfl, rfl, by simp [TimedEvent.sent, TimedProc.commands, hbatch]⟩
  | command hbatch hworker =>
    refine ⟨_, _, run_singleton_eq_some.mpr ⟨_, hworker, rfl⟩, ?_, ?_⟩
    · simp [calls, Did.out, List.filterMap_cons]
    · simp [WorkerEvent.processes, TimedEvent.sent, TimedProc.commands, hbatch]
  | batchEnd hbatch hworker =>
    refine ⟨_, _, run_singleton_eq_some.mpr ⟨_, hworker, rfl⟩, ?_, ?_⟩
    · simp [calls, Did.out, (batchEnd_spec hworker).1]
    · simp [WorkerEvent.processes, TimedEvent.sent, TimedProc.commands, hbatch]
  | dueRound hafter hworker =>
    refine ⟨_, _, run_singleton_eq_some.mpr ⟨_, hworker, rfl⟩, ?_, ?_⟩
    · obtain ⟨nowNs, -, ⟨now, hdue⟩ | ⟨rfl, hquiet, -⟩⟩ := dueRound_spec hworker
      · rw [if_neg (by simp [hdue])]
        simp [calls, Did.out, List.filterMap_cons]
      · simp [calls, Did.out, hquiet]
    · simp [WorkerEvent.processes, TimedEvent.sent, TimedProc.commands]
  | lookForever hphase hpause hhead =>
    exact ⟨[], [], rfl, rfl, by simp [TimedEvent.sent, TimedProc.commands]⟩
  | lookDue hpause hworker hhead hdue =>
    refine ⟨[.woken], _, run_singleton_eq_some.mpr ⟨_, hworker, rfl⟩, rfl, ?_⟩
    simp [WorkerEvent.processes, TimedEvent.sent, TimedProc.commands]
  | look hphase hpause hhead hlater =>
    exact ⟨[], [], rfl, rfl, by simp [TimedEvent.sent, TimedProc.commands]⟩
  | arm hpause hhead =>
    exact ⟨[], [], rfl, rfl, by simp [TimedEvent.sent, TimedProc.commands]⟩
  | wake hpause hworker hwhy =>
    refine ⟨[.woken], _, run_singleton_eq_some.mpr ⟨_, hworker, rfl⟩, rfl, ?_⟩
    simp [WorkerEvent.processes, TimedEvent.sent, TimedProc.commands]

/-- **A run** is one of the worker of `RtpProc`, with the same calls.  The commands are
processed in the order in which they are sent, each once. -/
theorem timedRun_worker {clocks : Clocks} {events : List TimedEvent} {dids : List Did}
    (h : run (timedStep clock) (timedStart clocks) events = some (s, dids)) :
    ∃ plain outs, run workerStep workerStart plain = some (s.worker, outs) ∧
      outs.filterMap CmdOut.invoked = calls dids ∧
      plain.filterMap WorkerEvent.processes ++ s.commands = events.filterMap TimedEvent.sent := by
  refine run_induction (fun events dids s =>
    ∃ plain outs, run workerStep workerStart plain = some (s.worker, outs) ∧
      outs.filterMap CmdOut.invoked = calls dids ∧
      plain.filterMap WorkerEvent.processes ++ s.commands = events.filterMap TimedEvent.sent)
    ⟨[], [], rfl, rfl, rfl⟩ ?_ (Always.of_forall fun _ _ _ => trivial) h
  rintro events dids s event s' did ⟨plain, outs, hrun, hcalls, hcommands⟩ - hs
  obtain ⟨one, outs', hone, hcall, hcommand⟩ := timedStep_worker hs
  refine ⟨plain ++ one, outs ++ outs', run_append_eq_some.mpr ⟨_, _, _, hrun, hone, rfl⟩, ?_, ?_⟩
  · rw [List.filterMap_append, hcalls, hcall, calls, calls, calls, List.filterMap_append]
  · rw [List.filterMap_append, List.append_assoc, hcommand, ← List.append_assoc, hcommands,
      List.filterMap_append, List.filterMap_cons, List.filterMap_nil]
    cases event.sent <;> rfl

/-! ### The deadline of a wait -/

/-- The clock of `cmd_cv` is not set forward, and is not at the end of its range. -/
def Steady (clock : ClockId) (c c' : Clocks) : Prop :=
  clock = .realtime →
    c'.realtime < 2 ^ 64 - 1 ∧ c'.realtime + c.monotonic ≤ c'.monotonic + c.realtime

instance (clock : ClockId) (c c' : Clocks) : Decidable (Steady clock c c') :=
  inferInstanceAs (Decidable (_ → _))

/-- When the clock of `cmd_cv` comes to `waitUntilNs` the time `deadlineNs` has come.  At the
end of its range `waitUntilNs` is the last time that it can show. -/
def NotBefore (clock : ClockId) (deadlineNs waitUntilNs : ℕ) (c : Clocks) : Prop :=
  match clock with
  | .monotonic => waitUntilNs = deadlineNs
  | .realtime =>
    waitUntilNs = 2 ^ 64 - 1 ∨ deadlineNs + c.realtime ≤ waitUntilNs + c.monotonic

section notBefore

variable {c c' : Clocks} {deadlineNs waitUntilNs nowNs : ℕ}

theorem notBefore_deadline (hnow : nowNs ≤ c.monotonic) (hlater : nowNs < deadlineNs) :
    NotBefore clock deadlineNs
      (monotonicDeadlineToCmdClock clock (c.read clock) deadlineNs nowNs) c := by
  cases clock with
  | monotonic => exact if_neg (Nat.not_le.mpr hlater)
  | realtime =>
    rw [monotonicDeadlineToCmdClock, if_neg (Nat.not_le.mpr hlater), Clocks.read]
    by_cases hover : 2 ^ 64 - 1 - c.realtime < deadlineNs - nowNs
    · exact .inl (if_pos hover)
    · refine .inr ?_
      rw [if_neg hover]
      omega

theorem NotBefore.elapse (h : NotBefore clock deadlineNs waitUntilNs c) (hsteady : Steady clock c c') :
    NotBefore clock deadlineNs waitUntilNs c' := by
  cases clock with
  | monotonic => exact h
  | realtime =>
    obtain ⟨-, hle⟩ := hsteady rfl
    exact Or.imp id (fun h => by omega) h

theorem NotBefore.due (h : NotBefore clock deadlineNs waitUntilNs c)
    (hrange : clock = .realtime → c.realtime < 2 ^ 64 - 1) (hcome : waitUntilNs ≤ c.read clock) :
    deadlineNs ≤ c.monotonic := by
  cases clock with
  | monotonic => exact h ▸ hcome
  | realtime =>
    have hshort : c.realtime < 2 ^ 64 - 1 := hrange rfl
    have hcome' : waitUntilNs ≤ c.realtime := hcome
    rcases h with h | h <;> omega

end notBefore

/-- What holds of the worker between its loop over the due channels and the next pass. -/
structure SleepInv (clock : ClockId) (s : TimedProc) : Prop where
  range : clock = .realtime → s.clocks.realtime < 2 ^ 64 - 1
  phase : s.pause ≠ .no → s.worker.phase = .wait
  looked : ∀ nowNs, s.pause = .looked nowNs →
    nowNs ≤ s.clocks.monotonic ∧ ∀ c ∈ s.worker.self.head, nowNs < c.nextRunNs
  forever : s.pause = .waits none → s.worker.self.schedHead = none
  timed : ∀ waitUntilNs, s.pause = .waits (some waitUntilNs) →
    ∃ c ∈ s.worker.self.head, NotBefore clock c.nextRunNs waitUntilNs s.clocks

/-- What the clocks show after an event. -/
def TimedEvent.after (c : Clocks) : TimedEvent → Clocks
  | .elapse after | .dueRound _ after => after
  | _ => c

/-- The worker does not sleep while it takes other steps. -/
theorem SleepInv.awake {clocks : Clocks} (hrange : clock = .realtime → clocks.realtime < 2 ^ 64 - 1)
    (hclocks : s.clocks = clocks) (hpause : s.pause = .no) : SleepInv clock s := by
  subst hclocks
  exact ⟨hrange, fun h => absurd hpause h, fun _ h => by simp [hpause] at h,
    fun h => by simp [hpause] at h, fun _ h => by simp [hpause] at h⟩

/-- **One step.** -/
theorem SleepInv.step (h : SleepInv clock s) (hsteady : Steady clock s.clocks (event.after s.clocks))
    (hs : timedStep clock s event = some (s', did)) : SleepInv clock s' := by
  -- elsewhere in its loop it does not sleep
  have hawake : s.worker.phase ≠ .wait → s.pause = .no := fun hphase =>
    not_not.mp fun hpause => hphase (h.phase hpause)
  cases timedStep_cases hs with
  | elapse hafter =>
    refine ⟨fun hclock => (hsteady hclock).1, h.phase, fun nowNs hpause => ?_, h.forever,
      fun waitUntilNs hpause => ?_⟩
    · exact ⟨(h.looked nowNs hpause).1.trans hafter, (h.looked nowNs hpause).2⟩
    · obtain ⟨c, hc, hnot⟩ := h.timed waitUntilNs hpause
      exact ⟨c, hc, hnot.elapse hsteady⟩
  | push => exact ⟨h.range, h.phase, h.looked, h.forever, h.timed⟩
  | detach hphase hbatch =>
    exact .awake h.range rfl (hawake (by simp [hphase]))
  | command hbatch hworker =>
    obtain ⟨⟨seen, hphase⟩, -⟩ := command_phase hworker
    exact .awake h.range rfl (hawake (by simp [hphase]))
  | batchEnd hbatch hworker =>
    refine .awake h.range rfl (hawake ?_)
    rcases (batchEnd_spec hworker).2 with ⟨hphase, -⟩ | ⟨hphase, -⟩ <;> simp [hphase]
  | dueRound hafter hworker =>
    obtain ⟨nowNs, hphase, -⟩ := dueRound_spec hworker
    exact .awake (fun hclock => (hsteady hclock).1) rfl (hawake (by simp [hphase]))
  | lookForever hphase hpause hhead =>
    exact ⟨h.range, fun _ => hphase, nofun, fun _ => hhead, nofun⟩
  | lookDue hpause hworker hhead hdue => exact .awake h.range rfl rfl
  | look hphase hpause hhead hlater =>
    refine ⟨h.range, fun _ => hphase, fun nowNs hlooked => ?_, nofun, nofun⟩
    cases hlooked
    exact ⟨le_rfl, fun c hc => Option.mem_unique hhead hc ▸ hlater⟩
  | @arm nowNs c hpause hhead =>
    refine ⟨h.range, fun _ => h.phase (by simp [hpause]), nofun, nofun, fun waitUntilNs harm => ?_⟩
    cases harm
    obtain ⟨hnow, hlater⟩ := h.looked nowNs hpause
    exact ⟨c, hhead, notBefore_deadline hnow (hlater c hhead)⟩
  | wake hpause hworker hwhy => exact .awake h.range rfl rfl


theorem sleepInv_of_run {clocks : Clocks} {events : List TimedEvent} {dids : List Did}
    (hstart : Steady clock clocks clocks)
    (hsteady : Always (timedStep clock)
      (fun s event => Steady clock s.clocks (event.after s.clocks)) (timedStart clocks) events)
    (h : run (timedStep clock) (timedStart clocks) events = some (s, dids)) : SleepInv clock s :=
  run_induction (fun _ _ s => SleepInv clock s)
    (SleepInv.awake (fun hclock => (hstart hclock).1) rfl rfl) (fun hs hP hstep => hs.step hP hstep)
    hsteady h

/-! ### The head of the schedule -/

theorem table_of_run {events : List WorkerEvent} {w : Worker} {outs : List CmdOut}
    (h : run workerStep workerStart events = some (w, outs)) : ∃ t, WorkerInv w.self t := by
  refine run_induction (P := fun _ _ => True) (fun _ _ w => ∃ t, WorkerInv w.self t)
    ⟨_, workerInv_new⟩ ?_ (Always.of_forall fun _ _ _ => trivial) h
  rintro events outs w event w' out ⟨t, hw⟩ - hstep
  obtain ⟨w₁, out₁, t', hstep₁, hw', -⟩ := workerStep_spec hw (fits_of_step hstep)
  rw [hstep, Option.some.injEq, Prod.mk.injEq] at hstep₁
  obtain ⟨rfl, rfl⟩ := hstep₁
  exact ⟨t', hw'⟩

section schedule

variable {self : PyRtpProc} {ps : List ChPtr} {c : ProcChannelState}

theorem Schedule.head_eq (h : Schedule self ps) : self.schedHead = ps.head? := h.lists.get_eq

/-- When a channel is scheduled, there is a first one. -/
theorem Schedule.exists_head (h : Schedule self ps) {id ns : ℕ} (hat : ScheduledAt self id ns) :
    ∃ c, self.head = some c := by
  obtain ⟨p, c, hc, hactive, hsched, -, -⟩ := hat
  have hmem : p ∈ ps := (h.mem_iff p).mpr ⟨c, hc, hactive, hsched⟩
  obtain ⟨q, rest, rfl⟩ := List.exists_cons_of_ne_nil (List.ne_nil_of_mem hmem)
  obtain ⟨d, hd, -⟩ := (h.mem_iff q).mp List.mem_cons_self
  have hfirst : self.schedHead = some q := h.head_eq
  exact ⟨d, by rw [PyRtpProc.head, hfirst, Option.bind_some, hd]⟩

theorem Schedule.not_scheduledAt (h : Schedule self ps) (hnone : self.schedHead = none)
    (id ns : ℕ) : ¬ ScheduledAt self id ns := by
  intro hat
  obtain ⟨c, hc⟩ := h.exists_head hat
  rw [PyRtpProc.head, hnone] at hc
  cases hc

/-- The first channel has the earliest time. -/
theorem Schedule.head_scheduledAt (h : Schedule self ps) (hhead : self.head = some c) :
    ScheduledAt self c.id c.nextRunNs ∧ ∀ id ns, ScheduledAt self id ns → c.nextRunNs ≤ ns := by
  obtain ⟨p, hp, hc⟩ := Option.bind_eq_some_iff.mp hhead
  have hfirst : ps.head? = some p := h.head_eq.symm.trans hp
  obtain ⟨rest, rfl⟩ := List.head?_eq_some_iff.mp hfirst
  obtain ⟨c', hc', hactive, hsched⟩ := (h.mem_iff p).mp List.mem_cons_self
  cases hc.symm.trans hc'
  refine ⟨⟨p, c, hc, hactive, hsched, rfl, rfl⟩, ?_⟩
  rintro id ns ⟨q, d, hd, hactive', hsched', -, rfl⟩
  rcases List.mem_cons.mp ((h.mem_iff q).mpr ⟨d, hd, hactive', hsched'⟩) with rfl | hq
  · cases hc.symm.trans hd
    exact le_rfl
  · exact (List.pairwise_cons.mp h.sorted).1 q hq c d hc hd

end schedule

end steps

/-- **How long the worker sleeps.**  In `wait_for_commands` it waits forever exactly when no
channel is scheduled.  Otherwise it waits up to the earliest time of the schedule: its
deadline is this time by `CLOCK_MONOTONIC`, and by the other clock, when that is not set
forward, it does not come before this time. -/
theorem timedRun_sleeps {clock : ClockId} {clocks : Clocks} {events : List TimedEvent}
    {s : TimedProc} {dids : List Did} {waitUntilNs : Option ℕ}
    (hstart : Steady clock clocks clocks)
    (hsteady : Always (timedStep clock)
      (fun s event => Steady clock s.clocks (event.after s.clocks)) (timedStart clocks) events)
    (h : run (timedStep clock) (timedStart clocks) events = some (s, dids))
    (hwait : s.pause = .waits waitUntilNs) :
    (waitUntilNs = none ↔ ∀ id ns, ¬ ScheduledAt s.worker.self id ns) ∧
    ∀ t ∈ waitUntilNs, ∃ id ns, ScheduledAt s.worker.self id ns ∧
      (∀ id' ns', ScheduledAt s.worker.self id' ns' → ns ≤ ns') ∧
      (clock = .monotonic → t = ns) ∧
      (t ≤ s.clocks.read clock → ns ≤ s.clocks.monotonic) := by
  have hinv : SleepInv clock s := sleepInv_of_run hstart hsteady h
  obtain ⟨plain, outs, hplain, -⟩ := timedRun_worker h
  obtain ⟨t₀, ht₀⟩ := table_of_run hplain
  have hps : Schedule s.worker.self (t₀.queue.map s.worker.self.ptr) := ht₀.schedule
  cases waitUntilNs with
  | none => exact ⟨⟨fun _ => hps.not_scheduledAt (hinv.forever hwait), fun _ => rfl⟩, nofun⟩
  | some t =>
    obtain ⟨c, hc, hnot⟩ := hinv.timed t hwait
    obtain ⟨hat, hmin⟩ := hps.head_scheduledAt hc
    refine ⟨⟨nofun, fun hnone => absurd hat (hnone _ _)⟩, fun t' ht => ?_⟩
    cases ht
    refine ⟨c.id, c.nextRunNs, hat, hmin, ?_, hnot.due hinv.range⟩
    rintro rfl
    exact hnot

/-- The callback of a channel asks at 20 to be called at 50.  Between the readings of the two
clocks 1 ns passes. -/
def sleepEvents : List TimedEvent :=
  [.push (.addChannel 1 100), .detach, .command (some 7) (.time 50), .batchEnd,
    .dueRound .pyNone ⟨20, 1000⟩, .look, .elapse ⟨21, 1001⟩, .arm]

theorem timedRun_sleeps_behind :
    ∃ s dids, run (timedStep .realtime) (timedStart ⟨20, 1000⟩) sleepEvents = some (s, dids) ∧
      s.pause = .waits (some 1031) ∧
      ∃ id ns, ScheduledAt s.worker.self id ns ∧
        (1031 ≤ s.clocks.realtime → ns ≤ s.clocks.monotonic) := by
  obtain ⟨⟨s, dids⟩, hrun⟩ := Option.isSome_iff_exists.mp
    (by decide : (run (timedStep .realtime) (timedStart ⟨20, 1000⟩) sleepEvents).isSome = true)
  have hpause : (run (timedStep .realtime) (timedStart ⟨20, 1000⟩) sleepEvents).map
      (fun p => p.1.pause) = some (.waits (some 1031)) := by decide
  rw [hrun, Option.map_some, Option.some.injEq] at hpause
  obtain ⟨-, hwait⟩ := timedRun_sleeps (by decide) (by decide) hrun hpause
  obtain ⟨id, ns, hat, -, -, hdue⟩ := hwait 1031 rfl
  exact ⟨s, dids, hrun, hpause, id, ns, hat, hdue⟩

/-! ### Passes of the loop -/

/-- The first channel of the schedule is due. -/
def PyRtpProc.headDue (self : PyRtpProc) (nowNs : ℕ) : Bool :=
  self.head.any fun c => c.nextRunNs ≤ nowNs

/-- The passes that a step begins. -/
def Did.passes : Did → ℕ
  | .pass => 1
  | _ => 0

/-- The commands that a step processes and the due channels that it takes. -/
def Did.work : Did → ℕ
  | .command _ | .due _ => 1
  | _ => 0

/-- The work that has been promised: of a pass that has begun, and of the next one when
there is something to do for it. -/
def TimedProc.debt (s : TimedProc) : ℕ :=
  match s.worker.phase with
  | .commands _ =>
    match s.batch with
    | none => if s.queue ≠ [] ∨ s.worker.self.headDue s.clocks.monotonic then 1 else 0
    | some batch => if batch ≠ [] ∨ s.worker.self.headDue s.clocks.monotonic then 2 else 1
  | .due nowNs => if s.worker.self.headDue nowNs then 2 else 1
  | .wait => 1
  | .exited => 2

section passes

variable {clock : ClockId} {s s' : TimedProc} {event : TimedEvent} {did : Did}

theorem headDue_mono {self : PyRtpProc} {nowNs later : ℕ} (h : self.headDue nowNs = true)
    (hle : nowNs ≤ later) : self.headDue later = true := by
  cases hhead : self.head with
  | none => simp [PyRtpProc.headDue, hhead] at h
  | some c =>
    simp only [PyRtpProc.headDue, hhead, Option.any_some, decide_eq_true_eq] at h ⊢
    exact h.trans hle

theorem headDue_of_head {self : PyRtpProc} {c : ProcChannelState} {nowNs : ℕ}
    (hhead : self.head = some c) (hdue : c.nextRunNs ≤ nowNs) : self.headDue nowNs = true := by
  simp only [PyRtpProc.headDue, hhead, Option.any_some, decide_eq_true_eq]
  exact hdue

theorem not_headDue {self : PyRtpProc} {nowNs : ℕ} (h : ∀ c ∈ self.head, nowNs < c.nextRunNs) :
    self.headDue nowNs = false := by
  cases hhead : self.head with
  | none => simp [PyRtpProc.headDue, hhead]
  | some c =>
    simp only [PyRtpProc.headDue, hhead, Option.any_some, decide_eq_false_iff_not, not_le]
    exact h c hhead

theorem TimedProc.debt_le (s : TimedProc) : s.debt ≤ 2 := by
  unfold TimedProc.debt
  split
  · split <;> split_ifs <;> omega
  · split_ifs <;> omega
  · omega
  · omega

/-- While a pass has work before it, this is promised. -/
theorem TimedProc.debt_of_batch {seen : Bool} {batch : List ProcCmd}
    (hphase : s.worker.phase = .commands seen) (hbatch : s.batch = some batch) : 1 ≤ s.debt := by
  simp only [TimedProc.debt, hphase, hbatch]
  split_ifs <;> omega

theorem TimedProc.debt_of_due {nowNs : ℕ} (hphase : s.worker.phase = .due nowNs) : 1 ≤ s.debt := by
  simp only [TimedProc.debt, hphase]
  split_ifs <;> omega

theorem TimedProc.debt_of_wait (hphase : s.worker.phase = .wait) : s.debt = 1 := by
  simp only [TimedProc.debt, hphase]

/-- The next pass has something to do. -/
theorem TimedProc.debt_of_resumed
    (hwhy : s.queue ≠ [] ∨ s.worker.self.headDue s.clocks.monotonic = true) :
    1 ≤ TimedProc.debt { s with worker := ⟨s.worker.self, .commands false⟩, pause := .no } := by
  cases hbatch : s.batch with
  | some batch => exact debt_of_batch rfl rfl
  | none => exact (if_pos hwhy).ge

/-- More commands and later times promise more. -/
theorem TimedProc.debt_mono (hworker : s'.worker = s.worker) (hbatch : s'.batch = s.batch)
    (hqueue : s.queue ≠ [] → s'.queue ≠ [])
    (hclock : s.clocks.monotonic ≤ s'.clocks.monotonic) : s.debt ≤ s'.debt := by
  have hdue : s.worker.self.headDue s.clocks.monotonic = true →
      s.worker.self.headDue s'.clocks.monotonic = true := fun h => headDue_mono h hclock
  simp only [TimedProc.debt, hworker, hbatch]
  split
  · split
    · by_cases h : s.queue ≠ [] ∨ s.worker.self.headDue s.clocks.monotonic = true
      · rw [if_pos h, if_pos (h.imp hqueue hdue)]
      · rw [if_neg h]
        omega
    · next batch _ =>
      by_cases h : batch ≠ [] ∨ s.worker.self.headDue s.clocks.monotonic = true
      · rw [if_pos h, if_pos (h.imp id hdue)]
      · rw [if_neg h]
        split_ifs <;> omega
  · exact le_rfl
  · exact le_rfl
  · exact le_rfl

/-- **One step** pays for the pass that it begins with what has been promised. -/
theorem SleepInv.debt_step (h : SleepInv clock s) (hs : timedStep clock s event = some (s', did)) :
    s.debt + did.passes ≤ s'.debt + did.work := by
  have hle : s.debt ≤ 2 := s.debt_le
  cases timedStep_cases hs with
  | elapse hafter => exact TimedProc.debt_mono rfl rfl id hafter
  | push => exact TimedProc.debt_mono rfl rfl (fun _ => by simp) le_rfl
  | detach hphase hbatch =>
    simp only [TimedProc.debt, hphase, hbatch, Did.passes, Did.work]
    split_ifs <;> omega
  | command hbatch hworker =>
    obtain ⟨-, seen, hphase⟩ := command_phase hworker
    exact hle.trans (Nat.succ_le_succ (TimedProc.debt_of_batch hphase rfl))
  | batchEnd hbatch hworker =>
    rcases (batchEnd_spec hworker).2 with ⟨hphase, rfl⟩ | ⟨-, hphase⟩
    · simp [TimedProc.debt, hphase, hbatch, Did.passes, Did.work]
    · simp only [TimedProc.debt, hphase, Did.passes, Did.work]
      exact hle
  | dueRound hafter hworker =>
    obtain ⟨nowNs, hphase, ⟨now, hdue⟩ | ⟨rfl, -, hlater⟩⟩ := dueRound_spec hworker
    · rw [if_neg (by simp [hdue])]
      exact hle.trans (Nat.succ_le_succ (TimedProc.debt_of_due hdue))
    · simp [TimedProc.debt, hphase, not_headDue hlater, Did.passes, Did.work]
  | lookForever hphase hpause hhead => simp [TimedProc.debt, hphase, Did.passes, Did.work]
  | lookDue hpause hworker hhead hdue =>
    have hone : s.debt = 1 := TimedProc.debt_of_wait (woken_spec hworker).1
    exact hone.le.trans (TimedProc.debt_of_resumed (.inr (headDue_of_head hhead hdue)))
  | look hphase hpause hhead hlater => simp [TimedProc.debt, hphase, Did.passes, Did.work]
  | arm hpause hhead =>
    have hphase : s.worker.phase = .wait := h.phase (by simp [hpause])
    simp [TimedProc.debt, hphase, Did.passes, Did.work]
  | @wake waitUntilNs hpause hworker hwhy =>
    have hone : s.debt = 1 := TimedProc.debt_of_wait (woken_spec hworker).1
    refine hone.le.trans (TimedProc.debt_of_resumed (hwhy.imp id ?_))
    rintro ⟨t, rfl, hcome⟩
    obtain ⟨c, hc, hnot⟩ := h.timed t hpause
    exact headDue_of_head hc (hnot.due h.range hcome)

end passes

/-- **The worker does not spin.**  In any stretch of a run it begins no more passes of its
loop than it processes commands and takes due channels, and two. -/
theorem timedRun_busy {clock : ClockId} {clocks : Clocks} {before later : List TimedEvent}
    {s s' : TimedProc} {dids dids' : List Did} (hstart : Steady clock clocks clocks)
    (hsteady : Always (timedStep clock)
      (fun s event => Steady clock s.clocks (event.after s.clocks)) (timedStart clocks)
      (before ++ later))
    (hbefore : run (timedStep clock) (timedStart clocks) before = some (s, dids))
    (hlater : run (timedStep clock) s later = some (s', dids')) :
    (dids'.map Did.passes).sum ≤ (dids'.map Did.work).sum + 2 := by
  obtain ⟨hsteady₁, hsteady₂⟩ := always_append.mp hsteady
  have hinv : SleepInv clock s := sleepInv_of_run hstart hsteady₁ hbefore
  have hpaid : s.debt + (dids'.map Did.passes).sum ≤ s'.debt + (dids'.map Did.work).sum :=
    run_amortized Did.passes Did.work TimedProc.debt (fun hs hP hstep => hs.step hP hstep)
      (fun hs _ hstep => hs.debt_step hstep) hinv (hsteady₂ s dids hbefore) hlater
  have hle : s'.debt ≤ 2 := s'.debt_le
  omega

/-- In the pass after the wait the channel is called. -/
theorem timedRun_busy_behind :
    ∃ s dids s' dids', run (timedStep .realtime) (timedStart ⟨20, 1000⟩) sleepEvents = some (s, dids) ∧
      run (timedStep .realtime) s
        [.elapse ⟨52, 1031⟩, .wake, .detach, .batchEnd, .dueRound (.time 80) ⟨53, 1032⟩] =
          some (s', dids') ∧
      (dids'.map Did.passes).sum ≤ (dids'.map Did.work).sum + 2 := by
  obtain ⟨⟨s, dids⟩, hbefore⟩ := Option.isSome_iff_exists.mp
    (by decide : (run (timedStep .realtime) (timedStart ⟨20, 1000⟩) sleepEvents).isSome = true)
  obtain ⟨⟨s', dids'⟩, hrun⟩ := Option.isSome_iff_exists.mp
    (by decide : (run (timedStep .realtime) (timedStart ⟨20, 1000⟩) (sleepEvents ++
      [.elapse ⟨52, 1031⟩, .wake, .detach, .batchEnd, .dueRound (.time 80) ⟨53, 1032⟩])).isSome = true)
  obtain ⟨u, outs, outs', hu, hlater, -⟩ := run_append_eq_some.mp hrun
  cases hbefore.symm.trans hu
  exact ⟨s, dids, s', outs', hbefore, hlater, timedRun_busy (by decide) (by decide) hbefore hlater⟩

/-! ### Callbacks that ask for a time that has come -/

section overdue

variable {clock : ClockId} {s s' : TimedProc} {event : TimedEvent} {did : Did}

/-- The callback of a due channel returns a time that has come when it returns. -/
def TimedEvent.overdue : TimedEvent → Bool
  | .dueRound (.time nextNs) after => nextNs ≤ after.monotonic
  | .dueRound _ _ => false
  | _ => true

/-- A channel of the queue whose time has come makes the first one due. -/
theorem WorkerInv.headDue {self : PyRtpProc} {t : Table} (h : WorkerInv self t) {i nowNs : ℕ}
    (hi : i ∈ t.queue) (hdue : (t.slot i).nextRunNs ≤ nowNs) : self.headDue nowNs = true := by
  obtain ⟨c, hc, hbare⟩ := h.threads.deref_queue hi
  have hps := h.schedule
  have hmem : self.ptr i ∈ t.queue.map self.ptr := List.mem_map_of_mem hi
  obtain ⟨c', hc', hactive, hsched⟩ := (hps.mem_iff _).mp hmem
  cases hc.symm.trans hc'
  have hat : ScheduledAt self c.id c.nextRunNs := ⟨_, c, hc, hactive, hsched, rfl, rfl⟩
  obtain ⟨d, hhead⟩ := hps.exists_head hat
  refine headDue_of_head hhead (((hps.head_scheduledAt hhead).2 _ _ hat).trans ?_)
  have hrun : c.nextRunNs = (t.slot i).nextRunNs := by rw [← hbare]; rfl
  rw [hrun]
  exact hdue

/-- The worker is in its loop over the due channels, and the first one is due. -/
structure Overdue (s : TimedProc) : Prop where
  table : ∃ t, WorkerInv s.worker.self t
  due : ∃ nowNs, s.worker.phase = .due nowNs ∧ s.worker.self.headDue nowNs = true

/-- The next round of the loop takes a channel.  When its callback returns a time that has
come, a channel is due again. -/
theorem Overdue.dueRound (h : Overdue s) (result : CbResult) (nextNow : ℕ) :
    ∃ w out, workerStep s.worker (.dueRound result nextNow) = some (w, out) ∧
      w.phase = .due nextNow ∧ (∃ t, WorkerInv w.self t) ∧
      ∀ nextNs, result = .time nextNs → nextNs ≤ nextNow → w.self.headDue nextNow = true := by
  obtain ⟨t, ht⟩ := h.table
  obtain ⟨nowNs, hphase, hdue⟩ := h.due
  have hstep : ∀ r, RtpProc.dueRound s.worker.self nowNs result nextNow = some r →
      workerStep s.worker (.dueRound result nextNow) =
        some (⟨r.1, (r.2.1.map Phase.due).getD .wait⟩, ⟨0, none, r.2.2⟩) := fun r hr => by
    rw [workerStep, hphase]
    dsimp only
    rw [hr]
    rfl
  rcases ht.dueRound nowNs result nextNow with ⟨self', t', i, hround, ht', hi, -, -, hslot⟩ | hround
  · refine ⟨_, _, hstep _ hround, rfl, ⟨t', ht'⟩, ?_⟩
    rintro nextNs rfl hle
    have hslot_i := hslot i
    rw [if_pos rfl] at hslot_i
    have hactive : (t.slot i).active = true := ((ht.table.queue_iff i).mp hi).1
    have hi' : i ∈ t'.queue := (ht'.table.queue_iff i).mpr (by
      rw [hslot_i]
      exact ⟨hactive, rfl⟩)
    refine ht'.headDue hi' ?_
    rw [hslot_i]
    exact hle
  · obtain ⟨nowNs', hphase', ⟨now, hnow⟩ | ⟨-, -, hlater⟩⟩ := dueRound_spec (hstep _ hround)
    · cases hnow
    · cases hphase.symm.trans hphase'
      rw [not_headDue hlater] at hdue
      cases hdue

/-- **One step** leaves the worker in this loop, when the callback asks so, and processes no
command. -/
theorem Overdue.step (h : Overdue s) (hoverdue : event.overdue = true)
    (hs : timedStep clock s event = some (s', did)) :
    Overdue s' ∧ (∀ out, did ≠ .command out) ∧
      s'.commands = s.commands ++ event.sent.toList := by
  obtain ⟨nowNs, hphase, hdue⟩ := h.due
  cases timedStep_cases hs with
  | elapse hafter =>
    exact ⟨⟨h.table, h.due⟩, fun out => by simp, by simp [TimedProc.commands, TimedEvent.sent]⟩
  | push =>
    exact ⟨⟨h.table, h.due⟩, fun out => by simp, by simp [TimedProc.commands, TimedEvent.sent]⟩
  | detach hcommands => cases hphase.symm.trans hcommands
  | command hbatch hworker =>
    obtain ⟨⟨seen, hcommands⟩, -⟩ := command_phase hworker
    cases hphase.symm.trans hcommands
  | batchEnd hbatch hworker =>
    rcases (batchEnd_spec hworker).2 with ⟨hcommands, -⟩ | ⟨hcommands, -⟩ <;>
      cases hphase.symm.trans hcommands
  | @dueRound result after worker out hafter hworker =>
    obtain ⟨w, out', hstep, hphase', htable, htime⟩ := h.dueRound result after.monotonic
    cases hworker.symm.trans hstep
    cases result with
    | time nextNs =>
      refine ⟨⟨htable, _, hphase', htime nextNs rfl (of_decide_eq_true hoverdue)⟩, fun out => ?_, ?_⟩
      · rw [if_neg (by simp [hphase'])]
        simp
      · simp [TimedProc.commands, TimedEvent.sent]
    | _ => cases hoverdue
  | lookForever hwait => cases hphase.symm.trans hwait
  | lookDue hpause hworker => cases hphase.symm.trans (woken_spec hworker).1
  | look hwait => cases hphase.symm.trans hwait
  | arm hpause hhead =>
    exact ⟨⟨h.table, h.due⟩, fun out => by simp, by simp [TimedProc.commands, TimedEvent.sent]⟩
  | wake hpause hworker => cases hphase.symm.trans (woken_spec hworker).1

end overdue

/-- **Callbacks come before commands.**  Once a channel is due, and as long as every callback
returns a time that has come when it returns, the worker stays in its loop over the due
channels, whose next round can always be made; it processes no command, and those that are
sent, of a close or of a shutdown, wait for as long. -/
theorem timedRun_starves {clock : ClockId} {clocks : Clocks} {before later : List TimedEvent}
    {s s' : TimedProc} {dids dids' : List Did} {nowNs : ℕ}
    (hbefore : run (timedStep clock) (timedStart clocks) before = some (s, dids))
    (hphase : s.worker.phase = .due nowNs) (hdue : s.worker.self.headDue nowNs = true)
    (hoverdue : ∀ event ∈ later, event.overdue = true)
    (hlater : run (timedStep clock) s later = some (s', dids')) :
    (∃ now, s'.worker.phase = .due now) ∧
    (∀ did ∈ dids', ∀ out, did ≠ .command out) ∧
    s'.commands = s.commands ++ later.filterMap TimedEvent.sent ∧
    ∀ result after, s'.clocks.monotonic ≤ after.monotonic →
      ∃ s'' out, timedStep clock s' (.dueRound result after) = some (s'', .due out) := by
  obtain ⟨plain, outs, hplain, -⟩ := timedRun_worker hbefore
  have hinv : Overdue s' ∧ (∀ did ∈ dids', ∀ out, did ≠ .command out) ∧
      s'.commands = s.commands ++ later.filterMap TimedEvent.sent := by
    refine run_induction (P := fun _ event => event.overdue = true) (fun events dids u =>
      Overdue u ∧ (∀ did ∈ dids, ∀ out, did ≠ .command out) ∧
        u.commands = s.commands ++ events.filterMap TimedEvent.sent)
      ⟨⟨table_of_run hplain, nowNs, hphase, hdue⟩, nofun, (List.append_nil _).symm⟩ ?_
      (Always.of_forall fun event hevent _ => hoverdue event hevent) hlater
    rintro events dids u event u' did ⟨hu, hquiet, hcommands⟩ hevent hstep
    obtain ⟨hu', hquiet', hcommands'⟩ := hu.step hevent hstep
    refine ⟨hu', fun did' hdid' => ?_, ?_⟩
    · rcases List.mem_append.mp hdid' with hdid' | hdid'
      · exact hquiet did' hdid'
      · rw [List.mem_singleton.mp hdid']
        exact hquiet'
    · rw [hcommands', hcommands, List.append_assoc, List.filterMap_append, List.filterMap_cons,
        List.filterMap_nil]
      cases event.sent <;> rfl
  obtain ⟨hover, hquiet, hcommands⟩ := hinv
  obtain ⟨now, hnow, -⟩ := hover.due
  refine ⟨⟨now, hnow⟩, hquiet, hcommands, fun result after hafter => ?_⟩
  obtain ⟨w, out, hworker, hphase', -⟩ := hover.dueRound result after.monotonic
  exact ⟨_, out, by
    rw [timedStep, if_pos hafter, hworker, Option.map_some, if_neg (by simp [hphase'])]⟩

/-- A callback that always returns 0, and a shutdown. -/
theorem timedRun_starves_shutdown :
    ∃ s dids s' dids', run (timedStep .monotonic) (timedStart ⟨20, 0⟩)
        [.push (.addChannel 1 100), .detach, .command (some 7) (.time 0), .batchEnd] =
          some (s, dids) ∧
      run (timedStep .monotonic) s
        [.dueRound (.time 0) ⟨21, 0⟩, .push .shutdown, .dueRound (.time 0) ⟨22, 0⟩] =
          some (s', dids') ∧ s'.commands = [.shutdown] := by
  obtain ⟨⟨s, dids⟩, hbefore⟩ := Option.isSome_iff_exists.mp
    (by decide : (run (timedStep .monotonic) (timedStart ⟨20, 0⟩)
      [.push (.addChannel 1 100), .detach, .command (some 7) (.time 0), .batchEnd]).isSome = true)
  have hloop : (run (timedStep .monotonic) (timedStart ⟨20, 0⟩)
      [.push (.addChannel 1 100), .detach, .command (some 7) (.time 0), .batchEnd]).map
        (fun p => (p.1.worker.phase, p.1.worker.self.headDue 20, p.1.commands)) =
      some (.due 20, true, []) := by decide
  rw [hbefore, Option.map_some, Option.some.injEq, Prod.mk.injEq, Prod.mk.injEq] at hloop
  obtain ⟨hphase, hdue, hnone⟩ := hloop
  obtain ⟨⟨u, all⟩, hrun⟩ := Option.isSome_iff_exists.mp
    (by decide : (run (timedStep .monotonic) (timedStart ⟨20, 0⟩)
      ([.push (.addChannel 1 100), .detach, .command (some 7) (.time 0), .batchEnd] ++
        [.dueRound (.time 0) ⟨21, 0⟩, .push .shutdown, .dueRound (.time 0) ⟨22, 0⟩])).isSome = true)
  obtain ⟨s₁, outs, dids', hs₁, hlater, -⟩ := run_append_eq_some.mp hrun
  cases hbefore.symm.trans hs₁
  obtain ⟨-, -, hcommands, -⟩ := timedRun_starves hbefore hphase hdue (by decide) hlater
  exact ⟨s, dids, u, dids', hbefore, hlater, by rw [hcommands, hnone]; rfl⟩

end RtpProc
