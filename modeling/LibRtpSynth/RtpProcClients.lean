/-
The clients of `RtpProc` and its worker, as a system of threads
(`python/RtpProc_mod.c`).

Any number of threads call `create_channel`, `close`, `shutdown` and deallocate
channels, while the worker takes their commands in batches.  A step of a thread goes
from one access to shared data to the next: a section under `cmd_lock` or under the
lock of the waiter is one step.  A thread that sleeps on a condition may wake up at
any time; it looks at the condition and sleeps on.

A channel object is its identity.  Every call has a number, which is in the command it
makes, so that a command can be told from another one at the same address.  `none`
stands for an access to a command that was freed, and for what `workerStep` rules out.
-/
import LibRtpSynth.RtpProc
import LibRtpSynth.RtpSync
import LibRtpSynth.CWords

open RtpSync

namespace RtpProc

/-! ### State -/

/-- The members of a `ProcCmd` next to its link: `waiter` tells whether it has the
waiter, and `call` is the number of the call. -/
structure Sent where
  call : ℕ
  cmd : ProcCmd
  waiter : Bool
  deriving DecidableEq, Repr

/-- The functions that send a command by `enqueue_command`: `create_channel`, and
`rtp_proc_channel_close_internal` with and without `with_error`. -/
inductive Caller
  | create (id procInCb : ℕ)
  | close (id : ℕ)
  | dealloc (id : ℕ)
  deriving DecidableEq, Repr

/-- The command that a function sends. -/
def Caller.cmd : Caller → ProcCmd
  | .create id procInCb => .addChannel id procInCb
  | .close id | .dealloc id => .removeChannel id

/-- A call under way, with its command at `addr`. -/
structure Call where
  number : ℕ
  caller : Caller
  addr : ℕ
  deriving DecidableEq, Repr

/-- The command of a call. -/
def Call.sent (c : Call) (waiter : Bool) : Sent := ⟨c.number, c.caller.cmd, waiter⟩

/-- Where a client thread is. -/
inductive Pc
  | idle
  /-- Before `proc_clear_close_exception`. -/
  | clearing (c : Call)
  /-- Before `proc_waiter_acquire`. -/
  | acquiring (c : Call)
  /-- Before `rtp_sync_waiter_reset`. -/
  | resetting (c : Call)
  /-- Before `enqueue_command`; the flag tells whether the thread has the waiter. -/
  | enqueueing (c : Call) (waiter : Bool)
  /-- In `rtp_sync_waiter_wait`. -/
  | waiting (c : Call)
  /-- Before `proc_waiter_release`, with the status, or `none` for a command that was
  rejected. -/
  | releasing (c : Call) (status : Option ℕ)
  /-- Before `proc_pop_close_exception`. -/
  | popping (c : Call) (id : ℕ)
  /-- In `rtp_proc_shutdown_internal`, before the lock. -/
  | shuttingDown (number : ℕ)
  /-- In `pthread_join`. -/
  | joining
  deriving DecidableEq, Repr

/-- Where the worker is. -/
inductive WorkerPc
  /-- Before `detach_commands`. -/
  | detaching
  /-- At the head of the loop of `process_commands`. -/
  | atCmd (cmd : Option ℕ)
  /-- Behind `remove_channel`, before `proc_set_close_exception_steal`. -/
  | stealing (cmd : ℕ) (next : Option ℕ) (out : CmdOut)
  /-- Before `rtp_sync_waiter_complete`. -/
  | completing (cmd : ℕ) (next : Option ℕ) (status : ℕ)
  /-- Before `free_command`. -/
  | freeing (cmd : ℕ) (next : Option ℕ)
  /-- In the rest of the loop of `rtp_proc_worker`. -/
  | outside
  /-- Behind the loop, before the last `detach_commands`. -/
  | leaving
  /-- In `free_command_list`. -/
  | dropping (cmd : Option ℕ)
  | finished
  deriving DecidableEq, Repr

/-- `PyRtpProc` with the threads around it.  `worker` are the members that are the
worker's own, `closed` is the member of the channel objects, and `calls` counts the
calls. -/
structure Sys where
  cmdq : Cmdq
  heap : ℕ → Option (Cell Sent)
  cmdWaiter : Waiter
  cmdWaiterBusy : Bool
  shutdownQueued : Bool
  acceptingCommands : Bool
  workerRunning : Bool
  nextChannelId : ℕ
  closeExc : Option ℕ
  closed : ℕ → Bool
  pcs : ℕ → Pc
  worker : Worker
  workerPc : WorkerPc
  calls : ℕ

/-- The system behind `PyRtpProc_init`. -/
def sysStart : Sys where
  cmdq := ⟨none, none⟩
  heap := fun _ => none
  cmdWaiter := waiterReset
  cmdWaiterBusy := false
  shutdownQueued := false
  acceptingCommands := true
  workerRunning := true
  nextChannelId := 1
  closeExc := none
  closed := fun _ => false
  pcs := fun _ => .idle
  worker := workerStart
  workerPc := .detaching
  calls := 0

/-- What a step is seen to do. -/
inductive Act
  | quiet
  /-- A command is pushed. -/
  | accepted (sent : Sent)
  /-- The worker has processed a command. -/
  | processed (sent : Sent) (out : CmdOut)
  /-- `rtp_sync_waiter_complete`. -/
  | completed (call status : ℕ)
  /-- `rtp_sync_waiter_wait` returns. -/
  | returned (call status : ℕ)
  /-- `close` returns, or raises `ChannelProcError` from an exception. -/
  | closed (call : ℕ) (raised : Option ℕ)
  /-- A call ends with an error of another kind. -/
  | failed (call : ℕ)
  deriving DecidableEq, Repr

section updates

variable (s : Sys)

/-- A thread goes on. -/
def Sys.goto (t : ℕ) (pc : Pc) : Sys := { s with pcs := Function.update s.pcs t pc }

/-- Write a command. -/
def Sys.write (a : ℕ) (cell : Option (Cell Sent)) : Sys :=
  { s with heap := Function.update s.heap a cell }

/-- `free_command`. -/
def Sys.free (a : ℕ) : Option Sys := (s.heap a).map fun _ => s.write a none

/-- `rtp_sync_cmdq_push` under `cmd_lock`. -/
def Sys.push (a : ℕ) : Option Sys :=
  (cmdqPush s.cmdq s.heap a).map fun p => { s with cmdq := p.1, heap := p.2 }

/-- A channel object is marked. -/
def Sys.close (id : ℕ) : Sys := { s with closed := Function.update s.closed id true }

end updates

/-! ### Clients -/

/-- What a client calls. -/
inductive Job
  | createChannel (procInCb : ℕ)
  | close (id : ℕ)
  | dealloc (id : ℕ)
  | shutdown
  deriving DecidableEq, Repr

/-- The command of a call is allocated; without memory the call ends. -/
def Sys.begin (s : Sys) (t : ℕ) (caller : Caller) (pc : Call → Pc) : Option ℕ → Sys × Act
  | none => ({ s with calls := s.calls + 1 }, .failed s.calls)
  | some addr =>
    let c : Call := ⟨s.calls, caller, addr⟩
    ((({ s with calls := s.calls + 1 }).write addr (some ⟨c.sent false, none⟩)).goto t (pc c), .quiet)

/-- A call begins: `PyRtpProc_create_channel`, `rtp_proc_channel_close_internal` and
`rtp_proc_shutdown_internal` up to the first access that others can see. -/
def Sys.call (s : Sys) (t : ℕ) (job : Job) (addr : Option ℕ) : Sys × Act :=
  match job with
  | .createChannel procInCb =>
    Sys.begin { s with nextChannelId := (s.nextChannelId + 1) % 2 ^ 64 } t
      (.create s.nextChannelId procInCb) .acquiring addr
  | .close id =>
    if s.closed id then ({ s with calls := s.calls + 1 }, .failed s.calls)
    else s.begin t (.close id) .clearing addr
  | .dealloc id =>
    if s.closed id then ({ s with calls := s.calls + 1 }, .quiet)
    else s.begin t (.dealloc id) (.enqueueing · false) addr
  | .shutdown =>
    if !s.workerRunning then ({ s with calls := s.calls + 1 }, .quiet)
    else (({ s with calls := s.calls + 1 }).goto t (.shuttingDown s.calls), .quiet)

/-- The end of a call without waiter. -/
def Sys.leave (s : Sys) (t : ℕ) : Caller → Sys
  | .dealloc id => (s.close id).goto t .idle
  | _ => s.goto t .idle

/-- `enqueue_command`, and where its caller goes on. -/
def Sys.enqueueCommand (s : Sys) (t : ℕ) (c : Call) (waiter : Bool) : Option (Sys × Act) :=
  if s.acceptingCommands then
    (s.push c.addr).map fun s =>
      (if waiter then s.goto t (.waiting c) else s.leave t c.caller,
        .accepted (c.sent waiter))
  else
    (s.free c.addr).map fun s =>
      (if waiter then s.goto t (.releasing c none) else s.leave t c.caller, .quiet)

/-- What follows `proc_waiter_release`. -/
def Sys.released (s : Sys) (t : ℕ) (c : Call) (status : Option ℕ) : Sys × Act :=
  match c.caller with
  | .close id =>
    if status.getD 0 = 0 then (s.goto t (.popping c id), .quiet)
    else (s.goto t .idle, .failed c.number)
  | _ => (s.goto t .idle, if status = some 0 then .quiet else .failed c.number)

/-- The section of `rtp_proc_shutdown_internal` under `cmd_lock`. -/
def Sys.queueShutdown (s : Sys) (t number : ℕ) (addr : Option ℕ) : Option (Sys × Act) :=
  if s.shutdownQueued then some (s.goto t .joining, .quiet)
  else
    match addr with
    | none => some (s.goto t .idle, .failed number)
    | some addr =>
      ((s.write addr (some ⟨⟨number, .shutdown, false⟩, none⟩)).push addr).map fun s =>
        (({ s with shutdownQueued := true, acceptingCommands := false }).goto t .joining,
          .accepted ⟨number, .shutdown, false⟩)

/-- A client thread goes on; `addr` is what `calloc` returns, where it is called. -/
def Sys.clientStep (s : Sys) (t : ℕ) (addr : Option ℕ) : Option (Sys × Act) :=
  match s.pcs t with
  | .idle => none
  | .clearing c => some (({ s with closeExc := none }).goto t (.acquiring c), .quiet)
  | .acquiring c =>
    if s.cmdWaiterBusy then (s.free c.addr).map fun s => (s.goto t .idle, .failed c.number)
    else some (({ s with cmdWaiterBusy := true }).goto t (.resetting c), .quiet)
  | .resetting c =>
    -- and `cmd->waiter = waiter`
    (s.heap c.addr).map fun cell =>
      ((({ s with cmdWaiter := waiterReset }).write c.addr
        (some { cell with val := { cell.val with waiter := true } })).goto t (.enqueueing c true), .quiet)
  | .enqueueing c waiter => s.enqueueCommand t c waiter
  | .waiting c =>
    match waiterWait s.cmdWaiter with
    | none => some (s, .quiet)
    | some status => some (s.goto t (.releasing c (some status)), .returned c.number status)
  | .releasing c status => some (({ s with cmdWaiterBusy := false }).released t c status)
  | .popping c id =>
    some (({ s with closeExc := none }.close id).goto t .idle, .closed c.number s.closeExc)
  | .shuttingDown number => s.queueShutdown t number addr
  | .joining =>
    if s.workerPc = .finished then some (({ s with workerRunning := false }).goto t .idle, .quiet)
    else some (s, .quiet)

/-! ### The worker -/

/-- `proc_set_close_exception_steal`, if it comes to it. -/
def Sys.steal (s : Sys) (waiter : Bool) (exc : Option ℕ) : Sys :=
  if waiter && exc.isSome then { s with closeExc := exc } else s

/-- `workerStep` in the system. -/
def Sys.work (s : Sys) (event : WorkerEvent) : Option (Sys × CmdOut) :=
  (workerStep s.worker event).map fun p => ({ s with worker := p.1 }, p.2)

/-- The worker goes on. -/
def Sys.goWorker (s : Sys) (pc : WorkerPc) : Sys := { s with workerPc := pc }

/-- Where the worker is at the start of a phase. -/
def Phase.workerPc : Phase → WorkerPc
  | .commands _ => .detaching
  | .due _ | .wait => .outside
  | .exited => .leaving

/-- The rest of the loop of `rtp_proc_worker`. -/
def Sys.workOutside (s : Sys) (env : CmdEnv) : Option (Sys × Act) :=
  (s.work (match s.worker.phase with
    | .due _ => .dueRound env.result env.nowNs
    | _ => .woken)).map fun p => (p.1.goWorker p.1.worker.phase.workerPc, .quiet)

/-- The worker goes on; `env` is what the world answers. -/
def Sys.workerMove (s : Sys) (env : CmdEnv) : Option (Sys × Act) :=
  match s.workerPc with
  | .detaching =>
    some (({ s with cmdq := (cmdqDetachAll s.cmdq).1 }).goWorker (.atCmd (cmdqDetachAll s.cmdq).2),
      .quiet)
  | .atCmd none =>
    (s.work (.batchEnd env.nowNs)).map fun p => (p.1.goWorker p.1.worker.phase.workerPc, .quiet)
  | .atCmd (some cmd) =>
    (s.heap cmd).bind fun cell =>
      (s.work (.command cell.val.cmd env)).map fun p =>
        (p.1.goWorker (.stealing cmd cell.next p.2), .processed cell.val p.2)
  | .stealing cmd next out =>
    (s.heap cmd).map fun cell =>
      ((s.steal cell.val.waiter out.exc).goWorker (.completing cmd next out.status), .quiet)
  | .completing cmd next status =>
    (s.heap cmd).map fun cell =>
      if cell.val.waiter then
        (({ s with cmdWaiter := waiterComplete status }).goWorker (.freeing cmd next),
          .completed cell.val.call status)
      else (s.goWorker (.freeing cmd next), .quiet)
  | .freeing cmd next => (s.free cmd).map fun s => (s.goWorker (.atCmd next), .quiet)
  | .outside => s.workOutside env
  | .leaving =>
    some (({ s with cmdq := (cmdqDetachAll s.cmdq).1 }).goWorker (.dropping (cmdqDetachAll s.cmdq).2),
      .quiet)
  | .dropping none => some (s.goWorker .finished, .quiet)
  | .dropping (some cmd) =>
    (s.heap cmd).bind fun cell =>
      (s.free cmd).map fun s => (s.goWorker (.dropping cell.next), .quiet)
  | .finished => none

/-! ### The system -/

/-- The steps: a thread begins a call, a thread goes on, the worker goes on. -/
inductive Event
  | call (t : ℕ) (job : Job) (addr : Option ℕ)
  | client (t : ℕ) (addr : Option ℕ)
  | worker (env : CmdEnv)
  deriving DecidableEq, Repr

/-- One step of the system. -/
def sysStep (s : Sys) : Event → Option (Sys × Act)
  | .call t job addr => if s.pcs t = .idle then some (s.call t job addr) else none
  | .client t addr => s.clientStep t addr
  | .worker env => s.workerMove env

/-- When a step can come: a thread begins a call when it is in none, and `calloc`
returns memory that is not in use. -/
def Event.fits (s : Sys) : Event → Bool
  | .call t _ addr => s.pcs t = .idle && addr.all fun a => (s.heap a).isNone
  | .client t addr => s.pcs t ≠ .idle && addr.all fun a => (s.heap a).isNone
  | .worker _ => s.workerPc ≠ .finished

end RtpProc
