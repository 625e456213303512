/-
The clients of `RtpServer` and its worker, as a system of threads with two locks
(`python/RtpServer_mod.c`).

Any number of Python threads call `create_channel`, `set_target`, `close`, `send_pkt` and
`shutdown`, while the worker takes their commands in batches, polls the sockets and runs
the callbacks.  The locks are the GIL and `cmd_lock`.  A step of a thread goes from one
point at which it may have to wait to the next: for the GIL, for `cmd_lock`, for the
waiter.  A section under a lock in which nothing is waited for is therefore one step; it
can only be made when nobody else has the lock.

A channel is the address of its state; when an address is given to a new channel, what
is said of the old one is over.  The queue is the list of its commands, in the order of
`rtp_sync_cmdq_push`.  A call that fails in its arguments, for memory or for a socket ends
before it takes a lock or a reference for the worker, and is no step.
`CMD_STOP_WORKER` comes from the deallocation of the server, when no channel is left.
-/
import LibRtpSynth.RtpServer
import LibRtpSynth.RtpSync

open RtpSync

namespace RtpServer

/-! ### State -/

/-- Who can have a lock. -/
inductive Thread
  | client (t : ℕ)
  | worker
  deriving DecidableEq, Repr

/-- The members of a command next to its link: `waiter` tells whether it has the waiter. -/
structure Sent where
  cmd : RtpServerCmd
  waiter : Bool
  deriving DecidableEq, Repr

/-- The calls that send a command. -/
inductive Job
  | createChannel (channel : RtpChannelState)
  | setTarget (channel target : ℕ)
  | close (channel : ℕ)
  | shutdown
  deriving DecidableEq, Repr

/-- The command of a call. -/
def Job.cmd : Job → RtpServerCmd
  | .createChannel channel => .addChannel channel
  | .setTarget channel target => .setTarget channel target
  | .close channel => .removeChannel channel
  | .shutdown => .dropChannels

/-- Where a client thread is. -/
inductive Pc
  | idle
  /-- In `send_pkt`, with the GIL. -/
  | sending (channel : ℕ)
  /-- In `server_waiter_acquire`, with the GIL, before `cmd_lock`. -/
  | acquiring (job : Job)
  /-- In `enqueue_command` or `rtp_server_drop_channels_internal`, with the GIL and the
  waiter, before `cmd_lock`. -/
  | enqueueing (job : Job)
  /-- In `rtp_sync_waiter_wait`, without the GIL. -/
  | waiting (job : Job)
  /-- In `Py_END_ALLOW_THREADS`, before the GIL. -/
  | returning (job : Job) (status : ℕ)
  /-- In `server_waiter_release`, with the GIL, before `cmd_lock`; the status is `none` for
  a command that was rejected. -/
  | releasing (job : Job) (status : Option ℕ)
  deriving DecidableEq, Repr

/-- Where the worker is. -/
inductive WorkerPc
  /-- In `detach_commands`, before `cmd_lock`. -/
  | detaching
  /-- At the head of the loop of `process_commands`, or before the `cmd_lock` of the next
  command. -/
  | atCmd
  /-- In `clear_channels`, with `cmd_lock`, before the GIL for the first of the channels
  `left`. -/
  | dropping (sent : Sent) (left : List ℕ)
  /-- Before `rtp_sync_waiter_complete`. -/
  | completing (sent : Sent) (status : ℕ) (unrefs : List ℕ)
  /-- In `free_command`, before the GIL if there is a reference to drop. -/
  | freeing (unrefs : List ℕ)
  /-- In the rest of the loop of `rtp_server_worker`. -/
  | outside
  /-- In `poll_inputs`, with the channels that `receive_for_channel` is still called for. -/
  | receiving (received : List ℕ)
  deriving DecidableEq, Repr

/-- `PyRtpServer` with the threads around it.  `closed` is the member of the channel
objects; `known` are the objects that `create_channel` has returned, `created` those it
has made, and `drops` counts how often the reference taken for the worker was dropped. -/
structure Sys where
  self : PyRtpServer
  queue : List Sent
  batch : List Sent
  cmdWaiter : Waiter
  cmdWaiterBusy : Bool
  acceptingCommands : Bool
  gil : Option Thread
  cmdLock : Option Thread
  created : ℕ → Bool
  known : ℕ → Bool
  closed : ℕ → Bool
  drops : ℕ → ℕ
  pcs : ℕ → Pc
  workerPc : WorkerPc

/-- The system behind `PyRtpServer_init`. -/
def sysStart : Sys where
  self := pyRtpServerNew
  queue := []
  batch := []
  cmdWaiter := waiterReset
  cmdWaiterBusy := false
  acceptingCommands := true
  gil := none
  cmdLock := none
  created := fun _ => false
  known := fun _ => false
  closed := fun _ => false
  drops := fun _ => 0
  pcs := fun _ => .idle
  workerPc := .detaching

/-- The exceptions that the calls raise. -/
inductive Raised
  /-- "another synchronous command is already in progress" -/
  | busy
  /-- "RtpServer is shutting down" -/
  | shuttingDown
  /-- "Server has been shutdown" -/
  | shutdown
  /-- "channel is already closed" -/
  | alreadyClosed
  /-- "channel is closed" -/
  | closed
  /-- `PyErr_NoMemory` -/
  | noMemory
  /-- "channel is no longer present" -/
  | notPresent
  /-- "failed to … (status=%d: %s)" -/
  | status (status : ℕ)
  deriving DecidableEq, Repr

/-- What a step is seen to do. -/
inductive Act
  | quiet
  /-- A call returns. -/
  | returned
  /-- A call raises. -/
  | raised (error : Raised)
  deriving DecidableEq, Repr

section updates

variable (s : Sys)

/-- A thread goes on, with or without the GIL as before. -/
def Sys.goto (t : ℕ) (pc : Pc) : Sys := { s with pcs := Function.update s.pcs t pc }

/-- A thread takes the GIL and goes on. -/
def Sys.enter (t : ℕ) (pc : Pc) : Sys := { s with gil := some (.client t) }.goto t pc

/-- A thread gives the GIL back and goes on. -/
def Sys.leave (t : ℕ) (pc : Pc) : Sys := { s with gil := none }.goto t pc

/-- The worker goes on. -/
def Sys.goWorker (pc : WorkerPc) : Sys := { s with workerPc := pc }

/-- A channel object is marked. -/
def Sys.close (channel : ℕ) : Sys := { s with closed := Function.update s.closed channel true }

/-- `rtp_channel_state_unref`, or `Py_DECREF` by the thread that closed the channel: the
reference of the worker is dropped. -/
def Sys.unref (channel : ℕ) : Sys :=
  { s with drops := Function.update s.drops channel (s.drops channel + 1) }

/-- `PyObject_New` in `create_channel`, with the reference for the worker. -/
def Sys.newChannel (channel : ℕ) : Sys :=
  { s with
    created := Function.update s.created channel true
    known := Function.update s.known channel false
    closed := Function.update s.closed channel false
    drops := Function.update s.drops channel 0 }

/-- The object is returned to Python. -/
def Sys.hand (channel : ℕ) : Sys := { s with known := Function.update s.known channel true }

/-- `rtp_sync_cmdq_push`. -/
def Sys.push (sent : Sent) : Sys := { s with queue := s.queue ++ [sent] }

end updates

/-! ### Clients -/

/-- A call begins: what `create_channel`, `set_target`, `rtp_channel_close_internal` and
`rtp_server_drop_channels_internal` do up to `server_waiter_acquire`. -/
def Sys.call (s : Sys) (t : ℕ) : Job → Sys × Act
  | .createChannel channel =>
    ((s.newChannel channel.ptr).enter t (.acquiring (.createChannel channel)), .quiet)
  | .setTarget channel target =>
    if s.closed channel then (s, .raised .closed)
    else if !s.acceptingCommands then (s, .raised .shuttingDown)
    else (s.enter t (.acquiring (.setTarget channel target)), .quiet)
  | .close channel =>
    if s.closed channel then (s, .raised .alreadyClosed)
    else if !s.acceptingCommands then (s.close channel, .raised .shutdown)
    else (s.enter t (.acquiring (.close channel)), .quiet)
  | .shutdown =>
    -- a build with assertions stops here
    if !s.acceptingCommands then (s, .returned)
    else (s.enter t (.acquiring .shutdown), .quiet)

/-- A call ends without the waiter. -/
def Sys.abandon (s : Sys) : Job → Sys
  | .createChannel channel => (s.unref channel.ptr).close channel.ptr
  | _ => s

/-- `enqueue_command`, and the section of `rtp_server_drop_channels_internal`. -/
def Sys.enqueueCommand (s : Sys) (t : ℕ) : Job → Sys
  | .shutdown =>
    ({ s.push ⟨Job.shutdown.cmd, true⟩ with acceptingCommands := false }).leave t (.waiting .shutdown)
  | job =>
    if s.acceptingCommands then (s.push ⟨job.cmd, true⟩).leave t (.waiting job)
    else s.goto t (.releasing job none)

/-- What follows `server_waiter_release`. -/
def Sys.finish (s : Sys) (status : Option ℕ) : Job → Sys
  | .createChannel channel =>
    match status with
    | none => (s.unref channel.ptr).close channel.ptr
    | some 0 => s.hand channel.ptr
    | some _ => s.close channel.ptr
  | .close channel =>
    match status with
    | none => s.close channel
    | some 0 => (s.unref channel).close channel
    | some _ => s
  | _ => s

/-- How a call ends. -/
def Job.result (status : Option ℕ) : Job → Act
  | .close _ =>
    match status with
    | none | some 0 => .returned
    | some n => .raised (.status n)
  | job =>
    match status with
    | none => .raised .shuttingDown
    | some 0 => .returned
    | some n =>
      .raised (match job with
        | .createChannel _ => if n = enomem then .noMemory else .status n
        | .setTarget _ _ => if n = enoent then .notPresent else .status n
        | _ => .status n)

/-- A client thread goes on. -/
def Sys.clientStep (s : Sys) (t : ℕ) : Option (Sys × Act) :=
  match s.pcs t with
  | .idle => none
  | .sending _ => some (s.leave t .idle, .returned)
  | .acquiring job =>
    if s.cmdLock = none then
      if s.cmdWaiterBusy then some ((s.abandon job).leave t .idle, .raised .busy)
      else
        some (({ s with cmdWaiterBusy := true, cmdWaiter := waiterReset }).goto t (.enqueueing job),
          .quiet)
    else none
  | .enqueueing job => if s.cmdLock = none then some (s.enqueueCommand t job, .quiet) else none
  | .waiting job =>
    match waiterWait s.cmdWaiter with
    | none => some (s, .quiet)
    | some status => some (s.goto t (.returning job status), .quiet)
  | .returning job status =>
    if s.gil = none then some (s.enter t (.releasing job (some status)), .quiet) else none
  | .releasing job status =>
    if s.cmdLock = none then
      some ((({ s with cmdWaiterBusy := false }).finish status job).leave t .idle, job.result status)
    else none

/-! ### The worker -/

/-- What the world answers the worker: `realloc`, the tick, `poll`. -/
structure WorkerEnv where
  addr : Option ℕ
  pfdsAddr : Option ℕ
  indexAddr : Option ℕ
  tick : Bool
  ready : List ℕ
  deriving DecidableEq, Repr

/-- The section of a command under `cmd_lock`; for the commands that drop the channels up
to the first reference. -/
def Sys.command (s : Sys) (sent : Sent) (addr : Option ℕ) : Option Sys :=
  match sent.cmd with
  | .dropChannels | .stopWorker =>
    some ({ s with cmdLock := some .worker }.goWorker (.dropping sent (clearChannels s.self).2))
  | cmd =>
    (processCommand s.self addr cmd).map fun p =>
      { s with self := p.1 }.goWorker (.completing sent p.2.status p.2.unrefs)

/-- The worker goes on. -/
def Sys.workerMove (s : Sys) (env : WorkerEnv) : Option Sys :=
  match s.workerPc with
  | .detaching =>
    if s.cmdLock = none then some ({ s with queue := [], batch := s.queue }.goWorker .atCmd) else none
  | .atCmd =>
    match s.batch with
    | [] => some (s.goWorker .outside)
    | sent :: batch =>
      if s.cmdLock = none then Sys.command { s with batch := batch } sent env.addr else none
  | .dropping sent (channel :: left) =>
    if s.gil = none then some ((s.unref channel).goWorker (.dropping sent left)) else none
  | .dropping sent [] =>
    some ({ s with self := (processDropChannels s.self).1, cmdLock := none }.goWorker
      (.completing sent 0 []))
  | .completing sent status unrefs =>
    some ({ s with cmdWaiter := if sent.waiter then waiterComplete status else s.cmdWaiter }.goWorker
      (.freeing unrefs))
  | .freeing (channel :: unrefs) =>
    if s.gil = none then some ((s.unref channel).goWorker (.freeing unrefs)) else none
  | .freeing [] => some (s.goWorker .atCmd)
  | .outside =>
    (iteration s.self env.pfdsAddr env.indexAddr env.tick env.ready).map fun p =>
      { s with self := p.1 }.goWorker (.receiving p.2.received)
  | .receiving (_ :: received) => some (s.goWorker (.receiving received))
  | .receiving [] => some (s.goWorker .detaching)

/-- `rtp_channel_close_internal` on the thread of the worker: it does not wait. -/
def Sys.closeOnWorker (s : Sys) (channel : ℕ) : Sys × Act :=
  if s.closed channel then (s, .raised .alreadyClosed)
  else if !s.acceptingCommands then (s.close channel, .raised .shutdown)
  else ((s.push ⟨.removeChannel channel, false⟩).close channel, .returned)

/-! ### The system -/

/-- The channel that a call is made on. -/
def Job.on : Job → Option ℕ
  | .setTarget channel _ | .close channel => some channel
  | _ => none

/-- The steps: a thread begins a call, a thread goes on, the worker goes on, a callback of
`pkt_in` closes a channel. -/
inductive Event
  | call (t : ℕ) (job : Job)
  | send (t channel : ℕ)
  | client (t : ℕ)
  | worker (env : WorkerEnv)
  | callback (channel : ℕ)
  deriving DecidableEq, Repr

/-- The worker is in a callback. -/
def WorkerPc.inCallback : WorkerPc → Bool
  | .receiving (_ :: _) => true
  | _ => false

/-- One step of the system.  A call begins with the GIL, on a channel that Python knows. -/
def sysStep (s : Sys) : Event → Option (Sys × Act)
  | .call t job =>
    if s.pcs t = .idle ∧ s.gil = none ∧ job.on.all s.known then some (s.call t job) else none
  | .send t channel =>
    if s.pcs t = .idle ∧ s.gil = none ∧ s.known channel then
      some (s.enter t (.sending channel), .quiet)
    else none
  | .client t => s.clientStep t
  | .worker env => (s.workerMove env).map fun s => (s, .quiet)
  | .callback channel =>
    if s.workerPc.inCallback ∧ s.gil = none ∧ s.cmdLock = none ∧ s.known channel then
      some (s.closeOnWorker channel)
    else none

/-! ### What a step can do -/

/-- The steps of a client, with what each of them finds. -/
inductive ClientMove (s : Sys) (t : ℕ) : Sys → Prop
  | sent (channel : ℕ) (hpc : s.pcs t = .sending channel) : ClientMove s t (s.leave t .idle)
  | busy (job : Job) (hpc : s.pcs t = .acquiring job) (hlock : s.cmdLock = none)
      (hbusy : s.cmdWaiterBusy = true) : ClientMove s t ((s.abandon job).leave t .idle)
  | acquired (job : Job) (hpc : s.pcs t = .acquiring job) (hlock : s.cmdLock = none)
      (hbusy : s.cmdWaiterBusy = false) :
      ClientMove s t
        (({ s with cmdWaiterBusy := true, cmdWaiter := waiterReset }).goto t (.enqueueing job))
  | enqueued (job : Job) (hpc : s.pcs t = .enqueueing job) (hlock : s.cmdLock = none) :
      ClientMove s t (s.enqueueCommand t job)
  | slept : ClientMove s t s
  | woke (job : Job) (hpc : s.pcs t = .waiting job) (hdone : s.cmdWaiter.done = true) :
      ClientMove s t (s.goto t (.returning job s.cmdWaiter.status))
  | back (job : Job) (status : ℕ) (hpc : s.pcs t = .returning job status) (hgil : s.gil = none) :
      ClientMove s t (s.enter t (.releasing job (some status)))
  | released (job : Job) (status : Option ℕ) (hpc : s.pcs t = .releasing job status)
      (hlock : s.cmdLock = none) :
      ClientMove s t ((({ s with cmdWaiterBusy := false }).finish status job).leave t .idle)

theorem clientStep_move {s s' : Sys} {t : ℕ} {act : Act} (h : s.clientStep t = some (s', act)) :
    ClientMove s t s' := by
  rw [Sys.clientStep] at h
  cases hpc : s.pcs t with
  | idle =>
    rw [hpc] at h
    cases h
  | sending channel =>
    rw [hpc] at h
    obtain ⟨rfl, -⟩ := Prod.mk.inj (Option.some.inj h)
    exact .sent channel hpc
  | acquiring job =>
    rw [hpc] at h
    dsimp only at h
    split_ifs at h with hlock hbusy
    · obtain ⟨rfl, -⟩ := Prod.mk.inj (Option.some.inj h)
      exact .busy job hpc hlock hbusy
    · obtain ⟨rfl, -⟩ := Prod.mk.inj (Option.some.inj h)
      exact .acquired job hpc hlock (Bool.eq_false_iff.mpr hbusy)
  | enqueueing job =>
    rw [hpc] at h
    dsimp only at h
    split_ifs at h with hlock
    obtain ⟨rfl, -⟩ := Prod.mk.inj (Option.some.inj h)
    exact .enqueued job hpc hlock
  | waiting job =>
    rw [hpc] at h
    dsimp only [waiterWait] at h
    cases hdone : s.cmdWaiter.done with
    | false =>
      rw [hdone] at h
      obtain ⟨rfl, -⟩ := Prod.mk.inj (Option.some.inj h)
      exact .slept
    | true =>
      rw [hdone] at h
      obtain ⟨rfl, -⟩ := Prod.mk.inj (Option.some.inj h)
      exact .woke job hpc hdone
  | returning job status =>
    rw [hpc] at h
    dsimp only at h
    split_ifs at h with hgil
    obtain ⟨rfl, -⟩ := Prod.mk.inj (Option.some.inj h)
    exact .back job status hpc hgil
  | releasing job status =>
    rw [hpc] at h
    dsimp only at h
    split_ifs at h with hlock
    obtain ⟨rfl, -⟩ := Prod.mk.inj (Option.some.inj h)
    exact .released job status hpc hlock

/-- The commands that drop the channels. -/
def RtpServerCmd.drops : RtpServerCmd → Bool
  | .dropChannels | .stopWorker => true
  | _ => false

/-- The steps of the worker, with what each of them finds. -/
inductive WorkerMove (s : Sys) : Sys → Prop
  | detached (hpc : s.workerPc = .detaching) (hlock : s.cmdLock = none) :
      WorkerMove s ({ s with queue := [], batch := s.queue }.goWorker .atCmd)
  | finished (hpc : s.workerPc = .atCmd) (hbatch : s.batch = []) : WorkerMove s (s.goWorker .outside)
  | cleared (sent : Sent) (batch : List Sent) (hpc : s.workerPc = .atCmd)
      (hbatch : s.batch = sent :: batch) (hlock : s.cmdLock = none) (hcmd : sent.cmd.drops = true) :
      WorkerMove s ({ s with batch := batch, cmdLock := some .worker }.goWorker
        (.dropping sent (clearChannels s.self).2))
  | processed (sent : Sent) (batch : List Sent) (addr : Option ℕ) (self : PyRtpServer)
      (out : WorkerOut) (hpc : s.workerPc = .atCmd) (hbatch : s.batch = sent :: batch)
      (hlock : s.cmdLock = none) (hcmd : sent.cmd.drops = false)
      (hself : processCommand s.self addr sent.cmd = some (self, out)) :
      WorkerMove s ({ s with batch := batch, self := self }.goWorker
        (.completing sent out.status out.unrefs))
  | dropped (sent : Sent) (channel : ℕ) (left : List ℕ)
      (hpc : s.workerPc = .dropping sent (channel :: left)) (hgil : s.gil = none) :
      WorkerMove s ((s.unref channel).goWorker (.dropping sent left))
  | unlocked (sent : Sent) (hpc : s.workerPc = .dropping sent []) :
      WorkerMove s ({ s with self := (processDropChannels s.self).1, cmdLock := none }.goWorker
        (.completing sent 0 []))
  | completed (sent : Sent) (status : ℕ) (unrefs : List ℕ)
      (hpc : s.workerPc = .completing sent status unrefs) :
      WorkerMove s
        ({ s with cmdWaiter := if sent.waiter then waiterComplete status else s.cmdWaiter }.goWorker
          (.freeing unrefs))
  | freed (channel : ℕ) (unrefs : List ℕ) (hpc : s.workerPc = .freeing (channel :: unrefs))
      (hgil : s.gil = none) : WorkerMove s ((s.unref channel).goWorker (.freeing unrefs))
  | next (hpc : s.workerPc = .freeing []) : WorkerMove s (s.goWorker .atCmd)
  | polled (env : WorkerEnv) (self : PyRtpServer) (out : WorkerOut) (hpc : s.workerPc = .outside)
      (hself : iteration s.self env.pfdsAddr env.indexAddr env.tick env.ready = some (self, out)) :
      WorkerMove s ({ s with self := self }.goWorker (.receiving out.received))
  | received (channel : ℕ) (received : List ℕ) (hpc : s.workerPc = .receiving (channel :: received)) :
      WorkerMove s (s.goWorker (.receiving received))
  | again (hpc : s.workerPc = .receiving []) : WorkerMove s (s.goWorker .detaching)

theorem command_move {s s' : Sys} {sent : Sent} {batch : List Sent} {addr : Option ℕ}
    (hpc : s.workerPc = .atCmd) (hbatch : s.batch = sent :: batch) (hlock : s.cmdLock = none)
    (h : Sys.command { s with batch := batch } sent addr = some s') : WorkerMove s s' := by
  rw [Sys.command] at h
  cases hcmd : sent.cmd with
  | dropChannels | stopWorker =>
    rw [hcmd] at h
    obtain rfl := Option.some.inj h
    exact .cleared sent batch hpc hbatch hlock (by rw [hcmd]; rfl)
  | addChannel _ | removeChannel _ | setTarget _ _ =>
    rw [hcmd] at h
    obtain ⟨p, hp, rfl⟩ := Option.map_eq_some_iff.mp h
    exact .processed sent batch addr p.1 p.2 hpc hbatch hlock (by rw [hcmd]; rfl) (by rw [hcmd]; exact hp)

theorem workerMove_move {s s' : Sys} {env : WorkerEnv} (h : s.workerMove env = some s') :
    WorkerMove s s' := by
  rw [Sys.workerMove.eq_def] at h
  split at h
  · next hpc =>
    split_ifs at h with hlock
    obtain rfl := Option.some.inj h
    exact .detached hpc hlock
  · next hpc =>
    split at h
    · next hbatch =>
      obtain rfl := Option.some.inj h
      exact .finished hpc hbatch
    · next sent batch hbatch =>
      split_ifs at h with hlock
      exact command_move hpc hbatch hlock h
  · next sent channel left hpc =>
    split_ifs at h with hgil
    obtain rfl := Option.some.inj h
    exact .dropped sent channel left hpc hgil
  · next sent hpc =>
    obtain rfl := Option.some.inj h
    exact .unlocked sent hpc
  · next sent status unrefs hpc =>
    obtain rfl := Option.some.inj h
    exact .completed sent status unrefs hpc
  · next channel unrefs hpc =>
    split_ifs at h with hgil
    obtain rfl := Option.some.inj h
    exact .freed channel unrefs hpc hgil
  · next hpc =>
    obtain rfl := Option.some.inj h
    exact .next hpc
  · next hpc =>
    obtain ⟨p, hp, rfl⟩ := Option.map_eq_some_iff.mp h
    exact .polled env p.1 p.2 hpc hp
  · next channel received hpc =>
    obtain rfl := Option.some.inj h
    exact .received channel received hpc
  · next hpc =>
    obtain rfl := Option.some.inj h
    exact .again hpc

/-- The steps of the system, with what each of them finds. -/
inductive Step (s : Sys) : Event → Sys → Prop
  | call (t : ℕ) (job : Job) (hidle : s.pcs t = .idle) (hgil : s.gil = none)
      (hknown : job.on.all s.known = true) : Step s (.call t job) (s.call t job).1
  | send (t channel : ℕ) (hidle : s.pcs t = .idle) (hgil : s.gil = none)
      (hknown : s.known channel = true) : Step s (.send t channel) (s.enter t (.sending channel))
  | client (t : ℕ) (s' : Sys) (hmove : ClientMove s t s') : Step s (.client t) s'
  | worker (env : WorkerEnv) (s' : Sys) (hmove : WorkerMove s s') : Step s (.worker env) s'
  | callback (channel : ℕ) (hpc : s.workerPc.inCallback = true) (hgil : s.gil = none)
      (hlock : s.cmdLock = none) (hknown : s.known channel = true) :
      Step s (.callback channel) (s.closeOnWorker channel).1

theorem sysStep_step {s s' : Sys} {event : Event} {act : Act} (h : sysStep s event = some (s', act)) :
    Step s event s' := by
  cases event with
  | call t job =>
    rw [sysStep] at h
    split_ifs at h with hcan
    obtain rfl : (s.call t job).1 = s' := congrArg Prod.fst (Option.some.inj h)
    exact .call t job hcan.1 hcan.2.1 hcan.2.2
  | send t channel =>
    rw [sysStep] at h
    split_ifs at h with hcan
    obtain rfl : s.enter t (.sending channel) = s' := congrArg Prod.fst (Option.some.inj h)
    exact .send t channel hcan.1 hcan.2.1 hcan.2.2
  | client t => exact .client t s' (clientStep_move h)
  | worker env =>
    obtain ⟨u, hu, heq⟩ := Option.map_eq_some_iff.mp h
    obtain ⟨rfl, -⟩ := Prod.mk.inj heq
    exact .worker env u (workerMove_move hu)
  | callback channel =>
    rw [sysStep] at h
    split_ifs at h with hcan
    obtain rfl : (s.closeOnWorker channel).1 = s' := congrArg Prod.fst (Option.some.inj h)
    exact .callback channel hcan.1 hcan.2.1 hcan.2.2.1 hcan.2.2.2

end RtpServer
