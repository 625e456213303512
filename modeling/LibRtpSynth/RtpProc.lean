/-
The worker of `RtpProc` (`python/RtpProc_mod.c`): the channel table, the
schedule and the loop of the worker thread.

The schedule is a list threaded through the elements of an array that is
reallocated when it is full.  A pointer to an element is the address of the
array with the number of the element, so that one into an array that has moved
leads nowhere: `none` stands for such an access, and for a failed assertion.

A callback runs with the lock of the interpreter and cannot touch these data,
which belong to the worker thread: it is what it returns.  The clock, the
results of callbacks, the allocator and the commands that come in are the
events of the worker.
-/
import LibRtpSynth.CWords
import LibRtpSynth.Linked

open CWords Linked

namespace RtpProc

/-! ### Data -/

/-- A `ProcChannelState *`. -/
structure ChPtr where
  block : ℕ
  slot : ℕ
  deriving DecidableEq, Repr

/-- `struct proc_channel_state`.  Python objects are numbers. -/
structure ProcChannelState where
  active : Bool
  scheduled : Bool
  id : ℕ
  nextRunNs : ℕ
  procInCb : Option ℕ
  cbExc : Option ℕ
  schedNext : Option ChPtr
  deriving DecidableEq, Repr

/-- An element after `memset`. -/
def ProcChannelState.zero : ProcChannelState := ⟨false, false, 0, 0, none, none, none⟩

/-- The element with another `cb_exc`. -/
def ProcChannelState.withExc (c : ProcChannelState) (exc : Option ℕ) : ProcChannelState :=
  { c with cbExc := exc }

/-- The element when a channel is put into it. -/
def ProcChannelState.filled (c : ProcChannelState) (id procInCb : ℕ) : ProcChannelState :=
  { c with
    active := true
    scheduled := false
    id := id
    nextRunNs := 0
    procInCb := some procInCb
    schedNext := none }

/-- `sizeof(ProcChannelState)`. -/
def sizeofProcChannelState : ℕ := 64

/-- The members of `PyRtpProc` that are the worker's own.  `channels` is the
address of the array, `0` for `NULL`, and `elems` its `channels_cap` elements. -/
structure PyRtpProc where
  channels : ℕ
  elems : List ProcChannelState
  channelsActive : ℕ
  schedHead : Option ChPtr
  deriving DecidableEq, Repr

/-- `PyRtpProc_new`. -/
def pyRtpProcNew : PyRtpProc := ⟨0, [], 0, none⟩

/-- What a callback does: it returns a time or `None`, it raises (or returns what
is not an unsigned 64-bit number), or there is no memory for its arguments and it
is not called. -/
inductive CbResult
  | time (nextNs : ℕ)
  | pyNone
  | raised (exc : ℕ)
  | noMemory
  deriving DecidableEq, Repr

/-- A call of a callback. -/
structure Invocation where
  id : ℕ
  nowNs : ℕ
  deadlineNs : ℕ
  result : CbResult
  deriving DecidableEq, Repr

/-! ### The array -/

section array

variable (self : PyRtpProc)

/-- The pointer to an element of the array. -/
def PyRtpProc.ptr (i : ℕ) : ChPtr := ⟨self.channels, i⟩

/-- Read the element at a pointer. -/
def PyRtpProc.deref (p : ChPtr) : Option ProcChannelState :=
  if p.block = self.channels then self.elems[p.slot]? else none

/-- Write the element at a pointer that was read. -/
def PyRtpProc.store (p : ChPtr) (c : ProcChannelState) : PyRtpProc :=
  { self with elems := self.elems.set p.slot c }

/-- Write `channels_active`. -/
def PyRtpProc.withActive (n : ℕ) : PyRtpProc := { self with channelsActive := n }

/-- The pointers of the schedule. -/
def PyRtpProc.links : Links ChPtr :=
  ⟨self.schedHead, fun p => (self.deref p).bind ProcChannelState.schedNext⟩

/-- Write a link of the schedule. -/
def PyRtpProc.setLink (v : Option ChPtr) : Option ChPtr → Option PyRtpProc
  | none => some { self with schedHead := v }
  | some p => (self.deref p).map fun c => self.store p { c with schedNext := v }

end array

/-! ### The schedule -/

/-- `unschedule_channel`. -/
def unscheduleChannel (self : PyRtpProc) (ch : ChPtr) : Option PyRtpProc := do
  let c ← self.deref ch
  if !c.scheduled then some self
  else
    let prev ← walk self.links
      (fun it => if it = ch then some true else (self.deref it).map fun _ => false)
      (self.elems.length + 1) none
    match self.links.get prev with
    | none => some (self.store ch { c with scheduled := false, schedNext := none })
    | some _ =>
      let self ← self.setLink c.schedNext prev
      let c ← self.deref ch
      some (self.store ch { c with scheduled := false, schedNext := none })

/-- The loop of `schedule_channel` and `rebuild_schedule_list` that puts an
element into the list. -/
def insertChannel (self : PyRtpProc) (ch : ChPtr) (nextNs : ℕ) : Option PyRtpProc := do
  let it ← walk self.links (fun p => (self.deref p).map fun c => nextNs < c.nextRunNs)
    (self.elems.length + 1) none
  let c ← self.deref ch
  PyRtpProc.setLink (self.store ch { c with schedNext := self.links.get it }) (some ch) it

/-- `schedule_channel`. -/
def scheduleChannel (self : PyRtpProc) (ch : ChPtr) (nextNs : ℕ) : Option PyRtpProc := do
  let c ← self.deref ch
  let self ← (if c.scheduled then unscheduleChannel self ch else some self)
  let c ← self.deref ch
  insertChannel
    (self.store ch { c with nextRunNs := nextNs, scheduled := true, schedNext := none }) ch nextNs

/-- The loop of `rebuild_schedule_list` over the elements `idxs`. -/
def rebuildLoop : PyRtpProc → List ℕ → Option PyRtpProc
  | self, [] => some self
  | self, i :: idxs => do
    let c ← self.deref (self.ptr i)
    let cleared := self.store (self.ptr i) { c with schedNext := none }
    let self ← (if !c.active ∨ !c.scheduled then some cleared
      else insertChannel cleared (self.ptr i) c.nextRunNs)
    rebuildLoop self idxs

/-- `rebuild_schedule_list`. -/
def rebuildScheduleList (self : PyRtpProc) : Option PyRtpProc :=
  rebuildLoop { self with schedHead := none } (List.range self.elems.length)

/-- `pop_due_channel`. -/
def popDueChannel (self : PyRtpProc) (nowNs : ℕ) : Option (PyRtpProc × Option ChPtr) :=
  match self.schedHead with
  | none => some (self, none)
  | some ch => do
    let c ← self.deref ch
    if c.nextRunNs > nowNs then some (self, none)
    else
      some (({ self with schedHead := c.schedNext } : PyRtpProc).store ch
        { c with schedNext := none, scheduled := false }, some ch)

/-! ### The table -/

/-- `release_channel_state`. -/
def releaseChannelState (self : PyRtpProc) (ch : ChPtr) : Option PyRtpProc := do
  let c ← self.deref ch
  if !c.active then some self
  else
    let self ← unscheduleChannel self ch
    let c ← self.deref ch
    some (self.store ch
      { c with
        procInCb := none
        cbExc := none
        id := 0
        active := false
        nextRunNs := 0
        schedNext := none })

/-- `clear_channels`. -/
def clearChannels (self : PyRtpProc) : Option PyRtpProc :=
  ((List.range self.elems.length).foldlM
    (fun self i => releaseChannelState self (self.ptr i)) self).map fun _ => ⟨0, [], 0, none⟩

/-- The array at a new address, with `n` more elements. -/
def PyRtpProc.grown (self : PyRtpProc) (addr n : ℕ) : PyRtpProc :=
  { self with channels := addr, elems := self.elems ++ List.replicate n .zero }

/-- `ensure_channel_capacity`; the flag tells success. -/
def ensureChannelCapacity (self : PyRtpProc) (need : ℕ) (addr : Option ℕ) :
    Option (PyRtpProc × Bool) :=
  if need ≤ self.elems.length then some (self, true)
  else
    match growCap 65 (if self.elems.length = 0 then 4 else self.elems.length) need with
    | none => some (self, false)
    | some newCap =>
      let size := newCap * sizeofProcChannelState % 2 ^ 64
      match realloc size addr with
      | none => some (self, false)
      | some newChannels =>
        -- `memset` up to `new_cap` elements
        if size < newCap * sizeofProcChannelState then none
        else
          let grown := self.grown newChannels (newCap - self.elems.length)
          if self.channels ≠ newChannels ∧ self.schedHead ≠ none then
            (rebuildScheduleList grown).map fun self => (self, true)
          else some (grown, true)

/-- `alloc_channel_slot`. -/
def allocChannelSlot (self : PyRtpProc) (addr : Option ℕ) : Option (PyRtpProc × Option ℕ) :=
  match self.elems.findIdx? fun c => !c.active with
  | some i => some (self, some i)
  | none => do
    let oldCap := self.elems.length
    let (self, ok) ←
      ensureChannelCapacity self (if oldCap = 0 then 4 else oldCap * 2 % 2 ^ 64) addr
    some (self, if ok then some oldCap else none)

/-- `find_channel_index`. -/
def findChannelIndex (self : PyRtpProc) (id : ℕ) : Option ℕ :=
  self.elems.findIdx? fun c => c.active && c.id = id

/-- `remove_channel`, with the callback's exception. -/
def removeChannel (self : PyRtpProc) (id : ℕ) : Option (PyRtpProc × Option ℕ) :=
  match findChannelIndex self id with
  | none => some (self, none)
  | some idx => do
    let ch := self.ptr idx
    let c ← self.deref ch
    let self ← releaseChannelState (self.store ch (c.withExc none)) ch
    some (self.withActive (self.channelsActive - 1), c.cbExc)

/-- `channel_set_callback_exception`. -/
def channelSetCallbackException (self : PyRtpProc) (ch : ChPtr) (exc : ℕ) : Option PyRtpProc :=
  (self.deref ch).map fun c => self.store ch (c.withExc (some exc))

/-! ### Commands -/

/-- `ProcCmd`. -/
inductive ProcCmd
  | addChannel (id procInCb : ℕ)
  | removeChannel (id : ℕ)
  | shutdown
  deriving DecidableEq, Repr

/-- `ENOMEM`. -/
def enomem : ℕ := 12

/-- What the world answers while a command is processed: the address from
`realloc`, the clock, and the callback. -/
structure CmdEnv where
  addr : Option ℕ
  nowNs : ℕ
  result : CbResult
  deriving DecidableEq, Repr

/-- What comes of a command: `cmd_status`, the exception that `remove_channel`
took from the channel, and the call of a callback. -/
structure CmdOut where
  status : ℕ
  exc : Option ℕ
  invoked : Option Invocation
  deriving DecidableEq, Repr

/-- The call of a callback, if it comes to one. -/
def invokeProcCallback (id nowNs deadlineNs : ℕ) (result : CbResult) : Option Invocation :=
  if result = .noMemory then none else some ⟨id, nowNs, deadlineNs, result⟩

/-- What is done with the result of a callback; `runAt` is the time a channel is
scheduled for when its callback returns a time. -/
def takeResult (self : PyRtpProc) (ch : ChPtr) (runAt : ℕ → ℕ) : CbResult → Option PyRtpProc
  | .time nextNs => scheduleChannel self ch (runAt nextNs)
  | .raised exc => channelSetCallbackException self ch exc
  | .pyNone | .noMemory => some self

/-- `CMD_ADD_CHANNEL`. -/
def processAddChannel (self : PyRtpProc) (id procInCb : ℕ) (env : CmdEnv) :
    Option (PyRtpProc × CmdOut) := do
  let (self, slot) ← allocChannelSlot self env.addr
  match slot with
  | none => some (self, ⟨enomem, none, none⟩)
  | some slot =>
    let ch := self.ptr slot
    let c ← self.deref ch
    -- `assert(!ch->active)`
    if c.active then none
    else
      let self := (self.store ch (c.filled id procInCb)).withActive (self.channelsActive + 1)
      -- a time in the past is taken for now
      let self ← takeResult self ch
        (fun nextNs => if nextNs < env.nowNs then env.nowNs else nextNs) env.result
      some (self, ⟨0, none, invokeProcCallback id env.nowNs 0 env.result⟩)

/-- The body of the loop of `process_commands`. -/
def processCommand (self : PyRtpProc) (env : CmdEnv) : ProcCmd → Option (PyRtpProc × CmdOut)
  | .addChannel id procInCb => processAddChannel self id procInCb env
  | .removeChannel id => (removeChannel self id).map fun p => (p.1, ⟨0, p.2, none⟩)
  | .shutdown => some (self, ⟨0, none, none⟩)

/-! ### The worker thread -/

/-- Where the worker is in `rtp_proc_worker`: in `process_commands`, in the loop
over the due channels with its `now_ns`, behind it, or done. -/
inductive Phase
  | commands (shutdownSeen : Bool)
  | due (nowNs : ℕ)
  | wait
  | exited
  deriving DecidableEq, Repr

/-- The worker thread. -/
structure Worker where
  self : PyRtpProc
  phase : Phase
  deriving DecidableEq, Repr

/-- The worker thread when it starts. -/
def workerStart : Worker := ⟨pyRtpProcNew, .commands false⟩

/-- What the worker meets: the next command of a batch, the end of the batch, a
round of the loop over the due channels with what the callback does and the clock
after it, and the end of a wait. -/
inductive WorkerEvent
  | command (cmd : ProcCmd) (env : CmdEnv)
  | batchEnd (nowNs : ℕ)
  | dueRound (result : CbResult) (nowNs : ℕ)
  | woken
  deriving DecidableEq, Repr

/-- A round of the loop over the due channels: the loop goes on with the clock
returned. -/
def dueRound (self : PyRtpProc) (nowNs : ℕ) (result : CbResult) (nextNow : ℕ) :
    Option (PyRtpProc × Option ℕ × Option Invocation) := do
  let (self, ch) ← popDueChannel self nowNs
  match ch with
  | none => some (self, none, none)
  | some ch =>
    let c ← self.deref ch
    if !c.active ∨ c.procInCb = none then some (self, some nowNs, none)
    else
      -- the channel is active still when the callback returns
      let self ← takeResult self ch (fun nextNs => nextNs) result
      some (self, some nextNow, invokeProcCallback c.id nowNs c.nextRunNs result)

/-- One step of the worker, with what it returns for a command or the call it
makes in a round; `none` for an event that does not come in this phase. -/
def workerStep (w : Worker) : WorkerEvent → Option (Worker × CmdOut)
  | .command cmd env =>
    match w.phase with
    | .commands shutdownSeen =>
      (processCommand w.self env cmd).map fun p =>
        (⟨p.1, .commands (shutdownSeen || cmd = .shutdown)⟩, p.2)
    | _ => none
  | .batchEnd nowNs =>
    match w.phase with
    | .commands false => some (⟨w.self, .due nowNs⟩, ⟨0, none, none⟩)
    | .commands true =>
      (clearChannels w.self).map fun self => (⟨self, .exited⟩, ⟨0, none, none⟩)
    | _ => none
  | .dueRound result nextNow =>
    match w.phase with
    | .due nowNs =>
      (dueRound w.self nowNs result nextNow).map fun p =>
        (⟨p.1, (p.2.1.map Phase.due).getD .wait⟩, ⟨0, none, p.2.2⟩)
    | _ => none
  | .woken =>
    match w.phase with
    | .wait =>
      -- the deadline of the first channel is read, if there is one
      match w.self.schedHead with
      | none => some (⟨w.self, .commands false⟩, ⟨0, none, none⟩)
      | some ch =>
        (w.self.deref ch).map fun _ => (⟨w.self, .commands false⟩, ⟨0, none, none⟩)
    | _ => none

end RtpProc
