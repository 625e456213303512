/-
The worker of `RtpServer` (`python/RtpServer_mod.c`): the channel table, the
arrays for `poll`, and the loop of the worker thread.

The table holds pointers to channels; a pointer that is not `NULL` is here the
channel it leads to, with its address.  The arrays for `poll` are as long as
their allocations, and an element that was never written is `none`.  `none` as
a result stands for an access outside of an array, or to an element never
written, and for a failed assertion.

The allocator, the clock, `poll` and the commands that come in are the events
of the worker.
-/
import LibRtpSynth.CWords

open CWords

namespace RtpServer

/-! ### Data -/

/-- `RtpChannelState`, with its address.  The socket address of the target is a
number. -/
structure RtpChannelState where
  ptr : ℕ
  fd : ℕ
  hasTarget : Bool
  target : ℕ
  deriving DecidableEq, Repr

/-- The members of `PyRtpServer` that are the worker's own.  `channels` has
`channels_cap` elements; `pollfds` and `pollfdsIndex` have as many as were
allocated. -/
structure PyRtpServer where
  channels : List (Option RtpChannelState)
  channelsActive : ℕ
  pollfds : List (Option ℕ)
  pollfdsIndex : List (Option ℕ)
  pollfdsLen : ℕ
  pollfdsCap : ℕ
  pollfdsDirty : Bool
  deriving DecidableEq, Repr

/-- `PyRtpServer_new`. -/
def pyRtpServerNew : PyRtpServer := ⟨[], 0, [], [], 0, 0, true⟩

/-- `sizeof(RtpChannelState *)`. -/
def sizeofPointer : ℕ := 8

/-- `sizeof(struct pollfd)`. -/
def sizeofPollfd : ℕ := 8

/-! ### The table -/

/-- `clear_channels`, with the channels whose reference it drops. -/
def clearChannels (self : PyRtpServer) : PyRtpServer × List ℕ :=
  ({ self with channels := [], channelsActive := 0 },
    self.channels.filterMap fun ch => ch.map RtpChannelState.ptr)

/-- `ensure_channel_capacity`; the flag tells success. -/
def ensureChannelCapacity (self : PyRtpServer) (need : ℕ) (addr : Option ℕ) :
    Option (PyRtpServer × Bool) :=
  if need ≤ self.channels.length then some (self, true)
  else
    match growCap 65 (if self.channels.length = 0 then 4 else self.channels.length) need with
    | none => some (self, false)
    | some newCap =>
      let size := newCap * sizeofPointer % 2 ^ 64
      match realloc size addr with
      | none => some (self, false)
      | some _ =>
        -- `memset` up to `new_cap` elements
        if size < newCap * sizeofPointer then none
        else
          some ({ self with
            channels := self.channels ++ List.replicate (newCap - self.channels.length) none
            pollfdsDirty := true }, true)

/-- `alloc_channel_slot`. -/
def allocChannelSlot (self : PyRtpServer) (addr : Option ℕ) : Option (PyRtpServer × Option ℕ) :=
  match self.channels.findIdx? Option.isNone with
  | some i => some (self, some i)
  | none =>
    let oldCap := self.channels.length
    if oldCap > (2 ^ 64 - 1) / 2 then some (self, none)
    else
      (ensureChannelCapacity self (if oldCap = 0 then 4 else oldCap * 2 % 2 ^ 64) addr).map
        fun p => (p.1, if p.2 then some oldCap else none)

/-- `find_channel_index`. -/
def findChannelIndex (self : PyRtpServer) (channel : ℕ) : Option ℕ :=
  self.channels.findIdx? fun ch => ch.map RtpChannelState.ptr = some channel

/-- `remove_channel`; the flag tells whether the channel was there. -/
def removeChannel (self : PyRtpServer) (channel : ℕ) : PyRtpServer × Bool :=
  match findChannelIndex self channel with
  | none => (self, false)
  | some idx =>
    ({ self with
      channels := self.channels.set idx none
      channelsActive := self.channelsActive - 1 }, true)

/-! ### The arrays for `poll` -/

/-- `clear_poll_cache`. -/
def clearPollCache (self : PyRtpServer) : PyRtpServer :=
  { self with
    pollfds := []
    pollfdsIndex := []
    pollfdsLen := 0
    pollfdsCap := 0
    pollfdsDirty := false }

/-- An array after `realloc` to `n` elements. -/
def resized {α : Type} (l : List (Option α)) (n : ℕ) : List (Option α) :=
  l.take n ++ List.replicate (n - l.length) none

/-- The two reallocations of `refresh_poll_cache`. -/
def growPollCache (self : PyRtpServer) (need : ℕ) (pfdsAddr indexAddr : Option ℕ) :
    PyRtpServer × Bool :=
  if need > self.pollfdsCap then
    let pfdsSize := need * sizeofPollfd % 2 ^ 64
    match realloc pfdsSize pfdsAddr with
    | none => (self, false)
    | some _ =>
      let self := { self with pollfds := resized self.pollfds (pfdsSize / sizeofPollfd) }
      let indexSize := need * sizeofPointer % 2 ^ 64
      match realloc indexSize indexAddr with
      | none => (self, false)
      | some _ =>
        ({ self with
          pollfdsIndex := resized self.pollfdsIndex (indexSize / sizeofPointer)
          pollfdsCap := need }, true)
  else (self, true)

/-- The loop of `refresh_poll_cache` over the channels, with the index `i` of the
next element written. -/
def fillPollCache : List (Option RtpChannelState) → ℕ → List (Option ℕ) → List (Option ℕ) →
    Option (List (Option ℕ) × List (Option ℕ) × ℕ)
  | [], i, pollfds, pollfdsIndex => some (pollfds, pollfdsIndex, i)
  | none :: channels, i, pollfds, pollfdsIndex => fillPollCache channels i pollfds pollfdsIndex
  | some ch :: channels, i, pollfds, pollfdsIndex =>
    if i < pollfds.length ∧ i < pollfdsIndex.length then
      fillPollCache channels (i + 1) (pollfds.set i (some ch.fd)) (pollfdsIndex.set i (some ch.ptr))
    else none

/-- `refresh_poll_cache`; the flag tells success. -/
def refreshPollCache (self : PyRtpServer) (pfdsAddr indexAddr : Option ℕ) :
    Option (PyRtpServer × Bool) :=
  if !self.pollfdsDirty then some (self, true)
  else if self.channelsActive = 0 then
    some ({ self with pollfdsLen := 0, pollfdsDirty := false }, true)
  else
    match growPollCache self self.channelsActive pfdsAddr indexAddr with
    | (self, false) => some (self, false)
    | (self, true) =>
      (fillPollCache self.channels 0 self.pollfds self.pollfdsIndex).map fun p =>
        ({ self with
          pollfds := p.1
          pollfdsIndex := p.2.1
          pollfdsLen := p.2.2
          pollfdsDirty := false }, true)

/-- The elements at the given indices, which must have been written. -/
def readAll (l : List (Option ℕ)) : List ℕ → Option (List ℕ)
  | [] => some []
  | i :: idxs => l[i]?.join.bind fun a => (readAll l idxs).map (a :: ·)

/-- `poll_inputs`: the descriptors given to `poll`, and the channels that
`receive_for_channel` is called for; `ready` are the elements with an event. -/
def pollInputs (self : PyRtpServer) (ready : List ℕ) : Option (List ℕ × List ℕ) :=
  (readAll self.pollfds (List.range self.pollfdsLen)).bind fun fds =>
    (readAll self.pollfdsIndex ((List.range self.pollfdsLen).filter fun i => i ∈ ready)).map
      fun received => (fds, received)

/-! ### Commands -/

/-- `RtpServerCmd`. -/
inductive RtpServerCmd
  | addChannel (channel : RtpChannelState)
  | removeChannel (channel : ℕ)
  | setTarget (channel target : ℕ)
  | dropChannels
  | stopWorker
  deriving DecidableEq, Repr

/-- `ENOENT`. -/
def enoent : ℕ := 2

/-- `ENOMEM`. -/
def enomem : ℕ := 12

/-- What a step of the worker comes to: `cmd_status`, the channels whose reference
was dropped, and what `poll_inputs` did. -/
structure WorkerOut where
  status : ℕ
  unrefs : List ℕ
  polled : List ℕ
  received : List ℕ
  deriving DecidableEq, Repr

/-- Nothing to report. -/
def WorkerOut.quiet : WorkerOut := ⟨0, [], [], []⟩

/-- `CMD_ADD_CHANNEL`, and `free_command` for it. -/
def processAddChannel (self : PyRtpServer) (channel : RtpChannelState) (addr : Option ℕ) :
    Option (PyRtpServer × WorkerOut) :=
  (allocChannelSlot self addr).bind fun p =>
    match p.2 with
    | none => some (p.1, ⟨enomem, [channel.ptr], [], []⟩)
    | some slot =>
      -- `assert(self->channels[slot] == NULL)`
      if p.1.channels[slot]? = some none then
        some ({ p.1 with
          channels := p.1.channels.set slot (some channel)
          channelsActive := p.1.channelsActive + 1
          pollfdsDirty := true }, .quiet)
      else none

/-- `CMD_SET_TARGET`. -/
def processSetTarget (self : PyRtpServer) (channel target : ℕ) : PyRtpServer × WorkerOut :=
  match findChannelIndex self channel with
  | none => (self, ⟨enoent, [], [], []⟩)
  | some idx =>
    ({ self with
      channels := self.channels.modify idx fun ch =>
        ch.map fun ch => { ch with target := target, hasTarget := true } }, .quiet)

/-- `CMD_DROP_CHANNELS` and `CMD_STOP_WORKER`. -/
def processDropChannels (self : PyRtpServer) : PyRtpServer × WorkerOut :=
  (clearPollCache (clearChannels self).1, ⟨0, (clearChannels self).2, [], []⟩)

/-- The body of the loop of `process_commands`. -/
def processCommand (self : PyRtpServer) (addr : Option ℕ) :
    RtpServerCmd → Option (PyRtpServer × WorkerOut)
  | .addChannel channel => processAddChannel self channel addr
  | .removeChannel channel =>
    let p := removeChannel self channel
    some (if p.2 then { p.1 with pollfdsDirty := true } else p.1, .quiet)
  | .setTarget channel target => some (processSetTarget self channel target)
  | .dropChannels | .stopWorker => some (processDropChannels self)

/-! ### The worker thread -/

/-- The worker thread: `shutdownSeen` while it runs, `none` when it is done. -/
structure Worker where
  self : PyRtpServer
  shutdownSeen : Option Bool
  deriving DecidableEq, Repr

/-- The worker thread when it starts. -/
def workerStart : Worker := ⟨pyRtpServerNew, some false⟩

/-- What the worker meets: the next command of a batch, or the rest of an iteration
of its loop, with what `realloc` answers, whether the tick has come, and the
elements that `poll` finds ready. -/
inductive WorkerEvent
  | command (cmd : RtpServerCmd) (addr : Option ℕ)
  | iteration (pfdsAddr indexAddr : Option ℕ) (tick : Bool) (ready : List ℕ)
  deriving DecidableEq, Repr

/-- The rest of an iteration of `rtp_server_worker` when no shutdown was seen. -/
def iteration (self : PyRtpServer) (pfdsAddr indexAddr : Option ℕ) (tick : Bool) (ready : List ℕ) :
    Option (PyRtpServer × WorkerOut) :=
  (refreshPollCache self pfdsAddr indexAddr).bind fun p =>
    -- on failure, with nothing to poll, and before the tick, the loop starts again
    if !p.2 ∨ p.1.pollfdsLen = 0 ∨ !tick then some (p.1, .quiet)
    else (pollInputs p.1 ready).map fun q => (p.1, ⟨0, [], q.1, q.2⟩)

/-- One step of the worker. -/
def workerStep (w : Worker) : WorkerEvent → Option (Worker × WorkerOut)
  | .command cmd addr =>
    w.shutdownSeen.bind fun seen =>
      (processCommand w.self addr cmd).map fun p =>
        (⟨p.1, some (seen || cmd = .stopWorker)⟩, p.2)
  | .iteration pfdsAddr indexAddr tick ready =>
    w.shutdownSeen.bind fun seen =>
      if seen then some (⟨w.self, none⟩, .quiet)
      else
        (iteration w.self pfdsAddr indexAddr tick ready).map fun p => (⟨p.1, some false⟩, p.2)

end RtpServer
