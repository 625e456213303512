/-
The packets on their way out of `RtpServer` (`python/RtpServer_mod.c`).

`send_pkt` pushes a packet to the queue of its channel, with the GIL in its hands; the worker
empties the queues after each `poll`, without the GIL, and sends what it finds to the target
of the channel.  The queue is `SPMCQueue`, one access after the other: its producers are the
Python threads, one at a time because of the GIL, and its consumer is the worker.  All other
steps of the system go on in between as in `RtpServerClients`.

What is in a packet is its bytes; the reference to them that `send_pkt` takes is dropped by
the worker, for which it needs the GIL, between two packets.  `sendto` counts as sending,
whatever it returns.

* `outStep` — one step, in which at most one access to a queue is made;
* `OutMove` — what a step can do.
-/
import LibRtpSynth.RtpServerTargets
import LibRtpSynth.SpmcQueueInside

open CWords Runs RtpSync

namespace RtpServer

/-! ### State -/

/-- `RtpSendItem`: the bytes. -/
abbrev Packet := List UInt8

/-- Where the worker is with `drain_outputs`. -/
inductive Drain
  /-- It does not come to it, or it is in another part of its loop. -/
  | off
  /-- It comes to it behind `poll_inputs`. -/
  | due
  /-- At the head of the loop over the channels. -/
  | next (i : ℕ)
  /-- In `try_pop` for the channel `ch`, which is element `i` of the table. -/
  | trying (i : ℕ) (ch : RtpChannelState)
  /-- In `free_send_item`, before the GIL. -/
  | freeing (i : ℕ) (ch : RtpChannelState)
  deriving DecidableEq, Repr

/-- The system with the queues of its channels; `hasTarget` is the member of the channel
objects. -/
structure OutSys where
  base : Sys
  outQ : ℕ → Option (Spmc.Sys Unit Packet)
  hasTarget : ℕ → Bool
  drain : Drain

/-- The exceptions that `send_pkt` raises. -/
inductive SendError
  /-- "channel is closed" -/
  | closed
  /-- "channel target is not set" -/
  | noTarget
  /-- "RtpServer is shutting down" -/
  | shuttingDown
  /-- `RtpQueueFullError`: "channel output queue is full" -/
  | queueFull
  deriving DecidableEq, Repr

/-- What a step is seen to do. -/
inductive OutAct
  | quiet
  | other (act : Act)
  /-- `send_pkt` calls `try_push`. -/
  | offered (channel : ℕ)
  /-- `send_pkt` returns. -/
  | accepted (channel : ℕ) (packet : Packet)
  /-- `send_pkt` raises. -/
  | refused (channel : ℕ) (error : SendError)
  /-- The worker calls `try_pop`. -/
  | popping (channel : ℕ)
  /-- The worker has popped a packet, and calls `sendto`. -/
  | sent (ch : RtpChannelState) (packet : Packet)
  /-- The worker has popped a packet, and does not. -/
  | discarded (ch : RtpChannelState) (packet : Packet)
  /-- The worker has found the queue empty. -/
  | drained (channel : ℕ)
  deriving DecidableEq, Repr

/-! ### Steps -/

/-- An access to the queue of a channel. -/
def OutSys.access (s : OutSys) (channel : ℕ) (act : Spmc.Action Unit Packet) :
    Option (OutSys × Spmc.Event Unit Packet) :=
  (s.outQ channel).bind fun q =>
    (Spmc.sysStep q act).map fun p =>
      ({ s with outQ := Function.update s.outQ channel (some p.1) }, p.2)

/-- What `PyRtpChannel_send_pkt` looks at before it pushes. -/
def OutSys.refuses (s : OutSys) (channel : ℕ) : Option SendError :=
  if s.base.closed channel then some .closed
  else if !s.hasTarget channel then some .noTarget
  else if !s.base.acceptingCommands then some .shuttingDown
  else none

/-- `PyRtpChannel_send_pkt` behind an access of `try_push`. -/
def OutSys.afterPush (s : OutSys) (t channel : ℕ) : Spmc.Event Unit Packet → OutSys × OutAct
  | .pushed packet => ({ s with base := s.base.leave t .idle }, .accepted channel packet)
  | .pushFull => ({ s with base := s.base.leave t .idle }, .refused channel .queueFull)
  | _ => (s, .quiet)

/-- The worker calls `try_pop` for element `i` of the table. -/
def OutSys.pop (s : OutSys) (i : ℕ) (ch : RtpChannelState) : Option (OutSys × OutAct) :=
  (s.access ch.ptr (.callPop () .tryPop)).map fun p =>
    ({ p.1 with drain := .trying i ch }, .popping ch.ptr)

/-- The loop of `drain_outputs` over the packets behind an access of `try_pop`; `none` where
the assertion of `try_pop` fails. -/
def OutSys.afterPop (s : OutSys) (i : ℕ) (ch : RtpChannelState) :
    Spmc.Event Unit Packet → Option (OutSys × OutAct)
  | .popped _ _ (packet :: _) _ =>
    some ({ s with drain := .freeing i ch },
      if ch.hasTarget then .sent ch packet else .discarded ch packet)
  | .popEmpty _ _ => some ({ s with drain := .next (i + 1) }, .drained ch.ptr)
  | .access => some (s, .quiet)
  | _ => none

/-- The iteration comes to `poll_inputs` and `drain_outputs`. -/
def iterationPolls (self : PyRtpServer) (env : WorkerEnv) : Bool :=
  match refreshPollCache self env.pfdsAddr env.indexAddr with
  | some (self, ok) => ok && self.pollfdsLen ≠ 0 && env.tick
  | none => false

/-- The events: those of `RtpServerClients`, and those with the queues.  `create_channel`
makes the queue, in which `malloc` has left `slots`. -/
inductive OutEvent
  | other (event : Event)
  | create (t ptr fd capacity : ℕ) (slots : ℕ → Packet)
  | send (t channel : ℕ) (packet : Packet)
  | push (t : ℕ)
  | drain (spurious : Bool)

/-- The steps in which no queue has a part. -/
def Event.apartFrom (s : OutSys) : Event → Bool
  | .call _ (.createChannel _) | .send _ _ => false
  | .client t =>
    match s.base.pcs t with
    | .sending _ => false
    | _ => true
  | .worker _ => s.drain = .off || s.base.workerPc ≠ .receiving []
  | _ => true

/-- Where the worker is with `drain_outputs` after such a step. -/
def OutSys.drainAfter (s : OutSys) : Event → Drain
  | .worker env => if s.base.workerPc = .outside ∧ iterationPolls s.base.self env then .due else s.drain
  | _ => s.drain

/-- The calls that an event makes. -/
def OutEvent.calls : OutEvent → List Job
  | .other event => event.calls
  | .create _ ptr fd _ _ => [.createChannel ⟨ptr, fd, false, 0⟩]
  | _ => []

/-- The address of a new channel was none before. -/
def OutEvent.fresh (s : OutSys) : OutEvent → Bool
  | .create _ ptr _ _ _ => !s.base.created ptr
  | _ => true

/-! ### What a step can do -/

/-- The steps, with what each of them finds. -/
inductive OutMove (s : OutSys) : OutEvent → OutSys → OutAct → Prop
  | other (event : Event) (base : Sys) (act : Act) (hapart : event.apartFrom s = true)
      (hstep : Step s.base event base) :
      OutMove s (.other event)
        { s with base := base, hasTarget := event.marks s.base s.hasTarget, drain := s.drainAfter event }
        (.other act)
  | create (t ptr fd capacity : ℕ) (slots : ℕ → Packet) (queue : Spmc.SPMCQueue Packet) (base : Sys)
      (act : Act) (hqueue : Spmc.createQueue capacity slots = some queue)
      (hstep : Step s.base (.call t (.createChannel ⟨ptr, fd, false, 0⟩)) base) :
      OutMove s (.create t ptr fd capacity slots)
        { s with
          base := base
          hasTarget := Function.update s.hasTarget ptr false
          outQ := Function.update s.outQ ptr (some (Spmc.Sys.init queue)) } (.other act)
  | refused (t channel : ℕ) (packet : Packet) (error : SendError) (h : s.refuses channel = some error) :
      OutMove s (.send t channel packet) s (.refused channel error)
  | offered (t channel : ℕ) (packet : Packet) (q q' : Spmc.Sys Unit Packet)
      (e : Spmc.Event Unit Packet) (hstep : Step s.base (.send t channel) (s.base.enter t (.sending channel)))
      (h : s.refuses channel = none) (hq : s.outQ channel = some q)
      (hs : Spmc.sysStep q (.callPush packet) = some (q', e)) :
      OutMove s (.send t channel packet)
        { s with
          base := s.base.enter t (.sending channel)
          outQ := Function.update s.outQ channel (some q') } (.offered channel)
  | push (t channel : ℕ) (q q' : Spmc.Sys Unit Packet) (e : Spmc.Event Unit Packet)
      (hpc : s.base.pcs t = .sending channel) (hq : s.outQ channel = some q)
      (hs : Spmc.sysStep q .producer = some (q', e)) :
      OutMove s (.push t)
        (OutSys.afterPush { s with outQ := Function.update s.outQ channel (some q') } t channel e).1
        (OutSys.afterPush { s with outQ := Function.update s.outQ channel (some q') } t channel e).2
  | begins (spurious : Bool) (hdrain : s.drain = .due) (hpc : s.base.workerPc = .receiving []) :
      OutMove s (.drain spurious) { s with drain := .next 0 } .quiet
  | ends (spurious : Bool) (i : ℕ) (hdrain : s.drain = .next i) :
      OutMove s (.drain spurious) { s with base := s.base.goWorker .detaching, drain := .off } .quiet
  | skips (spurious : Bool) (i : ℕ) (hdrain : s.drain = .next i) :
      OutMove s (.drain spurious) { s with drain := .next (i + 1) } .quiet
  | pops (spurious : Bool) (i : ℕ) (ch : RtpChannelState) (q q' : Spmc.Sys Unit Packet)
      (e : Spmc.Event Unit Packet)
      (hdrain : s.drain = .next i ∧ s.base.self.channels[i]? = some (some ch) ∨ s.drain = .freeing i ch)
      (hq : s.outQ ch.ptr = some q) (hs : Spmc.sysStep q (.callPop () .tryPop) = some (q', e)) :
      OutMove s (.drain spurious)
        { s with outQ := Function.update s.outQ ch.ptr (some q'), drain := .trying i ch }
        (.popping ch.ptr)
  | tries (spurious : Bool) (i : ℕ) (ch : RtpChannelState) (q q' : Spmc.Sys Unit Packet)
      (e : Spmc.Event Unit Packet) (s' : OutSys) (r : OutAct) (hdrain : s.drain = .trying i ch)
      (hq : s.outQ ch.ptr = some q) (hs : Spmc.sysStep q (.consumer () spurious) = some (q', e))
      (hafter : OutSys.afterPop { s with outQ := Function.update s.outQ ch.ptr (some q') } i ch e =
        some (s', r)) :
      OutMove s (.drain spurious) s' r

section inversion

variable {s s' : OutSys} {event : OutEvent} {r : OutAct}

end inversion

end RtpServer
