/-
Calls that the callbacks of `RtpProc` make (`python/RtpProc_mod.c`).

A callback runs on the thread of the worker, and may call whatever the module has.  Its
calls are those of client `workerThread`, which makes them between `enter`, where the
worker comes to the callback, and `leave`, where the callback returns and the worker goes
on with the step that it came from.  A callback that makes no calls is the worker's step
alone.  `rtp_sync_waiter_wait` sleeps on the worker as on any other thread;
`pthread_join` does not wait for the thread that calls it (`EDEADLK`).

* `Alongside`, `CbMove` — what a step leaves as it is, and what it finds;
* `CbInv` — what holds in every run, with the lock of the interpreter;
* `cbRun_waits` — the worker waits for itself when a callback calls `create_channel`, or
  `close` for an open channel, and the call is not refused, and never gets out of it.
-/
import LibRtpSynth.RtpProcClose

open RtpSync Runs

namespace RtpProc

/-! ### The thread of the worker -/

/-- The client that the worker is in a callback. -/
def workerThread : ℕ := 0

/-- The system, with the callback that the worker is in, if any: what `realloc` has
returned to the step that runs it. -/
structure CbSys extends GilSys where
  callback : Option (Option ℕ)

/-- The system behind `PyRtpProc_init`. -/
def cbStart : CbSys := ⟨gilStart, none⟩

/-- The next step of the worker runs a callback; `addr` is what `realloc` returns. -/
def Sys.invokes (s : Sys) (addr : Option ℕ) : Bool :=
  match s.workerPc with
  | .atCmd (some cmd) =>
    (s.heap cmd).any fun cell =>
      match cell.val.cmd with
      | .addChannel _ _ => (allocChannelSlot s.worker.self addr).any fun p => p.2.isSome
      | _ => false
  | .outside =>
    match s.worker.phase with
    | .due nowNs =>
      (popDueChannel s.worker.self nowNs).any fun p =>
        p.2.any fun ch => (p.1.deref ch).any fun c => c.active && c.procInCb.isSome
    | _ => false
  | _ => false

/-- The steps: those of the system, and the beginning and the end of a callback. -/
inductive CbEvent
  | step (event : Event)
  | enter (addr : Option ℕ)
  | leave (nowNs : ℕ) (result : CbResult)
  deriving DecidableEq, Repr

/-- The step of the worker that runs the callback. -/
def CbSys.resumed (s : CbSys) (nowNs : ℕ) (result : CbResult) : Option Event :=
  s.callback.map fun addr => .worker ⟨addr, nowNs, result⟩

/-- A step of the system can come. -/
def Event.free (g : GilSys) (event : Event) : Bool := event.fits g.sys && event.mayRun g

/-- The thread of the worker is in a callback or in its loop. -/
def Event.fromCallback (s : CbSys) : Event → Bool
  | .call t _ _ => t ≠ workerThread || s.callback.isSome
  | .client _ _ => true
  | .worker _ => s.callback.isNone

/-- When a step can come. -/
def CbEvent.can (s : CbSys) : CbEvent → Bool
  | .step event => event.free s.toGilSys && event.fromCallback s
  | .enter addr => s.callback.isNone && s.gil = none && s.sys.invokes addr
  | .leave nowNs result =>
    (s.resumed nowNs result).any (Event.free s.toGilSys) && s.sys.pcs workerThread = .idle &&
      result ≠ .noMemory

/-- A call of `rtp_proc_shutdown_internal` at `pthread_join`: it begins to wait for the
worker, or it has returned from it, or it does not come to it and returns. -/
inductive Join
  | starts
  | returns
  deriving DecidableEq, Repr

/-- What a step is seen to do. -/
structure Seen where
  act : Act
  join : Option Join
  deriving DecidableEq, Repr

/-- What is seen of `pthread_join`: a thread goes from one place to another. -/
def joinSeen : Pc → Pc → Option Join
  | .shuttingDown _, .joining => some .starts
  | .joining, .idle => some .returns
  | _, _ => none

/-- What a step of the system is seen to do. -/
def Event.seen (s : Sys) (event : Event) (s' : Sys) (act : Act) : Seen where
  act := act
  join :=
    match event with
    | .call _ .shutdown _ => if s.workerRunning then none else some .returns
    | .client t _ => joinSeen (s.pcs t) (s'.pcs t)
    | _ => none

/-- One step of the system with the lock of the interpreter. -/
def GilSys.seen (g : GilSys) (event : Event) : Option (GilSys × Seen) :=
  (gilStep g event).map fun p => (p.1, event.seen g.sys p.1.sys p.2)

/-- `rtp_proc_shutdown_internal` behind `pthread_join`. -/
def Sys.joined (s : Sys) (t : ℕ) : Sys := { s with workerRunning := false }.goto t .idle

/-- The worker is at `pthread_join`, for itself. -/
def Event.selfJoin (s : Sys) : Event → Bool
  | .client t _ => t = workerThread && s.pcs t = .joining
  | _ => false

/-- One step of the system with callbacks. -/
def cbStep (s : CbSys) (event : CbEvent) : Option (CbSys × Seen) :=
  if event.can s then
    match event with
    | .step event =>
      if event.selfJoin s.sys then
        some ({ s with sys := s.sys.joined workerThread }, ⟨.quiet, some .returns⟩)
      else (s.toGilSys.seen event).map fun p => (⟨p.1, s.callback⟩, p.2)
    | .enter addr => some ({ s with callback := some addr }, ⟨.quiet, none⟩)
    | .leave nowNs result =>
      (s.resumed nowNs result).bind fun event =>
        (s.toGilSys.seen event).map fun p => (⟨p.1, none⟩, p.2)
  else none

/-- The worker is in `rtp_sync_waiter_wait`. -/
def Blocked (s : CbSys) : Prop := ∃ c, s.sys.pcs workerThread = .waiting c

/-- The calls that come to wait for the worker. -/
def Job.waits (s : Sys) : Job → Bool
  | .createChannel _ => true
  | .close id => !s.closed id
  | _ => false

/-- A callback makes a call that waits for the worker and is not refused. -/
def CbEvent.selfWait (s : CbSys) : CbEvent → Bool
  | .step (.call t job addr) =>
    t = workerThread && (s.sys.acceptingCommands && !s.sys.cmdWaiterBusy) && job.waits s.sys && addr.isSome
  | _ => false

section steps

variable {acts : List Act} {outs : List Seen} {g g' : GilSys} {s s' : CbSys} {t : ℕ} {event : Event}
  {addr : Option ℕ} {act : Act} {seen : Seen} {c : Call} {cb : CbEvent}

/-! ### A step of the system -/

theorem goto_self (s : Sys) (t : ℕ) (pc : Pc) : (s.goto t pc).pcs t = pc := Function.update_self t _ s.pcs

/-- A call begins when the thread is in none. -/
theorem sysStep_call {s s' : Sys} {job : Job} (h : sysStep s (.call t job addr) = some (s', act)) :
    s.pcs t = .idle ∧ s.call t job addr = (s', act) := by
  rw [sysStep] at h
  split at h
  · rename_i hidle
    exact ⟨hidle, Option.some.inj h⟩
  · cases h

/-- The steps of the thread of the worker, and the others. -/
inductive Event.Whose : Event → Prop
  | call (job : Job) (addr : Option ℕ) : Whose (.call workerThread job addr)
  | client (addr : Option ℕ) : Whose (.client workerThread addr)
  | other (event : Event) (hcall : ∀ job addr, event ≠ .call workerThread job addr)
      (hclient : ∀ addr, event ≠ .client workerThread addr) : Whose event

theorem Event.whose (event : Event) : event.Whose := by
  cases event with
  | call t job addr =>
    by_cases ht : t = workerThread
    · subst ht
      exact .call job addr
    · exact .other _ (fun _ _ heq => ht (Event.call.inj heq).1) fun _ => Event.noConfusion
  | client t addr =>
    by_cases ht : t = workerThread
    · subst ht
      exact .client addr
    · exact .other _ (fun _ _ => Event.noConfusion) fun _ heq => ht (Event.client.inj heq).1
  | worker env => exact .other _ (fun _ _ => Event.noConfusion) fun _ => Event.noConfusion

/-- A step that is seen is a step of the system. -/
theorem seen_step (h : g.seen event = some (g', seen)) :
    sysStep g.sys event = some (g'.sys, seen.act) ∧ seen = event.seen g.sys g'.sys seen.act := by
  obtain ⟨p, hp, heq⟩ := Option.map_eq_some_iff.mp h
  obtain ⟨rfl, rfl⟩ := Prod.mk.inj heq
  obtain ⟨q, hstep, rfl⟩ := Option.map_eq_some_iff.mp hp
  exact ⟨hstep, rfl⟩

theorem seen_gil (h : g.seen (.client t addr) = some (g', seen)) :
    g'.gil = gilAfter g.gil t (g'.sys.pcs t) := by
  obtain ⟨p, hp, heq⟩ := Option.map_eq_some_iff.mp h
  obtain ⟨rfl, -⟩ := Prod.mk.inj heq
  obtain ⟨q, -, rfl⟩ := Option.map_eq_some_iff.mp hp
  rfl

/-! ### The lock of the interpreter -/

/-- The thread that is in a section with the lock has it. -/
def GilHeld (g : GilSys) : Prop := ∀ t, (g.sys.pcs t).inGil = true → g.gil = some t

/-- A step of the system keeps its invariant and the lock. -/
theorem seen_inv {cur : Option (ℕ × Sent)} {batch queue : List (ℕ × Sent)}
    (hsys : SysInv acts g.sys cur batch queue) (hgil : GilHeld g) (hfree : event.free g = true)
    (h : g.seen event = some (g', seen)) :
    (∃ cur' batch' queue', SysInv (acts ++ [seen.act]) g'.sys cur' batch' queue') ∧ GilHeld g' := by
  obtain ⟨hfits, hmay⟩ := Bool.and_eq_true_iff.mp hfree
  obtain ⟨p, hp, heq⟩ := Option.map_eq_some_iff.mp h
  obtain ⟨rfl, rfl⟩ := Prod.mk.inj heq
  obtain ⟨⟨s', act⟩, hstep, rfl⟩ := Option.map_eq_some_iff.mp hp
  obtain ⟨u, act', cur', batch', queue', hstep', hsys'⟩ := hsys.step hfits
  obtain ⟨rfl, rfl⟩ := Prod.mk.inj (Option.some.inj (hstep.symm.trans hstep'))
  refine ⟨⟨cur', batch', queue', hsys'⟩, ?_⟩
  cases event with
  | call t job addr =>
    obtain ⟨hidle, hcall⟩ := sysStep_call hstep
    obtain ⟨pc', hpcs, -⟩ := call_hop hidle job addr
    rw [hcall] at hpcs
    intro t' ht'
    dsimp only at hpcs ht' ⊢
    rw [hpcs] at ht' ⊢
    rw [Function.update_self]
    exact gil_goto hgil (.inl (of_decide_eq_true hmay)) t' ht'
  | client t addr =>
    obtain ⟨pc', hpcs, -, hop⟩ := clientStep_hop hstep
    intro t' ht'
    dsimp only at ht' ⊢
    rw [hpcs] at ht' ⊢
    rw [Function.update_self]
    refine gil_goto hgil ?_ t' ht'
    -- a thread that waits does without the lock
    rw [Event.mayRun] at hmay
    split at hmay
    · next c hpc =>
      rw [hpc] at hop
      exact .inr (.inr hop.of_waiting)
    · exact (of_decide_eq_true hmay).imp id .inl
  | worker env =>
    intro t' ht'
    dsimp only at ht' ⊢
    rw [(workerMove_turn hstep).1.pcs] at ht'
    exact hgil t' ht'

/-! ### A call under way -/

/-- What most steps of a client leave as it is. -/
structure Alongside (s' s : Sys) : Prop where
  worker : s'.worker = s.worker
  queued : s'.shutdownQueued = s.shutdownQueued
  accepting : s'.acceptingCommands = s.acceptingCommands
  running : s'.workerRunning = s.workerRunning
  undone : s.cmdWaiter.done = false → s'.cmdWaiter.done = false

theorem Alongside.refl (s : Sys) : Alongside s s := ⟨rfl, rfl, rfl, rfl, id⟩

theorem Alongside.trans {s₁ s₂ s₃ : Sys} (h : Alongside s₁ s₂) (h' : Alongside s₂ s₃) : Alongside s₁ s₃ :=
  ⟨h.worker.trans h'.worker, h.queued.trans h'.queued, h.accepting.trans h'.accepting,
    h.running.trans h'.running, fun hdone => h.undone (h'.undone hdone)⟩

theorem alongside_goto (s : Sys) (t : ℕ) (pc : Pc) : Alongside (s.goto t pc) s := ⟨rfl, rfl, rfl, rfl, id⟩

theorem alongside_free {s s' : Sys} {a : ℕ} (h : s.free a = some s') : Alongside s' s ∧ s'.pcs = s.pcs := by
  obtain ⟨cell, -, rfl⟩ := Option.map_eq_some_iff.mp h
  exact ⟨⟨rfl, rfl, rfl, rfl, id⟩, rfl⟩

theorem alongside_push {s s' : Sys} {a : ℕ} (h : s.push a = some s') : Alongside s' s ∧ s'.pcs = s.pcs := by
  obtain ⟨p, -, rfl⟩ := Option.map_eq_some_iff.mp h
  exact ⟨⟨rfl, rfl, rfl, rfl, id⟩, rfl⟩

theorem alongside_leave (s : Sys) (t : ℕ) (caller : Caller) : Alongside (s.leave t caller) s := by
  cases caller <;> exact ⟨rfl, rfl, rfl, rfl, id⟩

theorem alongside_released (s : Sys) (t : ℕ) (c : Call) (status : Option ℕ) :
    Alongside (s.released t c status).1 s := by
  rw [Sys.released]
  cases c.caller with
  | close id =>
    dsimp only
    split <;> exact alongside_goto s t _
  | create _ _ | dealloc _ => exact alongside_goto s t _

theorem enqueueCommand_spec {s s' : Sys} {waiter : Bool}
    (h : s.enqueueCommand t c waiter = some (s', act)) :
    Alongside s' s ∧ (waiter = true →
      s'.pcs t = if s.acceptingCommands then .waiting c else .releasing c none) := by
  rw [Sys.enqueueCommand] at h
  split at h
  · rename_i haccepting
    obtain ⟨u, hpush, heq⟩ := Option.map_eq_some_iff.mp h
    obtain ⟨rfl, -⟩ := Prod.mk.inj heq
    rw [if_pos haccepting]
    cases waiter with
    | true =>
      exact ⟨(alongside_goto u t _).trans (alongside_push hpush).1, fun _ => Function.update_self t _ u.pcs⟩
    | false => exact ⟨(alongside_leave u t c.caller).trans (alongside_push hpush).1, Bool.noConfusion⟩
  · rename_i haccepting
    obtain ⟨u, hfree, heq⟩ := Option.map_eq_some_iff.mp h
    obtain ⟨rfl, -⟩ := Prod.mk.inj heq
    rw [if_neg haccepting]
    cases waiter with
    | true =>
      exact ⟨(alongside_goto u t _).trans (alongside_free hfree).1, fun _ => Function.update_self t _ u.pcs⟩
    | false => exact ⟨(alongside_leave u t c.caller).trans (alongside_free hfree).1, Bool.noConfusion⟩

/-- A call of `create_channel`, `close` or a deallocation goes on. -/
theorem clientStep_alongside {s s' : Sys} (h : s.clientStep t addr = some (s', act))
    (hshut : ∀ number, s.pcs t ≠ .shuttingDown number) (hjoin : s.pcs t ≠ .joining) : Alongside s' s := by
  rw [Sys.clientStep] at h
  cases hpc : s.pcs t with
  | idle =>
    rw [hpc] at h
    cases h
  | clearing c | popping c _ =>
    rw [hpc] at h
    obtain ⟨rfl, -⟩ := Prod.mk.inj (Option.some.inj h)
    exact ⟨rfl, rfl, rfl, rfl, id⟩
  | acquiring c =>
    rw [hpc] at h
    dsimp only at h
    split at h
    · obtain ⟨u, hfree, heq⟩ := Option.map_eq_some_iff.mp h
      obtain ⟨rfl, -⟩ := Prod.mk.inj heq
      exact (alongside_goto u t .idle).trans (alongside_free hfree).1
    · obtain ⟨rfl, -⟩ := Prod.mk.inj (Option.some.inj h)
      exact ⟨rfl, rfl, rfl, rfl, id⟩
  | resetting c =>
    rw [hpc] at h
    obtain ⟨cell, -, heq⟩ := Option.map_eq_some_iff.mp h
    obtain ⟨rfl, -⟩ := Prod.mk.inj heq
    exact ⟨rfl, rfl, rfl, rfl, fun _ => rfl⟩
  | enqueueing c waiter =>
    rw [hpc] at h
    exact (enqueueCommand_spec h).1
  | waiting c =>
    rw [hpc] at h
    dsimp only at h
    split at h
    · obtain ⟨rfl, -⟩ := Prod.mk.inj (Option.some.inj h)
      exact .refl s
    · obtain ⟨rfl, -⟩ := Prod.mk.inj (Option.some.inj h)
      exact alongside_goto s t _
  | releasing c status =>
    rw [hpc] at h
    obtain rfl : _ = s' := congrArg Prod.fst (Option.some.inj h)
    exact (alongside_released _ t c status).trans ⟨rfl, rfl, rfl, rfl, id⟩
  | shuttingDown number => exact absurd hpc (hshut number)
  | joining => exact absurd hpc hjoin

/-- The section of `rtp_proc_shutdown_internal`: it fails for memory, or `CMD_SHUTDOWN` is
in the queue when `pthread_join` begins. -/
theorem clientStep_shuttingDown {s s' : Sys} {number : ℕ} (hpc : s.pcs t = .shuttingDown number)
    (h : s.clientStep t addr = some (s', act)) :
    s'.worker = s.worker ∧ s'.workerRunning = s.workerRunning ∧
      (s.cmdWaiter.done = false → s'.cmdWaiter.done = false) ∧
      (s'.pcs t = .idle ∧ s'.shutdownQueued = s.shutdownQueued ∧ s.shutdownQueued = false ∧ addr = none ∨
        s'.pcs t = .joining ∧ s'.shutdownQueued = true ∧
          (s.shutdownQueued = true ∨ addr.isSome = true)) := by
  rw [Sys.clientStep, hpc] at h
  dsimp only at h
  unfold Sys.queueShutdown at h
  split at h
  · rename_i hqueued
    obtain ⟨rfl, -⟩ := Prod.mk.inj (Option.some.inj h)
    exact ⟨rfl, rfl, id, .inr ⟨Function.update_self t _ s.pcs, hqueued, .inl hqueued⟩⟩
  · rename_i hqueued
    cases addr with
    | none =>
      obtain ⟨rfl, -⟩ := Prod.mk.inj (Option.some.inj h)
      exact ⟨rfl, rfl, id,
        .inl ⟨Function.update_self t _ s.pcs, rfl, (Bool.not_eq_true _).mp hqueued, rfl⟩⟩
    | some a =>
      obtain ⟨u, hpush, heq⟩ := Option.map_eq_some_iff.mp h
      obtain ⟨rfl, -⟩ := Prod.mk.inj heq
      have halong := (alongside_push hpush).1
      exact ⟨halong.worker, halong.running, halong.undone,
        .inr ⟨Function.update_self t _ u.pcs, rfl, .inr rfl⟩⟩

theorem clientStep_joining {s s' : Sys} (hpc : s.pcs t = .joining)
    (h : s.clientStep t addr = some (s', act)) :
    s' = s ∧ s.workerPc ≠ .finished ∨ s' = s.joined t ∧ s.workerPc = .finished := by
  rw [Sys.clientStep, hpc] at h
  dsimp only at h
  split at h
  · rename_i hfinished
    obtain ⟨rfl, -⟩ := Prod.mk.inj (Option.some.inj h)
    exact .inr ⟨rfl, hfinished⟩
  · rename_i hrunning
    obtain ⟨rfl, -⟩ := Prod.mk.inj (Option.some.inj h)
    exact .inl ⟨rfl, hrunning⟩

/-- No step of a client completes a command. -/
theorem clientStep_undone {s s' : Sys} (h : s.clientStep t addr = some (s', act))
    (hdone : s.cmdWaiter.done = false) : s'.cmdWaiter.done = false := by
  by_cases hjoin : s.pcs t = .joining
  · rcases clientStep_joining hjoin h with ⟨rfl, -⟩ | ⟨rfl, -⟩ <;> exact hdone
  · by_cases hshut : ∃ number, s.pcs t = .shuttingDown number
    · obtain ⟨number, hpc⟩ := hshut
      exact (clientStep_shuttingDown hpc h).2.2.1 hdone
    · exact (clientStep_alongside h (fun number hpc => hshut ⟨number, hpc⟩) hjoin).undone hdone

/-- Where a call that waits goes on, up to `rtp_sync_waiter_wait`. -/
theorem clientStep_clearing {s s' : Sys} (hpc : s.pcs t = .clearing c)
    (h : s.clientStep t addr = some (s', act)) :
    s'.pcs t = .acquiring c ∧ s'.cmdWaiterBusy = s.cmdWaiterBusy := by
  rw [Sys.clientStep, hpc] at h
  obtain ⟨rfl, -⟩ := Prod.mk.inj (Option.some.inj h)
  exact ⟨Function.update_self t _ s.pcs, rfl⟩

theorem clientStep_acquiring {s s' : Sys} (hpc : s.pcs t = .acquiring c)
    (h : s.clientStep t addr = some (s', act)) :
    s'.pcs t = if s.cmdWaiterBusy then .idle else .resetting c := by
  rw [Sys.clientStep, hpc] at h
  dsimp only at h
  split at h
  · rename_i hbusy
    obtain ⟨u, -, heq⟩ := Option.map_eq_some_iff.mp h
    obtain ⟨rfl, -⟩ := Prod.mk.inj heq
    rw [if_pos hbusy]
    exact Function.update_self t _ u.pcs
  · rename_i hbusy
    obtain ⟨rfl, -⟩ := Prod.mk.inj (Option.some.inj h)
    rw [if_neg hbusy]
    exact Function.update_self t _ s.pcs

theorem clientStep_resetting {s s' : Sys} (hpc : s.pcs t = .resetting c)
    (h : s.clientStep t addr = some (s', act)) : s'.pcs t = .enqueueing c true := by
  rw [Sys.clientStep, hpc] at h
  obtain ⟨cell, -, heq⟩ := Option.map_eq_some_iff.mp h
  obtain ⟨rfl, -⟩ := Prod.mk.inj heq
  exact Function.update_self t _ s.pcs

theorem clientStep_enqueueing {s s' : Sys} (hpc : s.pcs t = .enqueueing c true)
    (h : s.clientStep t addr = some (s', act)) :
    s'.pcs t = if s.acceptingCommands then .waiting c else .releasing c none := by
  rw [Sys.clientStep, hpc] at h
  exact (enqueueCommand_spec h).2 rfl

/-! ### What a step can do -/

/-- The steps, with what each of them finds. -/
inductive CbMove (s : CbSys) : CbEvent → CbSys → Seen → Prop
  | step (event : Event) (g : GilSys) (seen : Seen) (hfree : event.free s.toGilSys = true)
      (hfrom : event.fromCallback s = true) (hself : event.selfJoin s.sys = false)
      (hseen : s.toGilSys.seen event = some (g, seen)) : CbMove s (.step event) ⟨g, s.callback⟩ seen
  | join (addr : Option ℕ) (hpc : s.sys.pcs workerThread = .joining)
      (hfree : Event.free s.toGilSys (.client workerThread addr) = true) :
      CbMove s (.step (.client workerThread addr)) { s with sys := s.sys.joined workerThread }
        ⟨.quiet, some .returns⟩
  | enter (addr : Option ℕ) (hnone : s.callback = none) (hinvokes : s.sys.invokes addr = true) :
      CbMove s (.enter addr) { s with callback := some addr } ⟨.quiet, none⟩
  | leave (nowNs : ℕ) (result : CbResult) (env : CmdEnv) (g : GilSys) (seen : Seen)
      (hfree : Event.free s.toGilSys (.worker env) = true) (hidle : s.sys.pcs workerThread = .idle)
      (hseen : s.toGilSys.seen (.worker env) = some (g, seen)) :
      CbMove s (.leave nowNs result) ⟨g, none⟩ seen

theorem cbStep_move (h : cbStep s cb = some (s', seen)) : CbMove s cb s' seen := by
  rw [cbStep.eq_def] at h
  split at h
  · rename_i hcan
    cases cb with
    | step event =>
      obtain ⟨hfree, hfrom⟩ := Bool.and_eq_true_iff.mp hcan
      dsimp only at h
      split at h
      · rename_i hself
        obtain ⟨rfl, rfl⟩ := Prod.mk.inj (Option.some.inj h)
        cases event with
        | call _ _ _ | worker _ => cases hself
        | client t addr =>
          obtain ⟨ht, hpc⟩ := Bool.and_eq_true_iff.mp hself
          obtain rfl := of_decide_eq_true ht
          exact .join addr (of_decide_eq_true hpc) hfree
      · rename_i hself
        obtain ⟨p, hp, heq⟩ := Option.map_eq_some_iff.mp h
        obtain ⟨rfl, rfl⟩ := Prod.mk.inj heq
        exact .step event p.1 p.2 hfree hfrom (Bool.eq_false_iff.mpr hself) hp
    | enter addr =>
      rw [CbEvent.can, Bool.and_eq_true, Bool.and_eq_true, Option.isNone_iff_eq_none] at hcan
      obtain ⟨rfl, rfl⟩ := Prod.mk.inj (Option.some.inj h)
      exact .enter addr hcan.1.1 hcan.2
    | leave nowNs result =>
      rw [CbEvent.can, Bool.and_eq_true, Bool.and_eq_true] at hcan
      obtain ⟨⟨hany, hidle⟩, -⟩ := hcan
      obtain ⟨event, hresumed, h⟩ := Option.bind_eq_some_iff.mp h
      obtain ⟨p, hp, heq⟩ := Option.map_eq_some_iff.mp h
      obtain ⟨rfl, rfl⟩ := Prod.mk.inj heq
      rw [hresumed, Option.any_some] at hany
      obtain ⟨addr, -, rfl⟩ := Option.map_eq_some_iff.mp hresumed
      exact .leave nowNs result _ p.1 p.2 hany (of_decide_eq_true hidle) hp
  · cases h

/-! ### What holds in every run -/

/-- What holds of the system with callbacks and of what was seen so far. -/
structure CbInv (outs : List Seen) (s : CbSys) : Prop where
  sys : ∃ cur batch queue, SysInv (outs.map Seen.act) s.sys cur batch queue
  gil : GilHeld s.toGilSys
  inCallback : s.sys.pcs workerThread ≠ .idle → s.callback.isSome = true
  undone : ∀ c, s.sys.pcs workerThread = .waiting c → s.sys.cmdWaiter.done = false

theorem cbInv_start : CbInv [] cbStart where
  sys := ⟨none, [], [], sysInv_start⟩
  gil := nofun
  inCallback h := absurd rfl h
  undone := nofun

/-- Where a client that waits comes from. -/
theorem Hop.to_waiting {busy : Bool} {exc exc' : Option ℕ} {pc pc' : Pc}
    (hop : Hop busy exc pc pc' exc' act) (hwait : pc' = .waiting c) :
    pc = .enqueueing c true ∨ pc = .waiting c := by
  cases hop with
  | accept c' => exact .inl (by rw [Pc.waiting.inj hwait])
  | sleep c' => exact .inr hwait
  | shutdown _ pc _ hpc _ _ | join pc hpc =>
    rcases hpc with rfl | rfl <;> cases hwait
  | clear _ | refuse _ | acquire _ _ | reset _ | reject _ | send _ _ _ _ | wake _ _ | release _ _ _
  | failClose _ _ _ _ _ | finish _ _ _ _ _ | pop _ _ => cases hwait

/-- A client that comes to wait has reset the waiter. -/
theorem undone_of_enqueueing {cur : Option (ℕ × Sent)} {batch queue : List (ℕ × Sent)} {s : Sys}
    (hsys : SysInv acts s cur batch queue) (hpc : s.pcs t = .enqueueing c true) :
    s.cmdWaiter.done = false := by
  have hready : (Pc.stage ∘ s.pcs) t = .ready := by
    rw [Function.comp_apply, hpc]
    rfl
  exact (hsys.waiter.of_taken (.inr hready)).2.2 hready

theorem call_pcs_ne {s : Sys} (hidle : s.pcs t = .idle) (job : Job) (addr : Option ℕ)
    (hne : workerThread ≠ t) : (s.call t job addr).1.pcs workerThread = s.pcs workerThread := by
  obtain ⟨pc, hpcs, -⟩ := call_hop hidle job addr
  rw [hpcs, Function.update_of_ne hne]

/-- A call that begins leaves the waiter and the flags of the shutdown alone. -/
theorem call_alongside (s : Sys) (t : ℕ) (job : Job) (addr : Option ℕ) :
    Alongside (s.call t job addr).1 s ∧ (s.call t job addr).1.cmdWaiterBusy = s.cmdWaiterBusy := by
  cases job with
  | createChannel _ => cases addr <;> exact ⟨⟨rfl, rfl, rfl, rfl, id⟩, rfl⟩
  | close _ | dealloc _ =>
    rw [Sys.call]
    split
    · exact ⟨⟨rfl, rfl, rfl, rfl, id⟩, rfl⟩
    · cases addr <;> exact ⟨⟨rfl, rfl, rfl, rfl, id⟩, rfl⟩
  | shutdown =>
    rw [Sys.call]
    split <;> exact ⟨⟨rfl, rfl, rfl, rfl, id⟩, rfl⟩

/-- Where the thread of the worker is when a step of the system is made. -/
theorem sysStep_pcs_ne {s s' : Sys} (hne : ∀ job addr, event ≠ .call workerThread job addr)
    (hne' : ∀ addr, event ≠ .client workerThread addr) (h : sysStep s event = some (s', act)) :
    s'.pcs workerThread = s.pcs workerThread := by
  cases event with
  | call t job addr =>
    have ht : workerThread ≠ t := fun heq => hne job addr (heq ▸ rfl)
    obtain ⟨hidle, hcall⟩ := sysStep_call h
    rw [← call_pcs_ne hidle job addr ht, hcall]
  | client t addr =>
    obtain ⟨pc, hpcs, -⟩ := clientStep_hop h
    have ht : workerThread ≠ t := fun heq => hne' addr (heq ▸ rfl)
    rw [hpcs, Function.update_of_ne ht]
  | worker env => rw [(workerMove_turn h).1.pcs]

/-- Only the worker completes a command. -/
theorem sysStep_undone {s s' : Sys} (hworker : ∀ env, event ≠ .worker env)
    (h : sysStep s event = some (s', act)) (hdone : s.cmdWaiter.done = false) :
    s'.cmdWaiter.done = false := by
  cases event with
  | call t job addr =>
    obtain ⟨-, hcall⟩ := sysStep_call h
    have halong := (call_alongside s t job addr).1
    rw [hcall] at halong
    exact halong.undone hdone
  | client t addr => exact clientStep_undone h hdone
  | worker env => exact absurd rfl (hworker env)

/-- The worker is in its loop when it is in no callback. -/
theorem worker_of_fromCallback {env : CmdEnv} (h : Event.fromCallback s (.worker env) = true) :
    s.callback = none := by
  rwa [Event.fromCallback, Option.isNone_iff_eq_none] at h

/-- A step of the system, seen from the thread of the worker. -/
theorem CbInv.own {g : GilSys} (h : CbInv outs s) (hfree : event.free s.toGilSys = true)
    (hfrom : event.fromCallback s = true) (hseen : s.toGilSys.seen event = some (g, seen)) :
    CbInv (outs ++ [seen]) ⟨g, s.callback⟩ := by
  obtain ⟨cur, batch, queue, hsys⟩ := h.sys
  obtain ⟨hstep, -⟩ := seen_step hseen
  obtain ⟨hsys', hgil'⟩ := seen_inv hsys h.gil hfree hseen
  have hacts : ∃ cur' batch' queue', SysInv ((outs ++ [seen]).map Seen.act) g.sys cur' batch' queue' := by
    rw [List.map_append]
    exact hsys'
  cases event.whose with
  | call job addr =>
    obtain ⟨hidle, hcall⟩ := sysStep_call hstep
    have hcb : s.callback.isSome = true := by
      rw [Event.fromCallback, Bool.or_eq_true] at hfrom
      exact hfrom.resolve_left fun hne => absurd rfl (of_decide_eq_true hne)
    refine ⟨hacts, hgil', fun _ => hcb, fun c hwait => ?_⟩
    obtain ⟨pc, hpcs, -, -, hholder, -⟩ := call_hop hidle job addr
    rw [hcall] at hpcs
    dsimp only at hwait hpcs
    rw [hpcs, Function.update_self] at hwait
    rw [hwait] at hholder
    cases hholder
  | client addr =>
    have hne : s.sys.pcs workerThread ≠ .idle :=
      of_decide_eq_true (Bool.and_eq_true_iff.mp (Bool.and_eq_true_iff.mp hfree).1).1
    refine ⟨hacts, hgil', fun _ => h.inCallback hne, fun c hwait => ?_⟩
    obtain ⟨pc, hpcs, -, hop⟩ := clientStep_hop hstep
    rw [hpcs, Function.update_self] at hwait
    subst hwait
    refine clientStep_undone hstep ?_
    -- the thread has been waiting, or its command has just been accepted
    rcases hop.to_waiting rfl with hpc | hpc
    · exact undone_of_enqueueing hsys hpc
    · exact h.undone c hpc
  | other _ hcall hclient =>
    have hsame := sysStep_pcs_ne hcall hclient hstep
    refine ⟨hacts, hgil', fun hne => h.inCallback (hsame ▸ hne), fun c hwait => ?_⟩
    dsimp only at hwait ⊢
    rw [hsame] at hwait
    have hcb : s.callback.isSome = true := h.inCallback (hwait ▸ Pc.noConfusion)
    refine sysStep_undone (fun env heq => ?_) hstep (h.undone c hwait)
    subst heq
    rw [worker_of_fromCallback hfrom] at hcb
    cases hcb

/-- **A step of the system with callbacks.** -/
theorem CbInv.step (h : CbInv outs s) (hs : cbStep s cb = some (s', seen)) :
    CbInv (outs ++ [seen]) s' := by
  obtain ⟨cur, batch, queue, hsys⟩ := h.sys
  cases cbStep_move hs with
  | step event g seen hfree hfrom hself hseen => exact h.own hfree hfrom hseen
  | join addr hpc hfree =>
    have hidle : (s.sys.joined workerThread).pcs workerThread = .idle := goto_self _ _ _
    refine ⟨⟨cur, batch, queue, ?_⟩, fun t ht => ?_, fun hne => absurd hidle hne, fun c hwait => ?_⟩
    · rw [List.map_append]
      refine hsys.same ⟨rfl, rfl, rfl, rfl, rfl⟩ rfl ?_ ?_ ?_ rfl
      all_goals
        rw [hpc]
        rfl
    · by_cases htt : t = workerThread
      · change ((s.sys.joined workerThread).pcs t).inGil = true at ht
        rw [htt, hidle] at ht
        cases ht
      · change (Function.update s.sys.pcs workerThread .idle t).inGil = true at ht
        rw [Function.update_of_ne htt] at ht
        exact h.gil t ht
    · cases hidle.symm.trans hwait
  | enter addr hnone hinvokes =>
    refine ⟨⟨cur, batch, queue, ?_⟩, h.gil, fun _ => rfl, h.undone⟩
    rw [List.map_append]
    exact hsys.silent hsys.memory hsys.waiter hsys.calls rfl rfl rfl rfl rfl
      (fun _ _ => Act.noConfusion) rfl rfl
  | leave nowNs result env g seen hfree hidle hseen =>
    obtain ⟨hstep, -⟩ := seen_step hseen
    obtain ⟨hsys', hgil'⟩ := seen_inv hsys h.gil hfree hseen
    have hidle' : g.sys.pcs workerThread = .idle := by
      rw [(workerMove_turn hstep).1.pcs, hidle]
    refine ⟨?_, hgil', fun hne => absurd hidle' hne, fun c hwait => ?_⟩
    · rw [List.map_append]
      exact hsys'
    · cases hidle'.symm.trans hwait

/-! ### When the worker comes to wait -/

/-- A call at this place is refused: the waiter is taken, or there is a shutdown. -/
def Pc.refused (busy accepting : Bool) : Pc → Prop
  | .clearing _ | .acquiring _ => accepting = true → busy = true
  | .resetting _ | .enqueueing _ true => accepting = false
  | .waiting _ | .releasing _ (some _) => False
  | _ => True

/-- The call that the worker is in is refused. -/
def Refused (s : CbSys) : Prop :=
  (s.sys.pcs workerThread).refused s.sys.cmdWaiterBusy s.sys.acceptingCommands

theorem Refused.of_pc {pc : Pc} (hpc : s.sys.pcs workerThread = pc)
    (h : pc.refused s.sys.cmdWaiterBusy s.sys.acceptingCommands) : Refused s := by
  rw [Refused, hpc]
  exact h

/-- The thread of the worker stays where it is, and what decides about its call too. -/
theorem Refused.stays (h : Refused s) (hpcs : s'.sys.pcs workerThread = s.sys.pcs workerThread)
    (hkeep : (s.sys.pcs workerThread).inGil = true →
      s'.sys.cmdWaiterBusy = s.sys.cmdWaiterBusy ∧ s'.sys.acceptingCommands = s.sys.acceptingCommands) :
    Refused s' := by
  rw [Refused] at h ⊢
  rw [hpcs]
  cases hpc : s.sys.pcs workerThread with
  | clearing _ | acquiring _ | resetting _ | enqueueing _ _ =>
    rw [hpc] at h hkeep
    obtain ⟨hbusy, haccepting⟩ := hkeep rfl
    rwa [hbusy, haccepting]
  | waiting _ =>
    rw [hpc] at h
    exact h
  | releasing _ status =>
    rw [hpc] at h
    cases status <;> exact h
  | idle | popping _ _ | shuttingDown _ | joining => trivial

theorem clientStep_waiting {s s' : Sys} (hpc : s.pcs t = .waiting c)
    (h : s.clientStep t addr = some (s', act)) :
    s'.cmdWaiterBusy = s.cmdWaiterBusy ∧ s'.acceptingCommands = s.acceptingCommands := by
  rw [Sys.clientStep, hpc] at h
  dsimp only at h
  split at h
  all_goals
    obtain ⟨rfl, -⟩ := Prod.mk.inj (Option.some.inj h)
    exact ⟨rfl, rfl⟩

/-- A call past the test of the waiter, or without one. -/
def Pc.past : Pc → Bool
  | .enqueueing _ false | .releasing _ none | .popping _ _ | .shuttingDown _ | .joining => true
  | _ => false

theorem Hop.past {busy busy' accepting : Bool} {exc exc' : Option ℕ} {pc pc' : Pc}
    (hop : Hop busy exc pc pc' exc' act) (hpast : pc.past = true) : pc'.refused busy' accepting := by
  cases hop with
  | clear _ | refuse _ | acquire _ _ | reset _ | accept _ | reject _ | sleep _ | wake _ _ => cases hpast
  | send _ _ _ _ | release _ _ _ | failClose _ _ _ _ _ | finish _ _ _ _ _ | pop _ _ => trivial
  | shutdown _ pc _ hpc _ _ | join pc hpc => rcases hpc with rfl | rfl <;> trivial

/-- A call on the thread of the worker that is refused goes on. -/
theorem Refused.own {g : GilSys} (h : Refused s)
    (hs : s.sys.clientStep workerThread addr = some (g.sys, act)) : Refused ⟨g, s.callback⟩ := by
  obtain ⟨pc', hpcs, -, hop⟩ := clientStep_hop hs
  have hpast (hpc : (s.sys.pcs workerThread).past = true) : Refused ⟨g, s.callback⟩ := by
    refine .of_pc ?_ (hop.past hpc)
    show g.sys.pcs workerThread = pc'
    rw [hpcs, Function.update_self]
  have hsame (hshut : ∀ number, s.sys.pcs workerThread ≠ .shuttingDown number)
      (hjoin : s.sys.pcs workerThread ≠ .joining) :
      g.sys.acceptingCommands = s.sys.acceptingCommands := (clientStep_alongside hs hshut hjoin).accepting
  rw [Refused] at h
  cases hpc : s.sys.pcs workerThread with
  | idle =>
    rw [Sys.clientStep, hpc] at hs
    cases hs
  | clearing c =>
    rw [hpc] at h hsame
    obtain ⟨hnext, hbusy⟩ := clientStep_clearing hpc hs
    refine .of_pc hnext fun haccepting => ?_
    show g.sys.cmdWaiterBusy = true
    rw [hbusy]
    exact h ((hsame (fun _ => Pc.noConfusion) Pc.noConfusion).symm.trans haccepting)
  | acquiring c =>
    rw [hpc] at h hsame
    have hnext := clientStep_acquiring hpc hs
    split at hnext
    · exact .of_pc hnext trivial
    · rename_i hfree
      refine .of_pc hnext ?_
      show g.sys.acceptingCommands = false
      rw [hsame (fun _ => Pc.noConfusion) Pc.noConfusion]
      exact Bool.eq_false_iff.mpr fun haccepting => hfree (h haccepting)
  | resetting c =>
    rw [hpc] at h hsame
    refine .of_pc (clientStep_resetting hpc hs) ?_
    show g.sys.acceptingCommands = false
    rw [hsame (fun _ => Pc.noConfusion) Pc.noConfusion]
    exact h
  | enqueueing c waiter =>
    cases waiter with
    | false => exact hpast (hpc ▸ rfl)
    | true =>
      rw [hpc] at h
      have hnext := clientStep_enqueueing hpc hs
      rw [show s.sys.acceptingCommands = false from h] at hnext
      exact .of_pc hnext trivial
  | waiting c =>
    rw [hpc] at h
    exact h.elim
  | releasing c status =>
    cases status with
    | none => exact hpast (hpc ▸ rfl)
    | some _ =>
      rw [hpc] at h
      exact h.elim
  | popping _ _ | shuttingDown _ | joining => exact hpast (hpc ▸ rfl)

/-- A call of a callback that is refused. -/
theorem Refused.begin {g : GilSys} {job : Job} (hidle : s.sys.pcs workerThread = .idle)
    (hself : CbEvent.selfWait s (.step (.call workerThread job addr)) = false)
    (hs : s.sys.call workerThread job addr = (g.sys, act)) : Refused ⟨g, s.callback⟩ := by
  obtain ⟨halong, hbusy⟩ := call_alongside s.sys workerThread job addr
  rw [hs] at halong hbusy
  have hrefused (hwaits : job.waits s.sys = true) (haddr : addr.isSome = true) :
      g.sys.acceptingCommands = true → g.sys.cmdWaiterBusy = true := by
    rw [halong.accepting, hbusy]
    intro haccepting
    by_contra hfree
    rw [CbEvent.selfWait, haccepting, Bool.eq_false_iff.mpr hfree, hwaits, haddr] at hself
    cases hself
  have hat {pc : Pc} (hpc : (s.sys.call workerThread job addr).1.pcs workerThread = pc)
      (h : pc.refused g.sys.cmdWaiterBusy g.sys.acceptingCommands) : Refused ⟨g, s.callback⟩ := by
    rw [hs] at hpc
    exact .of_pc hpc h
  cases job with
  | createChannel procInCb =>
    cases addr with
    | none => exact hat hidle trivial
    | some a => exact hat (goto_self _ _ _) (hrefused rfl rfl)
  | close id =>
    rw [Sys.call] at hat
    split at hat
    · exact hat hidle trivial
    · rename_i hopen
      cases addr with
      | none => exact hat hidle trivial
      | some a =>
        refine hat (goto_self _ _ _) (hrefused ?_ rfl)
        rw [Job.waits, Bool.eq_false_iff.mpr hopen]
        rfl
  | dealloc id =>
    rw [Sys.call] at hat
    split at hat
    · exact hat hidle trivial
    · cases addr with
      | none => exact hat hidle trivial
      | some a => exact hat (goto_self _ _ _) trivial
  | shutdown =>
    rw [Sys.call] at hat
    split at hat
    · exact hat hidle trivial
    · exact hat (goto_self _ _ _) trivial

/-- With the lock of the interpreter the worker keeps others from the waiter and from
`shutdown`. -/
theorem Refused.other {g : GilSys} (h : Refused s) (hinv : CbInv outs s)
    (hfree : event.free s.toGilSys = true) (hfrom : event.fromCallback s = true)
    (hne : ∀ job addr, event ≠ .call workerThread job addr)
    (hne' : ∀ addr, event ≠ .client workerThread addr) (hs : sysStep s.sys event = some (g.sys, act)) :
    Refused ⟨g, s.callback⟩ := by
  obtain ⟨-, hmay⟩ := Bool.and_eq_true_iff.mp hfree
  refine h.stays (sysStep_pcs_ne hne hne' hs) fun hgil => ?_
  have hheld : s.gil = some workerThread := hinv.gil workerThread hgil
  cases event with
  | call t job addr =>
    rw [of_decide_eq_true hmay] at hheld
    cases hheld
  | client t addr =>
    have ht : t ≠ workerThread := fun heq => hne' addr (heq ▸ rfl)
    rw [Event.mayRun] at hmay
    split at hmay
    · next c hpc => exact clientStep_waiting hpc hs
    · rw [hheld] at hmay
      rcases of_decide_eq_true hmay with heq | heq
      · cases heq
      · exact absurd (Option.some.inj heq).symm ht
  | worker env =>
    have hcb : s.callback.isSome = true := hinv.inCallback fun hidle => by
      rw [hidle] at hgil
      cases hgil
    rw [worker_of_fromCallback hfrom] at hcb
    cases hcb

theorem Refused.step (h : Refused s) (hinv : CbInv outs s) (hself : cb.selfWait s = false)
    (hs : cbStep s cb = some (s', seen)) : Refused s' := by
  cases cbStep_move hs with
  | step event g seen hfree hfrom _ hseen =>
    obtain ⟨hstep, -⟩ := seen_step hseen
    cases event.whose with
    | call job addr =>
      obtain ⟨hidle, hcall⟩ := sysStep_call hstep
      exact .begin hidle hself hcall
    | client addr => exact h.own hstep
    | other _ hcall hclient => exact h.other hinv hfree hfrom hcall hclient hstep
  | join addr hpc hfree => exact .of_pc (goto_self _ _ _) trivial
  | enter addr hnone hinvokes => exact h
  | leave nowNs result env g seen hfree hidle hseen =>
    have hidle' : g.sys.pcs workerThread = .idle := by
      rw [(workerMove_turn (seen_step hseen).1).1.pcs, hidle]
    exact .of_pc hidle' trivial

/-! ### The worker waits for itself -/

/-- A worker that waits for itself never gets out of it. -/
theorem CbInv.stuck (h : CbInv outs s) (hblocked : Blocked s) (hs : cbStep s cb = some (s', seen)) :
    Blocked s' := by
  obtain ⟨c, hwait⟩ := hblocked
  have hne : s.sys.pcs workerThread ≠ .idle := by
    rw [hwait]
    exact Pc.noConfusion
  cases cbStep_move hs with
  | step event g seen hfree hfrom _ hseen =>
    obtain ⟨hstep, -⟩ := seen_step hseen
    cases event.whose with
    | call job addr => exact absurd (sysStep_call hstep).1 hne
    | client addr =>
      have hsleeps : s.sys.clientStep workerThread addr = some (s.sys, .quiet) := by
        rw [Sys.clientStep, hwait]
        dsimp only
        rw [waiterWait, h.undone c hwait]
        rfl
      obtain ⟨hsame, -⟩ := Prod.mk.inj (Option.some.inj (hstep.symm.trans hsleeps))
      exact ⟨c, hsame ▸ hwait⟩
    | other _ hcall hclient => exact ⟨c, (sysStep_pcs_ne hcall hclient hstep).trans hwait⟩
  | join addr hpc hfree => cases hwait.symm.trans hpc
  | enter addr hnone hinvokes => exact ⟨c, hwait⟩
  | leave nowNs result env g seen hfree hidle hseen => exact absurd hidle hne

/-- The thread of the worker comes to wait for itself by its own steps. -/
def ComesToWait (s : CbSys) : Prop :=
  ∃ n u outs, run cbStep s (List.replicate n (.step (.client workerThread none))) = some (u, outs) ∧
    Blocked u

/-- A call of a callback with the lock of the interpreter goes on. -/
theorem CbInv.goes (h : CbInv outs s) (hgil : (s.sys.pcs workerThread).inGil = true) :
    ∃ g seen, cbStep s (.step (.client workerThread none)) = some (⟨g, s.callback⟩, seen) ∧
      s.sys.clientStep workerThread none = some (g.sys, seen.act) ∧
      CbInv (outs ++ [seen]) ⟨g, s.callback⟩ := by
  obtain ⟨cur, batch, queue, hsys⟩ := h.sys
  have hheld : s.gil = some workerThread := h.gil workerThread hgil
  have hfits : Event.fits s.sys (.client workerThread none) = true := by
    rw [Event.fits, Bool.and_eq_true]
    refine ⟨decide_eq_true fun hidle => ?_, rfl⟩
    rw [hidle] at hgil
    cases hgil
  have hmay : Event.mayRun s.toGilSys (.client workerThread none) = true := by
    rw [Event.mayRun]
    split
    · rfl
    · exact decide_eq_true (.inr hheld)
  have hself : Event.selfJoin s.sys (.client workerThread none) = false := by
    rw [Event.selfJoin, Bool.and_eq_false_iff]
    refine .inr (decide_eq_false fun hjoin => ?_)
    rw [hjoin] at hgil
    cases hgil
  obtain ⟨s', act, -, -, -, hstep, -⟩ := hsys.step hfits
  have hseen : s.toGilSys.seen (.client workerThread none) =
      some (⟨s', gilAfter s.gil workerThread (s'.pcs workerThread)⟩,
        Event.seen s.sys (.client workerThread none) s' act) := by
    rw [GilSys.seen, gilStep, hstep]
    rfl
  have hcb : cbStep s (.step (.client workerThread none)) =
      some (⟨⟨s', gilAfter s.gil workerThread (s'.pcs workerThread)⟩, s.callback⟩,
        Event.seen s.sys (.client workerThread none) s' act) := by
    rw [cbStep.eq_def, CbEvent.can, Event.free, hfits, hmay]
    dsimp only
    rw [if_pos (by rfl), hself, hseen]
    rfl
  exact ⟨_, _, hcb, hstep, h.step hcb⟩

theorem ComesToWait.cons {cb' : Option (Option ℕ)} {g : GilSys} (h : ComesToWait ⟨g, cb'⟩)
    (hs : cbStep s (.step (.client workerThread none)) = some (⟨g, cb'⟩, seen)) : ComesToWait s := by
  obtain ⟨n, u, outs', hrun, hblocked⟩ := h
  exact ⟨n + 1, u, seen :: outs', run_cons_eq_some.mpr ⟨_, seen, outs', hs, hrun, rfl⟩, hblocked⟩

theorem CbInv.enqueueing_waits (h : CbInv outs s) (hpc : s.sys.pcs workerThread = .enqueueing c true)
    (haccepting : s.sys.acceptingCommands = true) : ComesToWait s := by
  obtain ⟨g, seen, hcb, hstep, -⟩ := h.goes (hpc ▸ rfl)
  have hnext := clientStep_enqueueing hpc hstep
  rw [if_pos haccepting] at hnext
  exact ComesToWait.cons ⟨0, _, [], rfl, c, hnext⟩ hcb

theorem CbInv.resetting_waits (h : CbInv outs s) (hpc : s.sys.pcs workerThread = .resetting c)
    (haccepting : s.sys.acceptingCommands = true) : ComesToWait s := by
  obtain ⟨g, seen, hcb, hstep, hinv⟩ := h.goes (hpc ▸ rfl)
  have halong := clientStep_alongside hstep (fun _ => hpc ▸ Pc.noConfusion) (hpc ▸ Pc.noConfusion)
  exact (hinv.enqueueing_waits (clientStep_resetting hpc hstep)
    (halong.accepting.trans haccepting)).cons hcb

theorem CbInv.acquiring_waits (h : CbInv outs s) (hpc : s.sys.pcs workerThread = .acquiring c)
    (haccepting : s.sys.acceptingCommands = true) (hbusy : s.sys.cmdWaiterBusy = false) :
    ComesToWait s := by
  obtain ⟨g, seen, hcb, hstep, hinv⟩ := h.goes (hpc ▸ rfl)
  have halong := clientStep_alongside hstep (fun _ => hpc ▸ Pc.noConfusion) (hpc ▸ Pc.noConfusion)
  have hnext := clientStep_acquiring hpc hstep
  rw [hbusy] at hnext
  exact (hinv.resetting_waits hnext (halong.accepting.trans haccepting)).cons hcb

theorem CbInv.clearing_waits (h : CbInv outs s) (hpc : s.sys.pcs workerThread = .clearing c)
    (haccepting : s.sys.acceptingCommands = true) (hbusy : s.sys.cmdWaiterBusy = false) :
    ComesToWait s := by
  obtain ⟨g, seen, hcb, hstep, hinv⟩ := h.goes (hpc ▸ rfl)
  have halong := clientStep_alongside hstep (fun _ => hpc ▸ Pc.noConfusion) (hpc ▸ Pc.noConfusion)
  obtain ⟨hnext, hsame⟩ := clientStep_clearing hpc hstep
  exact (hinv.acquiring_waits hnext (halong.accepting.trans haccepting) (hsame.trans hbusy)).cons hcb

/-- A callback that makes a call that waits, and is not refused, waits for its own thread. -/
theorem CbInv.waits (h : CbInv outs s) (hself : cb.selfWait s = true)
    (hs : cbStep s cb = some (s', seen)) : ComesToWait s' := by
  have hinv := h.step hs
  cases cbStep_move hs with
  | join _ _ _ | enter _ _ _ | leave _ _ _ _ _ _ _ _ => cases hself
  | step event g seen hfree hfrom _ hseen =>
    cases event with
    | client _ _ | worker _ => cases hself
    | call t job addr =>
      rw [CbEvent.selfWait, Bool.and_eq_true, Bool.and_eq_true, Bool.and_eq_true, Bool.and_eq_true,
        Bool.not_eq_true'] at hself
      obtain ⟨⟨⟨ht, haccepting, hbusy⟩, hwaits⟩, haddr⟩ := hself
      obtain rfl := of_decide_eq_true ht
      obtain ⟨a, rfl⟩ := Option.isSome_iff_exists.mp haddr
      obtain ⟨-, hcall⟩ := sysStep_call (seen_step hseen).1
      obtain ⟨halong, hbusy'⟩ := call_alongside s.sys workerThread job (some a)
      have hat {pc : Pc} (hpc : (s.sys.call workerThread job (some a)).1.pcs workerThread = pc) :
          g.sys.pcs workerThread = pc := by
        rwa [hcall] at hpc
      rw [hcall] at halong hbusy'
      have haccepting' := halong.accepting.trans haccepting
      cases job with
      | createChannel procInCb =>
        exact hinv.acquiring_waits (hat (goto_self _ _ _)) haccepting' (hbusy'.trans hbusy)
      | close id =>
        have hopen : s.sys.closed id = false := by simpa [Job.waits] using hwaits
        rw [Sys.call, hopen] at hat
        exact hinv.clearing_waits (hat (goto_self _ _ _)) haccepting' (hbusy'.trans hbusy)
      | dealloc _ | shutdown => cases hwaits

end steps

/-! ### Every run -/

section runs

variable {events : List CbEvent} {s : CbSys} {outs : List Seen}

theorem cbInv_of_run (h : run cbStep cbStart events = some (s, outs)) : CbInv outs s :=
  run_induction (P := fun _ _ => True) (fun _ outs s => CbInv outs s) cbInv_start
    (fun hinv _ hs => hinv.step hs) (.of_forall fun _ _ _ => trivial) h

/-- **The worker does not wait for itself** in a run in which no callback makes a call that
waits and is not refused.  A callback that makes one comes to wait, and the worker is
blocked for good. -/
theorem cbRun_waits (h : run cbStep cbStart events = some (s, outs)) :
    (Always cbStep (fun s event => event.selfWait s = false) cbStart events → ¬ Blocked s) ∧
    (Blocked s → ∀ later u outs', run cbStep s later = some (u, outs') → Blocked u) ∧
    ∀ event s' seen, CbEvent.selfWait s event = true → cbStep s event = some (s', seen) →
      ComesToWait s' := by
  have hinv := cbInv_of_run h
  refine ⟨fun hself => ?_, fun hblocked later u outs' hlater => ?_,
    fun event s' seen hwaits hs => hinv.waits hwaits hs⟩
  · rintro ⟨c, hwait⟩
    have hstart : Refused cbStart := .of_pc rfl trivial
    have href : Refused s := run_keeps (I := fun s => ∃ outs, CbInv outs s)
      (fun ⟨_, hinv⟩ hs => ⟨_, hinv.step hs⟩)
      (fun ⟨_, hinv⟩ href hevent hs => href.step hinv hevent hs) ⟨_, cbInv_start⟩ hstart hself h
    rw [Refused, hwait] at href
    exact href
  · exact run_keeps (P := fun _ _ => True) (I := fun u => ∃ outs, CbInv outs u)
      (fun ⟨_, hinv⟩ hs => ⟨_, hinv.step hs⟩) (fun ⟨_, hinv⟩ hb _ hs => hinv.stuck hb hs)
      ⟨outs, hinv⟩ hblocked (.of_forall fun _ _ _ => trivial) hlater

end runs

end RtpProc
