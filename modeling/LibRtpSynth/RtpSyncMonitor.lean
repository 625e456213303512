/-
The locks of `RtpProc` and `RtpServer` (`src/rtp_sync.c`, and what the two modules do under
`cmd_lock`).

The functions of `RtpSync` are one step each, and a thread in `rtp_sync_waiter_wait` or in
`wait_for_commands` goes on as soon as there is something for it.  Here the lock, the
condition variable and each write are steps of their own.

* `cmdRun_wakes` — the commands and `cmd_lock`: what is detached is what was accepted, and
  the worker does not sleep on a command;
* `waiterRun_wakes` — the waiter: its functions are those of `RtpSync`, and a wait returns
  what the last completion said.
-/
import LibRtpSynth.Monitor
import LibRtpSynth.RtpSync

open Runs Monitor

namespace RtpSync

/-! ### The commands -/

section commands

variable {γ : Type}

/-- The members of `PyRtpProc` and `PyRtpServer` that the functions share under `cmd_lock`;
the queue is its commands. -/
structure CmdData (γ : Type) where
  queue : List γ
  acceptingCommands : Bool
  shutdownQueued : Bool
  deriving DecidableEq, Repr

/-- The members when the worker is started. -/
def cmdStart : CmdData γ := ⟨[], true, false⟩

/-- `rtp_sync_cmdq_push`. -/
def CmdData.push (cmd : γ) (d : CmdData γ) : CmdData γ := { d with queue := d.queue ++ [cmd] }

/-- The functions that take `cmd_lock`. -/
inductive CmdOp (γ : Type)
  /-- `enqueue_command`. -/
  | enqueue (cmd : γ)
  /-- `rtp_server_drop_channels_internal`. -/
  | dropChannels (cmd : γ)
  /-- `rtp_server_stop_worker_internal`. -/
  | stopWorker (cmd : γ)
  /-- `rtp_proc_shutdown_internal`. -/
  | shutdown (cmd : γ)
  /-- `detach_commands`. -/
  | detach
  /-- `wait_for_commands`. -/
  | wait (forever : Bool)
  /-- `process_commands`, for the table of the channels. -/
  | table
  deriving DecidableEq, Repr

/-- What they do with the lock. -/
def cmdSection : CmdOp γ → Section (CmdData γ)
  | .enqueue cmd =>
    ⟨none, false, fun d => if d.acceptingCommands then [.write (CmdData.push cmd), .signal] else []⟩
  | .dropChannels cmd =>
    ⟨none, false, fun _ =>
      [.write (CmdData.push cmd), .write fun d => { d with acceptingCommands := false }, .signal]⟩
  | .stopWorker cmd =>
    ⟨none, false, fun _ =>
      [.write (CmdData.push cmd), .write fun d => { d with shutdownQueued := true },
        .write fun d => { d with acceptingCommands := false }, .signal]⟩
  | .shutdown cmd =>
    ⟨none, false, fun d =>
      if d.shutdownQueued then []
      else
        [.write (CmdData.push cmd), .write fun d => { d with shutdownQueued := true },
          .write fun d => { d with acceptingCommands := false }, .signal]⟩
  | .detach => ⟨none, false, fun _ => [.write fun d => { d with queue := [] }]⟩
  | .wait forever => ⟨some fun d => !d.queue.isEmpty, !forever, fun _ => []⟩
  | .table => ⟨none, false, fun _ => []⟩

/-- The command that a function puts into the queue. -/
def accepts : CmdOp γ × CmdData γ → Option γ
  | (.enqueue cmd, d) => if d.acceptingCommands then some cmd else none
  | (.dropChannels cmd, _) | (.stopWorker cmd, _) => some cmd
  | (.shutdown cmd, d) => if d.shutdownQueued then none else some cmd
  | _ => none

/-- The commands that it takes out of it. -/
def detaches : CmdOp γ × CmdData γ → List γ
  | (.detach, d) => d.queue
  | _ => []

/-- After it no command is accepted from `enqueue_command`. -/
def CmdOp.closes : CmdOp γ → Bool
  | .dropChannels _ | .stopWorker _ | .shutdown _ => true
  | _ => false

/-- Only `wait_for_commands` waits. -/
theorem waits_iff {op : CmdOp γ} : (cmdSection op).waits = true ↔ ∃ forever, op = .wait forever := by
  cases op <;> simp [cmdSection, Section.waits]

/-- Whoever puts a command into the queue sends a signal. -/
theorem cmdSection_signals : Signals (cmdSection : CmdOp γ → Section (CmdData γ)) := by
  intro op op' d hready' hready hafter
  obtain ⟨forever, rfl⟩ := waits_iff.mp (waits_of_not_ready hready)
  have hempty : d.queue = [] := by simpa [cmdSection, Section.ready] using hready
  cases op' with
  | enqueue cmd =>
    cases haccepting : d.acceptingCommands with
    | true => simp [cmdSection, haccepting]
    | false => simp [cmdSection, haccepting, effect, Section.ready, hempty] at hafter
  | dropChannels _ | stopWorker _ => simp [cmdSection]
  | shutdown cmd =>
    cases hqueued : d.shutdownQueued with
    | true => simp [cmdSection, hqueued, effect, Section.ready, hempty] at hafter
    | false => simp [cmdSection, hqueued]
  | detach => simp [cmdSection, effect, Section.ready, Instr.apply] at hafter
  | wait _ | table => simp [cmdSection, effect, Section.ready, hempty] at hafter

/-! #### One function as one step -/

/-- What holds of the members after the functions `es`, each with the members it found. -/
structure CmdInv (es : List (CmdOp γ × CmdData γ)) (d : CmdData γ) : Prop where
  queue : es.flatMap detaches ++ d.queue = es.filterMap accepts
  accepting : d.acceptingCommands = es.all fun e => !e.1.closes
  shutdown : d.shutdownQueued = true → d.acceptingCommands = false

theorem atomicStep_found {d d' found : CmdData γ} {op : CmdOp γ}
    (h : atomicStep cmdSection d op = some (d', found)) :
    found = d ∧ d' = effect ((cmdSection op).body d) d ∧ ∀ forever, op = .wait forever → d.queue ≠ [] := by
  rw [atomicStep] at h
  split_ifs at h with hready
  obtain ⟨rfl, rfl⟩ := Prod.mk.inj (Option.some.inj h)
  refine ⟨rfl, rfl, ?_⟩
  rintro forever rfl hempty
  simp [cmdSection, Section.ready, hempty] at hready

/-- **One function.** -/
theorem CmdInv.step {es : List (CmdOp γ × CmdData γ)} {d : CmdData γ} (h : CmdInv es d) (op : CmdOp γ) :
    CmdInv (es ++ [(op, d)]) (effect ((cmdSection op).body d) d) := by
  -- the queue that is left behind the commands taken out
  have hqueue : detaches (op, d) ++ (effect ((cmdSection op).body d) d).queue =
      d.queue ++ (accepts (op, d)).toList := by
    cases op with
    | enqueue cmd =>
      cases haccepting : d.acceptingCommands <;>
        simp [cmdSection, effect, Instr.apply, accepts, detaches, haccepting, CmdData.push]
    | shutdown cmd =>
      cases hqueued : d.shutdownQueued <;>
        simp [cmdSection, effect, Instr.apply, accepts, detaches, hqueued, CmdData.push]
    | dropChannels _ | stopWorker _ | detach | wait _ | table =>
      simp [cmdSection, effect, Instr.apply, accepts, detaches, CmdData.push]
  refine ⟨?_, ?_, ?_⟩
  · rw [List.flatMap_append, List.flatMap_singleton, List.append_assoc, hqueue, ← List.append_assoc,
      h.queue, List.filterMap_append]
    cases haccepts : accepts (op, d) <;> simp [haccepts]
  · rw [List.all_append, List.all_cons, List.all_nil, Bool.and_true, ← h.accepting]
    cases op with
    | enqueue cmd =>
      cases haccepting : d.acceptingCommands <;>
        simp [cmdSection, effect, Instr.apply, CmdOp.closes, haccepting, CmdData.push]
    | shutdown cmd =>
      cases hqueued : d.shutdownQueued with
      | true => simp [cmdSection, effect, CmdOp.closes, hqueued, h.shutdown hqueued]
      | false => simp [cmdSection, effect, Instr.apply, CmdOp.closes, hqueued]
    | dropChannels _ | stopWorker _ | detach | wait _ | table =>
      simp [cmdSection, effect, Instr.apply, CmdOp.closes]
  · have hshutdown := h.shutdown
    cases op with
    | enqueue cmd =>
      cases haccepting : d.acceptingCommands with
      | true =>
        rw [haccepting] at hshutdown
        simpa [cmdSection, effect, Instr.apply, haccepting, CmdData.push] using hshutdown
      | false => simp [cmdSection, effect, haccepting]
    | shutdown cmd =>
      cases hqueued : d.shutdownQueued with
      | true => simp [cmdSection, effect, hqueued, hshutdown hqueued]
      | false => simp [cmdSection, effect, Instr.apply, hqueued]
    | dropChannels _ | stopWorker _ => simp [cmdSection, effect, Instr.apply]
    | detach | wait _ | table => simpa [cmdSection, effect, Instr.apply] using hshutdown

/-- **A run of the functions.** -/
theorem cmdInv_of_run : ∀ {es : List (CmdOp γ × CmdData γ)} {d : CmdData γ},
    run (atomicStep cmdSection) cmdStart (es.map Prod.fst) = some (d, es.map Prod.snd) →
    CmdInv es d ∧ ∀ earlier op found later, es = earlier ++ (op, found) :: later →
      CmdInv earlier found ∧ ∀ forever, op = .wait forever → found.queue ≠ [] := by
  intro es
  induction es using List.reverseRecOn with
  | nil =>
    intro d h
    simp only [List.map_nil, run_nil, Option.some.injEq, Prod.mk.injEq, and_true] at h
    subst h
    refine ⟨⟨rfl, rfl, nofun⟩, fun earlier op found later heq => ?_⟩
    exact absurd heq.symm (List.append_ne_nil_of_right_ne_nil _ (List.cons_ne_nil _ _))
  | append_singleton es e ih =>
    intro d h
    rw [List.map_append, List.map_append, List.map_singleton, List.map_singleton] at h
    obtain ⟨u, founds, r, hu, hs, heq⟩ := run_concat_eq_some.mp h
    obtain ⟨rfl, hr⟩ := List.append_inj' heq rfl
    obtain ⟨rfl, rfl, hwait⟩ := atomicStep_found hs
    obtain ⟨hinv, hearlier⟩ := ih hu
    have he : e = (e.1, r) := Prod.ext rfl (List.singleton_inj.mp hr)
    refine ⟨by rw [he]; exact hinv.step e.1, fun earlier op found later hsplit => ?_⟩
    rcases concat_eq_append_cons hsplit with ⟨rfl, hlast⟩ | ⟨later', hbefore⟩
    · obtain ⟨rfl, rfl⟩ := Prod.mk.inj (he.symm.trans hlast)
      exact ⟨hinv, hwait⟩
    · exact hearlier earlier op found later' hbefore

/-- **No command is lost, and none is slept on.**  Any threads may run any of the functions,
one access after the other, but only the worker runs `wait_for_commands`.  Then the commands
detached and those in the queue are the commands accepted, in order; `enqueue_command` accepts
until one of the three functions for the shutdown has run; a wait that does not end by its
deadline ends with a command; when the lock is free the worker sleeps on an empty queue only,
and with a command in the queue it leaves its wait by three steps of its own; and a thread that
has the lock can go on, and one that wants it gets it when it is free. -/
theorem cmdRun_wakes {ι : Type} [DecidableEq ι] {worker : ι} {acts : List (Act ι (CmdOp γ))}
    {s : Sys ι (CmdOp γ) (CmdData γ)} {outs : List (Seen ι (CmdOp γ) (CmdData γ))}
    (hworker : ∀ t forever, .call t (.wait forever) ∈ acts → t = worker)
    (h : run (monitorStep cmdSection) (start cmdStart) acts = some (s, outs)) :
    (entries outs).flatMap detaches ++ s.settled.queue = (entries outs).filterMap accepts ∧
    (∀ earlier op d later, entries outs = earlier ++ (op, d) :: later →
      d.acceptingCommands = (earlier.all fun e => !e.1.closes) ∧
        ∀ forever, op = .wait forever → d.queue ≠ []) ∧
    (s.owner = none → ∀ t forever, (s.phase t).op = some (.wait forever) →
      (s.phase t = .asleep (.wait forever) → s.data.queue = []) ∧
        (s.data.queue ≠ [] → ∃ n ≤ 3, Leaves cmdSection t n s)) ∧
    (∀ t, s.owner = some t → ∃ act, act.thread = some t ∧ (monitorStep cmdSection s act).isSome) ∧
    ∀ t op, s.owner = none → (s.phase t = .entering op ∨ ∃ timedOut, s.phase t = .woken op timedOut) →
      (monitorStep cmdSection s (.lock t)).isSome := by
  obtain ⟨hlock, hatomic⟩ := run_atomic h
  obtain ⟨hinv, hearlier⟩ := cmdInv_of_run hatomic
  have halone : Always (monitorStep cmdSection) (Alone cmdSection) (start cmdStart) acts := by
    refine alone_of_one (w := worker) fun t op hcall hwaits => ?_
    obtain ⟨forever, rfl⟩ := waits_iff.mp hwaits
    exact hworker t forever hcall
  have hasleep : s.owner = none → ∀ t forever, s.phase t = .asleep (.wait forever) →
      s.data.queue = [] := by
    intro hfree t forever hphase
    have hready := no_lost_wakeup cmdSection_signals halone h hfree hphase
    simpa [cmdSection, Section.ready] using hready
  refine ⟨hinv.queue, fun earlier op d later hsplit => ?_, fun hfree t forever hop => ?_,
    fun t howner => owner_goes hlock howner, fun t op hfree hphase => lock_isSome hfree hphase⟩
  · obtain ⟨hbefore, hwait⟩ := hearlier earlier op d later hsplit
    exact ⟨hbefore.accepting, hwait⟩
  · refine ⟨hasleep hfree t forever, fun hqueue => ?_⟩
    have hready : (cmdSection (.wait forever)).ready s.data = true := by
      simpa [cmdSection, Section.ready] using hqueue
    rcases hlock.phase_of_free hfree hop with hphase | hphase
    · exact absurd (hasleep hfree t forever hphase) hqueue
    · exact wait_leaves hfree hready rfl hphase

/-- The worker sleeps, a thread puts the command 7 into the queue, and its signal wakes the
worker. -/
def wakeActs : List (Act Bool (CmdOp ℕ)) :=
  [.call false (.wait true), .lock false, .check false, .call true (.enqueue 7), .lock true,
    .check true, .exec true none, .exec true (some false), .unlock true]

theorem wakeActs_isSome : (run (monitorStep cmdSection) (start cmdStart) wakeActs).isSome := by decide

/-- By three steps the worker leaves its wait. -/
theorem cmdRun_wakes_enqueued :
    ∃ s outs, run (monitorStep cmdSection) (start cmdStart) wakeActs = some (s, outs) ∧
      s.data.queue = [7] ∧ ∃ n ≤ 3, Leaves cmdSection false n s := by
  have hsome := (Option.some_get wakeActs_isSome).symm
  have hworker : ∀ t forever, .call t (.wait forever) ∈ wakeActs → t = false := by
    intro t forever hmem
    have hboth : t = false ∧ forever = true := by simpa [wakeActs] using hmem
    exact hboth.1
  exact ⟨_, _, hsome, by decide,
    ((cmdRun_wakes hworker hsome).2.2.1 (by decide) false true rfl).2 (by decide)⟩

end commands

/-! ### The waiter -/

section waiter

/-- The functions of `rtp_sync_waiter`. -/
inductive WaiterOp
  /-- `rtp_sync_waiter_reset`. -/
  | reset
  /-- `rtp_sync_waiter_complete`. -/
  | complete (status : ℕ)
  /-- `rtp_sync_waiter_wait`. -/
  | wait
  deriving DecidableEq, Repr

/-- What they do with the lock. -/
def waiterSection : WaiterOp → Section Waiter
  | .reset =>
    ⟨none, false, fun _ => [.write fun w => { w with done := false }, .write fun w => { w with status := 0 }]⟩
  | .complete status =>
    ⟨none, false, fun _ =>
      [.write fun w => { w with status := status }, .write fun w => { w with done := true }, .signal]⟩
  | .wait => ⟨some Waiter.done, false, fun _ => []⟩

/-- The functions of `RtpSync`: the new waiter, and the status that a wait returns. -/
def waiterStep (waiter : Waiter) : WaiterOp → Option (Waiter × Option ℕ)
  | .reset => some (waiterReset, none)
  | .complete status => some (waiterComplete status, none)
  | .wait => (waiterWait waiter).map fun status => (waiter, some status)

/-- The status that a wait returns. -/
def returns : WaiterOp × Waiter → Option ℕ
  | (.wait, found) => some found.status
  | _ => none

theorem waiterSection_signals : Signals waiterSection := by
  intro op op' waiter _ hready hafter
  cases op with
  | reset | complete _ => simp [waiterSection, Section.ready] at hready
  | wait =>
    have hdone : waiter.done = false := by simpa [waiterSection, Section.ready] using hready
    cases op' with
    | complete _ => simp [waiterSection]
    | reset | wait => simp [waiterSection, Section.ready, effect, Instr.apply, hdone] at hafter

/-- **The functions of `RtpSync`** are what the threads do. -/
theorem atomicStep_waiter {waiter waiter' found : Waiter} {op : WaiterOp}
    (h : atomicStep waiterSection waiter op = some (waiter', found)) :
    found = waiter ∧ waiterStep waiter op = some (waiter', returns (op, found)) := by
  rw [atomicStep] at h
  split_ifs at h with hready
  obtain ⟨rfl, rfl⟩ := Prod.mk.inj (Option.some.inj h)
  refine ⟨rfl, ?_⟩
  cases op with
  | reset | complete _ => rfl
  | wait =>
    have hdone : waiter.done = true := by simpa [waiterSection, Section.ready] using hready
    rw [waiterStep, waiterWait, if_pos hdone]
    rfl

/-- A completed waiter has the status of the last completion, and was not reset since. -/
theorem completed_of_done : ∀ {ops : List WaiterOp} {waiter : Waiter} {statuses : List (Option ℕ)},
    run waiterStep waiterReset ops = some (waiter, statuses) → waiter.done = true →
    ∃ before during, ops = before ++ .complete waiter.status :: during ∧ ∀ op ∈ during, op = .wait := by
  intro ops
  induction ops using List.reverseRecOn with
  | nil =>
    intro waiter statuses h hdone
    simp only [run_nil, Option.some.injEq, Prod.mk.injEq] at h
    rw [← h.1] at hdone
    cases hdone
  | append_singleton ops op ih =>
    intro waiter statuses h hdone
    obtain ⟨u, statuses', r, hu, hs, -⟩ := run_concat_eq_some.mp h
    cases op with
    | reset =>
      obtain ⟨rfl, -⟩ := Prod.mk.inj (Option.some.inj hs)
      cases hdone
    | complete status =>
      obtain ⟨rfl, -⟩ := Prod.mk.inj (Option.some.inj hs)
      exact ⟨ops, [], rfl, by simp⟩
    | wait =>
      obtain ⟨_, -, heq⟩ := Option.map_eq_some_iff.mp hs
      obtain ⟨rfl, -⟩ := Prod.mk.inj heq
      obtain ⟨before, during, rfl, hwaits⟩ := ih hu hdone
      refine ⟨before, during ++ [.wait], by simp, fun op hmem => ?_⟩
      rcases List.mem_append.mp hmem with hmem | hmem
      · exact hwaits op hmem
      · exact List.mem_singleton.mp hmem

/-- **A run of the functions.** -/
theorem waiterRun_of_atomic : ∀ {es : List (WaiterOp × Waiter)} {waiter : Waiter},
    run (atomicStep waiterSection) waiterReset (es.map Prod.fst) = some (waiter, es.map Prod.snd) →
    run waiterStep waiterReset (es.map Prod.fst) = some (waiter, es.map returns) ∧
      ∀ earlier found later, es = earlier ++ (.wait, found) :: later →
        ∃ before during, earlier.map Prod.fst = before ++ .complete found.status :: during ∧
          ∀ op ∈ during, op = .wait := by
  intro es
  induction es using List.reverseRecOn with
  | nil =>
    intro waiter h
    refine ⟨?_, fun earlier found later heq => ?_⟩
    · simpa using h
    · exact absurd heq.symm (List.append_ne_nil_of_right_ne_nil _ (List.cons_ne_nil _ _))
  | append_singleton es e ih =>
    intro waiter h
    rw [List.map_append, List.map_append, List.map_singleton, List.map_singleton] at h
    obtain ⟨u, founds, r, hu, hs, heq⟩ := run_concat_eq_some.mp h
    obtain ⟨rfl, hr⟩ := List.append_inj' heq rfl
    obtain rfl : e.2 = r := List.singleton_inj.mp hr
    obtain ⟨hrun, hearlier⟩ := ih hu
    obtain ⟨hfound, hstep⟩ := atomicStep_waiter hs
    refine ⟨?_, fun earlier found later hsplit => ?_⟩
    · rw [List.map_append, List.map_append, List.map_singleton, List.map_singleton]
      exact run_concat_eq_some.mpr ⟨u, es.map returns, returns e, hrun, hstep, rfl⟩
    · rcases concat_eq_append_cons hsplit with ⟨rfl, hlast⟩ | ⟨later', hbefore⟩
      · -- the wait returned, so the waiter was completed
        obtain ⟨hop, hwaiter⟩ := Prod.ext_iff.mp hlast
        rw [hop] at hstep
        obtain ⟨status, hstatus, -⟩ := Option.map_eq_some_iff.mp hstep
        have hdone : u.done = true := by
          rw [waiterWait] at hstatus
          split_ifs at hstatus with hdone
          exact hdone
        obtain rfl : found = u := hwaiter.symm.trans hfound
        exact completed_of_done hrun hdone
      · exact hearlier earlier found later' hbefore

/-- **No completion is slept on.**  Any threads may run the three functions, one access after
the other, and one of them at a time runs `rtp_sync_waiter_wait`.  Then what they do is what
the functions of `RtpSync` do one after the other; a wait returns the status of the last
completion, and there was no reset since; when the lock is free a thread sleeps on a waiter
that is not completed only, and with a completed one it leaves its wait by three steps of its
own; and a thread that has the lock can go on, and one that wants it gets it when it is free. -/
theorem waiterRun_wakes {ι : Type} [DecidableEq ι] {acts : List (Act ι WaiterOp)}
    {s : Sys ι WaiterOp Waiter} {outs : List (Seen ι WaiterOp Waiter)}
    (halone : Always (monitorStep waiterSection) (Alone waiterSection) (start waiterReset) acts)
    (h : run (monitorStep waiterSection) (start waiterReset) acts = some (s, outs)) :
    run waiterStep waiterReset ((entries outs).map Prod.fst) =
      some (s.settled, (entries outs).map returns) ∧
    (∀ earlier found later, entries outs = earlier ++ (.wait, found) :: later →
      ∃ before during, earlier.map Prod.fst = before ++ .complete found.status :: during ∧
        ∀ op ∈ during, op = .wait) ∧
    (s.owner = none → ∀ t, (s.phase t).op = some .wait →
      (s.phase t = .asleep .wait → s.data.done = false) ∧
        (s.data.done = true → ∃ n ≤ 3, Leaves waiterSection t n s)) ∧
    (∀ t, s.owner = some t → ∃ act, act.thread = some t ∧ (monitorStep waiterSection s act).isSome) ∧
    ∀ t op, s.owner = none → (s.phase t = .entering op ∨ ∃ timedOut, s.phase t = .woken op timedOut) →
      (monitorStep waiterSection s (.lock t)).isSome := by
  obtain ⟨hlock, hatomic⟩ := run_atomic h
  obtain ⟨hrun, hearlier⟩ := waiterRun_of_atomic hatomic
  have hasleep : s.owner = none → ∀ t, s.phase t = .asleep .wait → s.data.done = false := by
    intro hfree t hphase
    have hready := no_lost_wakeup waiterSection_signals halone h hfree hphase
    simpa [waiterSection, Section.ready] using hready
  refine ⟨hrun, hearlier, fun hfree t hop => ⟨hasleep hfree t, fun hdone => ?_⟩,
    fun t howner => owner_goes hlock howner, fun t op hfree hphase => lock_isSome hfree hphase⟩
  have hready : (waiterSection .wait).ready s.data = true := by
    simpa [waiterSection, Section.ready] using hdone
  rcases hlock.phase_of_free hfree hop with hphase | hphase
  · cases hdone.symm.trans (hasleep hfree t hphase)
  · exact wait_leaves hfree hready rfl hphase

/-- A thread waits, the waiter is completed with the status 5, and the signal wakes the
thread. -/
def completeActs : List (Act Bool WaiterOp) :=
  [.call true .reset, .lock true, .check true, .exec true none, .exec true none, .unlock true,
    .call true .wait, .lock true, .check true, .call false (.complete 5), .lock false, .check false,
    .exec false none, .exec false none, .exec false (some true), .unlock false]

theorem completeActs_isSome :
    (run (monitorStep waiterSection) (start waiterReset) completeActs).isSome := by decide

/-- By three steps the thread leaves its wait. -/
theorem waiterRun_wakes_completed :
    ∃ s outs, run (monitorStep waiterSection) (start waiterReset) completeActs = some (s, outs) ∧
      s.data = waiterComplete 5 ∧ ∃ n ≤ 3, Leaves waiterSection true n s := by
  have hsome := (Option.some_get completeActs_isSome).symm
  have halone : Always (monitorStep waiterSection) (Alone waiterSection) (start waiterReset)
      completeActs := by
    refine alone_of_one (w := true) fun t op hmem hwaits => ?_
    cases op with
    | reset | complete _ => cases hwaits
    | wait => simpa [completeActs] using hmem
  exact ⟨_, _, hsome, by decide,
    ((waiterRun_wakes halone hsome).2.2.1 (by decide) true rfl).2 (by decide)⟩

end waiter

end RtpSync
