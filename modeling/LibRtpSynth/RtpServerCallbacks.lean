/-
Calls that the callbacks of `RtpServer` make (`python/RtpServer_mod.c`).

A callback of `pkt_in` runs on the thread of the worker.  There
`rtp_channel_close_internal`, which compares `pthread_self()` with the worker, does not
wait; `create_channel`, `set_target` and `shutdown` wait for the worker on its own thread
as on any other.

The thread of the worker is client `workerThread` while it runs a callback, and goes on
with its own loop when that client is in no call.

* `CbInv` — while the worker is in a call of a callback nobody completes its command;
* `cbRun_waits` — the worker waits for itself when a callback makes one of these calls and
  the call is not refused, and never gets out of it.
-/
import LibRtpSynth.RtpServerLocks

open Runs RtpSync

namespace RtpServer

/-! ### The thread of the worker -/

/-- The client that the worker is in a callback. -/
def workerThread : ℕ := 0

/-- The calls that wait for the worker on every thread. -/
def Job.waits : Job → Bool
  | .close _ => false
  | _ => true

/-- What the thread of the worker can do: it makes calls from a callback, those of `close`
by `closeOnWorker`, and it is not in its loop meanwhile. -/
def Event.can (s : Sys) : Event → Bool
  | .call t job => t ≠ workerThread || s.workerPc.inCallback && job.waits
  | .send t _ => t ≠ workerThread || s.workerPc.inCallback
  | .client _ => true
  | .worker _ | .callback _ => s.pcs workerThread = .idle

/-- One step of the system, with calls from callbacks. -/
def cbStep (s : Sys) (event : Event) : Option (Sys × Act) :=
  if event.can s then sysStep s event else none

/-- The worker is in `rtp_sync_waiter_wait`. -/
def Blocked (s : Sys) : Prop := ∃ job, s.pcs workerThread = .waiting job

/-- The calls on a channel that is closed are refused. -/
def Job.admitted (s : Sys) : Job → Bool
  | .setTarget channel _ => !s.closed channel
  | _ => true

/-- A callback makes a call that waits for the worker and is not refused. -/
def Event.selfWait (s : Sys) : Event → Bool
  | .call t job =>
    t = workerThread && (s.acceptingCommands && !s.cmdWaiterBusy) && job.admitted s
  | _ => false

section steps

variable {s s' : Sys} {t : ℕ} {job : Job} {event : Event} {act : Act}

theorem cbStep_step (h : cbStep s event = some (s', act)) : event.can s = true ∧ Step s event s' := by
  rw [cbStep] at h
  split at h
  · rename_i hcan
    exact ⟨hcan, sysStep_step h⟩
  · cases h

/-! ### What a step leaves alone -/

/-- What a call that begins changes of what the worker and the waiter have: nothing. -/
structure Aside (s' s : Sys) : Prop where
  workerPc : s'.workerPc = s.workerPc
  waiter : s'.cmdWaiter = s.cmdWaiter
  busy : s'.cmdWaiterBusy = s.cmdWaiterBusy
  accepting : s'.acceptingCommands = s.acceptingCommands
  lock : s'.cmdLock = s.cmdLock

theorem call_aside (s : Sys) (t : ℕ) (job : Job) : Aside (s.call t job).1 s := by
  cases job with
  | createChannel channel => exact ⟨rfl, rfl, rfl, rfl, rfl⟩
  | setTarget _ _ | close _ | shutdown =>
    rw [Sys.call]
    split_ifs <;> exact ⟨rfl, rfl, rfl, rfl, rfl⟩

/-- Where a thread is when it has begun a call. -/
theorem call_pcs (s : Sys) (t : ℕ) (job : Job) :
    (s.call t job).1.pcs = s.pcs ∨ (s.call t job).1.pcs = Function.update s.pcs t (.acquiring job) := by
  cases job with
  | createChannel channel => exact .inr rfl
  | setTarget _ _ | close _ | shutdown =>
    rw [Sys.call]
    split_ifs
    all_goals first | exact .inl rfl | exact .inr rfl

theorem call_pcs_ne (hne : workerThread ≠ t) : (s.call t job).1.pcs workerThread = s.pcs workerThread := by
  rcases call_pcs s t job with hpcs | hpcs
  · rw [hpcs]
  · rw [hpcs, Function.update_of_ne hne]

theorem closeOnWorker_aside (s : Sys) (channel : ℕ) :
    Aside (s.closeOnWorker channel).1 s ∧ (s.closeOnWorker channel).1.pcs = s.pcs := by
  rw [Sys.closeOnWorker]
  split_ifs <;> exact ⟨⟨rfl, rfl, rfl, rfl, rfl⟩, rfl⟩

/-- A client leaves the worker where it is, and completes no command. -/
theorem ClientMove.behind (h : ClientMove s t s') :
    s'.workerPc = s.workerPc ∧ (s.cmdWaiter.done = false → s'.cmdWaiter.done = false) := by
  cases h with
  | sent _ _ | slept | woke _ _ _ | back _ _ _ _ => exact ⟨rfl, id⟩
  | acquired _ _ _ _ => exact ⟨rfl, fun _ => rfl⟩
  | busy job _ _ _ => cases job <;> exact ⟨rfl, id⟩
  | enqueued job _ _ =>
    refine ⟨(enqueueCommand_worker s t job).1, ?_⟩
    cases job with
    | shutdown => exact id
    | createChannel _ | setTarget _ _ | close _ =>
      dsimp only [Sys.enqueueCommand]
      split_ifs <;> exact id
  | released job status _ _ =>
    cases job with
    | setTarget _ _ | shutdown => exact ⟨rfl, id⟩
    | createChannel _ | close _ =>
      dsimp only [Sys.finish]
      split <;> exact ⟨rfl, id⟩

/-- A client does not move another one. -/
theorem ClientMove.pcs_ne (h : ClientMove s t s') (hne : workerThread ≠ t) :
    s'.pcs workerThread = s.pcs workerThread := by
  obtain ⟨pc, hpcs, -⟩ := h.pcs
  rw [hpcs, Function.update_of_ne hne]

/-! ### While the worker is in a call -/

/-- The worker makes calls from callbacks only, and its command stays undone. -/
structure CbInv (s : Sys) : Prop where
  sys : SysInv s
  inCallback : s.pcs workerThread ≠ .idle → s.workerPc.inCallback = true
  undone : ∀ job, s.pcs workerThread = .waiting job → s.cmdWaiter.done = false

theorem cbInv_start : CbInv sysStart where
  sys := sysInv_start
  inCallback h := absurd rfl h
  undone := nofun

/-- The thread of the worker stays where it is. -/
theorem CbInv.stays (h : CbInv s) (hsys : SysInv s') (hpcs : s'.pcs workerThread = s.pcs workerThread)
    (hworker : s.pcs workerThread ≠ .idle → s'.workerPc = s.workerPc)
    (hdone : s.pcs workerThread ≠ .idle → s.cmdWaiter.done = false → s'.cmdWaiter.done = false) :
    CbInv s' where
  sys := hsys
  inCallback hne := by
    rw [hpcs] at hne
    rw [hworker hne]
    exact h.inCallback hne
  undone job hjob := by
    rw [hpcs] at hjob
    have hne : s.pcs workerThread ≠ .idle := by
      rw [hjob]
      exact Pc.noConfusion
    exact hdone hne (h.undone job hjob)

/-- A thread that goes on in a call and does not come to wait. -/
theorem CbInv.goes (h : CbInv s) (hmove : ClientMove s workerThread s') {pc pc' : Pc}
    (hpc : s.pcs workerThread = pc) (hne : pc ≠ .idle)
    (hpcs : s'.pcs = Function.update s.pcs workerThread pc') (hwait : ∀ job, pc' ≠ .waiting job) :
    CbInv s' where
  sys := h.sys.client hmove
  inCallback _ := by
    rw [hmove.behind.1]
    exact h.inCallback (hpc ▸ hne)
  undone job hjob := by
    rw [hpcs, Function.update_self] at hjob
    exact absurd hjob (hwait job)

theorem CbInv.client (h : CbInv s) (hmove : ClientMove s t s') : CbInv s' := by
  by_cases hne : workerThread = t
  · subst hne
    cases hmove with
    | slept => exact h
    | sent channel hpc => exact h.goes (.sent channel hpc) hpc Pc.noConfusion rfl fun _ => Pc.noConfusion
    | busy job hpc hlock hbusy =>
      exact h.goes (.busy job hpc hlock hbusy) hpc Pc.noConfusion
        (leave_pcs (marked_abandon s job).pcs) fun _ => Pc.noConfusion
    | acquired job hpc hlock hbusy =>
      exact h.goes (.acquired job hpc hlock hbusy) hpc Pc.noConfusion rfl fun _ => Pc.noConfusion
    | woke job hpc hdone =>
      exact h.goes (.woke job hpc hdone) hpc Pc.noConfusion rfl fun _ => Pc.noConfusion
    | back job status hpc hgil =>
      exact h.goes (.back job status hpc hgil) hpc Pc.noConfusion rfl fun _ => Pc.noConfusion
    | released job status hpc hlock =>
      exact h.goes (.released job status hpc hlock) hpc Pc.noConfusion
        (leave_pcs (marked_finish { s with cmdWaiterBusy := false } status job).pcs)
        fun _ => Pc.noConfusion
    | enqueued job hpc hlock =>
      have hmove : ClientMove s workerThread (s.enqueueCommand workerThread job) :=
        .enqueued job hpc hlock
      obtain ⟨hworker, hdone⟩ := hmove.behind
      refine ⟨h.sys.client hmove, fun _ => ?_, fun _ _ => hdone ?_⟩
      · rw [hworker]
        refine h.inCallback ?_
        rw [hpc]
        exact Pc.noConfusion
      · -- the waiter was reset for this call
        obtain ⟨answers, hwaiter⟩ := h.sys.waiter
        have hready : (Pc.stage ∘ s.pcs) workerThread = .ready := by
          rw [Function.comp_apply, hpc]
          rfl
        exact (hwaiter.of_taken (.inr hready)).2.2 hready
  · obtain ⟨hworker, hdone⟩ := hmove.behind
    exact h.stays (h.sys.client hmove) (hmove.pcs_ne hne) (fun _ => hworker) fun _ => hdone

theorem CbInv.step (h : CbInv s) (hs : cbStep s event = some (s', act)) : CbInv s' := by
  obtain ⟨hcan, hstep⟩ := cbStep_step hs
  have hsys := h.sys.step hstep
  cases hstep with
  | call t job hidle hgil hknown =>
    obtain ⟨hworker, hwaiter, -, -, -⟩ := call_aside s t job
    by_cases hne : workerThread = t
    · subst hne
      refine ⟨hsys, fun _ => ?_, fun job' hjob => ?_⟩
      · rw [Event.can, Bool.or_eq_true, Bool.and_eq_true] at hcan
        rw [hworker]
        exact hcan.elim (fun hne => absurd rfl (of_decide_eq_true hne)) And.left
      · rcases call_pcs s workerThread job with hpcs | hpcs
        · rw [hpcs, hidle] at hjob
          cases hjob
        · rw [hpcs, Function.update_self] at hjob
          cases hjob
    · exact h.stays hsys (call_pcs_ne hne) (fun _ => hworker) fun _ => hwaiter ▸ id
  | send t channel hidle hgil hknown =>
    by_cases hne : workerThread = t
    · subst hne
      refine ⟨hsys, fun _ => ?_, fun job hjob => ?_⟩
      · rw [Event.can, Bool.or_eq_true] at hcan
        exact hcan.elim (fun hne => absurd rfl (of_decide_eq_true hne)) id
      · have hpc : (s.enter workerThread (.sending channel)).pcs workerThread = .sending channel :=
          Function.update_self workerThread _ s.pcs
        cases hpc.symm.trans hjob
    · exact h.stays hsys (Function.update_of_ne hne _ _) (fun _ => rfl) fun _ => id
  | client t s' hmove => exact h.client hmove
  | worker env s' hmove =>
    have hidle : s.pcs workerThread = .idle := of_decide_eq_true hcan
    exact h.stays hsys (congrFun hmove.pcs _) (fun hne => absurd hidle hne) fun hne => absurd hidle hne
  | callback channel hpc hgil hlock hknown =>
    obtain ⟨⟨hworker, hwaiter, -, -, -⟩, hpcs⟩ := closeOnWorker_aside s channel
    exact h.stays hsys (congrFun hpcs _) (fun _ => hworker) fun _ => hwaiter ▸ id

/-- A worker that waits for itself never gets out of it. -/
theorem CbInv.stuck (h : CbInv s) (hblocked : Blocked s) (hs : cbStep s event = some (s', act)) :
    Blocked s' := by
  obtain ⟨job, hjob⟩ := hblocked
  have hne : s.pcs workerThread ≠ .idle := by
    rw [hjob]
    exact Pc.noConfusion
  obtain ⟨hcan, hstep⟩ := cbStep_step hs
  cases hstep with
  | call t job' hidle hgil hknown =>
    have ht : workerThread ≠ t := fun heq => hne (heq ▸ hidle)
    exact ⟨job, (call_pcs_ne ht).trans hjob⟩
  | send t channel hidle hgil hknown =>
    have ht : workerThread ≠ t := fun heq => hne (heq ▸ hidle)
    exact ⟨job, (Function.update_of_ne ht _ _).trans hjob⟩
  | client t s' hmove =>
    by_cases ht : workerThread = t
    · subst ht
      cases hmove with
      | slept => exact ⟨job, hjob⟩
      | woke _ _ hdone =>
        rw [h.undone job hjob] at hdone
        cases hdone
      | sent _ hpc | busy _ hpc _ _ | acquired _ hpc _ _ | enqueued _ hpc _ | back _ _ hpc _
      | released _ _ hpc _ => cases hjob.symm.trans hpc
    · exact ⟨job, (hmove.pcs_ne ht).trans hjob⟩
  | worker env s' hmove => exact absurd (of_decide_eq_true hcan) hne
  | callback channel hpc hgil hlock hknown => exact absurd (of_decide_eq_true hcan) hne

/-! ### When the worker comes to wait -/

/-- A call at this place is refused: the waiter is taken, or the server is shutting
down. -/
def Pc.refused (busy accepting : Bool) : Pc → Prop
  | .acquiring _ => accepting = true → busy = true
  | .enqueueing job => accepting = false ∧ job.checks = false
  | .waiting _ | .returning _ _ => False
  | _ => True

/-- The call that the worker is in is refused. -/
def Refused (s : Sys) : Prop := (s.pcs workerThread).refused s.cmdWaiterBusy s.acceptingCommands

theorem Refused.of_pc {pc : Pc} (hpc : s.pcs workerThread = pc)
    (h : pc.refused s.cmdWaiterBusy s.acceptingCommands) : Refused s := by
  rw [Refused, hpc]
  exact h

/-- The thread of the worker stays where it is, and what decides about its call too. -/
theorem Refused.stays (h : Refused s) (hpcs : s'.pcs workerThread = s.pcs workerThread)
    (hkeep : (s.pcs workerThread).hasGil = true →
      s'.cmdWaiterBusy = s.cmdWaiterBusy ∧ s'.acceptingCommands = s.acceptingCommands) :
    Refused s' := by
  rw [Refused] at h ⊢
  rw [hpcs]
  cases hpc : s.pcs workerThread with
  | acquiring job | enqueueing job =>
    rw [hpc] at h hkeep
    obtain ⟨hbusy, haccepting⟩ := hkeep rfl
    rwa [hbusy, haccepting]
  | waiting _ | returning _ _ =>
    rw [hpc] at h
    exact h
  | idle | sending _ | releasing _ _ => trivial

/-- With the GIL the worker keeps others from the waiter and from `shutdown`. -/
theorem Refused.other (h : Refused s) (hsys : SysInv s) (hmove : ClientMove s t s')
    (hne : workerThread ≠ t) : Refused s' := by
  refine h.stays (hmove.pcs_ne hne) fun hgil => ?_
  have hnot : (s.pcs t).hasGil ≠ true := fun ht => hne (hsys.gil.unique ht hgil)
  cases hmove with
  | slept | woke _ _ _ => exact ⟨rfl, rfl⟩
  | back job status hpc hfree =>
    rw [hsys.gil.eq_client hgil] at hfree
    cases hfree
  | sent _ hpc | busy _ hpc _ _ | acquired _ hpc _ _ | enqueued _ hpc _ | released _ _ hpc _ =>
    rw [hpc] at hnot
    exact absurd rfl hnot

theorem pcs_self {pc : Pc} (hpcs : s'.pcs = Function.update s.pcs workerThread pc) :
    s'.pcs workerThread = pc := by
  rw [hpcs, Function.update_self]

/-- The thread of the worker goes on in a call that is refused. -/
theorem Refused.own (h : Refused s) (hsys : SysInv s) (hmove : ClientMove s workerThread s') :
    Refused s' := by
  cases hmove with
  | slept => exact h
  | sent _ _ => exact .of_pc (pcs_self (s := s) rfl) trivial
  | busy job _ _ _ => exact .of_pc (pcs_self (leave_pcs (marked_abandon s job).pcs)) trivial
  | released job status _ _ =>
    have hmarked := marked_finish { s with cmdWaiterBusy := false } status job
    exact .of_pc (pcs_self (s := s) (leave_pcs hmarked.pcs)) trivial
  | woke job hpc _ | back job _ hpc _ =>
    rw [Refused, hpc] at h
    exact h.elim
  | acquired job hpc _ hbusy =>
    rw [Refused, hpc] at h
    have haccepting : s.acceptingCommands = false := by
      by_contra htrue
      rw [h (Bool.eq_true_of_not_eq_false htrue)] at hbusy
      cases hbusy
    refine .of_pc (pcs_self (s := s) rfl) ⟨haccepting, Bool.eq_false_iff.mpr fun hchecks => ?_⟩
    -- only `create_channel` comes here when the server is shutting down
    rw [hsys.early workerThread job (by rw [hpc]; rfl) hchecks] at haccepting
    cases haccepting
  | enqueued job hpc _ =>
    rw [Refused, hpc] at h
    obtain ⟨haccepting, hchecks⟩ := h
    cases job with
    | setTarget _ _ | close _ | shutdown => cases hchecks
    | createChannel channel =>
      have hgoto : s.enqueueCommand workerThread (.createChannel channel) =
          s.goto workerThread (.releasing (.createChannel channel) none) := by
        dsimp only [Sys.enqueueCommand]
        rw [haccepting]
        rfl
      rw [hgoto]
      exact .of_pc (pcs_self (s := s) rfl) trivial

/-- A call of a callback that is refused. -/
theorem Refused.begin (hidle : s.pcs workerThread = .idle)
    (hself : Event.selfWait s (.call workerThread job) = false) :
    Refused (s.call workerThread job).1 := by
  obtain ⟨-, -, hbusy, haccepting, -⟩ := call_aside s workerThread job
  rcases call_pcs s workerThread job with hpcs | hpcs
  · have hpc : (s.call workerThread job).1.pcs workerThread = .idle := by rw [hpcs, hidle]
    exact .of_pc hpc trivial
  · refine .of_pc (pcs_self hpcs) ?_
    rw [hbusy, haccepting]
    intro htrue
    by_contra hfree
    rw [Event.selfWait, htrue, Bool.eq_false_iff.mpr hfree] at hself
    -- the call has ended at once
    have hsame : (s.call workerThread job).1.pcs = s.pcs := by
      cases job with
      | createChannel _ | close _ | shutdown => cases hself
      | setTarget channel target =>
        have hclosed : s.closed channel = true := by simpa [Job.admitted] using hself
        rw [Sys.call, if_pos hclosed]
    have hpc := congrFun (hsame.symm.trans hpcs) workerThread
    rw [Function.update_self, hidle] at hpc
    cases hpc

theorem Refused.step (h : Refused s) (hinv : CbInv s) (hself : event.selfWait s = false)
    (hs : cbStep s event = some (s', act)) : Refused s' := by
  obtain ⟨hcan, hstep⟩ := cbStep_step hs
  cases hstep with
  | call t job hidle hgil hknown =>
    by_cases hne : workerThread = t
    · subst hne
      exact .begin hidle hself
    · obtain ⟨-, -, hbusy, haccepting, -⟩ := call_aside s t job
      exact h.stays (call_pcs_ne hne) fun _ => ⟨hbusy, haccepting⟩
  | send t channel hidle hgil hknown =>
    by_cases hne : workerThread = t
    · subst hne
      exact .of_pc (pcs_self (s := s) rfl) trivial
    · exact h.stays (Function.update_of_ne hne _ _) fun _ => ⟨rfl, rfl⟩
  | client t s' hmove =>
    by_cases hne : workerThread = t
    · subst hne
      exact h.own hinv.sys hmove
    · exact h.other hinv.sys hmove hne
  | worker env s' hmove =>
    have hidle : s.pcs workerThread = .idle := of_decide_eq_true hcan
    exact .of_pc ((congrFun hmove.pcs _).trans hidle) trivial
  | callback channel hpc hgil hlock hknown =>
    have hidle : s.pcs workerThread = .idle := of_decide_eq_true hcan
    exact .of_pc ((congrFun (closeOnWorker_aside s channel).2 _).trans hidle) trivial

/-! ### A call that is not refused -/

theorem clientStep_acquiring (hpc : s.pcs t = .acquiring job) (hlock : s.cmdLock = none)
    (hbusy : s.cmdWaiterBusy = false) :
    s.clientStep t =
      some (({ s with cmdWaiterBusy := true, cmdWaiter := waiterReset }).goto t (.enqueueing job),
        .quiet) := by
  rw [Sys.clientStep, hpc]
  dsimp only
  rw [if_pos hlock, hbusy]
  rfl

theorem clientStep_enqueueing (hpc : s.pcs t = .enqueueing job) (hlock : s.cmdLock = none) :
    s.clientStep t = some (s.enqueueCommand t job, .quiet) := by
  rw [Sys.clientStep, hpc]
  dsimp only
  rw [if_pos hlock]

theorem enqueueCommand_waiting (haccepting : s.acceptingCommands = true) :
    (s.enqueueCommand t job).pcs t = .waiting job := by
  have hself (u : Sys) : (u.leave t (.waiting job)).pcs t = .waiting job :=
    Function.update_self t _ u.pcs
  cases job with
  | shutdown => exact hself _
  | createChannel _ | setTarget _ _ | close _ =>
    dsimp only [Sys.enqueueCommand]
    rw [if_pos haccepting]
    exact hself _

/-- The call of a callback that is not refused comes to `server_waiter_acquire`. -/
theorem call_acquiring (haccepting : s.acceptingCommands = true) (hadmitted : job.admitted s = true)
    (hwaits : job.waits = true) : (s.call t job).1.pcs t = .acquiring job := by
  have hself : (s.enter t (.acquiring job)).pcs t = .acquiring job := Function.update_self t _ s.pcs
  cases job with
  | createChannel channel => exact Function.update_self t _ s.pcs
  | close channel => cases hwaits
  | setTarget channel target =>
    rw [Job.admitted, Bool.not_eq_true'] at hadmitted
    rw [Sys.call, hadmitted, haccepting]
    exact hself
  | shutdown =>
    rw [Sys.call, haccepting]
    exact hself

/-- The thread of the worker comes to wait for itself by its own steps. -/
def ComesToWait (s : Sys) : Prop :=
  ∃ n u acts, run cbStep s (List.replicate n (.client workerThread)) = some (u, acts) ∧ Blocked u

theorem ComesToWait.cons (h : ComesToWait s') (hs : s.clientStep workerThread = some (s', act)) :
    ComesToWait s := by
  obtain ⟨n, u, acts, hrun, hblocked⟩ := h
  exact ⟨n + 1, u, act :: acts, run_cons_eq_some.mpr ⟨s', act, acts, hs, hrun, rfl⟩, hblocked⟩

theorem enqueueing_waits (hpc : s.pcs workerThread = .enqueueing job) (hlock : s.cmdLock = none)
    (haccepting : s.acceptingCommands = true) : ComesToWait s :=
  ComesToWait.cons ⟨0, _, [], rfl, job, enqueueCommand_waiting haccepting⟩
    (clientStep_enqueueing hpc hlock)

theorem acquiring_waits (hpc : s.pcs workerThread = .acquiring job) (hlock : s.cmdLock = none)
    (haccepting : s.acceptingCommands = true) (hbusy : s.cmdWaiterBusy = false) : ComesToWait s := by
  refine ComesToWait.cons ?_ (clientStep_acquiring hpc hlock hbusy)
  exact enqueueing_waits (Function.update_self workerThread _ s.pcs) hlock haccepting

/-- A callback that makes such a call comes to wait for its own thread. -/
theorem CbInv.waits (h : CbInv s) (hself : event.selfWait s = true)
    (hs : cbStep s event = some (s', act)) : ComesToWait s' := by
  obtain ⟨hcan, hstep⟩ := cbStep_step hs
  cases hstep with
  | send _ _ _ _ _ | client _ _ _ | worker _ _ _ | callback _ _ _ _ _ => cases hself
  | call t job hidle hgil hknown =>
    rw [Event.selfWait, Bool.and_eq_true, Bool.and_eq_true, Bool.and_eq_true, Bool.not_eq_true'] at hself
    obtain ⟨⟨ht, haccepting, hbusy⟩, hadmitted⟩ := hself
    obtain rfl := of_decide_eq_true ht
    rw [Event.can, Bool.or_eq_true, Bool.and_eq_true] at hcan
    obtain ⟨hin, hwaits⟩ := hcan.resolve_left fun hne => absurd rfl (of_decide_eq_true hne)
    obtain ⟨-, -, hbusy', haccepting', hlock'⟩ := call_aside s workerThread job
    -- in a callback the worker does not have `cmd_lock`
    have hlock : s.cmdLock = none := by
      rw [h.sys.lock]
      cases hpc : s.workerPc <;> rw [hpc] at hin <;> first | rfl | cases hin
    exact acquiring_waits (call_acquiring haccepting hadmitted hwaits) (hlock'.trans hlock)
      (haccepting'.trans haccepting) (hbusy'.trans hbusy)

end steps

/-! ### Every run -/

section runs

variable {events : List Event} {s : Sys} {acts : List Act}

theorem cbInv_of_run (h : run cbStep sysStart events = some (s, acts)) : CbInv s :=
  run_induction (P := fun _ _ => True) (fun _ _ s => CbInv s) cbInv_start
    (fun hinv _ hs => hinv.step hs) (.of_forall fun _ _ _ => trivial) h

/-- **The worker does not wait for itself** in a run in which no callback makes a call that
waits and is not refused.  A callback that makes one comes to wait, and the worker is
blocked for good. -/
theorem cbRun_waits (h : run cbStep sysStart events = some (s, acts)) :
    (Always cbStep (fun s event => event.selfWait s = false) sysStart events → ¬ Blocked s) ∧
    (Blocked s → ∀ later u acts', run cbStep s later = some (u, acts') → Blocked u) ∧
    ∀ event s' act, Event.selfWait s event = true → cbStep s event = some (s', act) →
      ComesToWait s' := by
  have hinv := cbInv_of_run h
  refine ⟨fun hself => ?_, fun hblocked later u acts' hlater => ?_,
    fun event s' act hwaits hs => hinv.waits hwaits hs⟩
  · rintro ⟨job, hjob⟩
    have hstart : Refused sysStart := .of_pc rfl trivial
    have href : Refused s := run_keeps CbInv.step
      (fun hinv href hevent hs => href.step hinv hevent hs) cbInv_start hstart hself h
    rw [Refused, hjob] at href
    exact href
  · exact run_keeps (P := fun _ _ => True) CbInv.step (fun hinv hb _ hs => hinv.stuck hb hs)
      hinv hblocked (.of_forall fun _ _ _ => trivial) hlater

end runs

end RtpServer
