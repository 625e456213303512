/-
The two locks of `RtpServer` (`python/RtpServer_mod.c`).

A thread that calls `server_waiter_acquire`, `enqueue_command` or `server_waiter_release`
takes `cmd_lock` with the GIL in its hands; the worker takes the GIL with `cmd_lock` in its
hands when it drops the channels.  What keeps them apart is the waiter, which the command
that drops the channels has, and `accepting_commands`, which most calls look at first.
`create_channel` does not.

* `SysInv` — who has the locks and the waiter, in every state of every run;
* `sysRun_deadlock` — no state of a run is a deadlock if and only if no `create_channel`
  meets the worker in `clear_channels`.
-/
import LibRtpSynth.RtpServerClients
import LibRtpSynth.Runs

open Runs RtpSync

namespace RtpServer

/-! ### Deadlock -/

/-- The clients that have the GIL. -/
def Pc.hasGil : Pc → Bool
  | .sending _ | .acquiring _ | .enqueueing _ | .releasing _ _ => true
  | _ => false

/-- The clients that wait for `cmd_lock`. -/
def Pc.wantsLock : Pc → Bool
  | .acquiring _ | .enqueueing _ | .releasing _ _ => true
  | _ => false

/-- The worker waits for the GIL in `PyGILState_Ensure`. -/
def WorkerPc.wantsGil : WorkerPc → Bool
  | .dropping _ (_ :: _) | .freeing (_ :: _) => true
  | _ => false

/-- The worker has `cmd_lock` and waits for the GIL, while a Python thread has the GIL and
waits for `cmd_lock`. -/
def Deadlock (s : Sys) : Prop :=
  (s.cmdLock = some .worker ∧ s.workerPc.wantsGil = true) ∧
    ∃ t, s.gil = some (.client t) ∧ (s.pcs t).wantsLock = true

/-- The worker is in `clear_channels`, with a reference to drop. -/
def Sys.clearing (s : Sys) : Bool := s.cmdLock = some .worker && s.workerPc.wantsGil

/-- The worker comes to `clear_channels`, with a channel in the table. -/
def Sys.toClear (s : Sys) : Bool :=
  match s.workerPc, s.batch with
  | .atCmd, sent :: _ =>
    s.cmdLock = none && sent.cmd = .dropChannels && !(clearChannels s.self).2.isEmpty
  | _, _ => false

/-- A `create_channel` is in `server_waiter_acquire`, with the GIL. -/
def Sys.creating (s : Sys) : Bool :=
  match s.gil with
  | some (.client t) =>
    match s.pcs t with
    | .acquiring (.createChannel _) => true
    | _ => false
  | _ => false

/-- No `create_channel` is called while the worker drops channels, and the worker does not
begin to while a `create_channel` is before `cmd_lock`. -/
def Event.apart (s : Sys) : Event → Bool
  | .call _ (.createChannel _) => !s.clearing
  | .worker _ => !(s.toClear && s.creating)
  | _ => true

/-! ### The invariant -/

/-- The stage of a client. -/
def Pc.stage : Pc → Stage RtpServerCmd
  | .enqueueing _ => .ready
  | .waiting job => .waiting job.cmd
  | .returning _ _ | .releasing _ _ => .taken
  | _ => .out

/-- The call of a client that has not sent its command. -/
def Pc.early : Pc → Option Job
  | .acquiring job | .enqueueing job => some job
  | _ => none

/-- The calls that look at `accepting_commands` first. -/
def Job.checks : Job → Bool
  | .createChannel _ => false
  | _ => true

/-- The command that the worker is at. -/
def WorkerPc.cur : WorkerPc → List Sent
  | .dropping sent _ | .completing sent _ _ => [sent]
  | _ => []

/-- The worker keeps `cmd_lock` in `clear_channels`. -/
def WorkerPc.lock : WorkerPc → Option Thread
  | .dropping _ _ => some .worker
  | _ => none

/-- The worker is in the loop of `process_commands`. -/
def WorkerPc.inLoop : WorkerPc → Bool
  | .atCmd | .dropping _ _ | .completing _ _ _ | .freeing _ => true
  | _ => false

/-- The commands that are not completed. -/
def Sys.onTheWay (s : Sys) : List Sent := s.workerPc.cur ++ (s.batch ++ s.queue)

/-- The commands with the waiter. -/
def asked (sents : List Sent) : List RtpServerCmd := (sents.filter Sent.waiter).map Sent.cmd

/-- The GIL is with the client that has it. -/
def GilInv (gil : Option Thread) (pcs : ℕ → Pc) : Prop :=
  ∀ th, gil = some th ↔ ∃ t, th = .client t ∧ (pcs t).hasGil = true

/-- The commands that the threads send. -/
def Sent.fromJob (sent : Sent) : Prop :=
  (∃ job : Job, sent = ⟨job.cmd, true⟩) ∨ ∃ channel, sent = ⟨.removeChannel channel, false⟩

/-- Who has the locks and the waiter. -/
structure SysInv (s : Sys) : Prop where
  gil : GilInv s.gil s.pcs
  lock : s.cmdLock = s.workerPc.lock
  waiter : ∃ answers, WaiterInv s.cmdWaiterBusy s.cmdWaiter (Pc.stage ∘ s.pcs) (asked s.onTheWay) answers
  early : ∀ t job, (s.pcs t).early = some job → job.checks = true → s.acceptingCommands = true
  accepting : s.acceptingCommands = true → ∀ sent ∈ s.onTheWay, sent.cmd ≠ .dropChannels
  sents : ∀ sent ∈ s.onTheWay, sent.fromJob
  dropping : ∀ sent left, s.workerPc = .dropping sent left → sent = ⟨.dropChannels, true⟩
  batch : s.workerPc.inLoop = false → s.batch = []

theorem sysInv_start : SysInv sysStart where
  gil th := by simp [sysStart, Pc.hasGil]
  lock := rfl
  waiter := ⟨[], .free rfl (fun _ => rfl) rfl⟩
  early := nofun
  accepting _ := nofun
  sents := nofun
  dropping := nofun
  batch _ := rfl

section gil

variable {gil : Option Thread} {pcs : ℕ → Pc} {t : ℕ} {pc : Pc}

/-- A thread goes on with the GIL, or without it, as before. -/
theorem GilInv.keep (h : GilInv gil pcs) (hpc : pc.hasGil = (pcs t).hasGil) :
    GilInv gil (Function.update pcs t pc) := by
  intro th
  rw [h th]
  refine exists_congr fun t' => and_congr_right fun _ => ?_
  by_cases ht : t' = t
  · rw [ht, Function.update_self, hpc]
  · rw [Function.update_of_ne ht]

/-- Nobody has the GIL. -/
theorem GilInv.none_iff (h : GilInv gil pcs) : gil = none ↔ ∀ t, (pcs t).hasGil = false := by
  constructor
  · rintro rfl t
    by_contra hgil
    cases (h (.client t)).mpr ⟨t, rfl, Bool.not_eq_false _ ▸ hgil⟩
  · intro hout
    cases hgil : gil with
    | none => rfl
    | some th =>
      obtain ⟨t, -, ht⟩ := (h th).mp hgil
      rw [hout t] at ht
      cases ht

/-- A thread takes the GIL. -/
theorem GilInv.enter (h : GilInv none pcs) (hpc : pc.hasGil = true) :
    GilInv (some (.client t)) (Function.update pcs t pc) := by
  intro th
  constructor
  · rintro ⟨⟩
    exact ⟨t, rfl, by rw [Function.update_self, hpc]⟩
  · rintro ⟨t', rfl, ht'⟩
    by_cases ht : t' = t
    · rw [ht]
    · rw [Function.update_of_ne ht, h.none_iff.mp rfl t'] at ht'
      cases ht'

/-- The thread with the GIL. -/
theorem GilInv.eq_client (h : GilInv gil pcs) (ht : (pcs t).hasGil = true) : gil = some (.client t) :=
  (h _).mpr ⟨t, rfl, ht⟩

/-- The thread with the GIL is one. -/
theorem GilInv.unique (h : GilInv gil pcs) {t' : ℕ} (ht : (pcs t).hasGil = true)
    (ht' : (pcs t').hasGil = true) : t' = t := by
  have heq := (h.eq_client ht').symm.trans (h.eq_client ht)
  exact Thread.client.inj (Option.some.inj heq)

/-- The thread with the GIL gives it back. -/
theorem GilInv.leave (h : GilInv gil pcs) (ht : (pcs t).hasGil = true) (hpc : pc.hasGil = false) :
    GilInv none (Function.update pcs t pc) := by
  intro th
  constructor
  · nofun
  · rintro ⟨t', rfl, ht'⟩
    by_cases htt : t' = t
    · rw [htt, Function.update_self, hpc] at ht'
      cases ht'
    · rw [Function.update_of_ne htt] at ht'
      exact absurd (h.unique ht ht') htt

end gil

section steps

variable {s s' : Sys} {t : ℕ} {pc : Pc} {job : Job} {event : Event}

/-! ### Clients -/

/-- What a client leaves as it is when it sends nothing. -/
structure Beside (s' s : Sys) : Prop where
  queue : s'.queue = s.queue
  batch : s'.batch = s.batch
  workerPc : s'.workerPc = s.workerPc
  cmdLock : s'.cmdLock = s.cmdLock
  accepting : s'.acceptingCommands = s.acceptingCommands

theorem Beside.onTheWay (h : Beside s' s) : s'.onTheWay = s.onTheWay := by
  rw [Sys.onTheWay, h.workerPc, h.batch, h.queue]
  rfl

/-- A step of a client that sends nothing. -/
theorem SysInv.silent (h : SysInv s) (hs : Beside s' s) (hpcs : s'.pcs = Function.update s.pcs t pc)
    (hgil : GilInv s'.gil (Function.update s.pcs t pc))
    (hwaiter : ∃ answers, WaiterInv s'.cmdWaiterBusy s'.cmdWaiter
      (Function.update (Pc.stage ∘ s.pcs) t pc.stage) (asked s.onTheWay) answers)
    (hearly : ∀ job, pc.early = some job → job.checks = true → s.acceptingCommands = true) :
    SysInv s' := by
  refine ⟨?_, ?_, ?_, ?_, ?_, ?_, ?_, ?_⟩
  · rw [hpcs]
    exact hgil
  · rw [hs.cmdLock, hs.workerPc]
    exact h.lock
  · rw [hpcs, Function.comp_update, hs.onTheWay]
    exact hwaiter
  · intro t' job' hjob hchecks
    rw [hs.accepting]
    by_cases ht : t' = t
    · rw [hpcs, ht, Function.update_self] at hjob
      exact hearly job' hjob hchecks
    · rw [hpcs, Function.update_of_ne ht] at hjob
      exact h.early t' job' hjob hchecks
  · rw [hs.accepting, hs.onTheWay]
    exact h.accepting
  · rw [hs.onTheWay]
    exact h.sents
  · rw [hs.workerPc]
    exact h.dropping
  · rw [hs.workerPc, hs.batch]
    exact h.batch

/-- The waiter when the stage of a thread stays. -/
theorem SysInv.stays (h : SysInv s) (hpc : pc.stage = (s.pcs t).stage) :
    ∃ answers, WaiterInv s.cmdWaiterBusy s.cmdWaiter (Function.update (Pc.stage ∘ s.pcs) t pc.stage)
      (asked s.onTheWay) answers := by
  have hsame : Function.update (Pc.stage ∘ s.pcs) t pc.stage = Pc.stage ∘ s.pcs :=
    Function.update_eq_self_iff.mpr hpc
  rw [hsame]
  exact h.waiter

/-- A call begins. -/
theorem SysInv.begins (h : SysInv s) (hs : Beside s' s) (hbusy : s'.cmdWaiterBusy = s.cmdWaiterBusy)
    (hwaiter : s'.cmdWaiter = s.cmdWaiter) (hpcs : s'.pcs = s.pcs) (hidle : s.pcs t = .idle)
    (hgil : s.gil = none) (hpc : pc.hasGil = true) (hout : pc.stage = .out)
    (hearly : ∀ job, pc.early = some job → job.checks = true → s.acceptingCommands = true) :
    SysInv (s'.enter t pc) := by
  have hpcs' : (s'.enter t pc).pcs = Function.update s.pcs t pc := by
    rw [← hpcs]
    rfl
  refine h.silent ⟨hs.queue, hs.batch, hs.workerPc, hs.cmdLock, hs.accepting⟩ hpcs' ?_ ?_ hearly
  · exact (hgil ▸ h.gil).enter hpc
  · show ∃ answers, WaiterInv s'.cmdWaiterBusy s'.cmdWaiter _ _ answers
    rw [hbusy, hwaiter]
    refine h.stays ?_
    rw [hout, hidle]
    rfl

/-- **A call begins.** -/
theorem SysInv.call (h : SysInv s) (hidle : s.pcs t = .idle) (hgil : s.gil = none) (job : Job) :
    SysInv (s.call t job).1 := by
  have hsame : Beside s s := ⟨rfl, rfl, rfl, rfl, rfl⟩
  cases job with
  | createChannel channel =>
    refine h.begins ⟨rfl, rfl, rfl, rfl, rfl⟩ rfl rfl rfl hidle hgil rfl rfl fun job hjob hchecks => ?_
    obtain rfl := Option.some.inj hjob
    cases hchecks
  | setTarget channel target =>
    rw [Sys.call]
    split_ifs with hclosed haccepting
    · exact h
    · exact h
    · refine h.begins hsame rfl rfl rfl hidle hgil rfl rfl fun _ _ _ => ?_
      simpa using haccepting
  | close channel =>
    rw [Sys.call]
    split_ifs with hclosed haccepting
    · exact h
    · exact ⟨h.gil, h.lock, h.waiter, h.early, h.accepting, h.sents, h.dropping, h.batch⟩
    · refine h.begins hsame rfl rfl rfl hidle hgil rfl rfl fun _ _ _ => ?_
      simpa using haccepting
  | shutdown =>
    rw [Sys.call]
    split_ifs with haccepting
    · exact h
    · refine h.begins hsame rfl rfl rfl hidle hgil rfl rfl fun _ _ _ => ?_
      simpa using haccepting

/-- Two states that differ in the channel objects only. -/
structure Marked (s' s : Sys) : Prop extends Beside s' s where
  pcs : s'.pcs = s.pcs
  cmdWaiter : s'.cmdWaiter = s.cmdWaiter
  cmdWaiterBusy : s'.cmdWaiterBusy = s.cmdWaiterBusy

theorem marked_abandon (s : Sys) (job : Job) : Marked (s.abandon job) s := by
  cases job <;> exact ⟨⟨rfl, rfl, rfl, rfl, rfl⟩, rfl, rfl, rfl⟩

theorem marked_finish (s : Sys) (status : Option ℕ) (job : Job) : Marked (s.finish status job) s := by
  cases job with
  | createChannel channel | close channel =>
    rcases status with _ | _ | _ <;> exact ⟨⟨rfl, rfl, rfl, rfl, rfl⟩, rfl, rfl, rfl⟩
  | setTarget _ _ | shutdown => exact ⟨⟨rfl, rfl, rfl, rfl, rfl⟩, rfl, rfl, rfl⟩

theorem leave_pcs (hpcs : s'.pcs = s.pcs) : (s'.leave t pc).pcs = Function.update s.pcs t pc := by
  rw [← hpcs]
  rfl

/-- A client gives the GIL back and ends its call. -/
theorem SysInv.ends (h : SysInv s) (hs : Beside s' s) (hpcs : s'.pcs = s.pcs)
    (hgil : (s.pcs t).hasGil = true)
    (hwaiter : ∃ answers, WaiterInv s'.cmdWaiterBusy s'.cmdWaiter
      (Function.update (Pc.stage ∘ s.pcs) t .out) (asked s.onTheWay) answers) :
    SysInv (s'.leave t .idle) := by
  exact h.silent ⟨hs.queue, hs.batch, hs.workerPc, hs.cmdLock, hs.accepting⟩ (leave_pcs hpcs)
    (h.gil.leave hgil rfl) hwaiter nofun

/-- A call that has not sent its command has the GIL. -/
theorem hasGil_of_early (h : pc.early = some job) : pc.hasGil = true := by
  cases pc with
  | acquiring _ | enqueueing _ => rfl
  | idle | sending _ | waiting _ | returning _ _ | releasing _ _ => cases h

/-- A command is pushed behind the others. -/
theorem onTheWay_push (s : Sys) (sent : Sent) : (s.push sent).onTheWay = s.onTheWay ++ [sent] := by
  rw [Sys.onTheWay, Sys.onTheWay, List.append_assoc, List.append_assoc]
  rfl

theorem asked_append (sents sents' : List Sent) : asked (sents ++ sents') = asked sents ++ asked sents' := by
  rw [asked, List.filter_append, List.map_append]
  rfl

/-- A call sends its command; `shutdown` ends the time of commands. -/
theorem SysInv.sends (h : SysInv s) (hpc : s.pcs t = .enqueueing job) {accepting : Bool}
    (haccepting : accepting = s.acceptingCommands ∧ job.cmd ≠ .dropChannels ∨ accepting = false) :
    SysInv (({ s.push ⟨job.cmd, true⟩ with acceptingCommands := accepting }).leave t (.waiting job)) := by
  have hgil : (s.pcs t).hasGil = true := by
    rw [hpc]
    rfl
  obtain ⟨answers, hwaiter⟩ := h.waiter
  refine ⟨h.gil.leave hgil rfl, h.lock, ⟨answers, ?_⟩, ?_, ?_, ?_, h.dropping, h.batch⟩
  · show WaiterInv _ _ _ (asked (s.push ⟨job.cmd, true⟩).onTheWay) _
    rw [onTheWay_push, asked_append]
    show WaiterInv _ _ (Pc.stage ∘ Function.update s.pcs t _) _ _
    rw [Function.comp_update]
    refine hwaiter.send ?_ job.cmd
    rw [Function.comp_apply, hpc]
    rfl
  · intro t' job' hjob _
    change (Function.update s.pcs t (.waiting job) t').early = some job' at hjob
    by_cases ht : t' = t
    · rw [ht, Function.update_self] at hjob
      cases hjob
    · -- another thread that has not sent its command would have the GIL
      rw [Function.update_of_ne ht] at hjob
      exact absurd (h.gil.unique hgil (hasGil_of_early hjob)) ht
  · intro htrue sent hsent
    change sent ∈ (s.push ⟨job.cmd, true⟩).onTheWay at hsent
    rw [onTheWay_push] at hsent
    rcases haccepting with ⟨rfl, hcmd⟩ | rfl
    · rcases List.mem_append.mp hsent with hsent | hsent
      · exact h.accepting htrue sent hsent
      · rw [List.mem_singleton.mp hsent]
        exact hcmd
    · cases htrue
  · intro sent hsent
    change sent ∈ (s.push ⟨job.cmd, true⟩).onTheWay at hsent
    rw [onTheWay_push] at hsent
    rcases List.mem_append.mp hsent with hsent | hsent
    · exact h.sents sent hsent
    · exact .inl ⟨job, List.mem_singleton.mp hsent⟩

/-- `enqueue_command`. -/
theorem SysInv.enqueue (h : SysInv s) (hpc : s.pcs t = .enqueueing job) :
    SysInv (s.enqueueCommand t job) := by
  -- a rejected command keeps the waiter
  have hrejected : SysInv (s.goto t (.releasing job none)) := by
    obtain ⟨answers, hwaiter⟩ := h.waiter
    have hstage : (Pc.stage ∘ s.pcs) t = .ready := by
      rw [Function.comp_apply, hpc]
      rfl
    obtain ⟨hbusy, hasked, -⟩ := hwaiter.of_taken (.inr hstage)
    refine h.silent ⟨rfl, rfl, rfl, rfl, rfl⟩ rfl (h.gil.keep ?_) ⟨answers, ?_⟩ nofun
    · rw [hpc]
      rfl
    · refine hwaiter.keep (fun hout => ?_) hbusy hasked (.inl rfl)
      rw [hstage] at hout
      cases hout
  cases job with
  | shutdown => exact h.sends hpc (.inr rfl)
  | createChannel _ | setTarget _ _ | close _ =>
    rw [Sys.enqueueCommand]
    split_ifs with haccepting
    · exact h.sends hpc (.inl ⟨rfl, nofun⟩)
    · exact hrejected
    · nofun

/-- A call ends that never had the waiter. -/
theorem SysInv.endsOut (h : SysInv s) (hs : Marked s' s) (hgil : (s.pcs t).hasGil = true)
    (hout : (s.pcs t).stage = .out) : SysInv (s'.leave t .idle) := by
  refine h.ends hs.toBeside hs.pcs hgil ?_
  rw [hs.cmdWaiter, hs.cmdWaiterBusy]
  exact h.stays (show Pc.idle.stage = _ from hout.symm)

/-- `server_waiter_acquire`. -/
theorem SysInv.acquire (h : SysInv s) (hpc : s.pcs t = .acquiring job) (hbusy : s.cmdWaiterBusy = false) :
    SysInv (({ s with cmdWaiterBusy := true, cmdWaiter := waiterReset }).goto t (.enqueueing job)) := by
  obtain ⟨answers, hwaiter⟩ := h.waiter
  rw [hbusy] at hwaiter
  have hacquired := hwaiter.acquire (t := t)
  have htaken : Function.update (Pc.stage ∘ s.pcs) t .taken t = .taken := Function.update_self _ _ _
  refine h.silent ⟨rfl, rfl, rfl, rfl, rfl⟩ rfl (h.gil.keep ?_) ⟨answers, ?_⟩ ?_
  · rw [hpc]
    rfl
  · have hne : Function.update (Pc.stage ∘ s.pcs) t .taken t ≠ .out := by
      rw [htaken]
      nofun
    have hready := hacquired.keep hne rfl (hacquired.of_taken (.inl htaken)).2.1
      (.inr ⟨rfl, rfl⟩ : Stage.ready = .taken ∨ Stage.ready = .ready ∧ waiterReset.done = false)
    rw [Function.update_idem] at hready
    exact hready
  · intro job' hjob hchecks
    refine h.early t job' ?_ hchecks
    rw [hpc]
    exact hjob

/-- The thread that waits goes on with the waiter. -/
theorem SysInv.wakes (h : SysInv s) (hpc : s.pcs t = .waiting job) (hdone : s.cmdWaiter.done = true)
    (status : ℕ) : SysInv (s.goto t (.returning job status)) := by
  obtain ⟨answers, hwaiter⟩ := h.waiter
  have hstage : (Pc.stage ∘ s.pcs) t = .waiting job.cmd := by
    rw [Function.comp_apply, hpc]
    rfl
  obtain ⟨hbusy, hanswered⟩ := hwaiter.of_waiting hstage
  refine h.silent ⟨rfl, rfl, rfl, rfl, rfl⟩ rfl (h.gil.keep ?_) ⟨answers, ?_⟩ nofun
  · rw [hpc]
    rfl
  · refine hwaiter.keep (fun hout => ?_) hbusy (hanswered hdone).1 (.inl rfl)
    rw [hstage] at hout
    cases hout

/-- **A client goes on.** -/
theorem SysInv.client (h : SysInv s) (hmove : ClientMove s t s') : SysInv s' := by
  cases hmove with
  | sent channel hpc =>
    exact h.endsOut ⟨⟨rfl, rfl, rfl, rfl, rfl⟩, rfl, rfl, rfl⟩ (by rw [hpc]; rfl) (by rw [hpc]; rfl)
  | busy job hpc _ _ => exact h.endsOut (marked_abandon s job) (by rw [hpc]; rfl) (by rw [hpc]; rfl)
  | acquired job hpc _ hbusy => exact h.acquire hpc hbusy
  | enqueued job hpc _ => exact h.enqueue hpc
  | slept => exact h
  | woke job hpc hdone => exact h.wakes hpc hdone _
  | back job status hpc hgil =>
    refine h.silent ⟨rfl, rfl, rfl, rfl, rfl⟩ rfl ((hgil ▸ h.gil).enter rfl) (h.stays ?_) nofun
    rw [hpc]
    rfl
  | released job status hpc _ =>
    have hs := marked_finish { s with cmdWaiterBusy := false } status job
    refine h.ends ⟨hs.queue, hs.batch, hs.workerPc, hs.cmdLock, hs.accepting⟩ hs.pcs (by rw [hpc]; rfl) ?_
    obtain ⟨answers, hwaiter⟩ := h.waiter
    rw [hs.cmdWaiter, hs.cmdWaiterBusy]
    refine ⟨answers, hwaiter.release ?_⟩
    rw [Function.comp_apply, hpc]
    rfl

/-! ### The worker -/

/-- What the worker leaves as it is. -/
structure Behind (s' s : Sys) : Prop where
  gil : s'.gil = s.gil
  pcs : s'.pcs = s.pcs
  cmdWaiterBusy : s'.cmdWaiterBusy = s.cmdWaiterBusy
  accepting : s'.acceptingCommands = s.acceptingCommands

/-- A step of the worker. -/
theorem SysInv.work (h : SysInv s) (hs : Behind s' s) (hlock : s'.cmdLock = s'.workerPc.lock)
    (hwaiter : ∃ answers, WaiterInv s.cmdWaiterBusy s'.cmdWaiter (Pc.stage ∘ s.pcs) (asked s'.onTheWay) answers)
    (hsub : ∀ sent ∈ s'.onTheWay, sent ∈ s.onTheWay)
    (hdropping : ∀ sent left, s'.workerPc = .dropping sent left → sent = ⟨.dropChannels, true⟩)
    (hbatch : s'.workerPc.inLoop = false → s'.batch = []) : SysInv s' := by
  refine ⟨?_, hlock, ?_, ?_, ?_, fun sent hsent => h.sents sent (hsub sent hsent), hdropping, hbatch⟩
  · rw [hs.gil, hs.pcs]
    exact h.gil
  · rw [hs.cmdWaiterBusy, hs.pcs]
    exact hwaiter
  · rw [hs.pcs, hs.accepting]
    exact h.early
  · rw [hs.accepting]
    exact fun haccepting sent hsent => h.accepting haccepting sent (hsub sent hsent)

/-- A step of the worker that completes nothing. -/
theorem SysInv.workSilent (h : SysInv s) (hs : Behind s' s) (hlock : s'.cmdLock = s'.workerPc.lock)
    (hwaiter : s'.cmdWaiter = s.cmdWaiter) (hsents : s'.onTheWay = s.onTheWay)
    (hdropping : ∀ sent left, s'.workerPc = .dropping sent left → sent = ⟨.dropChannels, true⟩)
    (hbatch : s'.workerPc.inLoop = false → s'.batch = []) : SysInv s' := by
  refine h.work hs hlock ?_ (fun sent hsent => hsents ▸ hsent) hdropping hbatch
  rw [hwaiter, hsents]
  exact h.waiter

/-- The command that drops the channels has the waiter. -/
theorem SysInv.eq_drop (h : SysInv s) {sent : Sent} (hsent : sent ∈ s.onTheWay)
    (hcmd : sent.cmd.drops = true) : sent = ⟨.dropChannels, true⟩ := by
  rcases h.sents sent hsent with ⟨job, rfl⟩ | ⟨channel, rfl⟩
  · cases job with
    | shutdown => rfl
    | createChannel _ | setTarget _ _ | close _ => cases hcmd
  · cases hcmd

/-- `rtp_sync_waiter_complete`. -/
theorem SysInv.complete (h : SysInv s) {sent : Sent} {status : ℕ} {unrefs : List ℕ}
    (hpc : s.workerPc = .completing sent status unrefs) :
    SysInv ({ s with cmdWaiter := if sent.waiter then waiterComplete status else s.cmdWaiter }.goWorker
      (.freeing unrefs)) := by
  have hfree : s.cmdLock = none := by
    rw [h.lock, hpc]
    rfl
  have hsents : s.onTheWay = sent :: (s.batch ++ s.queue) := by
    rw [Sys.onTheWay, hpc]
    rfl
  have hsub : ∀ sent' ∈ s.batch ++ s.queue, sent' ∈ s.onTheWay := by
    intro sent' hsent'
    rw [hsents]
    exact List.mem_cons_of_mem _ hsent'
  obtain ⟨answers, hwaiter⟩ := h.waiter
  rw [hsents] at hwaiter
  cases hw : sent.waiter with
  | true =>
    refine h.work ⟨rfl, rfl, rfl, rfl⟩ hfree ⟨answers ++ [(sent.cmd, status)], ?_⟩ hsub nofun nofun
    rw [asked, List.filter_cons_of_pos hw] at hwaiter
    exact hwaiter.complete status
  | false =>
    refine h.work ⟨rfl, rfl, rfl, rfl⟩ hfree ⟨answers, ?_⟩ hsub nofun nofun
    rw [asked, List.filter_cons_of_neg (by rw [hw]; nofun)] at hwaiter
    exact hwaiter

/-- The commands on the way, by where the worker is. -/
theorem onTheWay_of_pc {pc : WorkerPc} (hpc : s.workerPc = pc) : s.onTheWay = pc.cur ++ (s.batch ++ s.queue) := by
  rw [Sys.onTheWay, hpc]

/-- **The worker goes on.** -/
theorem SysInv.worker (h : SysInv s) (hmove : WorkerMove s s') : SysInv s' := by
  have hlock := h.lock
  have hbatch := h.batch
  cases hmove with
  | detached hpc hfree =>
    refine h.workSilent ⟨rfl, rfl, rfl, rfl⟩ hfree rfl ?_ nofun nofun
    rw [hpc] at hbatch
    rw [onTheWay_of_pc hpc, hbatch rfl]
    exact List.append_nil s.queue
  | finished hpc hnil =>
    rw [hpc] at hlock
    exact h.workSilent ⟨rfl, rfl, rfl, rfl⟩ hlock rfl (onTheWay_of_pc hpc).symm nofun fun _ => hnil
  | cleared sent batch hpc hcons _ hcmd =>
    have hsents : s.onTheWay = sent :: (batch ++ s.queue) := by
      rw [onTheWay_of_pc hpc, hcons]
      rfl
    refine h.workSilent ⟨rfl, rfl, rfl, rfl⟩ rfl rfl hsents.symm ?_ nofun
    rintro sent' left hdropping
    obtain ⟨rfl, -⟩ := WorkerPc.dropping.inj hdropping
    exact h.eq_drop (by rw [hsents]; exact List.mem_cons_self) hcmd
  | processed sent batch addr self out hpc hcons hfree _ _ =>
    have hsents : s.onTheWay = sent :: (batch ++ s.queue) := by
      rw [onTheWay_of_pc hpc, hcons]
      rfl
    exact h.workSilent ⟨rfl, rfl, rfl, rfl⟩ hfree rfl hsents.symm nofun nofun
  | dropped sent channel left hpc _ =>
    rw [hpc] at hlock
    refine h.workSilent ⟨rfl, rfl, rfl, rfl⟩ hlock rfl (onTheWay_of_pc hpc).symm ?_ nofun
    intro sent' left' hleft
    obtain ⟨rfl, -⟩ := WorkerPc.dropping.inj hleft
    exact h.dropping sent _ hpc
  | unlocked sent hpc =>
    exact h.workSilent ⟨rfl, rfl, rfl, rfl⟩ rfl rfl (onTheWay_of_pc hpc).symm nofun nofun
  | completed sent status unrefs hpc => exact h.complete hpc
  | freed channel unrefs hpc _ =>
    rw [hpc] at hlock
    exact h.workSilent ⟨rfl, rfl, rfl, rfl⟩ hlock rfl (onTheWay_of_pc hpc).symm nofun nofun
  | next hpc =>
    rw [hpc] at hlock
    exact h.workSilent ⟨rfl, rfl, rfl, rfl⟩ hlock rfl (onTheWay_of_pc hpc).symm nofun nofun
  | polled env self out hpc _ =>
    rw [hpc] at hlock hbatch
    exact h.workSilent ⟨rfl, rfl, rfl, rfl⟩ hlock rfl (onTheWay_of_pc hpc).symm nofun fun _ => hbatch rfl
  | received channel received hpc | again hpc =>
    rw [hpc] at hlock hbatch
    exact h.workSilent ⟨rfl, rfl, rfl, rfl⟩ hlock rfl (onTheWay_of_pc hpc).symm nofun fun _ => hbatch rfl

/-- A callback closes a channel. -/
theorem SysInv.callback (h : SysInv s) (channel : ℕ) : SysInv (s.closeOnWorker channel).1 := by
  rw [Sys.closeOnWorker]
  split_ifs with hclosed haccepting
  · exact h
  · exact ⟨h.gil, h.lock, h.waiter, h.early, h.accepting, h.sents, h.dropping, h.batch⟩
  · -- the command has no waiter
    have hsents : ∀ sent ∈ (s.push ⟨.removeChannel channel, false⟩).onTheWay,
        sent ∈ s.onTheWay ∨ sent = ⟨.removeChannel channel, false⟩ := by
      intro sent hsent
      rw [onTheWay_push] at hsent
      exact (List.mem_append.mp hsent).imp_right List.mem_singleton.mp
    refine ⟨h.gil, h.lock, ?_, h.early, ?_, ?_, h.dropping, h.batch⟩
    · show ∃ answers, WaiterInv _ _ _ (asked (s.push ⟨.removeChannel channel, false⟩).onTheWay) answers
      rw [onTheWay_push, asked_append]
      show ∃ answers, WaiterInv _ _ _ (_ ++ []) answers
      rw [List.append_nil]
      exact h.waiter
    · intro htrue sent hsent
      rcases hsents sent hsent with hsent | rfl
      · exact h.accepting htrue sent hsent
      · nofun
    · intro sent hsent
      rcases hsents sent hsent with hsent | rfl
      · exact h.sents sent hsent
      · exact .inr ⟨channel, rfl⟩

/-- **The invariant, step by step.** -/
theorem SysInv.step (h : SysInv s) (hstep : Step s event s') : SysInv s' := by
  cases hstep with
  | call t job hidle hgil _ => exact h.call hidle hgil job
  | send t channel hidle hgil _ =>
    exact h.begins ⟨rfl, rfl, rfl, rfl, rfl⟩ rfl rfl rfl hidle hgil rfl rfl nofun
  | client t s' hmove => exact h.client hmove
  | worker env s' hmove => exact h.worker hmove
  | callback channel _ _ _ _ => exact h.callback channel

/-! ### Deadlock and `create_channel` -/

/-- A `create_channel` is in `server_waiter_acquire`. -/
theorem SysInv.creating_iff (h : SysInv s) :
    s.creating = true ↔ ∃ t channel, s.pcs t = .acquiring (.createChannel channel) := by
  rw [Sys.creating]
  constructor
  · intro hcreating
    split at hcreating
    · next t _ =>
      split at hcreating
      · next channel hpc => exact ⟨t, channel, hpc⟩
      · cases hcreating
    · cases hcreating
  · rintro ⟨t, channel, hpc⟩
    have hgil : s.gil = some (.client t) := h.gil.eq_client (by rw [hpc]; rfl)
    rw [hgil]
    dsimp only
    rw [hpc]

/-- While the worker drops channels its command has the waiter, and the server accepts no
commands. -/
theorem SysInv.of_clearing (h : SysInv s) (hclearing : s.cmdLock = some .worker) :
    s.acceptingCommands = false ∧ asked s.onTheWay ≠ [] := by
  cases hpc : s.workerPc with
  | dropping sent left =>
    obtain rfl := h.dropping sent left hpc
    have hsents := onTheWay_of_pc hpc
    refine ⟨Bool.eq_false_iff.mpr fun haccepting => ?_, ?_⟩
    · refine h.accepting haccepting ⟨.dropChannels, true⟩ ?_ rfl
      rw [hsents]
      exact List.mem_cons_self
    · rw [hsents]
      nofun
  | _ =>
    rw [h.lock, hpc] at hclearing
    cases hclearing

/-- **Deadlock**: the worker in `clear_channels` meets a `create_channel`. -/
theorem SysInv.deadlock_iff (h : SysInv s) :
    Deadlock s ↔ s.clearing = true ∧ s.creating = true := by
  have hclearing : s.clearing = true ↔ s.cmdLock = some .worker ∧ s.workerPc.wantsGil = true := by
    rw [Sys.clearing, Bool.and_eq_true, decide_eq_true_eq]
  rw [hclearing, h.creating_iff]
  refine and_congr_right fun hworker => ?_
  obtain ⟨hrejects, hasked⟩ := h.of_clearing hworker.1
  obtain ⟨answers, hwaiter⟩ := h.waiter
  constructor
  · rintro ⟨t, -, hwants⟩
    cases hpc : s.pcs t with
    | acquiring job =>
      cases job with
      | createChannel channel => exact ⟨t, channel, hpc⟩
      | setTarget _ _ | close _ | shutdown =>
        -- these have looked at `accepting_commands`
        have haccepting := h.early t _ (by rw [hpc]; rfl) rfl
        rw [hrejects] at haccepting
        cases haccepting
    | enqueueing job =>
      -- the waiter is with the command of the worker
      refine absurd (hwaiter.of_taken (t := t) (.inr ?_)).2.1 hasked
      rw [Function.comp_apply, hpc]
      rfl
    | releasing job status =>
      refine absurd (hwaiter.of_taken (t := t) (.inl ?_)).2.1 hasked
      rw [Function.comp_apply, hpc]
      rfl
    | idle | sending _ | waiting _ | returning _ _ =>
      rw [hpc] at hwants
      cases hwants
  · rintro ⟨t, channel, hpc⟩
    refine ⟨t, h.gil.eq_client ?_, ?_⟩
    · rw [hpc]
      rfl
    · rw [hpc]
      rfl

theorem enqueueCommand_pcs (s : Sys) (t : ℕ) (job : Job) :
    ∃ pc, (s.enqueueCommand t job).pcs = Function.update s.pcs t pc ∧ pc.early = none := by
  cases job with
  | shutdown => exact ⟨_, rfl, rfl⟩
  | createChannel _ | setTarget _ _ | close _ =>
    rw [Sys.enqueueCommand]
    · split_ifs
      · exact ⟨_, rfl, rfl⟩
      · exact ⟨_, rfl, rfl⟩
    · nofun

/-- What a client does is to its own place, and it does not go back to
`server_waiter_acquire`. -/
theorem ClientMove.pcs (h : ClientMove s t s') :
    ∃ pc, s'.pcs = Function.update s.pcs t pc ∧ (∀ job, pc = .acquiring job → s.pcs t = .acquiring job) := by
  cases h with
  | sent channel hpc => exact ⟨_, rfl, nofun⟩
  | busy job hpc _ _ => exact ⟨.idle, leave_pcs (marked_abandon s job).pcs, nofun⟩
  | acquired job hpc _ _ => exact ⟨_, rfl, nofun⟩
  | enqueued job hpc _ =>
    obtain ⟨pc, hpcs, hearly⟩ := enqueueCommand_pcs s t job
    refine ⟨pc, hpcs, ?_⟩
    rintro job' rfl
    cases hearly
  | slept => exact ⟨s.pcs t, (Function.update_eq_self t s.pcs).symm, fun _ h => h⟩
  | woke job hpc _ => exact ⟨_, rfl, nofun⟩
  | back job status hpc _ => exact ⟨_, rfl, nofun⟩
  | released job status hpc _ =>
    exact ⟨.idle, leave_pcs (marked_finish { s with cmdWaiterBusy := false } status job).pcs, nofun⟩

theorem enqueueCommand_worker (s : Sys) (t : ℕ) (job : Job) :
    (s.enqueueCommand t job).workerPc = s.workerPc ∧ (s.enqueueCommand t job).cmdLock = s.cmdLock := by
  cases job with
  | shutdown => exact ⟨rfl, rfl⟩
  | createChannel _ | setTarget _ _ | close _ =>
    rw [Sys.enqueueCommand]
    · split_ifs <;> exact ⟨rfl, rfl⟩
    · nofun

/-- A client leaves the worker where it is, and with what it has. -/
theorem ClientMove.clearing (h : ClientMove s t s') : s'.clearing = s.clearing := by
  have hworker : s'.workerPc = s.workerPc ∧ s'.cmdLock = s.cmdLock := by
    cases h with
    | busy job hpc _ _ => exact ⟨(marked_abandon s job).workerPc, (marked_abandon s job).cmdLock⟩
    | enqueued job hpc _ => exact enqueueCommand_worker s t job
    | released job status hpc _ =>
      have hs := marked_finish { s with cmdWaiterBusy := false } status job
      exact ⟨hs.workerPc, hs.cmdLock⟩
    | sent _ _ | acquired _ _ _ _ | slept | woke _ _ _ | back _ _ _ _ => exact ⟨rfl, rfl⟩
  rw [Sys.clearing, hworker.1, hworker.2]
  rfl

/-- No call of a client comes back to where `create_channel` waits. -/
theorem SysInv.creating_client (h : SysInv s) (h' : SysInv s') (hmove : ClientMove s t s')
    (hcreating : s'.creating = true) : s.creating = true := by
  obtain ⟨u, channel, hu⟩ := h'.creating_iff.mp hcreating
  obtain ⟨pc, hpcs, hearly⟩ := hmove.pcs
  refine h.creating_iff.mpr ⟨u, channel, ?_⟩
  by_cases hut : u = t
  · rw [hpcs, hut, Function.update_self] at hu
    rw [hut]
    exact hearly _ hu
  · rw [hpcs, Function.update_of_ne hut] at hu
    exact hu

theorem SysInv.creating_congr (h : SysInv s) (h' : SysInv s') (hpcs : s'.pcs = s.pcs) :
    s'.creating = s.creating := by
  rw [Bool.eq_iff_iff, h.creating_iff, h'.creating_iff, hpcs]

/-- The worker comes to drop channels from the head of its loop, or it drops some already. -/
theorem WorkerMove.clearing (h : WorkerMove s s') (hinv : SysInv s) (hclearing : s'.clearing = true) :
    s.clearing = true ∨ s.toClear = true := by
  rw [Sys.clearing, Bool.and_eq_true, decide_eq_true_eq] at hclearing
  have hlock := hinv.lock
  cases h with
  | cleared sent batch hpc hbatch hfree hcmd =>
    have hsent : sent = ⟨.dropChannels, true⟩ := by
      refine hinv.eq_drop ?_ hcmd
      rw [onTheWay_of_pc hpc, hbatch]
      exact List.mem_cons_self
    refine .inr ?_
    rw [Sys.toClear, hpc, hbatch]
    dsimp only
    rw [hfree, hsent]
    cases hleft : (clearChannels s.self).2 with
    | nil =>
      rw [hleft] at hclearing
      cases hclearing.2
    | cons channel left => rfl
  | dropped sent channel left hpc hgil =>
    refine .inl ?_
    rw [Sys.clearing, hlock, hpc]
    rfl
  | detached hpc hfree =>
    rw [hpc] at hlock
    cases hlock.symm.trans hclearing.1
  | finished hpc _ | completed _ _ _ hpc | freed _ _ hpc _ | next hpc | polled _ _ _ hpc _
  | received _ _ hpc | again hpc =>
    rw [hpc] at hlock
    cases hlock.symm.trans hclearing.1
  | processed _ _ _ _ _ hpc _ hfree _ _ => cases hfree.symm.trans hclearing.1
  | unlocked sent hpc => cases hclearing.1

theorem WorkerMove.toClear (h : WorkerMove s s') (htoClear : s.toClear = true) : s'.clearing = true := by
  rw [Sys.toClear] at htoClear
  split at htoClear
  · next sent batch hpc hbatch =>
    rw [Bool.and_eq_true, Bool.and_eq_true, decide_eq_true_eq, decide_eq_true_eq] at htoClear
    obtain ⟨⟨-, hcmd⟩, hleft⟩ := htoClear
    cases h with
    | cleared sent' batch' _ hbatch' _ _ =>
      rw [Sys.clearing]
      cases hptrs : (clearChannels s.self).2 with
      | nil =>
        rw [hptrs] at hleft
        cases hleft
      | cons channel left => rfl
    | finished _ hbatch' => cases hbatch.symm.trans hbatch'
    | processed sent' batch' _ _ _ _ hbatch' _ hdrops _ =>
      obtain ⟨rfl, -⟩ := List.cons.inj (hbatch.symm.trans hbatch')
      rw [hcmd] at hdrops
      cases hdrops
    | detached hpc' _ | dropped _ _ _ hpc' _ | unlocked _ hpc' | completed _ _ _ hpc' | freed _ _ hpc' _
    | next hpc' | polled _ _ _ hpc' _ | received _ _ hpc' | again hpc' => cases hpc.symm.trans hpc'
  · cases htoClear

theorem WorkerMove.pcs (h : WorkerMove s s') : s'.pcs = s.pcs := by
  cases h <;> rfl

theorem creating_enter (s : Sys) (t : ℕ) (pc : Pc) :
    (s.enter t pc).creating =
      match pc with
      | .acquiring (.createChannel _) => true
      | _ => false := by
  rw [Sys.creating]
  show (match Function.update s.pcs t pc t with
    | .acquiring (.createChannel _) => true
    | _ => false) = _
  rw [Function.update_self]

/-- The calls that look at `accepting_commands` first. -/
theorem call_creating (hgil : s.gil = none) (hchecks : job.checks = true) :
    (s.call t job).1.creating = false := by
  have hnone : s.creating = false := by
    rw [Sys.creating, hgil]
  cases job with
  | createChannel channel => cases hchecks
  | setTarget channel target =>
    rw [Sys.call]
    split_ifs
    · exact hnone
    · exact hnone
    · rw [creating_enter]
  | close channel =>
    rw [Sys.call]
    split_ifs
    · exact hnone
    · exact hnone
    · rw [creating_enter]
  | shutdown =>
    rw [Sys.call]
    split_ifs
    · exact hnone
    · rw [creating_enter]

theorem call_clearing (s : Sys) (t : ℕ) (job : Job) : (s.call t job).1.clearing = s.clearing := by
  cases job with
  | createChannel channel => rfl
  | setTarget _ _ | close _ | shutdown =>
    rw [Sys.call]
    split_ifs <;> rfl

/-- What a step that keeps apart from `create_channel` does not bring about. -/
theorem SysInv.apart (h : SysInv s) (hstep : Step s event s') (hapart : event.apart s = true)
    (hnot : ¬ Deadlock s) : ¬ Deadlock s' := by
  have h' := h.step hstep
  rw [h.deadlock_iff] at hnot
  rw [h'.deadlock_iff]
  rintro ⟨hclearing, hcreating⟩
  cases hstep with
  | call t job _ hgil _ =>
    rw [call_clearing] at hclearing
    cases hchecks : job.checks with
    | true =>
      rw [call_creating hgil hchecks] at hcreating
      cases hcreating
    | false =>
      cases job with
      | createChannel channel =>
        rw [Event.apart, hclearing] at hapart
        cases hapart
      | setTarget _ _ | close _ | shutdown => cases hchecks
  | send t channel _ _ _ =>
    rw [creating_enter] at hcreating
    cases hcreating
  | client t s' hmove =>
    exact hnot ⟨hmove.clearing ▸ hclearing, h.creating_client h' hmove hcreating⟩
  | worker env s' hmove =>
    rw [h.creating_congr h' hmove.pcs] at hcreating
    rcases hmove.clearing h hclearing with hclearing | htoClear
    · exact hnot ⟨hclearing, hcreating⟩
    · rw [Event.apart, htoClear, hcreating] at hapart
      cases hapart
  | callback channel _ hgil _ _ =>
    have hnone : (s.closeOnWorker channel).1.gil = none := by
      rw [Sys.closeOnWorker]
      split_ifs <;> exact hgil
    rw [Sys.creating, hnone] at hcreating
    cases hcreating

/-- What a step that does not keep apart brings about. -/
theorem SysInv.deadlocks (h : SysInv s) (hstep : Step s event s') (hmeets : event.apart s = false) :
    Deadlock s' := by
  have h' := h.step hstep
  rw [h'.deadlock_iff]
  cases hstep with
  | call t job _ _ _ =>
    cases job with
    | createChannel channel =>
      rw [Event.apart, Bool.not_eq_false'] at hmeets
      exact ⟨hmeets, creating_enter _ _ _⟩
    | setTarget _ _ | close _ | shutdown => cases hmeets
  | worker env s' hmove =>
    rw [Event.apart, Bool.not_eq_false', Bool.and_eq_true] at hmeets
    rw [h.creating_congr h' hmove.pcs]
    exact ⟨hmove.toClear hmeets.1, hmeets.2⟩
  | send _ _ _ _ _ | client _ _ _ | callback _ _ _ _ _ => cases hmeets

end steps

/-! ### Every run -/

section runs

variable {events : List Event} {s : Sys} {acts : List Act}

/-- The invariant holds in every state that a run comes to. -/
theorem sysInv_of_run (h : run sysStep sysStart events = some (s, acts)) : SysInv s :=
  run_induction (P := fun _ _ => True) (fun _ _ s => SysInv s) sysInv_start
    (fun hinv _ hstep => hinv.step (sysStep_step hstep)) (.of_forall fun _ _ _ => trivial) h

theorem not_deadlock_of_run
    (hapart : Always sysStep (fun s event => event.apart s = true) sysStart events)
    (h : run sysStep sysStart events = some (s, acts)) : ¬ Deadlock s := by
  have hstart : ¬ Deadlock sysStart := by
    rintro ⟨⟨hlock, -⟩, -⟩
    cases hlock
  exact run_keeps (I := SysInv) (fun hinv hstep => hinv.step (sysStep_step hstep))
    (fun hinv hnot hevent hstep => hinv.apart (sysStep_step hstep) hevent hnot)
    sysInv_start hstart hapart h

/-- **Deadlock.**  In no state of a run has the worker `cmd_lock` and waits for the GIL
while a Python thread has the GIL and waits for `cmd_lock`, if and only if in every state
of it `create_channel` and `clear_channels` keep apart. -/
theorem sysRun_deadlock (h : run sysStep sysStart events = some (s, acts)) :
    (∀ earlier later u acts', events = earlier ++ later →
      run sysStep sysStart earlier = some (u, acts') → ¬ Deadlock u) ↔
    Always sysStep (fun s event => event.apart s = true) sysStart events := by
  rw [always_iff]
  constructor
  · rintro hnot earlier event later rfl u acts' hu
    -- the step that does not keep apart ends in a deadlock
    by_contra hmeets
    obtain ⟨u', acts₁, acts₂, hu', hrest, -⟩ := run_append_eq_some.mp h
    obtain ⟨rfl, -⟩ := Prod.mk.inj (Option.some.inj (hu.symm.trans hu'))
    obtain ⟨v, act, acts₃, hstep, -, -⟩ := run_cons_eq_some.mp hrest
    refine hnot (earlier ++ [event]) later v (acts' ++ [act]) (by simp)
      (run_concat_eq_some.mpr ⟨u, acts', act, hu, hstep, rfl⟩) ?_
    exact (sysInv_of_run hu).deadlocks (sysStep_step hstep) (Bool.eq_false_iff.mpr hmeets)
  · rintro hapart earlier later u acts' rfl hu
    refine not_deadlock_of_run (always_iff.mpr ?_) hu
    rintro first event rest rfl
    exact hapart first event (rest ++ later) (by simp)

/-- A thread creates a channel and then calls `shutdown`, up to where it waits; the worker
is before the command. -/
def shutdownRun : List Event :=
  let env : WorkerEnv := ⟨some 1, some 1, some 1, false, []⟩
  [.call 0 (.createChannel ⟨1, 0, false, 0⟩), .client 0, .client 0,
    .worker env, .worker env, .worker env, .worker env, .client 0, .client 0, .client 0,
    .call 0 .shutdown, .client 0, .client 0,
    .worker env, .worker env, .worker env, .worker env]

/-- Another thread calls `create_channel` before the worker has `cmd_lock`, and gets an
exception. -/
def apartRun : List Event :=
  let env : WorkerEnv := ⟨some 1, some 1, some 1, false, []⟩
  shutdownRun ++ [.call 1 (.createChannel ⟨2, 0, false, 0⟩), .client 1,
    .worker env, .worker env, .worker env, .worker env, .worker env, .client 0, .client 0, .client 0]

theorem sysRun_deadlock_apart :
    ∃ s acts, run sysStep sysStart apartRun = some (s, acts) ∧ s.drops 1 = 1 ∧
      ∀ earlier later u acts', apartRun = earlier ++ later →
        run sysStep sysStart earlier = some (u, acts') → ¬ Deadlock u := by
  have hdrops : (run sysStep sysStart apartRun).map (fun p => p.1.drops 1) = some 1 := by decide
  obtain ⟨⟨s, acts⟩, hrun, hs⟩ := Option.map_eq_some_iff.mp hdrops
  exact ⟨s, acts, hrun, hs, (sysRun_deadlock hrun).mpr (by decide)⟩

/-- Another thread calls `create_channel` when the worker has `cmd_lock`. -/
def deadlockRun : List Event :=
  shutdownRun ++ [.worker ⟨some 1, some 1, some 1, false, []⟩, .call 1 (.createChannel ⟨2, 0, false, 0⟩)]

theorem deadlockRun_deadlocks :
    ∃ s acts, run sysStep sysStart deadlockRun = some (s, acts) ∧ Deadlock s := by
  have hstate : (run sysStep sysStart deadlockRun).map (fun p =>
      (p.1.cmdLock, p.1.workerPc.wantsGil, p.1.gil, (p.1.pcs 1).wantsLock)) =
      some (some .worker, true, some (.client 1), true) := by decide
  obtain ⟨⟨s, acts⟩, hrun, hs⟩ := Option.map_eq_some_iff.mp hstate
  simp only [Prod.mk.injEq] at hs
  obtain ⟨hlock, hworker, hgil, hpc⟩ := hs
  exact ⟨s, acts, hrun, ⟨hlock, hworker⟩, 1, hgil, hpc⟩

end runs

end RtpServer
