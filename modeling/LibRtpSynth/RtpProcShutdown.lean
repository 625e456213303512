/-
`shutdown` of `RtpProc` (`python/RtpProc_mod.c`).

`rtp_proc_shutdown_internal` looks at `worker_running` with the lock of the interpreter,
queues `CMD_SHUTDOWN` under `cmd_lock` unless `shutdown_queued` is set, and gives the lock
of the interpreter back for `pthread_join`.  `worker_running` is cleared behind it: a call
that begins meanwhile comes to `pthread_join` as well.

* `JoinMove` — what a step does to `pthread_join` and the flags around it;
* `JoinInv`, `OnceInv` — what holds in every run, and in a run without a second
  `pthread_join` and without one in a callback;
* `cbRun_shutdown` — one `CMD_SHUTDOWN`, one `pthread_join`, and no `shutdown` that returns
  before the worker has.
-/
import LibRtpSynth.RtpProcCallbacks

open RtpSync Runs

namespace RtpProc

/-- `pthread_join` begins. -/
def Seen.starts (seen : Seen) : Bool := seen.join = some .starts

/-- How many of the commands accepted are a `CMD_SHUTDOWN`. -/
def shutdowns (outs : List Seen) : ℕ :=
  (acceptedOf (outs.map Seen.act)).countP fun sent => sent.cmd = .shutdown

/-- A call that has found `worker_running` set comes to the section under `cmd_lock` when
`shutdown_queued` is set, or in a callback; in a callback `calloc` can still end it. -/
def CbEvent.joinsAgain (s : CbSys) : CbEvent → Bool
  | .step (.client t addr) =>
    match s.sys.pcs t with
    | .shuttingDown _ => s.sys.shutdownQueued || (t = workerThread && addr.isSome)
    | _ => false
  | _ => false

section steps

variable {outs : List Seen} {s s' : CbSys} {t : ℕ} {addr : Option ℕ} {act : Act}
  {seen : Seen} {cb : CbEvent}

/-! ### What a step does -/

/-- A worker that is finished makes no step. -/
theorem workerMove_unfinished {s s' : Sys} {env : CmdEnv} (h : s.workerMove env = some (s', act)) :
    s.workerPc ≠ .finished := by
  intro hpc
  rw [Sys.workerMove.eq_def, hpc] at h
  cases h

/-- A call that begins does not come to `pthread_join`. -/
theorem call_joining (s : Sys) (t : ℕ) (job : Job) (addr : Option ℕ) (t' : ℕ)
    (h : (s.call t job addr).1.pcs t' = .joining) : s.pcs t' = .joining := by
  have hgoto (u : Sys) (pc : Pc) (hpc : pc ≠ .joining) (hu : (u.goto t pc).pcs t' = .joining) :
      u.pcs t' = .joining := by
    change Function.update u.pcs t pc t' = .joining at hu
    by_cases htt : t' = t
    · rw [htt, Function.update_self] at hu
      exact absurd hu hpc
    · rwa [Function.update_of_ne htt] at hu
  cases job with
  | createChannel procInCb =>
    cases addr with
    | none => exact h
    | some a => exact hgoto _ _ Pc.noConfusion h
  | close id | dealloc id =>
    rw [Sys.call] at h
    split at h
    · exact h
    · cases addr with
      | none => exact h
      | some a => exact hgoto _ _ Pc.noConfusion h
  | shutdown =>
    rw [Sys.call] at h
    split at h
    · exact h
    · exact hgoto _ _ Pc.noConfusion h

/-- A step of a call that is not `shutdown`. -/
theorem clientStep_apart {s s' : Sys} (h : s.clientStep t addr = some (s', act))
    (hshut : ∀ number, s.pcs t ≠ .shuttingDown number) (hjoin : s.pcs t ≠ .joining) :
    s'.shutdownQueued = s.shutdownQueued ∧ s'.workerRunning = s.workerRunning ∧
      s'.workerPc = s.workerPc ∧ (∀ t', s'.pcs t' = .joining → s.pcs t' = .joining) ∧
      joinSeen (s.pcs t) (s'.pcs t) = none := by
  have halong := clientStep_alongside h hshut hjoin
  obtain ⟨pc, hpcs, hworker, hop⟩ := clientStep_hop h
  refine ⟨halong.queued, halong.running, hworker, fun t' ht' => ?_, ?_⟩
  · by_cases htt : t' = t
    · rw [htt, hpcs, Function.update_self] at ht'
      rw [ht'] at hop
      cases hpc : s.pcs t with
      | shuttingDown number => exact absurd hpc (hshut number)
      | joining => exact absurd hpc hjoin
      | idle | clearing _ | acquiring _ | resetting _ | enqueueing _ _ | waiting _ | releasing _ _
      | popping _ _ =>
        rw [hpc] at hop
        cases hop
    · rwa [hpcs, Function.update_of_ne htt] at ht'
  · cases hpc : s.pcs t with
    | shuttingDown number => exact absurd hpc (hshut number)
    | joining => exact absurd hpc hjoin
    | idle | clearing _ | acquiring _ | resetting _ | enqueueing _ _ | waiting _ | releasing _ _
    | popping _ _ => rfl

/-- The steps, as far as `pthread_join` and the flags around it go. -/
inductive JoinMove (s : CbSys) : CbEvent → CbSys → Seen → Prop
  | apart (cb : CbEvent) (s' : CbSys) (seen : Seen)
      (hjoin : seen.join = none ∨ seen.join = some .returns ∧ s.sys.workerRunning = false)
      (hqueued : s'.sys.shutdownQueued = s.sys.shutdownQueued)
      (hrunning : s'.sys.workerRunning = s.sys.workerRunning)
      (hpcs : ∀ t, s'.sys.pcs t = .joining → s.sys.pcs t = .joining)
      (hworker : s.sys.workerPc = .finished → s'.sys.workerPc = .finished)
      (hagain : cb.joinsAgain s = false) : JoinMove s cb s' seen
  | starts (t : ℕ) (addr : Option ℕ) (s' : CbSys) (seen : Seen) (number : ℕ)
      (hpc : s.sys.pcs t = .shuttingDown number) (hjoin : seen.join = some .starts)
      (hqueued : s'.sys.shutdownQueued = true)
      (hrunning : s'.sys.workerRunning = s.sys.workerRunning)
      (hpcs : s'.sys.pcs = Function.update s.sys.pcs t .joining)
      (hworker : s'.sys.workerPc = s.sys.workerPc)
      (hmemory : s.sys.shutdownQueued = true ∨ addr.isSome = true) :
      JoinMove s (.step (.client t addr)) s' seen
  | returns (t : ℕ) (addr : Option ℕ) (s' : CbSys) (seen : Seen) (hpc : s.sys.pcs t = .joining)
      (hdone : t = workerThread ∨ s.sys.workerPc = .finished) (hjoin : seen.join = some .returns)
      (hsys : s'.sys = s.sys.joined t) : JoinMove s (.step (.client t addr)) s' seen

theorem joinsAgain_of_ne (hne : ∀ number, s.sys.pcs t ≠ .shuttingDown number) :
    CbEvent.joinsAgain s (.step (.client t addr)) = false := by
  rw [CbEvent.joinsAgain]
  split
  · next number hpc => exact absurd hpc (hne number)
  · rfl

/-- A step of a thread that goes on in a call. -/
theorem clientStep_join {g : GilSys} {cb' : Option (Option ℕ)}
    (hstep : s.sys.clientStep t addr = some (g.sys, act))
    (hjoin : seen.join = joinSeen (s.sys.pcs t) (g.sys.pcs t)) :
    JoinMove s (.step (.client t addr)) ⟨g, cb'⟩ seen := by
  by_cases hshut : ∃ number, s.sys.pcs t = .shuttingDown number
  · obtain ⟨number, hpc⟩ := hshut
    obtain ⟨pc, hpcs, hworker, -⟩ := clientStep_hop hstep
    obtain ⟨-, hrunning, -, ⟨hnext, hqueued, hfree, hmemory⟩ | ⟨hnext, hqueued, hmemory⟩⟩ :=
      clientStep_shuttingDown hpc hstep
    all_goals
      have hpc' := hnext
      rw [hpcs, Function.update_self] at hpc'
      subst hpc'
      rw [hpc, hnext] at hjoin
    · -- `calloc` has failed
      refine .apart _ _ seen (.inl hjoin) hqueued hrunning (fun t' ht' => ?_) (fun h => hworker.trans h) ?_
      · change g.sys.pcs t' = .joining at ht'
        by_cases htt : t' = t
        · rw [htt, hnext] at ht'
          cases ht'
        · rwa [hpcs, Function.update_of_ne htt] at ht'
      · rw [CbEvent.joinsAgain, hpc, hmemory]
        dsimp only
        rw [hfree, Option.isSome_none, Bool.and_false]
        rfl
    · exact .starts t addr _ seen number hpc hjoin hqueued hrunning hpcs hworker hmemory
  · have hshut (number : ℕ) : s.sys.pcs t ≠ .shuttingDown number := fun hpc => hshut ⟨number, hpc⟩
    by_cases hpc : s.sys.pcs t = .joining
    · rcases clientStep_joining hpc hstep with ⟨hsame, -⟩ | ⟨hsame, hfinished⟩
      · rw [hsame, hpc] at hjoin
        exact .apart _ _ seen (.inl hjoin) (congrArg _ hsame) (congrArg _ hsame)
          (fun t' ht' => by rwa [← hsame]) (fun h => by rwa [← hsame] at h) (joinsAgain_of_ne hshut)
      · have hidle : (s.sys.joined t).pcs t = .idle := goto_self _ _ _
        rw [hsame, hpc, hidle] at hjoin
        exact .returns t addr _ seen hpc (.inr hfinished) hjoin hsame
    · obtain ⟨hqueued, hrunning, hworker, hpcs, hnone⟩ := clientStep_apart hstep hshut hpc
      exact .apart _ _ seen (.inl (hjoin.trans hnone)) hqueued hrunning hpcs (fun h => hworker.trans h)
        (joinsAgain_of_ne hshut)

/-- A call that begins. -/
theorem call_join {g : GilSys} {job : Job} {cb' : Option (Option ℕ)}
    (hstep : sysStep s.sys (.call t job addr) = some (g.sys, act))
    (hjoin : seen.join = (Event.seen s.sys (.call t job addr) g.sys act).join) :
    JoinMove s (.step (.call t job addr)) ⟨g, cb'⟩ seen := by
  obtain ⟨hidle, hcall⟩ := sysStep_call hstep
  obtain ⟨halong, -⟩ := call_alongside s.sys t job addr
  obtain ⟨pc, -, hworker, -⟩ := call_hop hidle job addr
  rw [hcall] at halong hworker
  refine .apart _ _ seen ?_ halong.queued halong.running (fun t' ht' => ?_) (fun h => hworker.trans h) rfl
  · cases job with
    | createChannel _ | close _ | dealloc _ => exact .inl hjoin
    | shutdown =>
      rw [Event.seen] at hjoin
      dsimp only at hjoin
      split at hjoin
      · exact .inl hjoin
      · rename_i hstopped
        exact .inr ⟨hjoin, Bool.eq_false_iff.mpr hstopped⟩
  · have hback := call_joining s.sys t job addr t'
    rw [hcall] at hback
    exact hback ht'

/-- A step of the worker. -/
theorem worker_join {env : CmdEnv} {g : GilSys} {cb' : Option (Option ℕ)}
    (hstep : sysStep s.sys (.worker env) = some (g.sys, act)) (hjoin : seen.join = none)
    (hagain : cb.joinsAgain s = false) : JoinMove s cb ⟨g, cb'⟩ seen := by
  obtain ⟨happart, hrunning, -⟩ := workerMove_turn hstep
  exact .apart _ _ seen (.inl hjoin) happart.queued hrunning (fun t ht => by rwa [← happart.pcs])
    (fun h => absurd h (workerMove_unfinished hstep)) hagain

/-- What a step does. -/
theorem cbStep_join (hs : cbStep s cb = some (s', seen)) : JoinMove s cb s' seen := by
  cases cbStep_move hs with
  | step event g seen hfree hfrom hself hseen =>
    obtain ⟨hstep, hseq⟩ := seen_step hseen
    have hjoin := congrArg Seen.join hseq
    cases event with
    | call t job addr => exact call_join hstep hjoin
    | client t addr => exact clientStep_join hstep hjoin
    | worker env => exact worker_join hstep hjoin rfl
  | join addr hpc hfree => exact .returns workerThread addr _ _ hpc (.inl rfl) rfl rfl
  | enter addr hnone hinvokes => exact .apart _ _ _ (.inl rfl) rfl rfl (fun _ => id) id rfl
  | leave nowNs result env g seen hfree hidle hseen =>
    obtain ⟨hstep, hseq⟩ := seen_step hseen
    exact worker_join hstep (congrArg Seen.join hseq) rfl

/-! ### What holds in every run -/

/-- A callback is called in the loop of the worker. -/
theorem invokes_inLoop {s : Sys} (h : s.invokes addr = true) : s.workerPc ≠ .finished := by
  intro hpc
  rw [Sys.invokes, hpc] at h
  cases h

/-- The worker stays in its loop while it is in a callback. -/
theorem cbStep_inLoop (h : s.callback.isSome = true → s.sys.workerPc ≠ .finished)
    (hs : cbStep s cb = some (s', seen)) : s'.callback.isSome = true → s'.sys.workerPc ≠ .finished := by
  cases cbStep_move hs with
  | step event g seen hfree hfrom hself hseen =>
    obtain ⟨hstep, -⟩ := seen_step hseen
    intro hcb
    change s.callback.isSome = true at hcb
    have hsame : g.sys.workerPc = s.sys.workerPc := by
      cases event with
      | call t job addr =>
        obtain ⟨hidle, hcall⟩ := sysStep_call hstep
        obtain ⟨pc, -, hworker, -⟩ := call_hop hidle job addr
        rwa [hcall] at hworker
      | client t addr =>
        obtain ⟨pc, -, hworker, -⟩ := clientStep_hop hstep
        exact hworker
      | worker env =>
        rw [worker_of_fromCallback hfrom] at hcb
        cases hcb
    change g.sys.workerPc ≠ .finished
    rw [hsame]
    exact h hcb
  | join addr hpc hfree => exact h
  | enter addr hnone hinvokes => exact fun _ => invokes_inLoop hinvokes
  | leave nowNs result env g seen hfree hidle hseen => exact Bool.noConfusion

/-- `shutdown_queued` is set when `pthread_join` has begun. -/
structure JoinInv (outs : List Seen) (s : CbSys) : Prop where
  cb : CbInv outs s
  started : s.sys.shutdownQueued = true → ∃ seen ∈ outs, seen.join = some .starts
  came : ∀ seen ∈ outs, seen.join.isSome = true → s.sys.shutdownQueued = true
  joining : ∀ t, s.sys.pcs t = .joining → s.sys.shutdownQueued = true
  stopped : s.sys.workerRunning = false → s.sys.shutdownQueued = true
  inLoop : s.callback.isSome = true → s.sys.workerPc ≠ .finished

theorem joinInv_start : JoinInv [] cbStart where
  cb := cbInv_start
  started := nofun
  came := nofun
  joining := nofun
  stopped := nofun
  inLoop := nofun

theorem JoinInv.step (h : JoinInv outs s) (hs : cbStep s cb = some (s', seen)) :
    JoinInv (outs ++ [seen]) s' := by
  have hcb := h.cb.step hs
  have hloop := cbStep_inLoop h.inLoop hs
  have hold (hqueued : s.sys.shutdownQueued = true) :
      ∃ o ∈ outs ++ [seen], o.join = some .starts := by
    obtain ⟨o, hmem, hstarts⟩ := h.started hqueued
    exact ⟨o, List.mem_append_left _ hmem, hstarts⟩
  cases cbStep_join hs with
  | apart cb s' seen hjoin hqueued hrunning hpcs hworker hagain =>
    refine ⟨hcb, fun hq => hold (hqueued ▸ hq), fun o ho hsome => ?_, fun t ht => ?_, fun hr => ?_, hloop⟩
    · rw [hqueued]
      rcases List.mem_append.mp ho with ho | ho
      · exact h.came o ho hsome
      · rw [List.mem_singleton.mp ho] at hsome
        rcases hjoin with hnone | ⟨-, hstopped⟩
        · rw [hnone] at hsome
          cases hsome
        · exact h.stopped hstopped
    · rw [hqueued]
      exact h.joining t (hpcs t ht)
    · rw [hqueued]
      exact h.stopped (hrunning.symm.trans hr)
  | starts t addr s' seen number hpc hjoin hqueued hrunning hpcs hworker hmemory =>
    have hmem : seen ∈ outs ++ [seen] := List.mem_append_right _ (List.mem_singleton_self seen)
    exact ⟨hcb, fun _ => ⟨seen, hmem, hjoin⟩, fun _ _ _ => hqueued, fun _ _ => hqueued, fun _ => hqueued,
      hloop⟩
  | returns t addr s' seen hpc hdone hjoin hsys =>
    have hqueued := h.joining t hpc
    have hqueued' : s'.sys.shutdownQueued = true := by
      rw [hsys]
      exact hqueued
    exact ⟨hcb, fun _ => hold hqueued, fun _ _ _ => hqueued', fun _ _ => hqueued', fun _ => hqueued', hloop⟩

/-- There is one `CMD_SHUTDOWN` when `shutdown_queued` is set, and none before. -/
theorem JoinInv.shutdowns_eq (h : JoinInv outs s) :
    shutdowns outs = if s.sys.shutdownQueued then 1 else 0 := by
  obtain ⟨cur, batch, queue, hsys⟩ := h.cb.sys
  have hnone {l : List Sent} (hl : ∀ sent ∈ l, sent.cmd ≠ .shutdown) :
      l.countP (fun sent => sent.cmd = .shutdown) = 0 :=
    List.countP_eq_zero.mpr fun sent hmem hcmd => hl sent hmem (of_decide_eq_true hcmd)
  rw [shutdowns]
  cases hqueued : s.sys.shutdownQueued with
  | false => exact hnone (hsys.ending.before hqueued)
  | true =>
    obtain ⟨pre, sent, heq, hcmd, hpre⟩ := hsys.ending.last hqueued
    rw [heq, List.countP_append, hnone hpre, List.countP_singleton, hcmd]
    rfl

/-- A `shutdown` has begun `pthread_join` or has returned when `shutdown_queued` is set, and
not before. -/
theorem JoinInv.any_eq (h : JoinInv outs s) :
    (outs.any fun seen => seen.join.isSome) = s.sys.shutdownQueued := by
  rw [Bool.eq_iff_iff, List.any_eq_true]
  constructor
  · rintro ⟨seen, hmem, hsome⟩
    exact h.came seen hmem hsome
  · intro hqueued
    obtain ⟨seen, hmem, hstarts⟩ := h.started hqueued
    exact ⟨seen, hmem, by rw [hstarts]; rfl⟩

/-! ### One `pthread_join` -/

/-- `pthread_join` begins once, from a thread that is not the worker's. -/
structure OnceInv (outs : List Seen) (s : CbSys) : Prop where
  starts : outs.countP Seen.starts = if s.sys.shutdownQueued then 1 else 0
  own : s.sys.pcs workerThread ≠ .joining
  stopped : s.sys.workerRunning = false → s.sys.workerPc = .finished

theorem onceInv_start : OnceInv [] cbStart where
  starts := rfl
  own := nofun
  stopped := nofun

theorem OnceInv.step (h : OnceInv outs s) (hagain : cb.joinsAgain s = false)
    (hs : cbStep s cb = some (s', seen)) : OnceInv (outs ++ [seen]) s' := by
  cases cbStep_join hs with
  | apart cb s' seen hjoin hqueued hrunning hpcs hworker _ =>
    refine ⟨?_, fun hown => h.own (hpcs _ hown), fun hr => hworker (h.stopped (hrunning.symm.trans hr))⟩
    have hstarts : seen.starts = false := by
      rw [Seen.starts]
      rcases hjoin with hnone | ⟨hreturns, -⟩
      · rw [hnone]
        rfl
      · rw [hreturns]
        rfl
    rw [List.countP_append, List.countP_singleton, hstarts, hqueued]
    exact h.starts
  | starts t addr s' seen number hpc hjoin hqueued hrunning hpcs hworker hmemory =>
    rw [CbEvent.joinsAgain, hpc] at hagain
    obtain ⟨hfirst, hother⟩ := Bool.or_eq_false_iff.mp hagain
    have hsome : addr.isSome = true := hmemory.resolve_left fun hq => by
      rw [hq] at hfirst
      cases hfirst
    rw [hsome, Bool.and_true, decide_eq_false_iff_not] at hother
    refine ⟨?_, ?_, fun hr => hworker.trans (h.stopped (hrunning.symm.trans hr))⟩
    · have hstarts : seen.starts = true := decide_eq_true hjoin
      rw [List.countP_append, List.countP_singleton, h.starts, hfirst, hqueued, hstarts]
      rfl
    · rw [hpcs, Function.update_of_ne (Ne.symm hother)]
      exact h.own
  | returns t addr s' seen hpc hdone hjoin hsys =>
    have ht : t ≠ workerThread := fun heq => h.own (heq ▸ hpc)
    have hfinished := hdone.resolve_left ht
    refine ⟨?_, ?_, fun _ => by rw [hsys]; exact hfinished⟩
    · have hstarts : seen.starts = false := by
        rw [Seen.starts, hjoin]
        rfl
      rw [List.countP_append, List.countP_singleton, hstarts, hsys]
      exact h.starts
    · rw [hsys]
      show Function.update s.sys.pcs t .idle workerThread ≠ .joining
      rw [Function.update_of_ne (Ne.symm ht)]
      exact h.own

/-- A `shutdown` that returns. -/
theorem OnceInv.returns (h : OnceInv outs s) (hs : cbStep s cb = some (s', seen))
    (hreturns : seen.join = some .returns) : s.sys.workerPc = .finished := by
  cases cbStep_join hs with
  | apart cb s' seen hjoin hqueued hrunning hpcs hworker _ =>
    rcases hjoin with hnone | ⟨-, hstopped⟩
    · cases hnone.symm.trans hreturns
    · exact h.stopped hstopped
  | starts t addr s' seen number hpc hjoin hqueued hrunning hpcs hworker hmemory =>
    cases hjoin.symm.trans hreturns
  | returns t addr s' seen hpc hdone hjoin hsys =>
    exact hdone.resolve_left fun heq => h.own (heq ▸ hpc)

/-! ### A call that joins again -/

/-- `pthread_join` for the thread that calls it. -/
theorem selfJoin_returns (hpc : s.sys.pcs workerThread = .joining) (hgil : s.gil = none) :
    cbStep s (.step (.client workerThread none)) =
      some ({ s with sys := s.sys.joined workerThread }, ⟨.quiet, some .returns⟩) := by
  have hfits : Event.fits s.sys (.client workerThread none) = true := by
    rw [Event.fits, hpc]
    rfl
  have hmay : Event.mayRun s.toGilSys (.client workerThread none) = true := by
    rw [Event.mayRun, hpc]
    exact decide_eq_true (.inl hgil)
  have hself : Event.selfJoin s.sys (.client workerThread none) = true := by
    rw [Event.selfJoin, hpc]
    rfl
  rw [cbStep.eq_def, CbEvent.can, Event.free, hfits, hmay]
  dsimp only
  rw [if_pos (by rfl), hself]
  rfl

/-- A call that joins again begins a second `pthread_join`, or one in a callback, which
returns at once. -/
theorem JoinInv.again (h : JoinInv outs s) (hagain : cb.joinsAgain s = true)
    (hs : cbStep s cb = some (s', seen)) :
    seen.join = some .starts ∧ ((∃ o ∈ outs, o.join = some .starts) ∨ s'.sys.workerPc ≠ .finished ∧
      ∃ u seen', cbStep s' (.step (.client workerThread none)) = some (u, seen') ∧
        seen'.join = some .returns) := by
  cases cbStep_join hs with
  | apart cb s' seen hjoin hqueued hrunning hpcs hworker hnot =>
    rw [hnot] at hagain
    cases hagain
  | returns t addr s' seen hpc hdone hjoin hsys =>
    rw [CbEvent.joinsAgain, hpc] at hagain
    cases hagain
  | starts t addr s' seen number hpc hjoin hqueued hrunning hpcs hworker hmemory =>
    refine ⟨hjoin, ?_⟩
    rw [CbEvent.joinsAgain, hpc] at hagain
    rcases Bool.or_eq_true_iff.mp hagain with hfirst | hown
    · exact .inl (h.started hfirst)
    · obtain rfl := of_decide_eq_true (Bool.and_eq_true_iff.mp hown).1
      have hcb : s.callback.isSome = true := h.cb.inCallback (hpc ▸ Pc.noConfusion)
      have hjoining : s'.sys.pcs workerThread = .joining := by
        rw [hpcs, Function.update_self]
      have hgil : s'.gil = none := by
        cases cbStep_move hs with
        | step event g seen hfree hfrom hself hseen =>
          obtain ⟨-, hmay⟩ := Bool.and_eq_true_iff.mp hfree
          rw [Event.mayRun, hpc] at hmay
          change g.sys.pcs workerThread = .joining at hjoining
          show g.gil = none
          rw [seen_gil hseen, hjoining]
          rcases of_decide_eq_true hmay with hnone | hheld
          · rw [hnone]
            rfl
          · rw [hheld]
            rfl
        | join addr hpc' hfree => cases hpc.symm.trans hpc'
      refine .inr ⟨?_, _, _, selfJoin_returns hjoining hgil, rfl⟩
      rw [hworker]
      exact h.inLoop hcb

end steps

/-! ### Every run -/

section runs

variable {events : List CbEvent} {s : CbSys} {outs : List Seen}

theorem joinInv_of_run (h : run cbStep cbStart events = some (s, outs)) : JoinInv outs s :=
  run_induction (P := fun _ _ => True) (fun _ outs s => JoinInv outs s) joinInv_start
    (fun hinv _ hs => hinv.step hs) (.of_forall fun _ _ _ => trivial) h

theorem onceInv_of_run (hagain : Always cbStep (fun s event => event.joinsAgain s = false) cbStart events)
    (h : run cbStep cbStart events = some (s, outs)) : OnceInv outs s :=
  run_induction (fun _ outs s => OnceInv outs s) onceInv_start (fun honce hevent hs => honce.step hevent hs)
    hagain h

/-- **The worker is joined once** in a run in which no call of `shutdown` that has found
`worker_running` set comes to the section under `cmd_lock` when `shutdown_queued` is set, or
in a callback; and a `shutdown` that returns finds that the worker has.  One `CMD_SHUTDOWN`
is queued in every run in which a `shutdown` comes to `pthread_join` or returns.  Any other
call begins a second `pthread_join`, or returns while the worker is in its loop. -/
theorem cbRun_shutdown (h : run cbStep cbStart events = some (s, outs)) :
    (shutdowns outs = if outs.any fun seen => seen.join.isSome then 1 else 0) ∧
    (Always cbStep (fun s event => event.joinsAgain s = false) cbStart events →
      outs.countP Seen.starts ≤ 1 ∧
      ∀ event s' seen, cbStep s event = some (s', seen) → seen.join = some .returns →
        s.sys.workerPc = .finished) ∧
    ∀ event s' seen, CbEvent.joinsAgain s event = true → cbStep s event = some (s', seen) →
      seen.join = some .starts ∧ ((∃ o ∈ outs, o.join = some .starts) ∨ s'.sys.workerPc ≠ .finished ∧
        ∃ u seen', cbStep s' (.step (.client workerThread none)) = some (u, seen') ∧
          seen'.join = some .returns) := by
  have hinv := joinInv_of_run h
  refine ⟨?_, fun hagain => ?_, fun event s' seen hagain hs => hinv.again hagain hs⟩
  · rw [hinv.any_eq]
    exact hinv.shutdowns_eq
  · have honce := onceInv_of_run hagain h
    refine ⟨?_, fun event s' seen hs hreturns => honce.returns hs hreturns⟩
    rw [honce.starts]
    split
    · exact le_refl 1
    · exact Nat.zero_le 1

/-- A thread calls `shutdown`, and the worker leaves its loop and returns. -/
def joinRun : List CbEvent :=
  [.step (.call 1 .shutdown none), .step (.client 1 (some 60))] ++
    List.replicate 8 (.step (.worker ⟨none, 5, .pyNone⟩))

/-- `pthread_join` of the first call returns. -/
theorem cbRun_shutdown_joined :
    ∃ s outs s' seen, run cbStep cbStart joinRun = some (s, outs) ∧
      cbStep s (.step (.client 1 none)) = some (s', seen) ∧ seen.join = some .returns ∧
      shutdowns outs = 1 ∧ outs.countP Seen.starts ≤ 1 ∧ s.sys.workerPc = .finished := by
  have hlast : (run cbStep cbStart (joinRun ++ [.step (.client 1 none)])).map
      (fun p => p.2.getLast?.bind Seen.join) = some (some .returns) := by decide
  obtain ⟨⟨s', outs'⟩, hrun', hreturns⟩ := Option.map_eq_some_iff.mp hlast
  obtain ⟨s, outs, seen, hrun, hs, rfl⟩ := run_concat_eq_some.mp hrun'
  rw [List.getLast?_concat, Option.bind_some] at hreturns
  obtain ⟨hcount, honce, -⟩ := cbRun_shutdown hrun
  obtain ⟨hstarts, hfinished⟩ := honce (by decide)
  have hany : (run cbStep cbStart joinRun).map (fun p => p.2.any fun seen => seen.join.isSome) =
      some true := by decide
  rw [hrun] at hany
  rw [show (outs.any fun seen => seen.join.isSome) = true from Option.some.inj hany] at hcount
  exact ⟨s, outs, s', seen, hrun, hs, hreturns, hcount, hstarts, hfinished _ s' seen hs hreturns⟩

/-- Two threads call `shutdown`; the second call begins when the first is in
`pthread_join`. -/
def twiceRun : List CbEvent :=
  [.step (.call 1 .shutdown none), .step (.client 1 (some 60)),
    .step (.call 2 .shutdown none), .step (.client 2 none)]

theorem twiceRun_joins :
    ∃ s outs, run cbStep cbStart twiceRun = some (s, outs) ∧ outs.countP Seen.starts = 2 := by
  have hstarts : (run cbStep cbStart twiceRun).map (fun p => p.2.countP Seen.starts) = some 2 := by decide
  obtain ⟨⟨s, outs⟩, hrun, heq⟩ := Option.map_eq_some_iff.mp hstarts
  exact ⟨s, outs, hrun, heq⟩

end runs

end RtpProc
