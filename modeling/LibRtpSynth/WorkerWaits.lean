/-
A worker that waits for itself (`python/RtpProc_mod.c` and `python/RtpServer_mod.c`).

A call that sends a command with the waiter sleeps until the worker has processed it.  When
a callback makes the call the thread that sleeps is the worker, and nobody else completes
the command.  `rtp_channel_close_internal` of `RtpServer` looks at the thread it is called
on; `rtp_proc_channel_close_internal`, `create_channel` of both modules, `set_target` and
`shutdown` of `RtpServer` do not.
-/
import LibRtpSynth.RtpProcCallbacks
import LibRtpSynth.RtpServerCallbacks

open Runs

namespace RtpSync

/-- **No worker waits for itself** in a run in which no callback makes a call that waits for
the worker and is not refused, for `RtpProc` and for `RtpServer`.  A callback that makes
such a call comes to wait by its own steps, and a worker that waits for itself is blocked
for good. -/
theorem workerRuns_wait {procEvents : List RtpProc.CbEvent} {serverEvents : List RtpServer.Event}
    {p : RtpProc.CbSys} {outs : List RtpProc.Seen} {s : RtpServer.Sys} {acts : List RtpServer.Act}
    (hproc : run RtpProc.cbStep RtpProc.cbStart procEvents = some (p, outs))
    (hserver : run RtpServer.cbStep RtpServer.sysStart serverEvents = some (s, acts)) :
    ((Always RtpProc.cbStep (fun p event => event.selfWait p = false) RtpProc.cbStart procEvents →
        ¬ RtpProc.Blocked p) ∧
      (RtpProc.Blocked p → ∀ later q outs', run RtpProc.cbStep p later = some (q, outs') →
        RtpProc.Blocked q) ∧
      ∀ event p' seen, RtpProc.CbEvent.selfWait p event = true →
        RtpProc.cbStep p event = some (p', seen) → RtpProc.ComesToWait p') ∧
    ((Always RtpServer.cbStep (fun s event => event.selfWait s = false) RtpServer.sysStart serverEvents →
        ¬ RtpServer.Blocked s) ∧
      (RtpServer.Blocked s → ∀ later u acts', run RtpServer.cbStep s later = some (u, acts') →
        RtpServer.Blocked u) ∧
      ∀ event s' act, RtpServer.Event.selfWait s event = true →
        RtpServer.cbStep s event = some (s', act) → RtpServer.ComesToWait s') :=
  ⟨RtpProc.cbRun_waits hproc, RtpServer.cbRun_waits hserver⟩

/-- A thread creates a channel and waits.  The worker calls the callback for the command,
and the callback calls `create_channel`, which is refused. -/
def procInRefused : List RtpProc.CbEvent :=
  let client : RtpProc.CbEvent := .step (.client 1 none)
  [.step (.call 1 (.createChannel 7) (some 50)), client, client, client,
    .step (.worker ⟨some 1000, 8, .pyNone⟩), .enter (some 1000),
    .step (.call RtpProc.workerThread (.createChannel 8) (some 60)),
    .step (.client RtpProc.workerThread none), .leave 5 (.time 6)]

/-- A thread creates a channel, and the worker receives a packet on it. -/
def pktInCallback : List RtpServer.Event :=
  let env : RtpServer.WorkerEnv := ⟨some 1, some 1, some 1, true, [0]⟩
  [.call 1 (.createChannel ⟨1, 0, false, 0⟩), .client 1, .client 1, .worker env, .worker env,
    .worker env, .worker env, .client 1, .client 1, .client 1, .worker env, .worker env]

theorem workerRuns_wait_refused :
    ∃ p outs s acts, run RtpProc.cbStep RtpProc.cbStart procInRefused = some (p, outs) ∧
      run RtpServer.cbStep RtpServer.sysStart (pktInCallback ++ [.callback 1]) = some (s, acts) ∧
      ¬ RtpProc.Blocked p ∧ ¬ RtpServer.Blocked s := by
  obtain ⟨⟨p, outs⟩, hproc⟩ := Option.isSome_iff_exists.mp
    (by decide : (run RtpProc.cbStep RtpProc.cbStart procInRefused).isSome = true)
  obtain ⟨⟨s, acts⟩, hserver⟩ := Option.isSome_iff_exists.mp (by decide : (run RtpServer.cbStep
    RtpServer.sysStart (pktInCallback ++ [.callback 1])).isSome = true)
  obtain ⟨⟨hp, -⟩, hs, -⟩ := workerRuns_wait hproc hserver
  exact ⟨p, outs, s, acts, hproc, hserver, hp (by decide), hs (by decide +kernel)⟩

/-- A thread creates a channel, and the worker comes to its callback in the loop over the
due channels, when nobody has the waiter.  The callback makes the call `job`, and goes on
in it. -/
def procInCalls (job : RtpProc.Job) (n : ℕ) : List RtpProc.CbEvent :=
  let client : RtpProc.CbEvent := .step (.client 1 none)
  let worker : RtpProc.CbEvent := .step (.worker ⟨some 1000, 8, .pyNone⟩)
  [.step (.call 1 (.createChannel 7) (some 50)), client, client, client, worker, .enter (some 1000),
    .leave 5 (.time 6), worker, worker, worker, client, client, worker, .enter none,
    .step (.call RtpProc.workerThread job (some 60))] ++
    List.replicate n (.step (.client RtpProc.workerThread none))

/-- The callback of `RtpServer` makes the call `job`, and goes on in it. -/
def pktInCalls (job : RtpServer.Job) : List RtpServer.Event :=
  pktInCallback ++ [.call RtpServer.workerThread job] ++ List.replicate 2 (.client RtpServer.workerThread)

theorem procIn_blocked {job : RtpProc.Job} {n : ℕ} {c : RtpProc.Call}
    (h : (run RtpProc.cbStep RtpProc.cbStart (procInCalls job n)).map
      (fun p => p.1.sys.pcs RtpProc.workerThread) = some (.waiting c)) :
    ∃ p outs, run RtpProc.cbStep RtpProc.cbStart (procInCalls job n) = some (p, outs) ∧
      RtpProc.Blocked p := by
  obtain ⟨⟨p, outs⟩, hrun, hpc⟩ := Option.map_eq_some_iff.mp h
  exact ⟨p, outs, hrun, c, hpc⟩

theorem pktIn_blocked {job j : RtpServer.Job}
    (h : (run RtpServer.cbStep RtpServer.sysStart (pktInCalls job)).map
      (fun s => s.1.pcs RtpServer.workerThread) = some (.waiting j)) :
    ∃ s acts, run RtpServer.cbStep RtpServer.sysStart (pktInCalls job) = some (s, acts) ∧
      RtpServer.Blocked s := by
  obtain ⟨⟨s, acts⟩, hrun, hpc⟩ := Option.map_eq_some_iff.mp h
  exact ⟨s, acts, hrun, j, hpc⟩

/-- **Callbacks that wait for their own thread**: `proc_in` with `create_channel` and with
`close`, `pkt_in` with `create_channel` and with `set_target`. -/
theorem callbacks_block :
    (∃ p outs, run RtpProc.cbStep RtpProc.cbStart (procInCalls (.createChannel 8) 3) = some (p, outs) ∧
      RtpProc.Blocked p) ∧
    (∃ p outs, run RtpProc.cbStep RtpProc.cbStart (procInCalls (.close 1) 4) = some (p, outs) ∧
      RtpProc.Blocked p) ∧
    (∃ s acts, run RtpServer.cbStep RtpServer.sysStart
        (pktInCalls (.createChannel ⟨2, 0, false, 0⟩)) = some (s, acts) ∧ RtpServer.Blocked s) ∧
    ∃ s acts, run RtpServer.cbStep RtpServer.sysStart (pktInCalls (.setTarget 1 9)) = some (s, acts) ∧
      RtpServer.Blocked s :=
  ⟨procIn_blocked (c := ⟨1, .create 2 8, 60⟩) (by decide),
    procIn_blocked (c := ⟨1, .close 1, 60⟩) (by decide),
    pktIn_blocked (j := .createChannel ⟨2, 0, false, 0⟩) (by decide),
    pktIn_blocked (j := .setTarget 1 9) (by decide)⟩

end RtpSync
