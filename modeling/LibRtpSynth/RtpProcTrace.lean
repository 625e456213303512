/-
When `RtpProc` calls the callback of a channel.

* `workerRun_invocation` — every call is either the first of its channel, made
  while its `CMD_ADD_CHANNEL` is processed, or it uses up the time that the call
  before it has returned; the channel has not been removed, and no scheduled
  channel has an earlier time.
-/
import LibRtpSynth.RtpProcWorker

open Linked Runs

namespace RtpProc

/-- The calls of the callback of a channel. -/
def invocationsOf (id : ℕ) (outs : List CmdOut) : List Invocation :=
  (outs.filterMap CmdOut.invoked).filter fun inv => inv.id = id

/-- The channel was added and later removed. -/
def RemovedIn (events : List WorkerEvent) (id : ℕ) : Prop :=
  ∃ before event later, events = before ++ event :: later ∧ id ∈ addedIds before ∧
    event.removes = some id

/-- The time that the last of the calls `invs` has returned; the first call of a
channel raises a time in the past to its own. -/
def dueTime (invs : List Invocation) : Option ℕ :=
  invs.getLast?.bind fun last =>
    match last.result with
    | .time nextNs => some (if invs.length = 1 then firstRunAt last.nowNs nextNs else nextNs)
    | _ => none

/-- A channel of the table is scheduled at `ns`. -/
def ScheduledAt (s : PyRtpProc) (id ns : ℕ) : Prop :=
  ∃ p c, s.deref p = some c ∧ c.active = true ∧ c.scheduled = true ∧ c.id = id ∧ c.nextRunNs = ns

section trace

variable {t t' : Table} {event : WorkerEvent} {out : CmdOut} {events : List WorkerEvent}
  {outs : List CmdOut} {id : ℕ}

theorem invocationsOf_concat (id : ℕ) (outs : List CmdOut) (out : CmdOut) :
    invocationsOf id (outs ++ [out]) =
      invocationsOf id outs ++ out.invoked.toList.filter fun inv => inv.id = id := by
  rw [invocationsOf, List.filterMap_append, List.filter_append, ← invocationsOf]
  cases h : out.invoked with
  | none => rw [List.filterMap_cons_none h]; rfl
  | some inv => rw [List.filterMap_cons_some h]; rfl

/-- A step that does not call the channel. -/
theorem invocationsOf_concat_of_ne (h : ∀ inv, out.invoked = some inv → inv.id ≠ id) :
    invocationsOf id (outs ++ [out]) = invocationsOf id outs := by
  rw [invocationsOf_concat]
  cases hout : out.invoked with
  | none => exact List.append_nil _
  | some inv =>
    rw [Option.toList_some, List.filter_cons_of_neg (by simpa using h inv hout)]
    exact List.append_nil _

theorem invocationsOf_concat_none (id : ℕ) (outs : List CmdOut) (status : ℕ) (exc : Option ℕ) :
    invocationsOf id (outs ++ [⟨status, exc, none⟩]) = invocationsOf id outs :=
  invocationsOf_concat_of_ne fun _ hinv => by cases hinv

theorem invocationsOf_concat_self (outs : List CmdOut) (out : CmdOut) {inv : Invocation} (h : out.invoked = some inv) :
    invocationsOf inv.id (outs ++ [out]) = invocationsOf inv.id outs ++ [inv] := by
  rw [invocationsOf_concat, h, Option.toList_some, List.filter_cons_of_pos (by simp),
    List.filter_nil]

theorem removedIn_concat : RemovedIn (events ++ [event]) id ↔
    RemovedIn events id ∨ (id ∈ addedIds events ∧ event.removes = some id) := by
  constructor
  · rintro ⟨before, e, later, heq, hadd, hrem⟩
    rcases concat_eq_append_cons heq with ⟨rfl, rfl⟩ | ⟨later', rfl⟩
    · exact .inr ⟨hadd, hrem⟩
    · exact .inl ⟨before, e, later', rfl, hadd, hrem⟩
  · rintro (⟨before, e, later, rfl, hadd, hrem⟩ | ⟨hadd, hrem⟩)
    · exact ⟨before, e, later ++ [event], by simp, hadd, hrem⟩
    · exact ⟨events, event, [], rfl, hadd, hrem⟩

/-- What the table knows of the calls made so far. -/
structure TraceInv (events : List WorkerEvent) (outs : List CmdOut) (t : Table) : Prop where
  ids : IdsInv (addedIds events) t
  unknown : ∀ id, id ∉ addedIds events → invocationsOf id outs = []
  due : ∀ i, (t.slot i).active = true → (t.slot i).scheduled = true →
    dueTime (invocationsOf (t.slot i).id outs) = some (t.slot i).nextRunNs
  removed : ∀ id, RemovedIn events id → ∀ i, (t.slot i).active = true → (t.slot i).id ≠ id

theorem dueTime_concat (invs : List Invocation) (inv : Invocation) :
    dueTime (invs ++ [inv]) =
      match inv.result with
      | .time nextNs => some (if invs = [] then firstRunAt inv.nowNs nextNs else nextNs)
      | _ => none := by
  rw [dueTime, List.getLast?_append]
  have hlen : (invs ++ [inv]).length = 1 ↔ invs = [] := by simp
  show (match inv.result with
    | .time nextNs => some (if (invs ++ [inv]).length = 1 then firstRunAt inv.nowNs nextNs else nextNs)
    | _ => none) = _
  cases inv.result with
  | time nextNs => simp only [hlen]
  | pyNone => rfl
  | raised exc => rfl
  | noMemory => rfl

theorem addedIds_of_removed (h : RemovedIn events id) : id ∈ addedIds events := by
  obtain ⟨before, event, later, rfl, hadd, -⟩ := h
  rw [addedIds, List.filterMap_append]
  exact List.mem_append_left _ hadd

theorem invokeProcCallback_some {nowNs deadlineNs : ℕ} {result : CbResult} {inv : Invocation}
    (h : invokeProcCallback id nowNs deadlineNs result = some inv) :
    inv = ⟨id, nowNs, deadlineNs, result⟩ := by
  unfold invokeProcCallback at h
  split at h
  · cases h
  · exact (Option.some.inj h).symm

/-- A channel is scheduled by its callback only when this returns a time. -/
theorem called_scheduled {c : ProcChannelState} {runAt : ℕ → ℕ} {result : CbResult}
    (hc : c.scheduled = false) (h : (c.called runAt result).scheduled = true) :
    ∃ nextNs, result = .time nextNs ∧ (c.called runAt result).nextRunNs = runAt nextNs := by
  cases result with
  | time nextNs => exact ⟨nextNs, rfl, rfl⟩
  | pyNone | raised _ | noMemory =>
    rw [show (ProcChannelState.called _ _ _).scheduled = c.scheduled from rfl, hc] at h
    cases h

/-- The channel that a step calls, and the call. -/
theorem TraceInv.due_step (h : TraceInv events outs t) (heff : Effect t t' event out)
    (htable : TableInv t) (hfresh : ∀ id ∈ event.adds, id ∉ addedIds events) :
    ∀ i, (t'.slot i).active = true → (t'.slot i).scheduled = true →
      dueTime (invocationsOf (t'.slot i).id (outs ++ [out])) = some (t'.slot i).nextRunNs := by
  intro j ha hs
  cases heff with
  | quiet _ _ hslot | full hslot | absent _ hslot =>
    rw [hslot] at ha hs ⊢
    rw [invocationsOf_concat_none]
    exact h.due j ha hs
  | @added id procInCb env i hfree hslot =>
    rw [hslot] at ha hs ⊢
    have hnew := hfresh id rfl
    by_cases hji : j = i
    · rw [if_pos hji] at hs ⊢
      obtain ⟨nextNs, hresult, hrun⟩ := called_scheduled rfl hs
      have hinv : invokeProcCallback id env.nowNs 0 env.result =
          some ⟨id, env.nowNs, 0, env.result⟩ := by
        rw [hresult]
        rfl
      have hcalls := invocationsOf_concat_self outs
        ⟨0, none, invokeProcCallback id env.nowNs 0 env.result⟩ hinv
      rw [called_id, hrun]
      rw [show (ProcChannelState.filled (t.slot i) id procInCb).id = id from rfl, hcalls,
        dueTime_concat, h.unknown id hnew, hresult]
      rfl
    · rw [if_neg hji] at ha hs ⊢
      have hid : id ≠ (t.slot j).id := fun hc => hnew (hc ▸ h.ids.known j ha)
      rw [invocationsOf_concat_of_ne fun inv hinv => by rw [invokeProcCallback_some hinv]; exact hid]
      exact h.due j ha hs
  | removed i _ hgone hslot =>
    have hji : j ≠ i := by
      rintro rfl
      rw [hgone] at ha
      cases ha
    rw [hslot j hji] at ha hs ⊢
    rw [invocationsOf_concat_none]
    exact h.due j ha hs
  | @ran result nextNow i nowNs hmem _ _ hslot =>
    have hflags := (htable.queue_iff i).mp hmem
    rw [hslot] at ha hs ⊢
    by_cases hji : j = i
    · rw [if_pos hji] at hs ⊢
      obtain ⟨nextNs, hresult, hrun⟩ := called_scheduled rfl hs
      have hinv : invokeProcCallback (t.slot i).id nowNs (t.slot i).nextRunNs result =
          some ⟨(t.slot i).id, nowNs, (t.slot i).nextRunNs, result⟩ := by
        rw [hresult]
        rfl
      have hcalls := invocationsOf_concat_self outs
        ⟨0, none, invokeProcCallback (t.slot i).id nowNs (t.slot i).nextRunNs result⟩ hinv
      -- the channel has been called before
      have hbefore : invocationsOf (t.slot i).id outs ≠ [] := by
        intro hnil
        have hdue := h.due i hflags.1 hflags.2
        rw [hnil] at hdue
        cases hdue
      rw [called_id, hrun]
      rw [show (ProcChannelState.id { t.slot i with scheduled := false }) = (t.slot i).id from rfl,
        hcalls, dueTime_concat, hresult]
      exact congrArg some (if_neg hbefore)
    · rw [if_neg hji] at ha hs ⊢
      have hid : (t.slot i).id ≠ (t.slot j).id := fun hc => hji (h.ids.distinct j i ha hflags.1 hc.symm)
      rw [invocationsOf_concat_of_ne fun inv hinv => by rw [invokeProcCallback_some hinv]; exact hid]
      exact h.due j ha hs
  | cleared hslot =>
    rw [hslot] at ha
    cases ha

/-- The call of a step is of a channel that has come in, now or before. -/
theorem Effect.invoked_known (heff : Effect t t' event out) (htable : TableInv t)
    (hids : IdsInv (addedIds events) t) {inv : Invocation} (hinv : out.invoked = some inv) :
    inv.id ∈ addedIds events ++ event.adds.toList := by
  cases heff with
  | quiet | full | absent | removed | cleared => cases hinv
  | added i =>
    rw [invokeProcCallback_some hinv]
    exact List.mem_append_right _ List.mem_cons_self
  | ran i nowNs hmem =>
    rw [invokeProcCallback_some hinv]
    exact List.mem_append_left _ (hids.known i ((htable.queue_iff i).mp hmem).1)

theorem TraceInv.step (h : TraceInv events outs t) (heff : Effect t t' event out)
    (htable : TableInv t) (hfresh : ∀ id ∈ event.adds, id ∉ addedIds events) :
    TraceInv (events ++ [event]) (outs ++ [out]) t' := by
  refine ⟨?_, ?_, h.due_step heff htable hfresh, ?_⟩
  · rw [addedIds_concat]
    exact h.ids.step heff htable hfresh
  · intro id hid
    rw [addedIds_concat] at hid
    rw [invocationsOf_concat_of_ne]
    · exact h.unknown id fun hmem => hid (List.mem_append_left _ hmem)
    · rintro inv hinv rfl
      exact hid (heff.invoked_known htable h.ids hinv)
  · intro id hrem i hi hid
    rcases removedIn_concat.mp hrem with hrem | ⟨hadd, hrem⟩
    · -- removed earlier: it would have to be added again
      rcases heff.active_cases htable hi with ⟨ha, hsame⟩ | ⟨-, hadd⟩
      · exact h.removed id hrem i ha (hsame.symm.trans hid)
      · rw [hid] at hadd
        exact hfresh id hadd (addedIds_of_removed hrem)
    · cases heff with
      | quiet _ hremove =>
        rw [hremove] at hrem
        cases hrem
      | full | added | ran | cleared => cases hrem
      | absent hno hslot =>
        rw [show _ = id from Option.some.inj hrem] at hno
        rw [hslot] at hi hid
        exact hno i hi hid
      | removed k hactive hgone hslot =>
        have hk : (t.slot k).id = id := Option.some.inj hrem
        by_cases hik : i = k
        · rw [hik, hgone] at hi
          cases hi
        · rw [hslot i hik] at hi hid
          exact hik (h.ids.distinct i k hi hactive (hid.trans hk.symm))

end trace

/-- What holds of the calls of a run. -/
theorem traceInv_of_run {events : List WorkerEvent} {w : Worker} {outs : List CmdOut}
    (hids : (addedIds events).Nodup) (h : run workerStep workerStart events = some (w, outs)) :
    ∃ t, WorkerInv w.self t ∧ TraceInv events outs t := by
  revert hids
  refine run_induction (P := fun _ _ => True) (fun events outs w => (addedIds events).Nodup →
    ∃ t, WorkerInv w.self t ∧ TraceInv events outs t) ?_ ?_ (Always.of_forall fun _ _ _ => trivial) h
  · intro _
    have hslot : ∀ i, (⟨[], []⟩ : Table).slot i = .zero := fun i => Table.slot_of_le (Nat.zero_le i)
    have hnone : ∀ i, ((⟨[], []⟩ : Table).slot i).active ≠ true := fun i => by
      rw [hslot]
      exact Bool.false_ne_true
    exact ⟨⟨[], []⟩, workerInv_new, ⟨fun i hi => absurd hi (hnone i), fun i _ hi => absurd hi (hnone i)⟩,
      fun _ _ => rfl, fun i hi => absurd hi (hnone i), fun _ _ i hi => absurd hi (hnone i)⟩
  · intro events outs w event w' out ih _ hstep hids
    rw [addedIds_concat] at hids
    obtain ⟨hnd, -, hdis⟩ := List.nodup_append.mp hids
    obtain ⟨t, hw, htrace⟩ := ih hnd
    obtain ⟨w₁, out₁, t', hstep₁, hw', heff, -⟩ := workerStep_spec hw (fits_of_step hstep)
    rw [hstep, Option.some.injEq, Prod.mk.injEq] at hstep₁
    obtain ⟨rfl, rfl⟩ := hstep₁
    refine ⟨t', hw', htrace.step heff hw.table fun id hadd hmem => ?_⟩
    rw [Option.mem_def] at hadd
    rw [hadd] at hdis
    exact hdis id hmem id List.mem_cons_self rfl

/-- **Every call has its reason.**  A call that the worker makes after the events
`events` is one of two.  It is the first of its channel, made while its
`CMD_ADD_CHANNEL` is processed, with deadline 0; or its deadline is the time that
the call before it has returned, which has come, the channel has not been removed,
and the deadline is the least time of a scheduled channel.  `create_channel` gives
every channel an identity of its own. -/
theorem workerRun_invocation {events : List WorkerEvent} {event : WorkerEvent} {w w' : Worker}
    {outs : List CmdOut} {out : CmdOut} {inv : Invocation}
    (hids : (addedIds (events ++ [event])).Nodup)
    (h : run workerStep workerStart events = some (w, outs))
    (hstep : workerStep w event = some (w', out)) (hinv : out.invoked = some inv) :
    (event.adds = some inv.id ∧ inv.deadlineNs = 0 ∧ invocationsOf inv.id outs = []) ∨
    (event.adds = none ∧ dueTime (invocationsOf inv.id outs) = some inv.deadlineNs ∧
      inv.deadlineNs ≤ inv.nowNs ∧ ¬ RemovedIn events inv.id ∧
      ScheduledAt w.self inv.id inv.deadlineNs ∧
      ∀ id ns, ScheduledAt w.self id ns → inv.deadlineNs ≤ ns) := by
  rw [addedIds_concat] at hids
  obtain ⟨hnd, -, hdis⟩ := List.nodup_append.mp hids
  obtain ⟨t, hw, htrace⟩ := traceInv_of_run hnd h
  obtain ⟨w₁, out₁, t', hstep₁, hw', heff, -⟩ := workerStep_spec hw (fits_of_step hstep)
  rw [hstep, Option.some.injEq, Prod.mk.injEq] at hstep₁
  obtain ⟨rfl, rfl⟩ := hstep₁
  cases heff with
  | quiet | full | absent | removed | cleared => cases hinv
  | @added id procInCb env i =>
    rw [invokeProcCallback_some hinv]
    refine .inl ⟨rfl, rfl, htrace.unknown id fun hmem => ?_⟩
    exact hdis id hmem id List.mem_cons_self rfl
  | ran i nowNs hmem hmin hdue =>
    have hflags := (hw.table.queue_iff i).mp hmem
    rw [invokeProcCallback_some hinv]
    refine .inr ⟨rfl, htrace.due i hflags.1 hflags.2, hdue, fun hrem => ?_, ?_, ?_⟩
    · exact htrace.removed _ hrem i hflags.1 rfl
    · obtain ⟨c, hc, hbare⟩ := hw.threads.deref_queue hmem
      rw [← hbare] at hflags
      exact ⟨w.self.ptr i, c, hc, hflags.1, hflags.2, by rw [← hbare]; rfl, by rw [← hbare]; rfl⟩
    · rintro id ns ⟨p, c, hc, ha, hs, -, rfl⟩
      have hbare := (hw.threads.bare_of_deref hc).2
      have hp : p.slot ∈ t.queue := by
        rw [hw.table.queue_iff, ← hbare]
        exact ⟨ha, hs⟩
      have hle := hmin p.slot hp
      rw [← hbare] at hle
      exact hle

/-- A channel that returned a time in the past is called at the time of its first
call. -/
theorem workerRun_invocation_again :
    ∃ w outs w' out, run workerStep workerStart
        [.command (.addChannel 1 100) ⟨some 7, 20, .time 5⟩, .batchEnd 21] = some (w, outs) ∧
      workerStep w (.dueRound .pyNone 22) = some (w', out) ∧
      out.invoked = some ⟨1, 21, 20, .pyNone⟩ ∧ dueTime (invocationsOf 1 outs) = some 20 ∧
      ScheduledAt w.self 1 20 := by
  have hrun : (run workerStep workerStart
      [.command (.addChannel 1 100) ⟨some 7, 20, .time 5⟩, .batchEnd 21]).isSome := by decide
  have hsome := (Option.some_get hrun).symm
  have hstep : (workerStep ((run workerStep workerStart
      [.command (.addChannel 1 100) ⟨some 7, 20, .time 5⟩, .batchEnd 21]).get hrun).1
      (.dueRound .pyNone 22)).isSome := by decide +revert
  have hsome' := (Option.some_get hstep).symm
  rcases workerRun_invocation (by decide) hsome hsome'
    (show _ = some ⟨1, 21, 20, .pyNone⟩ from rfl) with h | ⟨-, hdue, -, -, hsched, -⟩
  · cases h.1
  · exact ⟨_, _, _, _, hsome, hsome', rfl, hdue, hsched⟩

end RtpProc
