/-
Every reference of the worker to a channel is dropped once (`python/RtpServer_mod.c`).

The parts of the system and the places of the references fit together in every state of a
run (`RefInv`): a step moves at most one reference, from the part that had to drop it to
the one that has to from now on, or it drops it.  The exception is a callback that closes a
channel of the table: its command has no waiter, so nobody drops the reference when the
worker removes the channel.

* `RefInv.step` — one step keeps the places, if it is not such a callback;
* `sysRun_references` — the references dropped, in every run without one;
* `leakRun_leaks` — a run with one.
-/
import LibRtpSynth.RtpServerPlaces

open Runs RtpSync

namespace RtpServer

/-! ### Conditions -/

/-- The memory of a new channel is not in use: it never was a channel, or it was one whose
reference was dropped and that no call is about. -/
def Event.fits (s : Sys) : Event → Prop
  | .call _ (.createChannel channel) =>
    s.created channel.ptr = false ∨
      s.drops channel.ptr ≠ 0 ∧ ∀ t, (s.pcs t).channel ≠ some channel.ptr
  | _ => True

/-- A callback that closes an open channel of a server that accepts commands finds it out of
the table, or the command of a thread that waits for its removal in the queue. -/
def Event.keepsRef (s : Sys) : Event → Bool
  | .callback channel =>
    s.closed channel || !s.acceptingCommands || decide (channel ∉ s.self.ptrs) ||
      decide (⟨.removeChannel channel, true⟩ ∈ s.queue)
  | _ => true

/-! ### The invariant -/

/-- **The places of the references**, part by part. -/
structure RefInv (place : ℕ → Place) (s : Sys) : Prop where
  cache : CacheInv s.self
  table : Holds place .table s.live
  pending : Holds place .pending (adds s.pending)
  failed : Holds place .failed s.workerPc.unrefs
  hands : Hands place s.pcs
  counts : Counts place s.drops s.created
  removals : Removals place s.pending
  opens : Opens place s.known s.closed s.acceptingCommands
  closers : Closers place s.pcs s.known s.closed
  answers : Answers place s.pcs s.cmdWaiter s.workerPc
  used : ∀ t c, (s.pcs t).channel = some c → s.created c = true

theorem refInv_start : RefInv (fun _ => .away) sysStart where
  cache := cacheInv_new
  table := ⟨List.nodup_nil, fun _ => iff_of_false nofun nofun⟩
  pending := ⟨List.nodup_nil, fun _ => iff_of_false nofun nofun⟩
  failed := ⟨List.nodup_nil, fun _ => iff_of_false nofun nofun⟩
  hands _ := iff_of_false nofun nofun
  counts := ⟨fun _ => rfl, fun _ => iff_of_false nofun fun hne => hne rfl⟩
  removals := ⟨nofun, fun pre c post heq => by simp [Sys.pending, sysStart] at heq⟩
  opens := ⟨nofun, nofun⟩
  closers := ⟨nofun, nofun, nofun⟩
  answers := ⟨nofun, nofun, nofun⟩
  used := nofun

section steps

variable {place : ℕ → Place} {s s' : Sys} {t c : ℕ} {pc : Pc} {job : Job} {q : Place}

/-! ### Facts about the threads -/

theorem hasGil_of_makes (h : pc.makes = some c) : pc.hasGil = true := by
  cases pc with
  | acquiring _ | enqueueing _ | releasing _ _ => rfl
  | idle | sending _ | waiting _ | returning _ _ => cases h

theorem stage_of_closes (h : pc.closes = some c) : pc.stage ≠ .out := by
  cases pc with
  | waiting _ | returning _ _ | releasing _ _ => nofun
  | idle | sending _ | acquiring _ | enqueueing _ => cases h

theorem stage_of_answer {cmd : RtpServerCmd} {status : ℕ} (h : pc.answer = some (cmd, status)) :
    pc.stage = .taken := by
  cases pc with
  | returning _ _ | releasing _ _ => rfl
  | idle | sending _ | acquiring _ | enqueueing _ | waiting _ => cases h

/-- A channel is created by one thread. -/
theorem SysInv.unique_makes (h : SysInv s) (hmakes : (s.pcs t).makes = some c) (t' : ℕ)
    (hmakes' : (s.pcs t').makes = some c) : t' = t :=
  h.gil.unique (hasGil_of_makes hmakes) (hasGil_of_makes hmakes')

/-- One thread with the GIL has sent its command, or has none. -/
theorem SysInv.no_early (h : SysInv s) (ht : (s.pcs t).hasGil = true) (hpc : (s.pcs t).early = none)
    (t' : ℕ) : (s.pcs t').early = none := by
  cases hearly : (s.pcs t').early with
  | none => rfl
  | some job =>
    obtain rfl := h.gil.unique ht (hasGil_of_early hearly)
    exact hearly.symm.trans hpc

theorem SysInv.no_early_of_none (h : SysInv s) (hgil : s.gil = none) (t : ℕ) :
    (s.pcs t).early = none := by
  cases hearly : (s.pcs t).early with
  | none => rfl
  | some job =>
    have hnone := h.gil.none_iff.mp hgil t
    rw [hasGil_of_early hearly] at hnone
    cases hnone

/-- With a free waiter nobody has an answer. -/
theorem SysInv.answers_of_free (h : SysInv s) (hbusy : s.cmdWaiterBusy = false) (place : ℕ → Place) :
    Answers place s.pcs s.cmdWaiter s.workerPc := by
  obtain ⟨answers, hwaiter⟩ := h.waiter
  rw [hbusy] at hwaiter
  refine ⟨fun t cmd status hpc => ?_, fun t job hpc _ => ?_, fun cmd status unrefs hpc => ?_⟩
  · cases (stage_of_answer hpc).symm.trans (hwaiter.stage_out t)
  · have hout : (s.pcs t).stage = .out := hwaiter.stage_out t
    rw [hpc] at hout
    cases hout
  · have hsent : cmd ∈ asked s.onTheWay := by
      rw [onTheWay_of_pc hpc]
      exact List.mem_cons_self
    obtain ⟨t, ht, -, -⟩ := hwaiter.of_mem hsent
    cases ht.symm.trans (hwaiter.stage_out t)

/-- While the command of a thread is on its way nobody has an answer. -/
theorem SysInv.answers_of_asked (h : SysInv s) (hasked : asked s.onTheWay ≠ [])
    (hpc : ∀ cmd status unrefs, s.workerPc ≠ .completing ⟨cmd, true⟩ status unrefs)
    (place : ℕ → Place) : Answers place s.pcs s.cmdWaiter s.workerPc := by
  obtain ⟨answers, hwaiter⟩ := h.waiter
  refine ⟨fun t cmd status hanswer => ?_, fun t job hwaiting hdone => ?_,
    fun cmd status unrefs heq => absurd heq (hpc cmd status unrefs)⟩
  · exact absurd (hwaiter.of_taken (t := t) (.inl (stage_of_answer hanswer))).2.1 hasked
  · have hstage : (Pc.stage ∘ s.pcs) t = .waiting job.cmd := by
      rw [Function.comp_apply, hwaiting]
      rfl
    exact absurd ((hwaiter.of_waiting hstage).2 hdone).1 hasked

/-- While the command of a thread is on its way no other thread is about to send one. -/
theorem SysInv.not_enqueueing (h : SysInv s) (hasked : asked s.onTheWay ≠ []) (t : ℕ) (job : Job) :
    s.pcs t ≠ .enqueueing job := by
  intro hpc
  obtain ⟨answers, hwaiter⟩ := h.waiter
  refine absurd (hwaiter.of_taken (t := t) (.inr ?_)).2.1 hasked
  rw [Function.comp_apply, hpc]
  rfl

theorem used_update {pcs : ℕ → Pc} {created : ℕ → Bool}
    (h : ∀ t c, (pcs t).channel = some c → created c = true)
    (hpc : ∀ c, pc.channel = some c → created c = true) (t' c : ℕ)
    (ht' : (Function.update pcs t pc t').channel = some c) : created c = true := by
  by_cases htt : t' = t
  · rw [htt, Function.update_self] at ht'
    exact hpc c ht'
  · rw [Function.update_of_ne htt] at ht'
    exact h t' c ht'

/-! ### Clients -/

/-- A step of a client that moves no reference. -/
theorem RefInv.silent (h : RefInv place s) {gil : Option Thread} {busy : Bool}
    (hmakes : pc.makes = (s.pcs t).makes)
    (hopened : ∀ c, pc.early = some (.close c) → s.known c = true ∧ s.closed c = false)
    (hthere : ∀ c, pc = .enqueueing (.close c) → place c = .table)
    (hwaits : ∀ c, place c = .closer → (s.pcs t).closes = some c → pc.closes = some c)
    (hanswer : ∀ cmd status, pc.answer = some (cmd, status) → Answered place cmd status)
    (hready : ∀ job, pc ≠ .waiting job) (hchannel : ∀ c, pc.channel = some c → s.created c = true) :
    RefInv place { s with gil := gil, cmdWaiterBusy := busy, pcs := Function.update s.pcs t pc } where
  cache := h.cache
  table := h.table
  pending := h.pending
  failed := h.failed
  hands := h.hands.keep hmakes
  counts := h.counts
  removals := h.removals
  opens := h.opens
  closers := h.closers.client hopened hthere hwaits
  answers := h.answers.client hanswer fun job hpc => absurd hpc (hready job)
  used := used_update h.used hchannel

/-- A call ends that moves no reference. -/
theorem RefInv.ends (h : RefInv place s) {gil : Option Thread} {busy : Bool}
    (hmakes : (s.pcs t).makes = none)
    (hcloses : ∀ c, place c = .closer → (s.pcs t).closes ≠ some c) :
    RefInv place { s with gil := gil, cmdWaiterBusy := busy, pcs := Function.update s.pcs t .idle } :=
  h.silent hmakes.symm nofun nofun (fun c hplace hc => absurd hc (hcloses c hplace)) nofun nofun nofun

theorem channel_of_answer {cmd : RtpServerCmd} {status : ℕ} (h : pc.answer = some (cmd, status)) :
    pc.channel = cmd.channel := by
  cases pc with
  | returning job status' =>
    obtain ⟨rfl, -⟩ := Prod.mk.inj (Option.some.inj h)
    cases job <;> rfl
  | releasing job status' =>
    cases status' with
    | none => cases h
    | some status' =>
      obtain ⟨rfl, -⟩ := Prod.mk.inj (Option.some.inj h)
      cases job <;> rfl
  | idle | sending _ | acquiring _ | enqueueing _ | waiting _ => cases h

theorem waiting_of_stage {cmd : RtpServerCmd} (h : pc.stage = .waiting cmd) :
    ∃ job, pc = .waiting job ∧ job.cmd = cmd := by
  cases pc with
  | waiting job => exact ⟨job, rfl, Stage.waiting.inj h⟩
  | idle | sending _ | acquiring _ | enqueueing _ | returning _ _ | releasing _ _ => cases h

/-- The thread that waits for a command. -/
theorem SysInv.waits_of_asked (h : SysInv s) {cmd : RtpServerCmd} (hcmd : cmd ∈ asked s.onTheWay) :
    asked s.onTheWay = [cmd] ∧ ∃ t job, s.pcs t = .waiting job ∧ job.cmd = cmd := by
  obtain ⟨answers, hwaiter⟩ := h.waiter
  obtain ⟨t, ht, -, hasked⟩ := hwaiter.of_mem hcmd
  obtain ⟨job, hpc, hjob⟩ := waiting_of_stage ht
  exact ⟨hasked, t, job, hpc, hjob⟩

/-- Nobody has an answer about a channel that no call is about. -/
theorem RefInv.answers_new (h : RefInv place s) (hinv : SysInv s)
    (hout : ∀ t, (s.pcs t).channel ≠ some c) :
    Answers (Function.update place c q) s.pcs s.cmdWaiter s.workerPc := by
  -- a command that is answered is the command of a call
  have hcongr : ∀ {cmd status}, Answered place cmd status → cmd.channel ≠ some c →
      Answered (Function.update place c q) cmd status := by
    intro cmd status hanswered hne
    refine answered_congr hanswered fun c' hc' => Function.update_of_ne ?_ _ _
    rintro rfl
    exact hne hc'
  have hwaiting : ∀ {t job}, s.pcs t = .waiting job → job.cmd.channel ≠ some c := by
    intro t job hpc hc
    refine hout t ?_
    rw [hpc, ← hc]
    cases job <;> rfl
  refine ⟨fun t cmd status hpc => ?_, fun t job hpc hdone => ?_, fun cmd status unrefs hpc => ?_⟩
  · refine hcongr (h.answers.answered t cmd status hpc) fun hc => hout t ?_
    rw [channel_of_answer hpc, hc]
  · exact hcongr (h.answers.ready t job hpc hdone) (hwaiting hpc)
  · have hcmd : cmd ∈ asked s.onTheWay := by
      rw [onTheWay_of_pc hpc]
      exact List.mem_cons_self
    obtain ⟨-, t, job, hpc', rfl⟩ := hinv.waits_of_asked hcmd
    exact hcongr (h.answers.completing _ status unrefs hpc) (hwaiting hpc')

/-- The channel object is made, and the reference for the worker is taken. -/
theorem RefInv.new (h : RefInv place s) (hinv : SysInv s) {channel : RtpChannelState}
    (hidle : s.pcs t = .idle) (hfits : (Event.call t (.createChannel channel)).fits s) :
    RefInv (Function.update place channel.ptr .hand)
      ((s.newChannel channel.ptr).enter t (.acquiring (.createChannel channel))) := by
  have hboth : (place channel.ptr = .away ∨ place channel.ptr = .gone) ∧
      ∀ t', (s.pcs t').channel ≠ some channel.ptr := by
    rcases hfits with hcreated | ⟨hdrops, hout⟩
    · refine ⟨.inl ?_, fun t' ht' => ?_⟩
      · by_contra hne
        cases hcreated.symm.trans ((h.counts.created channel.ptr).mpr hne)
      · cases hcreated.symm.trans (h.used t' channel.ptr ht')
    · refine ⟨.inr ?_, hout⟩
      by_contra hne
      rw [h.counts.drops, if_neg hne] at hdrops
      exact hdrops rfl
  obtain ⟨hplace, hout⟩ := hboth
  have hne : ∀ {p}, p ≠ .away → p ≠ .gone → place channel.ptr ≠ p := by
    rintro p haway hgone rfl
    exact hplace.elim haway hgone
  have hearly : ∀ t' c', (s.pcs t').early = some (.close c') → c' ≠ channel.ptr := by
    rintro t' c' hc' rfl
    refine hout t' ?_
    cases hpc : s.pcs t' <;> rw [hpc] at hc'
    case acquiring | enqueueing => exact congrArg Job.channel (Option.some.inj hc')
    all_goals cases hc'
  refine ⟨h.cache, h.table.aside (hne nofun nofun) nofun, h.pending.aside (hne nofun nofun) nofun,
    h.failed.aside (hne nofun nofun) nofun, h.hands.begins (by rw [hidle]; rfl) rfl, h.counts.new,
    h.removals.aside (fun hmem => absurd (h.removals.waited _ hmem) (hne nofun nofun)) nofun,
    h.opens.new _, ?_, ?_, ?_⟩
  · have hmoved : Closers (Function.update place channel.ptr .hand) s.pcs s.known s.closed :=
      h.closers.aside (fun t' hpc => absurd (h.closers.there t' _ hpc) (hne nofun nofun)) nofun
    have hobjects : Closers (Function.update place channel.ptr .hand) s.pcs
        (Function.update s.known channel.ptr false) (Function.update s.closed channel.ptr false) :=
      hmoved.objects fun t' c' hc' =>
        ⟨Function.update_of_ne (hearly t' c' hc') _ _, Function.update_of_ne (hearly t' c' hc') _ _⟩
    refine hobjects.client nofun nofun fun c' _ hc' => ?_
    rw [hidle] at hc'
    cases hc'
  · exact (h.answers_new hinv hout).client nofun nofun
  · refine used_update (fun t' c' hc' => ?_) fun c' hc' => ?_
    · have hcc : c' ≠ channel.ptr := by
        rintro rfl
        exact hout t' hc'
      show Function.update s.created channel.ptr true c' = true
      rw [Function.update_of_ne hcc]
      exact h.used t' c' hc'
    · obtain rfl := Option.some.inj hc'
      exact Function.update_self _ _ _

/-- A channel object is marked when no call is between its checks and its command. -/
theorem RefInv.close (h : RefInv place s) (hout : ∀ t, (s.pcs t).early ≠ some (.close c)) :
    RefInv place (s.close c) := by
  refine ⟨h.cache, h.table, h.pending, h.failed, h.hands, h.counts, h.removals, h.opens.close c, ?_,
    h.answers, h.used⟩
  refine h.closers.objects fun t c' hc' => ⟨rfl, Function.update_of_ne ?_ _ _⟩
  rintro rfl
  exact hout t hc'

/-- What Python knows was created. -/
theorem RefInv.created_of_known (h : RefInv place s) (hknown : s.known c = true) : s.created c = true := by
  refine (h.counts.created c).mpr fun haway => ?_
  rcases h.opens.places c hknown with hplace | hplace | hplace <;> cases haway.symm.trans hplace

/-- A client enters a call that makes no channel. -/
theorem RefInv.enters (h : RefInv place s) (hidle : s.pcs t = .idle)
    (hmakes : (Pc.acquiring job).makes = none)
    (hopened : ∀ c, job = .close c → s.known c = true ∧ s.closed c = false)
    (hchannel : ∀ c, (Pc.acquiring job).channel = some c → s.created c = true) :
    RefInv place (s.enter t (.acquiring job)) := by
  refine h.silent ?_ (fun c hc => hopened c (Option.some.inj hc)) nofun (fun c _ hc => ?_) nofun nofun
    hchannel
  · rw [hmakes, hidle]
    rfl
  · rw [hidle] at hc
    cases hc

/-- **A call begins.** -/
theorem RefInv.call (h : RefInv place s) (hinv : SysInv s) (hidle : s.pcs t = .idle) (hgil : s.gil = none)
    (hknown : job.on.all s.known = true) (hfits : (Event.call t job).fits s) :
    ∃ place', RefInv place' (s.call t job).1 := by
  have hother : ∀ channel target c, Job.setTarget channel target = .close c →
      s.known c = true ∧ s.closed c = false := nofun
  have hshutdown : RefInv place (s.enter t (.acquiring .shutdown)) := h.enters hidle rfl nofun nofun
  cases job with
  | createChannel channel => exact ⟨_, h.new hinv hidle hfits⟩
  | setTarget channel target =>
    have henters : RefInv place (s.enter t (.acquiring (.setTarget channel target))) := by
      refine h.enters hidle rfl (hother _ _) fun c hc => ?_
      obtain rfl := Option.some.inj hc
      exact h.created_of_known hknown
    refine ⟨place, ?_⟩
    rw [Sys.call]
    split_ifs
    · exact h
    · exact h
    · exact henters
  | close channel =>
    refine ⟨place, ?_⟩
    rw [Sys.call]
    split_ifs with hclosed
    · exact h
    · refine h.close fun t' ht' => ?_
      cases (hinv.no_early_of_none hgil t').symm.trans ht'
    · refine h.enters hidle rfl (fun c hc => ?_) fun c hc => ?_
      · obtain rfl := Job.close.inj hc
        exact ⟨hknown, Bool.eq_false_iff.mpr hclosed⟩
      · obtain rfl := Option.some.inj hc
        exact h.created_of_known hknown
  | shutdown =>
    refine ⟨place, ?_⟩
    rw [Sys.call]
    split_ifs
    · exact h
    · exact hshutdown

/-- The reference of a channel that is closed or closing is not with its creator. -/
theorem RefInv.ne_of_early (h : RefInv place s) (hc : place c = .hand) (t c' : ℕ)
    (hearly : (s.pcs t).early = some (.close c')) : c' ≠ c := by
  rintro rfl
  cases (h.opens.unknown (.inl hc)).symm.trans (h.closers.opened t c' hearly).1

/-- The thread that creates a channel drops the reference. -/
theorem RefInv.abandon (h : RefInv place s) (hinv : SysInv s) (hmakes : (s.pcs t).makes = some c)
    {busy : Bool} :
    RefInv (Function.update place c .gone)
      ({ (s.unref c).close c with cmdWaiterBusy := busy }.leave t .idle) := by
  have hplace : place c = .hand := (h.hands c).mpr ⟨t, hmakes⟩
  refine ⟨h.cache, h.table.aside (hplace.trans_ne nofun) nofun,
    h.pending.aside (hplace.trans_ne nofun) nofun, h.failed.aside (hplace.trans_ne nofun) nofun,
    h.hands.ends hmakes rfl (hinv.unique_makes hmakes) nofun,
    h.counts.drop ⟨hplace.trans_ne nofun, hplace.trans_ne nofun⟩,
    h.removals.aside (fun hmem => absurd (h.removals.waited c hmem) (hplace.trans_ne nofun)) nofun,
    (h.opens.close c).asideUnknown (h.opens.unknown (.inl hplace)), ?_, ?_, used_update h.used nofun⟩
  · have hmoved : Closers (Function.update place c .gone) s.pcs s.known s.closed :=
      h.closers.aside (fun t' hpc => absurd (h.closers.there t' c hpc) (hplace.trans_ne nofun)) nofun
    have hobjects : Closers (Function.update place c .gone) s.pcs s.known
        (Function.update s.closed c true) :=
      hmoved.objects fun t' c' hc' => ⟨rfl, Function.update_of_ne (h.ne_of_early hplace t' c' hc') _ _⟩
    refine hobjects.client nofun nofun fun c' _ hc' => ?_
    -- a thread that creates a channel closes none
    cases hpc : s.pcs t <;> rw [hpc] at hmakes hc'
    case releasing job status =>
      cases job with
      | createChannel _ => cases hc'
      | setTarget _ _ | close _ | shutdown => cases hmakes
    all_goals first | cases hc' | cases hmakes
  · exact (h.answers.move fun _ _ => answered_aside (.inl hplace)).client nofun nofun

/-- The thread that closes a channel drops the reference. -/
theorem RefInv.dropClosed (h : RefInv place s) (hinv : SysInv s) {status : ℕ}
    (hpc : s.pcs t = .releasing (.close c) (some status))
    (hinv' : SysInv ({ (s.unref c).close c with cmdWaiterBusy := false }.leave t .idle)) :
    RefInv (Function.update place c .gone)
      ({ (s.unref c).close c with cmdWaiterBusy := false }.leave t .idle) := by
  have hplace : place c = .closer := (h.answers.answered t (.removeChannel c) status (by rw [hpc]; rfl)).2
  have hearly : ∀ t', (s.pcs t').early = none :=
    hinv.no_early (t := t) (by rw [hpc]; rfl) (by rw [hpc]; rfl)
  have hhands : Hands (Function.update place c .gone) s.pcs :=
    h.hands.aside (hplace.trans_ne nofun) nofun
  refine ⟨h.cache, h.table.aside (hplace.trans_ne nofun) nofun,
    h.pending.aside (hplace.trans_ne nofun) nofun, h.failed.aside (hplace.trans_ne nofun) nofun,
    hhands.keep (by rw [hpc]; rfl), h.counts.drop ⟨hplace.trans_ne nofun, hplace.trans_ne nofun⟩,
    h.removals.aside (fun hmem => absurd (h.removals.waited c hmem) (hplace.trans_ne nofun)) nofun,
    ?_, ?_, ?_, used_update h.used nofun⟩
  · exact (h.opens.close c).aside (fun _ => .inr (.inr rfl)) fun _ _ => .inl (Function.update_self _ _ _)
  · have hmoved : Closers (Function.update place c .gone) s.pcs s.known s.closed :=
      h.closers.aside (fun t' hpc => absurd (h.closers.there t' c hpc) (hplace.trans_ne nofun)) nofun
    have hobjects : Closers (Function.update place c .gone) s.pcs s.known
        (Function.update s.closed c true) :=
      hmoved.objects fun t' c' hc' => by
        rw [hearly t'] at hc'
        cases hc'
    refine hobjects.client nofun nofun fun c' hcloser hc' => ?_
    rw [hpc] at hc'
    obtain rfl := Option.some.inj hc'
    rw [Function.update_self] at hcloser
    cases hcloser
  · exact hinv'.answers_of_free rfl _

/-- A channel object is returned to Python. -/
theorem RefInv.hand (h : RefInv place s) (hc : place c = .table) : RefInv place (s.hand c) := by
  refine ⟨h.cache, h.table, h.pending, h.failed, h.hands, h.counts, h.removals, h.opens.hand hc, ?_,
    h.answers, h.used⟩
  refine h.closers.objects fun t c' hc' => ⟨?_, rfl⟩
  by_cases hcc : c' = c
  · rw [(h.closers.opened t c' hc').1, hcc]
    exact Function.update_self _ _ _
  · exact Function.update_of_ne hcc _ _

/-- `server_waiter_release`, and what follows it. -/
theorem RefInv.release (h : RefInv place s) (hinv : SysInv s) {status : Option ℕ}
    (hpc : s.pcs t = .releasing job status)
    (hinv' : SysInv ((({ s with cmdWaiterBusy := false }).finish status job).leave t .idle)) :
    ∃ place', RefInv place' ((({ s with cmdWaiterBusy := false }).finish status job).leave t .idle) := by
  have hearly : ∀ t', (s.pcs t').early = none :=
    hinv.no_early (t := t) (by rw [hpc]; rfl) (by rw [hpc]; rfl)
  -- behind the call no thread is between its checks and its command
  have hout : ∀ (c t' : ℕ), (Function.update s.pcs t .idle t').early ≠ some (.close c) := by
    intro c t'
    by_cases htt : t' = t
    · rw [htt, Function.update_self]
      nofun
    · rw [Function.update_of_ne htt, hearly t']
      nofun
  cases job with
  | createChannel channel =>
    match status with
    | none => exact ⟨_, h.abandon hinv (by rw [hpc]; rfl)⟩
    | some 0 =>
      have hplace : place channel.ptr = .table := h.answers.answered t (.addChannel channel) 0 (by rw [hpc]; rfl)
      exact ⟨place, (h.ends (by rw [hpc]; rfl) (by rw [hpc]; nofun)).hand hplace⟩
    | some (n + 1) => exact ⟨place, (h.ends (by rw [hpc]; rfl) (by rw [hpc]; nofun)).close (hout _)⟩
  | close channel =>
    match status with
    | none => exact ⟨place, (h.ends (by rw [hpc]; rfl) (by rw [hpc]; nofun)).close (hout _)⟩
    | some 0 => exact ⟨_, h.dropClosed hinv hpc hinv'⟩
    | some (n + 1) => cases (h.answers.answered t (.removeChannel channel) (n + 1) (by rw [hpc]; rfl)).1
  | setTarget _ _ | shutdown => exact ⟨place, h.ends (by rw [hpc]; rfl) (by rw [hpc]; nofun)⟩

theorem adds_append (sents sents' : List Sent) : adds (sents ++ sents') = adds sents ++ adds sents' :=
  List.filterMap_append

theorem pending_push (s : Sys) (sent : Sent) : (s.push sent).pending = s.pending ++ [sent] := by
  rw [Sys.pending, Sys.pending, List.append_assoc]
  rfl

/-- The thread that is about to send its command has reset the waiter. -/
theorem SysInv.not_done (h : SysInv s) (hpc : s.pcs t = .enqueueing job) : s.cmdWaiter.done = false := by
  obtain ⟨answers, hwaiter⟩ := h.waiter
  have hready : (Pc.stage ∘ s.pcs) t = .ready := by
    rw [Function.comp_apply, hpc]
    rfl
  exact (hwaiter.of_taken (.inr hready)).2.2 hready

/-- A thread sends its command, and waits. -/
theorem RefInv.waits (h : RefInv place s) (hinv : SysInv s) (hpc : s.pcs t = .enqueueing job)
    {place' : ℕ → Place} {accepting : Bool} (haccepting : accepting = s.acceptingCommands ∨ accepting = false)
    (htable : Holds place' .table s.live)
    (hpending : Holds place' .pending (adds (s.pending ++ [⟨job.cmd, true⟩])))
    (hfailed : Holds place' .failed s.workerPc.unrefs)
    (hhands : Hands place' (Function.update s.pcs t (.waiting job)))
    (hcounts : Counts place' s.drops s.created) (hremovals : Removals place' s.pending)
    (hwaited : ∀ c, job = .close c → place' c = .table)
    (hopens : Opens place' s.known s.closed s.acceptingCommands)
    (hclosers : Closers place' s.pcs s.known s.closed)
    (hanswers : Answers place' s.pcs s.cmdWaiter s.workerPc) :
    RefInv place' (({ s.push ⟨job.cmd, true⟩ with acceptingCommands := accepting }).leave t
      (.waiting job)) := by
  have hchannel : ∀ c, (Pc.waiting job).channel = some c → s.created c = true := by
    intro c hc
    refine h.used t c ?_
    rw [hpc]
    exact hc
  refine ⟨h.cache, htable, ?_, hfailed, hhands, hcounts, ?_, ⟨hopens.places, fun c hknown hgone => ?_⟩,
    hclosers.client nofun nofun ?_, hanswers.client nofun ?_, used_update h.used hchannel⟩
  · show Holds place' .pending (adds (s.push ⟨job.cmd, true⟩).pending)
    rw [pending_push]
    exact hpending
  · show Removals place' (s.push ⟨job.cmd, true⟩).pending
    rw [pending_push]
    refine hremovals.push (fun c heq => hwaited c ?_) fun c heq => ?_
    · cases job with
      | close channel => rw [RtpServerCmd.removeChannel.inj (Sent.mk.inj heq).1]
      | createChannel _ | setTarget _ _ | shutdown => cases heq
    · cases (Sent.mk.inj heq).2
  · rcases haccepting with rfl | rfl
    · exact hopens.dropped c hknown hgone
    · exact .inr rfl
  · intro c _ hc
    rw [hpc] at hc
    cases hc
  · intro job' _ hdone
    rw [hinv.not_done hpc] at hdone
    cases hdone

/-- A thread sends a command that takes no reference along. -/
theorem RefInv.sends (h : RefInv place s) (hinv : SysInv s) (hpc : s.pcs t = .enqueueing job)
    (hjob : ∀ channel, job ≠ .createChannel channel) {accepting : Bool}
    (haccepting : accepting = s.acceptingCommands ∨ accepting = false) :
    RefInv place (({ s.push ⟨job.cmd, true⟩ with acceptingCommands := accepting }).leave t
      (.waiting job)) := by
  have hadds : adds [⟨job.cmd, true⟩] = [] := by
    cases job with
    | createChannel channel => exact absurd rfl (hjob channel)
    | setTarget _ _ | close _ | shutdown => rfl
  have hmakes : (Pc.waiting job).makes = (s.pcs t).makes := by
    rw [hpc]
    cases job with
    | createChannel channel => exact absurd rfl (hjob channel)
    | setTarget _ _ | close _ | shutdown => rfl
  refine h.waits hinv hpc haccepting h.table ?_ h.failed (h.hands.keep hmakes) h.counts h.removals ?_
    h.opens h.closers h.answers
  · rw [adds_append, hadds, List.append_nil]
    exact h.pending
  · rintro c rfl
    exact h.closers.there t c hpc

/-- The reference goes with the command. -/
theorem RefInv.sendsChannel (h : RefInv place s) (hinv : SysInv s) {channel : RtpChannelState}
    (hpc : s.pcs t = .enqueueing (.createChannel channel)) :
    RefInv (Function.update place channel.ptr .pending)
      ((s.push ⟨.addChannel channel, true⟩).leave t (.waiting (.createChannel channel))) := by
  have hmakes : (s.pcs t).makes = some channel.ptr := by
    rw [hpc]
    rfl
  have hplace : place channel.ptr = .hand := (h.hands _).mpr ⟨t, hmakes⟩
  refine h.waits hinv hpc (.inl rfl) (h.table.aside (hplace.trans_ne nofun) nofun)
    (h.pending.add (hplace.trans_ne nofun) ?_) (h.failed.aside (hplace.trans_ne nofun) nofun)
    (h.hands.ends hmakes rfl (hinv.unique_makes hmakes) nofun)
    (h.counts.aside ⟨hplace.trans_ne nofun, hplace.trans_ne nofun⟩ ⟨nofun, nofun⟩)
    (h.removals.aside (fun hmem => absurd (h.removals.waited _ hmem) (hplace.trans_ne nofun)) nofun)
    nofun (h.opens.asideUnknown (h.opens.unknown (.inl hplace)))
    (h.closers.aside (fun t' hpc => absurd (h.closers.there t' _ hpc) (hplace.trans_ne nofun)) nofun)
    (h.answers.move fun _ _ => answered_aside (.inl hplace))
  rw [adds_append]
  exact List.perm_append_singleton channel.ptr (adds s.pending)

/-- `enqueue_command`. -/
theorem RefInv.enqueue (h : RefInv place s) (hinv : SysInv s) (hpc : s.pcs t = .enqueueing job) :
    ∃ place', RefInv place' (s.enqueueCommand t job) := by
  have hrejected : RefInv place (s.goto t (.releasing job none)) := by
    refine h.silent ?_ nofun nofun (fun c _ hc => ?_) nofun nofun fun c hc => h.used t c ?_
    · rw [hpc]
      cases job <;> rfl
    · rw [hpc] at hc
      cases hc
    · rw [hpc]
      exact hc
  have haccepted : job ≠ .shutdown →
      ∃ place', RefInv place' ((s.push ⟨job.cmd, true⟩).leave t (.waiting job)) := by
    intro hjob
    cases job with
    | shutdown => exact absurd rfl hjob
    | createChannel channel => exact ⟨_, h.sendsChannel hinv hpc⟩
    | setTarget _ _ | close _ => exact ⟨place, h.sends hinv hpc nofun (.inl rfl)⟩
  by_cases hjob : job = .shutdown
  · subst hjob
    exact ⟨place, h.sends hinv hpc nofun (.inr rfl)⟩
  · rw [Sys.enqueueCommand.eq_2 s t job hjob]
    split_ifs
    · exact haccepted hjob
    · exact ⟨place, hrejected⟩

/-- A channel that a thread may close is in the table. -/
theorem RefInv.table_of_early (h : RefInv place s) (hinv : SysInv s) (hbusy : s.cmdWaiterBusy = false)
    (hearly : (s.pcs t).early = some (.close c)) : place c = .table := by
  obtain ⟨hknown, hclosed⟩ := h.closers.opened t c hearly
  rcases h.opens.places c hknown with hplace | hplace | hplace
  · exact hplace
  · -- a thread that waits for the removal would have the waiter
    obtain ⟨t', ht'⟩ := h.closers.waits c hplace
    obtain ⟨answers, hwaiter⟩ := hinv.waiter
    rw [hbusy] at hwaiter
    exact absurd (hwaiter.stage_out t') (stage_of_closes ht')
  · rcases h.opens.dropped c hknown hplace with hc | hrejects
    · cases hclosed.symm.trans hc
    · cases hrejects.symm.trans (hinv.early t _ hearly rfl)

/-- **A client goes on.** -/
theorem RefInv.client (h : RefInv place s) (hinv : SysInv s) (hmove : ClientMove s t s') :
    ∃ place', RefInv place' s' := by
  have hinv' := hinv.client hmove
  have hused : ∀ {job : Job}, (s.pcs t).channel = job.channel → ∀ c, job.channel = some c → s.created c = true :=
    fun hjob c hc => h.used t c (hjob.trans hc)
  cases hmove with
  | sent channel hpc => exact ⟨place, h.ends (by rw [hpc]; rfl) (by rw [hpc]; nofun)⟩
  | busy job hpc _ _ =>
    cases job with
    | createChannel channel => exact ⟨_, h.abandon hinv (by rw [hpc]; rfl)⟩
    | setTarget _ _ | close _ | shutdown =>
      exact ⟨place, h.ends (by rw [hpc]; rfl) (by rw [hpc]; nofun)⟩
  | acquired job hpc _ hbusy =>
    have hreset : RefInv place { s with cmdWaiter := waiterReset } :=
      ⟨h.cache, h.table, h.pending, h.failed, h.hands, h.counts, h.removals, h.opens, h.closers,
        h.answers.reset, h.used⟩
    refine ⟨place, hreset.silent ?_ (fun c hc => ?_) (fun c hc => ?_) (fun c _ hc => ?_) nofun nofun
      (hused (by rw [hpc]; rfl))⟩
    · rw [show s.pcs t = _ from hpc]
      cases job <;> rfl
    · exact h.closers.opened t c (by rw [hpc]; exact hc)
    · obtain rfl := Pc.enqueueing.inj hc
      exact h.table_of_early hinv hbusy (by rw [hpc]; rfl)
    · change (s.pcs t).closes = some c at hc
      rw [hpc] at hc
      cases hc
  | enqueued job hpc _ => exact h.enqueue hinv hpc
  | slept => exact ⟨place, h⟩
  | woke job hpc hdone =>
    refine ⟨place, h.silent ?_ nofun nofun (fun c _ hc => ?_) (fun cmd status hanswer => ?_) nofun
      (hused (by rw [hpc]; rfl))⟩
    · rw [hpc]
      rfl
    · rw [hpc] at hc
      cases job with
      | close channel => exact hc
      | createChannel _ | setTarget _ _ | shutdown => cases hc
    · obtain ⟨rfl, rfl⟩ := Prod.mk.inj (Option.some.inj hanswer)
      exact h.answers.ready t job hpc hdone
  | back job status hpc hgil =>
    refine ⟨place, h.silent ?_ nofun nofun (fun c _ hc => ?_) (fun cmd status' hanswer => ?_) nofun
      (hused (by rw [hpc]; rfl))⟩
    · rw [hpc]
      cases job <;> rfl
    · rw [hpc] at hc
      cases job with
      | close channel => exact hc
      | createChannel _ | setTarget _ _ | shutdown => cases hc
    · exact h.answers.answered t cmd status' (by rw [hpc]; exact hanswer)
  | released job status hpc _ => exact h.release hinv hpc hinv'

/-! ### The worker -/

theorem live_of_pc {pc : WorkerPc} (hpc : s.workerPc = pc) : s.live = pc.live s.self := by
  rw [Sys.live, hpc]

/-- A step of the worker that moves no reference. -/
theorem RefInv.work (h : RefInv place s) {self : PyRtpServer} {queue batch : List Sent}
    {lock : Option Thread} {pc : WorkerPc} (hcache : CacheInv self) (hlive : pc.live self = s.live)
    (hpending : batch ++ queue = s.pending) (hunrefs : pc.unrefs = s.workerPc.unrefs)
    (hcompleting : ∀ cmd status unrefs, pc = .completing ⟨cmd, true⟩ status unrefs →
      Answered place cmd status) :
    RefInv place
      { s with self := self, queue := queue, batch := batch, cmdLock := lock, workerPc := pc } := by
  refine ⟨hcache, ?_, ?_, ?_, h.hands, h.counts, ?_, h.opens, h.closers,
    h.answers.worker hcompleting, h.used⟩
  · show Holds place .table (pc.live self)
    rw [hlive]
    exact h.table
  · show Holds place .pending (adds (batch ++ queue))
    rw [hpending]
    exact h.pending
  · show Holds place .failed pc.unrefs
    rw [hunrefs]
    exact h.failed
  · show Removals place (batch ++ queue)
    rw [hpending]
    exact h.removals

/-- The worker comes to a command that takes no reference along, and that no thread waits
for to drop one. -/
theorem RefInv.pop (h : RefInv place s) {sent : Sent} {batch : List Sent}
    (hbatch : s.batch = sent :: batch) (hadds : adds [sent] = [])
    (hsent : ∀ c, sent ≠ ⟨.removeChannel c, true⟩) : RefInv place { s with batch := batch } := by
  have hpending : s.pending = sent :: (batch ++ s.queue) := by
    rw [Sys.pending, hbatch]
    rfl
  have hold := h.pending
  rw [hpending, ← List.singleton_append, adds_append, hadds] at hold
  have hremovals := h.removals
  rw [hpending] at hremovals
  exact ⟨h.cache, h.table, hold, h.failed, h.hands, h.counts, hremovals.pop hsent, h.opens, h.closers,
    h.answers, h.used⟩

/-- The worker removes a channel for a thread that waits. -/
theorem RefInv.removes (h : RefInv place s) (hinv : SysInv s) {batch : List Sent} {self : PyRtpServer}
    {out : WorkerOut} {addr : Option ℕ} (hpc : s.workerPc = .atCmd)
    (hbatch : s.batch = ⟨.removeChannel c, true⟩ :: batch)
    (hself : processCommand s.self addr (.removeChannel c) = some (self, out)) (hcache : CacheInv self) :
    RefInv (Function.update place c .closer) ({ s with batch := batch, self := self }.goWorker
      (.completing ⟨.removeChannel c, true⟩ out.status out.unrefs)) := by
  have hpending : s.pending = ⟨.removeChannel c, true⟩ :: (batch ++ s.queue) := by
    rw [Sys.pending, hbatch]
    rfl
  have hway : s.onTheWay = ⟨.removeChannel c, true⟩ :: (batch ++ s.queue) :=
    (onTheWay_of_pc hpc).trans hpending
  -- the thread that waits, and no other command with the waiter
  have hmem : RtpServerCmd.removeChannel c ∈ asked s.onTheWay := by
    rw [hway]
    exact List.mem_cons_self
  obtain ⟨hasked, t, job, hjob, hcmd⟩ := hinv.waits_of_asked hmem
  have hasked' : asked s.onTheWay ≠ [] := by
    rw [hasked]
    nofun
  have hone : ⟨.removeChannel c, true⟩ ∉ batch ++ s.queue := by
    intro hmem
    rw [hway] at hasked
    have hrest : asked (batch ++ s.queue) = [] := (List.cons.inj hasked).2
    have hin : RtpServerCmd.removeChannel c ∈ asked (batch ++ s.queue) :=
      List.mem_map.mpr ⟨_, List.mem_filter.mpr ⟨hmem, rfl⟩, rfl⟩
    rw [hrest] at hin
    cases hin
  have hplace : place c = .table := h.removals.waited c (by rw [hpending]; exact List.mem_cons_self)
  have htable := h.table
  rw [live_of_pc hpc] at htable
  have hfailed := h.failed
  rw [hpc] at hfailed
  obtain ⟨rfl, ⟨hout, -⟩ | hperm⟩ := processRemoveChannel_ptrs hself
  · exact absurd ((htable.mem_iff c).mpr hplace) hout
  have hcounts : Counts (Function.update place c .closer) s.drops s.created :=
    h.counts.aside ⟨hplace.trans_ne nofun, hplace.trans_ne nofun⟩ ⟨nofun, nofun⟩
  have hold := h.pending
  rw [hpending] at hold
  have hremovals := h.removals
  rw [hpending] at hremovals
  refine ⟨hcache, htable.remove nofun hperm, hold.aside (hplace.trans_ne nofun) nofun,
    hfailed.aside (hplace.trans_ne nofun) nofun, h.hands.aside (hplace.trans_ne nofun) nofun, hcounts,
    hremovals.remove hone, h.opens.aside (fun _ => .inr (.inl rfl)) nofun, ?_, ?_, h.used⟩
  · refine h.closers.aside (fun t' hpc' => absurd hpc' (hinv.not_enqueueing hasked' t' _)) fun _ => ⟨t, ?_⟩
    rw [hjob]
    cases job with
    | close channel => exact congrArg some (RtpServerCmd.removeChannel.inj hcmd)
    | createChannel _ | setTarget _ _ | shutdown => cases hcmd
  · refine (hinv.answers_of_asked hasked' (by rw [hpc]; nofun) _).worker fun cmd status unrefs heq => ?_
    obtain ⟨hsent, rfl, -⟩ := WorkerPc.completing.inj heq
    obtain ⟨rfl, -⟩ := Sent.mk.inj hsent
    exact ⟨rfl, Function.update_self _ _ _⟩

/-- The worker adds a channel, or cannot. -/
theorem RefInv.adds (h : RefInv place s) {batch : List Sent} {self : PyRtpServer}
    {channel : RtpChannelState} {out : WorkerOut} {addr : Option ℕ} (hpc : s.workerPc = .atCmd)
    (hbatch : s.batch = ⟨.addChannel channel, true⟩ :: batch)
    (hself : processAddChannel s.self channel addr = some (self, out)) (hcache : CacheInv self) :
    ∃ place', RefInv place' ({ s with batch := batch, self := self }.goWorker
      (.completing ⟨.addChannel channel, true⟩ out.status out.unrefs)) := by
  have hpending : s.pending = ⟨.addChannel channel, true⟩ :: (batch ++ s.queue) := by
    rw [Sys.pending, hbatch]
    rfl
  have hold := h.pending
  rw [hpending] at hold
  have hremovals := h.removals
  rw [hpending] at hremovals
  have hplace : place channel.ptr = .pending := (hold.mem_iff _).mp List.mem_cons_self
  have hunwaited : ⟨.removeChannel channel.ptr, false⟩ ∉ batch ++ s.queue := by
    intro hmem
    obtain ⟨pre, post, hsplit⟩ := List.append_of_mem hmem
    rw [hsplit] at hremovals
    exact (hremovals.unwaited (⟨.addChannel channel, true⟩ :: pre) _ post rfl).1 List.mem_cons_self
  have htable := h.table
  rw [live_of_pc hpc] at htable
  have hfailed := h.failed
  rw [hpc] at hfailed
  -- what is the same whether the channel is added or not
  have hmoved : ∀ q, q ≠ .gone ∧ q ≠ .away → q ≠ .closer → q ≠ .hand → q ≠ .pending →
      Holds (Function.update place channel.ptr q) .table self.ptrs →
      Holds (Function.update place channel.ptr q) .failed out.unrefs →
      Answered (Function.update place channel.ptr q) (.addChannel channel) out.status →
      RefInv (Function.update place channel.ptr q) ({ s with batch := batch, self := self }.goWorker
        (.completing ⟨.addChannel channel, true⟩ out.status out.unrefs)) := by
    intro q hgone hcloser hhand hq htable' hfailed' hanswered
    have hanswers : Answers (Function.update place channel.ptr q) s.pcs s.cmdWaiter s.workerPc :=
      h.answers.move fun _ _ => answered_aside (.inr hplace)
    refine ⟨hcache, htable', hold.remove hq (List.Perm.refl _), hfailed',
      h.hands.aside (hplace.trans_ne nofun) hhand,
      h.counts.aside ⟨hplace.trans_ne nofun, hplace.trans_ne nofun⟩ hgone, ?_,
      h.opens.asideUnknown (h.opens.unknown (.inr (.inl hplace))),
      h.closers.aside (fun t hpc' => absurd (h.closers.there t _ hpc') (hplace.trans_ne nofun))
        fun heq => absurd heq hcloser,
      hanswers.worker fun cmd status unrefs heq => ?_, h.used⟩
    · refine (hremovals.pop nofun).aside (fun hmem => ?_) fun _ => hunwaited
      cases hplace.symm.trans (hremovals.waited _ (List.mem_cons_of_mem _ hmem))
    · obtain ⟨hsent, rfl, -⟩ := WorkerPc.completing.inj heq
      obtain ⟨rfl, -⟩ := Sent.mk.inj hsent
      exact hanswered
  rcases processAddChannel_ptrs h.cache hself with ⟨rfl, hperm⟩ | ⟨rfl, hsame⟩
  · exact ⟨_, hmoved .table ⟨nofun, nofun⟩ nofun nofun nofun (htable.add (hplace.trans_ne nofun) hperm)
      (hfailed.aside (hplace.trans_ne nofun) nofun) (Function.update_self _ _ _)⟩
  · refine ⟨_, hmoved .failed ⟨nofun, nofun⟩ nofun nofun nofun ?_
      (hfailed.add (hplace.trans_ne nofun) (List.Perm.refl _)) (.inl (Function.update_self _ _ _))⟩
    rw [hsame]
    exact htable.aside (hplace.trans_ne nofun) nofun

/-- A command without a reference and without effect on the table is processed. -/
theorem RefInv.passes (h : RefInv place s) {sent : Sent} {batch : List Sent} {self : PyRtpServer}
    {out : WorkerOut} (hpc : s.workerPc = .atCmd) (hbatch : s.batch = sent :: batch)
    (hadds : RtpServer.adds [sent] = []) (hsent : ∀ c, sent ≠ ⟨.removeChannel c, true⟩)
    (hcache : CacheInv self) (hptrs : self.ptrs = s.self.ptrs) (hunrefs : out.unrefs = [])
    (hanswered : sent.waiter = true → Answered place sent.cmd out.status) :
    RefInv place ({ s with batch := batch, self := self }.goWorker
      (.completing sent out.status out.unrefs)) := by
  refine (h.pop hbatch hadds hsent).work hcache ?_ rfl ?_ fun cmd status unrefs heq => ?_
  · show self.ptrs = s.live
    rw [hptrs, live_of_pc hpc]
    rfl
  · show out.unrefs = s.workerPc.unrefs
    rw [hunrefs, hpc]
    rfl
  · obtain ⟨rfl, rfl, -⟩ := WorkerPc.completing.inj heq
    exact hanswered rfl

/-- The section of a command that does not drop the channels. -/
theorem RefInv.processes (h : RefInv place s) (hinv : SysInv s) {sent : Sent} {batch : List Sent}
    {self : PyRtpServer} {out : WorkerOut} {addr : Option ℕ} (hpc : s.workerPc = .atCmd)
    (hbatch : s.batch = sent :: batch) (hcmd : sent.cmd.drops = false)
    (hself : processCommand s.self addr sent.cmd = some (self, out)) :
    ∃ place', RefInv place' ({ s with batch := batch, self := self }.goWorker
      (.completing sent out.status out.unrefs)) := by
  have hpending : s.pending = sent :: (batch ++ s.queue) := by
    rw [Sys.pending, hbatch]
    rfl
  have htable := h.table
  rw [live_of_pc hpc] at htable
  -- a channel to add is not in the table
  have hfresh : ∀ channel, sent.cmd = .addChannel channel →
      channel.ptr ∉ s.self.present.map RtpChannelState.ptr := by
    intro channel hadd hmem
    have hold := h.pending
    rw [hpending] at hold
    have hplace : place channel.ptr = .pending :=
      (hold.mem_iff _).mp (List.mem_filterMap.mpr ⟨sent, List.mem_cons_self, by rw [hadd]⟩)
    cases hplace.symm.trans ((htable.mem_iff _).mp hmem)
  have hcache : CacheInv self := by
    obtain ⟨self', out', heq, hcache, -⟩ := processCommand_spec h.cache addr hfresh
    obtain ⟨rfl, -⟩ := Prod.mk.inj (Option.some.inj (heq.symm.trans hself))
    exact hcache
  have hmem : sent ∈ s.onTheWay := by
    rw [onTheWay_of_pc hpc, hbatch]
    exact List.mem_cons_self
  rcases hinv.sents sent hmem with ⟨job, rfl⟩ | ⟨c, rfl⟩
  · cases job with
    | createChannel channel => exact h.adds hpc hbatch hself hcache
    | setTarget channel target =>
      obtain ⟨hunrefs, hptrs⟩ := processSetTarget_ptrs hself
      exact ⟨place, h.passes hpc hbatch rfl nofun hcache hptrs hunrefs fun _ => trivial⟩
    | close channel => exact ⟨_, h.removes hinv hpc hbatch hself hcache⟩
    | shutdown => cases hcmd
  · -- the channel is not there
    obtain ⟨rfl, ⟨-, hptrs⟩ | hperm⟩ := processRemoveChannel_ptrs hself
    · exact ⟨place, h.passes hpc hbatch rfl nofun hcache hptrs rfl nofun⟩
    · have hplace := (htable.mem_iff c).mp (hperm.mem_iff.mpr List.mem_cons_self)
      cases (h.removals.unwaited [] c _ hpending).2 hplace

/-- A reference is dropped by the worker. -/
theorem RefInv.unref (h : RefInv place s) {pc : WorkerPc} {p : Place} (hplace : place c = p)
    (hp : p = .table ∨ p = .failed)
    (htable : Holds (Function.update place c .gone) .table (pc.live s.self))
    (hfailed : Holds (Function.update place c .gone) .failed pc.unrefs)
    (hwaited : ⟨.removeChannel c, true⟩ ∉ s.pending)
    (hopen : s.known c = true → s.acceptingCommands = false)
    (hthere : ∀ t, s.pcs t ≠ .enqueueing (.close c))
    (hanswers : Answers (Function.update place c .gone) s.pcs s.cmdWaiter pc) :
    RefInv (Function.update place c .gone) ((s.unref c).goWorker pc) := by
  have hne : ∀ {p'}, p' ≠ .table → p' ≠ .failed → place c ≠ p' := by
    rintro p' htable hfailed rfl
    exact hp.elim (fun hp => htable (hplace.trans hp)) fun hp => hfailed (hplace.trans hp)
  exact ⟨h.cache, htable, h.pending.aside (hne nofun nofun) nofun, hfailed,
    h.hands.aside (hne nofun nofun) nofun, h.counts.drop ⟨hne nofun nofun, hne nofun nofun⟩,
    h.removals.aside (fun hmem => absurd hmem hwaited) nofun,
    h.opens.aside (fun _ => .inr (.inr rfl)) fun hknown _ => .inr (hopen hknown),
    h.closers.aside (fun t hpc => absurd hpc (hthere t)) nofun, hanswers, h.used⟩

/-- `clear_channels` drops the reference of one channel. -/
theorem RefInv.drops (h : RefInv place s) (hinv : SysInv s) {sent : Sent} {left : List ℕ}
    (hpc : s.workerPc = .dropping sent (c :: left)) :
    RefInv (Function.update place c .gone) ((s.unref c).goWorker (.dropping sent left)) := by
  obtain rfl := hinv.dropping sent _ hpc
  have htable := h.table
  rw [live_of_pc hpc] at htable
  have hfailed := h.failed
  rw [hpc] at hfailed
  have hplace : place c = .table := (htable.mem_iff c).mp List.mem_cons_self
  have hlock : s.cmdLock = some .worker := by
    rw [hinv.lock, hpc]
    rfl
  obtain ⟨hrejects, hasked⟩ := hinv.of_clearing hlock
  -- no other command has the waiter
  have hwaited : ⟨.removeChannel c, true⟩ ∉ s.pending := by
    intro hmem
    have hway := onTheWay_of_pc hpc
    have hdrop : RtpServerCmd.dropChannels ∈ asked s.onTheWay := by
      rw [hway]
      exact List.mem_cons_self
    have hrest := (hinv.waits_of_asked hdrop).1
    rw [hway] at hrest
    have hin : RtpServerCmd.removeChannel c ∈ asked s.pending :=
      List.mem_map.mpr ⟨_, List.mem_filter.mpr ⟨hmem, rfl⟩, rfl⟩
    rw [show asked s.pending = [] from (List.cons.inj hrest).2] at hin
    cases hin
  have hanswers := hinv.answers_of_asked hasked (by rw [hpc]; nofun) (Function.update place c .gone)
  exact h.unref hplace (.inl rfl) (htable.remove nofun (List.Perm.refl _))
    (hfailed.aside (hplace.trans_ne nofun) nofun) hwaited (fun _ => hrejects)
    (fun t => hinv.not_enqueueing hasked t _) (hanswers.worker nofun)

/-- `free_command` drops the reference of a channel that could not be added. -/
theorem RefInv.frees (h : RefInv place s) {unrefs : List ℕ} (hpc : s.workerPc = .freeing (c :: unrefs)) :
    RefInv (Function.update place c .gone) ((s.unref c).goWorker (.freeing unrefs)) := by
  have htable := h.table
  rw [live_of_pc hpc] at htable
  have hfailed := h.failed
  rw [hpc] at hfailed
  have hplace : place c = .failed := (hfailed.mem_iff c).mp List.mem_cons_self
  have hanswers := h.answers.move fun _ _ => answered_freed hplace
  refine h.unref hplace (.inr rfl) (htable.aside (hplace.trans_ne nofun) nofun)
    (hfailed.remove nofun (List.Perm.refl _)) (fun hmem => ?_) (fun hknown => ?_) (fun t hpc' => ?_)
    (hanswers.worker nofun)
  · cases hplace.symm.trans (h.removals.waited c hmem)
  · cases (h.opens.unknown (.inr (.inr hplace))).symm.trans hknown
  · cases hplace.symm.trans (h.closers.there t c hpc')

/-- `rtp_sync_waiter_complete`. -/
theorem RefInv.completes (h : RefInv place s) (hinv : SysInv s) {sent : Sent} {status : ℕ}
    {unrefs : List ℕ} (hpc : s.workerPc = .completing sent status unrefs) :
    RefInv place
      ({ s with cmdWaiter := if sent.waiter then waiterComplete status else s.cmdWaiter }.goWorker
        (.freeing unrefs)) := by
  have htable := h.table
  rw [live_of_pc hpc] at htable
  have hfailed := h.failed
  rw [hpc] at hfailed
  refine ⟨h.cache, htable, h.pending, hfailed, h.hands, h.counts, h.removals, h.opens, h.closers,
    ⟨h.answers.answered, fun t job hjob hdone => ?_, nofun⟩, h.used⟩
  obtain ⟨cmd, waiter⟩ := sent
  cases waiter with
  | false => exact h.answers.ready t job hjob hdone
  | true =>
    -- the thread that waits is the one whose command this is
    have hcmd : cmd ∈ asked s.onTheWay := by
      rw [onTheWay_of_pc hpc]
      exact List.mem_cons_self
    obtain ⟨answers, hwaiter⟩ := hinv.waiter
    obtain ⟨t', ht', -, -⟩ := hwaiter.of_mem hcmd
    have hstage : (Pc.stage ∘ s.pcs) t = .waiting job.cmd := by
      rw [Function.comp_apply, show s.pcs t = .waiting job from hjob]
      rfl
    have hne : (Pc.stage ∘ s.pcs) t' ≠ .out := by
      rw [ht']
      nofun
    have htt : t = t' := by
      by_contra hne'
      cases hstage.symm.trans (hwaiter.out_of_ne hne t hne')
    rw [htt, ht'] at hstage
    obtain rfl := Stage.waiting.inj hstage
    exact h.answers.completing job.cmd status unrefs hpc

/-- **The worker goes on.** -/
theorem RefInv.worker (h : RefInv place s) (hinv : SysInv s) (hmove : WorkerMove s s') :
    ∃ place', RefInv place' s' := by
  cases hmove with
  | detached hpc _ =>
    refine ⟨place, h.work h.cache (live_of_pc hpc).symm ?_ (by rw [hpc]; rfl) nofun⟩
    have hbatch : s.batch = [] := hinv.batch (by rw [hpc]; rfl)
    rw [List.append_nil, Sys.pending, hbatch]
    rfl
  | finished hpc _ =>
    exact ⟨place, h.work h.cache (live_of_pc hpc).symm rfl (by rw [hpc]; rfl) nofun⟩
  | cleared sent batch hpc hbatch _ hcmd =>
    have hsent : sent = ⟨.dropChannels, true⟩ := by
      refine hinv.eq_drop ?_ hcmd
      rw [onTheWay_of_pc hpc, hbatch]
      exact List.mem_cons_self
    subst hsent
    refine ⟨place, (h.pop hbatch rfl nofun).work h.cache ?_ rfl (by rw [hpc]; rfl) nofun⟩
    exact (clearChannels_ptrs s.self).trans (live_of_pc hpc).symm
  | processed sent batch addr self out hpc hbatch _ hcmd hself =>
    exact h.processes hinv hpc hbatch hcmd hself
  | dropped sent channel left hpc _ => exact ⟨_, h.drops hinv hpc⟩
  | unlocked sent hpc =>
    obtain rfl := hinv.dropping sent _ hpc
    refine ⟨place, h.work (CacheInv.dropChannels s.self) (live_of_pc hpc).symm rfl (by rw [hpc]; rfl) ?_⟩
    intro cmd status unrefs heq
    obtain ⟨hsent, -, -⟩ := WorkerPc.completing.inj heq
    obtain ⟨rfl, -⟩ := Sent.mk.inj hsent
    trivial
  | completed sent status unrefs hpc => exact ⟨place, h.completes hinv hpc⟩
  | freed channel unrefs hpc _ => exact ⟨_, h.frees hpc⟩
  | next hpc => exact ⟨place, h.work h.cache (live_of_pc hpc).symm rfl (by rw [hpc]; rfl) nofun⟩
  | polled env self out hpc hself =>
    obtain ⟨hcache, hptrs⟩ := iteration_ptrs h.cache hself
    exact ⟨place, h.work hcache (hptrs.trans (live_of_pc hpc).symm) rfl (by rw [hpc]; rfl) nofun⟩
  | received channel received hpc | again hpc =>
    exact ⟨place, h.work h.cache (live_of_pc hpc).symm rfl (by rw [hpc]; rfl) nofun⟩

/-- A callback closes a channel. -/
theorem RefInv.callback (h : RefInv place s) (hinv : SysInv s) (hpc : s.workerPc.inCallback = true)
    (hgil : s.gil = none) (hknown : s.known c = true) (hkeeps : (Event.callback c).keepsRef s = true) :
    RefInv place (s.closeOnWorker c).1 := by
  have hout : ∀ t, (s.pcs t).early ≠ some (.close c) := by
    intro t
    rw [hinv.no_early_of_none hgil t]
    nofun
  have hunwaited : ∀ c', (⟨.removeChannel c, false⟩ : Sent) ≠ ⟨.removeChannel c', true⟩ := nofun
  rw [Sys.closeOnWorker]
  split_ifs with hclosed haccepting
  · exact h
  · exact h.close hout
  · have htable : place c = .table → ⟨.removeChannel c, true⟩ ∈ s.pending := by
      intro hplace
      have hlive : s.live = s.self.ptrs := by
        cases hw : s.workerPc with
        | receiving received => exact live_of_pc hw
        | _ =>
          rw [hw] at hpc
          cases hpc
      have hmem : c ∈ s.self.ptrs := hlive ▸ (h.table.mem_iff c).mpr hplace
      rw [Event.keepsRef, Bool.eq_false_iff.mpr hclosed, Bool.eq_false_iff.mpr haccepting,
        decide_eq_false (not_not.mpr hmem)] at hkeeps
      exact List.mem_append_right _ (of_decide_eq_true hkeeps)
    have hadds : c ∉ RtpServer.adds s.pending := by
      intro hmem
      have hplace := (h.pending.mem_iff c).mp hmem
      cases (h.opens.unknown (.inr (.inl hplace))).symm.trans hknown
    have hpushed : RefInv place (s.push ⟨.removeChannel c, false⟩) := by
      refine ⟨h.cache, h.table, ?_, h.failed, h.hands, h.counts, ?_, h.opens, h.closers, h.answers, h.used⟩
      · rw [pending_push, adds_append]
        exact (List.append_nil (RtpServer.adds s.pending)).symm ▸ h.pending
      · rw [pending_push]
        refine h.removals.push (fun c' hc' => absurd hc' (hunwaited c')) fun c' hc' => ?_
        obtain rfl := RtpServerCmd.removeChannel.inj (Sent.mk.inj hc').1
        exact ⟨hadds, htable⟩
    exact hpushed.close hout

/-- **The places, step by step.** -/
theorem RefInv.step (h : RefInv place s) (hinv : SysInv s) {event : Event} (hstep : Step s event s')
    (hfits : event.fits s) (hkeeps : event.keepsRef s = true) : ∃ place', RefInv place' s' := by
  cases hstep with
  | call t job hidle hgil hknown => exact h.call hinv hidle hgil hknown hfits
  | send t channel hidle _ hknown =>
    refine ⟨place, h.silent (by rw [hidle]; rfl) nofun nofun (fun c _ hc => ?_) nofun nofun fun c hc => ?_⟩
    · rw [hidle] at hc
      cases hc
    · obtain rfl := Option.some.inj hc
      exact h.created_of_known hknown
  | client t s' hmove => exact h.client hinv hmove
  | worker env s' hmove => exact h.worker hinv hmove
  | callback channel hpc hgil _ hknown => exact ⟨place, h.callback hinv hpc hgil hknown hkeeps⟩

end steps

/-! ### Every run -/

/-- The call with a command that a thread is in. -/
def Pc.job : Pc → Option Job
  | .idle | .sending _ => none
  | .acquiring job | .enqueueing job | .waiting job | .returning job _ | .releasing job _ => some job

/-- The commands about a channel. -/
def RtpServerCmd.about (c : ℕ) : RtpServerCmd → Bool
  | .dropChannels | .stopWorker => true
  | cmd => cmd.channel = some c

/-- No command about the channel is queued or being processed: the worker has come to none
and frees none, and no call that makes one is under way. -/
structure Sys.Settled (s : Sys) (c : ℕ) : Prop where
  sents : ∀ sent ∈ s.onTheWay, sent.cmd.about c = false
  freed : c ∉ s.workerPc.unrefs
  calls : ∀ t job, (s.pcs t).job = some job → job.cmd.channel ≠ some c

section runs

variable {place : ℕ → Place} {s : Sys} {pc : Pc} {c : ℕ} {events : List Event} {acts : List Act}

theorem job_of_makes (h : pc.makes = some c) : ∃ job, pc.job = some job ∧ job.cmd.channel = some c := by
  cases pc with
  | acquiring job | enqueueing job =>
    cases job with
    | createChannel channel => exact ⟨_, rfl, h⟩
    | setTarget _ _ | close _ | shutdown => cases h
  | releasing job status =>
    cases job with
    | createChannel channel =>
      cases status with
      | none => exact ⟨_, rfl, h⟩
      | some _ => cases h
    | setTarget _ _ | close _ | shutdown => cases h
  | idle | sending _ | waiting _ | returning _ _ => cases h

theorem job_of_closes (h : pc.closes = some c) : ∃ job, pc.job = some job ∧ job.cmd.channel = some c := by
  cases pc with
  | waiting job | returning job _ =>
    cases job with
    | close channel => exact ⟨_, rfl, h⟩
    | createChannel _ | setTarget _ _ | shutdown => cases h
  | releasing job status =>
    cases job with
    | close channel =>
      cases status with
      | none => cases h
      | some _ => exact ⟨_, rfl, h⟩
    | createChannel _ | setTarget _ _ | shutdown => cases h
  | idle | sending _ | acquiring _ | enqueueing _ => cases h

/-- The reference of a channel that nobody is at work on is with the table, or dropped. -/
theorem RefInv.settled (h : RefInv place s) (hcreated : s.created c = true) (hsettled : s.Settled c) :
    place c = .table ∨ place c = .gone := by
  have hcalls : ∀ t job, (s.pcs t).job = some job → job.cmd.channel = some c → False :=
    fun t job hjob hc => hsettled.calls t job hjob hc
  cases hplace : place c with
  | table => exact .inl rfl
  | gone => exact .inr rfl
  | away => exact absurd hplace ((h.counts.created c).mp hcreated)
  | hand =>
    obtain ⟨t, ht⟩ := (h.hands c).mp hplace
    obtain ⟨job, hjob, hc⟩ := job_of_makes ht
    exact (hcalls t job hjob hc).elim
  | closer =>
    obtain ⟨t, ht⟩ := h.closers.waits c hplace
    obtain ⟨job, hjob, hc⟩ := job_of_closes ht
    exact (hcalls t job hjob hc).elim
  | failed => exact absurd ((h.failed.mem_iff c).mpr hplace) hsettled.freed
  | pending =>
    obtain ⟨sent, hsent, hadd⟩ := List.mem_filterMap.mp ((h.pending.mem_iff c).mpr hplace)
    have habout := hsettled.sents sent (List.mem_append_right _ hsent)
    cases hcmd : sent.cmd with
    | addChannel channel =>
      rw [hcmd] at hadd habout
      exact absurd hadd (of_decide_eq_false habout)
    | removeChannel _ | setTarget _ _ | dropChannels | stopWorker =>
      rw [hcmd] at hadd
      cases hadd

theorem refInv_of_run
    (hevents : Always sysStep (fun s event => event.fits s ∧ event.keepsRef s = true) sysStart events)
    (h : run sysStep sysStart events = some (s, acts)) : ∃ place, RefInv place s := by
  have hstart : ∃ place, RefInv place sysStart := ⟨_, refInv_start⟩
  refine run_keeps (I := SysInv) (K := fun s => ∃ place, RefInv place s)
    (fun hinv hstep => hinv.step (sysStep_step hstep)) ?_ sysInv_start hstart hevents h
  rintro u event u' r hinv ⟨place, href⟩ ⟨hfits, hkeeps⟩ hstep
  exact href.step hinv (sysStep_step hstep) hfits hkeeps

/-- **References.**  In a run in which the callbacks close no channel of the table but one
that a waiting `close` is removing, in every state with no command about a channel queued or
being processed, the reference taken for the worker was dropped exactly once if the channel
is not in the table, and not at all if it is. -/
theorem sysRun_references
    (hevents : Always sysStep (fun s event => event.fits s ∧ event.keepsRef s = true) sysStart events)
    (h : run sysStep sysStart events = some (s, acts)) (hcreated : s.created c = true)
    (hsettled : s.Settled c) : s.drops c = if c ∈ s.self.ptrs then 0 else 1 := by
  obtain ⟨place, href⟩ := refInv_of_run hevents h
  -- the table is not being cleared
  have hlive : s.live = s.self.ptrs := by
    cases hpc : s.workerPc with
    | dropping sent left =>
      have hsent : sent ∈ s.onTheWay := by
        rw [onTheWay_of_pc hpc]
        exact List.mem_cons_self
      have habout := hsettled.sents sent hsent
      rw [(sysInv_of_run h).dropping sent left hpc] at habout
      cases habout
    | _ => exact live_of_pc hpc
  have hmem := href.table.mem_iff c
  rw [hlive] at hmem
  rw [href.counts.drops]
  rcases href.settled hcreated hsettled with hplace | hplace
  · rw [if_pos (hmem.mpr hplace), if_neg (by rw [hplace]; nofun)]
  · rw [if_pos hplace, if_neg fun hc => by cases hplace.symm.trans (hmem.mp hc)]

/-- The address of a new channel was none before. -/
def Event.fresh (s : Sys) : Event → Bool
  | .call _ (.createChannel channel) => !s.created channel.ptr
  | _ => true

theorem Event.fits_of_fresh {event : Event} (h : event.fresh s = true) : event.fits s := by
  unfold Event.fits
  split
  · exact .inl ((Bool.not_eq_true' _).mp h)
  · trivial

/-- With a free waiter and a free GIL no call is under way. -/
theorem SysInv.idle (h : SysInv s) (hbusy : s.cmdWaiterBusy = false) (hgil : s.gil = none) (t : ℕ) :
    s.pcs t = .idle := by
  obtain ⟨answers, hwaiter⟩ := h.waiter
  rw [hbusy] at hwaiter
  have hstage : (s.pcs t).stage = .out := hwaiter.stage_out t
  have hnone := h.gil.none_iff.mp hgil t
  cases hpc : s.pcs t with
  | idle => rfl
  | sending _ | acquiring _ | enqueueing _ | releasing _ _ =>
    rw [hpc] at hnone
    cases hnone
  | waiting _ | returning _ _ =>
    rw [hpc] at hstage
    cases hstage

/-- Nothing is under way. -/
def Sys.calm (s : Sys) : Bool :=
  !s.cmdWaiterBusy && s.gil.isNone && s.onTheWay.isEmpty && s.workerPc.unrefs.isEmpty

theorem SysInv.settled (h : SysInv s) (hcalm : s.calm = true) : s.Settled c := by
  rw [Sys.calm, Bool.and_eq_true, Bool.and_eq_true, Bool.and_eq_true] at hcalm
  obtain ⟨⟨⟨hbusy, hgil⟩, hsents⟩, hunrefs⟩ := hcalm
  refine ⟨?_, ?_, fun t job hjob => ?_⟩
  · rw [List.isEmpty_iff.mp hsents]
    nofun
  · rw [List.isEmpty_iff.mp hunrefs]
    nofun
  · rw [h.idle ((Bool.not_eq_true' _).mp hbusy) (Option.isNone_iff_eq_none.mp hgil) t] at hjob
    cases hjob

/-- A thread creates a channel, and the worker receives on it. -/
def receiveRun : List Event :=
  let env : WorkerEnv := ⟨some 1, some 1, some 1, true, [0]⟩
  [.call 0 (.createChannel ⟨1, 0, false, 0⟩), .client 0, .client 0,
    .worker env, .worker env, .worker env, .worker env, .client 0, .client 0, .client 0,
    .worker env, .worker env]

/-- A thread closes the channel while the callback does. -/
def closeRun : List Event :=
  let env : WorkerEnv := ⟨some 1, some 1, some 1, true, [0]⟩
  receiveRun ++ [.call 0 (.close 1), .client 0, .client 0, .callback 1,
    .worker env, .worker env, .worker env, .worker env, .worker env, .worker env,
    .client 0, .client 0, .client 0, .worker env, .worker env, .worker env]

theorem sysRun_references_closed :
    ∃ s acts, run sysStep sysStart closeRun = some (s, acts) ∧ s.created 1 = true ∧ s.Settled 1 ∧
      1 ∉ s.self.ptrs ∧ s.drops 1 = 1 := by
  have hstate : (run sysStep sysStart closeRun).map (fun p => (p.1.created 1, p.1.calm, p.1.self.ptrs)) =
      some (true, true, []) := by decide
  obtain ⟨⟨s, acts⟩, hrun, hs⟩ := Option.map_eq_some_iff.mp hstate
  simp only [Prod.mk.injEq] at hs
  obtain ⟨hcreated, hcalm, hptrs⟩ := hs
  have hevents : Always sysStep (fun s event => event.fresh s = true ∧ event.keepsRef s = true) sysStart
      closeRun := by decide
  have hsettled : s.Settled 1 := (sysInv_of_run hrun).settled hcalm
  have hout : 1 ∉ s.self.ptrs := by
    rw [hptrs]
    nofun
  have hdrops := sysRun_references
    (hevents.mono fun _ _ hevent => ⟨Event.fits_of_fresh hevent.1, hevent.2⟩) hrun hcreated hsettled
  rw [if_neg hout] at hdrops
  exact ⟨s, acts, hrun, hcreated, hsettled, hout, hdrops⟩

/-- The callback closes the channel that it is called for. -/
def leakRun : List Event :=
  let env : WorkerEnv := ⟨some 1, some 1, some 1, true, [0]⟩
  receiveRun ++ [.callback 1,
    .worker env, .worker env, .worker env, .worker env, .worker env, .worker env]

/-- The channel is closed and out of the table, nobody is at work on it, and the reference
was not dropped. -/
theorem leakRun_leaks :
    ∃ s acts, run sysStep sysStart leakRun = some (s, acts) ∧
      Always sysStep (fun s event => event.fits s) sysStart leakRun ∧ s.created 1 = true ∧
      s.closed 1 = true ∧ s.Settled 1 ∧ 1 ∉ s.self.ptrs ∧ s.drops 1 = 0 := by
  have hstate : (run sysStep sysStart leakRun).map (fun p =>
      (p.1.created 1, p.1.closed 1, p.1.drops 1, p.1.calm, p.1.self.ptrs)) =
      some (true, true, 0, true, []) := by decide
  obtain ⟨⟨s, acts⟩, hrun, hs⟩ := Option.map_eq_some_iff.mp hstate
  simp only [Prod.mk.injEq] at hs
  obtain ⟨hcreated, hclosed, hdrops, hcalm, hptrs⟩ := hs
  have hevents : Always sysStep (fun s event => event.fresh s = true) sysStart leakRun := by decide
  refine ⟨s, acts, hrun, hevents.mono fun _ _ hevent => Event.fits_of_fresh hevent, hcreated, hclosed,
    (sysInv_of_run hrun).settled hcalm, ?_, hdrops⟩
  rw [hptrs]
  nofun

end runs

end RtpServer
