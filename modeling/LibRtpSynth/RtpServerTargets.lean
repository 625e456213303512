/-
Which channels have a target (`python/RtpServer_mod.c`).

There are two flags `has_target`.  `send_pkt` looks at the one of the channel object, which
`set_target` sets when the worker has answered; the worker looks at the one of the state in
its table, which it sets before it answers.  A channel whose object is marked is marked in
the table too, if it is there, because no command that adds it can still come.

* `Births` — the channels on their way to the table: Python does not know them yet;
* `Targets` — the flag of the object, the answers on their way, and the flag in the table;
* `Origins` — every channel of the table was created, and every target was asked for.
-/
import LibRtpSynth.RtpServerCallbacks
import LibRtpSynth.RtpServerRefs

open Runs RtpSync

namespace RtpServer

/-! ### What a command does to the table -/

section table

variable {self self' : PyRtpServer} {out : WorkerOut} {addr : Option ℕ} {c target : ℕ}
  {cmd : RtpServerCmd} {ch : RtpChannelState}

/-- `CMD_SET_TARGET` replaces the channel, or there is none. -/
theorem processSetTarget_present
    (hstep : processCommand self addr (.setTarget c target) = some (self', out)) :
    out.status = enoent ∧ self' = self ∨
      ∃ pre ch post, self.present = pre ++ ch :: post ∧ ch.ptr = c ∧
        self'.present = pre ++ { ch with target := target, hasTarget := true } :: post := by
  have heq : processSetTarget self c target = (self', out) := Option.some.inj hstep
  rw [processSetTarget] at heq
  cases hfind : findChannelIndex self c with
  | none =>
    rw [hfind] at heq
    obtain ⟨rfl, rfl⟩ := Prod.mk.inj heq
    exact .inl ⟨rfl, rfl⟩
  | some idx =>
    rw [hfind] at heq
    obtain ⟨rfl, rfl⟩ := Prod.mk.inj heq
    obtain ⟨ch, hslot, hptr⟩ := findChannelIndex_some hfind
    obtain ⟨pre, post, hsplit, hset⟩ := set_eq_append hslot
      (some { ch with target := target, hasTarget := true })
    refine .inr ⟨pre.filterMap id, ch, post.filterMap id, ?_, hptr, ?_⟩
    · rw [PyRtpServer.present, hsplit, present_some]
    · rw [PyRtpServer.present, List.modify_eq_set, hslot]
      exact (congrArg (List.filterMap id) hset).trans (present_some _ _ _)

/-- Where a channel of the table comes from when a command was processed. -/
inductive Entry (self : PyRtpServer) : RtpServerCmd → RtpChannelState → Prop
  | stays (cmd : RtpServerCmd) (ch : RtpChannelState) (h : ch ∈ self.present) : Entry self cmd ch
  | added (ch : RtpChannelState) : Entry self (.addChannel ch) ch
  | targeted (ch : RtpChannelState) (target : ℕ) (h : ch ∈ self.present) :
      Entry self (.setTarget ch.ptr target) { ch with target := target, hasTarget := true }

theorem processCommand_present (h : CacheInv self)
    (hstep : processCommand self addr cmd = some (self', out)) (hch : ch ∈ self'.present) :
    Entry self cmd ch := by
  cases cmd with
  | addChannel channel =>
    change processAddChannel self channel addr = some (self', out) at hstep
    rw [processAddChannel] at hstep
    rcases h.alloc addr with ⟨u, i, heq, -, hpresent, hslot⟩ | heq
    · rw [heq, Option.bind_some] at hstep
      dsimp only at hstep
      rw [if_pos hslot] at hstep
      obtain ⟨rfl, rfl⟩ := Prod.mk.inj (Option.some.inj hstep)
      obtain ⟨pre, post, hsplit, hset⟩ := set_eq_append hslot (some channel)
      rw [PyRtpServer.present] at hch
      dsimp only at hch
      rw [hset, present_some] at hch
      rcases List.mem_append.mp hch with hch | hch
      · refine .stays _ _ (hpresent ▸ ?_)
        rw [PyRtpServer.present, hsplit, present_none]
        exact List.mem_append_left _ hch
      · rcases List.mem_cons.mp hch with rfl | hch
        · exact .added _
        · refine .stays _ _ (hpresent ▸ ?_)
          rw [PyRtpServer.present, hsplit, present_none]
          exact List.mem_append_right _ hch
    · rw [heq] at hstep
      obtain ⟨rfl, rfl⟩ := Prod.mk.inj (Option.some.inj hstep)
      exact .stays _ _ hch
  | removeChannel c =>
    obtain ⟨rfl, rfl⟩ := Prod.mk.inj (Option.some.inj hstep)
    refine .stays _ _ ?_
    rw [removeChannel] at hch
    cases hfind : findChannelIndex self c with
    | none =>
      rw [hfind] at hch
      exact hch
    | some idx =>
      rw [hfind] at hch
      obtain ⟨ch', hslot, -⟩ := findChannelIndex_some hfind
      obtain ⟨pre, post, hsplit, hset⟩ := set_eq_append hslot none
      change ch ∈ (self.channels.set idx none).filterMap id at hch
      rw [hset, present_none] at hch
      rw [PyRtpServer.present, hsplit, present_some]
      exact List.mem_append.mpr ((List.mem_append.mp hch).imp_right (List.mem_cons_of_mem _))
  | setTarget c target =>
    rcases processSetTarget_present hstep with ⟨-, rfl⟩ | ⟨pre, ch', post, hold, rfl, hnew⟩
    · exact .stays _ _ hch
    · rw [hnew] at hch
      rcases List.mem_append.mp hch with hch | hch
      · exact .stays _ _ (hold ▸ List.mem_append_left _ hch)
      · rcases List.mem_cons.mp hch with rfl | hch
        · exact .targeted _ _ (hold ▸ List.mem_append_right _ List.mem_cons_self)
        · exact .stays _ _ (hold ▸ List.mem_append_right _ (List.mem_cons_of_mem _ hch))
  | dropChannels | stopWorker =>
    obtain ⟨rfl, rfl⟩ := Prod.mk.inj (Option.some.inj hstep)
    cases hch

/-- A command that adds no channel brings none. -/
theorem processCommand_ptrs (h : CacheInv self)
    (hstep : processCommand self addr cmd = some (self', out))
    (hcmd : ∀ ch, cmd ≠ .addChannel ch) : self'.ptrs ⊆ self.ptrs := by
  intro c hc
  obtain ⟨ch, hch, rfl⟩ := List.mem_map.mp hc
  cases processCommand_present h hstep hch with
  | stays _ _ hold => exact List.mem_map_of_mem hold
  | added => exact absurd rfl (hcmd ch)
  | targeted ch₀ target hold => exact List.mem_map.mpr ⟨ch₀, hold, rfl⟩

/-- A channel whose target was set is in the table with it only. -/
theorem processSetTarget_targeted (h : CacheInv self')
    (hstep : processCommand self addr (.setTarget c target) = some (self', out))
    (hok : out.status = 0) (hch : ch ∈ self'.present) (hptr : ch.ptr = c) : ch.hasTarget = true := by
  rcases processSetTarget_present hstep with ⟨hstatus, -⟩ | ⟨pre, ch', post, -, rfl, hnew⟩
  · cases hok.symm.trans hstatus
  · have hmem : { ch' with target := target, hasTarget := true } ∈ self'.present := by
      rw [hnew]
      exact List.mem_append_right _ List.mem_cons_self
    rw [List.inj_on_of_nodup_map h.distinct hch hmem hptr]

/-- The rest of an iteration leaves the table. -/
theorem iteration_present (h : CacheInv self) {pfdsAddr indexAddr : Option ℕ} {tick : Bool}
    {ready : List ℕ} (hstep : iteration self pfdsAddr indexAddr tick ready = some (self', out)) :
    self'.present = self.present := by
  obtain ⟨u, ok, heq, -, hsame, -⟩ := h.refresh pfdsAddr indexAddr
  rw [iteration, heq, Option.bind_some] at hstep
  split_ifs at hstep
  · obtain ⟨rfl, -⟩ := Prod.mk.inj (Option.some.inj hstep)
    rw [PyRtpServer.present, hsame]
    rfl
  · obtain ⟨p, -, hp⟩ := Option.map_eq_some_iff.mp hstep
    obtain ⟨rfl, -⟩ := Prod.mk.inj hp
    rw [PyRtpServer.present, hsame]
    rfl

end table

/-! ### Channels on their way to the table -/

/-- The channels on their way to the table are neither known to Python nor there already. -/
structure Births (s : Sys) : Prop where
  cache : CacheInv s.self
  used : ∀ c, s.created c = false →
    s.known c = false ∧ c ∉ s.self.ptrs ∧ c ∉ adds s.pending ∧ ∀ t, (s.pcs t).channel ≠ some c
  made : ∀ t c, (s.pcs t).makes = some c → s.known c = false ∧ c ∉ s.self.ptrs ∧ c ∉ adds s.pending
  added : ∀ c ∈ adds s.pending, s.known c = false ∧ c ∉ s.self.ptrs

theorem channel_of_makes {pc : Pc} {c : ℕ} (h : pc.makes = some c) : pc.channel = some c := by
  obtain ⟨job, hjob, hc⟩ := job_of_makes h
  cases pc with
  | idle | sending _ => cases hjob
  | acquiring own | enqueueing own | waiting own | returning own _ | releasing own _ =>
    obtain rfl := Option.some.inj hjob
    cases own <;> exact hc

section births

variable {s s' : Sys} {t c : ℕ} {pc : Pc} {job : Job} {event : Event}

/-- The commands without the waiter add no channel. -/
theorem adds_eq_nil {sents : List Sent} (hsents : ∀ sent ∈ sents, sent.fromJob)
    (hasked : asked sents = []) : adds sents = [] := by
  refine List.filterMap_eq_nil_iff.mpr fun sent hsent => ?_
  rcases hsents sent hsent with ⟨job, rfl⟩ | ⟨channel, rfl⟩
  · have hmem : job.cmd ∈ asked sents :=
      List.mem_map.mpr ⟨_, List.mem_filter.mpr ⟨hsent, rfl⟩, rfl⟩
    rw [hasked] at hmem
    cases hmem
  · rfl

theorem asked_pending (h : asked s.onTheWay = []) : asked s.pending = [] := by
  rw [Sys.onTheWay, asked_append] at h
  exact (List.append_eq_nil_iff.mp h).2

theorem SysInv.adds_pending (h : SysInv s) (hasked : asked s.onTheWay = []) : adds s.pending = [] :=
  adds_eq_nil (fun sent hsent => h.sents sent (List.mem_append_right _ hsent)) (asked_pending hasked)

/-- While a thread has the waiter and no command is on its way, no channel is added. -/
theorem SysInv.adds_of_stage (h : SysInv s) (ht : (s.pcs t).stage = .taken ∨ (s.pcs t).stage = .ready) :
    adds s.pending = [] := by
  obtain ⟨answers, hwaiter⟩ := h.waiter
  exact h.adds_pending (hwaiter.of_taken ht).2.1

/-- A step after which there is nothing new on its way to the table. -/
theorem Births.keep (h : Births s) (hcache : CacheInv s'.self) (hptrs : s'.self.ptrs ⊆ s.self.ptrs)
    (hadds : adds s'.pending ⊆ adds s.pending) (hcreated : s'.created = s.created)
    (hknown : s'.known = s.known)
    (hpcs : ∀ t, ((s'.pcs t).makes = none ∨ (s'.pcs t).makes = (s.pcs t).makes) ∧
      ((s'.pcs t).channel = none ∨ (s'.pcs t).channel = (s.pcs t).channel)) : Births s' where
  cache := hcache
  used c hc := by
    rw [hcreated] at hc
    rw [hknown]
    obtain ⟨hunknown, hout, hadd, hthreads⟩ := h.used c hc
    refine ⟨hunknown, fun hmem => hout (hptrs hmem), fun hmem => hadd (hadds hmem), fun t ht => ?_⟩
    rcases (hpcs t).2 with hnone | hsame
    · cases hnone.symm.trans ht
    · exact hthreads t (hsame.symm.trans ht)
  made t c ht := by
    rcases (hpcs t).1 with hnone | hsame
    · cases hnone.symm.trans ht
    · rw [hknown]
      obtain ⟨hunknown, hout, hadd⟩ := h.made t c (hsame.symm.trans ht)
      exact ⟨hunknown, fun hmem => hout (hptrs hmem), fun hmem => hadd (hadds hmem)⟩
  added c hc := by
    rw [hknown]
    obtain ⟨hunknown, hout⟩ := h.added c (hadds hc)
    exact ⟨hunknown, fun hmem => hout (hptrs hmem)⟩

/-- The same for a thread that goes on, with no channel of its own but the one it had. -/
theorem Births.silent (h : Births s) (hself : s'.self = s.self) (hadds : adds s'.pending ⊆ adds s.pending)
    (hcreated : s'.created = s.created) (hknown : s'.known = s.known)
    (hpcs : s'.pcs = Function.update s.pcs t pc) (hmakes : pc.makes = none ∨ pc.makes = (s.pcs t).makes)
    (hchannel : pc.channel = none ∨ pc.channel = (s.pcs t).channel) : Births s' := by
  refine h.keep (hself ▸ h.cache) (hself ▸ List.Subset.refl _) hadds hcreated hknown fun t' => ?_
  rw [hpcs]
  by_cases htt : t' = t
  · rw [htt, Function.update_self]
    exact ⟨hmakes, hchannel⟩
  · rw [Function.update_of_ne htt]
    exact ⟨.inr rfl, .inr rfl⟩

/-- `create_channel` makes the object. -/
theorem Births.create (h : Births s) {channel : RtpChannelState}
    (hfresh : s.created channel.ptr = false) :
    Births (s.call t (.createChannel channel)).1 := by
  obtain ⟨hunknown, hout, hadd, hthreads⟩ := h.used channel.ptr hfresh
  refine ⟨h.cache, fun c hc => ?_, fun t' c hmakes => ?_, fun c hc => ?_⟩
  · -- another channel
    have hne : c ≠ channel.ptr := by
      rintro rfl
      cases hc.symm.trans (Function.update_self _ _ _)
    obtain ⟨hunknown', hout', hadd', hthreads'⟩ := h.used c ((Function.update_of_ne hne _ _).symm.trans hc)
    refine ⟨(Function.update_of_ne hne _ _).trans hunknown', hout', hadd', fun t' ht' => ?_⟩
    change (Function.update s.pcs t (.acquiring (.createChannel channel)) t').channel = some c at ht'
    by_cases htt : t' = t
    · rw [htt, Function.update_self] at ht'
      exact hne (Option.some.inj ht').symm
    · rw [Function.update_of_ne htt] at ht'
      exact hthreads' t' ht'
  · change (Function.update s.pcs t (.acquiring (.createChannel channel)) t').makes = some c at hmakes
    by_cases htt : t' = t
    · rw [htt, Function.update_self] at hmakes
      obtain rfl := Option.some.inj hmakes
      exact ⟨Function.update_self _ _ _, hout, hadd⟩
    · rw [Function.update_of_ne htt] at hmakes
      have hne : c ≠ channel.ptr := by
        rintro rfl
        exact hthreads t' (channel_of_makes hmakes)
      obtain ⟨hunknown', hrest⟩ := h.made t' c hmakes
      exact ⟨(Function.update_of_ne hne _ _).trans hunknown', hrest⟩
  · have hne : c ≠ channel.ptr := by
      rintro rfl
      exact hadd hc
    obtain ⟨hunknown', hout'⟩ := h.added c hc
    exact ⟨(Function.update_of_ne hne _ _).trans hunknown', hout'⟩

/-- **A call begins.** -/
theorem Births.call (h : Births s) (hknown : job.on.all s.known = true)
    (hfresh : (Event.call t job).fresh s = true) : Births (s.call t job).1 := by
  have henters : ∀ job : Job, (Pc.acquiring job).makes = none →
      (∀ c, (Pc.acquiring job).channel = some c → s.known c = true) → Births (s.enter t (.acquiring job)) := by
    intro job hmakes hchannel
    refine ⟨h.cache, fun c hc => ?_, fun t' c ht' => ?_, h.added⟩
    · obtain ⟨hunknown, hout, hadd, hthreads⟩ := h.used c hc
      refine ⟨hunknown, hout, hadd, fun t' ht' => ?_⟩
      change (Function.update s.pcs t (.acquiring job) t').channel = some c at ht'
      by_cases htt : t' = t
      · rw [htt, Function.update_self] at ht'
        cases hunknown.symm.trans (hchannel c ht')
      · rw [Function.update_of_ne htt] at ht'
        exact hthreads t' ht'
    · change (Function.update s.pcs t (.acquiring job) t').makes = some c at ht'
      by_cases htt : t' = t
      · rw [htt, Function.update_self, hmakes] at ht'
        cases ht'
      · rw [Function.update_of_ne htt] at ht'
        exact h.made t' c ht'
  cases job with
  | createChannel channel => exact h.create ((Bool.not_eq_true' _).mp hfresh)
  | setTarget channel target =>
    rw [Sys.call]
    split_ifs
    · exact h
    · exact h
    · exact henters _ rfl fun c hc => Option.some.inj hc ▸ hknown
  | close channel =>
    rw [Sys.call]
    split_ifs
    · exact h
    · exact h.keep h.cache (List.Subset.refl _) (List.Subset.refl _) rfl rfl fun _ => ⟨.inr rfl, .inr rfl⟩
    · exact henters _ rfl fun c hc => Option.some.inj hc ▸ hknown
  | shutdown =>
    rw [Sys.call]
    split_ifs
    · exact h
    · refine henters _ rfl fun c hc => ?_
      cases hc

/-- A thread sends the command that adds its channel. -/
theorem Births.sends (h : Births s) (hinv : SysInv s) {channel : RtpChannelState}
    (hpc : s.pcs t = .enqueueing (.createChannel channel)) :
    Births ((s.push ⟨.addChannel channel, true⟩).leave t (.waiting (.createChannel channel))) := by
  have hmakes : (s.pcs t).makes = some channel.ptr := by rw [hpc]; rfl
  have hadds : adds ((s.push ⟨.addChannel channel, true⟩).leave t
      (.waiting (.createChannel channel))).pending = [channel.ptr] := by
    have hnil := hinv.adds_of_stage (.inr (by rw [hpc]; rfl) : (s.pcs t).stage = .taken ∨ _)
    change adds (s.push ⟨.addChannel channel, true⟩).pending = _
    rw [pending_push, adds_append, hnil]
    rfl
  obtain ⟨hunknown, hout, -⟩ := h.made t _ hmakes
  refine ⟨h.cache, fun c hc => ?_, fun t' c ht' => ?_, fun c hc => ?_⟩
  · obtain ⟨hunknown', hout', -, hthreads⟩ := h.used c hc
    have hne : c ≠ channel.ptr := by
      rintro rfl
      exact hthreads t (channel_of_makes hmakes)
    refine ⟨hunknown', hout', ?_, fun t' ht' => ?_⟩
    · rw [hadds]
      exact fun hmem => hne (List.mem_singleton.mp hmem)
    · change (Function.update s.pcs t (.waiting (.createChannel channel)) t').channel = some c at ht'
      by_cases htt : t' = t
      · rw [htt, Function.update_self] at ht'
        exact hne (Option.some.inj ht').symm
      · rw [Function.update_of_ne htt] at ht'
        exact hthreads t' ht'
  · change (Function.update s.pcs t (.waiting (.createChannel channel)) t').makes = some c at ht'
    by_cases htt : t' = t
    · rw [htt, Function.update_self] at ht'
      cases ht'
    · rw [Function.update_of_ne htt] at ht'
      obtain ⟨hunknown', hout', -⟩ := h.made t' c ht'
      refine ⟨hunknown', hout', ?_⟩
      rw [hadds]
      intro hmem
      -- no other thread creates this channel
      rw [List.mem_singleton.mp hmem] at ht'
      exact htt (hinv.unique_makes hmakes t' ht')
  · rw [hadds] at hc
    rw [List.mem_singleton.mp hc]
    exact ⟨hunknown, hout⟩

/-- `enqueue_command`. -/
theorem Births.enqueue (h : Births s) (hinv : SysInv s) (hpc : s.pcs t = .enqueueing job) :
    Births (s.enqueueCommand t job) := by
  have hrejected : Births (s.goto t (.releasing job none)) := by
    refine h.silent rfl (List.Subset.refl _) rfl rfl rfl (.inr ?_) (.inr ?_)
    · rw [hpc]
      cases job <;> rfl
    · rw [hpc]
      rfl
  have hsent : ∀ sent : Sent, adds [sent] = [] → ∀ accepting pc, pc.makes = none →
      pc.channel = (s.pcs t).channel →
      Births (({ s.push sent with acceptingCommands := accepting }).leave t pc) := by
    intro sent hadd accepting pc hmakes hchannel
    refine h.silent rfl ?_ rfl rfl rfl (.inl hmakes) (.inr hchannel)
    change adds (s.push sent).pending ⊆ _
    rw [pending_push, adds_append, hadd, List.append_nil]
    exact List.Subset.refl _
  cases job with
  | shutdown => exact hsent _ rfl _ _ rfl (by rw [hpc]; rfl)
  | createChannel channel =>
    dsimp only [Sys.enqueueCommand]
    split_ifs
    · exact h.sends hinv hpc
    · exact hrejected
  | setTarget channel target | close channel =>
    dsimp only [Sys.enqueueCommand]
    split_ifs
    · exact hsent _ rfl _ _ rfl (by rw [hpc]; rfl)
    · exact hrejected

/-- The channel is returned to Python. -/
theorem Births.hand (h : Births s) (hinv : SysInv s) {channel : RtpChannelState}
    (hpc : s.pcs t = .releasing (.createChannel channel) (some 0)) {busy : Bool} :
    Births (({ s with cmdWaiterBusy := busy }.hand channel.ptr).leave t .idle) := by
  have hadds := hinv.adds_of_stage (.inl (by rw [hpc]; rfl) : (s.pcs t).stage = .taken ∨ _)
  have hchannel : (s.pcs t).channel = some channel.ptr := by rw [hpc]; rfl
  refine ⟨h.cache, fun c hc => ?_, fun t' c ht' => ?_, fun c hc => ?_⟩
  · obtain ⟨hunknown, hout, hadd, hthreads⟩ := h.used c hc
    have hne : c ≠ channel.ptr := by
      rintro rfl
      exact hthreads t hchannel
    refine ⟨(Function.update_of_ne hne _ _).trans hunknown, hout, hadd, fun t' ht' => ?_⟩
    change (Function.update s.pcs t .idle t').channel = some c at ht'
    by_cases htt : t' = t
    · rw [htt, Function.update_self] at ht'
      cases ht'
    · rw [Function.update_of_ne htt] at ht'
      exact hthreads t' ht'
  · change (Function.update s.pcs t .idle t').makes = some c at ht'
    by_cases htt : t' = t
    · rw [htt, Function.update_self] at ht'
      cases ht'
    · -- the thread that creates a channel has the GIL, and this one has it
      rw [Function.update_of_ne htt] at ht'
      exact absurd (hinv.gil.unique (by rw [hpc]; rfl) (hasGil_of_makes ht')) htt
  · change c ∈ adds s.pending at hc
    rw [hadds] at hc
    cases hc

/-- **A client goes on.** -/
theorem Births.client (h : Births s) (hinv : SysInv s) (hmove : ClientMove s t s') : Births s' := by
  have hends : ∀ {u : Sys}, u.self = s.self → u.pending = s.pending → u.created = s.created →
      u.known = s.known → u.pcs = s.pcs → Births (u.leave t .idle) := by
    intro u hself hpending hcreated hknown hpcs
    refine h.silent hself ?_ hcreated hknown (leave_pcs hpcs) (.inl rfl) (.inl rfl)
    change adds u.pending ⊆ _
    rw [hpending]
    exact List.Subset.refl _
  cases hmove with
  | sent channel hpc => exact hends rfl rfl rfl rfl rfl
  | busy job hpc _ _ => cases job <;> exact hends rfl rfl rfl rfl rfl
  | acquired job hpc _ _ =>
    refine h.silent rfl (List.Subset.refl _) rfl rfl rfl (.inr ?_) (.inr ?_)
    · rw [hpc]
      cases job <;> rfl
    · rw [hpc]
      rfl
  | enqueued job hpc _ => exact h.enqueue hinv hpc
  | slept => exact h
  | woke job hpc _ =>
    exact h.silent rfl (List.Subset.refl _) rfl rfl rfl (.inl rfl) (.inr (by rw [hpc]; rfl))
  | back job status hpc _ =>
    refine h.silent rfl (List.Subset.refl _) rfl rfl rfl (.inl ?_) (.inr (by rw [hpc]; rfl))
    cases job <;> rfl
  | released job status hpc _ =>
    cases job with
    | createChannel channel =>
      cases status with
      | none => exact hends rfl rfl rfl rfl rfl
      | some status =>
        cases status with
        | zero => exact h.hand hinv hpc
        | succ _ => exact hends rfl rfl rfl rfl rfl
    | close channel =>
      cases status with
      | none => exact hends rfl rfl rfl rfl rfl
      | some status =>
        cases status with
        | zero => exact hends rfl rfl rfl rfl rfl
        | succ _ => exact hends rfl rfl rfl rfl rfl
    | setTarget _ _ | shutdown => exact hends rfl rfl rfl rfl rfl

/-- The worker comes to a command: those with the waiter that follow add no channel. -/
theorem SysInv.adds_rest (h : SysInv s) {sent : Sent} {batch : List Sent} (hpc : s.workerPc = .atCmd)
    (hbatch : s.batch = sent :: batch) (hwaiter : sent.waiter = true) :
    adds (batch ++ s.queue) = [] := by
  have hway : s.onTheWay = sent :: (batch ++ s.queue) := by
    rw [onTheWay_of_pc hpc, hbatch]
    rfl
  have hasked : asked s.onTheWay = sent.cmd :: asked (batch ++ s.queue) := by
    rw [hway, asked, List.filter_cons_of_pos hwaiter]
    rfl
  have hone := (h.waits_of_asked (hasked ▸ List.mem_cons_self : sent.cmd ∈ asked s.onTheWay)).1
  refine adds_eq_nil (fun sent' hsent => h.sents sent' ?_) ?_
  · rw [hway]
    exact List.mem_cons_of_mem _ hsent
  · exact (List.cons.inj (hasked.symm.trans hone)).2

/-- A command is processed. -/
theorem Births.processes (h : Births s) (hinv : SysInv s) {sent : Sent} {batch : List Sent}
    {addr : Option ℕ} {self : PyRtpServer} {out : WorkerOut} {pc : WorkerPc}
    (hpc : s.workerPc = .atCmd) (hbatch : s.batch = sent :: batch)
    (hself : processCommand s.self addr sent.cmd = some (self, out)) :
    Births ({ s with batch := batch, self := self }.goWorker pc) := by
  have hsent : sent.fromJob := hinv.sents sent (by
    rw [onTheWay_of_pc hpc, hbatch]
    exact List.mem_cons_self)
  have hpending : s.pending = sent :: (batch ++ s.queue) := by
    rw [Sys.pending, hbatch]
    rfl
  have hold : ∀ ch, sent.cmd = .addChannel ch → ch.ptr ∈ adds s.pending := by
    intro ch hcmd
    rw [hpending]
    exact List.mem_filterMap.mpr ⟨sent, List.mem_cons_self, by rw [hcmd]⟩
  obtain ⟨self', out', heq, hcache, -, -⟩ := processCommand_spec h.cache addr
    fun ch hcmd => (h.added ch.ptr (hold ch hcmd)).2
  obtain ⟨rfl, rfl⟩ := Prod.mk.inj (Option.some.inj (heq.symm.trans hself))
  have hsub : adds (batch ++ s.queue) ⊆ adds s.pending := by
    rw [hpending, ← List.singleton_append, adds_append [sent]]
    exact List.subset_append_right _ _
  by_cases hadd : ∃ ch, sent.cmd = .addChannel ch
  · obtain ⟨ch, hcmd⟩ := hadd
    have hrest : adds (batch ++ s.queue) = [] := by
      refine hinv.adds_rest hpc hbatch ?_
      rcases hsent with ⟨job, rfl⟩ | ⟨channel, rfl⟩
      · rfl
      · cases hcmd
    have hptrs : ∀ c ∈ self'.ptrs, c = ch.ptr ∨ c ∈ s.self.ptrs := by
      intro c hc
      obtain ⟨ch', hch', rfl⟩ := List.mem_map.mp hc
      have hentry := processCommand_present h.cache heq hch'
      rw [hcmd] at hentry
      cases hentry with
      | stays _ _ hold => exact .inr (List.mem_map_of_mem hold)
      | added => exact .inl rfl
    have hpend := hold ch hcmd
    refine ⟨hcache, fun c hc => ?_, fun t c ht => ?_, fun c hc => ?_⟩
    · obtain ⟨hunknown, hout, hadd, hthreads⟩ := h.used c hc
      refine ⟨hunknown, fun hmem => ?_, fun hmem => hadd (hsub hmem), hthreads⟩
      rcases hptrs c hmem with rfl | hmem
      · exact hadd hpend
      · exact hout hmem
    · obtain ⟨hunknown, hout, hadd⟩ := h.made t c ht
      refine ⟨hunknown, fun hmem => ?_, fun hmem => hadd (hsub hmem)⟩
      rcases hptrs c hmem with rfl | hmem
      · exact hadd hpend
      · exact hout hmem
    · change c ∈ adds (batch ++ s.queue) at hc
      rw [hrest] at hc
      cases hc
  · exact h.keep hcache (processCommand_ptrs h.cache heq (not_exists.mp hadd)) hsub rfl rfl
      fun _ => ⟨.inr rfl, .inr rfl⟩

/-- **The worker goes on.** -/
theorem Births.worker (h : Births s) (hinv : SysInv s) (hmove : WorkerMove s s') : Births s' := by
  have hstays : ∀ {u : Sys}, CacheInv u.self → u.self.ptrs ⊆ s.self.ptrs → u.pending = s.pending →
      u.created = s.created → u.known = s.known → u.pcs = s.pcs → Births u := by
    intro u hcache hptrs hpending hcreated hknown hpcs
    exact h.keep hcache hptrs (by rw [hpending]; exact List.Subset.refl _) hcreated hknown
      fun _ => ⟨.inr (by rw [hpcs]), .inr (by rw [hpcs])⟩
  have hsame : ∀ {u : Sys}, u.self = s.self → u.pending = s.pending →
      u.created = s.created → u.known = s.known → u.pcs = s.pcs → Births u := by
    intro u hself
    exact hstays (hself ▸ h.cache) (hself ▸ List.Subset.refl _)
  cases hmove with
  | detached hpc _ =>
    refine hsame rfl ?_ rfl rfl rfl
    rw [Sys.pending, Sys.pending, hinv.batch (by rw [hpc]; rfl)]
    exact List.append_nil _
  | finished _ _ | dropped _ _ _ _ _ | completed _ _ _ _ | freed _ _ _ _ | next _ | received _ _ _
  | again _ => exact hsame rfl rfl rfl rfl rfl
  | cleared sent batch hpc hbatch _ hcmd =>
    refine h.keep h.cache (List.Subset.refl _) ?_ rfl rfl fun _ => ⟨.inr rfl, .inr rfl⟩
    change adds (batch ++ s.queue) ⊆ adds (s.batch ++ s.queue)
    rw [hbatch, List.cons_append, ← List.singleton_append, adds_append [sent]]
    exact List.subset_append_right _ _
  | processed sent batch addr self out hpc hbatch _ _ hself => exact h.processes hinv hpc hbatch hself
  | unlocked sent hpc =>
    exact hstays (CacheInv.dropChannels s.self) (List.nil_subset _) rfl rfl rfl rfl
  | polled env self out hpc hself =>
    obtain ⟨hcache, hptrs⟩ := iteration_ptrs h.cache hself
    exact hstays hcache (by rw [← hptrs]; exact List.Subset.refl _) rfl rfl rfl rfl

/-- **One step.** -/
theorem Births.step (h : Births s) (hinv : SysInv s) (hstep : Step s event s')
    (hfresh : event.fresh s = true) : Births s' := by
  cases hstep with
  | call t job _ _ hknown => exact h.call hknown hfresh
  | send t channel _ _ hknown =>
    refine ⟨h.cache, fun c hc => ?_, fun t' c ht' => ?_, h.added⟩
    · obtain ⟨hunknown, hout, hadd, hthreads⟩ := h.used c hc
      refine ⟨hunknown, hout, hadd, fun t' ht' => ?_⟩
      change (Function.update s.pcs t (.sending channel) t').channel = some c at ht'
      by_cases htt : t' = t
      · rw [htt, Function.update_self] at ht'
        rw [Option.some.inj ht', hunknown] at hknown
        cases hknown
      · rw [Function.update_of_ne htt] at ht'
        exact hthreads t' ht'
    · change (Function.update s.pcs t (.sending channel) t').makes = some c at ht'
      by_cases htt : t' = t
      · rw [htt, Function.update_self] at ht'
        cases ht'
      · rw [Function.update_of_ne htt] at ht'
        exact h.made t' c ht'
  | client t _ hmove => exact h.client hinv hmove
  | worker env _ hmove => exact h.worker hinv hmove
  | callback channel _ _ _ _ =>
    rw [Sys.closeOnWorker]
    split_ifs
    · exact h
    · exact h.keep h.cache (List.Subset.refl _) (List.Subset.refl _) rfl rfl fun _ => ⟨.inr rfl, .inr rfl⟩
    · refine h.keep h.cache (List.Subset.refl _) ?_ rfl rfl fun _ => ⟨.inr rfl, .inr rfl⟩
      change adds (s.push ⟨.removeChannel channel, false⟩).pending ⊆ _
      rw [pending_push, adds_append]
      exact List.append_subset.mpr ⟨List.Subset.refl _, List.nil_subset _⟩

end births

/-! ### The two flags -/

/-- Python knows the channel, and the table does not have it without a target. -/
def Targeted (s : Sys) (c : ℕ) : Prop :=
  s.known c = true ∧ ∀ ch ∈ s.self.present, ch.ptr = c → ch.hasTarget = true

/-- `has_target` of the channel objects after a step: `create_channel` clears it, and
`set_target` sets it at its end. -/
def Event.marks (s : Sys) (marked : ℕ → Bool) : Event → ℕ → Bool
  | .call _ (.createChannel channel) => Function.update marked channel.ptr false
  | .client t =>
    match s.pcs t with
    | .releasing (.setTarget channel _) (some 0) => Function.update marked channel true
    | _ => marked
  | _ => marked

/-- A channel whose object is marked is marked in the table, if it is there; and so is one
whose `set_target` was a success, from the moment the worker knows. -/
structure Targets (marked : ℕ → Bool) (s : Sys) : Prop where
  marked : ∀ c, marked c = true → Targeted s c
  jobs : ∀ t c target, (s.pcs t).job = some (.setTarget c target) → s.known c = true
  answered : ∀ t c target, (s.pcs t).answer = some (.setTarget c target, 0) → Targeted s c
  ready : ∀ t c target, s.pcs t = .waiting (.setTarget c target) → s.cmdWaiter.done = true →
    s.cmdWaiter.status = 0 → Targeted s c
  completing : ∀ c target waiter unrefs,
    s.workerPc = .completing ⟨.setTarget c target, waiter⟩ 0 unrefs → Targeted s c

section targets

variable {marked : ℕ → Bool} {s s' : Sys} {t c : ℕ} {pc : Pc} {job : Job} {event : Event}

/-- The channels of the table that are new have a target, or they are none that Python knows. -/
theorem Targeted.mono (h : Targeted s c) (hknown : s.known c = true → s'.known c = true)
    (hself : ∀ ch ∈ s'.self.present, ch ∈ s.self.present ∨ ch.ptr ≠ c ∨ ch.hasTarget = true) :
    Targeted s' c := by
  refine ⟨hknown h.1, fun ch hch hptr => ?_⟩
  rcases hself ch hch with hold | hne | htarget
  · exact h.2 ch hold hptr
  · exact absurd hptr hne
  · exact htarget

theorem Targeted.congr (h : Targeted s c) (hknown : s'.known = s.known) (hself : s'.self = s.self) :
    Targeted s' c :=
  h.mono (by rw [hknown]; exact id) fun ch hch => .inl (hself ▸ hch)

/-- A thread goes on. -/
theorem Targets.silent (h : Targets marked s) (hkeep : ∀ c, Targeted s c → Targeted s' c)
    (hknown : ∀ c, s.known c = true → s'.known c = true) (hworker : s'.workerPc = s.workerPc)
    (hpcs : s'.pcs = Function.update s.pcs t pc)
    (hwaiter : s'.cmdWaiter.done = true → s'.cmdWaiter = s.cmdWaiter)
    (hjob : ∀ c target, pc.job = some (.setTarget c target) → s.known c = true)
    (hanswer : ∀ c target, pc.answer = some (.setTarget c target, 0) → Targeted s c)
    (hready : ∀ c target, pc = .waiting (.setTarget c target) → s.cmdWaiter.done = false) :
    Targets marked s' where
  marked c hc := hkeep c (h.marked c hc)
  jobs t' c target ht' := by
    rw [hpcs] at ht'
    by_cases htt : t' = t
    · rw [htt, Function.update_self] at ht'
      exact hknown c (hjob c target ht')
    · rw [Function.update_of_ne htt] at ht'
      exact hknown c (h.jobs t' c target ht')
  answered t' c target ht' := by
    rw [hpcs] at ht'
    by_cases htt : t' = t
    · rw [htt, Function.update_self] at ht'
      exact hkeep c (hanswer c target ht')
    · rw [Function.update_of_ne htt] at ht'
      exact hkeep c (h.answered t' c target ht')
  ready t' c target ht' hdone hstatus := by
    have hsame := hwaiter hdone
    rw [hsame] at hdone hstatus
    rw [hpcs] at ht'
    by_cases htt : t' = t
    · rw [htt, Function.update_self] at ht'
      cases (hready c target ht').symm.trans hdone
    · rw [Function.update_of_ne htt] at ht'
      exact hkeep c (h.ready t' c target ht' hdone hstatus)
  completing c target waiter unrefs hpc := by
    rw [hworker] at hpc
    exact hkeep c (h.completing c target waiter unrefs hpc)

/-- A thread comes to a place without a `set_target` that has its answer. -/
theorem Targets.goes (h : Targets marked s) (hknown : s'.known = s.known) (hself : s'.self = s.self)
    (hworker : s'.workerPc = s.workerPc) (hpcs : s'.pcs = Function.update s.pcs t pc)
    (hwaiter : s'.cmdWaiter.done = true → s'.cmdWaiter = s.cmdWaiter)
    (hjob : pc.job = none ∨ pc.job = (s.pcs t).job) (hanswer : pc.answer = none)
    (hready : ∀ job, pc = .waiting job → s.cmdWaiter.done = false) : Targets marked s' := by
  refine h.silent (fun c hc => hc.congr hknown hself) (by rw [hknown]; exact fun _ => id) hworker hpcs
    hwaiter (fun c target hc => ?_) (fun c target hc => ?_) fun c target => hready _
  · rcases hjob with hnone | hsame
    · cases hnone.symm.trans hc
    · exact h.jobs t c target (hsame.symm.trans hc)
  · cases hanswer.symm.trans hc

/-- `create_channel` makes the object, which has no target. -/
theorem Targets.create (h : Targets marked s) (hbirths : Births s) {channel : RtpChannelState}
    (hfresh : s.created channel.ptr = false) :
    Targets (Function.update marked channel.ptr false) (s.call t (.createChannel channel)).1 := by
  have hother : ∀ c, s.known c = true → (s.call t (.createChannel channel)).1.known c = true := by
    intro c hc
    have hne : c ≠ channel.ptr := by
      rintro rfl
      cases (hbirths.used _ hfresh).1.symm.trans hc
    exact (Function.update_of_ne hne _ _).trans hc
  have hpcs : (s.call t (.createChannel channel)).1.pcs =
      Function.update s.pcs t (.acquiring (.createChannel channel)) := rfl
  have hsame : Targets marked (s.call t (.createChannel channel)).1 :=
    h.silent (fun c hc => hc.mono (hother c) fun ch hch => .inl hch) hother rfl hpcs (fun _ => rfl)
      nofun nofun nofun
  refine ⟨fun c hc => hsame.marked c ?_, hsame.jobs, hsame.answered, hsame.ready, hsame.completing⟩
  by_cases hcc : c = channel.ptr
  · rw [hcc, Function.update_self] at hc
    cases hc
  · rwa [Function.update_of_ne hcc] at hc

/-- **A call begins.** -/
theorem Targets.call (h : Targets marked s) (hbirths : Births s) (hknown : job.on.all s.known = true)
    (hfresh : (Event.call t job).fresh s = true) :
    Targets ((Event.call t job).marks s marked) (s.call t job).1 := by
  have henters : ∀ job : Job, (∀ c target, job = .setTarget c target → s.known c = true) →
      Targets marked (s.enter t (.acquiring job)) := by
    intro job hjob
    have hpcs : (s.enter t (.acquiring job)).pcs = Function.update s.pcs t (.acquiring job) := rfl
    exact h.silent (fun c hc => hc.congr rfl rfl) (fun _ => id) rfl hpcs (fun _ => rfl)
      (fun c target hc => hjob c target (Option.some.inj hc)) nofun nofun
  cases job with
  | createChannel channel => exact h.create hbirths ((Bool.not_eq_true' _).mp hfresh)
  | setTarget channel target =>
    rw [Sys.call]
    split_ifs
    · exact h
    · exact h
    · refine henters _ fun c target' heq => ?_
      obtain ⟨rfl, -⟩ := Job.setTarget.inj heq
      exact hknown
  | close channel =>
    rw [Sys.call]
    split_ifs
    · exact h
    · exact ⟨fun c hc => h.marked c hc, h.jobs, h.answered, h.ready, h.completing⟩
    · refine henters _ fun c target heq => ?_
      cases heq
  | shutdown =>
    rw [Sys.call]
    split_ifs
    · exact h
    · refine henters _ fun c target heq => ?_
      cases heq

/-- `enqueue_command`. -/
theorem Targets.enqueue (h : Targets marked s) (hinv : SysInv s) (hpc : s.pcs t = .enqueueing job) :
    Targets marked (s.enqueueCommand t job) := by
  have hdone := hinv.not_done hpc
  have hrejected : Targets marked (s.goto t (.releasing job none)) :=
    h.goes rfl rfl rfl rfl (fun _ => rfl) (.inr (by rw [hpc]; rfl)) rfl nofun
  have hsent : ∀ sent accepting,
      Targets marked (({ s.push sent with acceptingCommands := accepting }).leave t (.waiting job)) :=
    fun sent accepting =>
      h.goes rfl rfl rfl rfl (fun _ => rfl) (.inr (by rw [hpc]; rfl)) rfl fun _ _ => hdone
  cases job with
  | shutdown => exact hsent _ _
  | createChannel _ | setTarget _ _ | close _ =>
    dsimp only [Sys.enqueueCommand]
    split_ifs
    · exact hsent _ _
    · exact hrejected

/-- The end of a call changes no table, and takes no channel from Python. -/
theorem finish_kept (s : Sys) (status : Option ℕ) (job : Job) :
    (s.finish status job).self = s.self ∧
      ∀ c, s.known c = true → (s.finish status job).known c = true := by
  cases job with
  | setTarget _ _ | shutdown => exact ⟨rfl, fun _ => id⟩
  | close _ =>
    dsimp only [Sys.finish]
    split <;> exact ⟨rfl, fun _ => id⟩
  | createChannel channel =>
    dsimp only [Sys.finish]
    split
    · exact ⟨rfl, fun _ => id⟩
    · refine ⟨rfl, fun c hc => ?_⟩
      change Function.update s.known channel.ptr true c = true
      by_cases hcc : c = channel.ptr
      · rw [hcc, Function.update_self]
      · rwa [Function.update_of_ne hcc]
    · exact ⟨rfl, fun _ => id⟩

/-- Neither does a client. -/
theorem ClientMove.kept (h : ClientMove s t s') :
    s'.self = s.self ∧ ∀ c, s.known c = true → s'.known c = true := by
  cases h with
  | sent _ _ | acquired _ _ _ _ | slept | woke _ _ _ | back _ _ _ _ => exact ⟨rfl, fun _ => id⟩
  | busy job _ _ _ => cases job <;> exact ⟨rfl, fun _ => id⟩
  | enqueued job _ _ =>
    cases job with
    | shutdown => exact ⟨rfl, fun _ => id⟩
    | createChannel _ | setTarget _ _ | close _ =>
      dsimp only [Sys.enqueueCommand]
      split_ifs <;> exact ⟨rfl, fun _ => id⟩
  | released job status _ _ => exact finish_kept _ status job

theorem Targeted.client (h : Targeted s c) (hmove : ClientMove s t s') : Targeted s' c :=
  h.mono (hmove.kept.2 c) fun _ hch => .inl (hmove.kept.1 ▸ hch)

/-- A call ends. -/
theorem Targets.ends (h : Targets marked s) (hkeep : ∀ c, Targeted s c → Targeted s' c)
    (hknown : ∀ c, s.known c = true → s'.known c = true) (hworker : s'.workerPc = s.workerPc)
    (hpcs : s'.pcs = Function.update s.pcs t .idle) (hwaiter : s'.cmdWaiter = s.cmdWaiter) :
    Targets marked s' :=
  h.silent hkeep hknown hworker hpcs (fun _ => hwaiter) nofun nofun nofun

/-- **A client goes on**, and marks the object when its `set_target` ends. -/
theorem Targets.client (h : Targets marked s) (hinv : SysInv s) (hmove : ClientMove s t s') :
    Targets ((Event.client t).marks s marked) s' := by
  have hkeep : ∀ c, Targeted s c → Targeted s' c := fun c hc => hc.client hmove
  have hsame : Targets marked s' := by
    cases hmove with
    | sent _ _ => exact h.ends hkeep (fun _ => id) rfl rfl rfl
    | busy job _ _ _ => cases job <;> exact h.ends hkeep (fun _ => id) rfl rfl rfl
    | acquired job hpc _ _ => exact h.goes rfl rfl rfl rfl nofun (.inr (by rw [hpc]; rfl)) rfl nofun
    | enqueued job hpc _ => exact h.enqueue hinv hpc
    | slept => exact h
    | woke job hpc hdone =>
      refine h.silent hkeep (fun _ => id) rfl rfl (fun _ => rfl)
        (fun c target hc => h.jobs t c target (by rw [hpc]; exact hc)) (fun c target hc => ?_) nofun
      obtain ⟨hcmd, hstatus⟩ := Prod.mk.inj (Option.some.inj hc)
      cases job with
      | setTarget c' target' =>
        obtain ⟨rfl, rfl⟩ := RtpServerCmd.setTarget.inj hcmd
        exact h.ready t c' target' hpc hdone hstatus
      | createChannel _ | close _ | shutdown => cases hcmd
    | back job status hpc _ =>
      exact h.silent hkeep (fun _ => id) rfl rfl (fun _ => rfl)
        (fun c target hc => h.jobs t c target (by rw [hpc]; exact hc))
        (fun c target hc => h.answered t c target (by rw [hpc]; exact hc)) nofun
    | released job status _ _ =>
      have hmarked := marked_finish { s with cmdWaiterBusy := false } status job
      have hkept := (finish_kept { s with cmdWaiterBusy := false } status job).2
      exact h.ends hkeep hkept hmarked.workerPc (leave_pcs hmarked.pcs) hmarked.cmdWaiter
  rw [Event.marks]
  split
  · next channel target heq =>
    have htargeted := hkeep channel (h.answered t channel target (by rw [heq]; rfl))
    refine ⟨fun c hc => ?_, hsame.jobs, hsame.answered, hsame.ready, hsame.completing⟩
    by_cases hcc : c = channel
    · rw [hcc]
      exact htargeted
    · rw [Function.update_of_ne hcc] at hc
      exact hsame.marked c hc
  · exact hsame

/-- What a command leaves of the channels that Python knows. -/
theorem Targeted.processes (h : Targeted s c) (hbirths : Births s) {sent : Sent} {batch : List Sent}
    {addr : Option ℕ} {self : PyRtpServer} {out : WorkerOut} {wpc : WorkerPc}
    (hbatch : s.batch = sent :: batch) (hself : processCommand s.self addr sent.cmd = some (self, out)) :
    Targeted ({ s with batch := batch, self := self }.goWorker wpc) c := by
  refine h.mono id fun ch hch => ?_
  have hentry := processCommand_present hbirths.cache hself hch
  generalize hcmd : sent.cmd = cmd at hentry
  cases hentry with
  | stays _ _ hold => exact .inl hold
  | added =>
    -- Python does not know a channel that is added
    refine .inr (.inl fun hptr => ?_)
    have hadd : ch.ptr ∈ adds s.pending := by
      refine List.mem_filterMap.mpr ⟨sent, ?_, by rw [hcmd]⟩
      rw [Sys.pending, hbatch]
      exact List.mem_cons_self
    rw [hptr] at hadd
    cases (hbirths.added c hadd).1.symm.trans h.1
  | targeted => exact .inr (.inr rfl)

/-- The worker goes on and leaves the commands that it completes. -/
theorem Targets.work (h : Targets marked s) (hkeep : ∀ c, Targeted s c → Targeted s' c)
    (hknown : s'.known = s.known) (hpcs : s'.pcs = s.pcs) (hwaiter : s'.cmdWaiter = s.cmdWaiter)
    (hcompleting : ∀ c target waiter unrefs,
      s'.workerPc = .completing ⟨.setTarget c target, waiter⟩ 0 unrefs → Targeted s' c) :
    Targets marked s' where
  marked c hc := hkeep c (h.marked c hc)
  jobs t c target ht := by
    rw [hpcs] at ht
    rw [hknown]
    exact h.jobs t c target ht
  answered t c target ht := by
    rw [hpcs] at ht
    exact hkeep c (h.answered t c target ht)
  ready t c target ht hdone hstatus := by
    rw [hwaiter] at hdone hstatus
    rw [hpcs] at ht
    exact hkeep c (h.ready t c target ht hdone hstatus)
  completing := hcompleting

/-- The thread whose `set_target` the worker is at. -/
theorem SysInv.waits_setTarget (h : SysInv s) {sent : Sent} {target : ℕ} (hsent : sent ∈ s.onTheWay)
    (hcmd : sent.cmd = .setTarget c target) : ∃ t, s.pcs t = .waiting (.setTarget c target) := by
  have hwaiter : sent.waiter = true := by
    rcases h.sents sent hsent with ⟨job, rfl⟩ | ⟨channel, rfl⟩
    · rfl
    · cases hcmd
  have hmem : sent.cmd ∈ asked s.onTheWay := List.mem_map_of_mem (List.mem_filter.mpr ⟨hsent, hwaiter⟩)
  obtain ⟨-, t, job, hpc, hjob⟩ := h.waits_of_asked hmem
  rw [hcmd] at hjob
  cases job with
  | setTarget c' target' =>
    obtain ⟨rfl, rfl⟩ := RtpServerCmd.setTarget.inj hjob
    exact ⟨t, hpc⟩
  | createChannel _ | close _ | shutdown => cases hjob

/-- `rtp_sync_waiter_complete`. -/
theorem Targets.completes (h : Targets marked s) (hinv : SysInv s) {sent : Sent} {status : ℕ}
    {unrefs : List ℕ} (hpc : s.workerPc = .completing sent status unrefs) :
    Targets marked ({ s with
      cmdWaiter := if sent.waiter then waiterComplete status else s.cmdWaiter }.goWorker
        (.freeing unrefs)) := by
  refine ⟨fun c hc => h.marked c hc, h.jobs, h.answered, fun t c target ht hdone hstatus => ?_, nofun⟩
  change s.pcs t = _ at ht
  show Targeted s c
  change (if sent.waiter then waiterComplete status else s.cmdWaiter).done = true at hdone
  change (if sent.waiter then waiterComplete status else s.cmdWaiter).status = 0 at hstatus
  cases hwaiter : sent.waiter with
  | false =>
    rw [hwaiter] at hdone hstatus
    exact h.ready t c target ht hdone hstatus
  | true =>
    rw [hwaiter] at hstatus
    obtain rfl : status = 0 := hstatus
    -- the thread that waits is the one whose command this is
    have hasked : sent.cmd ∈ asked s.onTheWay := by
      rw [onTheWay_of_pc hpc]
      exact List.mem_map_of_mem (List.mem_filter.mpr ⟨List.mem_cons_self, hwaiter⟩)
    obtain ⟨-, t', job, hpc', hjob⟩ := hinv.waits_of_asked hasked
    obtain ⟨answers, hinvw⟩ := hinv.waiter
    have htt : t' = t := by
      by_contra hne
      have hout := hinvw.out_of_ne (t := t) (by
        show (s.pcs t).stage ≠ .out
        rw [ht]
        nofun) t' hne
      change (s.pcs t').stage = .out at hout
      rw [hpc'] at hout
      cases hout
    rw [htt, ht] at hpc'
    obtain rfl := Pc.waiting.inj hpc'
    have heq : sent = ⟨.setTarget c target, true⟩ := by
      cases sent
      cases hwaiter
      cases hjob
      rfl
    rw [heq] at hpc
    exact h.completing c target true unrefs hpc

/-- **The worker goes on.** -/
theorem Targets.worker (h : Targets marked s) (hinv : SysInv s) (hbirths : Births s)
    (hmove : WorkerMove s s') : Targets marked s' := by
  have hquiet : ∀ {u : Sys}, u.self = s.self → u.known = s.known → u.pcs = s.pcs →
      u.cmdWaiter = s.cmdWaiter → (∀ sent status unrefs, u.workerPc ≠ .completing sent status unrefs) →
      Targets marked u := fun hself hknown hpcs hwaiter hpc =>
    h.work (fun c hc => hc.congr hknown hself) hknown hpcs hwaiter
      fun c target waiter unrefs heq => absurd heq (hpc _ _ _)
  cases hmove with
  | detached _ _ | finished _ _ | cleared _ _ _ _ _ _ | dropped _ _ _ _ _ | freed _ _ _ _ | next _
  | received _ _ _ | again _ => exact hquiet rfl rfl rfl rfl nofun
  | processed sent batch addr self out hpc hbatch _ _ hself =>
    have hkeep : ∀ c, Targeted s c → Targeted ({ s with batch := batch, self := self }.goWorker
        (.completing sent out.status out.unrefs)) c := fun c hc => hc.processes hbirths hbatch hself
    refine h.work hkeep rfl rfl rfl fun c target waiter unrefs heq => ?_
    obtain ⟨rfl, hok, -⟩ := WorkerPc.completing.inj heq
    obtain ⟨t, ht⟩ := hinv.waits_setTarget (by
      rw [onTheWay_of_pc hpc, hbatch]
      exact List.mem_cons_self) rfl
    refine ⟨h.jobs t c target (by rw [ht]; rfl), fun ch hch hptr => ?_⟩
    have hcache : CacheInv self := by
      have hnone : ∀ channel, RtpServerCmd.setTarget c target = .addChannel channel →
          channel.ptr ∉ s.self.present.map RtpChannelState.ptr := nofun
      obtain ⟨self', out', heq, hcache, -, -⟩ := processCommand_spec hbirths.cache addr hnone
      obtain ⟨rfl, -⟩ := Prod.mk.inj (Option.some.inj (heq.symm.trans hself))
      exact hcache
    exact processSetTarget_targeted hcache hself hok hch hptr
  | unlocked sent hpc =>
    refine h.work (fun c hc => hc.mono id fun ch hch => absurd hch List.not_mem_nil) rfl rfl rfl
      fun c target waiter unrefs heq => ?_
    obtain ⟨rfl, -, -⟩ := WorkerPc.completing.inj heq
    cases hinv.dropping _ _ hpc
  | completed sent status unrefs hpc => exact h.completes hinv hpc
  | polled env self out hpc hself =>
    have hpresent := iteration_present hbirths.cache hself
    exact h.work (fun c hc => hc.mono id fun ch hch => .inl (by rwa [← hpresent])) rfl rfl rfl nofun

/-- **One step.** -/
theorem Targets.step (h : Targets marked s) (hinv : SysInv s) (hbirths : Births s)
    (hstep : Step s event s') (hfresh : event.fresh s = true) : Targets (event.marks s marked) s' := by
  cases hstep with
  | call t job _ _ hknown => exact h.call hbirths hknown hfresh
  | send t channel _ _ _ =>
    have hpcs : (s.enter t (.sending channel)).pcs = Function.update s.pcs t (.sending channel) := rfl
    exact h.goes rfl rfl rfl hpcs (fun _ => rfl) (.inl rfl) rfl nofun
  | client t _ hmove => exact h.client hinv hmove
  | worker env _ hmove => exact h.worker hinv hbirths hmove
  | callback channel _ _ _ _ =>
    rw [Sys.closeOnWorker]
    split_ifs
    · exact h
    · exact ⟨h.marked, h.jobs, h.answered, h.ready, h.completing⟩
    · exact ⟨h.marked, h.jobs, h.answered, h.ready, h.completing⟩

end targets

/-! ### Where channels and targets come from -/

/-- The calls made by an event. -/
def Event.calls : Event → List Job
  | .call _ job => [job]
  | _ => []

/-- After the calls `calls`: the channels of the table were created, without a target, and
their targets are among those asked for. -/
structure Origins (calls : List Job) (s : Sys) : Prop where
  blank : ∀ ch, Job.createChannel ch ∈ calls → ch.hasTarget = false
  jobs : ∀ t job, (s.pcs t).job = some job → job ∈ calls
  made : ∀ ch ∈ s.self.present, ∃ ch₀, Job.createChannel ch₀ ∈ calls ∧ ch₀.ptr = ch.ptr ∧ ch₀.fd = ch.fd
  targets : ∀ ch ∈ s.self.present, ch.hasTarget = true → Job.setTarget ch.ptr ch.target ∈ calls

section origins

variable {calls : List Job} {s s' : Sys} {t : ℕ} {pc : Pc} {job : Job} {event : Event}

/-- A step that adds no channel and no target. -/
theorem Origins.keep (h : Origins calls s) (hself : ∀ ch ∈ s'.self.present, ch ∈ s.self.present)
    (hpcs : ∀ t job, (s'.pcs t).job = some job → ∃ t', (s.pcs t').job = some job) :
    Origins calls s' := by
  refine ⟨h.blank, fun t job ht => ?_, fun ch hch => h.made ch (hself ch hch),
    fun ch hch => h.targets ch (hself ch hch)⟩
  obtain ⟨t', ht'⟩ := hpcs t job ht
  exact h.jobs t' job ht'

/-- More calls were made. -/
theorem Origins.more (h : Origins calls s) {new : List Job}
    (hblank : ∀ ch, Job.createChannel ch ∈ new → ch.hasTarget = false) : Origins (calls ++ new) s := by
  refine ⟨fun ch hch => ?_, fun t job ht => List.mem_append_left _ (h.jobs t job ht), fun ch hch => ?_,
    fun ch hch htarget => List.mem_append_left _ (h.targets ch hch htarget)⟩
  · rcases List.mem_append.mp hch with hch | hch
    · exact h.blank ch hch
    · exact hblank ch hch
  · obtain ⟨ch₀, hmem, hsame⟩ := h.made ch hch
    exact ⟨ch₀, List.mem_append_left _ hmem, hsame⟩

theorem job_update (hpc : pc.job = none ∨ pc.job = (s.pcs t).job) {t' : ℕ}
    (ht' : (Function.update s.pcs t pc t').job = some job) : ∃ t'', (s.pcs t'').job = some job := by
  by_cases htt : t' = t
  · rw [htt, Function.update_self] at ht'
    rcases hpc with hnone | hsame
    · cases hnone.symm.trans ht'
    · exact ⟨t, hsame.symm.trans ht'⟩
  · rw [Function.update_of_ne htt] at ht'
    exact ⟨t', ht'⟩

/-- What a client does is in the call it is in. -/
theorem ClientMove.inCall (h : ClientMove s t s') :
    ∃ pc, s'.pcs = Function.update s.pcs t pc ∧ (pc.job = none ∨ pc.job = (s.pcs t).job) := by
  cases h with
  | sent _ _ => exact ⟨.idle, rfl, .inl rfl⟩
  | busy job _ _ _ => exact ⟨.idle, leave_pcs (marked_abandon s job).pcs, .inl rfl⟩
  | acquired job hpc _ _ => exact ⟨_, rfl, .inr (by rw [hpc]; rfl)⟩
  | slept => exact ⟨s.pcs t, (Function.update_eq_self t s.pcs).symm, .inr rfl⟩
  | woke job hpc _ => exact ⟨_, rfl, .inr (by rw [hpc]; rfl)⟩
  | back job status hpc _ => exact ⟨_, rfl, .inr (by rw [hpc]; rfl)⟩
  | released job status _ _ =>
    exact ⟨.idle, leave_pcs (marked_finish { s with cmdWaiterBusy := false } status job).pcs, .inl rfl⟩
  | enqueued job hpc _ =>
    cases job with
    | shutdown => exact ⟨_, rfl, .inr (by rw [hpc]; rfl)⟩
    | createChannel _ | setTarget _ _ | close _ =>
      dsimp only [Sys.enqueueCommand]
      split_ifs
      · exact ⟨_, rfl, .inr (by rw [hpc]; rfl)⟩
      · exact ⟨_, rfl, .inr (by rw [hpc]; rfl)⟩

/-- The call of a command with the waiter. -/
theorem Origins.of_sent (h : Origins calls s) (hinv : SysInv s) {sent : Sent} (hsent : sent ∈ s.onTheWay)
    (hcmd : ∀ c, sent.cmd ≠ .removeChannel c) : ∃ job ∈ calls, job.cmd = sent.cmd := by
  have hwaiter : sent.waiter = true := by
    rcases hinv.sents sent hsent with ⟨job, rfl⟩ | ⟨channel, rfl⟩
    · rfl
    · exact absurd rfl (hcmd channel)
  have hmem : sent.cmd ∈ asked s.onTheWay := List.mem_map_of_mem (List.mem_filter.mpr ⟨hsent, hwaiter⟩)
  obtain ⟨-, t, job, hpc, hjob⟩ := hinv.waits_of_asked hmem
  exact ⟨job, h.jobs t job (by rw [hpc]; rfl), hjob⟩

/-- A command is processed. -/
theorem Origins.processes (h : Origins calls s) (hinv : SysInv s) (hbirths : Births s) {sent : Sent}
    {batch : List Sent} {addr : Option ℕ} {self : PyRtpServer} {out : WorkerOut} {wpc : WorkerPc}
    (hpc : s.workerPc = .atCmd) (hbatch : s.batch = sent :: batch)
    (hself : processCommand s.self addr sent.cmd = some (self, out)) :
    Origins calls ({ s with batch := batch, self := self }.goWorker wpc) := by
  have hsent : sent ∈ s.onTheWay := by
    rw [onTheWay_of_pc hpc, hbatch]
    exact List.mem_cons_self
  have hjob := h.of_sent hinv hsent
  refine ⟨h.blank, h.jobs, fun ch hch => ?_, fun ch hch htarget => ?_⟩
  · have hentry := processCommand_present hbirths.cache hself hch
    generalize sent.cmd = cmd at hentry hjob
    cases hentry with
    | stays _ _ hold => exact h.made ch hold
    | added =>
      obtain ⟨job, hmem, hcmd⟩ := hjob nofun
      cases job with
      | createChannel ch₀ =>
        obtain rfl := RtpServerCmd.addChannel.inj hcmd
        exact ⟨ch₀, hmem, rfl, rfl⟩
      | setTarget _ _ | close _ | shutdown => cases hcmd
    | targeted ch₀ target hold => exact h.made ch₀ hold
  · have hentry := processCommand_present hbirths.cache hself hch
    generalize sent.cmd = cmd at hentry hjob
    cases hentry with
    | stays _ _ hold => exact h.targets ch hold htarget
    | added =>
      obtain ⟨job, hmem, hcmd⟩ := hjob nofun
      cases job with
      | createChannel ch₀ =>
        obtain rfl := RtpServerCmd.addChannel.inj hcmd
        cases (h.blank ch₀ hmem).symm.trans htarget
      | setTarget _ _ | close _ | shutdown => cases hcmd
    | targeted ch₀ target hold =>
      obtain ⟨job, hmem, hcmd⟩ := hjob nofun
      cases job with
      | setTarget c' target' =>
        obtain ⟨rfl, rfl⟩ := RtpServerCmd.setTarget.inj hcmd
        exact hmem
      | createChannel _ | close _ | shutdown => cases hcmd

/-- **One step.** -/
theorem Origins.step (h : Origins calls s) (hinv : SysInv s) (hbirths : Births s)
    (hstep : Step s event s')
    (hblank : ∀ ch, Job.createChannel ch ∈ event.calls → ch.hasTarget = false) :
    Origins (calls ++ event.calls) s' := by
  have hnone : Origins calls s' → Origins (calls ++ []) s' := by
    rw [List.append_nil]
    exact id
  have hsame : ∀ {u : Sys}, u.self = s.self → u.pcs = s.pcs → Origins calls u :=
    fun hself hpcs => h.keep (by rw [hself]; exact fun _ => id) (by rw [hpcs]; exact fun t job ht => ⟨t, ht⟩)
  cases hstep with
  | call t job _ _ _ =>
    have hself : (s.call t job).1.self = s.self := by
      cases job with
      | createChannel channel => rfl
      | setTarget _ _ | close _ | shutdown =>
        rw [Sys.call]
        split_ifs <;> rfl
    have hmore := h.more hblank
    refine ⟨hmore.blank, fun t' job' ht' => ?_, by rw [hself]; exact hmore.made,
      by rw [hself]; exact hmore.targets⟩
    rcases call_pcs s t job with hpcs | hpcs
    · exact hmore.jobs t' job' (by rwa [← hpcs])
    · rw [hpcs] at ht'
      by_cases htt : t' = t
      · rw [htt, Function.update_self] at ht'
        obtain rfl := Option.some.inj ht'
        exact List.mem_append_right _ List.mem_cons_self
      · rw [Function.update_of_ne htt] at ht'
        exact hmore.jobs t' job' ht'
  | send t channel _ _ _ =>
    refine hnone (h.keep (fun _ => id) fun t' job ht' => ?_)
    have ht₁ : (Function.update s.pcs t (.sending channel) t').job = some job := ht'
    exact job_update (.inl rfl) ht₁
  | client t _ hmove =>
    refine hnone ?_
    obtain ⟨pc, hpcs, hjob⟩ := hmove.inCall
    refine h.keep (by rw [hmove.kept.1]; exact fun _ => id) fun t' job ht' => ?_
    rw [hpcs] at ht'
    exact job_update hjob ht'
  | worker env _ hmove =>
    refine hnone ?_
    cases hmove with
    | detached _ _ | finished _ _ | cleared _ _ _ _ _ _ | dropped _ _ _ _ _ | freed _ _ _ _ | next _
    | received _ _ _ | again _ | completed _ _ _ _ => exact hsame rfl rfl
    | processed sent batch addr self out hpc hbatch _ _ hself =>
      exact h.processes hinv hbirths hpc hbatch hself
    | unlocked sent hpc =>
      exact h.keep (fun ch hch => absurd hch List.not_mem_nil) fun t job ht => ⟨t, ht⟩
    | polled env self out hpc hself =>
      have hpresent := iteration_present hbirths.cache hself
      exact h.keep (fun ch hch => by rwa [← hpresent]) fun t job ht => ⟨t, ht⟩
  | callback channel _ _ _ _ =>
    refine hnone ?_
    rw [Sys.closeOnWorker]
    split_ifs <;> exact hsame rfl rfl

end origins

/-! ### All of it -/

/-- What holds of the channels after the calls `calls`, with the marks of their objects. -/
structure ChannelsInv (calls : List Job) (marked : ℕ → Bool) (s : Sys) : Prop where
  sys : SysInv s
  births : Births s
  targets : Targets marked s
  origins : Origins calls s

/-- **One step.** -/
theorem ChannelsInv.step {calls : List Job} {marked : ℕ → Bool} {s s' : Sys} {event : Event}
    (h : ChannelsInv calls marked s) (hstep : Step s event s') (hfresh : event.fresh s = true)
    (hblank : ∀ ch, Job.createChannel ch ∈ event.calls → ch.hasTarget = false) :
    ChannelsInv (calls ++ event.calls) (event.marks s marked) s' :=
  ⟨h.sys.step hstep, h.births.step h.sys hstep hfresh, h.targets.step h.sys h.births hstep hfresh,
    h.origins.step h.sys h.births hstep hblank⟩

end RtpServer
