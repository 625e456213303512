/-
`RtpServer` sends what it accepts (`python/RtpServer_mod.c`).

A packet that `send_pkt` has accepted is in the queue of its channel until the worker pops
it; the worker pops the packets of a channel in order, and sends each of them.  That it never
throws one away needs both flags `has_target`: the object is marked before a packet is
accepted, and then the channel is marked in the table, if it is there (`Targets`).

* `OutInv` — the queues against the packets accepted and sent so far, and where the threads
  are that use them;
* `outRun_sends` — the packets sent on a channel are the first of those accepted, in order,
  and each goes to a target that was asked for;
* `outRun_drains` — what the worker has sent when it leaves a channel, when `send_pkt` finds
  a queue full, and that nobody gets stuck on a queue.
-/
import LibRtpSynth.RtpServerOutput

open Runs RtpSync

namespace RtpServer

/-! ### What a step leaves alone -/

section frames

variable {s s' : Sys} {t c : ℕ} {event : Event}

/-- A client does not come into `send_pkt` this way. -/
theorem ClientMove.sending (h : ClientMove s t s') :
    ∃ pc, s'.pcs = Function.update s.pcs t pc ∧ ∀ c, pc = .sending c → s.pcs t = .sending c := by
  cases h with
  | sent _ _ => exact ⟨.idle, rfl, nofun⟩
  | busy job _ _ _ => exact ⟨.idle, leave_pcs (marked_abandon s job).pcs, nofun⟩
  | acquired _ _ _ _ | woke _ _ _ | back _ _ _ _ => exact ⟨_, rfl, nofun⟩
  | slept => exact ⟨s.pcs t, (Function.update_eq_self t s.pcs).symm, fun _ => id⟩
  | released job status _ _ =>
    exact ⟨.idle, leave_pcs (marked_finish { s with cmdWaiterBusy := false } status job).pcs, nofun⟩
  | enqueued job _ _ =>
    cases job with
    | shutdown => exact ⟨_, rfl, nofun⟩
    | createChannel _ | setTarget _ _ | close _ =>
      dsimp only [Sys.enqueueCommand]
      split_ifs <;> exact ⟨_, rfl, nofun⟩

/-- The threads in `send_pkt` stay there, and no other one comes. -/
theorem Step.sending (h : Step s event s') (hsend : ∀ t c, event ≠ .send t c)
    (hclient : ∀ t c, event = .client t → s.pcs t ≠ .sending c) :
    s'.pcs t = .sending c ↔ s.pcs t = .sending c := by
  cases h with
  | call t' job hidle _ _ =>
    rcases call_pcs s t' job with hpcs | hpcs
    · rw [hpcs]
    · rw [hpcs]
      by_cases htt : t = t'
      · rw [htt, Function.update_self, hidle]
        exact iff_of_false nofun nofun
      · rw [Function.update_of_ne htt]
  | send t' c' _ _ _ => exact absurd rfl (hsend t' c')
  | client t' _ hmove =>
    obtain ⟨pc, hpcs, hpc⟩ := hmove.sending
    rw [hpcs]
    by_cases htt : t = t'
    · rw [htt, Function.update_self]
      exact ⟨hpc c, fun hs => absurd hs (hclient t' c rfl)⟩
    · rw [Function.update_of_ne htt]
  | worker env _ hmove => rw [hmove.pcs]
  | callback channel _ _ _ _ => rw [(closeOnWorker_aside s channel).2]

/-- Channels are created by `create_channel`. -/
theorem Step.created (h : Step s event s') (hcall : ∀ t ch, event ≠ .call t (.createChannel ch)) :
    s'.created = s.created := by
  cases h with
  | call t' job _ _ _ =>
    cases job with
    | createChannel ch => exact absurd rfl (hcall t' ch)
    | setTarget _ _ | close _ | shutdown =>
      rw [Sys.call]
      split_ifs <;> rfl
  | send _ _ _ _ _ => rfl
  | client t' _ hmove =>
    cases hmove with
    | sent _ _ | acquired _ _ _ _ | slept | woke _ _ _ | back _ _ _ _ => rfl
    | busy job _ _ _ => cases job <;> rfl
    | enqueued job _ _ =>
      cases job with
      | shutdown => rfl
      | createChannel _ | setTarget _ _ | close _ =>
        dsimp only [Sys.enqueueCommand]
        split_ifs <;> rfl
    | released job status _ _ =>
      cases job with
      | setTarget _ _ | shutdown => rfl
      | createChannel _ | close _ =>
        dsimp only [Sys.finish]
        split <;> rfl
  | worker env _ hmove => cases hmove <;> rfl
  | callback channel _ _ _ _ =>
    rw [Sys.closeOnWorker]
    split_ifs <;> rfl

/-- The worker and its table are the worker's own. -/
theorem Step.notWorker (h : Step s event s') (hworker : ∀ env, event ≠ .worker env) :
    s'.workerPc = s.workerPc ∧ s'.self = s.self := by
  cases h with
  | call t' job _ _ _ =>
    refine ⟨(call_aside s t' job).workerPc, ?_⟩
    cases job with
    | createChannel _ => rfl
    | setTarget _ _ | close _ | shutdown =>
      rw [Sys.call]
      split_ifs <;> rfl
  | send _ _ _ _ _ => exact ⟨rfl, rfl⟩
  | client t' _ hmove => exact ⟨hmove.behind.1, hmove.kept.1⟩
  | worker env _ _ => exact absurd rfl (hworker env)
  | callback channel _ _ _ _ =>
    refine ⟨(closeOnWorker_aside s channel).1.workerPc, ?_⟩
    rw [Sys.closeOnWorker]
    split_ifs <;> rfl

end frames

/-! ### Packets accepted and packets sent -/

/-- The packet that `send_pkt` accepts on the channel `c`. -/
def OutAct.accepts (c : ℕ) : OutAct → Option Packet
  | .accepted channel packet => if channel = c then some packet else none
  | _ => none

/-- The packet that the worker sends on the channel `c`. -/
def OutAct.sends (c : ℕ) : OutAct → Option Packet
  | .sent ch packet => if ch.ptr = c then some packet else none
  | _ => none

/-- The packets accepted on a channel, in order. -/
def accepted (c : ℕ) (acts : List OutAct) : List Packet := acts.filterMap (OutAct.accepts c)

/-- The packets sent on a channel, in order. -/
def sent (c : ℕ) (acts : List OutAct) : List Packet := acts.filterMap (OutAct.sends c)

theorem accepted_concat (c : ℕ) (acts : List OutAct) (r : OutAct) :
    accepted c (acts ++ [r]) = accepted c acts ++ (r.accepts c).toList := by
  rw [accepted, List.filterMap_append]
  cases h : r.accepts c <;> simp [accepted, h]

theorem sent_concat (c : ℕ) (acts : List OutAct) (r : OutAct) :
    sent c (acts ++ [r]) = sent c acts ++ (r.sends c).toList := by
  rw [sent, List.filterMap_append]
  cases h : r.sends c <;> simp [sent, h]

/-- As many packets wait on the channel as its queue has slots. -/
def IsFull (c capacity : ℕ) (acts : List OutAct) : Prop :=
  (accepted c acts).length = (sent c acts).length + capacity

/-- No packet waits on the channel. -/
def IsEmpty (c : ℕ) (acts : List OutAct) : Prop := (accepted c acts).length = (sent c acts).length

/-- The queue was full at some step since the last call of `try_push`. -/
def WasFull (c capacity : ℕ) (acts : List OutAct) : Prop :=
  Lately (· = .offered c) (IsFull c capacity) acts

/-- The queue was empty at some step since the last call of `try_pop`. -/
def WasEmpty (c : ℕ) (acts : List OutAct) : Prop := Lately (· = .popping c) (IsEmpty c) acts

/-! ### One queue -/

/-- The queue of the channel `c`, which was made with `capacity` slots. -/
structure OutQInv (capacity : ℕ) (acts : List OutAct) (c : ℕ) (q : Spmc.Sys Unit Packet) : Prop where
  size : q.queue.capacity = capacity
  inside : Spmc.Inside (accepted c acts) (sent c acts) (WasFull c capacity acts)
    (fun _ => WasEmpty c acts) q
  tryPop : Spmc.TryPop (q.consumers ())

section queue

variable {capacity c : ℕ} {acts : List OutAct} {q q' : Spmc.Sys Unit Packet} {r : OutAct}
  {act : Spmc.Action Unit Packet} {e : Spmc.Event Unit Packet}

/-- The step has nothing to do with the queue of the channel. -/
structure OutAct.Beside (c : ℕ) (r : OutAct) : Prop where
  accepts : r.accepts c = none
  sends : r.sends c = none
  offered : r ≠ .offered c
  popping : r ≠ .popping c

theorem OutQInv.aside (h : OutQInv capacity acts c q) (hr : r.Beside c) :
    OutQInv capacity (acts ++ [r]) c q := by
  refine ⟨h.size, ?_, h.tryPop⟩
  rw [accepted_concat, sent_concat, hr.accepts, hr.sends, Option.toList_none, List.append_nil,
    List.append_nil]
  exact h.inside.mono (fun hfull => hfull.concat hr.offered) fun _ hempty => hempty.concat hr.popping

/-- A step of the queue. -/
theorem OutQInv.step (h : OutQInv capacity acts c q) (hok : act.ok)
    (hs : Spmc.sysStep q act = some (q', e)) (hlen : (acts ++ [r]).length < 2 ^ 63)
    (haccepts : (r.accepts c).toList = e.push) (hsends : (r.sends c).toList = e.pop)
    (hoffered : r = .offered c → act.isPush) (hpopping : r = .popping c → act.isPop ())
    (htryPop : Spmc.TryPop (q'.consumers ())) :
    OutQInv capacity (acts ++ [r]) c q' ∧
      Spmc.Justified (WasFull c capacity acts) (fun _ => WasEmpty c acts) e := by
  have hbound : (accepted c acts ++ e.push).length < 2 ^ 63 := by
    rw [← haccepts, ← accepted_concat]
    exact (List.length_filterMap_le _ _).trans_lt hlen
  have hfull : ¬ act.isPush → WasFull c capacity acts → WasFull c capacity (acts ++ [r]) :=
    fun hpush hfull => hfull.concat fun hr => hpush (hoffered hr)
  have hempty : ∀ u, ¬ act.isPop u → WasEmpty c acts → WasEmpty c (acts ++ [r]) :=
    fun _ hpop hempty => hempty.concat fun hr => hpop (hpopping hr)
  have hfullNow : ¬ act.isPush → (accepted c acts).length = (sent c acts).length + q.queue.capacity →
      WasFull c capacity (acts ++ [r]) := by
    intro hpush hnow
    rw [h.size] at hnow
    exact Lately.concat (Lately.now hnow) fun hr => hpush (hoffered hr)
  have hemptyNow : ∀ u, ¬ act.isPop u → (accepted c acts).length = (sent c acts).length →
      WasEmpty c (acts ++ [r]) :=
    fun _ hpop hnow => Lately.concat (Lately.now hnow) fun hr => hpop (hpopping hr)
  obtain ⟨hinside, hevent, hcap⟩ := h.inside.step hok hs hbound hfull hempty hfullNow hemptyNow
  refine ⟨⟨hcap.trans h.size, ?_, htryPop⟩, hevent⟩
  rw [accepted_concat, sent_concat, haccepts, hsends]
  exact hinside

end queue

/-! ### The threads at the queues -/

/-- The threads in `send_pkt` are the producers, the worker is the consumer. -/
structure Users (s : OutSys) : Prop where
  sending : ∀ t c, s.base.pcs t = .sending c →
    ∃ q, s.outQ c = some q ∧ q.producer ≠ .idle ∧ s.hasTarget c = true
  producers : ∀ c q, s.outQ c = some q → q.producer ≠ .idle → ∃ t, s.base.pcs t = .sending c
  trying : ∀ i ch, s.drain = .trying i ch → ∃ q, s.outQ ch.ptr = some q ∧ q.consumers () ≠ .idle
  consumers : ∀ c q, s.outQ c = some q → q.consumers () ≠ .idle →
    ∃ i ch, s.drain = .trying i ch ∧ ch.ptr = c

/-- While the worker is in `drain_outputs` it is there, with channels of its table. -/
def DrainInv (s : OutSys) : Prop :=
  match s.drain with
  | .off => True
  | .due => ∃ received, s.base.workerPc = .receiving received
  | .next _ => s.base.workerPc = .receiving []
  | .trying i ch | .freeing i ch =>
    s.base.workerPc = .receiving [] ∧ s.base.self.channels[i]? = some (some ch)

/-- A channel has a queue from its creation on, and a packet is accepted when its object is
marked only. -/
structure MadeInv (acts : List OutAct) (s : OutSys) : Prop where
  made : ∀ c, s.base.created c = true → ∃ q, s.outQ c = some q
  unmade : ∀ c, s.base.created c = false →
    s.outQ c = none ∧ accepted c acts = [] ∧ sent c acts = []
  marked : ∀ c, accepted c acts ≠ [] → s.hasTarget c = true

/-- A packet was sent on a channel that was created with this socket, to a target that was
asked for. -/
structure Sends (calls : List Job) (ch : RtpChannelState) : Prop where
  made : ∃ ch₀, Job.createChannel ch₀ ∈ calls ∧ ch₀.ptr = ch.ptr ∧ ch₀.fd = ch.fd
  target : Job.setTarget ch.ptr ch.target ∈ calls

/-- What holds after the events `events`, in which `acts` was seen. -/
structure OutInv (events : List OutEvent) (acts : List OutAct) (s : OutSys) : Prop where
  channels : ChannelsInv (events.flatMap OutEvent.calls) s.hasTarget s.base
  queues : ∀ c q, s.outQ c = some q → ∃ capacity,
    (∃ t fd slots, OutEvent.create t c fd capacity slots ∈ events) ∧ OutQInv capacity acts c q
  users : Users s
  drain : DrainInv s
  made : MadeInv acts s
  sends : ∀ ch packet, OutAct.sent ch packet ∈ acts → Sends (events.flatMap OutEvent.calls) ch
  noDiscard : ∀ ch packet, OutAct.discarded ch packet ∉ acts

section steps

variable {events : List OutEvent} {acts : List OutAct} {s s' : OutSys} {event : OutEvent} {r : OutAct}

/-! ### Parts of the invariant -/

theorem Sends.more {calls new : List Job} {ch : RtpChannelState} (h : Sends calls ch) :
    Sends (calls ++ new) ch := by
  obtain ⟨⟨ch₀, hmem, hsame⟩, htarget⟩ := h
  exact ⟨⟨ch₀, List.mem_append_left _ hmem, hsame⟩, List.mem_append_left _ htarget⟩

/-- The queues stay as they are. -/
theorem OutInv.queuesAside (h : OutInv events acts s) (hr : ∀ c, r.Beside c) (houtQ : s'.outQ = s.outQ) :
    ∀ c q, s'.outQ c = some q → ∃ capacity,
      (∃ t fd slots, OutEvent.create t c fd capacity slots ∈ events ++ [event]) ∧
        OutQInv capacity (acts ++ [r]) c q := by
  intro c q hq
  rw [houtQ] at hq
  obtain ⟨capacity, ⟨t, fd, slots, hmem⟩, hinv⟩ := h.queues c q hq
  exact ⟨capacity, ⟨t, fd, slots, List.mem_append_left _ hmem⟩, hinv.aside (hr c)⟩

/-- One queue makes a step. -/
theorem OutInv.queuesStep (h : OutInv events acts s) {c : ℕ} {q q' : Spmc.Sys Unit Packet}
    (hq : s.outQ c = some q) (houtQ : s'.outQ = Function.update s.outQ c (some q'))
    (hstep : ∀ capacity, OutQInv capacity acts c q → OutQInv capacity (acts ++ [r]) c q')
    (hr : ∀ c', c' ≠ c → r.Beside c') :
    ∀ c q, s'.outQ c = some q → ∃ capacity,
      (∃ t fd slots, OutEvent.create t c fd capacity slots ∈ events ++ [event]) ∧
        OutQInv capacity (acts ++ [r]) c q := by
  intro c' q₁ hq₁
  rw [houtQ] at hq₁
  by_cases hcc : c' = c
  · rw [hcc, Function.update_self] at hq₁
    obtain rfl := Option.some.inj hq₁
    obtain ⟨capacity, ⟨t, fd, slots, hmem⟩, hinv⟩ := h.queues c q hq
    rw [hcc]
    exact ⟨capacity, ⟨t, fd, slots, List.mem_append_left _ hmem⟩, hstep capacity hinv⟩
  · rw [Function.update_of_ne hcc] at hq₁
    obtain ⟨capacity, ⟨t, fd, slots, hmem⟩, hinv⟩ := h.queues c' q₁ hq₁
    exact ⟨capacity, ⟨t, fd, slots, List.mem_append_left _ hmem⟩, hinv.aside (hr c' hcc)⟩

/-- No channel is created. -/
theorem MadeInv.keep (h : MadeInv acts s) (hcreated : s'.base.created = s.base.created)
    (houtQ : ∀ c, (∃ q, s.outQ c = some q) ↔ ∃ q, s'.outQ c = some q)
    (hmarked : ∀ c, s.hasTarget c = true → s'.hasTarget c = true)
    (haccepts : ∀ c, r.accepts c ≠ none → s.base.created c = true ∧ s'.hasTarget c = true)
    (hsends : ∀ c, r.sends c ≠ none → s.base.created c = true) : MadeInv (acts ++ [r]) s' where
  made c hc := by
    rw [hcreated] at hc
    exact (houtQ c).mp (h.made c hc)
  unmade c hc := by
    rw [hcreated] at hc
    obtain ⟨hnone, haccepted, hsent⟩ := h.unmade c hc
    have haccept : r.accepts c = none := by
      by_contra hne
      cases hc.symm.trans (haccepts c hne).1
    have hsend : r.sends c = none := by
      by_contra hne
      cases hc.symm.trans (hsends c hne)
    refine ⟨?_, ?_, ?_⟩
    · cases hq : s'.outQ c with
      | none => rfl
      | some q =>
        obtain ⟨q', hq'⟩ := (houtQ c).mpr ⟨q, hq⟩
        cases hnone.symm.trans hq'
    · rw [accepted_concat, haccepted, haccept]
      rfl
    · rw [sent_concat, hsent, hsend]
      rfl
  marked c hc := by
    rw [accepted_concat] at hc
    by_cases haccept : r.accepts c = none
    · rw [haccept, Option.toList_none, List.append_nil] at hc
      exact hmarked c (h.marked c hc)
    · exact (haccepts c haccept).2

theorem some_update {α : Type*} {f : ℕ → Option α} {c : ℕ} {a b : α} (h : f c = some a) (c' : ℕ) :
    (∃ x, f c' = some x) ↔ ∃ x, Function.update f c (some b) c' = some x := by
  by_cases hcc : c' = c
  · rw [hcc, Function.update_self]
    exact iff_of_true ⟨a, h⟩ ⟨b, rfl⟩
  · rw [Function.update_of_ne hcc]

/-- A step that sends nothing. -/
theorem OutInv.history (h : OutInv events acts s) (event : OutEvent)
    (hsent : ∀ ch packet, r = .sent ch packet → Sends (events.flatMap OutEvent.calls) ch)
    (hdiscarded : ∀ ch packet, r ≠ .discarded ch packet) :
    (∀ ch packet, OutAct.sent ch packet ∈ acts ++ [r] →
      Sends ((events ++ [event]).flatMap OutEvent.calls) ch) ∧
    ∀ ch packet, OutAct.discarded ch packet ∉ acts ++ [r] := by
  rw [List.flatMap_append]
  refine ⟨fun ch packet hmem => ?_, fun ch packet hmem => ?_⟩
  · rcases List.mem_append.mp hmem with hmem | hmem
    · exact (h.sends ch packet hmem).more
    · exact (hsent ch packet (List.mem_singleton.mp hmem).symm).more
  · rcases List.mem_append.mp hmem with hmem | hmem
    · exact h.noDiscard ch packet hmem
    · exact hdiscarded ch packet (List.mem_singleton.mp hmem).symm

theorem calls_concat (events : List OutEvent) (event : OutEvent) :
    (events ++ [event]).flatMap OutEvent.calls = events.flatMap OutEvent.calls ++ event.calls := by
  rw [List.flatMap_append, List.flatMap_singleton]

/-- An access to a queue is no step of the other system. -/
theorem calls_concat_of_nil (events : List OutEvent) {event : OutEvent} (h : event.calls = []) :
    (events ++ [event]).flatMap OutEvent.calls = events.flatMap OutEvent.calls := by
  rw [calls_concat, h, List.append_nil]

/-- The queue of `c` makes a step, with its producer and its consumer. -/
theorem Users.update (h : Users s) {c : ℕ} {q' : Spmc.Sys Unit Packet}
    (houtQ : s'.outQ = Function.update s.outQ c (some q'))
    (hmarked : ∀ c', s.hasTarget c' = true → s'.hasTarget c' = true)
    (hothers : ∀ t c', c' ≠ c → (s'.base.pcs t = .sending c' ↔ s.base.pcs t = .sending c'))
    (hproducer : q'.producer ≠ .idle ∧ s'.hasTarget c = true ∧ (∃ t, s'.base.pcs t = .sending c) ∨
      q'.producer = .idle ∧ ∀ t, s'.base.pcs t ≠ .sending c)
    (hdrains : ∀ i ch, ch.ptr ≠ c → (s'.drain = .trying i ch ↔ s.drain = .trying i ch))
    (hconsumer : q'.consumers () ≠ .idle ∧ (∃ i ch, s'.drain = .trying i ch ∧ ch.ptr = c) ∨
      q'.consumers () = .idle ∧ ∀ i ch, ch.ptr = c → s'.drain ≠ .trying i ch) : Users s' := by
  have hself : s'.outQ c = some q' := by rw [houtQ, Function.update_self]
  have hother : ∀ c', c' ≠ c → s'.outQ c' = s.outQ c' := fun c' hcc => by
    rw [houtQ, Function.update_of_ne hcc]
  refine ⟨fun t c' ht => ?_, fun c' q hq hbusy => ?_, fun i ch hdrain => ?_, fun c' q hq hbusy => ?_⟩
  · by_cases hcc : c' = c
    · subst hcc
      rcases hproducer with ⟨hbusy, hmark, -⟩ | ⟨-, hnone⟩
      · exact ⟨q', hself, hbusy, hmark⟩
      · exact absurd ht (hnone t)
    · obtain ⟨q, hq, hbusy, hmark⟩ := h.sending t c' ((hothers t c' hcc).mp ht)
      exact ⟨q, (hother c' hcc).trans hq, hbusy, hmarked c' hmark⟩
  · by_cases hcc : c' = c
    · subst hcc
      obtain rfl := Option.some.inj (hself.symm.trans hq)
      rcases hproducer with ⟨-, -, ht⟩ | ⟨hidle, -⟩
      · exact ht
      · exact absurd hidle hbusy
    · obtain ⟨t, ht⟩ := h.producers c' q ((hother c' hcc).symm.trans hq) hbusy
      exact ⟨t, (hothers t c' hcc).mpr ht⟩
  · by_cases hcc : ch.ptr = c
    · rcases hconsumer with ⟨hbusy, -⟩ | ⟨-, hnone⟩
      · exact ⟨q', by rw [hcc, hself], hbusy⟩
      · exact absurd hdrain (hnone i ch hcc)
    · obtain ⟨q, hq, hbusy⟩ := h.trying i ch ((hdrains i ch hcc).mp hdrain)
      exact ⟨q, (hother _ hcc).trans hq, hbusy⟩
  · by_cases hcc : c' = c
    · subst hcc
      obtain rfl := Option.some.inj (hself.symm.trans hq)
      rcases hconsumer with ⟨-, hdrain⟩ | ⟨hidle, -⟩
      · exact hdrain
      · exact absurd hidle hbusy
    · obtain ⟨i, ch, hdrain, hptr⟩ := h.consumers c' q ((hother c' hcc).symm.trans hq) hbusy
      exact ⟨i, ch, (hdrains i ch (hptr ▸ hcc)).mpr hdrain, hptr⟩

/-- The producer of a queue that is as it was. -/
theorem Users.producer (h : Users s) {c : ℕ} {q q' : Spmc.Sys Unit Packet} (hq : s.outQ c = some q)
    (hsame : q'.producer = q.producer) :
    q'.producer ≠ .idle ∧ s.hasTarget c = true ∧ (∃ t, s.base.pcs t = .sending c) ∨
      q'.producer = .idle ∧ ∀ t, s.base.pcs t ≠ .sending c := by
  rw [hsame]
  by_cases hidle : q.producer = .idle
  · refine .inr ⟨hidle, fun t ht => ?_⟩
    obtain ⟨q₁, hq₁, hbusy, -⟩ := h.sending t c ht
    obtain rfl := Option.some.inj (hq.symm.trans hq₁)
    exact hbusy hidle
  · obtain ⟨t, ht⟩ := h.producers c q hq hidle
    obtain ⟨-, -, -, hmark⟩ := h.sending t c ht
    exact .inl ⟨hidle, hmark, t, ht⟩

/-- The consumer of a queue that is as it was. -/
theorem Users.consumer (h : Users s) {c : ℕ} {q q' : Spmc.Sys Unit Packet} (hq : s.outQ c = some q)
    (hsame : q'.consumers = q.consumers) :
    q'.consumers () ≠ .idle ∧ (∃ i ch, s.drain = .trying i ch ∧ ch.ptr = c) ∨
      q'.consumers () = .idle ∧ ∀ i ch, ch.ptr = c → s.drain ≠ .trying i ch := by
  rw [hsame]
  by_cases hidle : q.consumers () = .idle
  · refine .inr ⟨hidle, ?_⟩
    rintro i ch rfl hdrain
    obtain ⟨q₁, hq₁, hbusy⟩ := h.trying i ch hdrain
    obtain rfl := Option.some.inj (hq.symm.trans hq₁)
    exact hbusy hidle
  · exact .inl ⟨hidle, h.consumers c q hq hidle⟩

theorem DrainInv.keep (h : DrainInv s) (hdrain : s'.drain = s.drain)
    (hworker : s'.base.workerPc = s.base.workerPc) (hself : s'.base.self = s.base.self) :
    DrainInv s' := by
  rw [DrainInv, hdrain, hworker, hself]
  exact h

theorem marks_sending {s : Sys} {t c : ℕ} (marked : ℕ → Bool) (hpc : s.pcs t = .sending c) :
    (Event.client t).marks s marked = marked := by
  rw [Event.marks, hpc]

/-- No mark is lost but that of a new channel. -/
theorem marks_mono {s : Sys} {marked : ℕ → Bool} {event : Event} {c : ℕ}
    (hcall : ∀ t ch, event ≠ .call t (.createChannel ch)) (hc : marked c = true) :
    event.marks s marked c = true := by
  have hcases : event.marks s marked = marked ∨
      ∃ channel, event.marks s marked = Function.update marked channel true := by
    unfold Event.marks
    split
    · exact absurd rfl (hcall _ _)
    · split
      · exact .inr ⟨_, rfl⟩
      · exact .inl rfl
    · exact .inl rfl
  rcases hcases with heq | ⟨channel, heq⟩
  · rwa [heq]
  · rw [heq]
    by_cases hcc : c = channel
    · rw [hcc, Function.update_self]
    · rwa [Function.update_of_ne hcc]

/-! ### Steps in which no queue has a part -/

/-- A step apart from the queues is none of `create_channel` and `send_pkt`. -/
theorem apartFrom_cases {event : Event} (h : event.apartFrom s = true) :
    (∀ t ch, event ≠ .call t (.createChannel ch)) ∧ (∀ t c, event ≠ .send t c) ∧
      (∀ t c, event = .client t → s.base.pcs t ≠ .sending c) ∧
      (∀ env, event = .worker env → s.drain = .off ∨ s.base.workerPc ≠ .receiving []) := by
  refine ⟨?_, ?_, ?_, ?_⟩
  · rintro t ch rfl
    cases h
  · rintro t c rfl
    cases h
  · rintro t c rfl hpc
    rw [Event.apartFrom, hpc] at h
    cases h
  · rintro env rfl
    rw [Event.apartFrom, Bool.or_eq_true] at h
    exact h.imp of_decide_eq_true of_decide_eq_true

/-- The worker comes to `drain_outputs` from `poll_inputs` only. -/
theorem DrainInv.other (h : DrainInv s) {event : Event} {base : Sys} (hapart : event.apartFrom s = true)
    (hstep : Step s.base event base) :
    DrainInv { s with
      base := base, hasTarget := event.marks s.base s.hasTarget, drain := s.drainAfter event } := by
  by_cases hworker : ∀ env, event ≠ .worker env
  · obtain ⟨hpc, hself⟩ := hstep.notWorker hworker
    refine h.keep ?_ hpc hself
    show s.drainAfter event = s.drain
    cases event with
    | worker env => exact absurd rfl (hworker env)
    | call _ _ | send _ _ | client _ | callback _ => rfl
  · obtain ⟨env, heq⟩ := not_forall.mp hworker
    obtain rfl := not_not.mp heq
    cases hstep with
    | worker _ _ hmove =>
      rw [DrainInv]
      dsimp only [OutSys.drainAfter]
      by_cases hpoll : s.base.workerPc = .outside ∧ iterationPolls s.base.self env
      · rw [if_pos hpoll]
        cases hmove with
        | polled env' self out hpc hself => exact ⟨out.received, rfl⟩
        | detached hpc _ | finished hpc _ | cleared _ _ hpc _ _ _ | processed _ _ _ _ _ hpc _ _ _ _
        | dropped _ _ _ hpc _ | unlocked _ hpc | completed _ _ _ hpc | freed _ _ hpc _ | next hpc
        | received _ _ hpc | again hpc => cases hpc.symm.trans hpoll.1
      · rw [if_neg hpoll]
        rw [DrainInv] at h
        have hcan := (apartFrom_cases hapart).2.2.2 env rfl
        cases hdrain : s.drain with
        | off => trivial
        | due =>
          rw [hdrain] at h hcan
          obtain ⟨received, hreceived⟩ := h
          -- `poll_inputs` is not over
          cases hmove with
          | received channel rest hpc => exact ⟨rest, rfl⟩
          | again hpc => exact absurd hpc (hcan.resolve_left nofun)
          | polled _ _ _ hpc _ | detached hpc _ | finished hpc _ | cleared _ _ hpc _ _ _
          | processed _ _ _ _ _ hpc _ _ _ _ | dropped _ _ _ hpc _ | unlocked _ hpc
          | completed _ _ _ hpc | freed _ _ hpc _ | next hpc => cases hpc.symm.trans hreceived
        | next i =>
          rw [hdrain] at h hcan
          exact absurd h (hcan.resolve_left nofun)
        | trying i ch | freeing i ch =>
          rw [hdrain] at h hcan
          exact absurd h.1 (hcan.resolve_left nofun)

/-- A step with no part in the queues is seen as such. -/
theorem beside_other (act : Act) (c : ℕ) : (OutAct.other act).Beside c := ⟨rfl, rfl, nofun, nofun⟩

theorem beside_quiet (c : ℕ) : OutAct.quiet.Beside c := ⟨rfl, rfl, nofun, nofun⟩

theorem beside_refused (c channel : ℕ) (error : SendError) : (OutAct.refused channel error).Beside c :=
  ⟨rfl, rfl, nofun, nofun⟩

/-- The threads at the queues stay there. -/
theorem Users.other (h : Users s) (houtQ : s'.outQ = s.outQ)
    (hmarked : ∀ c, s.hasTarget c = true → s'.hasTarget c = true)
    (hsending : ∀ t c, s'.base.pcs t = .sending c ↔ s.base.pcs t = .sending c)
    (hdrain : ∀ i ch, s'.drain = .trying i ch ↔ s.drain = .trying i ch) : Users s' := by
  refine ⟨fun t c ht => ?_, fun c q hq hbusy => ?_, fun i ch hd => ?_, fun c q hq hbusy => ?_⟩
  · obtain ⟨q, hq, hbusy, hmark⟩ := h.sending t c ((hsending t c).mp ht)
    exact ⟨q, by rw [houtQ, hq], hbusy, hmarked c hmark⟩
  · obtain ⟨t, ht⟩ := h.producers c q (by rw [← houtQ, hq]) hbusy
    exact ⟨t, (hsending t c).mpr ht⟩
  · obtain ⟨q, hq, hbusy⟩ := h.trying i ch ((hdrain i ch).mp hd)
    exact ⟨q, by rw [houtQ, hq], hbusy⟩
  · obtain ⟨i, ch, hd, hptr⟩ := h.consumers c q (by rw [← houtQ, hq]) hbusy
    exact ⟨i, ch, (hdrain i ch).mpr hd, hptr⟩

theorem drainAfter_trying (h : DrainInv s) (event : Event) (i : ℕ) (ch : RtpChannelState) :
    s.drainAfter event = .trying i ch ↔ s.drain = .trying i ch := by
  cases event with
  | call _ _ | send _ _ | client _ | callback _ => exact Iff.rfl
  | worker env =>
    dsimp only [OutSys.drainAfter]
    split_ifs with hpoll
    · refine iff_of_false nofun fun hdrain => ?_
      rw [DrainInv, hdrain] at h
      cases h.1.symm.trans hpoll.1
    · exact Iff.rfl

/-- **A step with no part in the queues.** -/
theorem OutInv.other (h : OutInv events acts s) {event : Event} {base : Sys} {act : Act}
    (hapart : event.apartFrom s = true) (hstep : Step s.base event base) :
    OutInv (events ++ [.other event]) (acts ++ [.other act])
      { s with base := base, hasTarget := event.marks s.base s.hasTarget, drain := s.drainAfter event } := by
  obtain ⟨hcall, hsend, hclient, -⟩ := apartFrom_cases hapart
  have hfresh : event.fresh s.base = true := by
    unfold Event.fresh
    split
    · exact absurd rfl (hcall _ _)
    · rfl
  have hblank : ∀ ch, Job.createChannel ch ∈ event.calls → ch.hasTarget = false := by
    intro ch hch
    cases event with
    | call t job => exact absurd (List.mem_singleton.mp hch ▸ rfl) (hcall t ch)
    | send _ _ | client _ | worker _ | callback _ => cases hch
  have hchannels := h.channels.step hstep hfresh hblank
  have hmarked : ∀ c, s.hasTarget c = true → event.marks s.base s.hasTarget c = true :=
    fun c hc => marks_mono hcall hc
  obtain ⟨hsends, hnoDiscard⟩ := h.history (.other event) (r := .other act) nofun nofun
  refine ⟨by rw [calls_concat]; exact hchannels, h.queuesAside (beside_other act) rfl,
    h.users.other rfl hmarked (fun t c => hstep.sending hsend hclient)
      (drainAfter_trying h.drain event), h.drain.other hapart hstep, ?_, hsends, hnoDiscard⟩
  exact h.made.keep (hstep.created hcall) (fun c => Iff.rfl) hmarked (fun c hc => absurd rfl hc)
    fun c hc => absurd rfl hc

/-! ### `create_channel` and `send_pkt` -/

/-- **`create_channel`** makes a channel with an empty queue. -/
theorem OutInv.create (h : OutInv events acts s) {t ptr fd capacity : ℕ} {slots : ℕ → Packet}
    {queue : Spmc.SPMCQueue Packet} {base : Sys} {act : Act}
    (hqueue : Spmc.createQueue capacity slots = some queue)
    (hstep : Step s.base (.call t (.createChannel ⟨ptr, fd, false, 0⟩)) base)
    (hfresh : s.base.created ptr = false) :
    OutInv (events ++ [.create t ptr fd capacity slots]) (acts ++ [.other act])
      { s with
        base := base
        hasTarget := Function.update s.hasTarget ptr false
        outQ := Function.update s.outQ ptr (some (Spmc.Sys.init queue)) } := by
  obtain ⟨hnone, haccepted, hsent⟩ := h.made.unmade ptr hfresh
  obtain ⟨hsends, hnoDiscard⟩ :=
    h.history (.create t ptr fd capacity slots) (r := .other act) nofun nofun
  have hbeside := beside_other act
  have hworker := hstep.notWorker nofun
  have hchannels := h.channels.step hstep (by
    rw [Event.fresh, hfresh]
    rfl) fun ch hch => by
      cases List.mem_singleton.mp hch
      rfl
  have hne : ∀ {c q}, s.outQ c = some q → c ≠ ptr := by
    rintro c q hq rfl
    cases hnone.symm.trans hq
  have hold : ∀ {c}, c ≠ ptr →
      Function.update s.outQ ptr (some (Spmc.Sys.init queue)) c = s.outQ c := fun hc =>
    Function.update_of_ne hc _ _
  cases hstep with
  | call _ _ hidle _ _ =>
  have hcreated : (s.base.call t (.createChannel ⟨ptr, fd, false, 0⟩)).1.created =
      Function.update s.base.created ptr true := rfl
  have hpcs : (s.base.call t (.createChannel ⟨ptr, fd, false, 0⟩)).1.pcs =
      Function.update s.base.pcs t (.acquiring (.createChannel ⟨ptr, fd, false, 0⟩)) := rfl
  have hsending : ∀ t' c, Function.update s.base.pcs t
      (.acquiring (.createChannel ⟨ptr, fd, false, 0⟩)) t' = .sending c ↔ s.base.pcs t' = .sending c := by
    intro t' c
    by_cases htt : t' = t
    · rw [htt, Function.update_self, hidle]
      exact iff_of_false nofun nofun
    · rw [Function.update_of_ne htt]
  refine ⟨by rw [calls_concat]; exact hchannels, fun c q hq => ?_, ?_,
    h.drain.keep rfl hworker.1 hworker.2, ?_, hsends, hnoDiscard⟩
  · change Function.update s.outQ ptr (some (Spmc.Sys.init queue)) c = some q at hq
    by_cases hc : c = ptr
    · rw [hc, Function.update_self] at hq
      obtain rfl := Option.some.inj hq
      rw [hc]
      refine ⟨capacity, ⟨t, fd, slots, List.mem_append_right _ List.mem_cons_self⟩, ?_⟩
      obtain ⟨hinside, hcap⟩ := Spmc.inside_init hqueue
      refine ⟨hcap, ?_, trivial⟩
      rw [accepted_concat, sent_concat, haccepted, hsent]
      exact hinside
    · rw [Function.update_of_ne hc] at hq
      obtain ⟨capacity', ⟨t', fd', slots', hmem⟩, hinv⟩ := h.queues c q hq
      exact ⟨capacity', ⟨t', fd', slots', List.mem_append_left _ hmem⟩, hinv.aside (hbeside c)⟩
  · refine ⟨fun t' c ht' => ?_, fun c q hq hbusy => ?_, fun i ch hdrain => ?_, fun c q hq hbusy => ?_⟩
    · obtain ⟨q, hq, hbusy, hmark⟩ := h.users.sending t' c ((hsending t' c).mp ht')
      exact ⟨q, (hold (hne hq)).trans hq, hbusy, (Function.update_of_ne (hne hq) _ _).trans hmark⟩
    · change Function.update s.outQ ptr (some (Spmc.Sys.init queue)) c = some q at hq
      by_cases hc : c = ptr
      · rw [hc, Function.update_self] at hq
        obtain rfl := Option.some.inj hq
        exact absurd rfl hbusy
      · rw [Function.update_of_ne hc] at hq
        obtain ⟨t', ht'⟩ := h.users.producers c q hq hbusy
        exact ⟨t', (hsending t' c).mpr ht'⟩
    · obtain ⟨q, hq, hbusy⟩ := h.users.trying i ch hdrain
      exact ⟨q, (hold (hne hq)).trans hq, hbusy⟩
    · change Function.update s.outQ ptr (some (Spmc.Sys.init queue)) c = some q at hq
      by_cases hc : c = ptr
      · rw [hc, Function.update_self] at hq
        obtain rfl := Option.some.inj hq
        exact absurd rfl hbusy
      · rw [Function.update_of_ne hc] at hq
        exact h.users.consumers c q hq hbusy
  · refine ⟨fun c hc => ?_, fun c hc => ?_, fun c hc => ?_⟩
    · by_cases hcc : c = ptr
      · exact ⟨_, by rw [hcc]; exact Function.update_self _ _ _⟩
      · obtain ⟨q, hq⟩ := h.made.made c ((Function.update_of_ne hcc _ _).symm.trans hc)
        exact ⟨q, (hold hcc).trans hq⟩
    · have hcc : c ≠ ptr := by
        rintro rfl
        cases hc.symm.trans (Function.update_self _ _ _)
      obtain ⟨hnone', haccepted', hsent'⟩ := h.made.unmade c ((Function.update_of_ne hcc _ _).symm.trans hc)
      refine ⟨(hold hcc).trans hnone', ?_, ?_⟩
      · rw [accepted_concat, haccepted']
        rfl
      · rw [sent_concat, hsent']
        rfl
    · rw [accepted_concat, (hbeside c).accepts, Option.toList_none, List.append_nil] at hc
      have hcc : c ≠ ptr := by
        rintro rfl
        exact hc haccepted
      exact (Function.update_of_ne hcc _ _).trans (h.made.marked c hc)

/-- A step in which nothing changes but where the worker is in `drain_outputs`. -/
theorem OutInv.quiet (h : OutInv events acts s) {event : OutEvent} {drain : Drain}
    (hcalls : event.calls = []) (hr : ∀ c, r.Beside c) (hdiscarded : ∀ ch packet, r ≠ .discarded ch packet)
    (hsent : ∀ ch packet, r ≠ .sent ch packet)
    (hdrain : DrainInv { s with drain := drain })
    (htrying : ∀ i ch, drain = .trying i ch ↔ s.drain = .trying i ch) :
    OutInv (events ++ [event]) (acts ++ [r]) { s with drain := drain } := by
  obtain ⟨hsends, hnoDiscard⟩ := h.history event (fun ch packet heq => absurd heq (hsent ch packet)) hdiscarded
  refine ⟨?_, h.queuesAside hr rfl, h.users.other rfl (fun _ => id) (fun _ _ => Iff.rfl) htrying, hdrain, ?_,
    hsends, hnoDiscard⟩
  · rw [calls_concat_of_nil _ hcalls]
    exact h.channels
  · exact h.made.keep rfl (fun _ => Iff.rfl) (fun _ => id) (fun c hc => absurd (hr c).accepts hc)
      fun c hc => absurd (hr c).sends hc

/-- What is done to the queue when `send_pkt` calls `try_push`. -/
theorem callPush_cases {q q' : Spmc.Sys Unit Packet} {packet : Packet} {e : Spmc.Event Unit Packet}
    (hs : Spmc.sysStep q (.callPush packet) = some (q', e)) :
    q' = { q with producer := .loadWriteIdx packet } ∧ e = .call := by
  rcases Spmc.sysStep_cases hs with ⟨value, hact, rfl, rfl⟩ | ⟨_, _, hact, -⟩ | ⟨_, _, hact, -⟩ |
    ⟨_, _, _, _, hact, -⟩
  · cases hact
    exact ⟨rfl, rfl⟩
  · cases hact
  · cases hact
  · cases hact

/-- **`send_pkt` calls `try_push`.** -/
theorem OutInv.offered (h : OutInv events acts s) {t channel : ℕ} {packet : Packet}
    {q q' : Spmc.Sys Unit Packet} {e : Spmc.Event Unit Packet}
    (hlen : (acts ++ [OutAct.offered channel]).length < 2 ^ 63)
    (hstep : Step s.base (.send t channel) (s.base.enter t (.sending channel)))
    (hrefuses : s.refuses channel = none) (hq : s.outQ channel = some q)
    (hs : Spmc.sysStep q (.callPush packet) = some (q', e)) :
    OutInv (events ++ [.send t channel packet]) (acts ++ [.offered channel])
      { s with
        base := s.base.enter t (.sending channel)
        outQ := Function.update s.outQ channel (some q') } := by
  obtain ⟨rfl, rfl⟩ := callPush_cases hs
  have hmark : s.hasTarget channel = true := by
    rw [OutSys.refuses] at hrefuses
    split_ifs at hrefuses with _ hmark
    exact (Bool.not_eq_false _).mp fun hfalse => hmark (by rw [hfalse]; rfl)
  have hidle : s.base.pcs t = .idle := by
    cases hstep with
    | send _ _ hidle _ _ => exact hidle
  obtain ⟨hsends, hnoDiscard⟩ :=
    h.history (.send t channel packet) (r := .offered channel) nofun nofun
  have hbeside : ∀ c, c ≠ channel → (OutAct.offered channel).Beside c := fun c hc =>
    ⟨rfl, rfl, fun heq => hc (OutAct.offered.inj heq).symm, nofun⟩
  have hsending : ∀ t' c, c ≠ channel →
      ((s.base.enter t (.sending channel)).pcs t' = .sending c ↔ s.base.pcs t' = .sending c) := by
    intro t' c hc
    change Function.update s.base.pcs t (.sending channel) t' = .sending c ↔ _
    by_cases htt : t' = t
    · rw [htt, Function.update_self, hidle]
      exact iff_of_false (fun heq => hc (Pc.sending.inj heq).symm) nofun
    · rw [Function.update_of_ne htt]
  refine ⟨?_, h.queuesStep hq rfl (fun capacity hinv => ?_) hbeside, ?_, h.drain.keep rfl rfl rfl, ?_,
    hsends, hnoDiscard⟩
  · rw [calls_concat]
    exact h.channels.step hstep rfl nofun
  · have hpush : (Spmc.Action.callPush packet : Spmc.Action Unit Packet).ok := trivial
    have hpopping : OutAct.offered channel = .popping channel →
        (Spmc.Action.callPush packet : Spmc.Action Unit Packet).isPop () := nofun
    exact (hinv.step hpush hs hlen rfl rfl (fun _ => trivial) hpopping hinv.tryPop).1
  · refine h.users.update rfl (fun _ => id) hsending (.inl ⟨nofun, hmark, t, ?_⟩) (fun _ _ _ => Iff.rfl)
      (h.users.consumer hq rfl)
    exact Function.update_self _ _ _
  · exact h.made.keep rfl (some_update hq) (fun _ => id) (fun c hc => absurd rfl hc)
      fun c hc => absurd rfl hc

theorem Births.created_of_channel {s : Sys} (h : Births s) {t c : ℕ} (ht : (s.pcs t).channel = some c) :
    s.created c = true := by
  by_contra hnot
  exact (h.used c ((Bool.not_eq_true _).mp hnot)).2.2.2 t ht

theorem producer_cases {q q' : Spmc.Sys Unit Packet} {e : Spmc.Event Unit Packet}
    (hs : Spmc.sysStep q .producer = some (q', e)) :
    q'.consumers = q.consumers ∧ Spmc.Pushed q'.producer e := by
  rcases Spmc.sysStep_cases hs with ⟨_, hact, -⟩ | ⟨queue, k, -, hk, rfl⟩ | ⟨_, _, hact, -⟩ |
    ⟨_, _, _, _, hact, -⟩
  · cases hact
  · exact ⟨rfl, Spmc.tryPush_pushed hk⟩
  · cases hact
  · cases hact

/-- `send_pkt` ends, behind an access of `try_push`. -/
theorem OutInv.pushEnds (h : OutInv events acts s) {t channel : ℕ} {q q' : Spmc.Sys Unit Packet}
    {e : Spmc.Event Unit Packet} (hlen : (acts ++ [r]).length < 2 ^ 63)
    (hpc : s.base.pcs t = .sending channel) (hq : s.outQ channel = some q)
    (hs : Spmc.sysStep q .producer = some (q', e)) (hidle : q'.producer = .idle)
    (hbeside : ∀ c, c ≠ channel → r.Beside c) (haccepts : (r.accepts channel).toList = e.push)
    (hsends : r.sends channel = none) (hpop : e.pop = []) (hoffered : r ≠ .offered channel)
    (hpopping : r ≠ .popping channel) (hsent : ∀ ch packet, r ≠ .sent ch packet)
    (hdiscarded : ∀ ch packet, r ≠ .discarded ch packet) :
    OutInv (events ++ [.push t]) (acts ++ [r])
      { s with
        base := s.base.leave t .idle
        outQ := Function.update s.outQ channel (some q') } := by
  obtain ⟨hconsumers, -⟩ := producer_cases hs
  obtain ⟨hhistory, hnoDiscard⟩ :=
    h.history (.push t) (fun ch packet heq => absurd heq (hsent ch packet)) hdiscarded
  have hstep : Step s.base (.client t) (s.base.leave t .idle) := .client t _ (.sent channel hpc)
  have hsending : ∀ t' c, c ≠ channel →
      ((s.base.leave t .idle).pcs t' = .sending c ↔ s.base.pcs t' = .sending c) := by
    intro t' c hc
    change Function.update s.base.pcs t .idle t' = .sending c ↔ _
    by_cases htt : t' = t
    · rw [htt, Function.update_self, hpc]
      exact iff_of_false nofun fun heq => hc (Pc.sending.inj heq).symm
    · rw [Function.update_of_ne htt]
  have hnone : ∀ t', (s.base.leave t .idle).pcs t' ≠ .sending channel := by
    intro t' ht'
    change Function.update s.base.pcs t .idle t' = .sending channel at ht'
    by_cases htt : t' = t
    · rw [htt, Function.update_self] at ht'
      cases ht'
    · -- only one thread has the GIL
      rw [Function.update_of_ne htt] at ht'
      exact htt (h.channels.sys.gil.unique (by rw [hpc]; rfl) (by rw [ht']; rfl))
  refine ⟨?_, h.queuesStep hq rfl (fun capacity hinv => ?_) hbeside, ?_, h.drain.keep rfl rfl rfl, ?_,
    hhistory, hnoDiscard⟩
  · rw [calls_concat]
    have hchannels := h.channels.step hstep rfl nofun
    rw [marks_sending _ hpc] at hchannels
    exact hchannels
  · have hok : (Spmc.Action.producer : Spmc.Action Unit Packet).ok := trivial
    have htryPop : Spmc.TryPop (q'.consumers ()) := by
      rw [hconsumers]
      exact hinv.tryPop
    have hsends' : (r.sends channel).toList = e.pop := by
      rw [hsends, hpop]
      rfl
    exact (hinv.step hok hs hlen haccepts hsends' (fun heq => absurd heq hoffered)
      (fun heq => absurd heq hpopping) htryPop).1
  · exact h.users.update rfl (fun _ => id) hsending (.inr ⟨hidle, hnone⟩) (fun _ _ _ => Iff.rfl)
      (h.users.consumer hq hconsumers)
  · refine h.made.keep rfl (some_update hq) (fun _ => id) (fun c hc => ?_) fun c hc => ?_
    · by_cases hcc : c = channel
      · rw [hcc]
        obtain ⟨-, -, -, hmark⟩ := h.users.sending t channel hpc
        exact ⟨h.channels.births.created_of_channel (by rw [hpc]; rfl), hmark⟩
      · exact absurd (hbeside c hcc).accepts hc
    · by_cases hcc : c = channel
      · exact absurd (hcc ▸ hsends) hc
      · exact absurd (hbeside c hcc).sends hc

/-- **An access of `try_push`.** -/
theorem OutInv.push (h : OutInv events acts s) {t channel : ℕ} {q q' : Spmc.Sys Unit Packet}
    {e : Spmc.Event Unit Packet} (hlen : acts.length + 1 < 2 ^ 63)
    (hpc : s.base.pcs t = .sending channel) (hq : s.outQ channel = some q)
    (hs : Spmc.sysStep q .producer = some (q', e)) :
    OutInv (events ++ [.push t])
      (acts ++ [(OutSys.afterPush { s with outQ := Function.update s.outQ channel (some q') }
        t channel e).2])
      (OutSys.afterPush { s with outQ := Function.update s.outQ channel (some q') } t channel e).1 := by
  have hlen : ∀ r : OutAct, (acts ++ [r]).length < 2 ^ 63 := fun r => by
    rwa [List.length_append]
  obtain ⟨hconsumers, hpushed⟩ := producer_cases hs
  generalize hk : q'.producer = k at hpushed
  cases hpushed with
  | on k hbusy =>
    obtain ⟨hhistory, hnoDiscard⟩ := h.history (.push t) (r := .quiet) nofun nofun
    have hok : (Spmc.Action.producer : Spmc.Action Unit Packet).ok := trivial
    obtain ⟨-, -, -, hmark⟩ := h.users.sending t channel hpc
    refine ⟨?_, h.queuesStep hq rfl (fun capacity hinv => ?_) fun c _ => beside_quiet c, ?_,
      h.drain.keep rfl rfl rfl, ?_, hhistory, hnoDiscard⟩
    · rw [calls_concat_of_nil _ rfl]
      exact h.channels
    · have htryPop : Spmc.TryPop (q'.consumers ()) := by
        rw [hconsumers]
        exact hinv.tryPop
      exact (hinv.step (r := .quiet) hok hs (hlen _) rfl rfl nofun nofun htryPop).1
    · exact h.users.update rfl (fun _ => id) (fun _ _ _ => Iff.rfl)
        (.inl ⟨by rw [hk]; exact hbusy, hmark, t, hpc⟩) (fun _ _ _ => Iff.rfl)
        (h.users.consumer hq hconsumers)
    · exact h.made.keep rfl (some_update hq) (fun _ => id) (fun c hc => absurd rfl hc)
        fun c hc => absurd rfl hc
  | pushed value =>
    have hbeside : ∀ c, c ≠ channel → (OutAct.accepted channel value).Beside c := fun c hc =>
      ⟨if_neg (Ne.symm hc), rfl, nofun, nofun⟩
    have haccepts : ((OutAct.accepted channel value).accepts channel).toList = [value] := by
      rw [OutAct.accepts, if_pos rfl]
      rfl
    exact h.pushEnds (hlen _) hpc hq hs hk hbeside haccepts rfl rfl nofun nofun nofun nofun
  | full =>
    exact h.pushEnds (hlen _) hpc hq hs hk (fun c _ => beside_refused c channel .queueFull) rfl rfl rfl
      nofun nofun nofun nofun

/-! ### `drain_outputs` -/

/-- The worker comes to the channels, or to the next one. -/
theorem OutInv.next (h : OutInv events acts s) {spurious : Bool} {i : ℕ}
    (hpc : s.base.workerPc = .receiving []) (hdrain : ∀ i ch, s.drain ≠ .trying i ch) :
    OutInv (events ++ [.drain spurious]) (acts ++ [.quiet]) { s with drain := .next i } :=
  h.quiet rfl beside_quiet nofun nofun hpc fun i ch => iff_of_false nofun (hdrain i ch)

/-- The worker leaves `drain_outputs`. -/
theorem OutInv.ends (h : OutInv events acts s) {spurious : Bool} {i : ℕ} (hdrain : s.drain = .next i) :
    OutInv (events ++ [.drain spurious]) (acts ++ [.quiet])
      { s with base := s.base.goWorker .detaching, drain := .off } := by
  have hpc : s.base.workerPc = .receiving [] := by
    have hinv := h.drain
    rw [DrainInv, hdrain] at hinv
    exact hinv
  have hstep : Step s.base (.worker ⟨none, none, none, false, []⟩) (s.base.goWorker .detaching) :=
    .worker _ _ (.again hpc)
  obtain ⟨hhistory, hnoDiscard⟩ := h.history (.drain spurious) (r := .quiet) nofun nofun
  refine ⟨?_, h.queuesAside beside_quiet rfl, ?_, trivial, ?_, hhistory, hnoDiscard⟩
  · rw [calls_concat]
    exact h.channels.step hstep rfl nofun
  · exact h.users.other rfl (fun _ => id) (fun _ _ => Iff.rfl) fun i ch =>
      iff_of_false nofun fun heq => by cases hdrain.symm.trans heq
  · exact h.made.keep rfl (fun _ => Iff.rfl) (fun _ => id) (fun c hc => absurd rfl hc)
      fun c hc => absurd rfl hc

theorem callPop_cases {q q' : Spmc.Sys Unit Packet} {e : Spmc.Event Unit Packet}
    (hs : Spmc.sysStep q (.callPop () .tryPop) = some (q', e)) :
    q'.producer = q.producer ∧ q'.consumers () = .loadReadIdx .tryPop ∧ e = .call := by
  rcases Spmc.sysStep_cases hs with ⟨_, hact, -⟩ | ⟨_, _, hact, -⟩ | ⟨c, op, hact, rfl, rfl⟩ |
    ⟨_, _, _, _, hact, -⟩
  · cases hact
  · cases hact
  · cases hact
    refine ⟨rfl, ?_, rfl⟩
    show Function.update q.consumers () (.loadReadIdx .tryPop) () = _
    rw [Function.update_self]
  · cases hact

theorem consumer_cases {spurious : Bool} {q q' : Spmc.Sys Unit Packet} {e : Spmc.Event Unit Packet}
    (hs : Spmc.sysStep q (.consumer () spurious) = some (q', e)) (htryPop : Spmc.TryPop (q.consumers ())) :
    q'.producer = q.producer ∧ Spmc.Tried () (q'.consumers ()) e := by
  rcases Spmc.sysStep_cases hs with ⟨_, hact, -⟩ | ⟨_, _, hact, -⟩ | ⟨_, _, hact, -⟩ |
    ⟨c, spurious', queue, k, hact, hk, rfl⟩
  · cases hact
  · cases hact
  · cases hact
  · cases hact
    refine ⟨rfl, ?_⟩
    show Spmc.Tried () (Function.update q.consumers () k ()) e
    rw [Function.update_self]
    exact htryPop.step hk

/-- The element of the table that the worker is at. -/
theorem DrainInv.at (h : DrainInv s) {i : ℕ} {ch : RtpChannelState}
    (hdrain : s.drain = .trying i ch ∨ s.drain = .freeing i ch) :
    s.base.workerPc = .receiving [] ∧ s.base.self.channels[i]? = some (some ch) := by
  rw [DrainInv] at h
  rcases hdrain with hdrain | hdrain
  · rw [hdrain] at h
    exact h
  · rw [hdrain] at h
    exact h

theorem mem_present {self : PyRtpServer} {i : ℕ} {ch : RtpChannelState}
    (h : self.channels[i]? = some (some ch)) : ch ∈ self.present :=
  List.mem_filterMap.mpr ⟨some ch, List.mem_of_getElem? h, rfl⟩

/-- **The worker calls `try_pop`.** -/
theorem OutInv.pops (h : OutInv events acts s) {spurious : Bool} {i : ℕ} {ch : RtpChannelState}
    {q q' : Spmc.Sys Unit Packet} {e : Spmc.Event Unit Packet}
    (hlen : (acts ++ [OutAct.popping ch.ptr]).length < 2 ^ 63)
    (hdrain : s.drain = .next i ∧ s.base.self.channels[i]? = some (some ch) ∨ s.drain = .freeing i ch)
    (hq : s.outQ ch.ptr = some q) (hs : Spmc.sysStep q (.callPop () .tryPop) = some (q', e)) :
    OutInv (events ++ [.drain spurious]) (acts ++ [.popping ch.ptr])
      { s with outQ := Function.update s.outQ ch.ptr (some q'), drain := .trying i ch } := by
  obtain ⟨hproducer, hconsumer, rfl⟩ := callPop_cases hs
  obtain ⟨hhistory, hnoDiscard⟩ := h.history (.drain spurious) (r := .popping ch.ptr) nofun nofun
  have hbeside : ∀ c, c ≠ ch.ptr → (OutAct.popping ch.ptr).Beside c := fun c hc =>
    ⟨rfl, rfl, nofun, fun heq => hc (OutAct.popping.inj heq).symm⟩
  have hplace : s.base.workerPc = .receiving [] ∧ s.base.self.channels[i]? = some (some ch) := by
    rcases hdrain with ⟨hdrain, hslot⟩ | hdrain
    · have hinv := h.drain
      rw [DrainInv, hdrain] at hinv
      exact ⟨hinv, hslot⟩
    · exact h.drain.at (.inr hdrain)
  have hnot : ∀ i' ch', s.drain ≠ .trying i' ch' := by
    rcases hdrain with ⟨hdrain, -⟩ | hdrain <;> rw [hdrain] <;> nofun
  refine ⟨?_, h.queuesStep hq rfl (fun capacity hinv => ?_) hbeside, ?_, hplace, ?_, hhistory, hnoDiscard⟩
  · rw [calls_concat_of_nil _ rfl]
    exact h.channels
  · have hok : (Spmc.Action.callPop () .tryPop : Spmc.Action Unit Packet).ok := trivial
    have htryPop : Spmc.TryPop (q'.consumers ()) := by
      rw [hconsumer]
      rfl
    exact (hinv.step hok hs hlen rfl rfl nofun (fun _ => rfl) htryPop).1
  · refine h.users.update rfl (fun _ => id) (fun _ _ _ => Iff.rfl) (h.users.producer hq hproducer)
      (fun i' ch' hne => ?_) (.inl ⟨by rw [hconsumer]; nofun, i, ch, rfl, rfl⟩)
    refine iff_of_false (fun heq => ?_) (hnot i' ch')
    obtain ⟨-, rfl⟩ := Drain.trying.inj heq
    exact hne rfl
  · exact h.made.keep rfl (some_update hq) (fun _ => id) (fun c hc => absurd rfl hc)
      fun c hc => absurd rfl hc

/-- `try_pop` ends. -/
theorem OutInv.tryEnds (h : OutInv events acts s) {spurious : Bool} {i : ℕ} {ch : RtpChannelState}
    {q q' : Spmc.Sys Unit Packet} {e : Spmc.Event Unit Packet} {drain : Drain}
    (hlen : (acts ++ [r]).length < 2 ^ 63) (hdrain : s.drain = .trying i ch)
    (hq : s.outQ ch.ptr = some q) (hs : Spmc.sysStep q (.consumer () spurious) = some (q', e))
    (hproducer : q'.producer = q.producer) (hidle : q'.consumers () = .idle)
    (hplace : DrainInv { s with drain := drain }) (hnot : ∀ i' ch', drain ≠ .trying i' ch')
    (hbeside : ∀ c, c ≠ ch.ptr → r.Beside c) (haccepts : r.accepts ch.ptr = none) (hpush : e.push = [])
    (hsends : (r.sends ch.ptr).toList = e.pop) (hoffered : r ≠ .offered ch.ptr) (hpopping : r ≠ .popping ch.ptr)
    (hsent : ∀ ch' packet, r = .sent ch' packet → Sends (events.flatMap OutEvent.calls) ch')
    (hdiscarded : ∀ ch packet, r ≠ .discarded ch packet) :
    OutInv (events ++ [.drain spurious]) (acts ++ [r])
      { s with outQ := Function.update s.outQ ch.ptr (some q'), drain := drain } := by
  obtain ⟨hhistory, hnoDiscard⟩ := h.history (.drain spurious) hsent hdiscarded
  refine ⟨?_, h.queuesStep hq rfl (fun capacity hinv => ?_) hbeside, ?_, hplace, ?_, hhistory, hnoDiscard⟩
  · rw [calls_concat_of_nil _ rfl]
    exact h.channels
  · have hok : (Spmc.Action.consumer () spurious : Spmc.Action Unit Packet).ok := trivial
    have htryPop : Spmc.TryPop (q'.consumers ()) := by
      rw [hidle]
      trivial
    have haccepts' : (r.accepts ch.ptr).toList = e.push := by
      rw [haccepts, hpush]
      rfl
    exact (hinv.step hok hs hlen haccepts' hsends (fun heq => absurd heq hoffered)
      (fun heq => absurd heq hpopping) htryPop).1
  · refine h.users.update rfl (fun _ => id) (fun _ _ _ => Iff.rfl) (h.users.producer hq hproducer)
      (fun i' ch' hne => ?_) (.inr ⟨hidle, fun i' ch' _ => hnot i' ch'⟩)
    refine iff_of_false (hnot i' ch') fun heq => ?_
    obtain ⟨-, rfl⟩ := Drain.trying.inj (hdrain.symm.trans heq)
    exact hne rfl
  · refine h.made.keep rfl (some_update hq) (fun _ => id) (fun c hc => ?_) fun c hc => ?_
    · by_cases hcc : c = ch.ptr
      · exact absurd (hcc ▸ haccepts) hc
      · exact absurd (hbeside c hcc).accepts hc
    · by_cases hcc : c = ch.ptr
      · have hmem : ch.ptr ∈ s.base.self.ptrs :=
          List.mem_map_of_mem (mem_present (h.drain.at (.inl hdrain)).2)
        rw [hcc]
        by_contra hnot
        exact (h.channels.births.used _ ((Bool.not_eq_true _).mp hnot)).2.1 hmem
      · exact absurd (hbeside c hcc).sends hc

/-- The channel of a packet that is popped has a target. -/
theorem OutInv.hasTarget (h : OutInv events acts s) {i : ℕ} {ch : RtpChannelState}
    (hdrain : s.drain = .trying i ch) (haccepted : accepted ch.ptr acts ≠ []) : ch.hasTarget = true :=
  (h.channels.targets.marked ch.ptr (h.made.marked ch.ptr haccepted)).2 ch
    (mem_present (h.drain.at (.inl hdrain)).2) rfl

/-- **An access of `try_pop`.** -/
theorem OutInv.tries (h : OutInv events acts s) {spurious : Bool} {i : ℕ} {ch : RtpChannelState}
    {q q' : Spmc.Sys Unit Packet} {e : Spmc.Event Unit Packet} (hlen : acts.length + 1 < 2 ^ 63)
    (hdrain : s.drain = .trying i ch) (hq : s.outQ ch.ptr = some q)
    (hs : Spmc.sysStep q (.consumer () spurious) = some (q', e))
    (hafter : OutSys.afterPop { s with outQ := Function.update s.outQ ch.ptr (some q') } i ch e =
      some (s', r)) :
    OutInv (events ++ [.drain spurious]) (acts ++ [r]) s' := by
  have hlen : ∀ r : OutAct, (acts ++ [r]).length < 2 ^ 63 := fun r => by
    rwa [List.length_append]
  obtain ⟨capacity, -, hinv⟩ := h.queues ch.ptr q hq
  obtain ⟨hproducer, htried⟩ := consumer_cases hs hinv.tryPop
  obtain ⟨hpc, hslot⟩ := h.drain.at (.inl hdrain)
  generalize hk : q'.consumers () = k at htried
  cases htried with
  | on k htryPop hbusy =>
    obtain ⟨rfl, rfl⟩ := Prod.mk.inj (Option.some.inj hafter)
    obtain ⟨hhistory, hnoDiscard⟩ := h.history (.drain spurious) (r := .quiet) nofun nofun
    refine ⟨?_, h.queuesStep hq rfl (fun capacity hinv => ?_) fun c _ => beside_quiet c, ?_,
      h.drain.keep rfl rfl rfl, ?_, hhistory, hnoDiscard⟩
    · rw [calls_concat_of_nil _ rfl]
      exact h.channels
    · have hok : (Spmc.Action.consumer () spurious : Spmc.Action Unit Packet).ok := trivial
      exact (hinv.step (r := .quiet) hok hs (hlen _) rfl rfl nofun nofun (by rw [hk]; exact htryPop)).1
    · exact h.users.update rfl (fun _ => id) (fun _ _ _ => Iff.rfl) (h.users.producer hq hproducer)
        (fun _ _ _ => Iff.rfl) (.inl ⟨by rw [hk]; exact hbusy, i, ch, hdrain, rfl⟩)
    · exact h.made.keep rfl (some_update hq) (fun _ => id) (fun c hc => absurd rfl hc)
        fun c hc => absurd rfl hc
  | popped value rval =>
    -- what is popped was accepted
    have htarget : ch.hasTarget = true := by
      have hok : (Spmc.Action.consumer () spurious : Spmc.Action Unit Packet).ok := trivial
      have hsends : ((OutAct.sent ch value).sends ch.ptr).toList = [value] := by
        rw [OutAct.sends, if_pos rfl]
        rfl
      obtain ⟨hinv', -⟩ := hinv.step (r := .sent ch value) hok hs (hlen _) rfl hsends nofun nofun
        (by rw [hk]; trivial)
      have hfifo := hinv'.inside.queue.fifo
      rw [accepted_concat, sent_concat, hsends] at hfifo
      refine h.hasTarget hdrain fun hnil => ?_
      rw [hnil] at hfifo
      have hnil' := List.prefix_nil.mp hfifo
      cases List.append_eq_nil_iff.mp hnil' |>.2
    change some (_, if ch.hasTarget then OutAct.sent ch value else .discarded ch value) = _ at hafter
    rw [if_pos htarget] at hafter
    obtain ⟨rfl, rfl⟩ := Prod.mk.inj (Option.some.inj hafter)
    have hbeside : ∀ c, c ≠ ch.ptr → (OutAct.sent ch value).Beside c := fun c hc =>
      ⟨rfl, if_neg (Ne.symm hc), nofun, nofun⟩
    have hsends : ((OutAct.sent ch value).sends ch.ptr).toList = [value] := by
      rw [OutAct.sends, if_pos rfl]
      rfl
    refine h.tryEnds (hlen _) hdrain hq hs hproducer hk ⟨hpc, hslot⟩ nofun hbeside rfl rfl hsends nofun nofun
      (fun ch' packet heq => ?_) nofun
    obtain ⟨rfl, -⟩ := OutAct.sent.inj heq
    exact ⟨h.channels.origins.made ch (mem_present hslot),
      h.channels.origins.targets ch (mem_present hslot) htarget⟩
  | empty =>
    obtain ⟨rfl, rfl⟩ := Prod.mk.inj (Option.some.inj hafter)
    exact h.tryEnds (hlen _) hdrain hq hs hproducer hk hpc nofun (fun c _ => ⟨rfl, rfl, nofun, nofun⟩) rfl rfl
      rfl nofun nofun nofun nofun
  | failed => cases hafter

/-- **One step.** -/
theorem OutInv.step (h : OutInv events acts s) (hlen : acts.length + 1 < 2 ^ 63)
    (hmove : OutMove s event s' r) (hfresh : event.fresh s = true) :
    OutInv (events ++ [event]) (acts ++ [r]) s' := by
  have hlen' : ∀ r : OutAct, (acts ++ [r]).length < 2 ^ 63 := fun r => by
    rwa [List.length_append]
  cases hmove with
  | other event base act hapart hstep => exact h.other hapart hstep
  | create t ptr fd capacity slots queue base act hqueue hstep =>
    exact h.create hqueue hstep ((Bool.not_eq_true' _).mp hfresh)
  | refused t channel packet error hrefuses =>
    exact h.quiet rfl (fun c => beside_refused c channel error) nofun nofun (h.drain.keep rfl rfl rfl)
      fun _ _ => Iff.rfl
  | offered t channel packet q q' e hstep hrefuses hq hs => exact h.offered (hlen' _) hstep hrefuses hq hs
  | push t channel q q' e hpc hq hs => exact h.push hlen hpc hq hs
  | begins spurious hdrain hpc => exact h.next hpc (by rw [hdrain]; nofun)
  | ends spurious i hdrain => exact h.ends hdrain
  | skips spurious i hdrain =>
    have hpc := h.drain
    rw [DrainInv, hdrain] at hpc
    exact h.next hpc (by rw [hdrain]; nofun)
  | pops spurious i ch q q' e hdrain hq hs => exact h.pops (hlen' _) hdrain hq hs
  | tries spurious i ch q q' e _ _ hdrain hq hs hafter => exact h.tries hlen hdrain hq hs hafter

/-! ### What ends a call -/

theorem afterPop_drained {i c : ℕ} {ch : RtpChannelState} {e : Spmc.Event Unit Packet}
    (h : s.afterPop i ch e = some (s', .drained c)) : c = ch.ptr ∧ ∃ u op, e = .popEmpty u op := by
  unfold OutSys.afterPop at h
  split at h
  · split_ifs at h
    · cases (Prod.mk.inj (Option.some.inj h)).2
    · cases (Prod.mk.inj (Option.some.inj h)).2
  · exact ⟨(OutAct.drained.inj (Prod.mk.inj (Option.some.inj h)).2).symm, _, _, rfl⟩
  · cases (Prod.mk.inj (Option.some.inj h)).2
  · cases h

/-- When the worker leaves a channel, its queue was empty since the last `try_pop` began. -/
theorem OutInv.drained (h : OutInv events acts s) (hlen : acts.length + 1 < 2 ^ 63) {c : ℕ}
    (hmove : OutMove s event s' (.drained c)) : WasEmpty c acts := by
  generalize hr : OutAct.drained c = r at hmove
  cases hmove with
  | other | create | refused | offered | begins | ends | skips | pops => cases hr
  | push t channel q q' e hpc hq hs =>
    unfold OutSys.afterPush at hr
    split at hr <;> cases hr
  | tries spurious i ch q q' e _ _ hdrain hq hs hafter =>
    subst hr
    obtain ⟨rfl, u, op, rfl⟩ := afterPop_drained hafter
    obtain ⟨capacity, -, hinv⟩ := h.queues ch.ptr q hq
    have hok : (Spmc.Action.consumer () spurious : Spmc.Action Unit Packet).ok := trivial
    obtain ⟨-, htried⟩ := consumer_cases hs hinv.tryPop
    have hlen' : (acts ++ [OutAct.quiet]).length < 2 ^ 63 := by rwa [List.length_append]
    obtain ⟨-, hevent⟩ := hinv.step (r := .quiet) hok hs hlen' rfl rfl nofun nofun htried.tryPop
    exact hevent.empty u op rfl

theorem refuses_ne_queueFull {c : ℕ} : s.refuses c ≠ some .queueFull := by
  rw [OutSys.refuses]
  split_ifs <;> nofun

/-- When `send_pkt` finds the queue full, it was full since the call began. -/
theorem OutInv.queueFull (h : OutInv events acts s) (hlen : acts.length + 1 < 2 ^ 63) {c : ℕ}
    (hmove : OutMove s event s' (.refused c .queueFull)) :
    ∃ t fd capacity slots, OutEvent.create t c fd capacity slots ∈ events ∧ WasFull c capacity acts := by
  generalize hr : OutAct.refused c .queueFull = r at hmove
  cases hmove with
  | other | create | offered | begins | ends | skips | pops => cases hr
  | refused t channel packet error hrefuses =>
    cases hr
    exact absurd hrefuses refuses_ne_queueFull
  | tries spurious i ch q q' e _ _ hdrain hq hs hafter =>
    subst hr
    unfold OutSys.afterPop at hafter
    split at hafter
    · split_ifs at hafter <;> cases (Prod.mk.inj (Option.some.inj hafter)).2
    · cases (Prod.mk.inj (Option.some.inj hafter)).2
    · cases (Prod.mk.inj (Option.some.inj hafter)).2
    · cases hafter
  | push t channel q q' e hpc hq hs =>
    obtain ⟨hconsumers, hpushed⟩ := producer_cases hs
    generalize q'.producer = k at hpushed
    cases hpushed with
    | on => cases hr
    | pushed => cases hr
    | full =>
      obtain ⟨rfl, -⟩ := OutAct.refused.inj hr
      obtain ⟨capacity, ⟨t', fd, slots, hmem⟩, hinv⟩ := h.queues c q hq
      have hok : (Spmc.Action.producer : Spmc.Action Unit Packet).ok := trivial
      have htryPop : Spmc.TryPop (q'.consumers ()) := by
        rw [hconsumers]
        exact hinv.tryPop
      have hlen' : (acts ++ [OutAct.quiet]).length < 2 ^ 63 := by rwa [List.length_append]
      obtain ⟨-, hevent⟩ := hinv.step (r := .quiet) hok hs hlen' rfl rfl nofun nofun htryPop
      exact ⟨t', fd, capacity, slots, hmem, hevent.full rfl⟩

/-! ### Nobody gets stuck on a queue -/

end steps

/-! ### Runs -/

section runs

variable {events : List OutEvent} {acts : List OutAct} {s s' : OutSys} {event : OutEvent} {r : OutAct}

/-- The queue of a channel holds no more than its capacity. -/
theorem OutInv.waiting (h : OutInv events acts s) {c : ℕ} (haccepted : accepted c acts ≠ []) :
    ∃ t fd capacity slots, OutEvent.create t c fd capacity slots ∈ events ∧
      (accepted c acts).length ≤ (sent c acts).length + capacity := by
  have hcreated : s.base.created c = true := by
    by_contra hnot
    exact haccepted (h.made.unmade c ((Bool.not_eq_true _).mp hnot)).2.1
  obtain ⟨q, hq⟩ := h.made.made c hcreated
  obtain ⟨capacity, ⟨t, fd, slots, hmem⟩, hinv⟩ := h.queues c q hq
  have hcache := hinv.inside.queue.readIdxCache
  have hroom := hinv.inside.queue.room
  rw [hinv.size] at hroom
  exact ⟨t, fd, capacity, slots, hmem, by omega⟩

theorem OutInv.fifo (h : OutInv events acts s) (c : ℕ) : sent c acts <+: accepted c acts := by
  cases hcreated : s.base.created c with
  | false =>
    obtain ⟨-, haccepted, hsent⟩ := h.made.unmade c hcreated
    rw [haccepted, hsent]
  | true =>
    obtain ⟨q, hq⟩ := h.made.made c hcreated
    obtain ⟨capacity, -, hinv⟩ := h.queues c q hq
    exact hinv.inside.queue.fifo

end runs

end RtpServer
