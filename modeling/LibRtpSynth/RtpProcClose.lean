/-
The exception of a callback and the `close` that raises it.

The worker takes the exception out of the channel and leaves it in `close_exc`, one
member for all channels; the waiting `close` finds it there.  All that clients do runs
with the lock of the interpreter, which a thread gives up to wait and between two
calls; `GilSys` puts this lock on top of the system.

* `gilRun_close` — as long as no `close` throws an exception out of `close_exc`, every
  waiting `close` raises what the worker found for it, and nothing else does;
* `closeRun_lost` — a second `close` can throw it out, between the worker and the
  one that waits.
-/
import LibRtpSynth.RtpProcProtocol

open RtpSync Runs

namespace RtpProc

/-! ### The lock of the interpreter -/

/-- The thread holds the lock. -/
def Pc.inGil : Pc → Bool
  | .idle | .waiting _ | .releasing _ (some _) | .joining => false
  | _ => true

/-- The system with the client that holds the lock. -/
structure GilSys where
  sys : Sys
  gil : Option ℕ

/-- The system behind `PyRtpProc_init`. -/
def gilStart : GilSys := ⟨sysStart, none⟩

/-- The lock behind a step of a client. -/
def gilAfter (gil : Option ℕ) (t : ℕ) (pc : Pc) : Option ℕ :=
  if pc.inGil then some t else if gil = some t then none else gil

/-- One step of the system with the lock. -/
def gilStep (g : GilSys) (event : Event) : Option (GilSys × Act) :=
  (sysStep g.sys event).map fun p =>
    (⟨p.1, match event with
      | .call t _ _ | .client t _ => gilAfter g.gil t (p.1.pcs t)
      | .worker _ => g.gil⟩, p.2)

/-- `proc_set_close_exception_steal` is the next thing the worker does. -/
def Sys.steals (s : Sys) : Bool :=
  match s.workerPc with
  | .stealing cmd _ out => (s.heap cmd).any fun cell => cell.val.waiter && out.exc.isSome
  | _ => false

/-- When a step can come, with the lock. -/
def Event.mayRun (g : GilSys) : Event → Bool
  | .call _ _ _ => g.gil = none
  | .client t _ =>
    match g.sys.pcs t with
    | .waiting _ => true
    | _ => g.gil = none ∨ g.gil = some t
  | .worker _ => !g.sys.steals || g.gil = none

/-- No `close` clears an exception: `proc_clear_close_exception` runs on an empty
`close_exc` only. -/
def Event.clearsNothing (s : Sys) : Event → Bool
  | .client t _ =>
    match s.pcs t with
    | .clearing _ => s.closeExc = none
    | _ => true
  | _ => true

/-! ### What the worker found -/

/-- The call that ends, with the exception it raises. -/
def Act.ends : Act → Option (ℕ × Option ℕ)
  | .closed call raised => some (call, raised)
  | .failed call => some (call, none)
  | _ => none

/-- The exception that the worker found for the command of a call that waits. -/
def found (acts : List Act) (call : ℕ) : Option ℕ :=
  ((processedOf acts).find? fun p => p.1.asks = some call).bind fun p => p.2.exc

section found

variable {acts : List Act} {act : Act} {call : ℕ}

theorem found_concat_none (h : act.result = none) : found (acts ++ [act]) call = found acts call := by
  rw [found, processedOf_concat, h, Option.toList_none, List.append_nil, found]

theorem found_of_not_mem (h : ∀ p ∈ processedOf acts, p.1.asks ≠ some call) :
    found acts call = none := by
  rw [found, List.find?_eq_none.mpr fun p hp => by simpa using h p hp]
  rfl

theorem found_concat_ne {sent : Sent} {out : CmdOut} (h : sent.asks ≠ some call) :
    found (acts ++ [.processed sent out]) call = found acts call := by
  have hlast : [(sent, out)].find? (fun p => p.1.asks = some call) = none :=
    List.find?_eq_none.mpr fun p hp => by
      rw [List.mem_singleton.mp hp]
      simpa using h
  rw [found, processedOf_concat]
  show (((processedOf acts ++ [(sent, out)]).find? _).bind _) = _
  rw [List.find?_append, hlast, Option.or_none, found]

/-- A call has one command. -/
theorem found_eq {sent : Sent} {out : CmdOut}
    (hnodup : ((processedOf acts).map fun p => p.1.call).Nodup) (hmem : (sent, out) ∈ processedOf acts)
    (hasks : sent.asks = some call) : found acts call = out.exc := by
  cases hfind : (processedOf acts).find? fun p => p.1.asks = some call with
  | none => exact absurd hasks (by simpa using List.find?_eq_none.mp hfind _ hmem)
  | some q =>
    have hq : q.1.asks = some call := by simpa using List.find?_some hfind
    have hcall : q.1.call = sent.call :=
      (Sent.asks_eq_some.mp hq).2.trans (Sent.asks_eq_some.mp hasks).2.symm
    obtain rfl : q = (sent, out) :=
      List.inj_on_of_nodup_map hnodup (List.mem_of_find?_eq_some hfind) hmem hcall
    rw [found, hfind]
    rfl

end found

/-! ### What a step does to `close_exc` -/

/-- The steps of a client: where it goes, `close_exc` behind the step, and what is seen. -/
inductive Hop (busy : Bool) (exc : Option ℕ) : Pc → Pc → Option ℕ → Act → Prop
  | clear (c : Call) : Hop busy exc (.clearing c) (.acquiring c) none .quiet
  | refuse (c : Call) : Hop busy exc (.acquiring c) .idle exc (.failed c.number)
  | acquire (c : Call) (hbusy : busy = false) : Hop busy exc (.acquiring c) (.resetting c) exc .quiet
  | reset (c : Call) : Hop busy exc (.resetting c) (.enqueueing c true) exc .quiet
  | accept (c : Call) : Hop busy exc (.enqueueing c true) (.waiting c) exc (.accepted (c.sent true))
  | reject (c : Call) : Hop busy exc (.enqueueing c true) (.releasing c none) exc .quiet
  | send (c : Call) (act : Act) (hact : act.result = none) (hend : act.ends = none) :
      Hop busy exc (.enqueueing c false) .idle exc act
  | sleep (c : Call) : Hop busy exc (.waiting c) (.waiting c) exc .quiet
  | wake (c : Call) (status : ℕ) :
      Hop busy exc (.waiting c) (.releasing c (some status)) exc (.returned c.number status)
  | release (c : Call) (id : ℕ) (status : Option ℕ) :
      Hop busy exc (.releasing c status) (.popping c id) exc .quiet
  | failClose (c : Call) (id : ℕ) (status : Option ℕ) (hclose : c.caller = .close id)
      (hstatus : status.getD 0 ≠ 0) :
      Hop busy exc (.releasing c status) .idle exc (.failed c.number)
  | finish (c : Call) (status : Option ℕ) (act : Act) (hcaller : ∀ id, c.caller ≠ .close id)
      (hact : act = .quiet ∨ act = .failed c.number) :
      Hop busy exc (.releasing c status) .idle exc act
  | pop (c : Call) (id : ℕ) : Hop busy exc (.popping c id) .idle none (.closed c.number exc)
  | shutdown (number : ℕ) (pc : Pc) (act : Act) (hpc : pc = .idle ∨ pc = .joining)
      (hact : act.result = none) (hend : act.ends = none ∨ act = .failed number) :
      Hop busy exc (.shuttingDown number) pc exc act
  | join (pc : Pc) (hpc : pc = .idle ∨ pc = .joining) : Hop busy exc .joining pc exc .quiet

/-- `enqueue_command`, and where its caller goes on. -/
theorem enqueueCommand_hop {s s' : Sys} {t : ℕ} {c : Call} {waiter : Bool} {act : Act}
    (h : s.enqueueCommand t c waiter = some (s', act)) :
    ∃ pc, s'.pcs = Function.update s.pcs t pc ∧ s'.workerPc = s.workerPc ∧
      Hop s.cmdWaiterBusy s.closeExc (.enqueueing c waiter) pc s'.closeExc act := by
  rw [Sys.enqueueCommand] at h
  split at h
  · obtain ⟨s₁, hpush, heq⟩ := Option.map_eq_some_iff.mp h
    obtain ⟨p, -, rfl⟩ := Option.map_eq_some_iff.mp hpush
    obtain ⟨rfl, rfl⟩ := Prod.mk.inj heq
    cases waiter with
    | true => exact ⟨_, rfl, rfl, .accept c⟩
    | false => cases c.caller <;> exact ⟨_, rfl, rfl, .send c _ rfl rfl⟩
  · obtain ⟨s₁, hfree, heq⟩ := Option.map_eq_some_iff.mp h
    obtain ⟨cell, -, rfl⟩ := Option.map_eq_some_iff.mp hfree
    obtain ⟨rfl, rfl⟩ := Prod.mk.inj heq
    cases waiter with
    | true => exact ⟨_, rfl, rfl, .reject c⟩
    | false => cases c.caller <;> exact ⟨_, rfl, rfl, .send c _ rfl rfl⟩

/-- What follows `proc_waiter_release`. -/
theorem released_hop {s s' : Sys} {t : ℕ} {c : Call} {status : Option ℕ} {act : Act} (busy : Bool)
    (h : s.released t c status = (s', act)) :
    ∃ pc, s'.pcs = Function.update s.pcs t pc ∧ s'.workerPc = s.workerPc ∧
      Hop busy s.closeExc (.releasing c status) pc s'.closeExc act := by
  have hcreate : ∀ id procInCb id', Caller.create id procInCb ≠ .close id' := nofun
  have hdealloc : ∀ id id', Caller.dealloc id ≠ .close id' := nofun
  rw [Sys.released] at h
  cases hcaller : c.caller with
  | close id =>
    rw [hcaller] at h
    dsimp only at h
    split at h
    · obtain ⟨rfl, rfl⟩ := Prod.mk.inj h
      exact ⟨_, rfl, rfl, .release c id status⟩
    · next hstatus =>
      obtain ⟨rfl, rfl⟩ := Prod.mk.inj h
      exact ⟨_, rfl, rfl, .failClose c id status hcaller hstatus⟩
  | create _ _ | dealloc _ =>
    rw [hcaller] at h
    obtain ⟨rfl, rfl⟩ := Prod.mk.inj h
    refine ⟨_, rfl, rfl, .finish c status _ ?_ ?_⟩
    · rw [hcaller]
      simp only [hcreate, hdealloc, ne_eq, not_false_eq_true, implies_true]
    · split
      · exact .inl rfl
      · exact .inr rfl

/-- The section of `rtp_proc_shutdown_internal`. -/
theorem queueShutdown_hop {s s' : Sys} {t number : ℕ} {addr : Option ℕ} {act : Act}
    (h : s.queueShutdown t number addr = some (s', act)) :
    ∃ pc, s'.pcs = Function.update s.pcs t pc ∧ s'.workerPc = s.workerPc ∧
      Hop s.cmdWaiterBusy s.closeExc (.shuttingDown number) pc s'.closeExc act := by
  unfold Sys.queueShutdown at h
  split at h
  · obtain ⟨rfl, rfl⟩ := Prod.mk.inj (Option.some.inj h)
    exact ⟨_, rfl, rfl, .shutdown number _ _ (.inr rfl) rfl (.inl rfl)⟩
  · cases addr with
    | none =>
      obtain ⟨rfl, rfl⟩ := Prod.mk.inj (Option.some.inj h)
      exact ⟨_, rfl, rfl, .shutdown number _ _ (.inl rfl) rfl (.inr rfl)⟩
    | some a =>
      obtain ⟨s₁, hpush, heq⟩ := Option.map_eq_some_iff.mp h
      obtain ⟨p, -, rfl⟩ := Option.map_eq_some_iff.mp hpush
      obtain ⟨rfl, rfl⟩ := Prod.mk.inj heq
      exact ⟨_, rfl, rfl, .shutdown number _ _ (.inr rfl) rfl (.inl rfl)⟩

/-- What a client step does. -/
theorem clientStep_hop {s s' : Sys} {t : ℕ} {addr : Option ℕ} {act : Act}
    (h : s.clientStep t addr = some (s', act)) :
    ∃ pc, s'.pcs = Function.update s.pcs t pc ∧ s'.workerPc = s.workerPc ∧
      Hop s.cmdWaiterBusy s.closeExc (s.pcs t) pc s'.closeExc act := by
  rw [Sys.clientStep] at h
  cases hpc : s.pcs t with
  | idle =>
    rw [hpc] at h
    cases h
  | clearing c =>
    rw [hpc] at h
    obtain ⟨rfl, rfl⟩ := Prod.mk.inj (Option.some.inj h)
    exact ⟨_, rfl, rfl, .clear c⟩
  | acquiring c =>
    rw [hpc] at h
    dsimp only at h
    split at h
    · obtain ⟨s₁, hfree, heq⟩ := Option.map_eq_some_iff.mp h
      obtain ⟨cell, -, rfl⟩ := Option.map_eq_some_iff.mp hfree
      obtain ⟨rfl, rfl⟩ := Prod.mk.inj heq
      exact ⟨_, rfl, rfl, .refuse c⟩
    · next hbusy =>
      obtain ⟨rfl, rfl⟩ := Prod.mk.inj (Option.some.inj h)
      exact ⟨_, rfl, rfl, .acquire c ((Bool.not_eq_true _).mp hbusy)⟩
  | resetting c =>
    rw [hpc] at h
    obtain ⟨cell, -, heq⟩ := Option.map_eq_some_iff.mp h
    obtain ⟨rfl, rfl⟩ := Prod.mk.inj heq
    exact ⟨_, rfl, rfl, .reset c⟩
  | enqueueing c waiter =>
    rw [hpc] at h
    exact enqueueCommand_hop h
  | waiting c =>
    rw [hpc] at h
    dsimp only at h
    split at h
    · obtain ⟨rfl, rfl⟩ := Prod.mk.inj (Option.some.inj h)
      refine ⟨_, ?_, rfl, .sleep c⟩
      rw [← hpc]
      exact (Function.update_eq_self t _).symm
    · obtain ⟨rfl, rfl⟩ := Prod.mk.inj (Option.some.inj h)
      exact ⟨_, rfl, rfl, .wake c _⟩
  | releasing c status =>
    rw [hpc] at h
    dsimp only at h
    have hreleased := released_hop s.cmdWaiterBusy (Option.some.inj h)
    exact hreleased
  | popping c id =>
    rw [hpc] at h
    obtain ⟨rfl, rfl⟩ := Prod.mk.inj (Option.some.inj h)
    exact ⟨_, rfl, rfl, .pop c id⟩
  | shuttingDown number =>
    rw [hpc] at h
    exact queueShutdown_hop h
  | joining =>
    rw [hpc] at h
    dsimp only at h
    split at h
    · obtain ⟨rfl, rfl⟩ := Prod.mk.inj (Option.some.inj h)
      exact ⟨_, rfl, rfl, .join _ (.inl rfl)⟩
    · obtain ⟨rfl, rfl⟩ := Prod.mk.inj (Option.some.inj h)
      refine ⟨_, ?_, rfl, .join .joining (.inr rfl)⟩
      rw [← hpc]
      exact (Function.update_eq_self t _).symm

/-! ### Who `close_exc` belongs to -/

/-- The call of a thread that has the waiter, or has just released it. -/
def Pc.holder : Pc → Option ℕ
  | .resetting c | .enqueueing c true | .waiting c | .releasing c _ | .popping c _ => some c.number
  | _ => none

/-- The waiting call for whose command the worker has an exception at hand. -/
def window (pc : WorkerPc) (cur : Option (ℕ × Sent)) : Option ℕ :=
  match pc with
  | .stealing _ _ _ => cur.bind fun x => x.2.asks
  | _ => none

/-- `close_exc` is what the worker found for the call that has the waiter, once it is
there. -/
structure SlotInv (exc : Option ℕ) (holder : ℕ → Option ℕ) (window : Option ℕ)
    (found : ℕ → Option ℕ) : Prop where
  one : ∀ t t' n n', holder t = some n → holder t' = some n' → t = t'
  idle : (∀ t, holder t = none) → exc = none
  holds : ∀ t n, holder t = some n → window ≠ some n → exc = found n
  pending : ∀ n, window = some n → exc = none

section slot

variable {exc win : Option ℕ} {holder : ℕ → Option ℕ} {found found' : ℕ → Option ℕ} {t n : ℕ}

/-- A call gets the waiter. -/
theorem SlotInv.take (h : SlotInv exc holder win found) (hnone : ∀ t, holder t = none)
    (hfound : found n = none) : SlotInv exc (Function.update holder t (some n)) win found := by
  have hexc := h.idle hnone
  have heq : ∀ t' m, Function.update holder t (some n) t' = some m → t' = t ∧ m = n := by
    intro t' m hm
    by_cases ht : t' = t
    · rw [ht, Function.update_self] at hm
      exact ⟨ht, (Option.some.inj hm).symm⟩
    · rw [Function.update_of_ne ht, hnone] at hm
      cases hm
  refine ⟨fun t₁ t₂ n₁ n₂ h₁ h₂ => ?_, fun _ => hexc, fun t' m hm _ => ?_, h.pending⟩
  · rw [(heq t₁ n₁ h₁).1, (heq t₂ n₂ h₂).1]
  · rw [(heq t' m hm).2, hfound]
    exact hexc

/-- The call is done with `close_exc`. -/
theorem SlotInv.drop (h : SlotInv exc holder win found) (ht : holder t = some n) :
    SlotInv none (Function.update holder t none) win found := by
  have hnone : ∀ t' m, Function.update holder t none t' ≠ some m := by
    intro t' m hm
    by_cases htt : t' = t
    · rw [htt, Function.update_self] at hm
      cases hm
    · rw [Function.update_of_ne htt] at hm
      exact htt (h.one t' t m n hm ht)
  exact ⟨fun t₁ _ n₁ _ h₁ => absurd h₁ (hnone t₁ n₁), fun _ => rfl,
    fun t' m hm => absurd hm (hnone t' m), fun _ _ => rfl⟩

/-- The worker processes the command of the call. -/
theorem SlotInv.read (h : SlotInv exc holder none found) (ht : holder t = some n)
    (hfound : found n = none) : SlotInv exc holder (some n) found' := by
  have hexc : exc = none := (h.holds t n ht nofun).trans hfound
  refine ⟨h.one, h.idle, fun t' m hm hne => absurd ?_ hne, fun _ _ => hexc⟩
  obtain rfl := h.one t' t m n hm ht
  exact (ht.symm.trans hm)

/-- The worker leaves the exception in `close_exc`. -/
theorem SlotInv.steal (h : SlotInv exc holder (some n) found) (ht : holder t = some n) :
    SlotInv (found n) holder none found := by
  refine ⟨h.one, fun hnone => ?_, fun t' m hm _ => ?_, nofun⟩
  · rw [hnone t] at ht
    cases ht
  · obtain rfl := h.one t' t m n hm ht
    rw [Option.some.inj (ht.symm.trans hm)]

end slot

/-! ### The invariant -/

/-- The function waits for its command. -/
def Caller.waits : Caller → Bool
  | .create _ _ | .close _ => true
  | .dealloc _ => false

/-- The command of the call was accepted. -/
def SentAs (acts : List Act) (c : Call) : Prop :=
  ∃ sent ∈ acceptedOf acts, sent.call = c.number ∧ sent.cmd = c.caller.cmd

/-- What holds of a thread at its place. -/
def PcOk (acts : List Act) : Pc → Prop
  | .clearing c | .acquiring c | .resetting c | .enqueueing c true => c.caller.waits = true
  | .waiting c => c.caller.waits = true ∧ SentAs acts c
  | .releasing c (some status) =>
    c.caller.waits = true ∧ SentAs acts c ∧ Answered acts c.number status
  | .releasing c none =>
    c.caller.waits = true ∧ ∀ p ∈ processedOf acts, p.1.asks ≠ some c.number
  | _ => True

/-- What comes of a command: removing does not fail, and nothing else finds an
exception. -/
def ResultOk (p : Sent × CmdOut) : Prop :=
  match p.1.cmd with
  | .removeChannel _ => p.2.status = 0
  | _ => p.2.exc = none

/-- What holds with the lock, as long as no `close` clears an exception. -/
structure ExcInv (acts : List Act) (g : GilSys) (cur : Option (ℕ × Sent)) : Prop where
  slot : SlotInv g.sys.closeExc (Pc.holder ∘ g.sys.pcs) (window g.sys.workerPc cur) (found acts)
  gil : ∀ t, (g.sys.pcs t).inGil = true → g.gil = some t
  places : ∀ t, PcOk acts (g.sys.pcs t)
  results : ∀ p ∈ processedOf acts, ResultOk p
  at_hand : ∀ cmd next out, g.sys.workerPc = .stealing cmd next out →
    ∃ x, cur = some x ∧ (x.2, out) ∈ processedOf acts
  ended : ∀ pre act post, acts = pre ++ act :: post → ∀ call raised,
    act.ends = some (call, raised) → raised = found pre call

section steps

variable {acts : List Act} {act : Act} {s s' : Sys} {gil : Option ℕ} {cur : Option (ℕ × Sent)}
  {batch queue queue' : List (ℕ × Sent)} {t : ℕ} {pc : Pc}

theorem PcOk.mono (h : PcOk acts pc) (hact : act.result = none) : PcOk (acts ++ [act]) pc := by
  have hprocessed : processedOf (acts ++ [act]) = processedOf acts := by
    rw [processedOf_concat, hact, Option.toList_none, List.append_nil]
  have hsent : ∀ c, SentAs acts c → SentAs (acts ++ [act]) c := by
    rintro c ⟨sent, hmem, hcall⟩
    rw [SentAs, acceptedOf_concat]
    exact ⟨sent, List.mem_append_left _ hmem, hcall⟩
  cases pc with
  | waiting c => exact ⟨h.1, hsent c h.2⟩
  | releasing c status =>
    cases status with
    | none => exact ⟨h.1, hprocessed ▸ h.2⟩
    | some status =>
      refine ⟨h.1, hsent c h.2.1, ?_⟩
      rw [Answered, hprocessed]
      exact h.2.2
  | enqueueing c waiter =>
    cases waiter with
    | true => exact h
    | false => trivial
  | _ => exact h

/-- The commands of a call: it has one. -/
theorem SysInv.nodup_processed (h : SysInv acts s cur batch queue) :
    ((processedOf acts).map fun p => p.1.call).Nodup := by
  have hnodup := h.calls.nodup
  rw [h.accepted, List.map_append, List.map_map] at hnodup
  exact (List.nodup_append'.mp hnodup).1

theorem SysInv.mem_accepted (h : SysInv acts s cur batch queue) {p : Sent × CmdOut}
    (hp : p ∈ processedOf acts) : p.1 ∈ acceptedOf acts := by
  rw [h.accepted]
  exact List.mem_append_left _ (List.mem_map_of_mem hp)

/-- Nothing was found for a call that has not sent its command. -/
theorem SysInv.found_unsent (h : SysInv acts s cur batch queue) {n : ℕ}
    (hn : n ∉ (acceptedOf acts).map Sent.call) : ∀ p ∈ processedOf acts, p.1.asks ≠ some n := by
  intro p hp hasks
  exact hn (List.mem_map.mpr ⟨p.1, h.mem_accepted hp, (Sent.asks_eq_some.mp hasks).2⟩)

/-- The command processed for a call is the one it sent. -/
theorem SysInv.cmd_eq (h : SysInv acts s cur batch queue) {c : Call} (hsent : SentAs acts c)
    {p : Sent × CmdOut} (hp : p ∈ processedOf acts) (hasks : p.1.asks = some c.number) :
    p.1.cmd = c.caller.cmd := by
  obtain ⟨sent, hmem, hcall, hcmd⟩ := hsent
  have heq : p.1 = sent := List.inj_on_of_nodup_map h.calls.nodup (h.mem_accepted hp) hmem
    ((Sent.asks_eq_some.mp hasks).2.trans hcall.symm)
  rw [heq]
  exact hcmd

theorem holder_of_waiting {n : ℕ} (h : pc.stage = .waiting n) : pc.holder = some n := by
  cases pc with
  | waiting c => exact congrArg some (Stage.waiting.inj h)
  | enqueueing c waiter => cases waiter <;> cases h
  | _ => cases h

theorem holder_of_out (h : pc.stage = .out) : pc.holder = none ∨ ∃ c id, pc = .popping c id := by
  cases pc with
  | popping c id => exact .inr ⟨c, id, rfl⟩
  | enqueueing c waiter =>
    cases waiter with
    | true => cases h
    | false => exact .inl rfl
  | resetting _ | releasing _ _ | waiting _ => cases h
  | _ => exact .inl rfl

theorem window_mem {wpc : WorkerPc} {n : ℕ} (h : window wpc cur = some n) (cmds : List (ℕ × Sent)) :
    n ∈ asked wpc cur cmds := by
  cases wpc with
  | stealing cmd next out =>
    obtain ⟨x, rfl, hasks⟩ := Option.bind_eq_some_iff.mp h
    rw [asked, owed_some rfl x.1 x.2, hasks]
    exact List.mem_append_left _ List.mem_cons_self
  | _ => cases h

/-- The thread for whose command the worker has an exception at hand waits. -/
theorem SysInv.waits_of_window (h : SysInv acts s cur batch queue) {n : ℕ}
    (hn : window s.workerPc cur = some n) : ∃ t, (s.pcs t).stage = .waiting n := by
  obtain ⟨t, ht, -, -⟩ := h.waiter.of_mem (window_mem hn (batch ++ queue))
  exact ⟨t, ht⟩

/-- The thread that has released the waiter, or is about to, has its exception. -/
theorem ExcInv.exc_eq (e : ExcInv acts ⟨s, gil⟩ cur) (h : SysInv acts s cur batch queue) {n : ℕ}
    (ht : (s.pcs t).holder = some n) (hstage : ∀ m, (s.pcs t).stage ≠ .waiting m) :
    s.closeExc = found acts n := by
  refine e.slot.holds t n ht fun hwindow => ?_
  obtain ⟨t', ht'⟩ := h.waits_of_window hwindow
  obtain rfl := e.slot.one t t' n n ht (holder_of_waiting ht')
  exact hstage n ht'

/-- `create_channel` finds no exception, and `close` no error. -/
theorem ExcInv.released (e : ExcInv acts ⟨s, gil⟩ cur) (h : SysInv acts s cur batch queue) {c : Call}
    {status : Option ℕ} (hpc : s.pcs t = .releasing c status) :
    ((∀ id, c.caller ≠ .close id) → found acts c.number = none) ∧
      ((∃ id, c.caller = .close id) → status.getD 0 = 0) := by
  have hok := e.places t
  dsimp only at hok
  rw [hpc] at hok
  cases status with
  | none => exact ⟨fun _ => found_of_not_mem hok.2, fun _ => rfl⟩
  | some status =>
    obtain ⟨hwaits, hsent, p, hp, hasks, hstatus⟩ := hok
    have hcmd := h.cmd_eq hsent hp hasks
    have hresult := e.results p hp
    rw [ResultOk, hcmd] at hresult
    constructor
    · intro hcaller
      cases hc : c.caller with
      | create id procInCb =>
        rw [hc] at hresult
        exact (found_eq h.nodup_processed hp hasks).trans hresult
      | close id => exact absurd hc (hcaller id)
      | dealloc id =>
        rw [hc] at hwaits
        cases hwaits
    · rintro ⟨id, hc⟩
      rw [hc] at hresult
      exact hstatus.symm.trans hresult

theorem Hop.result {busy : Bool} {exc exc' : Option ℕ} {pc' : Pc} (hop : Hop busy exc pc pc' exc' act) :
    act.result = none := by
  cases hop with
  | send _ _ hact _ | shutdown _ _ _ _ hact _ => exact hact
  | finish _ _ _ _ hact => rcases hact with rfl | rfl <;> rfl
  | _ => rfl

theorem Hop.of_waiting {busy : Bool} {exc exc' : Option ℕ} {c : Call} {pc' : Pc}
    (hop : Hop busy exc (.waiting c) pc' exc' act) : pc'.inGil = false := by
  cases hop with
  | sleep _ => rfl
  | wake _ _ => rfl

/-- What a step of a client does to `close_exc`, to the thread's place, and for the call
that ends. -/
theorem ExcInv.hop (e : ExcInv acts ⟨s, gil⟩ cur) (h : SysInv acts s cur batch queue) {pc' : Pc}
    {exc' : Option ℕ} (hpc : s.pcs t = pc) (hop : Hop s.cmdWaiterBusy s.closeExc pc pc' exc' act)
    (hgil : pc.inGil = true → gil = some t)
    (hclear : ∀ c, pc = .clearing c → s.closeExc = none)
    (hreturned : ∀ call status, act = .returned call status → Answered acts call status) :
    SlotInv exc' (Function.update (Pc.holder ∘ s.pcs) t pc'.holder) (window s.workerPc cur)
        (found acts) ∧
      PcOk (acts ++ [act]) pc' ∧
      ∀ call raised, act.ends = some (call, raised) → raised = found acts call := by
  have hok : PcOk acts pc := hpc ▸ e.places t
  have hmono : PcOk (acts ++ [act]) pc := hok.mono hop.result
  -- the thread keeps the waiter, or does not have it
  have hsame : pc'.holder = pc.holder → SlotInv s.closeExc
      (Function.update (Pc.holder ∘ s.pcs) t pc'.holder) (window s.workerPc cur) (found acts) := by
    intro heq
    rw [update_same (heq.trans (congrArg Pc.holder hpc).symm)]
    exact e.slot
  have hunsent : ∀ n, pc.unsent = some n → ∀ p ∈ processedOf acts, p.1.asks ≠ some n := by
    intro n hn
    exact h.found_unsent (h.calls.fresh t n ((congrArg Pc.unsent hpc).trans hn))
  cases hop with
  | clear c =>
    rw [← hclear c rfl]
    exact ⟨hsame rfl, hok, nofun⟩
  | refuse c =>
    refine ⟨hsame rfl, trivial, fun call raised hend => ?_⟩
    obtain ⟨rfl, rfl⟩ := Prod.mk.inj (Option.some.inj hend)
    exact (found_of_not_mem (hunsent _ rfl)).symm
  | acquire c hbusy =>
    refine ⟨e.slot.take (fun t' => ?_) (found_of_not_mem (hunsent _ rfl)), hok, nofun⟩
    -- the waiter is free, and a thread that pops would have the lock
    have hout : (s.pcs t').stage = .out := (hbusy ▸ h.waiter).stage_out t'
    rcases holder_of_out hout with hnone | ⟨c', id, hpop⟩
    · exact hnone
    · have hgil' : gil = some t' := e.gil t' (congrArg Pc.inGil hpop)
      obtain rfl := Option.some.inj (hgil'.symm.trans (hgil rfl))
      cases hpop.symm.trans hpc
  | reset c => exact ⟨hsame rfl, hok, nofun⟩
  | accept c =>
    refine ⟨hsame rfl, ⟨hok, c.sent true, ?_, rfl, rfl⟩, nofun⟩
    rw [acceptedOf_concat]
    exact List.mem_append_right _ List.mem_cons_self
  | reject c =>
    have hplace : PcOk acts (.releasing c none) := ⟨hok, hunsent _ rfl⟩
    exact ⟨hsame rfl, hplace.mono rfl, nofun⟩
  | send c act hact hend =>
    refine ⟨hsame rfl, trivial, fun call raised heq => ?_⟩
    rw [hend] at heq
    cases heq
  | sleep c => exact ⟨hsame rfl, hmono, nofun⟩
  | wake c status =>
    have hplace : PcOk acts (.releasing c (some status)) := ⟨hok.1, hok.2, hreturned _ _ rfl⟩
    exact ⟨hsame rfl, hplace.mono rfl, nofun⟩
  | release c id status => exact ⟨hsame rfl, trivial, nofun⟩
  | failClose c id status hclose hstatus =>
    exact absurd ((e.released h hpc).2 ⟨id, hclose⟩) hstatus
  | finish c status act hcaller hact =>
    have hholder : (s.pcs t).holder = some c.number := congrArg Pc.holder hpc
    have hfound := (e.released h hpc).1 hcaller
    have hexc : s.closeExc = none := (e.exc_eq h hholder fun m => hpc ▸ nofun).trans hfound
    refine ⟨hexc ▸ e.slot.drop hholder, trivial, fun call raised heq => ?_⟩
    rcases hact with rfl | rfl
    · cases heq
    · obtain ⟨rfl, rfl⟩ := Prod.mk.inj (Option.some.inj heq)
      exact hfound.symm
  | pop c id =>
    have hholder : (s.pcs t).holder = some c.number := congrArg Pc.holder hpc
    refine ⟨e.slot.drop hholder, trivial, fun call raised heq => ?_⟩
    obtain ⟨rfl, rfl⟩ := Prod.mk.inj (Option.some.inj heq)
    exact e.exc_eq h hholder fun m => hpc ▸ nofun
  | shutdown number pc act hjoin hact hend =>
    refine ⟨hsame (by rcases hjoin with rfl | rfl <;> rfl), by rcases hjoin with rfl | rfl <;> trivial,
      fun call raised heq => ?_⟩
    rcases hend with hend | rfl
    · rw [hend] at heq
      cases heq
    · obtain ⟨rfl, rfl⟩ := Prod.mk.inj (Option.some.inj heq)
      exact (found_of_not_mem (hunsent _ rfl)).symm
  | join pc hjoin =>
    exact ⟨hsame (by rcases hjoin with rfl | rfl <;> rfl), by rcases hjoin with rfl | rfl <;> trivial,
      nofun⟩

/-- The lock behind a step of a thread. -/
theorem gil_goto (hgil : ∀ t, (s.pcs t).inGil = true → gil = some t) {pc' : Pc}
    (hmay : gil = none ∨ gil = some t ∨ pc'.inGil = false) :
    ∀ t', (Function.update s.pcs t pc' t').inGil = true → gilAfter gil t pc' = some t' := by
  intro t' ht'
  by_cases htt : t' = t
  · rw [htt, Function.update_self] at ht'
    rw [gilAfter, if_pos ht', htt]
  · rw [Function.update_of_ne htt] at ht'
    have heq := hgil t' ht'
    have hne : ¬ gil = some t := fun h => htt (Option.some.inj (heq.symm.trans h))
    rcases hmay with hnone | hsome | hout
    · rw [heq] at hnone
      cases hnone
    · exact absurd hsome hne
    · rw [gilAfter, if_neg (by rw [hout]; nofun), if_neg hne]
      exact heq

theorem ended_concat (h : ∀ pre act post, acts = pre ++ act :: post → ∀ call raised,
      act.ends = some (call, raised) → raised = found pre call)
    (hact : ∀ call raised, act.ends = some (call, raised) → raised = found acts call) :
    ∀ pre x post, acts ++ [act] = pre ++ x :: post → ∀ call raised,
      x.ends = some (call, raised) → raised = found pre call := by
  intro pre x post heq
  rcases concat_eq_append_cons heq with ⟨rfl, rfl⟩ | ⟨post', rfl⟩
  · exact hact
  · exact h pre x post' rfl

/-- A step of a thread. -/
theorem ExcInv.thread (e : ExcInv acts ⟨s, gil⟩ cur) {pc' : Pc}
    (hpcs : s'.pcs = Function.update s.pcs t pc') (hworker : s'.workerPc = s.workerPc)
    (hresult : act.result = none)
    (hslot : SlotInv s'.closeExc (Function.update (Pc.holder ∘ s.pcs) t pc'.holder)
      (window s.workerPc cur) (found acts))
    (hplace : PcOk (acts ++ [act]) pc')
    (hends : ∀ call raised, act.ends = some (call, raised) → raised = found acts call)
    (hmay : gil = none ∨ gil = some t ∨ pc'.inGil = false) :
    ExcInv (acts ++ [act]) ⟨s', gilAfter gil t (s'.pcs t)⟩ cur := by
  have hprocessed : processedOf (acts ++ [act]) = processedOf acts := by
    rw [processedOf_concat, hresult, Option.toList_none, List.append_nil]
  have hfound : found (acts ++ [act]) = found acts := funext fun _ => found_concat_none hresult
  refine ⟨?_, ?_, fun t' => ?_, ?_, ?_, ended_concat e.ended hends⟩
  · show SlotInv s'.closeExc (Pc.holder ∘ s'.pcs) (window s'.workerPc cur) _
    rw [hworker, hpcs, hfound, Function.comp_update]
    exact hslot
  · show ∀ t', (s'.pcs t').inGil = true → gilAfter gil t (s'.pcs t) = some t'
    rw [hpcs, Function.update_self]
    exact gil_goto e.gil hmay
  · show PcOk _ (s'.pcs t')
    rw [hpcs]
    by_cases htt : t' = t
    · rw [htt, Function.update_self]
      exact hplace
    · rw [Function.update_of_ne htt]
      exact (e.places t').mono hresult
  · rw [hprocessed]
    exact e.results
  · rw [hprocessed]
    show ∀ cmd next out, s'.workerPc = _ → _
    rw [hworker]
    exact e.at_hand

theorem ExcInv.client (e : ExcInv acts ⟨s, gil⟩ cur) (h : SysInv acts s cur batch queue)
    {addr : Option ℕ} (hstep : s.clientStep t addr = some (s', act))
    (hreturned : ∀ call status, act = .returned call status → Answered acts call status)
    (hrun : (Event.client t addr).mayRun ⟨s, gil⟩ = true)
    (hclear : (Event.client t addr).clearsNothing s = true) :
    ExcInv (acts ++ [act]) ⟨s', gilAfter gil t (s'.pcs t)⟩ cur := by
  obtain ⟨pc', hpcs, hworker, hop⟩ := clientStep_hop hstep
  have hexc : ∀ c, s.pcs t = .clearing c → s.closeExc = none := by
    intro c hc
    rw [Event.clearsNothing, hc] at hclear
    exact of_decide_eq_true hclear
  obtain ⟨hslot, hplace, hends⟩ := e.hop h rfl hop (e.gil t) hexc hreturned
  refine e.thread hpcs hworker hop.result hslot hplace hends ?_
  -- a thread that waits does without the lock
  rw [Event.mayRun] at hrun
  dsimp only at hrun
  split at hrun
  · next c hpc =>
    rw [hpc] at hop
    exact .inr (.inr hop.of_waiting)
  · rcases of_decide_eq_true hrun with hrun | hrun
    · exact .inl hrun
    · exact .inr (.inl hrun)

/-- What the beginning of a call does. -/
theorem call_hop (hidle : s.pcs t = .idle) (job : Job) (addr : Option ℕ) :
    ∃ pc', (s.call t job addr).1.pcs = Function.update s.pcs t pc' ∧
      (s.call t job addr).1.workerPc = s.workerPc ∧ (s.call t job addr).1.closeExc = s.closeExc ∧
      pc'.holder = none ∧ (∀ acts, PcOk acts pc') ∧ (s.call t job addr).2.result = none ∧
      ∀ call raised, (s.call t job addr).2.ends = some (call, raised) → call = s.calls ∧ raised = none := by
  -- the call ends at once
  have hskip : ∀ act : Act, act.result = none →
      (∀ call raised, act.ends = some (call, raised) → call = s.calls ∧ raised = none) →
      ∃ pc', s.pcs = Function.update s.pcs t pc' ∧ s.workerPc = s.workerPc ∧ s.closeExc = s.closeExc ∧
        pc'.holder = none ∧ (∀ acts, PcOk acts pc') ∧ act.result = none ∧
        ∀ call raised, act.ends = some (call, raised) → call = s.calls ∧ raised = none := by
    intro act hresult hends
    refine ⟨.idle, ?_, rfl, rfl, rfl, fun _ => trivial, hresult, hends⟩
    rw [← hidle]
    exact (Function.update_eq_self t s.pcs).symm
  have hquiet : ∀ call raised, Act.quiet.ends = some (call, raised) → call = s.calls ∧ raised = none :=
    nofun
  have hfailed : ∀ call raised, (Act.failed s.calls).ends = some (call, raised) →
      call = s.calls ∧ raised = none := by
    intro call raised heq
    obtain ⟨rfl, rfl⟩ := Prod.mk.inj (Option.some.inj heq)
    exact ⟨rfl, rfl⟩
  cases job with
  | createChannel procInCb =>
    cases addr with
    | none => exact hskip _ rfl hfailed
    | some a => exact ⟨_, rfl, rfl, rfl, rfl, fun _ => rfl, rfl, hquiet⟩
  | close id =>
    rw [Sys.call]
    split
    · exact hskip _ rfl hfailed
    · cases addr with
      | none => exact hskip _ rfl hfailed
      | some a => exact ⟨_, rfl, rfl, rfl, rfl, fun _ => rfl, rfl, hquiet⟩
  | dealloc id =>
    rw [Sys.call]
    split
    · exact hskip _ rfl hquiet
    · cases addr with
      | none => exact hskip _ rfl hfailed
      | some a => exact ⟨_, rfl, rfl, rfl, rfl, fun _ => trivial, rfl, hquiet⟩
  | shutdown =>
    rw [Sys.call]
    split
    · exact hskip _ rfl hquiet
    · exact ⟨_, rfl, rfl, rfl, rfl, fun _ => trivial, rfl, hquiet⟩

theorem ExcInv.call (e : ExcInv acts ⟨s, gil⟩ cur) (h : SysInv acts s cur batch queue)
    (hidle : s.pcs t = .idle) (job : Job) (addr : Option ℕ)
    (hrun : (Event.call t job addr).mayRun ⟨s, gil⟩ = true) :
    ExcInv (acts ++ [(s.call t job addr).2])
      ⟨(s.call t job addr).1, gilAfter gil t ((s.call t job addr).1.pcs t)⟩ cur := by
  obtain ⟨pc', hpcs, hworker, hexc, hholder, hplace, hresult, hends⟩ := call_hop hidle job addr
  refine e.thread hpcs hworker hresult ?_ (hplace _) (fun call raised heq => ?_)
    (.inl (of_decide_eq_true hrun))
  · rw [hexc, update_same (by rw [hholder, hidle]; rfl)]
    exact e.slot
  · obtain ⟨rfl, rfl⟩ := hends call raised heq
    -- the number of the call is new
    refine (found_of_not_mem (h.found_unsent fun hmem => ?_)).symm
    obtain ⟨sent, hsent, heq⟩ := List.mem_map.mp hmem
    exact absurd (h.calls.bound sent hsent) (heq ▸ Nat.lt_irrefl _)

/-- The steps of the worker, as far as `close_exc` goes. -/
inductive Turn (s : Sys) (env : CmdEnv) (s' : Sys) : Act → Prop
  | other (act : Act) (hact : act.result = none) (hend : act.ends = none)
      (hexc : s'.closeExc = s.closeExc) (hpc : ∀ cmd next out, s.workerPc ≠ .stealing cmd next out)
      (hpc' : ∀ cmd next out, s'.workerPc ≠ .stealing cmd next out) : Turn s env s' act
  | process (cmd : ℕ) (cell : Cell Sent) (w : Worker) (out : CmdOut)
      (hpc : s.workerPc = .atCmd (some cmd)) (hcell : s.heap cmd = some cell)
      (hwork : workerStep s.worker (.command cell.val.cmd env) = some (w, out))
      (hheap : s'.heap = s.heap) (hexc : s'.closeExc = s.closeExc)
      (hpc' : s'.workerPc = .stealing cmd cell.next out) : Turn s env s' (.processed cell.val out)
  | steal (cmd : ℕ) (next : Option ℕ) (out : CmdOut) (cell : Cell Sent)
      (hpc : s.workerPc = .stealing cmd next out) (hcell : s.heap cmd = some cell)
      (hexc : s'.closeExc = (s.steal cell.val.waiter out.exc).closeExc)
      (hpc' : s'.workerPc = .completing cmd next out.status) : Turn s env s' .quiet

/-- What a step of the worker does. -/
theorem workerMove_turn {env : CmdEnv} (h : s.workerMove env = some (s', act)) :
    Apart s' s ∧ s'.workerRunning = s.workerRunning ∧ Turn s env s' act := by
  have hphase : ∀ (phase : Phase) cmd next out, phase.workerPc ≠ .stealing cmd next out := by
    intro phase cmd next out
    cases phase <;> nofun
  rw [Sys.workerMove.eq_def] at h
  cases hpc : s.workerPc with
  | detaching =>
    rw [hpc] at h
    obtain ⟨rfl, rfl⟩ := Prod.mk.inj (Option.some.inj h)
    exact ⟨⟨rfl, rfl, rfl, rfl, rfl⟩, rfl, .other _ rfl rfl rfl (by rw [hpc]; nofun) nofun⟩
  | atCmd cmd =>
    rw [hpc] at h
    cases cmd with
    | none =>
      obtain ⟨p, hwork, heq⟩ := Option.map_eq_some_iff.mp h
      obtain ⟨q, -, rfl⟩ := Option.map_eq_some_iff.mp hwork
      obtain ⟨rfl, rfl⟩ := Prod.mk.inj heq
      exact ⟨⟨rfl, rfl, rfl, rfl, rfl⟩, rfl, .other _ rfl rfl rfl (by rw [hpc]; nofun) (hphase _)⟩
    | some cmd =>
      obtain ⟨cell, hcell, h⟩ := Option.bind_eq_some_iff.mp h
      obtain ⟨p, hwork, heq⟩ := Option.map_eq_some_iff.mp h
      obtain ⟨q, hstep, rfl⟩ := Option.map_eq_some_iff.mp hwork
      obtain ⟨rfl, rfl⟩ := Prod.mk.inj heq
      exact ⟨⟨rfl, rfl, rfl, rfl, rfl⟩, rfl, .process cmd cell q.1 q.2 hpc hcell hstep rfl rfl rfl⟩
  | stealing cmd next out =>
    rw [hpc] at h
    obtain ⟨cell, hcell, heq⟩ := Option.map_eq_some_iff.mp h
    obtain ⟨rfl, rfl⟩ := Prod.mk.inj heq
    have hsteal : Apart (s.steal cell.val.waiter out.exc) s ∧
        (s.steal cell.val.waiter out.exc).workerRunning = s.workerRunning := by
      rw [Sys.steal]
      split <;> exact ⟨⟨rfl, rfl, rfl, rfl, rfl⟩, rfl⟩
    obtain ⟨⟨hpcs, hbusy, hcalls, hqueued, haccepting⟩, hrunning⟩ := hsteal
    exact ⟨⟨hpcs, hbusy, hcalls, hqueued, haccepting⟩, hrunning, .steal cmd next out cell hpc hcell rfl rfl⟩
  | completing cmd next status =>
    rw [hpc] at h
    obtain ⟨cell, hcell, heq⟩ := Option.map_eq_some_iff.mp h
    split at heq
    · obtain ⟨rfl, rfl⟩ := Prod.mk.inj heq
      exact ⟨⟨rfl, rfl, rfl, rfl, rfl⟩, rfl, .other _ rfl rfl rfl (by rw [hpc]; nofun) nofun⟩
    · obtain ⟨rfl, rfl⟩ := Prod.mk.inj heq
      exact ⟨⟨rfl, rfl, rfl, rfl, rfl⟩, rfl, .other _ rfl rfl rfl (by rw [hpc]; nofun) nofun⟩
  | freeing cmd next =>
    rw [hpc] at h
    obtain ⟨s₁, hfree, heq⟩ := Option.map_eq_some_iff.mp h
    obtain ⟨cell, -, rfl⟩ := Option.map_eq_some_iff.mp hfree
    obtain ⟨rfl, rfl⟩ := Prod.mk.inj heq
    exact ⟨⟨rfl, rfl, rfl, rfl, rfl⟩, rfl, .other _ rfl rfl rfl (by rw [hpc]; nofun) nofun⟩
  | outside =>
    rw [hpc] at h
    obtain ⟨p, hwork, heq⟩ := Option.map_eq_some_iff.mp h
    obtain ⟨q, -, rfl⟩ := Option.map_eq_some_iff.mp hwork
    obtain ⟨rfl, rfl⟩ := Prod.mk.inj heq
    exact ⟨⟨rfl, rfl, rfl, rfl, rfl⟩, rfl, .other _ rfl rfl rfl (by rw [hpc]; nofun) (hphase _)⟩
  | leaving =>
    rw [hpc] at h
    obtain ⟨rfl, rfl⟩ := Prod.mk.inj (Option.some.inj h)
    exact ⟨⟨rfl, rfl, rfl, rfl, rfl⟩, rfl, .other _ rfl rfl rfl (by rw [hpc]; nofun) nofun⟩
  | dropping cmd =>
    rw [hpc] at h
    cases cmd with
    | none =>
      obtain ⟨rfl, rfl⟩ := Prod.mk.inj (Option.some.inj h)
      exact ⟨⟨rfl, rfl, rfl, rfl, rfl⟩, rfl, .other _ rfl rfl rfl (by rw [hpc]; nofun) nofun⟩
    | some cmd =>
      obtain ⟨cell, -, h⟩ := Option.bind_eq_some_iff.mp h
      obtain ⟨s₁, hfree, heq⟩ := Option.map_eq_some_iff.mp h
      obtain ⟨cell', -, rfl⟩ := Option.map_eq_some_iff.mp hfree
      obtain ⟨rfl, rfl⟩ := Prod.mk.inj heq
      exact ⟨⟨rfl, rfl, rfl, rfl, rfl⟩, rfl, .other _ rfl rfl rfl (by rw [hpc]; nofun) nofun⟩
  | finished =>
    rw [hpc] at h
    cases h

theorem processAddChannel_exc {self self' : PyRtpProc} {id procInCb : ℕ} {env : CmdEnv} {out : CmdOut}
    (h : processAddChannel self id procInCb env = some (self', out)) : out.exc = none := by
  obtain ⟨⟨self₁, slot⟩, -, h⟩ := Option.bind_eq_some_iff.mp h
  cases slot with
  | none =>
    obtain ⟨-, rfl⟩ := Prod.mk.inj (Option.some.inj h)
    rfl
  | some slot =>
    obtain ⟨c, -, h⟩ := Option.bind_eq_some_iff.mp h
    split at h
    · cases h
    · obtain ⟨self₂, -, h⟩ := Option.bind_eq_some_iff.mp h
      obtain ⟨-, rfl⟩ := Prod.mk.inj (Option.some.inj h)
      rfl

theorem resultOk_of_workerStep {w w' : Worker} {sent : Sent} {env : CmdEnv} {out : CmdOut}
    (h : workerStep w (.command sent.cmd env) = some (w', out)) : ResultOk (sent, out) := by
  rw [workerStep] at h
  split at h
  swap
  · cases h
  obtain ⟨⟨self, out'⟩, hprocess, heq⟩ := Option.map_eq_some_iff.mp h
  obtain ⟨-, rfl⟩ := Prod.mk.inj heq
  unfold ResultOk
  cases hcmd : sent.cmd with
  | addChannel id procInCb =>
    rw [hcmd] at hprocess
    exact processAddChannel_exc hprocess
  | removeChannel id =>
    rw [hcmd] at hprocess
    obtain ⟨p, -, heq⟩ := Option.map_eq_some_iff.mp hprocess
    obtain ⟨-, rfl⟩ := Prod.mk.inj heq
    rfl
  | shutdown =>
    rw [hcmd] at hprocess
    obtain ⟨-, rfl⟩ := Prod.mk.inj (Option.some.inj hprocess)
    rfl

/-- A thread that was rejected is still so when the worker processes a command. -/
theorem PcOk.process {sent : Sent} {out : CmdOut} (h : PcOk acts pc)
    (hasks : ∀ n, sent.asks = some n → pc.stage ≠ .taken) :
    PcOk (acts ++ [.processed sent out]) pc := by
  have haccepted : acceptedOf (acts ++ [.processed sent out]) = acceptedOf acts := by
    rw [acceptedOf_concat]
    exact List.append_nil _
  have hprocessed : processedOf (acts ++ [.processed sent out]) = processedOf acts ++ [(sent, out)] :=
    processedOf_concat _ _
  cases pc with
  | waiting c =>
    refine ⟨h.1, ?_⟩
    rw [SentAs, haccepted]
    exact h.2
  | releasing c status =>
    cases status with
    | none =>
      refine ⟨h.1, fun p hp hp' => ?_⟩
      rw [hprocessed] at hp
      rcases List.mem_append.mp hp with hp | hp
      · exact h.2 p hp hp'
      · rw [List.mem_singleton.mp hp] at hp'
        exact hasks _ hp' rfl
    | some status =>
      obtain ⟨hwaits, hsent, p, hp, hanswer⟩ := h
      refine ⟨hwaits, ?_, p, ?_, hanswer⟩
      · rw [SentAs, haccepted]
        exact hsent
      · rw [hprocessed]
        exact List.mem_append_left _ hp
  | enqueueing c waiter =>
    cases waiter with
    | true => exact h
    | false => trivial
  | _ => exact h

/-- The worker processes a command: it has an exception at hand for a thread that waits. -/
theorem ExcInv.process {a : ℕ} {sent : Sent} {next : Option ℕ} {out : CmdOut} {w w' : Worker}
    {batch' : List (ℕ × Sent)} {env : CmdEnv} (e : ExcInv acts ⟨s, gil⟩ none)
    (h' : SysInv (acts ++ [.processed sent out]) s' (some (a, sent)) batch' queue')
    (hpcs : s'.pcs = s.pcs) (hexc : s'.closeExc = s.closeExc)
    (hpc' : s'.workerPc = .stealing a next out)
    (hwork : workerStep w (.command sent.cmd env) = some (w', out)) :
    ExcInv (acts ++ [.processed sent out]) ⟨s', gil⟩ (some (a, sent)) := by
  have hprocessed : processedOf (acts ++ [.processed sent out]) = processedOf acts ++ [(sent, out)] :=
    processedOf_concat _ _
  have hwindow : window s'.workerPc (some (a, sent)) = sent.asks := by
    rw [hpc']
    rfl
  -- before this, the worker has nothing at hand
  have hslot : SlotInv s.closeExc (Pc.holder ∘ s.pcs) none (found acts) := by
    have hslot := e.slot
    rwa [show window s.workerPc none = none by unfold window; split <;> rfl] at hslot
  refine ⟨?_, hpcs ▸ e.gil, fun t => ?_, fun p hp => ?_, fun cmd next' out' heq => ?_,
    ended_concat e.ended nofun⟩
  · dsimp only
    rw [hwindow, hpcs, hexc]
    cases hasks : sent.asks with
    | none =>
      rw [show found (acts ++ [.processed sent out]) = found acts from
        funext fun n => found_concat_ne (by rw [hasks]; nofun)]
      exact hslot
    | some n =>
      obtain ⟨t, ht⟩ := h'.waits_of_window (hwindow.trans hasks)
      rw [hpcs] at ht
      refine hslot.read (holder_of_waiting ht) (found_of_not_mem fun p hp hp' => ?_)
      -- the call has one command, and this is it
      have hnodup := h'.nodup_processed
      rw [hprocessed, List.map_append] at hnodup
      refine (List.nodup_append'.mp hnodup).2.2 (List.mem_map_of_mem hp) ?_
      rw [(Sent.asks_eq_some.mp hp').2, ← (Sent.asks_eq_some.mp hasks).2]
      exact List.mem_cons_self
  · dsimp only
    rw [hpcs]
    refine (e.places t).process fun n hasks htaken => ?_
    -- the thread that waits for it is another one, which then has the waiter
    obtain ⟨t', ht'⟩ := h'.waits_of_window (hwindow.trans hasks)
    have hout := h'.waiter.out_of_ne (t := t') (by rw [Function.comp_apply, ht']; nofun)
    rw [hpcs] at hout ht'
    by_cases htt : t = t'
    · subst htt
      cases ht'.symm.trans htaken
    · cases (hout t htt).symm.trans htaken
  · rw [hprocessed] at hp
    rcases List.mem_append.mp hp with hp | hp
    · exact e.results p hp
    · rw [List.mem_singleton.mp hp]
      exact resultOk_of_workerStep hwork
  · dsimp only at heq
    rw [hpc'] at heq
    obtain ⟨-, -, rfl⟩ := WorkerPc.stealing.inj heq
    exact ⟨(a, sent), rfl, hprocessed ▸ List.mem_append_right _ List.mem_cons_self⟩

/-- The worker leaves the exception for the thread that waits. -/
theorem ExcInv.stolen {a : ℕ} {sent : Sent} {next : Option ℕ} {out : CmdOut}
    {cur' : Option (ℕ × Sent)} (e : ExcInv acts ⟨s, gil⟩ (some (a, sent)))
    (h : SysInv acts s (some (a, sent)) batch queue) (hpcs : s'.pcs = s.pcs)
    (hpc : s.workerPc = .stealing a next out)
    (hexc : s'.closeExc = (s.steal sent.waiter out.exc).closeExc)
    (hpc' : s'.workerPc = .completing a next out.status) :
    ExcInv (acts ++ [.quiet]) ⟨s', gil⟩ cur' := by
  have hprocessed : processedOf (acts ++ [.quiet]) = processedOf acts := by
    rw [processedOf_concat]
    exact List.append_nil _
  have hfound : found (acts ++ [.quiet]) = found acts := funext fun _ => found_concat_none rfl
  have hwindow : window s.workerPc (some (a, sent)) = sent.asks := by
    rw [hpc]
    rfl
  refine ⟨?_, hpcs ▸ e.gil, fun t => ?_, hprocessed ▸ e.results, fun cmd next' out' heq => ?_,
    ended_concat e.ended nofun⟩
  · have hslot := e.slot
    dsimp only at hslot ⊢
    rw [hwindow] at hslot
    rw [show window s'.workerPc cur' = none by rw [hpc']; rfl, hpcs, hexc, hfound, Sys.steal]
    cases hwaiter : sent.waiter with
    | false =>
      rw [Sent.asks, hwaiter] at hslot
      exact hslot
    | true =>
      have hasks : sent.asks = some sent.call := Sent.asks_eq_some.mpr ⟨hwaiter, rfl⟩
      obtain ⟨x, hx, hmem⟩ := e.at_hand a next out hpc
      obtain rfl := Option.some.inj hx
      obtain ⟨t, ht⟩ := h.waits_of_window (hwindow.trans hasks)
      rw [hasks] at hslot
      have hstolen := hslot.steal (holder_of_waiting ht)
      rw [found_eq h.nodup_processed hmem hasks] at hstolen
      cases hsome : out.exc with
      | some exc =>
        rw [hsome] at hstolen
        exact hstolen
      | none =>
        rw [hsome] at hstolen
        show SlotInv s.closeExc _ _ _
        rw [hslot.pending _ rfl]
        exact hstolen
  · dsimp only
    rw [hpcs]
    exact (e.places t).mono rfl
  · dsimp only at heq
    rw [hpc'] at heq
    cases heq

/-- A step of the worker. -/
theorem ExcInv.worker {cur' : Option (ℕ × Sent)} {batch' : List (ℕ × Sent)} {env : CmdEnv}
    (e : ExcInv acts ⟨s, gil⟩ cur) (h : SysInv acts s cur batch queue)
    (h' : SysInv (acts ++ [act]) s' cur' batch' queue')
    (hstep : s.workerMove env = some (s', act)) : ExcInv (acts ++ [act]) ⟨s', gil⟩ cur' := by
  obtain ⟨⟨hpcs, -, -, -, -⟩, -, hturn⟩ := workerMove_turn hstep
  have hwindow : ∀ {u : Sys} {x : Option (ℕ × Sent)},
      (∀ cmd next out, u.workerPc ≠ .stealing cmd next out) → window u.workerPc x = none := by
    intro u x hu
    unfold window
    split
    · next cmd next out hpc => exact absurd hpc (hu cmd next out)
    · rfl
  have hgil : ∀ t, (s'.pcs t).inGil = true → gil = some t := hpcs ▸ e.gil
  cases hturn with
  | other act hact hend hexc hpc hpc' =>
    have hprocessed : processedOf (acts ++ [act]) = processedOf acts := by
      rw [processedOf_concat, hact, Option.toList_none, List.append_nil]
    have hfound : found (acts ++ [act]) = found acts := funext fun _ => found_concat_none hact
    refine ⟨?_, hgil, fun t => ?_, hprocessed ▸ e.results, fun cmd next out heq => ?_,
      ended_concat e.ended fun call raised heq => ?_⟩
    · have hslot := e.slot
      dsimp only at hslot ⊢
      rw [hwindow hpc] at hslot
      rw [hwindow hpc', hpcs, hexc, hfound]
      exact hslot
    · dsimp only
      rw [hpcs]
      exact (e.places t).mono hact
    · exact absurd heq (hpc' cmd next out)
    · rw [hend] at heq
      cases heq
  | process cmd cell w out hpc hcell hwork hheap hexc hpc' =>
    obtain rfl := h.cur_none (by rw [hpc]; rfl)
    obtain ⟨sent, next, rfl, hcell'⟩ := @SysInv.cur_some _ _ _ _ _ h' cmd (by rw [hpc']; rfl)
    rw [hheap, hcell] at hcell'
    obtain rfl := Option.some.inj hcell'
    exact e.process h' hpcs hexc hpc' hwork
  | steal cmd next out cell hpc hcell hexc hpc' =>
    obtain ⟨sent, next', rfl, hcell'⟩ := @SysInv.cur_some _ _ _ _ _ h cmd (by rw [hpc]; rfl)
    rw [hcell] at hcell'
    obtain rfl := Option.some.inj hcell'
    exact e.stolen h hpcs hpc hexc hpc'

/-- **A step of the system with the lock.** -/
theorem ExcInv.step (e : ExcInv acts ⟨s, gil⟩ cur) (h : SysInv acts s cur batch queue) {event : Event}
    (hfits : event.fits s = true) (hrun : event.mayRun ⟨s, gil⟩ = true)
    (hclear : event.clearsNothing s = true) :
    ∃ g' act cur' batch' queue', gilStep ⟨s, gil⟩ event = some (g', act) ∧
      SysInv (acts ++ [act]) g'.sys cur' batch' queue' ∧ ExcInv (acts ++ [act]) g' cur' := by
  cases event with
  | call t job addr =>
    obtain ⟨hidle, haddr⟩ := Bool.and_eq_true_iff.mp hfits
    have hidle := of_decide_eq_true hidle
    refine ⟨_, _, cur, batch, queue, ?_, h.call hidle job (fresh_of_all haddr), e.call h hidle job addr hrun⟩
    rw [gilStep]
    show ((if s.pcs t = .idle then _ else none).map _) = _
    rw [if_pos hidle]
    rfl
  | client t addr =>
    obtain ⟨hidle, haddr⟩ := Bool.and_eq_true_iff.mp hfits
    obtain ⟨s', act, queue', hstep, h'⟩ := h.clientStep (of_decide_eq_true hidle) (fresh_of_all haddr)
    have hreturned : ∀ call status, act = .returned call status → Answered acts call status := by
      rintro call status rfl
      exact h'.returned acts call status [] rfl
    refine ⟨_, act, cur, batch, queue', ?_, h', e.client h hstep hreturned hrun hclear⟩
    rw [gilStep]
    show ((s.clientStep t addr).map _) = _
    rw [hstep]
    rfl
  | worker env =>
    obtain ⟨s', act, cur', batch', queue', hstep, h'⟩ := h.workerMove (of_decide_eq_true hfits) env
    refine ⟨_, act, cur', batch', queue', ?_, h', e.worker h h' hstep⟩
    rw [gilStep]
    show ((s.workerMove env).map _) = _
    rw [hstep]
    rfl

end steps

/-! ### Runs -/

/-- Two channels are created whose callbacks raise; the first is closed.  Behind the
worker's `proc_set_close_exception_steal` come the steps `other`, and then the first
`close` ends. -/
def closeRun (other : List Event) : List Event :=
  let env : CmdEnv := ⟨some 1000, 5, .raised 9⟩
  let create (t : ℕ) : List Event := [.call t (.createChannel 7) (some 50)] ++
    List.replicate 3 (.client t none) ++ List.replicate 5 (.worker env) ++
    List.replicate 2 (.client t none) ++ List.replicate 3 (.worker env)
  create 0 ++ create 1 ++ [.call 0 (.close 1) (some 50)] ++ List.replicate 4 (.client 0 none) ++
    List.replicate 3 (.worker env) ++ other ++ [.worker env] ++ List.replicate 3 (.client 0 none)

end RtpProc
