/-
What the worker of `RtpProc` does to its channel table.

`workerStep_spec` says once what a step of the worker thread can do: at most one
element of the table changes, and what is returned is told by the elements.

* `workerRun_schedule` — after any sequence of events the list visits exactly the
  scheduled channels, each once and in the order of their times.
-/
import LibRtpSynth.RtpProcSchedule
import LibRtpSynth.Runs

open CWords Linked Runs

namespace RtpProc

/-- What holds of the array and the table between two steps. -/
structure WorkerInv (s : PyRtpProc) (t : Table) : Prop where
  threads : Threads s t
  table : TableInv t
  active : s.channelsActive = t.activeCount
  small : t.slots.length * sizeofProcChannelState < 2 ^ 63

section operations

variable {s s' : PyRtpProc} {t t' : Table} {i : ℕ}

theorem workerInv_new : WorkerInv pyRtpProcNew ⟨[], []⟩ :=
  ⟨⟨rfl, rfl, by simp⟩, tableInv_nil, rfl, by decide⟩

/-- The elements of the array are those of the table. -/
theorem Threads.elem_eq (h : Threads s t) (hi : i < s.elems.length) :
    s.elems[i].bare = t.slot i := by
  rw [Table.slot, ← h.slots, List.getD_eq_getElem?_getD, List.getElem?_map,
    List.getElem?_eq_getElem hi]
  rfl

/-! ### A slot for a channel -/

/-- The array grows to `newCap` elements, and the first new one is free. -/
theorem WorkerInv.grow (h : WorkerInv s t) (addr : ℕ) {newCap : ℕ}
    (hnew : s.elems.length < newCap) (hsmall : newCap * sizeofProcChannelState < 2 ^ 63) :
    ∃ s' t', (if s.channels ≠ addr ∧ s.schedHead ≠ none then
        (rebuildScheduleList (s.grown addr (newCap - s.elems.length))).map fun s' => (s', true)
        else some (s.grown addr (newCap - s.elems.length), true)) = some (s', true) ∧
      WorkerInv s' t' ∧ s.elems.length < t'.slots.length ∧
      (t'.slot s.elems.length).active = false ∧ ∀ j, t'.slot j = t.slot j := by
  have hlen := h.threads.length
  have hlen' : (t.grown (newCap - s.elems.length)).slots.length = newCap := by
    rw [Table.grown, List.length_append, List.length_replicate, ← hlen]
    omega
  have hfree : (t.slot s.elems.length).active = false := by
    rw [Table.slot_of_le (by omega)]
    rfl
  obtain ⟨s', heq, hactive, hthr | hthr⟩ := h.threads.grow addr (newCap - s.elems.length)
  · refine ⟨s', _, heq, ⟨hthr, h.table.grown _, ?_, ?_⟩, ?_, ?_, Table.slot_grown _⟩
    · rw [hactive, h.active, Table.activeCount_grown]
    · rw [hlen']
      exact hsmall
    · rw [hlen']
      exact hnew
    · rw [Table.slot_grown]
      exact hfree
  · have hslot : ∀ j, (t.grown (newCap - s.elems.length)).rebuild.slot j = t.slot j := by
      intro j
      rw [Table.slot, Table.rebuild_slots, ← Table.slot, Table.slot_grown]
    refine ⟨s', _, heq, ⟨hthr, (h.table.grown _).rebuild, ?_, ?_⟩, ?_, ?_, hslot⟩
    · rw [hactive, h.active, Table.activeCount_rebuild, Table.activeCount_grown]
    · rw [Table.rebuild_slots, hlen']
      exact hsmall
    · rw [Table.rebuild_slots, hlen']
      exact hnew
    · rw [hslot]
      exact hfree

/-- **`alloc_channel_slot`** finds an element that is not active, maybe in a longer
array, or it fails and changes nothing. -/
theorem WorkerInv.alloc (h : WorkerInv s t) (addr : Option ℕ) :
    (∃ s' t' i, allocChannelSlot s addr = some (s', some i) ∧ WorkerInv s' t' ∧
      i < t'.slots.length ∧ (t'.slot i).active = false ∧ ∀ j, t'.slot j = t.slot j) ∨
    allocChannelSlot s addr = some (s, none) := by
  have hlen := h.threads.length
  unfold allocChannelSlot
  cases hfind : s.elems.findIdx? fun c => !c.active with
  | some i =>
    obtain ⟨hi, hfree, -⟩ := List.findIdx?_eq_some_iff_getElem.mp hfind
    refine .inl ⟨s, t, i, rfl, h, hlen ▸ hi, ?_, fun _ => rfl⟩
    rw [← h.threads.elem_eq hi]
    exact (Bool.not_eq_true' _).mp hfree
  | none =>
    have hsmall := h.small
    rw [sizeofProcChannelState] at hsmall
    have hcap : s.elems.length < 2 ^ 57 := by omega
    -- the new capacity, as it comes out of the loop
    have hgrow := growCap_eq (by omega : s.elems.length < 2 ^ 62)
    generalize hneed : (if s.elems.length = 0 then 4 else s.elems.length * 2) = newCap at hgrow
    have hnew : s.elems.length < newCap ∧ newCap < 2 ^ 58 := by
      rw [← hneed]
      split <;> omega
    have hmod : (if s.elems.length = 0 then 4 else s.elems.length * 2 % 2 ^ 64) = newCap := by
      rw [← hneed]
      split
      · rfl
      · exact Nat.mod_eq_of_lt (by omega)
    rw [hmod] at hgrow
    simp only [Option.bind_eq_bind, hmod]
    unfold ensureChannelCapacity
    rw [if_neg (Nat.not_le.mpr hnew.1), hgrow]
    dsimp only
    have hsize : newCap * sizeofProcChannelState % 2 ^ 64 = newCap * sizeofProcChannelState := by
      rw [sizeofProcChannelState]
      exact Nat.mod_eq_of_lt (by omega)
    rw [hsize, realloc]
    by_cases hbig : newCap * sizeofProcChannelState < 2 ^ 63
    swap
    · rw [if_neg hbig]
      exact .inr rfl
    rw [if_pos hbig]
    cases addr with
    | none => exact .inr rfl
    | some addr =>
      dsimp only
      rw [if_neg (Nat.lt_irrefl _)]
      obtain ⟨s', t', heq, h', hlt, hfree, hslot⟩ := h.grow addr hnew.1 hbig
      rw [heq]
      exact .inl ⟨s', t', s.elems.length, rfl, h', hlt, hfree, hslot⟩

/-! ### Callbacks and commands -/

/-- A channel after its callback. -/
def ProcChannelState.called (c : ProcChannelState) (runAt : ℕ → ℕ) : CbResult → ProcChannelState
  | .time nextNs => { c with nextRunNs := runAt nextNs, scheduled := true }
  | .raised exc => c.withExc (some exc)
  | .pyNone | .noMemory => c

/-- What a callback does is taken into the table. -/
theorem WorkerInv.takeResult (h : WorkerInv s t) (ha : (t.slot i).active = true)
    (hout : i ∉ t.queue) (runAt : ℕ → ℕ) (result : CbResult) :
    ∃ s' t', takeResult s (s.ptr i) runAt result = some s' ∧ WorkerInv s' t' ∧
      ∀ j, t'.slot j = if j = i then (t.slot i).called runAt result else t.slot j := by
  have hi := Table.lt_of_active ha
  have hnothing : ∀ j, t.slot j = if j = i then t.slot i else t.slot j := by
    intro j
    split
    · rename_i hj
      rw [hj]
    · rfl
  cases result with
  | time nextNs =>
    obtain ⟨s', heq, hk, hthr⟩ := h.threads.schedule hi (fun hmem => absurd hmem hout) (runAt nextNs)
    refine ⟨s', _, heq, ⟨hthr, h.table.schedule ha _, ?_, ?_⟩, Table.slot_schedule hi _⟩
    · rw [hk.channelsActive, h.active, Table.activeCount_schedule hi]
    · have hlen : (t.schedule i (runAt nextNs)).slots.length = t.slots.length :=
        Table.length_put.trans Table.length_unschedule
      rw [hlen]
      exact h.small
  | raised exc =>
    obtain ⟨c, hc, hbare⟩ := h.threads.deref hi
    have hput := h.threads.put_exc hc (some exc)
    rw [hbare] at hput
    refine ⟨_, _, ?_, ⟨hput, h.table.put_same hi rfl rfl rfl rfl, ?_, ?_⟩, fun j => Table.slot_put hi⟩
    · rw [RtpProc.takeResult, channelSetCallbackException, hc]
      rfl
    · exact h.active.trans (Table.activeCount_put_exc hi (some exc)).symm
    · rw [Table.length_put]
      exact h.small
  | pyNone => exact ⟨s, t, rfl, h, hnothing⟩
  | noMemory => exact ⟨s, t, rfl, h, hnothing⟩

/-- The time a channel is first scheduled for. -/
def firstRunAt (nowNs nextNs : ℕ) : ℕ := if nextNs < nowNs then nowNs else nextNs

/-- **`CMD_ADD_CHANNEL`**: one element becomes the channel, or nothing changes and
the status is `ENOMEM`. -/
theorem WorkerInv.addChannel (h : WorkerInv s t) (id procInCb : ℕ) (env : CmdEnv) :
    (∃ s' t' i, processAddChannel s id procInCb env =
        some (s', ⟨0, none, invokeProcCallback id env.nowNs 0 env.result⟩) ∧ WorkerInv s' t' ∧
      (t.slot i).active = false ∧ ∀ j, t'.slot j =
        if j = i then ((t.slot i).filled id procInCb).called (firstRunAt env.nowNs) env.result
        else t.slot j) ∨
    processAddChannel s id procInCb env = some (s, ⟨enomem, none, none⟩) := by
  simp only [processAddChannel, Option.bind_eq_bind]
  rcases h.alloc env.addr with ⟨s₁, t₁, i, heq, h₁, hi, hfree, hslot⟩ | heq
  swap
  · rw [heq]
    exact .inr rfl
  obtain ⟨c, hc, hbare⟩ := h₁.threads.deref hi
  have hinactive : c.active = false := by
    rw [← hfree, ← hbare]
    rfl
  have hout : i ∉ t₁.queue := by
    rw [h₁.table.queue_iff, hfree]
    exact fun hc => absurd hc.1 Bool.false_ne_true
  rw [heq, Option.bind_some]
  simp only [hc, Option.bind_some, hinactive, Bool.false_eq_true, if_false]
  have hput := h₁.threads.put hi hout (c.filled id procInCb)
  rw [show (c.filled id procInCb).bare = c.bare.filled id procInCb from rfl, hbare, hslot] at hput
  have hself : (t₁.put i ((t.slot i).filled id procInCb)).slot i = (t.slot i).filled id procInCb :=
    (Table.slot_put hi).trans (if_pos rfl)
  have hinv : WorkerInv ((s₁.store (s₁.ptr i) (c.filled id procInCb)).withActive
      (s₁.channelsActive + 1)) (t₁.put i ((t.slot i).filled id procInCb)) := by
    refine ⟨⟨hput.slots, hput.lists, hput.inside⟩,
      h₁.table.put hi hout rfl fun _ => Option.some_ne_none _, ?_, ?_⟩
    · show s₁.channelsActive + 1 = _
      rw [Table.activeCount_put hi, hfree, h₁.active]
      rfl
    · rw [Table.length_put]
      exact h₁.small
  obtain ⟨s', t', heq', h', hslot'⟩ := hinv.takeResult (i := i) (by rw [hself]; rfl) hout
    (firstRunAt env.nowNs) env.result
  refine .inl ⟨s', t', i, ?_, h', by rw [← hslot]; exact hfree, fun j => ?_⟩
  · show (RtpProc.takeResult _ _ (firstRunAt env.nowNs) env.result).bind _ = _
    rw [show RtpProc.takeResult _ (s₁.ptr i) _ _ = _ from heq']
    rfl
  · rw [hslot' j, hself]
    split
    · rfl
    · rename_i hj
      rw [Table.slot_put hi, if_neg hj, hslot]

/-- **`CMD_REMOVE_CHANNEL`**: the element of the channel is released, and its
exception returned. -/
theorem WorkerInv.removeChannel (h : WorkerInv s t) (id : ℕ) :
    (∃ s' t' i, removeChannel s id = some (s', (t.slot i).cbExc) ∧ WorkerInv s' t' ∧
      (t.slot i).active = true ∧ (t.slot i).id = id ∧ (t'.slot i).active = false ∧
      ∀ j, j ≠ i → t'.slot j = t.slot j) ∨
    (removeChannel s id = some (s, none) ∧
      ∀ i, (t.slot i).active = true → (t.slot i).id ≠ id) := by
  unfold RtpProc.removeChannel findChannelIndex
  cases hfind : s.elems.findIdx? fun c => c.active && decide (c.id = id) with
  | none =>
    refine .inr ⟨rfl, fun i ha hid => ?_⟩
    have hi : i < s.elems.length := by
      rw [h.threads.length]
      exact Table.lt_of_active ha
    have hno := List.findIdx?_eq_none_iff.mp hfind s.elems[i] (List.getElem_mem hi)
    rw [← h.threads.elem_eq hi] at ha hid
    have hyes : (s.elems[i].active && decide (s.elems[i].id = id)) = true :=
      Bool.and_eq_true_iff.mpr ⟨ha, decide_eq_true hid⟩
    rw [hyes] at hno
    cases hno
  | some i =>
    obtain ⟨hi, hyes, -⟩ := List.findIdx?_eq_some_iff_getElem.mp hfind
    have hmatch := Bool.and_eq_true_iff.mp hyes
    have hbare := h.threads.elem_eq hi
    have ha : (t.slot i).active = true := by
      rw [← hbare]
      exact hmatch.1
    have hid : (t.slot i).id = id := by
      rw [← hbare]
      exact of_decide_eq_true hmatch.2
    have hc : s.deref (s.ptr i) = some s.elems[i] := by
      rw [deref_ptr, List.getElem?_eq_getElem hi]
    have hi' := Table.lt_of_active ha
    simp only [hc, Option.bind_eq_bind, Option.bind_some]
    -- the exception is taken out before the element is released
    have hput := h.threads.put_exc hc none
    rw [hbare] at hput
    have hinv := h.table.put_same (c := (t.slot i).withExc none) hi' rfl rfl rfl rfl
    have ha₁ : ((t.put i ((t.slot i).withExc none)).slot i).active = true := by
      rw [Table.slot_put hi', if_pos rfl]
      exact ha
    obtain ⟨s', heq, hk, hthr⟩ := hput.release (by rw [Table.length_put]; exact hi') hinv.flag
    rw [show releaseChannelState _ (s.ptr i) = _ from heq, Option.bind_some]
    refine .inl ⟨s'.withActive (s'.channelsActive - 1), (t.put i ((t.slot i).withExc none)).release i,
      i, ?_, ⟨⟨hthr.slots, hthr.lists, hthr.inside⟩, hinv.release i, ?_, ?_⟩, ha, hid,
      Table.slot_release_self i, fun j hj => ?_⟩
    · rw [← hbare]
      rfl
    · show s'.channelsActive - 1 = _
      rw [Table.activeCount_release ha₁, Table.activeCount_put_exc hi', hk.channelsActive]
      exact congrArg (· - 1) h.active
    · rw [Table.release_of_active ha₁, Table.length_put, Table.length_unschedule, Table.length_put]
      exact h.small
    · rw [Table.slot_release_of_ne hj, Table.slot_put hi', if_neg hj]

/-- **A round of the loop over the due channels**: the first channel of the queue
is called when its time has come, and no channel of the queue has an earlier time. -/
theorem WorkerInv.dueRound (h : WorkerInv s t) (nowNs : ℕ) (result : CbResult) (nextNow : ℕ) :
    (∃ s' t' i, dueRound s nowNs result nextNow = some (s', some nextNow,
        invokeProcCallback (t.slot i).id nowNs (t.slot i).nextRunNs result) ∧ WorkerInv s' t' ∧
      i ∈ t.queue ∧ (∀ j ∈ t.queue, (t.slot i).nextRunNs ≤ (t.slot j).nextRunNs) ∧
      (t.slot i).nextRunNs ≤ nowNs ∧ ∀ j, t'.slot j =
        if j = i then
          ({ t.slot i with scheduled := false } : ProcChannelState).called (fun n => n) result
        else t.slot j) ∨
    dueRound s nowNs result nextNow = some (s, none, none) := by
  simp only [RtpProc.dueRound, Option.bind_eq_bind]
  rcases h.threads.pop nowNs with ⟨i, q, c, s₁, hq, hdue, heq, hk, hc, hbare, hthr⟩ | ⟨-, heq⟩
  swap
  · rw [heq]
    exact .inr rfl
  have hmem : i ∈ t.queue := hq ▸ List.mem_cons_self
  have hflags := (h.table.queue_iff i).mp hmem
  have hi := Table.lt_of_active hflags.1
  -- taking the head off the queue is what `unschedule_channel` does
  have hun : (⟨t.slots.set i { t.slot i with scheduled := false }, q⟩ : Table) = t.unschedule i := by
    rw [Table.unschedule_of_scheduled hflags.2, hq, List.erase_cons_head]
  have hthr' : Threads s₁ (t.unschedule i) := hun ▸ hthr
  have hself := Table.slot_unschedule_self hi
  have hinv : WorkerInv s₁ (t.unschedule i) := by
    refine ⟨hthr', h.table.unschedule hi, ?_, ?_⟩
    · rw [hk.channelsActive, h.active, Table.activeCount_unschedule hi]
    · rw [Table.length_unschedule]
      exact h.small
  rw [hk.ptr] at hc
  rw [heq, Option.bind_some]
  simp only [hc, Option.bind_some]
  have hfields : c.active = true ∧ c.procInCb = (t.slot i).procInCb ∧ c.id = (t.slot i).id ∧
      c.nextRunNs = (t.slot i).nextRunNs := by
    have hf : ∀ {α : Type} (f : ProcChannelState → α), f c.bare = f { t.slot i with scheduled := false } :=
      fun f => congrArg f hbare
    exact ⟨(hf ProcChannelState.active).trans hflags.1, hf ProcChannelState.procInCb,
      hf ProcChannelState.id, hf ProcChannelState.nextRunNs⟩
  have hcb := h.table.cb i hflags.1
  rw [if_neg (by
    rw [hfields.1, hfields.2.1]
    rintro (hc | hc)
    · exact absurd hc Bool.false_ne_true
    · exact hcb hc)]
  obtain ⟨s', t', heq', h', hslot⟩ := hinv.takeResult (i := i) (by rw [hself]; exact hflags.1)
    (h.table.notMem_unschedule i) (fun n => n) result
  rw [hk.ptr] at heq'
  rw [heq', Option.bind_some, hfields.2.2.1, hfields.2.2.2]
  refine .inl ⟨s', t', i, rfl, h', hmem, fun j hj => ?_, hdue, fun j => ?_⟩
  · have hsorted := h.table.sorted
    rw [hq] at hsorted hj
    rcases List.mem_cons.mp hj with rfl | hj
    · exact le_refl _
    · exact (List.pairwise_cons.mp hsorted).1 j hj
  · rw [hslot j, hself]
    split
    · rfl
    · rename_i hj
      exact Table.slot_unschedule_of_ne hj

theorem WorkerInv.releaseAll : ∀ (idxs : List ℕ) {s : PyRtpProc} {t : Table}, Threads s t →
    TableInv t → (∀ i ∈ idxs, i < t.slots.length) →
    ∃ s', idxs.foldlM (fun s i => releaseChannelState s (s.ptr i)) s = some s' := by
  intro idxs
  induction idxs with
  | nil => exact fun {s} _ _ _ _ => ⟨s, rfl⟩
  | cons i idxs ih =>
    intro s t h hinv hidx
    obtain ⟨s₁, heq, -, h₁⟩ := h.release (hidx i List.mem_cons_self) hinv.flag
    obtain ⟨s', heq'⟩ := ih h₁ (hinv.release i) fun j hj => by
      rw [Table.length_release]
      exact hidx j (List.mem_cons_of_mem i hj)
    refine ⟨s', ?_⟩
    rw [List.foldlM_cons, heq]
    exact heq'

theorem WorkerInv.clear (h : WorkerInv s t) : clearChannels s = some ⟨0, [], 0, none⟩ := by
  obtain ⟨s', heq⟩ := WorkerInv.releaseAll (List.range s.elems.length) h.threads h.table fun i hi => by
    rw [← h.threads.length]
    exact List.mem_range.mp hi
  rw [clearChannels, heq]
  rfl

end operations

/-! ### Steps of the worker -/

/-- The events that can come in a phase. -/
def WorkerEvent.fits : WorkerEvent → Phase → Bool
  | .command _ _, .commands _ => true
  | .batchEnd _, .commands _ => true
  | .dueRound _ _, .due _ => true
  | .woken, .wait => true
  | _, _ => false

/-- The identity that a `CMD_ADD_CHANNEL` brings. -/
def WorkerEvent.adds : WorkerEvent → Option ℕ
  | .command (.addChannel id _) _ => some id
  | _ => none

/-- The identity that a `CMD_REMOVE_CHANNEL` takes away. -/
def WorkerEvent.removes : WorkerEvent → Option ℕ
  | .command (.removeChannel id) _ => some id
  | _ => none

theorem fits_of_step {w w' : Worker} {event : WorkerEvent} {out : CmdOut}
    (h : workerStep w event = some (w', out)) : event.fits w.phase = true := by
  obtain ⟨s, phase⟩ := w
  cases event <;> cases phase <;> first | rfl | cases h

/-- What a step does to the table, and what it returns. -/
inductive Effect (t t' : Table) : WorkerEvent → CmdOut → Prop
  | quiet {event : WorkerEvent} (hadd : event.adds = none) (hremove : event.removes = none)
      (hslot : ∀ j, t'.slot j = t.slot j) : Effect t t' event ⟨0, none, none⟩
  | full {id procInCb : ℕ} {env : CmdEnv} (hslot : ∀ j, t'.slot j = t.slot j) :
      Effect t t' (.command (.addChannel id procInCb) env) ⟨enomem, none, none⟩
  | added {id procInCb : ℕ} {env : CmdEnv} (i : ℕ) (hfree : (t.slot i).active = false)
      (hslot : ∀ j, t'.slot j =
        if j = i then ((t.slot i).filled id procInCb).called (firstRunAt env.nowNs) env.result
        else t.slot j) :
      Effect t t' (.command (.addChannel id procInCb) env)
        ⟨0, none, invokeProcCallback id env.nowNs 0 env.result⟩
  | absent {id : ℕ} {env : CmdEnv} (hno : ∀ i, (t.slot i).active = true → (t.slot i).id ≠ id)
      (hslot : ∀ j, t'.slot j = t.slot j) :
      Effect t t' (.command (.removeChannel id) env) ⟨0, none, none⟩
  | removed {env : CmdEnv} (i : ℕ) (hactive : (t.slot i).active = true)
      (hgone : (t'.slot i).active = false) (hslot : ∀ j, j ≠ i → t'.slot j = t.slot j) :
      Effect t t' (.command (.removeChannel (t.slot i).id) env) ⟨0, (t.slot i).cbExc, none⟩
  | ran {result : CbResult} {nextNow : ℕ} (i nowNs : ℕ) (hmem : i ∈ t.queue)
      (hmin : ∀ j ∈ t.queue, (t.slot i).nextRunNs ≤ (t.slot j).nextRunNs)
      (hdue : (t.slot i).nextRunNs ≤ nowNs)
      (hslot : ∀ j, t'.slot j =
        if j = i then
          ({ t.slot i with scheduled := false } : ProcChannelState).called (fun n => n) result
        else t.slot j) :
      Effect t t' (.dueRound result nextNow)
        ⟨0, none, invokeProcCallback (t.slot i).id nowNs (t.slot i).nextRunNs result⟩
  | cleared {nowNs : ℕ} (hslot : ∀ j, (t'.slot j).active = false) :
      Effect t t' (.batchEnd nowNs) ⟨0, none, none⟩

/-- **What a step of the worker can do.** -/
theorem workerStep_spec {w : Worker} {t : Table} {event : WorkerEvent} (h : WorkerInv w.self t)
    (hfits : event.fits w.phase = true) :
    ∃ w' out t', workerStep w event = some (w', out) ∧ WorkerInv w'.self t' ∧
      Effect t t' event out ∧ (out.status = enomem → w'.self = w.self) := by
  obtain ⟨s, phase⟩ := w
  have hzero : (0 : ℕ) ≠ enomem := by decide
  cases event with
  | command cmd env =>
    cases phase with
    | commands shutdownSeen =>
      cases cmd with
      | addChannel id procInCb =>
        rw [workerStep]
        dsimp only
        rw [processCommand]
        rcases h.addChannel id procInCb env with ⟨s', t', i, heq, h', hfree, hslot⟩ | heq
        · rw [heq]
          exact ⟨_, _, t', rfl, h', .added i hfree hslot, fun hs => absurd hs hzero⟩
        · rw [heq]
          exact ⟨_, _, t, rfl, h, .full fun _ => rfl, fun _ => rfl⟩
      | removeChannel id =>
        rw [workerStep]
        dsimp only
        rw [processCommand]
        rcases h.removeChannel id with ⟨s', t', i, heq, h', ha, rfl, hgone, hslot⟩ | ⟨heq, hno⟩
        · rw [heq]
          exact ⟨_, _, t', rfl, h', .removed i ha hgone hslot, fun hs => absurd hs hzero⟩
        · rw [heq]
          exact ⟨_, _, t, rfl, h, .absent hno fun _ => rfl, fun _ => rfl⟩
      | shutdown => exact ⟨_, _, t, rfl, h, .quiet rfl rfl fun _ => rfl, fun _ => rfl⟩
    | due nowNs => cases hfits
    | wait => cases hfits
    | exited => cases hfits
  | batchEnd nowNs =>
    cases phase with
    | commands shutdownSeen =>
      cases shutdownSeen with
      | false => exact ⟨_, _, t, rfl, h, .quiet rfl rfl fun _ => rfl, fun _ => rfl⟩
      | true =>
        refine ⟨⟨⟨0, [], 0, none⟩, .exited⟩, ⟨0, none, none⟩, ⟨[], []⟩, ?_, workerInv_new,
          .cleared fun j => ?_, fun hs => absurd hs hzero⟩
        · rw [workerStep]
          dsimp only
          rw [h.clear]
          rfl
        · rw [Table.slot_of_le (Nat.zero_le j)]
          rfl
    | due nowNs' => cases hfits
    | wait => cases hfits
    | exited => cases hfits
  | dueRound result nextNow =>
    cases phase with
    | due nowNs =>
      rw [workerStep]
      dsimp only
      rcases h.dueRound nowNs result nextNow with
        ⟨s', t', i, heq, h', hmem, hmin, hdue, hslot⟩ | heq
      · rw [heq]
        exact ⟨_, _, t', rfl, h', .ran i nowNs hmem hmin hdue hslot, fun hs => absurd hs hzero⟩
      · rw [heq]
        exact ⟨_, _, t, rfl, h, .quiet rfl rfl fun _ => rfl, fun _ => rfl⟩
    | commands shutdownSeen => cases hfits
    | wait => cases hfits
    | exited => cases hfits
  | woken =>
    cases phase with
    | wait =>
      -- the head of the list can be read
      have hhead := h.threads.lists.get_eq
      rw [show (s.links).get none = s.schedHead from rfl, List.head?_map] at hhead
      rw [workerStep]
      dsimp only
      rw [hhead]
      cases hq : t.queue with
      | nil => exact ⟨_, _, t, rfl, h, .quiet rfl rfl fun _ => rfl, fun _ => rfl⟩
      | cons i q =>
        obtain ⟨c, hc, -⟩ := h.threads.deref_queue (hq ▸ List.mem_cons_self : i ∈ t.queue)
        rw [List.head?_cons, Option.map_some]
        dsimp only
        rw [hc]
        exact ⟨_, _, t, rfl, h, .quiet rfl rfl fun _ => rfl, fun _ => rfl⟩
    | commands shutdownSeen => cases hfits
    | due nowNs => cases hfits
    | exited => cases hfits

/-! ### The schedule after any sequence of events -/

/-- The list of the schedule is `ps`: elements of the array, each once, those that
are active and scheduled, in the order of their times. -/
structure Schedule (s : PyRtpProc) (ps : List ChPtr) : Prop where
  lists : ListsFrom s.links none ps
  nodup : ps.Nodup
  mem_iff : ∀ p, p ∈ ps ↔ ∃ c, s.deref p = some c ∧ c.active = true ∧ c.scheduled = true
  sorted : ps.Pairwise fun p q => ∀ c d, s.deref p = some c → s.deref q = some d →
    c.nextRunNs ≤ d.nextRunNs
  channelsActive : s.channelsActive = s.elems.countP ProcChannelState.active

/-- Different active elements are different channels. -/
def DistinctIds (s : PyRtpProc) : Prop :=
  ∀ p q c d, s.deref p = some c → s.deref q = some d → c.active = true → d.active = true →
    c.id = d.id → p = q

/-- The identities that come in with the events. -/
def addedIds (events : List WorkerEvent) : List ℕ := events.filterMap WorkerEvent.adds

section schedule

variable {s : PyRtpProc} {t t' : Table} {event : WorkerEvent} {out : CmdOut}

theorem Threads.bare_of_deref (h : Threads s t) {p : ChPtr} {c : ProcChannelState}
    (hc : s.deref p = some c) : p = s.ptr p.slot ∧ c.bare = t.slot p.slot := by
  have hp := eq_ptr_of_deref hc
  refine ⟨hp, ?_⟩
  rw [hp, deref_ptr] at hc
  obtain ⟨hi, rfl⟩ := List.getElem?_eq_some_iff.mp hc
  exact h.elem_eq hi

theorem WorkerInv.schedule (h : WorkerInv s t) : Schedule s (t.queue.map s.ptr) := by
  refine ⟨h.threads.lists, h.threads.lists.nodup, fun p => ⟨?_, ?_⟩, ?_, ?_⟩
  · intro hp
    obtain ⟨i, hi, rfl⟩ := List.mem_map.mp hp
    obtain ⟨c, hc, hbare⟩ := h.threads.deref_queue hi
    have hflags := (h.table.queue_iff i).mp hi
    rw [← hbare] at hflags
    exact ⟨c, hc, hflags⟩
  · rintro ⟨c, hc, ha, hs⟩
    obtain ⟨hp, hbare⟩ := h.threads.bare_of_deref hc
    rw [hp]
    refine List.mem_map_of_mem ((h.table.queue_iff p.slot).mpr ?_)
    rw [← hbare]
    exact ⟨ha, hs⟩
  · rw [List.pairwise_map]
    refine h.table.sorted.imp @fun i j hle c d hc hd => ?_
    have hci : c.bare = t.slot i := (h.threads.bare_of_deref hc).2
    have hdj : d.bare = t.slot j := (h.threads.bare_of_deref hd).2
    rw [← hci, ← hdj] at hle
    exact hle
  · rw [h.active, Table.activeCount, ← h.threads.slots, List.countP_map]
    rfl

/-- The active elements have different identities, which came in. -/
structure IdsInv (ids : List ℕ) (t : Table) : Prop where
  known : ∀ i, (t.slot i).active = true → (t.slot i).id ∈ ids
  distinct : ∀ i j, (t.slot i).active = true → (t.slot j).active = true →
    (t.slot i).id = (t.slot j).id → i = j

theorem IdsInv.distinctIds {ids : List ℕ} (h : IdsInv ids t) (hw : WorkerInv s t) : DistinctIds s := by
  intro p q c d hc hd ha hb hid
  obtain ⟨hp, hbp⟩ := hw.threads.bare_of_deref hc
  obtain ⟨hq, hbq⟩ := hw.threads.bare_of_deref hd
  rw [hp, hq]
  refine congrArg s.ptr (h.distinct p.slot q.slot ?_ ?_ ?_)
  · rw [← hbp]
    exact ha
  · rw [← hbq]
    exact hb
  · rw [← hbp, ← hbq]
    exact hid

theorem called_active (c : ProcChannelState) (runAt : ℕ → ℕ) (result : CbResult) :
    (c.called runAt result).active = c.active := by cases result <;> rfl

theorem called_id (c : ProcChannelState) (runAt : ℕ → ℕ) (result : CbResult) :
    (c.called runAt result).id = c.id := by cases result <;> rfl

/-- Elements that are active after a step were so before, with the same identity,
unless the step has added them. -/
theorem Effect.active_cases (h : Effect t t' event out) (htable : TableInv t) {j : ℕ}
    (hj : (t'.slot j).active = true) :
    ((t.slot j).active = true ∧ (t'.slot j).id = (t.slot j).id) ∨
      ((t.slot j).active = false ∧ event.adds = some (t'.slot j).id) := by
  cases h with
  | quiet _ _ hslot =>
    rw [hslot] at hj ⊢
    exact .inl ⟨hj, rfl⟩
  | full hslot =>
    rw [hslot] at hj ⊢
    exact .inl ⟨hj, rfl⟩
  | @added id procInCb env i hfree hslot =>
    rw [hslot] at hj ⊢
    by_cases hji : j = i
    · rw [if_pos hji, hji, called_id]
      exact .inr ⟨hfree, rfl⟩
    · rw [if_neg hji] at hj ⊢
      exact .inl ⟨hj, rfl⟩
  | absent _ hslot =>
    rw [hslot] at hj ⊢
    exact .inl ⟨hj, rfl⟩
  | removed i _ hgone hslot =>
    have hji : j ≠ i := by
      rintro rfl
      rw [hgone] at hj
      cases hj
    rw [hslot j hji] at hj ⊢
    exact .inl ⟨hj, rfl⟩
  | ran i nowNs hmem _ _ hslot =>
    rw [hslot] at hj ⊢
    by_cases hji : j = i
    · rw [if_pos hji, hji, called_id]
      exact .inl ⟨((htable.queue_iff i).mp hmem).1, rfl⟩
    · rw [if_neg hji] at hj ⊢
      exact .inl ⟨hj, rfl⟩
  | cleared hslot =>
    rw [hslot] at hj
    cases hj

/-- A step adds at most one element. -/
theorem Effect.added_unique (h : Effect t t' event out) {i j : ℕ}
    (hi : (t.slot i).active = false) (hi' : (t'.slot i).active = true)
    (hj : (t.slot j).active = false) (hj' : (t'.slot j).active = true) : i = j := by
  cases h with
  | quiet _ _ hslot | full hslot | absent _ hslot =>
    rw [hslot, hi] at hi'
    cases hi'
  | added k _ hslot =>
    have hk : ∀ m, (t.slot m).active = false → (t'.slot m).active = true → m = k := by
      intro m hm hm'
      by_contra hne
      rw [hslot, if_neg hne, hm] at hm'
      cases hm'
    rw [hk i hi hi', hk j hj hj']
  | removed k _ hgone hslot =>
    by_cases hik : i = k
    · rw [hik, hgone] at hi'
      cases hi'
    · rw [hslot i hik, hi] at hi'
      cases hi'
  | ran k nowNs _ _ _ hslot =>
    by_cases hik : i = k
    · rw [hslot, if_pos hik, called_active] at hi'
      rw [hik] at hi
      rw [show (ProcChannelState.active { t.slot k with scheduled := false }) = (t.slot k).active
        from rfl, hi] at hi'
      cases hi'
    · rw [hslot, if_neg hik, hi] at hi'
      cases hi'
  | cleared hslot =>
    rw [hslot] at hi'
    cases hi'

theorem IdsInv.step {ids : List ℕ} (h : IdsInv ids t) (heff : Effect t t' event out)
    (htable : TableInv t) (hfresh : ∀ id ∈ event.adds, id ∉ ids) :
    IdsInv (ids ++ event.adds.toList) t' := by
  constructor
  · intro i hi
    rcases heff.active_cases htable hi with ⟨ha, hid⟩ | ⟨-, hadd⟩
    · rw [hid]
      exact List.mem_append_left _ (h.known i ha)
    · rw [hadd]
      exact List.mem_append_right _ List.mem_cons_self
  · intro i j hi hj hid
    rcases heff.active_cases htable hi with ⟨hai, hidi⟩ | ⟨hai, haddi⟩
    · rcases heff.active_cases htable hj with ⟨haj, hidj⟩ | ⟨haj, haddj⟩
      · rw [hidi, hidj] at hid
        exact h.distinct i j hai haj hid
      · rw [← hid, hidi] at haddj
        exact absurd (h.known i hai) (hfresh _ haddj)
    · rcases heff.active_cases htable hj with ⟨haj, hidj⟩ | ⟨haj, haddj⟩
      · rw [hid, hidj] at haddi
        exact absurd (h.known j haj) (hfresh _ haddi)
      · exact heff.added_unique hai hi haj hj

theorem addedIds_concat (events : List WorkerEvent) (event : WorkerEvent) :
    addedIds (events ++ [event]) = addedIds events ++ event.adds.toList := by
  rw [addedIds, List.filterMap_append, ← addedIds]
  cases h : event.adds with
  | none => rw [List.filterMap_cons_none h]; rfl
  | some id => rw [List.filterMap_cons_some h]; rfl

end schedule

/-- What holds of a worker in a run. -/
theorem workerInv_of_run {events : List WorkerEvent}
    (hfits : Always workerStep (fun w event => event.fits w.phase = true) workerStart events) :
    ∃ w outs, run workerStep workerStart events = some (w, outs) ∧
      ∃ t, WorkerInv w.self t ∧ ((addedIds events).Nodup → IdsInv (addedIds events) t) := by
  refine run_total (fun _ => True) (fun events _ w =>
    ∃ t, WorkerInv w.self t ∧ ((addedIds events).Nodup → IdsInv (addedIds events) t))
    (fun _ => trivial) ?_ ?_ trivial hfits
  · refine ⟨⟨[], []⟩, workerInv_new, fun _ => ⟨fun i hi => ?_, fun i _ hi => ?_⟩⟩
    all_goals
      rw [Table.slot_of_le (Nat.zero_le i)] at hi
      cases hi
  · rintro events outs w event - ⟨t, hw, hids⟩ hfit
    obtain ⟨w', out, t', hstep, hw', heff, -⟩ := workerStep_spec hw hfit
    refine ⟨w', out, hstep, t', hw', fun hnd => ?_⟩
    rw [addedIds_concat] at hnd ⊢
    obtain ⟨hnd1, -, hdis⟩ := List.nodup_append.mp hnd
    refine (hids hnd1).step heff hw.table fun id hadd hmem => ?_
    rw [Option.mem_def] at hadd
    rw [hadd] at hdis
    exact hdis id hmem id List.mem_cons_self rfl

/-- **The schedule.**  After any sequence of events the list that starts at
`sched_head` runs through elements of the array, exactly the active scheduled
ones, each once and in the order of their times, and `channels_active` counts the
active elements.  Every channel has an identity of its own, as `create_channel`
gives it one.  When a growth fails, nothing has changed. -/
theorem workerRun_schedule {events : List WorkerEvent}
    (hfits : Always workerStep (fun w event => event.fits w.phase = true) workerStart events) :
    ∃ w outs, run workerStep workerStart events = some (w, outs) ∧
      (∃ ps, Schedule w.self ps) ∧
      ((addedIds events).Nodup → DistinctIds w.self) ∧
      ∀ event w' out, workerStep w event = some (w', out) → out.status = enomem →
        w'.self = w.self := by
  obtain ⟨w, outs, hrun, t, hw, hids⟩ := workerInv_of_run hfits
  refine ⟨w, outs, hrun, ⟨_, hw.schedule⟩, fun hnd => (hids hnd).distinctIds hw, ?_⟩
  intro event w' out hstep hstatus
  obtain ⟨w₁, out₁, -, hstep₁, -, -, hsame⟩ := workerStep_spec hw (fits_of_step hstep)
  rw [hstep, Option.some.injEq, Prod.mk.injEq] at hstep₁
  obtain ⟨rfl, rfl⟩ := hstep₁
  exact hsame hstatus

/-- Five channels make the array grow and move; the third is removed from the
middle of the list. -/
theorem workerRun_schedule_moved :
    ∃ w outs ps, run workerStep workerStart
        [.command (.addChannel 1 100) ⟨some 7, 5, .time 30⟩,
          .command (.addChannel 2 100) ⟨none, 5, .time 20⟩,
          .command (.addChannel 3 100) ⟨none, 5, .time 25⟩,
          .command (.addChannel 4 100) ⟨none, 5, .pyNone⟩,
          .command (.addChannel 5 100) ⟨some 8, 6, .time 1⟩,
          .command (.removeChannel 3) ⟨none, 6, .pyNone⟩] = some (w, outs) ∧
      Schedule w.self ps ∧ DistinctIds w.self := by
  have h := workerRun_schedule (by decide : Always workerStep
    (fun w event => event.fits w.phase = true) workerStart
    [.command (.addChannel 1 100) ⟨some 7, 5, .time 30⟩,
      .command (.addChannel 2 100) ⟨none, 5, .time 20⟩,
      .command (.addChannel 3 100) ⟨none, 5, .time 25⟩,
      .command (.addChannel 4 100) ⟨none, 5, .pyNone⟩,
      .command (.addChannel 5 100) ⟨some 8, 6, .time 1⟩,
      .command (.removeChannel 3) ⟨none, 6, .pyNone⟩])
  obtain ⟨w, outs, hrun, ⟨ps, hps⟩, hids, -⟩ := h
  exact ⟨w, outs, ps, hrun, hps, hids (by decide)⟩

end RtpProc
