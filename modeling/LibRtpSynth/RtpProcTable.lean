/-
The channel table of `RtpProc`, without pointers.

A `Table` is the elements of the channel array without their pointers, and the
numbers of the scheduled ones in the order of the schedule.  The functions of the
worker are operations on it; `TableInv` is what holds of it between them.
-/
import LibRtpSynth.RtpProc
import Mathlib.Data.List.Perm.Subperm
import Mathlib.Data.List.TakeWhile

open scoped List

namespace RtpProc

/-! ### Tables -/

/-- An element without its pointer. -/
def ProcChannelState.bare (c : ProcChannelState) : ProcChannelState := { c with schedNext := none }

/-- The elements of the array, and the numbers of those in the schedule. -/
structure Table where
  slots : List ProcChannelState
  queue : List ℕ

namespace Table

variable (t : Table)

/-- An element; outside of the array there are empty ones. -/
def slot (i : ℕ) : ProcChannelState := t.slots.getD i .zero

/-- Change an element. -/
def put (i : ℕ) (c : ProcChannelState) : Table := { t with slots := t.slots.set i c }

/-- Put an element into the schedule behind those that run no later than `n`. -/
def insert (i n : ℕ) : Table :=
  { t with
    queue := (t.queue.takeWhile fun j => (t.slot j).nextRunNs ≤ n) ++
      i :: t.queue.dropWhile fun j => (t.slot j).nextRunNs ≤ n }

/-- `unschedule_channel`. -/
def unschedule (i : ℕ) : Table :=
  if (t.slot i).scheduled then
    { t.put i { t.slot i with scheduled := false } with queue := t.queue.erase i }
  else t

/-- `schedule_channel`. -/
def schedule (i n : ℕ) : Table :=
  let t := t.unschedule i
  (t.put i { t.slot i with nextRunNs := n, scheduled := true }).insert i n

/-- `release_channel_state`. -/
def release (i : ℕ) : Table :=
  if (t.slot i).active then
    let t := t.unschedule i
    t.put i { t.slot i with procInCb := none, cbExc := none, id := 0, active := false, nextRunNs := 0 }
  else t

/-- The loop of `rebuild_schedule_list`. -/
def rebuildFrom (idxs : List ℕ) : Table :=
  idxs.foldl (fun t i =>
    if (t.slot i).active && (t.slot i).scheduled then t.insert i (t.slot i).nextRunNs else t) t

/-- `rebuild_schedule_list`. -/
def rebuild : Table := rebuildFrom ⟨t.slots, []⟩ (List.range t.slots.length)

/-- The table with `n` more elements. -/
def grown (n : ℕ) : Table := { t with slots := t.slots ++ List.replicate n .zero }

variable {t} {i j : ℕ} {c : ProcChannelState}

theorem slot_put (h : i < t.slots.length) : (t.put i c).slot j = if j = i then c else t.slot j := by
  unfold slot put
  rw [List.getD_eq_getElem?_getD, List.getD_eq_getElem?_getD, List.getElem?_set]
  split
  · rename_i hij
    subst hij
    exact (if_pos rfl).symm
  · rename_i hij
    rw [if_neg (Ne.symm hij)]

@[simp] theorem length_put : (t.put i c).slots.length = t.slots.length := List.length_set

theorem put_slot (h : i < t.slots.length) : t.put i (t.slot i) = t := by
  rw [put, slot, List.getD_eq_getElem?_getD, List.getElem?_eq_getElem h]
  exact congrArg (Table.mk · t.queue) (List.set_getElem_self h)

theorem unschedule_of_scheduled (h : (t.slot i).scheduled = true) :
    t.unschedule i = ⟨t.slots.set i { t.slot i with scheduled := false }, t.queue.erase i⟩ := if_pos h

theorem unschedule_of_not (h : (t.slot i).scheduled ≠ true) : t.unschedule i = t := if_neg h

theorem release_of_active (h : (t.slot i).active = true) :
    t.release i = (t.unschedule i).put i
      { (t.unschedule i).slot i with
        procInCb := none, cbExc := none, id := 0, active := false, nextRunNs := 0 } := if_pos h

@[simp] theorem length_unschedule : (t.unschedule i).slots.length = t.slots.length := by
  unfold unschedule
  split
  · exact length_put
  · rfl

@[simp] theorem length_release : (t.release i).slots.length = t.slots.length := by
  by_cases ha : (t.slot i).active = true
  · rw [release_of_active ha, length_put, length_unschedule]
  · rw [release, if_neg ha]

/-- Other elements are not touched. -/
theorem slot_unschedule_of_ne (h : j ≠ i) : (t.unschedule i).slot j = t.slot j := by
  unfold unschedule
  split
  · show (t.slots.set i _).getD j .zero = _
    rw [List.getD_eq_getElem?_getD, List.getElem?_set_ne (Ne.symm h), ← List.getD_eq_getElem?_getD]
    rfl
  · rfl

theorem slot_unschedule_self (h : i < t.slots.length) :
    (t.unschedule i).slot i = { t.slot i with scheduled := false } := by
  by_cases hs : (t.slot i).scheduled = true
  · rw [unschedule_of_scheduled hs]
    exact (slot_put h).trans (if_pos rfl)
  · rw [unschedule_of_not hs, ← (Bool.not_eq_true _).mp hs]

/-- The element is out of the schedule, where the flag says whether it is in. -/
theorem notMem_unschedule (hnd : t.queue.Nodup) (h : i ∈ t.queue → (t.slot i).scheduled = true) :
    i ∉ (t.unschedule i).queue := by
  by_cases hs : (t.slot i).scheduled = true
  · rw [unschedule_of_scheduled hs]
    exact fun hmem => (hnd.mem_erase_iff.mp hmem).1 rfl
  · rw [unschedule_of_not hs]
    exact fun hmem => hs (h hmem)

theorem insert_perm (t : Table) (i n : ℕ) : (t.insert i n).queue ~ i :: t.queue := by
  have hq := List.takeWhile_append_dropWhile (p := fun j => (t.slot j).nextRunNs ≤ n) (l := t.queue)
  refine List.perm_middle.trans ?_
  rw [hq]

@[simp] theorem slot_insert (n : ℕ) : (t.insert i n).slot j = t.slot j := rfl

end Table

/-! ### What holds of the table -/

/-- The number of active elements. -/
def Table.activeCount (t : Table) : ℕ := t.slots.countP ProcChannelState.active

/-- The queue is made of the active elements whose flag `scheduled` is set, in the
order of their times. -/
structure TableInv (t : Table) : Prop where
  queue_iff : ∀ i, i ∈ t.queue ↔ (t.slot i).active = true ∧ (t.slot i).scheduled = true
  nodup : t.queue.Nodup
  sorted : t.queue.Pairwise fun i j => (t.slot i).nextRunNs ≤ (t.slot j).nextRunNs
  idle : ∀ i, (t.slot i).scheduled = true → (t.slot i).active = true
  cb : ∀ i, (t.slot i).active = true → (t.slot i).procInCb ≠ none

section tables

variable {t : Table} {i n : ℕ} {c : ProcChannelState}

theorem Table.slot_of_le (h : t.slots.length ≤ i) : t.slot i = .zero := by
  rw [Table.slot, List.getD_eq_getElem?_getD, List.getElem?_eq_none h]
  rfl

theorem Table.lt_of_active (h : (t.slot i).active = true) : i < t.slots.length := by
  by_contra hge
  rw [Table.slot_of_le (Nat.le_of_not_lt hge)] at h
  cases h

theorem tableInv_nil : TableInv ⟨[], []⟩ := by
  have hslot : ∀ i, (⟨[], []⟩ : Table).slot i = .zero := fun i => Table.slot_of_le (Nat.zero_le i)
  refine ⟨fun i => ?_, List.nodup_nil, List.Pairwise.nil, fun i => ?_, fun i => ?_⟩
  · rw [hslot]
    simp [ProcChannelState.zero]
  all_goals
    rw [hslot]
    intro h
    cases h

/-- The elements alone tell what the invariant says beside the order. -/
theorem TableInv.of_slot {t' : Table} (h : TableInv t) (hslot : ∀ i, t'.slot i = t.slot i)
    (hq : t'.queue = t.queue) : TableInv t' := by
  refine ⟨fun i => ?_, hq ▸ h.nodup, ?_, fun i => ?_, fun i => ?_⟩
  · rw [hq, hslot]
    exact h.queue_iff i
  · rw [hq]
    exact h.sorted.imp fun hle => by rw [hslot, hslot]; exact hle
  · rw [hslot]
    exact h.idle i
  · rw [hslot]
    exact h.cb i

theorem TableInv.flag (h : TableInv t) (hi : i ∈ t.queue) : (t.slot i).scheduled = true :=
  ((h.queue_iff i).mp hi).2

theorem TableInv.inside (h : TableInv t) (hi : i ∈ t.queue) : i < t.slots.length :=
  Table.lt_of_active ((h.queue_iff i).mp hi).1

/-- The elements of the queue are as they were, and sorted. -/
theorem pairwise_of_slot {t' : Table} {q : List ℕ}
    (h : q.Pairwise fun i j => (t.slot i).nextRunNs ≤ (t.slot j).nextRunNs)
    (hslot : ∀ j ∈ q, t'.slot j = t.slot j) :
    q.Pairwise fun i j => (t'.slot i).nextRunNs ≤ (t'.slot j).nextRunNs := by
  refine h.imp_of_mem fun ha hb hle => ?_
  rw [hslot _ ha, hslot _ hb]
  exact hle

/-- An element that is not scheduled is replaced by another such. -/
theorem TableInv.put (h : TableInv t) (hi : i < t.slots.length) (hold : i ∉ t.queue)
    (hnew : c.scheduled = false) (hcb : c.active = true → c.procInCb ≠ none) :
    TableInv (t.put i c) := by
  have hslot : ∀ j, j ≠ i → (t.put i c).slot j = t.slot j :=
    fun j hj => (Table.slot_put hi).trans (if_neg hj)
  have hself : (t.put i c).slot i = c := (Table.slot_put hi).trans (if_pos rfl)
  refine ⟨fun j => ?_, h.nodup, pairwise_of_slot h.sorted fun j hj => ?_, fun j => ?_, fun j => ?_⟩
  · by_cases hj : j = i
    · subst hj
      rw [hself, hnew]
      exact iff_of_false hold fun hc => absurd hc.2 Bool.false_ne_true
    · rw [hslot j hj]
      exact h.queue_iff j
  · exact hslot j fun hji => hold (hji ▸ hj)
  · by_cases hj : j = i
    · subst hj
      rw [hself, hnew]
      exact fun hc => absurd hc Bool.false_ne_true
    · rw [hslot j hj]
      exact h.idle j
  · by_cases hj : j = i
    · subst hj
      rw [hself]
      exact hcb
    · rw [hslot j hj]
      exact h.cb j

/-- An element is replaced by one with the same flags and time. -/
theorem TableInv.put_same (h : TableInv t) (hi : i < t.slots.length)
    (hactive : c.active = (t.slot i).active) (hsched : c.scheduled = (t.slot i).scheduled)
    (hrun : c.nextRunNs = (t.slot i).nextRunNs) (hcb : c.procInCb = (t.slot i).procInCb) :
    TableInv (t.put i c) := by
  have hsame : ∀ j, ((t.put i c).slot j).active = (t.slot j).active ∧
      ((t.put i c).slot j).scheduled = (t.slot j).scheduled ∧
      ((t.put i c).slot j).nextRunNs = (t.slot j).nextRunNs ∧
      ((t.put i c).slot j).procInCb = (t.slot j).procInCb := by
    intro j
    rw [Table.slot_put hi]
    split
    · rename_i hj
      subst hj
      exact ⟨hactive, hsched, hrun, hcb⟩
    · exact ⟨rfl, rfl, rfl, rfl⟩
  refine ⟨fun j => ?_, h.nodup, h.sorted.imp fun hle => ?_, fun j => ?_, fun j => ?_⟩
  · rw [(hsame j).1, (hsame j).2.1]
    exact h.queue_iff j
  · rw [(hsame _).2.2.1, (hsame _).2.2.1]
    exact hle
  · rw [(hsame j).1, (hsame j).2.1]
    exact h.idle j
  · rw [(hsame j).1, (hsame j).2.2.2]
    exact h.cb j

theorem TableInv.unschedule (h : TableInv t) (hi : i < t.slots.length) :
    TableInv (t.unschedule i) := by
  by_cases hs : (t.slot i).scheduled = true
  swap
  · rw [Table.unschedule_of_not hs]
    exact h
  have hself := Table.slot_unschedule_self hi
  have hq : (t.unschedule i).queue = t.queue.erase i := by rw [Table.unschedule_of_scheduled hs]
  refine ⟨fun j => ?_, ?_, ?_, fun j => ?_, fun j => ?_⟩
  · rw [hq, h.nodup.mem_erase_iff]
    by_cases hj : j = i
    · rw [hj, hself]
      exact iff_of_false (fun hc => hc.1 rfl) fun hc => absurd hc.2 Bool.false_ne_true
    · rw [Table.slot_unschedule_of_ne hj, h.queue_iff]
      exact ⟨fun hc => hc.2, fun hc => ⟨hj, hc⟩⟩
  · rw [hq]
    exact h.nodup.erase i
  · rw [hq]
    refine pairwise_of_slot (h.sorted.sublist List.erase_sublist) fun j hj => ?_
    exact Table.slot_unschedule_of_ne (h.nodup.mem_erase_iff.mp hj).1
  · by_cases hj : j = i
    · rw [hj, hself]
      exact fun hc => absurd hc Bool.false_ne_true
    · rw [Table.slot_unschedule_of_ne hj]
      exact h.idle j
  · by_cases hj : j = i
    · rw [hj, hself]
      exact h.cb i
    · rw [Table.slot_unschedule_of_ne hj]
      exact h.cb j

/-- The place where an element goes keeps the queue sorted. -/
theorem sorted_insert
    (h : t.queue.Pairwise fun i j => (t.slot i).nextRunNs ≤ (t.slot j).nextRunNs)
    (hi : (t.slot i).nextRunNs = n) :
    (t.insert i n).queue.Pairwise fun i j => (t.slot i).nextRunNs ≤ (t.slot j).nextRunNs := by
  have hq := List.takeWhile_append_dropWhile (p := fun j => (t.slot j).nextRunNs ≤ n) (l := t.queue)
  have hbefore : ∀ j ∈ t.queue.takeWhile fun j => (t.slot j).nextRunNs ≤ n,
      (t.slot j).nextRunNs ≤ n := by
    intro j hj
    have hd := List.mem_takeWhile_imp (p := fun j => decide ((t.slot j).nextRunNs ≤ n)) hj
    exact of_decide_eq_true hd
  -- the first element behind runs later, and the others no earlier than that one
  have hbehind : ∀ j ∈ t.queue.dropWhile fun j => (t.slot j).nextRunNs ≤ n,
      n ≤ (t.slot j).nextRunNs := by
    have hsorted := h.sublist (List.dropWhile_sublist fun j => decide ((t.slot j).nextRunNs ≤ n))
    have hstop := List.head?_dropWhile_not (fun j => decide ((t.slot j).nextRunNs ≤ n)) t.queue
    cases hd : t.queue.dropWhile fun j => (t.slot j).nextRunNs ≤ n with
    | nil => exact fun j hj => absurd hj List.not_mem_nil
    | cons k rest =>
      rw [hd] at hsorted hstop
      have hk : n < (t.slot k).nextRunNs := by simpa using hstop
      intro j hj
      rcases List.mem_cons.mp hj with rfl | hj
      · exact hk.le
      · exact hk.le.trans ((List.pairwise_cons.mp hsorted).1 j hj)
  rw [← hq, List.pairwise_append] at h
  refine List.pairwise_append.mpr ⟨h.1, List.pairwise_cons.mpr ⟨?_, h.2.1⟩, ?_⟩
  · intro j hj
    rw [hi]
    exact hbehind j hj
  · intro j hj k hk
    rcases List.mem_cons.mp hk with rfl | hk
    · rw [hi]
      exact hbefore j hj
    · exact h.2.2 j hj k hk

/-- An element that is not in the queue is given a time and put in. -/
theorem TableInv.insert_put (h : TableInv t) (hi : i < t.slots.length) (hold : i ∉ t.queue)
    (hactive : c.active = true) (hsched : c.scheduled = true) (hcb : c.procInCb ≠ none) :
    TableInv ((t.put i c).insert i c.nextRunNs) := by
  have hslot : ∀ j, j ≠ i → (t.put i c).slot j = t.slot j :=
    fun j hj => (Table.slot_put hi).trans (if_neg hj)
  have hself : (t.put i c).slot i = c := (Table.slot_put hi).trans (if_pos rfl)
  have hperm : ((t.put i c).insert i c.nextRunNs).queue ~ i :: t.queue :=
    Table.insert_perm (t.put i c) i c.nextRunNs
  refine ⟨fun j => ?_, ?_, ?_, fun j => ?_, fun j => ?_⟩
  · rw [hperm.mem_iff, List.mem_cons, Table.slot_insert]
    by_cases hj : j = i
    · rw [hj, hself]
      exact iff_of_true (.inl rfl) ⟨hactive, hsched⟩
    · rw [hslot j hj, ← h.queue_iff]
      exact ⟨fun hc => hc.resolve_left hj, .inr⟩
  · exact hperm.nodup_iff.mpr (List.nodup_cons.mpr ⟨hold, h.nodup⟩)
  · have hsorted : (t.put i c).queue.Pairwise fun a b =>
        ((t.put i c).slot a).nextRunNs ≤ ((t.put i c).slot b).nextRunNs :=
      pairwise_of_slot h.sorted fun j hj => hslot j fun hji => hold (hji ▸ hj)
    exact sorted_insert hsorted (by rw [hself])
  · rw [Table.slot_insert]
    by_cases hj : j = i
    · rw [hj, hself]
      exact fun _ => hactive
    · rw [hslot j hj]
      exact h.idle j
  · rw [Table.slot_insert]
    by_cases hj : j = i
    · rw [hj, hself]
      exact fun _ => hcb
    · rw [hslot j hj]
      exact h.cb j

theorem TableInv.notMem_unschedule (h : TableInv t) (i : ℕ) : i ∉ (t.unschedule i).queue :=
  Table.notMem_unschedule h.nodup h.flag

theorem TableInv.schedule (h : TableInv t) (ha : (t.slot i).active = true) (n : ℕ) :
    TableInv (t.schedule i n) := by
  have hi := Table.lt_of_active ha
  have hi' : i < (t.unschedule i).slots.length := by rw [Table.length_unschedule]; exact hi
  have hself := Table.slot_unschedule_self hi
  refine (h.unschedule hi).insert_put hi' (h.notMem_unschedule i) ?_ rfl ?_
  · rw [hself]
    exact ha
  · rw [hself]
    exact h.cb i ha

theorem TableInv.release (h : TableInv t) (i : ℕ) : TableInv (t.release i) := by
  by_cases ha : (t.slot i).active = true
  · rw [Table.release_of_active ha]
    have hi := Table.lt_of_active ha
    refine (h.unschedule hi).put (by rw [Table.length_unschedule]; exact hi)
      (h.notMem_unschedule i) ?_ fun hc => absurd hc Bool.false_ne_true
    rw [Table.slot_unschedule_self hi]
  · rw [Table.release, if_neg ha]
    exact h

theorem Table.slot_grown (n i : ℕ) : (t.grown n).slot i = t.slot i := by
  rw [Table.slot, Table.grown, Table.slot, List.getD_eq_getElem?_getD, List.getD_eq_getElem?_getD,
    List.getElem?_append]
  split
  · rfl
  · rename_i hi
    rw [List.getElem?_eq_none (Nat.le_of_not_lt hi), List.getElem?_replicate]
    split <;> rfl

theorem TableInv.grown (h : TableInv t) (n : ℕ) : TableInv (t.grown n) :=
  h.of_slot (Table.slot_grown n) rfl

/-- The loop over the elements `idxs` puts the scheduled ones in. -/
theorem rebuildFrom_spec : ∀ {idxs : List ℕ} {t : Table}, idxs.Nodup → (∀ i ∈ idxs, i ∉ t.queue) →
    t.queue.Nodup → (t.queue.Pairwise fun i j => (t.slot i).nextRunNs ≤ (t.slot j).nextRunNs) →
    (t.rebuildFrom idxs).slots = t.slots ∧ (t.rebuildFrom idxs).queue.Nodup ∧
      ((t.rebuildFrom idxs).queue.Pairwise
        fun i j => (t.slot i).nextRunNs ≤ (t.slot j).nextRunNs) ∧
      ∀ j, j ∈ (t.rebuildFrom idxs).queue ↔
        j ∈ t.queue ∨ (j ∈ idxs ∧ (t.slot j).active = true ∧ (t.slot j).scheduled = true) := by
  intro idxs
  induction idxs with
  | nil =>
    intro t _ _ hnd hsorted
    exact ⟨rfl, hnd, hsorted, fun j => by simp [Table.rebuildFrom]⟩
  | cons i idxs ih =>
    intro t hidx hout hnd hsorted
    obtain ⟨hi, hidx⟩ := List.nodup_cons.mp hidx
    have hout' := fun j hj => hout j (List.mem_cons_of_mem i hj)
    have hcons : t.rebuildFrom (i :: idxs) = Table.rebuildFrom
        (if (t.slot i).active && (t.slot i).scheduled then t.insert i (t.slot i).nextRunNs else t)
        idxs := rfl
    rw [hcons]
    by_cases hs : ((t.slot i).active && (t.slot i).scheduled) = true
    · rw [if_pos hs]
      have hperm := Table.insert_perm t i (t.slot i).nextRunNs
      obtain ⟨h1, h2, h3, h4⟩ := ih (t := t.insert i (t.slot i).nextRunNs) hidx
        (fun j hj hmem => by
          rcases List.mem_cons.mp (hperm.mem_iff.mp hmem) with rfl | hmem
          · exact hi hj
          · exact hout' j hj hmem)
        (hperm.nodup_iff.mpr (List.nodup_cons.mpr ⟨hout i List.mem_cons_self, hnd⟩))
        (sorted_insert hsorted rfl)
      refine ⟨h1, h2, h3, fun j => ?_⟩
      rw [h4, hperm.mem_iff, List.mem_cons, List.mem_cons, Table.slot_insert]
      have hs' := Bool.and_eq_true_iff.mp hs
      constructor
      · rintro ((rfl | hj) | hj)
        · exact .inr ⟨.inl rfl, hs'⟩
        · exact .inl hj
        · exact .inr ⟨.inr hj.1, hj.2⟩
      · rintro (hj | ⟨rfl | hj, hjs⟩)
        · exact .inl (.inr hj)
        · exact .inl (.inl rfl)
        · exact .inr ⟨hj, hjs⟩
    · rw [if_neg hs]
      obtain ⟨h1, h2, h3, h4⟩ := ih hidx hout' hnd hsorted
      refine ⟨h1, h2, h3, fun j => ?_⟩
      rw [h4, List.mem_cons]
      constructor
      · rintro (hj | hj)
        · exact .inl hj
        · exact .inr ⟨.inr hj.1, hj.2⟩
      · rintro (hj | ⟨rfl | hj, hjs⟩)
        · exact .inl hj
        · exact absurd (Bool.and_eq_true_iff.mpr hjs) hs
        · exact .inr ⟨hj, hjs⟩

theorem Table.rebuild_slots (t : Table) : t.rebuild.slots = t.slots :=
  (rebuildFrom_spec (t := ⟨t.slots, []⟩) List.nodup_range (fun _ _ => List.not_mem_nil)
    List.nodup_nil List.Pairwise.nil).1

theorem TableInv.rebuild (h : TableInv t) : TableInv t.rebuild := by
  obtain ⟨h1, h2, h3, h4⟩ := @rebuildFrom_spec (List.range t.slots.length)
    ⟨t.slots, []⟩ List.nodup_range (fun _ _ => List.not_mem_nil) List.nodup_nil
    List.Pairwise.nil
  have hslot : ∀ i, t.rebuild.slot i = t.slot i := fun i => by
    rw [Table.slot, Table.rebuild_slots, Table.slot]
  refine ⟨fun i => ?_, h2, h3.imp fun hle => ?_, fun i => ?_, fun i => ?_⟩
  · rw [hslot]
    refine (h4 i).trans ⟨fun hc => ?_, fun hc => .inr ⟨?_, hc⟩⟩
    · exact (hc.resolve_left List.not_mem_nil).2
    · exact List.mem_range.mpr (Table.lt_of_active hc.1)
  · rw [hslot, hslot]
    exact hle
  · rw [hslot]
    exact h.idle i
  · rw [hslot]
    exact h.cb i

/-! ### The number of active elements -/

theorem Table.activeCount_put (hi : i < t.slots.length) :
    (t.put i c).activeCount =
      t.activeCount - (if (t.slot i).active then 1 else 0) + if c.active then 1 else 0 := by
  have hslot : t.slot i = t.slots[i] := by
    rw [Table.slot, List.getD_eq_getElem?_getD, List.getElem?_eq_getElem hi]
    rfl
  rw [hslot]
  exact List.countP_set hi

theorem Table.activeCount_pos (h : (t.slot i).active = true) : 0 < t.activeCount := by
  have hi := Table.lt_of_active h
  refine List.countP_pos_iff.mpr ⟨t.slots[i], List.getElem_mem hi, ?_⟩
  rwa [Table.slot, List.getD_eq_getElem?_getD, List.getElem?_eq_getElem hi] at h

/-- A change that keeps the flag `active` keeps the number. -/
theorem Table.activeCount_put_same (hi : i < t.slots.length) (h : c.active = (t.slot i).active) :
    (t.put i c).activeCount = t.activeCount := by
  rw [Table.activeCount_put hi, h]
  split
  · rename_i ha
    exact Nat.sub_add_cancel (Table.activeCount_pos ha)
  · rfl

theorem Table.activeCount_put_exc (hi : i < t.slots.length) (exc : Option ℕ) :
    (t.put i ((t.slot i).withExc exc)).activeCount = t.activeCount :=
  Table.activeCount_put_same hi rfl

theorem Table.activeCount_unschedule (hi : i < t.slots.length) :
    (t.unschedule i).activeCount = t.activeCount := by
  unfold Table.unschedule
  split
  · exact Table.activeCount_put_same hi rfl
  · rfl

theorem Table.activeCount_schedule (hi : i < t.slots.length) (n : ℕ) :
    (t.schedule i n).activeCount = t.activeCount := by
  have hi' : i < (t.unschedule i).slots.length := by rw [Table.length_unschedule]; exact hi
  rw [← Table.activeCount_unschedule hi]
  exact Table.activeCount_put_same hi' rfl

theorem Table.activeCount_release (h : (t.slot i).active = true) :
    (t.release i).activeCount = t.activeCount - 1 := by
  have hi := Table.lt_of_active h
  have hi' : i < (t.unschedule i).slots.length := by rw [Table.length_unschedule]; exact hi
  rw [Table.release_of_active h, Table.activeCount_put hi', Table.activeCount_unschedule hi,
    Table.slot_unschedule_self hi, if_pos h]
  rfl

theorem Table.activeCount_grown (n : ℕ) : (t.grown n).activeCount = t.activeCount := by
  rw [Table.activeCount, Table.grown, List.countP_append, List.countP_replicate]
  exact Nat.add_zero _

theorem Table.activeCount_rebuild : t.rebuild.activeCount = t.activeCount := by
  rw [Table.activeCount, Table.rebuild_slots, Table.activeCount]

/-! ### What the operations do to an element -/

theorem Table.slot_schedule (hi : i < t.slots.length) (n j : ℕ) :
    (t.schedule i n).slot j =
      if j = i then { t.slot i with nextRunNs := n, scheduled := true } else t.slot j := by
  have hi' : i < (t.unschedule i).slots.length := by rw [Table.length_unschedule]; exact hi
  have hput : (t.schedule i n).slot j = if j = i then
      { (t.unschedule i).slot i with nextRunNs := n, scheduled := true }
      else (t.unschedule i).slot j := Table.slot_put hi'
  rw [hput, Table.slot_unschedule_self hi]
  split
  · rfl
  · rename_i hj
    exact Table.slot_unschedule_of_ne hj

theorem Table.slot_release_of_ne {j : ℕ} (h : j ≠ i) : (t.release i).slot j = t.slot j := by
  by_cases ha : (t.slot i).active = true
  · have hi := Table.lt_of_active ha
    rw [Table.release_of_active ha, Table.slot_put (by rw [Table.length_unschedule]; exact hi),
      if_neg h, Table.slot_unschedule_of_ne h]
  · rw [Table.release, if_neg ha]

theorem Table.slot_release_self (i : ℕ) : ((t.release i).slot i).active = false := by
  by_cases ha : (t.slot i).active = true
  · have hi := Table.lt_of_active ha
    rw [Table.release_of_active ha, Table.slot_put (by rw [Table.length_unschedule]; exact hi),
      if_pos rfl]
  · rw [Table.release, if_neg ha]
    exact (Bool.not_eq_true _).mp ha

end tables

end RtpProc
