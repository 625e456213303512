/-
The schedule of `RtpProc` over a reallocated array.

`Threads` relates the array with its pointers to a table: the list in the array
runs through the queue of the table.  The functions of the schedule are operations
on the table, also where the array moves and every pointer is built again.
-/
import LibRtpSynth.RtpProcTable

open Linked
open scoped List

namespace RtpProc

/-! ### The array and the table -/

/-- The list in the array is the queue of the table. -/
structure Threads (s : PyRtpProc) (t : Table) : Prop where
  slots : s.elems.map ProcChannelState.bare = t.slots
  lists : ListsFrom s.links none (t.queue.map s.ptr)
  inside : ∀ i ∈ t.queue, i < t.slots.length

section threads

variable {s : PyRtpProc} {t : Table} {p q : ChPtr} {c c' : ProcChannelState} {i n : ℕ}

theorem ptr_injective (s : PyRtpProc) : Function.Injective s.ptr := by
  intro i j h
  injection h

theorem deref_ptr (s : PyRtpProc) (i : ℕ) : s.deref (s.ptr i) = s.elems[i]? := if_pos rfl

theorem eq_ptr_of_deref (h : s.deref p = some c) : p = s.ptr p.slot := by
  unfold PyRtpProc.deref at h
  split at h
  · rename_i hb
    rw [PyRtpProc.ptr, ← hb]
  · cases h

theorem deref_store (h : s.deref p = some c) (c' : ProcChannelState) (q : ChPtr) :
    (s.store p c').deref q = if q = p then some c' else s.deref q := by
  have hp := eq_ptr_of_deref h
  have hlt : p.slot < s.elems.length := by
    rw [hp, deref_ptr] at h
    exact (List.getElem?_eq_some_iff.mp h).1
  by_cases hq : q = p
  · subst hq
    rw [if_pos rfl]
    have hread := deref_ptr (s.store q c') q.slot
    rw [show (s.store q c').ptr q.slot = q from hp.symm] at hread
    rw [hread, PyRtpProc.store, List.getElem?_set_self hlt]
  · rw [if_neg hq]
    show (if q.block = s.channels then (s.elems.set p.slot c')[q.slot]? else none) =
      if q.block = s.channels then s.elems[q.slot]? else none
    split
    · rename_i hb
      refine List.getElem?_set_ne fun hs => hq ?_
      rw [hp, hs, PyRtpProc.ptr, ← hb]
    · rfl

theorem links_next (h : s.deref p = some c) : s.links.next p = c.schedNext := by
  show (s.deref p).bind _ = _
  rw [h]
  rfl

/-- Writing an element overwrites its link. -/
theorem links_store (h : s.deref p = some c) (c' : ProcChannelState) :
    (s.store p c').links = s.links.set (some p) c'.schedNext := by
  rw [PyRtpProc.links, PyRtpProc.links, Links.set]
  congr 1
  funext q
  rw [deref_store h, Function.update_apply]
  split <;> rfl

theorem Threads.length (h : Threads s t) : s.elems.length = t.slots.length := by
  rw [← h.slots, List.length_map]

/-- The elements can be read. -/
theorem Threads.deref (h : Threads s t) (hi : i < t.slots.length) :
    ∃ c, s.deref (s.ptr i) = some c ∧ c.bare = t.slot i := by
  have hlt : i < s.elems.length := by rw [h.length]; exact hi
  refine ⟨s.elems[i], ?_, ?_⟩
  · rw [deref_ptr, List.getElem?_eq_getElem hlt]
  · rw [Table.slot, ← h.slots, List.getD_eq_getElem?_getD, List.getElem?_map,
      List.getElem?_eq_getElem hlt]
    rfl

theorem Threads.deref_queue (h : Threads s t) (hi : i ∈ t.queue) :
    ∃ c, s.deref (s.ptr i) = some c ∧ c.bare = t.slot i :=
  h.deref (h.inside i hi)

theorem store_slots (h : s.elems.map ProcChannelState.bare = t.slots) (i : ℕ)
    (c' : ProcChannelState) :
    (s.store (s.ptr i) c').elems.map ProcChannelState.bare = (t.put i c'.bare).slots := by
  rw [PyRtpProc.store, List.map_set, h]
  rfl

/-- An element that is not in the schedule is written. -/
theorem Threads.put (h : Threads s t) (hi : i < t.slots.length) (hq : i ∉ t.queue)
    (c' : ProcChannelState) : Threads (s.store (s.ptr i) c') (t.put i c'.bare) := by
  obtain ⟨c, hc, -⟩ := h.deref hi
  refine ⟨store_slots h.slots i c', ?_, ?_⟩
  · rw [links_store hc]
    refine h.lists.set (Option.some_ne_none _).symm ?_ _
    intro q hmem heq
    obtain ⟨j, hj, rfl⟩ := List.mem_map.mp hmem
    exact hq (ptr_injective s (Option.some.inj heq) ▸ hj)
  · intro j hj
    rw [Table.length_put]
    exact h.inside j hj

/-- An element is written and keeps its pointer. -/
theorem Threads.put_same (h : Threads s t) (hc : s.deref (s.ptr i) = some c)
    (hnext : c'.schedNext = c.schedNext) : Threads (s.store (s.ptr i) c') (t.put i c'.bare) := by
  refine ⟨store_slots h.slots i c', ?_, ?_⟩
  · refine h.lists.congr rfl fun q _ => ?_
    rw [links_store hc, hnext]
    by_cases hq : q = s.ptr i
    · rw [hq, links_next hc]
      exact get_set_self s.links (some (s.ptr i)) c.schedNext
    · exact next_set_of_ne (fun heq => hq (Option.some.inj heq)) _
  · intro j hj
    rw [Table.length_put]
    exact h.inside j hj

theorem Threads.put_exc (h : Threads s t) (hc : s.deref (s.ptr i) = some c) (exc : Option ℕ) :
    Threads (s.store (s.ptr i) (c.withExc exc)) (t.put i (c.bare.withExc exc)) :=
  h.put_same hc rfl

/-- A link of the list is written: everything but the list stays. -/
theorem Threads.setLink (h : Threads s t) {pre post : List ℕ} (hq : t.queue = pre ++ post)
    (v : Option ChPtr) :
    ∃ s', s.setLink v (after none (pre.map s.ptr)) = some s' ∧
      s'.links = s.links.set (after none (pre.map s.ptr)) v ∧ s'.channels = s.channels ∧
      s'.channelsActive = s.channelsActive ∧ s'.elems.map ProcChannelState.bare = t.slots := by
  rw [after_none, List.getLast?_map]
  cases hlast : pre.getLast? with
  | none => exact ⟨_, rfl, rfl, rfl, rfl, h.slots⟩
  | some j =>
    have hj : j ∈ t.queue := by
      rw [hq]
      exact List.mem_append_left _ (List.mem_of_getLast? hlast)
    obtain ⟨c, hc, hbare⟩ := h.deref_queue hj
    refine ⟨s.store (s.ptr j) { c with schedNext := v }, ?_, links_store hc _, rfl, rfl, ?_⟩
    · show (s.deref (s.ptr j)).map _ = _
      rw [hc]
      rfl
    · -- only the pointer of the element is another one
      rw [store_slots h.slots]
      show (t.put j c.bare).slots = t.slots
      rw [hbare, Table.put_slot (h.inside j hj)]

/-! ### The functions of the schedule -/

/-- What an operation on the table leaves alone. -/
structure Kept (s s' : PyRtpProc) : Prop where
  channels : s'.channels = s.channels
  channelsActive : s'.channelsActive = s.channelsActive

theorem Kept.ptr {s' : PyRtpProc} (h : Kept s s') (i : ℕ) : s'.ptr i = s.ptr i := by
  rw [PyRtpProc.ptr, h.channels, PyRtpProc.ptr]

theorem Kept.trans {s' s'' : PyRtpProc} (h : Kept s s') (h' : Kept s' s'') : Kept s s'' :=
  ⟨h'.channels.trans h.channels, h'.channelsActive.trans h.channelsActive⟩

theorem Threads.nodup (h : Threads s t) : t.queue.Nodup := h.lists.nodup.of_map

theorem Threads.length_queue (h : Threads s t) : t.queue.length ≤ t.slots.length := by
  have hsub : t.queue ⊆ List.range t.slots.length := fun i hi => List.mem_range.mpr (h.inside i hi)
  have hle := (List.Nodup.subperm h.nodup hsub).length_le
  rwa [List.length_range] at hle

/-- There is fuel for the loops over the schedule. -/
theorem Threads.fuel (h : Threads s t) {pre post : List ℕ} (hq : t.queue = pre ++ post) :
    (pre.map s.ptr).length < s.elems.length + 1 := by
  have hle := h.length_queue
  rw [hq, List.length_append] at hle
  rw [List.length_map, h.length]
  omega

theorem Threads.unschedule (h : Threads s t) (hi : i < t.slots.length) :
    ∃ s', unscheduleChannel s (s.ptr i) = some s' ∧ Kept s s' ∧ Threads s' (t.unschedule i) := by
  obtain ⟨c, hc, hbare⟩ := h.deref hi
  have hsched : (t.slot i).scheduled = c.scheduled := by rw [← hbare]; rfl
  simp only [unscheduleChannel, hc, Option.bind_eq_bind, Option.bind_some]
  by_cases hs : c.scheduled = true
  swap
  · rw [if_pos (by simpa using hs), Table.unschedule_of_not (by rw [hsched]; exact hs)]
    exact ⟨s, rfl, ⟨rfl, rfl⟩, h⟩
  rw [if_neg (by simpa using hs), Table.unschedule_of_scheduled (hsched.trans hs)]
  -- the loop passes the elements in front of this one
  have hpass : ∀ pre post, t.queue = pre ++ post → i ∉ pre → ∀ p ∈ pre.map s.ptr,
      (if p = s.ptr i then some true else (s.deref p).map fun _ => false) = some false := by
    intro pre post hq hnot p hp
    obtain ⟨j, hj, rfl⟩ := List.mem_map.mp hp
    obtain ⟨d, hd, -⟩ := h.deref_queue (hq ▸ List.mem_append_left _ hj)
    have hne : s.ptr j ≠ s.ptr i := fun heq => hnot ((ptr_injective s heq) ▸ hj)
    rw [if_neg hne, hd]
    rfl
  by_cases hmem : i ∈ t.queue
  · obtain ⟨pre, post, hq, hnot⟩ := List.eq_append_cons_of_mem hmem
    have hlists := h.lists
    rw [hq, List.map_append, List.map_cons] at hlists
    rw [walk_eq hlists (hpass pre (i :: post) hq hnot) (by
      rintro p hp
      rw [List.head?_cons, Option.mem_some_iff] at hp
      rw [← hp, if_pos rfl]) (h.fuel hq), Option.bind_some,
      (listsFrom_append hlists).1]
    obtain ⟨s', hset, hlinks, hch, hact, hslots⟩ := h.setLink hq c.schedNext
    have hptr : s'.ptr = s.ptr := by funext j; rw [PyRtpProc.ptr, hch, PyRtpProc.ptr]
    have hthr : Threads s' { t with queue := pre ++ post } := by
      refine ⟨hslots, ?_, fun j hj => h.inside j ?_⟩
      · rw [hlinks, hptr, List.map_append, ← links_next hc]
        exact hlists.remove
      · rw [hq]
        simp only [List.mem_append, List.mem_cons] at hj ⊢
        tauto
    obtain ⟨c₁, hc₁, hbare₁⟩ := hthr.deref hi
    rw [hptr] at hc₁
    have hnot' : i ∉ pre ++ post := by
      have hnd := h.nodup
      rw [hq] at hnd
      exact (List.nodup_middle.mp hnd).notMem
    have hput := hthr.put hi hnot' { c₁ with scheduled := false, schedNext := none }
    rw [hptr] at hput
    refine ⟨s'.store (s.ptr i) { c₁ with scheduled := false, schedNext := none }, ?_,
      ⟨hch, hact⟩, ?_⟩
    · show (s.setLink c.schedNext _).bind _ = _
      rw [hset, Option.bind_some, hc₁]
      rfl
    · have herase : t.queue.erase i = pre ++ post := by
        rw [hq, List.erase_append_right _ hnot, List.erase_cons_head]
      rw [herase]
      have hslot : ({ c₁ with scheduled := false, schedNext := none } : ProcChannelState).bare =
          { t.slot i with scheduled := false } := by
        rw [show t.slot i = c₁.bare from hbare₁.symm]
        rfl
      rw [hslot] at hput
      exact hput
  · have hlists := h.lists
    rw [← List.append_nil (t.queue.map s.ptr)] at hlists
    rw [walk_eq hlists (hpass t.queue [] (by simp) hmem) (by simp) (h.fuel (List.append_nil _).symm),
      Option.bind_some, (listsFrom_append hlists).get_eq]
    refine ⟨_, rfl, ⟨rfl, rfl⟩, ?_⟩
    rw [List.erase_of_not_mem hmem]
    have hput := h.put hi hmem { c with scheduled := false, schedNext := none }
    rw [← hbare]
    exact hput

theorem Threads.insert (h : Threads s t) (hi : i < t.slots.length) (hmem : i ∉ t.queue) (n : ℕ) :
    ∃ s', insertChannel s (s.ptr i) n = some s' ∧ Kept s s' ∧ Threads s' (t.insert i n) := by
  obtain ⟨c, hc, hbare⟩ := h.deref hi
  have hq := List.takeWhile_append_dropWhile (p := fun j => (t.slot j).nextRunNs ≤ n) (l := t.queue)
  have hnext : ∀ j ∈ t.queue, ((s.deref (s.ptr j)).map fun c => decide (n < c.nextRunNs)) =
      some (!decide ((t.slot j).nextRunNs ≤ n)) := by
    intro j hj
    obtain ⟨d, hd, hbd⟩ := h.deref_queue hj
    rw [hd, ← hbd, ← decide_not, Option.map_some]
    simp [ProcChannelState.bare]
  set pre := t.queue.takeWhile fun j => (t.slot j).nextRunNs ≤ n with hpre
  set post := t.queue.dropWhile fun j => (t.slot j).nextRunNs ≤ n with hpost
  have hlists := h.lists
  rw [← hq, List.map_append] at hlists
  have hwalk : walk s.links (fun p => (s.deref p).map fun c => decide (n < c.nextRunNs))
      (s.elems.length + 1) none = some (after none (pre.map s.ptr)) := by
    refine walk_eq hlists ?_ ?_ (h.fuel hq.symm)
    · intro p hp
      obtain ⟨j, hj, rfl⟩ := List.mem_map.mp hp
      rw [hnext j (hq ▸ List.mem_append_left _ hj), List.mem_takeWhile_imp hj]
      rfl
    · intro p hp
      rw [List.head?_map] at hp
      obtain ⟨j, hj, rfl⟩ := Option.map_eq_some_iff.mp hp
      rw [hnext j (hq ▸ List.mem_append_right _ (List.mem_of_head? hj))]
      have hstop := List.head?_dropWhile_not (fun j => decide ((t.slot j).nextRunNs ≤ n)) t.queue
      rw [← hpost, hj] at hstop
      simpa using hstop
  -- the pointer of the element is written first
  have hthr : Threads (s.store (s.ptr i) { c with schedNext := s.links.get (after none (pre.map s.ptr)) })
      t := by
    have hput := h.put hi hmem { c with schedNext := s.links.get (after none (pre.map s.ptr)) }
    rwa [show ({ c with schedNext := s.links.get (after none (pre.map s.ptr)) } :
      ProcChannelState).bare = c.bare from rfl, hbare, Table.put_slot hi] at hput
  obtain ⟨s', hset, hlinks, hch, hact, hslots⟩ := hthr.setLink hq.symm (some (s.ptr i))
  refine ⟨s', ?_, ⟨hch, hact⟩, hslots, ?_, ?_⟩
  · simp only [insertChannel, hwalk, Option.bind_eq_bind, Option.bind_some, hc]
    exact hset
  · rw [hlinks, links_store hc, show s'.ptr = s.ptr from by
      funext j; rw [PyRtpProc.ptr, hch]; rfl]
    show ListsFrom _ none ((pre ++ i :: post).map s.ptr)
    rw [List.map_append, List.map_cons]
    refine hlists.insert ?_ (Option.some_ne_none _).symm
    rw [← List.map_append, hq, List.mem_map]
    rintro ⟨j, hj, heq⟩
    exact hmem (ptr_injective s heq ▸ hj)
  · intro j hj
    rcases List.mem_append.mp hj with hj | hj
    · exact h.inside j (hq ▸ List.mem_append_left _ hj)
    · rcases List.mem_cons.mp hj with rfl | hj
      · exact hi
      · exact h.inside j (hq ▸ List.mem_append_right _ hj)

theorem Threads.schedule (h : Threads s t) (hi : i < t.slots.length)
    (hflag : i ∈ t.queue → (t.slot i).scheduled = true) (n : ℕ) :
    ∃ s', scheduleChannel s (s.ptr i) n = some s' ∧ Kept s s' ∧ Threads s' (t.schedule i n) := by
  obtain ⟨c, hc, hbare⟩ := h.deref hi
  have hsched : (t.slot i).scheduled = c.scheduled := by rw [← hbare]; rfl
  -- with or without a call of `unschedule_channel`, the element is out of the list
  have hout : ∃ s₁, (if c.scheduled = true then unscheduleChannel s (s.ptr i) else some s) =
      some s₁ ∧ Kept s s₁ ∧ Threads s₁ (t.unschedule i) := by
    by_cases hs : c.scheduled = true
    · rw [if_pos hs]
      exact h.unschedule hi
    · rw [if_neg hs, Table.unschedule_of_not (by rw [hsched]; exact hs)]
      exact ⟨s, rfl, ⟨rfl, rfl⟩, h⟩
  obtain ⟨s₁, heq₁, hk₁, h₁⟩ := hout
  have hi₁ : i < (t.unschedule i).slots.length := by rw [Table.length_unschedule]; exact hi
  have hmem := Table.notMem_unschedule h.nodup hflag
  obtain ⟨c₁, hc₁, hbare₁⟩ := h₁.deref hi₁
  have hput := h₁.put hi₁ hmem { c₁ with nextRunNs := n, scheduled := true, schedNext := none }
  have hslot : ({ c₁ with nextRunNs := n, scheduled := true, schedNext := none } :
      ProcChannelState).bare = { (t.unschedule i).slot i with nextRunNs := n, scheduled := true } := by
    rw [← hbare₁]
    rfl
  rw [hslot] at hput
  obtain ⟨s', heq', hk', h'⟩ := hput.insert (by rw [Table.length_put]; exact hi₁) hmem n
  refine ⟨s', ?_, hk₁.trans ⟨hk'.channels, hk'.channelsActive⟩, h'⟩
  simp only [scheduleChannel, hc, Option.bind_eq_bind, Option.bind_some, heq₁]
  rw [← hk₁.ptr, hc₁]
  exact heq'

theorem Threads.release (h : Threads s t) (hi : i < t.slots.length)
    (hflag : i ∈ t.queue → (t.slot i).scheduled = true) :
    ∃ s', releaseChannelState s (s.ptr i) = some s' ∧ Kept s s' ∧ Threads s' (t.release i) := by
  obtain ⟨c, hc, hbare⟩ := h.deref hi
  have hactive : (t.slot i).active = c.active := by rw [← hbare]; rfl
  simp only [releaseChannelState, hc, Option.bind_eq_bind, Option.bind_some]
  by_cases ha : c.active = true
  swap
  · rw [if_pos (by simpa using ha), Table.release, if_neg (by rw [hactive]; exact ha)]
    exact ⟨s, rfl, ⟨rfl, rfl⟩, h⟩
  rw [if_neg (by simpa using ha), Table.release_of_active (hactive.trans ha)]
  obtain ⟨s₁, heq₁, hk₁, h₁⟩ := h.unschedule hi
  have hi₁ : i < (t.unschedule i).slots.length := by rw [Table.length_unschedule]; exact hi
  obtain ⟨c₁, hc₁, hbare₁⟩ := h₁.deref hi₁
  have hput := h₁.put hi₁ (Table.notMem_unschedule h.nodup hflag)
    { c₁ with
      procInCb := none, cbExc := none, id := 0, active := false, nextRunNs := 0, schedNext := none }
  rw [heq₁, Option.bind_some, ← hk₁.ptr, hc₁]
  refine ⟨_, rfl, ⟨hk₁.channels, hk₁.channelsActive⟩, ?_⟩
  rw [← hbare₁]
  exact hput

theorem Threads.pop (h : Threads s t) (now : ℕ) :
    (∃ i q c s', t.queue = i :: q ∧ (t.slot i).nextRunNs ≤ now ∧
      popDueChannel s now = some (s', some (s.ptr i)) ∧ Kept s s' ∧
      s'.deref (s'.ptr i) = some c ∧ c.bare = { t.slot i with scheduled := false } ∧
      Threads s' { t.put i { t.slot i with scheduled := false } with queue := q }) ∨
    ((∀ i ∈ t.queue.head?, now < (t.slot i).nextRunNs) ∧ popDueChannel s now = some (s, none)) := by
  have hhead := h.lists.get_eq
  rw [show s.links.get none = s.schedHead from rfl, List.head?_map] at hhead
  unfold popDueChannel
  rw [hhead]
  cases hq : t.queue with
  | nil => exact .inr ⟨by simp, rfl⟩
  | cons i q =>
    have hi : i < t.slots.length := h.inside i (hq ▸ List.mem_cons_self)
    obtain ⟨c, hc, hbare⟩ := h.deref hi
    have hrun : (t.slot i).nextRunNs = c.nextRunNs := by rw [← hbare]; rfl
    simp only [List.head?_cons, Option.map_some, hc, Option.bind_eq_bind, Option.bind_some]
    by_cases hnow : c.nextRunNs > now
    · rw [if_pos hnow]
      refine .inr ⟨?_, rfl⟩
      rintro j hj
      rw [← Option.mem_some_iff.mp hj, hrun]
      exact hnow
    · rw [if_neg hnow]
      -- the list goes on behind the element, and the element is written then
      have hthr : Threads { s with schedHead := c.schedNext } { t with queue := q } := by
        refine ⟨h.slots, ?_, fun j hj => h.inside j (hq ▸ List.mem_cons_of_mem i hj)⟩
        have hlists := h.lists
        rw [hq] at hlists
        refine hlists.2.congr ?_ fun _ _ => rfl
        show c.schedNext = s.links.next (s.ptr i)
        rw [links_next hc]
      have hnot : i ∉ q := by
        have hnd := h.nodup
        rw [hq] at hnd
        exact (List.nodup_cons.mp hnd).1
      have hput := hthr.put hi hnot { c with schedNext := none, scheduled := false }
      refine .inl ⟨i, q, { c with schedNext := none, scheduled := false }, _, rfl, ?_, rfl,
        ⟨rfl, rfl⟩, ?_, ?_, ?_⟩
      · rw [hrun]
        omega
      · exact (deref_store (s := { s with schedHead := c.schedNext }) hc _ _).trans (if_pos rfl)
      · rw [← hbare]
        rfl
      · rw [← hbare]
        exact hput

theorem Threads.rebuildLoop : ∀ {idxs : List ℕ} {s : PyRtpProc} {t : Table}, Threads s t →
    (∀ i ∈ idxs, i < t.slots.length ∧ i ∉ t.queue) → idxs.Nodup →
    ∃ s', rebuildLoop s idxs = some s' ∧ Kept s s' ∧ Threads s' (t.rebuildFrom idxs) := by
  intro idxs
  induction idxs with
  | nil =>
    intro s t h _ _
    exact ⟨s, rfl, ⟨rfl, rfl⟩, h⟩
  | cons i idxs ih =>
    intro s t h hout hnd
    obtain ⟨hi, hmem⟩ := hout i List.mem_cons_self
    obtain ⟨hni, hnd⟩ := List.nodup_cons.mp hnd
    have hout' := fun j hj => hout j (List.mem_cons_of_mem i hj)
    obtain ⟨c, hc, hbare⟩ := h.deref hi
    have hclear := h.put hi hmem { c with schedNext := none }
    rw [show ({ c with schedNext := none } : ProcChannelState).bare = c.bare from rfl, hbare,
      Table.put_slot hi] at hclear
    have hfields : (t.slot i).active = c.active ∧ (t.slot i).scheduled = c.scheduled ∧
        (t.slot i).nextRunNs = c.nextRunNs := by
      rw [← hbare]
      exact ⟨rfl, rfl, rfl⟩
    simp only [RtpProc.rebuildLoop, hc, Option.bind_eq_bind, Option.bind_some]
    rw [Table.rebuildFrom, List.foldl_cons, ← Table.rebuildFrom, hfields.1, hfields.2.1, hfields.2.2]
    by_cases hs : (c.active && c.scheduled) = true
    · have hs' := Bool.and_eq_true_iff.mp hs
      rw [if_neg (by simp [hs'.1, hs'.2]), if_pos hs]
      obtain ⟨s₁, heq₁, hk₁, h₁⟩ := hclear.insert hi hmem c.nextRunNs
      have hout₁ : ∀ j ∈ idxs, j < (t.insert i c.nextRunNs).slots.length ∧
          j ∉ (t.insert i c.nextRunNs).queue := by
        intro j hj
        refine ⟨(hout' j hj).1, ?_⟩
        rw [(Table.insert_perm t i c.nextRunNs).mem_iff, List.mem_cons, not_or]
        exact ⟨fun hji => hni (hji ▸ hj), (hout' j hj).2⟩
      obtain ⟨s', heq', hk', h'⟩ := ih h₁ hout₁ hnd
      refine ⟨s', ?_, Kept.trans ⟨hk₁.channels, hk₁.channelsActive⟩ hk', h'⟩
      rw [show insertChannel _ (s.ptr i) _ = _ from heq₁]
      exact heq'
    · rw [if_pos (by simpa [Classical.or_iff_not_imp_left] using hs), if_neg hs]
      obtain ⟨s', heq', hk', h'⟩ := ih hclear hout' hnd
      exact ⟨s', heq', ⟨hk'.channels, hk'.channelsActive⟩, h'⟩

/-- **The array grows**: it stays where it is, or it moves and the list is built
again. -/
theorem Threads.grow (h : Threads s t) (addr n : ℕ) :
    ∃ s', (if s.channels ≠ addr ∧ s.schedHead ≠ none then
        (rebuildScheduleList (s.grown addr n)).map fun s' => (s', true)
        else some (s.grown addr n, true)) = some (s', true) ∧
      s'.channelsActive = s.channelsActive ∧
      (Threads s' (t.grown n) ∨ Threads s' (t.grown n).rebuild) := by
  have hslots : (s.grown addr n).elems.map ProcChannelState.bare = (t.grown n).slots := by
    rw [PyRtpProc.grown, List.map_append, h.slots, List.map_replicate]
    rfl
  have hhead := h.lists.get_eq
  rw [show s.links.get none = s.schedHead from rfl, List.head?_map] at hhead
  by_cases hmove : s.channels ≠ addr ∧ s.schedHead ≠ none
  · rw [if_pos hmove]
    have hthr : Threads { s.grown addr n with schedHead := none } ⟨(t.grown n).slots, []⟩ :=
      ⟨hslots, rfl, by simp⟩
    obtain ⟨s', heq, hk, h'⟩ := hthr.rebuildLoop
      (fun i hi => ⟨List.mem_range.mp hi, List.not_mem_nil⟩) List.nodup_range
    refine ⟨s', ?_, hk.channelsActive, .inr h'⟩
    rw [← hslots, List.length_map] at heq
    rw [rebuildScheduleList, heq]
    rfl
  · rw [if_neg hmove]
    refine ⟨_, rfl, rfl, .inl ⟨hslots, ?_, fun i hi => ?_⟩⟩
    · by_cases hnil : t.queue = []
      · show ListsFrom _ none (t.queue.map _)
        rw [hnil] at hhead ⊢
        exact hhead
      · -- the array is where it was
        have haddr : s.channels = addr := by
          by_contra hne
          refine hmove ⟨hne, ?_⟩
          rw [hhead, ne_eq, Option.map_eq_none_iff, List.head?_eq_none_iff]
          exact hnil
        subst haddr
        refine h.lists.congr rfl fun p hp => ?_
        obtain ⟨i, hi, rfl⟩ := List.mem_map.mp hp
        have hlt : i < s.elems.length := by rw [h.length]; exact h.inside i hi
        have hread : (s.grown s.channels n).deref (s.ptr i) = s.deref (s.ptr i) := by
          rw [deref_ptr, ← List.getElem?_append_left hlt]
          exact deref_ptr (s.grown s.channels n) i
        exact congrArg (Option.bind · ProcChannelState.schedNext) hread
    · have := h.inside i hi
      rw [Table.grown, List.length_append]
      omega

end threads

end RtpProc
