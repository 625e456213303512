/-
Where the reference of the worker to a channel is (`python/RtpServer_mod.c`).

`create_channel` takes one reference for the worker.  Who has to drop it changes: the
creating thread until the command is sent, the command in the queue, the table, the
command again if it cannot be added, the thread that closes the channel once the worker
has removed it.  `Place` is where the reference is.  Each part of the system is here
related to the places on its own:

* `Holds` — the list of what is at a place, for the table and the commands;
* `Hands`, `Closers`, `Answers` — the threads that create a channel, that close one, and
  the statuses on their way to them;
* `Removals` — the commands that remove a channel;
* `Opens`, `Counts` — the channel objects, and the references dropped.
-/
import LibRtpSynth.RtpServerLocks
import LibRtpSynth.RtpServerPoll
import Mathlib.Data.List.Perm.Basic

open Runs RtpSync

namespace RtpServer

/-! ### Places -/

section places

variable {α β : Type*} {place : α → β} {p q : β} {l l' : List α} {c : α}

/-- The list has what is at the place, once each. -/
structure Holds (place : α → β) (p : β) (l : List α) : Prop where
  nodup : l.Nodup
  mem_iff : ∀ c, c ∈ l ↔ place c = p

variable [DecidableEq α]

/-- Something moves between two other places. -/
theorem Holds.aside (h : Holds place p l) (hc : place c ≠ p) (hq : q ≠ p) :
    Holds (Function.update place c q) p l := by
  refine ⟨h.nodup, fun c' => ?_⟩
  by_cases hcc : c' = c
  · rw [hcc, Function.update_self, h.mem_iff]
    exact iff_of_false hc hq
  · rw [Function.update_of_ne hcc]
    exact h.mem_iff c'

/-- Something comes to the place. -/
theorem Holds.add (h : Holds place p l) (hc : place c ≠ p) (hl : l'.Perm (c :: l)) :
    Holds (Function.update place c p) p l' := by
  refine ⟨hl.nodup_iff.mpr (List.nodup_cons.mpr ⟨fun hmem => hc ((h.mem_iff c).mp hmem), h.nodup⟩),
    fun c' => ?_⟩
  rw [hl.mem_iff, List.mem_cons, h.mem_iff]
  by_cases hcc : c' = c
  · rw [hcc, Function.update_self]
    exact iff_of_true (.inl rfl) rfl
  · rw [Function.update_of_ne hcc]
    exact or_iff_right hcc

/-- Something goes from the place. -/
theorem Holds.remove (h : Holds place p l) (hq : q ≠ p) (hl : l.Perm (c :: l')) :
    Holds (Function.update place c q) p l' := by
  have hnodup := hl.nodup_iff.mp h.nodup
  refine ⟨(List.nodup_cons.mp hnodup).2, fun c' => ?_⟩
  by_cases hcc : c' = c
  · rw [hcc, Function.update_self]
    exact iff_of_false (List.nodup_cons.mp hnodup).1 hq
  · rw [Function.update_of_ne hcc, ← h.mem_iff, hl.mem_iff, List.mem_cons]
    exact (or_iff_right hcc).symm

end places

/-- Where the reference of the worker is: taken by nobody yet, with the thread that creates
the channel, with the command that adds it, with the table, with the command that could not
add it, with the thread that closes it, dropped. -/
inductive Place
  | away
  | hand
  | pending
  | table
  | failed
  | closer
  | gone
  deriving DecidableEq, Repr

/-! ### The table -/

section table

variable {self self' : PyRtpServer} {channel : RtpChannelState} {out : WorkerOut} {c : ℕ}

/-- The addresses of the channels of the table. -/
def PyRtpServer.ptrs (self : PyRtpServer) : List ℕ := self.present.map RtpChannelState.ptr

theorem clearChannels_ptrs (self : PyRtpServer) : (clearChannels self).2 = self.ptrs := by
  rw [PyRtpServer.ptrs, PyRtpServer.present, List.map_filterMap]
  rfl

theorem ptrs_congr (h : self'.channels = self.channels) : self'.ptrs = self.ptrs := by
  rw [PyRtpServer.ptrs, PyRtpServer.present, h]
  rfl

/-- `CMD_ADD_CHANNEL`. -/
theorem processAddChannel_ptrs (h : CacheInv self) {addr : Option ℕ}
    (hstep : processAddChannel self channel addr = some (self', out)) :
    out = .quiet ∧ self'.ptrs.Perm (channel.ptr :: self.ptrs) ∨
      out = ⟨enomem, [channel.ptr], [], []⟩ ∧ self'.ptrs = self.ptrs := by
  rw [processAddChannel] at hstep
  rcases h.alloc addr with ⟨u, i, heq, -, hpresent, hslot⟩ | heq
  · rw [heq, Option.bind_some] at hstep
    dsimp only at hstep
    rw [if_pos hslot] at hstep
    obtain ⟨rfl, rfl⟩ := Prod.mk.inj (Option.some.inj hstep)
    refine .inl ⟨rfl, ?_⟩
    obtain ⟨pre, post, hsplit, hset⟩ := set_eq_append hslot (some channel)
    have hold : self.present = pre.filterMap id ++ post.filterMap id := by
      rw [← hpresent, PyRtpServer.present, hsplit, present_none]
    rw [PyRtpServer.ptrs, PyRtpServer.ptrs, ← List.map_cons (f := RtpChannelState.ptr), hold,
      PyRtpServer.present]
    dsimp only
    rw [hset, present_some]
    exact List.perm_middle.map _
  · rw [heq] at hstep
    obtain ⟨rfl, rfl⟩ := Prod.mk.inj (Option.some.inj hstep)
    exact .inr ⟨rfl, rfl⟩

theorem findChannelIndex_none (h : findChannelIndex self c = none) : c ∉ self.ptrs := by
  rw [PyRtpServer.ptrs, List.mem_map]
  rintro ⟨ch, hch, rfl⟩
  obtain ⟨slot, hslot, hid⟩ := List.mem_filterMap.mp hch
  have hne := List.findIdx?_eq_none_iff.mp h slot hslot
  rw [show slot = some ch from hid] at hne
  simp at hne

/-- `CMD_REMOVE_CHANNEL`. -/
theorem processRemoveChannel_ptrs {addr : Option ℕ}
    (hstep : processCommand self addr (.removeChannel c) = some (self', out)) :
    out = .quiet ∧ (c ∉ self.ptrs ∧ self'.ptrs = self.ptrs ∨ self.ptrs.Perm (c :: self'.ptrs)) := by
  obtain ⟨rfl, rfl⟩ := Prod.mk.inj (Option.some.inj hstep)
  refine ⟨rfl, ?_⟩
  rw [removeChannel]
  cases hfind : findChannelIndex self c with
  | none => exact .inl ⟨findChannelIndex_none hfind, rfl⟩
  | some idx =>
    refine .inr ?_
    obtain ⟨ch, hslot, rfl⟩ := findChannelIndex_some hfind
    obtain ⟨pre, post, hsplit, hset⟩ := set_eq_append hslot none
    have hold : self.present = pre.filterMap id ++ ch :: post.filterMap id := by
      rw [PyRtpServer.present, hsplit, present_some]
    rw [PyRtpServer.ptrs, PyRtpServer.ptrs, ← List.map_cons (f := RtpChannelState.ptr), hold,
      PyRtpServer.present]
    dsimp only
    rw [if_pos rfl, hset, present_none]
    exact List.perm_middle.map _

/-- `CMD_SET_TARGET`. -/
theorem processSetTarget_ptrs {target : ℕ} {addr : Option ℕ}
    (hstep : processCommand self addr (.setTarget c target) = some (self', out)) :
    out.unrefs = [] ∧ self'.ptrs = self.ptrs := by
  have heq : processSetTarget self c target = (self', out) := Option.some.inj hstep
  rw [processSetTarget] at heq
  cases hfind : findChannelIndex self c with
  | none =>
    rw [hfind] at heq
    obtain ⟨rfl, rfl⟩ := Prod.mk.inj heq
    exact ⟨rfl, rfl⟩
  | some idx =>
    rw [hfind] at heq
    obtain ⟨rfl, rfl⟩ := Prod.mk.inj heq
    refine ⟨rfl, ?_⟩
    obtain ⟨ch, hslot, -⟩ := findChannelIndex_some hfind
    obtain ⟨pre, post, hsplit, hset⟩ := set_eq_append hslot
      (some { ch with target := target, hasTarget := true })
    have hmodify : (self.channels.modify idx fun ch => ch.map fun ch =>
        ({ ch with target := target, hasTarget := true } : RtpChannelState)) =
        self.channels.set idx (some { ch with target := target, hasTarget := true }) := by
      rw [List.modify_eq_set, hslot]
      rfl
    rw [PyRtpServer.ptrs, PyRtpServer.ptrs, PyRtpServer.present, PyRtpServer.present, hsplit, present_some]
    dsimp only
    rw [← hsplit, hmodify, hset, present_some, List.map_append, List.map_append]
    rfl

/-- The rest of an iteration. -/
theorem iteration_ptrs (h : CacheInv self) {pfdsAddr indexAddr : Option ℕ} {tick : Bool} {ready : List ℕ}
    (hstep : iteration self pfdsAddr indexAddr tick ready = some (self', out)) :
    CacheInv self' ∧ self'.ptrs = self.ptrs := by
  obtain ⟨u, ok, heq, hu, hsame, -⟩ := h.refresh pfdsAddr indexAddr
  rw [iteration, heq, Option.bind_some] at hstep
  dsimp only at hstep
  split_ifs at hstep with hskip
  · obtain ⟨rfl, -⟩ := Prod.mk.inj (Option.some.inj hstep)
    exact ⟨hu, ptrs_congr hsame⟩
  · obtain ⟨p, -, hp⟩ := Option.map_eq_some_iff.mp hstep
    obtain ⟨rfl, -⟩ := Prod.mk.inj hp
    exact ⟨hu, ptrs_congr hsame⟩

end table

/-! ### Threads and commands -/

/-- The channel that a thread creates, as long as its command is not sent. -/
def Pc.makes : Pc → Option ℕ
  | .acquiring (.createChannel channel) | .enqueueing (.createChannel channel)
  | .releasing (.createChannel channel) none => some channel.ptr
  | _ => none

/-- The channel that a thread closes, once its command is sent. -/
def Pc.closes : Pc → Option ℕ
  | .waiting (.close channel) | .returning (.close channel) _ | .releasing (.close channel) (some _) =>
    some channel
  | _ => none

/-- The command of a call that has its answer, with it. -/
def Pc.answer : Pc → Option (RtpServerCmd × ℕ)
  | .returning job status | .releasing job (some status) => some (job.cmd, status)
  | _ => none

/-- The channel that a call is about. -/
def Job.channel : Job → Option ℕ
  | .createChannel channel => some channel.ptr
  | .setTarget channel _ | .close channel => some channel
  | .shutdown => none

/-- The channel that a thread is in a call about. -/
def Pc.channel : Pc → Option ℕ
  | .idle => none
  | .sending channel => some channel
  | .acquiring job | .enqueueing job | .waiting job | .returning job _ | .releasing job _ => job.channel

/-- The channels that are added by commands. -/
def adds (sents : List Sent) : List ℕ :=
  sents.filterMap fun sent =>
    match sent.cmd with
    | .addChannel channel => some channel.ptr
    | _ => none

/-- The commands that the worker has not come to. -/
def Sys.pending (s : Sys) : List Sent := s.batch ++ s.queue

/-- The channels of the table whose reference is not dropped. -/
def WorkerPc.live (self : PyRtpServer) : WorkerPc → List ℕ
  | .dropping _ left => left
  | _ => self.ptrs

/-- The same in the system. -/
def Sys.live (s : Sys) : List ℕ := s.workerPc.live s.self

/-- The references that a command still has when it is freed. -/
def WorkerPc.unrefs : WorkerPc → List ℕ
  | .completing _ _ unrefs | .freeing unrefs => unrefs
  | _ => []

/-! ### The parts of the invariant -/

section parts

variable {place : ℕ → Place} {c t : ℕ} {q : Place} {pcs : ℕ → Pc} {pc : Pc}

/-- The threads that create a channel have its reference. -/
def Hands (place : ℕ → Place) (pcs : ℕ → Pc) : Prop :=
  ∀ c, place c = .hand ↔ ∃ t, (pcs t).makes = some c

theorem Hands.keep (h : Hands place pcs) (hpc : pc.makes = (pcs t).makes) :
    Hands place (Function.update pcs t pc) := by
  intro c
  rw [h c]
  refine exists_congr fun t' => ?_
  by_cases ht : t' = t
  · rw [ht, Function.update_self, hpc]
  · rw [Function.update_of_ne ht]

theorem Hands.aside (h : Hands place pcs) (hc : place c ≠ .hand) (hq : q ≠ .hand) :
    Hands (Function.update place c q) pcs := by
  intro c'
  by_cases hcc : c' = c
  · rw [hcc, Function.update_self, ← h c]
    exact iff_of_false hq hc
  · rw [Function.update_of_ne hcc]
    exact h c'

theorem Hands.begins (h : Hands place pcs) (ht : (pcs t).makes = none) (hpc : pc.makes = some c) :
    Hands (Function.update place c .hand) (Function.update pcs t pc) := by
  intro c'
  by_cases hcc : c' = c
  · rw [hcc, Function.update_self]
    exact iff_of_true rfl ⟨t, by rw [Function.update_self, hpc]⟩
  · rw [Function.update_of_ne hcc, h c']
    refine exists_congr fun t' => ?_
    by_cases htt : t' = t
    · rw [htt, Function.update_self, ht, hpc]
      exact iff_of_false nofun fun heq => hcc (Option.some.inj heq).symm
    · rw [Function.update_of_ne htt]

theorem Hands.ends (h : Hands place pcs) (ht : (pcs t).makes = some c) (hpc : pc.makes = none)
    (hone : ∀ t', (pcs t').makes = some c → t' = t) (hq : q ≠ .hand) :
    Hands (Function.update place c q) (Function.update pcs t pc) := by
  intro c'
  by_cases hcc : c' = c
  · rw [hcc, Function.update_self]
    refine iff_of_false hq ?_
    rintro ⟨t', ht'⟩
    by_cases htt : t' = t
    · rw [htt, Function.update_self, hpc] at ht'
      cases ht'
    · rw [Function.update_of_ne htt] at ht'
      exact htt (hone t' ht')
  · rw [Function.update_of_ne hcc, h c']
    refine exists_congr fun t' => ?_
    by_cases htt : t' = t
    · rw [htt, Function.update_self, ht, hpc]
      exact iff_of_false (fun heq => hcc (Option.some.inj heq).symm) nofun
    · rw [Function.update_of_ne htt]

/-- Every reference was dropped as often as it should. -/
structure Counts (place : ℕ → Place) (drops : ℕ → ℕ) (created : ℕ → Bool) : Prop where
  drops : ∀ c, drops c = if place c = .gone then 1 else 0
  created : ∀ c, created c = true ↔ place c ≠ .away

variable {drops : ℕ → ℕ} {created : ℕ → Bool}

theorem Counts.aside (h : Counts place drops created) (hc : place c ≠ .gone ∧ place c ≠ .away)
    (hq : q ≠ .gone ∧ q ≠ .away) : Counts (Function.update place c q) drops created := by
  refine ⟨fun c' => ?_, fun c' => ?_⟩
  · by_cases hcc : c' = c
    · rw [hcc, Function.update_self, h.drops, if_neg hc.1, if_neg hq.1]
    · rw [Function.update_of_ne hcc]
      exact h.drops c'
  · by_cases hcc : c' = c
    · rw [hcc, Function.update_self, h.created]
      exact iff_of_true hc.2 hq.2
    · rw [Function.update_of_ne hcc]
      exact h.created c'

theorem Counts.drop (h : Counts place drops created) (hc : place c ≠ .gone ∧ place c ≠ .away) :
    Counts (Function.update place c .gone) (Function.update drops c (drops c + 1)) created := by
  refine ⟨fun c' => ?_, fun c' => ?_⟩
  · by_cases hcc : c' = c
    · rw [hcc, Function.update_self, Function.update_self, h.drops, if_neg hc.1, if_pos rfl]
    · rw [Function.update_of_ne hcc, Function.update_of_ne hcc]
      exact h.drops c'
  · by_cases hcc : c' = c
    · rw [hcc, Function.update_self, h.created]
      exact iff_of_true hc.2 nofun
    · rw [Function.update_of_ne hcc]
      exact h.created c'

theorem Counts.new (h : Counts place drops created) :
    Counts (Function.update place c .hand) (Function.update drops c 0)
      (Function.update created c true) := by
  refine ⟨fun c' => ?_, fun c' => ?_⟩
  · by_cases hcc : c' = c
    · rw [hcc, Function.update_self, Function.update_self, if_neg nofun]
    · rw [Function.update_of_ne hcc, Function.update_of_ne hcc]
      exact h.drops c'
  · by_cases hcc : c' = c
    · rw [hcc, Function.update_self, Function.update_self]
      exact iff_of_true rfl nofun
    · rw [Function.update_of_ne hcc, Function.update_of_ne hcc]
      exact h.created c'

/-- The commands that remove a channel: a thread that waits for one will drop the reference,
so the channel is in the table; without a waiter the channel is not in the table when the
worker comes to the command. -/
structure Removals (place : ℕ → Place) (pending : List Sent) : Prop where
  waited : ∀ c, ⟨.removeChannel c, true⟩ ∈ pending → place c = .table
  unwaited : ∀ pre c post, pending = pre ++ ⟨.removeChannel c, false⟩ :: post →
    c ∉ adds pre ∧ (place c = .table → ⟨.removeChannel c, true⟩ ∈ pre)

variable {pending : List Sent} {sent : Sent}

theorem Removals.aside (h : Removals place pending)
    (hwaited : ⟨.removeChannel c, true⟩ ∈ pending → q = .table)
    (hunwaited : q = .table → ⟨.removeChannel c, false⟩ ∉ pending) :
    Removals (Function.update place c q) pending := by
  refine ⟨fun c' hmem => ?_, fun pre c' post heq => ⟨(h.unwaited pre c' post heq).1, fun htable => ?_⟩⟩
  · by_cases hcc : c' = c
    · rw [hcc, Function.update_self]
      exact hwaited (hcc ▸ hmem)
    · rw [Function.update_of_ne hcc]
      exact h.waited c' hmem
  · by_cases hcc : c' = c
    · rw [hcc, Function.update_self] at htable
      refine absurd ?_ (hunwaited htable)
      rw [heq, hcc]
      exact List.mem_append_right _ List.mem_cons_self
    · rw [Function.update_of_ne hcc] at htable
      exact (h.unwaited pre c' post heq).2 htable

/-- The worker comes to a command. -/
theorem Removals.pop (h : Removals place (sent :: pending))
    (hsent : ∀ c, sent ≠ ⟨.removeChannel c, true⟩) : Removals place pending := by
  refine ⟨fun c hmem => h.waited c (List.mem_cons_of_mem _ hmem), ?_⟩
  rintro pre c post rfl
  obtain ⟨hadds, htable⟩ := h.unwaited (sent :: pre) c post rfl
  refine ⟨fun hmem => hadds ?_, fun hplace => ?_⟩
  · obtain ⟨sent', hsent', heq⟩ := List.mem_filterMap.mp hmem
    exact List.mem_filterMap.mpr ⟨sent', List.mem_cons_of_mem _ hsent', heq⟩
  · exact (List.mem_cons.mp (htable hplace)).resolve_left fun heq => hsent c heq.symm

/-- The worker comes to the command of a thread that waits. -/
theorem Removals.remove (h : Removals place (⟨.removeChannel c, true⟩ :: pending))
    (hone : ⟨.removeChannel c, true⟩ ∉ pending) :
    Removals (Function.update place c .closer) pending := by
  refine ⟨fun c' hmem => ?_, ?_⟩
  · have hcc : c' ≠ c := fun heq => hone (heq ▸ hmem)
    rw [Function.update_of_ne hcc]
    exact h.waited c' (List.mem_cons_of_mem _ hmem)
  · rintro pre c' post rfl
    obtain ⟨hadds, htable⟩ := h.unwaited (⟨.removeChannel c, true⟩ :: pre) c' post rfl
    refine ⟨hadds, fun hplace => ?_⟩
    by_cases hcc : c' = c
    · rw [hcc, Function.update_self] at hplace
      cases hplace
    · rw [Function.update_of_ne hcc] at hplace
      refine (List.mem_cons.mp (htable hplace)).resolve_left fun heq => hcc ?_
      exact RtpServerCmd.removeChannel.inj (Sent.mk.inj heq).1

theorem Removals.push (h : Removals place pending)
    (hwaited : ∀ c, sent = ⟨.removeChannel c, true⟩ → place c = .table)
    (hunwaited : ∀ c, sent = ⟨.removeChannel c, false⟩ →
      c ∉ adds pending ∧ (place c = .table → ⟨.removeChannel c, true⟩ ∈ pending)) :
    Removals place (pending ++ [sent]) := by
  refine ⟨fun c hmem => ?_, fun pre c post heq => ?_⟩
  · rcases List.mem_append.mp hmem with hmem | hmem
    · exact h.waited c hmem
    · exact hwaited c (List.mem_singleton.mp hmem).symm
  · rcases concat_eq_append_cons heq with ⟨rfl, hsent⟩ | ⟨post', rfl⟩
    · exact hunwaited c hsent
    · exact h.unwaited pre c post' rfl

/-- Where the references of the channels are that Python knows; the reference of one that
is open is dropped only when the server accepts no commands. -/
structure Opens (place : ℕ → Place) (known closed : ℕ → Bool) (accepting : Bool) : Prop where
  places : ∀ c, known c = true → place c = .table ∨ place c = .closer ∨ place c = .gone
  dropped : ∀ c, known c = true → place c = .gone → closed c = true ∨ accepting = false

variable {known closed : ℕ → Bool} {accepting : Bool}

theorem Opens.aside (h : Opens place known closed accepting)
    (hplaces : known c = true → q = .table ∨ q = .closer ∨ q = .gone)
    (hover : known c = true → q = .gone → closed c = true ∨ accepting = false) :
    Opens (Function.update place c q) known closed accepting := by
  refine ⟨fun c' hknown => ?_, fun c' hknown hgone => ?_⟩
  · by_cases hcc : c' = c
    · rw [hcc, Function.update_self]
      exact hplaces (hcc ▸ hknown)
    · rw [Function.update_of_ne hcc]
      exact h.places c' hknown
  · by_cases hcc : c' = c
    · rw [hcc, Function.update_self] at hgone
      exact hcc ▸ hover (hcc ▸ hknown) hgone
    · rw [Function.update_of_ne hcc] at hgone
      exact h.dropped c' hknown hgone

/-- Python does not know a channel whose reference has not come to the table. -/
theorem Opens.unknown (h : Opens place known closed accepting)
    (hc : place c = .hand ∨ place c = .pending ∨ place c = .failed) : known c = false := by
  refine Bool.eq_false_iff.mpr fun hknown => ?_
  rcases h.places c hknown with hplace | hplace | hplace <;> rw [hplace] at hc <;> simp at hc

/-- The reference of a channel moves that Python does not know. -/
theorem Opens.asideUnknown (h : Opens place known closed accepting) (hunknown : known c = false) :
    Opens (Function.update place c q) known closed accepting := by
  refine h.aside (fun hknown => ?_) fun hknown => ?_
  · cases hunknown.symm.trans hknown
  · cases hunknown.symm.trans hknown

/-- A channel object is marked. -/
theorem Opens.close (h : Opens place known closed accepting) (c : ℕ) :
    Opens place known (Function.update closed c true) accepting := by
  refine ⟨h.places, fun c' hknown hgone => ?_⟩
  by_cases hcc : c' = c
  · rw [hcc, Function.update_self]
    exact .inl rfl
  · rw [Function.update_of_ne hcc]
    exact h.dropped c' hknown hgone

/-- A channel object is returned. -/
theorem Opens.hand (h : Opens place known closed accepting) (hc : place c = .table) :
    Opens place (Function.update known c true) closed accepting := by
  refine ⟨fun c' hknown => ?_, fun c' hknown hgone => ?_⟩
  · by_cases hcc : c' = c
    · exact .inl (hcc ▸ hc)
    · rw [Function.update_of_ne hcc] at hknown
      exact h.places c' hknown
  · by_cases hcc : c' = c
    · rw [hcc, hc] at hgone
      cases hgone
    · rw [Function.update_of_ne hcc] at hknown
      exact h.dropped c' hknown hgone

/-- A channel object is made. -/
theorem Opens.new (h : Opens place known closed accepting) (c : ℕ) :
    Opens (Function.update place c q) (Function.update known c false) (Function.update closed c false)
      accepting := by
  refine ⟨fun c' hknown => ?_, fun c' hknown hgone => ?_⟩
  · by_cases hcc : c' = c
    · rw [hcc, Function.update_self] at hknown
      cases hknown
    · rw [Function.update_of_ne hcc] at hknown ⊢
      exact h.places c' hknown
  · by_cases hcc : c' = c
    · rw [hcc, Function.update_self] at hknown
      cases hknown
    · rw [Function.update_of_ne hcc] at hknown hgone ⊢
      exact h.dropped c' hknown hgone

/-- The threads that close a channel. -/
structure Closers (place : ℕ → Place) (pcs : ℕ → Pc) (known closed : ℕ → Bool) : Prop where
  opened : ∀ t c, (pcs t).early = some (.close c) → known c = true ∧ closed c = false
  there : ∀ t c, pcs t = .enqueueing (.close c) → place c = .table
  waits : ∀ c, place c = .closer → ∃ t, (pcs t).closes = some c

theorem Closers.aside (h : Closers place pcs known closed)
    (hthere : ∀ t, pcs t = .enqueueing (.close c) → q = .table)
    (hwaits : q = .closer → ∃ t, (pcs t).closes = some c) :
    Closers (Function.update place c q) pcs known closed := by
  refine ⟨h.opened, fun t c' hpc => ?_, fun c' hplace => ?_⟩
  · by_cases hcc : c' = c
    · rw [hcc, Function.update_self]
      exact hthere t (hcc ▸ hpc)
    · rw [Function.update_of_ne hcc]
      exact h.there t c' hpc
  · by_cases hcc : c' = c
    · rw [hcc, Function.update_self] at hplace
      exact hcc ▸ hwaits hplace
    · rw [Function.update_of_ne hcc] at hplace
      exact h.waits c' hplace

theorem Closers.client (h : Closers place pcs known closed)
    (hopened : ∀ c, pc.early = some (.close c) → known c = true ∧ closed c = false)
    (hthere : ∀ c, pc = .enqueueing (.close c) → place c = .table)
    (hwaits : ∀ c, place c = .closer → (pcs t).closes = some c → pc.closes = some c) :
    Closers place (Function.update pcs t pc) known closed := by
  refine ⟨fun t' c hpc => ?_, fun t' c hpc => ?_, fun c hplace => ?_⟩
  · by_cases htt : t' = t
    · rw [htt, Function.update_self] at hpc
      exact hopened c hpc
    · rw [Function.update_of_ne htt] at hpc
      exact h.opened t' c hpc
  · by_cases htt : t' = t
    · rw [htt, Function.update_self] at hpc
      exact hthere c hpc
    · rw [Function.update_of_ne htt] at hpc
      exact h.there t' c hpc
  · obtain ⟨t', ht'⟩ := h.waits c hplace
    refine ⟨t', ?_⟩
    by_cases htt : t' = t
    · rw [htt, Function.update_self]
      exact hwaits c hplace (htt ▸ ht')
    · rw [Function.update_of_ne htt]
      exact ht'

/-- The channel objects change when no call is between its checks and its command. -/
theorem Closers.objects (h : Closers place pcs known closed) {known' closed' : ℕ → Bool}
    (hout : ∀ t c, (pcs t).early = some (.close c) → known' c = known c ∧ closed' c = closed c) :
    Closers place pcs known' closed' := by
  refine ⟨fun t c hpc => ?_, h.there, h.waits⟩
  rw [(hout t c hpc).1, (hout t c hpc).2]
  exact h.opened t c hpc

/-- The channel that a command is about. -/
def RtpServerCmd.channel : RtpServerCmd → Option ℕ
  | .addChannel channel => some channel.ptr
  | .removeChannel channel | .setTarget channel _ => some channel
  | .dropChannels | .stopWorker => none

/-- What the status of a command says about the reference. -/
def Answered (place : ℕ → Place) : RtpServerCmd → ℕ → Prop
  | .addChannel channel, status =>
    if status = 0 then place channel.ptr = .table
    else place channel.ptr = .failed ∨ place channel.ptr = .gone
  | .removeChannel channel, status => status = 0 ∧ place channel = .closer
  | _, _ => True

variable {cmd : RtpServerCmd} {status : ℕ}

theorem answered_congr {place' : ℕ → Place} (h : Answered place cmd status)
    (hc : ∀ c, cmd.channel = some c → place' c = place c) : Answered place' cmd status := by
  cases cmd with
  | addChannel channel =>
    rw [Answered, hc channel.ptr rfl]
    exact h
  | removeChannel channel =>
    rw [Answered, hc channel rfl]
    exact h
  | setTarget _ _ | dropChannels | stopWorker => trivial

/-- No command is answered about a channel whose reference is on its way to the table. -/
theorem answered_aside (hc : place c = .hand ∨ place c = .pending) (h : Answered place cmd status) :
    Answered (Function.update place c q) cmd status := by
  by_cases hcmd : cmd.channel = some c
  · cases cmd with
    | addChannel channel =>
      obtain rfl := Option.some.inj hcmd
      rw [Answered] at h
      split_ifs at h
      · rcases hc with hc | hc <;> cases hc.symm.trans h
      · rcases hc with hc | hc <;> rcases h with h | h <;> cases hc.symm.trans h
    | removeChannel channel =>
      obtain rfl := Option.some.inj hcmd
      rcases hc with hc | hc <;> cases hc.symm.trans h.2
    | setTarget _ _ | dropChannels | stopWorker => trivial
  · refine answered_congr h fun c' hc' => Function.update_of_ne ?_ _ _
    rintro rfl
    exact hcmd hc'

theorem answered_freed (hc : place c = .failed) (h : Answered place cmd status) :
    Answered (Function.update place c .gone) cmd status := by
  by_cases hcmd : cmd.channel = some c
  · cases cmd with
    | addChannel channel =>
      obtain rfl := Option.some.inj hcmd
      rw [Answered] at h ⊢
      split_ifs at h ⊢
      · cases hc.symm.trans h
      · rw [Function.update_self]
        exact .inr rfl
    | removeChannel channel =>
      obtain rfl := Option.some.inj hcmd
      cases hc.symm.trans h.2
    | setTarget _ _ | dropChannels | stopWorker => trivial
  · refine answered_congr h fun c' hc' => Function.update_of_ne ?_ _ _
    rintro rfl
    exact hcmd hc'

/-- The statuses that are on their way to a thread. -/
structure Answers (place : ℕ → Place) (pcs : ℕ → Pc) (waiter : Waiter) (workerPc : WorkerPc) : Prop where
  answered : ∀ t cmd status, (pcs t).answer = some (cmd, status) → Answered place cmd status
  ready : ∀ t job, pcs t = .waiting job → waiter.done = true → Answered place job.cmd waiter.status
  completing : ∀ cmd status unrefs, workerPc = .completing ⟨cmd, true⟩ status unrefs →
    Answered place cmd status

variable {waiter : Waiter} {workerPc : WorkerPc}

theorem Answers.move (h : Answers place pcs waiter workerPc)
    (hmove : ∀ cmd status, Answered place cmd status → Answered (Function.update place c q) cmd status) :
    Answers (Function.update place c q) pcs waiter workerPc :=
  ⟨fun t cmd status hpc => hmove _ _ (h.answered t cmd status hpc),
    fun t job hpc hdone => hmove _ _ (h.ready t job hpc hdone),
    fun cmd status unrefs hpc => hmove _ _ (h.completing cmd status unrefs hpc)⟩

theorem Answers.client (h : Answers place pcs waiter workerPc)
    (hanswer : ∀ cmd status, pc.answer = some (cmd, status) → Answered place cmd status)
    (hready : ∀ job, pc = .waiting job → waiter.done = true → Answered place job.cmd waiter.status) :
    Answers place (Function.update pcs t pc) waiter workerPc := by
  refine ⟨fun t' cmd status hpc => ?_, fun t' job hpc hdone => ?_, h.completing⟩
  · by_cases htt : t' = t
    · rw [htt, Function.update_self] at hpc
      exact hanswer cmd status hpc
    · rw [Function.update_of_ne htt] at hpc
      exact h.answered t' cmd status hpc
  · by_cases htt : t' = t
    · rw [htt, Function.update_self] at hpc
      exact hready job hpc hdone
    · rw [Function.update_of_ne htt] at hpc
      exact h.ready t' job hpc hdone

/-- The waiter is reset. -/
theorem Answers.reset (h : Answers place pcs waiter workerPc) :
    Answers place pcs waiterReset workerPc :=
  ⟨h.answered, nofun, h.completing⟩

/-- The worker is not before a completion. -/
theorem Answers.worker (h : Answers place pcs waiter workerPc) {workerPc' : WorkerPc}
    (hcompleting : ∀ cmd status unrefs, workerPc' = .completing ⟨cmd, true⟩ status unrefs →
      Answered place cmd status) : Answers place pcs waiter workerPc' :=
  ⟨h.answered, h.ready, hcompleting⟩

end parts

end RtpServer
