/-
The channel table of `RtpServer` and its arrays for `poll`.

* `workerRun_pollCache` — after any sequence of commands and iterations the counter
  is right, no channel is in the table twice, and arrays that are not marked dirty
  list the channels of the table; `poll_inputs` runs on such arrays only.
-/
import LibRtpSynth.RtpServer
import LibRtpSynth.Runs
import Mathlib.Data.List.Nodup

open CWords Runs

namespace RtpServer

/-- The channels of the table, in slot order. -/
def PyRtpServer.present (self : PyRtpServer) : List RtpChannelState := self.channels.filterMap id

/-- What holds of the table and the arrays between two steps.  The elements of the
arrays that were written are those below `pollfds_len`. -/
structure CacheInv (s : PyRtpServer) : Prop where
  active : s.channelsActive = s.present.length
  distinct : (s.present.map RtpChannelState.ptr).Nodup
  len : s.pollfdsDirty = false → s.pollfdsLen = s.present.length
  len_le : s.pollfdsDirty = false → s.pollfdsLen ≤ s.pollfdsCap
  index : s.pollfdsDirty = false →
    s.pollfdsIndex.take s.pollfdsLen = s.present.map fun ch => some ch.ptr
  fds : s.pollfdsDirty = false → s.pollfds.take s.pollfdsLen = s.present.map fun ch => some ch.fd
  cap_pollfds : s.pollfdsCap ≤ s.pollfds.length
  cap_index : s.pollfdsCap ≤ s.pollfdsIndex.length
  small : s.channels.length * sizeofPointer < 2 ^ 63

section operations

variable {s s' : PyRtpServer}

/-- Dirty arrays need only be long enough. -/
theorem cacheInv_of_dirty (hdirty : s.pollfdsDirty = true)
    (hactive : s.channelsActive = s.present.length)
    (hdistinct : (s.present.map RtpChannelState.ptr).Nodup)
    (hpollfds : s.pollfdsCap ≤ s.pollfds.length) (hindex : s.pollfdsCap ≤ s.pollfdsIndex.length)
    (hsmall : s.channels.length * sizeofPointer < 2 ^ 63) : CacheInv s where
  active := hactive
  distinct := hdistinct
  len hd := by rw [hdirty] at hd; cases hd
  len_le hd := by rw [hdirty] at hd; cases hd
  index hd := by rw [hdirty] at hd; cases hd
  fds hd := by rw [hdirty] at hd; cases hd
  cap_pollfds := hpollfds
  cap_index := hindex
  small := hsmall

theorem cacheInv_new : CacheInv pyRtpServerNew :=
  cacheInv_of_dirty rfl rfl List.nodup_nil (le_refl _) (le_refl _) (by decide)

/-- An element of the table is replaced. -/
theorem set_eq_append {α : Type} {l : List α} {i : ℕ} {a : α} (h : l[i]? = some a) (b : α) :
    ∃ pre post, l = pre ++ a :: post ∧ l.set i b = pre ++ b :: post := by
  obtain ⟨hi, rfl⟩ := List.getElem?_eq_some_iff.mp h
  refine ⟨l.take i, l.drop (i + 1), ?_, ?_⟩
  · rw [← List.drop_eq_getElem_cons hi, List.take_append_drop]
  · rw [List.set_eq_take_append_cons_drop, if_pos hi]

theorem present_some (pre post : List (Option RtpChannelState)) (ch : RtpChannelState) :
    (pre ++ some ch :: post).filterMap id = pre.filterMap id ++ ch :: post.filterMap id :=
  List.filterMap_append

theorem present_none (pre post : List (Option RtpChannelState)) :
    (pre ++ none :: post).filterMap id = pre.filterMap id ++ post.filterMap id :=
  List.filterMap_append

/-! ### The table -/

/-- `alloc_channel_slot` finds a free element, maybe in a longer table. -/
theorem CacheInv.alloc (h : CacheInv s) (addr : Option ℕ) :
    (∃ s' i, allocChannelSlot s addr = some (s', some i) ∧ CacheInv s' ∧
      s'.present = s.present ∧ s'.channels[i]? = some none) ∨
    allocChannelSlot s addr = some (s, none) := by
  unfold allocChannelSlot
  cases hfind : s.channels.findIdx? Option.isNone with
  | some i =>
    obtain ⟨hi, hfree, -⟩ := List.findIdx?_eq_some_iff_getElem.mp hfind
    refine .inl ⟨s, i, rfl, h, rfl, ?_⟩
    rw [List.getElem?_eq_getElem hi, Option.isNone_iff_eq_none.mp hfree]
  | none =>
    have hsmall := h.small
    rw [sizeofPointer] at hsmall
    dsimp only
    rw [if_neg (by omega)]
    -- the new capacity, as it comes out of the loop
    have hgrow := growCap_eq (by omega : s.channels.length < 2 ^ 62)
    generalize hneed : (if s.channels.length = 0 then 4 else s.channels.length * 2) = newCap at hgrow
    have hnew : s.channels.length < newCap ∧ newCap < 2 ^ 61 := by
      rw [← hneed]
      split <;> omega
    have hmod : (if s.channels.length = 0 then 4 else s.channels.length * 2 % 2 ^ 64) = newCap := by
      rw [← hneed]
      split
      · rfl
      · exact Nat.mod_eq_of_lt (by omega)
    have hsize : newCap * sizeofPointer % 2 ^ 64 = newCap * sizeofPointer := by
      rw [sizeofPointer]
      exact Nat.mod_eq_of_lt (by omega)
    rw [hmod] at hgrow ⊢
    rw [ensureChannelCapacity, if_neg (Nat.not_le.mpr hnew.1), hgrow]
    dsimp only
    rw [hsize, realloc]
    by_cases hbig : newCap * sizeofPointer < 2 ^ 63
    swap
    · rw [if_neg hbig]
      exact .inr rfl
    rw [if_pos hbig]
    cases addr with
    | none => exact .inr rfl
    | some addr =>
      dsimp only
      rw [if_neg (Nat.lt_irrefl _)]
      have hpresent : (s.channels ++ List.replicate (newCap - s.channels.length) none).filterMap id =
          s.present := by
        rw [List.filterMap_append, List.filterMap_replicate_of_none rfl, List.append_nil]
        rfl
      refine .inl ⟨_, s.channels.length, rfl,
        cacheInv_of_dirty rfl ?_ ?_ h.cap_pollfds h.cap_index ?_, hpresent, ?_⟩
      · exact h.active.trans (congrArg List.length hpresent).symm
      · rw [PyRtpServer.present, hpresent]
        exact h.distinct
      · rw [List.length_append, List.length_replicate, Nat.add_sub_cancel' hnew.1.le]
        exact hbig
      · show (s.channels ++ _)[s.channels.length]? = _
        rw [List.getElem?_append_right (le_refl _), Nat.sub_self, List.getElem?_replicate,
          if_pos (by omega)]

theorem CacheInv.addChannel (h : CacheInv s) {channel : RtpChannelState}
    (hfresh : channel.ptr ∉ s.present.map RtpChannelState.ptr) (addr : Option ℕ) :
    ∃ s' out, processAddChannel s channel addr = some (s', out) ∧ CacheInv s' ∧
      out.polled = [] ∧ out.received = [] := by
  unfold processAddChannel
  rcases h.alloc addr with ⟨s', i, heq, h', hpresent, hslot⟩ | heq
  · rw [heq, Option.bind_some]
    dsimp only
    rw [if_pos hslot]
    refine ⟨_, _, rfl, ?_, rfl, rfl⟩
    obtain ⟨pre, post, hsplit, hset⟩ := set_eq_append hslot (some channel)
    have hold : s'.present = pre.filterMap id ++ post.filterMap id := by
      rw [PyRtpServer.present, hsplit, present_none]
    have hnew : (s'.channels.set i (some channel)).filterMap id =
        pre.filterMap id ++ channel :: post.filterMap id := by
      rw [hset, present_some]
    refine cacheInv_of_dirty rfl ?_ ?_ h'.cap_pollfds h'.cap_index ?_
    · show s'.channelsActive + 1 = ((s'.channels.set i (some channel)).filterMap id).length
      rw [hnew, h'.active, hold, List.length_append, List.length_append, List.length_cons]
      rfl
    · show (((s'.channels.set i (some channel)).filterMap id).map RtpChannelState.ptr).Nodup
      rw [← hpresent, hold, List.map_append] at hfresh
      have hdistinct := h'.distinct
      rw [hold, List.map_append] at hdistinct
      rw [hnew, List.map_append, List.map_cons]
      exact List.nodup_middle.mpr (List.nodup_cons.mpr ⟨hfresh, hdistinct⟩)
    · rw [List.length_set]
      exact h'.small
  · rw [heq]
    exact ⟨s, _, rfl, h, rfl, rfl⟩

/-- Where `find_channel_index` finds a channel. -/
theorem findChannelIndex_some {channel idx : ℕ} (h : findChannelIndex s channel = some idx) :
    ∃ ch, s.channels[idx]? = some (some ch) ∧ ch.ptr = channel := by
  obtain ⟨hi, heq, -⟩ := List.findIdx?_eq_some_iff_getElem.mp h
  obtain ⟨ch, hch, hptr⟩ := Option.map_eq_some_iff.mp (of_decide_eq_true heq)
  exact ⟨ch, by rw [List.getElem?_eq_getElem hi, hch], hptr⟩

theorem CacheInv.removeChannel (h : CacheInv s) (channel : ℕ) :
    CacheInv (if (removeChannel s channel).2 then
      { (removeChannel s channel).1 with pollfdsDirty := true } else (removeChannel s channel).1) := by
  unfold RtpServer.removeChannel
  cases hfind : findChannelIndex s channel with
  | none => exact h
  | some idx =>
    obtain ⟨ch, hslot, -⟩ := findChannelIndex_some hfind
    obtain ⟨pre, post, hsplit, hset⟩ := set_eq_append hslot none
    have hold : s.present = pre.filterMap id ++ ch :: post.filterMap id := by
      rw [PyRtpServer.present, hsplit, present_some]
    have hnew : (s.channels.set idx none).filterMap id = pre.filterMap id ++ post.filterMap id := by
      rw [hset, present_none]
    refine cacheInv_of_dirty rfl ?_ ?_ h.cap_pollfds h.cap_index ?_
    · show s.channelsActive - 1 = ((s.channels.set idx none).filterMap id).length
      rw [hnew, h.active, hold, List.length_append, List.length_append, List.length_cons]
      rfl
    · show (((s.channels.set idx none).filterMap id).map RtpChannelState.ptr).Nodup
      have hdistinct := h.distinct
      rw [hold, List.map_append, List.map_cons] at hdistinct
      rw [hnew, List.map_append]
      exact (List.nodup_cons.mp (List.nodup_middle.mp hdistinct)).2
    · show (s.channels.set idx none).length * _ < _
      rw [List.length_set]
      exact h.small

/-- Another table with the same addresses and descriptors. -/
theorem CacheInv.of_same (h : CacheInv s) {channels : List (Option RtpChannelState)}
    (hptr : (channels.filterMap id).map RtpChannelState.ptr = s.present.map RtpChannelState.ptr)
    (hfd : (channels.filterMap id).map RtpChannelState.fd = s.present.map RtpChannelState.fd)
    (hlen : channels.length = s.channels.length) : CacheInv { s with channels := channels } := by
  have hlength : (channels.filterMap id).length = s.present.length := by
    have := congrArg List.length hptr
    rwa [List.length_map, List.length_map] at this
  refine ⟨h.active.trans hlength.symm, ?_, fun hd => (h.len hd).trans hlength.symm, h.len_le,
    fun hd => ?_, fun hd => ?_, h.cap_pollfds, h.cap_index, ?_⟩
  · show ((channels.filterMap id).map RtpChannelState.ptr).Nodup
    rw [hptr]
    exact h.distinct
  · refine (h.index hd).trans ?_
    have := congrArg (List.map some) hptr
    rw [List.map_map, List.map_map] at this
    exact this.symm
  · refine (h.fds hd).trans ?_
    have := congrArg (List.map some) hfd
    rw [List.map_map, List.map_map] at this
    exact this.symm
  · show channels.length * _ < _
    rw [hlen]
    exact h.small

theorem CacheInv.setTarget (h : CacheInv s) (channel target : ℕ) :
    CacheInv (processSetTarget s channel target).1 := by
  unfold processSetTarget
  cases hfind : findChannelIndex s channel with
  | none => exact h
  | some idx =>
    obtain ⟨ch, hslot, -⟩ := findChannelIndex_some hfind
    have hmodify : (s.channels.modify idx fun ch => ch.map fun ch =>
        ({ ch with target := target, hasTarget := true } : RtpChannelState)) =
        s.channels.set idx (some { ch with target := target, hasTarget := true }) := by
      rw [List.modify_eq_set, hslot]
      rfl
    obtain ⟨pre, post, hsplit, hset⟩ := set_eq_append hslot
      (some { ch with target := target, hasTarget := true })
    have hold : s.present = pre.filterMap id ++ ch :: post.filterMap id := by
      rw [PyRtpServer.present, hsplit, present_some]
    dsimp only
    rw [hmodify]
    refine h.of_same ?_ ?_ List.length_set
    · rw [hset, hold, present_some, List.map_append, List.map_append]
      rfl
    · rw [hset, hold, present_some, List.map_append, List.map_append]
      rfl

theorem CacheInv.dropChannels (s : PyRtpServer) : CacheInv (processDropChannels s).1 where
  active := rfl
  distinct := List.nodup_nil
  len _ := rfl
  len_le _ := le_refl _
  index _ := rfl
  fds _ := rfl
  cap_pollfds := le_refl _
  cap_index := le_refl _
  small := show 0 * sizeofPointer < 2 ^ 63 by decide

/-! ### The arrays for `poll` -/

theorem length_resized {α : Type} (l : List (Option α)) (n : ℕ) : (resized l n).length = n := by
  rw [resized, List.length_append, List.length_take, List.length_replicate]
  omega

/-- The arrays grow to the number of channels, the first of them maybe alone. -/
theorem CacheInv.growPollCache (h : CacheInv s) (hdirty : s.pollfdsDirty = true)
    (pfdsAddr indexAddr : Option ℕ) :
    ∃ s' ok, growPollCache s s.channelsActive pfdsAddr indexAddr = (s', ok) ∧ CacheInv s' ∧
      s'.channels = s.channels ∧ s'.pollfdsDirty = true ∧
      (ok = true → s.channelsActive ≤ s'.pollfdsCap) := by
  have hsmall : s.channelsActive < 2 ^ 60 := by
    have hle : s.present.length ≤ s.channels.length := List.length_filterMap_le id s.channels
    have := h.small
    rw [sizeofPointer] at this
    rw [h.active]
    omega
  have hpfds : s.channelsActive * sizeofPollfd % 2 ^ 64 / sizeofPollfd = s.channelsActive := by
    rw [sizeofPollfd, Nat.mod_eq_of_lt (by omega)]
    omega
  have hindex : s.channelsActive * sizeofPointer % 2 ^ 64 / sizeofPointer = s.channelsActive := by
    rw [sizeofPointer, Nat.mod_eq_of_lt (by omega)]
    omega
  unfold RtpServer.growPollCache
  by_cases hneed : s.channelsActive > s.pollfdsCap
  swap
  · rw [if_neg hneed]
    exact ⟨s, true, rfl, h, rfl, hdirty, fun _ => Nat.le_of_not_lt hneed⟩
  rw [if_pos hneed]
  dsimp only
  cases realloc (s.channelsActive * sizeofPollfd % 2 ^ 64) pfdsAddr with
  | none => exact ⟨s, false, rfl, h, rfl, hdirty, nofun⟩
  | some _ =>
    dsimp only
    rw [hpfds, hindex]
    -- the first array is long enough now, whatever comes of the second
    have hcap : s.pollfdsCap ≤ (resized s.pollfds s.channelsActive).length := by
      rw [length_resized]
      omega
    cases realloc (s.channelsActive * sizeofPointer % 2 ^ 64) indexAddr with
    | none =>
      exact ⟨_, false, rfl, cacheInv_of_dirty hdirty h.active h.distinct hcap h.cap_index h.small, rfl,
        hdirty, nofun⟩
    | some _ =>
      exact ⟨_, true, rfl, cacheInv_of_dirty hdirty h.active h.distinct (length_resized _ _).ge
        (length_resized _ _).ge h.small, rfl, hdirty, fun _ => le_refl _⟩

/-- The loop over the channels writes one element for each of them. -/
theorem fillPollCache_eq : ∀ (channels : List (Option RtpChannelState)) {i : ℕ}
    {pollfds index : List (Option ℕ)}, i + (channels.filterMap id).length ≤ pollfds.length →
    i + (channels.filterMap id).length ≤ index.length →
    ∃ pollfds' index', fillPollCache channels i pollfds index =
        some (pollfds', index', i + (channels.filterMap id).length) ∧
      pollfds'.length = pollfds.length ∧ index'.length = index.length ∧
      pollfds'.take (i + (channels.filterMap id).length) =
        pollfds.take i ++ (channels.filterMap id).map (fun ch => some ch.fd) ∧
      index'.take (i + (channels.filterMap id).length) =
        index.take i ++ (channels.filterMap id).map (fun ch => some ch.ptr) := by
  intro channels
  induction channels with
  | nil =>
    intro i pollfds index _ _
    exact ⟨pollfds, index, rfl, rfl, rfl, by simp, by simp⟩
  | cons ch channels ih =>
    intro i pollfds index hp hx
    cases ch with
    | none => exact ih hp hx
    | some ch =>
      have hcons : (some ch :: channels).filterMap id = ch :: channels.filterMap id := rfl
      rw [hcons, List.length_cons] at hp hx
      obtain ⟨pollfds', index', heq, hlp, hlx, htp, htx⟩ := @ih (i + 1) (pollfds.set i (some ch.fd))
        (index.set i (some ch.ptr)) (by rw [List.length_set]; omega) (by rw [List.length_set]; omega)
      have hlen : i + 1 + (channels.filterMap id).length =
          i + (ch :: channels.filterMap id).length := by
        rw [List.length_cons]
        omega
      -- the prefix has grown by the element written
      have htake : ∀ (l : List (Option ℕ)) (a : ℕ), i < l.length →
          (l.set i (some a)).take (i + 1) = l.take i ++ [some a] := by
        intro l a hi
        rw [List.take_succ_eq_append_getElem (by rw [List.length_set]; exact hi),
          List.getElem_set_self, List.take_set_of_le (le_refl i)]
      rw [hlen] at heq htp htx
      rw [hcons]
      refine ⟨pollfds', index', ?_, by rw [hlp, List.length_set], by rw [hlx, List.length_set], ?_, ?_⟩
      · rw [fillPollCache, if_pos ⟨by omega, by omega⟩]
        exact heq
      · rw [htp, htake pollfds ch.fd (by omega), List.append_assoc]
        rfl
      · rw [htx, htake index ch.ptr (by omega), List.append_assoc]
        rfl

/-- **`refresh_poll_cache`** makes the arrays list the channels, or fails. -/
theorem CacheInv.refresh (h : CacheInv s) (pfdsAddr indexAddr : Option ℕ) :
    ∃ s' ok, refreshPollCache s pfdsAddr indexAddr = some (s', ok) ∧ CacheInv s' ∧
      s'.channels = s.channels ∧ (ok = true → s'.pollfdsDirty = false) := by
  unfold refreshPollCache
  by_cases hdirty : s.pollfdsDirty = true
  swap
  · rw [if_pos (by simpa using hdirty)]
    exact ⟨s, true, rfl, h, rfl, fun _ => (Bool.not_eq_true _).mp hdirty⟩
  rw [if_neg (by simpa using hdirty)]
  by_cases hzero : s.channelsActive = 0
  · rw [if_pos hzero]
    have hnil : s.present = [] := List.length_eq_zero_iff.mp (h.active.symm.trans hzero)
    refine ⟨_, true, rfl, ⟨h.active, h.distinct, fun _ => ?_, fun _ => Nat.zero_le _, fun _ => ?_,
      fun _ => ?_, h.cap_pollfds, h.cap_index, h.small⟩, rfl, fun _ => rfl⟩
    · exact (congrArg List.length hnil).symm
    · show [] = s.present.map _
      rw [hnil]
      rfl
    · show [] = s.present.map _
      rw [hnil]
      rfl
  rw [if_neg hzero]
  obtain ⟨s₁, ok, heq, h₁, hch, hd₁, hcap⟩ := h.growPollCache hdirty pfdsAddr indexAddr
  rw [heq]
  cases ok with
  | false => exact ⟨s₁, false, rfl, h₁, hch, nofun⟩
  | true =>
    have hlen : (s₁.channels.filterMap id).length ≤ s₁.pollfdsCap := by
      rw [hch]
      exact h.active ▸ hcap rfl
    obtain ⟨pollfds', index', hfill, hlp, hlx, htp, htx⟩ := @fillPollCache_eq s₁.channels 0 s₁.pollfds
      s₁.pollfdsIndex (by have := h₁.cap_pollfds; omega) (by have := h₁.cap_index; omega)
    rw [Nat.zero_add] at hfill htp htx
    dsimp only
    rw [hfill]
    refine ⟨_, true, rfl, ⟨h₁.active, h₁.distinct, fun _ => rfl, fun _ => hlen, fun _ => htx,
      fun _ => htp, ?_, ?_, h₁.small⟩, hch, fun _ => rfl⟩
    · exact h₁.cap_pollfds.trans hlp.ge
    · exact h₁.cap_index.trans hlx.ge

/-- Elements that were written can be read. -/
theorem readAll_eq {l : List (Option ℕ)} {n : ℕ} {xs : List ℕ} (h : l.take n = xs.map some) :
    ∀ {idxs : List ℕ}, (∀ i ∈ idxs, i < n ∧ i < xs.length) →
      ∃ ys, readAll l idxs = some ys ∧ ∀ y ∈ ys, y ∈ xs := by
  intro idxs
  induction idxs with
  | nil => exact fun _ => ⟨[], rfl, nofun⟩
  | cons i idxs ih =>
    intro hidx
    obtain ⟨hn, hi⟩ := hidx i List.mem_cons_self
    obtain ⟨ys, heq, hys⟩ := ih fun j hj => hidx j (List.mem_cons_of_mem i hj)
    have hread : l[i]? = some (some xs[i]) := by
      rw [← List.getElem?_take_of_lt hn, h, List.getElem?_map, List.getElem?_eq_getElem hi]
      rfl
    refine ⟨xs[i] :: ys, ?_, ?_⟩
    · rw [readAll, hread, heq]
      rfl
    · intro y hy
      rcases List.mem_cons.mp hy with rfl | hy
      · exact List.getElem_mem hi
      · exact hys y hy

/-- `poll_inputs` on arrays that are not dirty. -/
theorem CacheInv.pollInputs (h : CacheInv s) (hclean : s.pollfdsDirty = false) (ready : List ℕ) :
    ∃ fds received, pollInputs s ready = some (fds, received) ∧
      ∀ ptr ∈ received, ptr ∈ s.present.map RtpChannelState.ptr := by
  have hlen := h.len hclean
  have hindex : s.pollfdsIndex.take s.pollfdsLen =
      (s.present.map RtpChannelState.ptr).map some := by
    rw [h.index hclean, List.map_map]
    rfl
  have hfds : s.pollfds.take s.pollfdsLen = (s.present.map RtpChannelState.fd).map some := by
    rw [h.fds hclean, List.map_map]
    rfl
  obtain ⟨fds, heq, -⟩ := @readAll_eq _ _ _ hfds (List.range s.pollfdsLen) fun i hi => by
    rw [List.length_map, ← hlen]
    exact ⟨List.mem_range.mp hi, List.mem_range.mp hi⟩
  obtain ⟨received, heq', hmem⟩ := @readAll_eq _ _ _ hindex
    ((List.range s.pollfdsLen).filter fun i => i ∈ ready) fun i hi => by
      have := List.mem_range.mp (List.mem_filter.mp hi).1
      rw [List.length_map, ← hlen]
      exact ⟨this, this⟩
  refine ⟨fds, received, ?_, hmem⟩
  rw [RtpServer.pollInputs, heq, heq']
  rfl

end operations

/-! ### Runs of the worker -/

/-- When an event can come: the worker still runs, and a channel to add is not in the
table, as `create_channel` has just allocated it and the table keeps its channels
alive. -/
def WorkerEvent.fits (w : Worker) : WorkerEvent → Bool
  | .command (.addChannel channel) _ =>
    w.shutdownSeen.isSome && channel.ptr ∉ w.self.present.map RtpChannelState.ptr
  | _ => w.shutdownSeen.isSome

theorem WorkerEvent.fits_running {w : Worker} {event : WorkerEvent} (h : event.fits w = true) :
    ∃ seen, w.shutdownSeen = some seen := by
  refine Option.isSome_iff_exists.mp ?_
  unfold WorkerEvent.fits at h
  split at h
  · exact (Bool.and_eq_true_iff.mp h).1
  · exact h

/-- What a step does about `poll_inputs`: it runs on arrays that are not dirty, and
receives for channels of the table. -/
structure PollsPresent (s s' : PyRtpServer) (out : WorkerOut) : Prop where
  clean : s'.pollfdsDirty = false
  same : s'.channels = s.channels
  received : ∀ ptr ∈ out.received, ptr ∈ s.present.map RtpChannelState.ptr

theorem processCommand_spec {s : PyRtpServer} (h : CacheInv s) (addr : Option ℕ) {cmd : RtpServerCmd}
    (hfresh : ∀ channel, cmd = .addChannel channel →
      channel.ptr ∉ s.present.map RtpChannelState.ptr) :
    ∃ s' out, processCommand s addr cmd = some (s', out) ∧ CacheInv s' ∧
      out.polled = [] ∧ out.received = [] := by
  cases cmd with
  | addChannel channel => exact h.addChannel (hfresh channel rfl) addr
  | removeChannel channel => exact ⟨_, _, rfl, h.removeChannel channel, rfl, rfl⟩
  | setTarget channel target =>
    have hquiet : (processSetTarget s channel target).2.polled = [] ∧
        (processSetTarget s channel target).2.received = [] := by
      unfold processSetTarget
      split
      · exact ⟨rfl, rfl⟩
      · exact ⟨rfl, rfl⟩
    exact ⟨_, _, rfl, h.setTarget channel target, hquiet⟩
  | dropChannels => exact ⟨_, _, rfl, CacheInv.dropChannels s, rfl, rfl⟩
  | stopWorker => exact ⟨_, _, rfl, CacheInv.dropChannels s, rfl, rfl⟩

theorem iteration_spec {s : PyRtpServer} (h : CacheInv s) (pfdsAddr indexAddr : Option ℕ)
    (tick : Bool) (ready : List ℕ) :
    ∃ s' out, iteration s pfdsAddr indexAddr tick ready = some (s', out) ∧ CacheInv s' ∧
      (out.polled ≠ [] ∨ out.received ≠ [] → PollsPresent s s' out) := by
  obtain ⟨s', ok, heq, h', hsame, hclean⟩ := h.refresh pfdsAddr indexAddr
  rw [iteration, heq, Option.bind_some]
  by_cases hskip : (!ok) = true ∨ s'.pollfdsLen = 0 ∨ (!tick) = true
  · rw [if_pos hskip]
    exact ⟨s', .quiet, rfl, h', fun hpoll => absurd rfl (hpoll.elim id id)⟩
  · rw [if_neg hskip]
    have hok : ok = true := by
      cases ok with
      | false => exact absurd (.inl rfl) hskip
      | true => rfl
    obtain ⟨fds, received, hpoll, hmem⟩ := h'.pollInputs (hclean hok) ready
    rw [hpoll]
    refine ⟨s', _, rfl, h', fun _ => ⟨hclean hok, hsame, fun ptr hptr => ?_⟩⟩
    have := hmem ptr hptr
    rwa [PyRtpServer.present, hsame] at this

/-- **One step of the worker.** -/
theorem workerStep_spec {w : Worker} (h : CacheInv w.self) {event : WorkerEvent}
    (hfits : event.fits w = true) :
    ∃ w' out, workerStep w event = some (w', out) ∧ CacheInv w'.self ∧
      (out.polled ≠ [] ∨ out.received ≠ [] → PollsPresent w.self w'.self out) := by
  obtain ⟨seen, hseen⟩ := WorkerEvent.fits_running hfits
  cases event with
  | command cmd addr =>
    have hfresh : ∀ channel, cmd = .addChannel channel →
        channel.ptr ∉ w.self.present.map RtpChannelState.ptr := by
      rintro channel rfl
      exact of_decide_eq_true (Bool.and_eq_true_iff.mp hfits).2
    obtain ⟨s', out, heq, h', hpolled, hreceived⟩ := processCommand_spec h addr hfresh
    refine ⟨⟨s', some (seen || cmd = .stopWorker)⟩, out, ?_, h', fun hpoll => ?_⟩
    · rw [workerStep, hseen, heq]
      rfl
    · exact absurd hpoll (not_or.mpr ⟨not_not.mpr hpolled, not_not.mpr hreceived⟩)
  | iteration pfdsAddr indexAddr tick ready =>
    rw [workerStep, hseen, Option.bind_some]
    cases seen with
    | true => exact ⟨_, .quiet, rfl, h, fun hpoll => absurd rfl (hpoll.elim id id)⟩
    | false =>
      obtain ⟨s', out, heq, h', hpoll⟩ := iteration_spec h pfdsAddr indexAddr tick ready
      refine ⟨⟨s', some false⟩, out, ?_, h', hpoll⟩
      rw [heq]
      rfl

theorem cacheInv_of_run {events : List WorkerEvent}
    (hfits : Always workerStep (fun w event => event.fits w = true) workerStart events) :
    ∃ w outs, run workerStep workerStart events = some (w, outs) ∧ CacheInv w.self := by
  refine run_total (fun _ => True) (fun _ _ w => CacheInv w.self) (fun _ => trivial) cacheInv_new ?_
    trivial hfits
  intro events outs w event _ hinv hfit
  obtain ⟨w', out, hstep, hinv', -⟩ := workerStep_spec hinv hfit
  exact ⟨w', out, hstep, hinv'⟩

/-- **Table and arrays.**  In every run the counter is right, no channel is in the
table twice, and arrays that are not dirty list the channels in slot order; every
index written is below `pollfds_cap`, and both arrays are that long.  `poll_inputs`
runs with arrays that are not dirty, and receives for channels of the table only. -/
theorem workerRun_pollCache {events : List WorkerEvent}
    (hfits : Always workerStep (fun w event => event.fits w = true) workerStart events) :
    ∃ w outs, run workerStep workerStart events = some (w, outs) ∧ CacheInv w.self ∧
      ∀ event w' out, event.fits w = true → workerStep w event = some (w', out) →
        (out.polled ≠ [] ∨ out.received ≠ []) → PollsPresent w.self w'.self out := by
  obtain ⟨w, outs, hrun, hinv⟩ := cacheInv_of_run hfits
  refine ⟨w, outs, hrun, hinv, fun event w' out hev hstep => ?_⟩
  obtain ⟨w₁, out₁, hstep₁, -, hpoll⟩ := workerStep_spec hinv hev
  rw [hstep, Option.some.injEq, Prod.mk.injEq] at hstep₁
  obtain ⟨rfl, rfl⟩ := hstep₁
  exact hpoll

/-- The growth of the second array fails, after that of the first; then the arrays are
filled, a channel is removed and another takes its slot. -/
theorem workerRun_pollCache_reused :
    ∃ w outs, run workerStep workerStart
        [.command (.addChannel ⟨100, 3, false, 0⟩) (some 7),
          .command (.addChannel ⟨200, 4, false, 0⟩) none,
          .iteration (some 8) none true [0],
          .iteration (some 8) (some 9) true [1],
          .command (.removeChannel 100) none,
          .command (.setTarget 100 5) none,
          .command (.addChannel ⟨300, 3, false, 0⟩) none,
          .iteration none none true [0]] = some (w, outs) ∧
      outs.map WorkerOut.received = [[], [], [], [200], [], [], [], [300]] ∧
      CacheInv w.self := by
  have h := workerRun_pollCache (by decide : Always workerStep
    (fun w event => event.fits w = true) workerStart
    [.command (.addChannel ⟨100, 3, false, 0⟩) (some 7),
      .command (.addChannel ⟨200, 4, false, 0⟩) none,
      .iteration (some 8) none true [0],
      .iteration (some 8) (some 9) true [1],
      .command (.removeChannel 100) none,
      .command (.setTarget 100 5) none,
      .command (.addChannel ⟨300, 3, false, 0⟩) none,
      .iteration none none true [0]])
  obtain ⟨w, outs, hrun, hinv, -⟩ := h
  refine ⟨w, outs, hrun, ?_, hinv⟩
  have hout := congrArg (Option.map fun p => p.2.map WorkerOut.received) hrun
  exact Option.some.inj (hout.symm.trans (by decide))

end RtpServer
