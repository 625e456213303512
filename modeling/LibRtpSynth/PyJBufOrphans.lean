/-
Frames without their `bytes` object (`python/RtpJBuf_mod.c`).

`PyRtpJBuf_udp_in` looks for a free entry of `refs` after the C buffer has taken
the frame in.  When there is none the call raises, and the frame stays in the
buffer without its object.

* `pyRun_covered` — every held frame has its object in `refs` as long as each
  datagram that the buffer keeps finds a free entry;
* `pyRun_hasRoom` — from two entries on it does, unless an object is passed in
  that the table refers to already;
* `udpIn_orphan` — with one entry a frame loses its object, and a wrapper reads
  its payload all the same.
-/
import LibRtpSynth.PyJBuf

open CWords Runs
open scoped List

namespace Rtp

/-- The entry keeps the object that the pointer leads into. -/
def PyRtpJBufRef.holds (ref : PyRtpJBufRef) (ptr : ℕ) : Bool :=
  match ref.data with
  | some (.bytes b) => ref.ptr = ptr && b.ptr = ptr
  | _ => false

/-- Every frame in the buffer has an entry that keeps its object. -/
def PyRtpJBuf.Covered (self : PyRtpJBuf) : Prop :=
  ∀ p ∈ self.jb.head, ∃ ref ∈ self.refs, ref.holds p.data = true

instance (self : PyRtpJBuf) : Decidable self.Covered := inferInstanceAs (Decidable (∀ p ∈ _, _))

/-- The buffer keeps the datagram of the call. -/
def PyCall.kept (self : PyRtpJBuf) : PyCall → Bool
  | .udpIn input _ =>
    (rtpjbufUdpIn self.jb input.ptr input.bytes).any fun p =>
      p.2.error = 0 &&
        !(listHasDataPtr (rtps p.2.ready) input.ptr || listHasDataPtr p.2.drop input.ptr)
  | .flush => false

/-- The table has a free entry, if the call needs one. -/
def PyCall.hasRoom (self : PyRtpJBuf) (call : PyCall) : Bool :=
  !call.kept self || self.refs.any fun ref => ref.data = none

/-! ### Entries of a pointer -/

/-- The data pointers of entries. -/
def ptrsOf (refs : List PyRtpJBufRef) : List ℕ := refs.map PyRtpJBufRef.ptr

variable {refs : List PyRtpJBufRef} {q ptr inputPtr : ℕ}

/-- Fetching takes one entry of the pointer, if there is one. -/
theorem fetchCachedRef_count (hq : q ≠ 0) (refs : List PyRtpJBufRef) :
    (ptrsOf (fetchCachedRef ptr refs).2).count q = (ptrsOf refs).count q - if q = ptr then 1 else 0 := by
  induction refs with
  | nil => exact (Nat.zero_sub _).symm
  | cons ref refs ih =>
    rw [fetchCachedRef]
    by_cases hptr : ref.ptr = ptr
    · rw [if_pos hptr]
      show (0 :: ptrsOf refs).count q = (ref.ptr :: ptrsOf refs).count q - _
      rw [List.count_cons_of_ne hq.symm]
      by_cases h : q = ptr
      · rw [if_pos h, h, hptr, List.count_cons_self, Nat.add_sub_cancel]
      · rw [if_neg h, List.count_cons_of_ne fun heq => h (heq.symm.trans hptr), Nat.sub_zero]
    · rw [if_neg hptr]
      show (ref.ptr :: ptrsOf _).count q = (ref.ptr :: ptrsOf refs).count q - _
      by_cases h : q = ptr
      · -- this entry is not one of `q`
        have hne : ref.ptr ≠ q := fun heq => hptr (heq.trans h)
        rw [List.count_cons_of_ne hne, List.count_cons_of_ne hne, ih]
      · rw [if_neg h, Nat.sub_zero] at ih ⊢
        rw [List.count_cons, List.count_cons, ih]

theorem fetchCachedRef_mem {ref : PyRtpJBufRef} (h : ref ∈ (fetchCachedRef ptr refs).2) :
    ref = .empty ∨ ref ∈ refs := by
  induction refs with
  | nil => exact .inr h
  | cons x refs ih =>
    rw [fetchCachedRef] at h
    split at h
    · rcases List.mem_cons.mp h with rfl | h
      · exact .inl rfl
      · exact .inr (List.mem_cons_of_mem x h)
    · rcases List.mem_cons.mp h with rfl | h
      · exact .inr List.mem_cons_self
      · exact (ih h).imp_right (List.mem_cons_of_mem x)

/-- The entries that the frames of a list take, those of the datagram just passed
in excepted. -/
def taken (inputPtr : ℕ) (ps : List RtpPacket) (q : ℕ) : ℕ :=
  if q = inputPtr then 0 else (tagsOf ps).count q

theorem taken_cons (p : RtpPacket) (ps : List RtpPacket) :
    taken inputPtr (p :: ps) q =
      taken inputPtr ps q + if p.data ≠ inputPtr ∧ q = p.data then 1 else 0 := by
  rw [taken, taken, show tagsOf (p :: ps) = p.data :: tagsOf ps from rfl]
  by_cases hq : q = inputPtr
  · rw [if_pos hq, if_pos hq, if_neg fun h => h.1 (h.2.symm.trans hq)]
  · rw [if_neg hq, if_neg hq]
    by_cases hp : q = p.data
    · rw [if_pos ⟨fun h => hq (hp.trans h), hp⟩, hp, List.count_cons_self]
    · rw [if_neg fun h => hp h.2, List.count_cons_of_ne (Ne.symm hp), Nat.add_zero]

theorem processReadyList_count {inputBytes inputOpaque : PyObject} (hq : q ≠ 0) :
    ∀ {ready : List RtpFrame} {refs : List PyRtpJBufRef},
      (ptrsOf (processReadyList inputBytes inputOpaque inputPtr refs ready).2).count q =
        (ptrsOf refs).count q - taken inputPtr (rtps ready) q := by
  intro ready
  induction ready with
  | nil =>
    intro refs
    rw [taken]
    simp [processReadyList, rtps, tagsOf]
  | cons frame ready ih =>
    intro refs
    cases frame with
    | ers e => exact ih
    | rtp p =>
      rw [show rtps (.rtp p :: ready) = p :: rtps ready from rfl, taken_cons]
      rw [processReadyList, fetchReadyRef]
      by_cases hp : p.data = inputPtr
      · rw [if_pos hp, ih, if_neg (fun h => h.1 hp)]
        rfl
      · rw [if_neg hp, ih, fetchCachedRef_count hq]
        by_cases hqp : q = p.data
        · rw [if_pos hqp, if_pos ⟨hp, hqp⟩]
          omega
        · rw [if_neg hqp, if_neg (fun h => hqp h.2)]
          rfl

theorem processReadyList_mem {inputBytes inputOpaque : PyObject} {ref : PyRtpJBufRef} :
    ∀ {ready : List RtpFrame} {refs : List PyRtpJBufRef},
      ref ∈ (processReadyList inputBytes inputOpaque inputPtr refs ready).2 →
        ref = .empty ∨ ref ∈ refs := by
  intro ready
  induction ready with
  | nil => exact fun h => .inr h
  | cons frame ready ih =>
    intro refs h
    cases frame with
    | ers e => exact ih h
    | rtp p =>
      rw [processReadyList, fetchReadyRef] at h
      split at h
      · exact ih h
      · rcases ih h with hempty | hmem
        · exact .inl hempty
        · exact fetchCachedRef_mem hmem

/-- What becomes of the table with the drop list. -/
theorem processDropList_spec (hinput : inputPtr ≠ 0) :
    ∀ {drop : List RtpPacket} {self : PyRtpJBuf},
      (self.processDropList inputPtr drop).jb = self.jb ∧
      (∀ q, q ≠ 0 → (ptrsOf (self.processDropList inputPtr drop).refs).count q =
        (ptrsOf self.refs).count q - taken inputPtr drop q) ∧
      ∀ ref ∈ (self.processDropList inputPtr drop).refs, ref = .empty ∨ ref ∈ self.refs := by
  intro drop
  induction drop with
  | nil =>
    intro self
    refine ⟨rfl, fun q _ => ?_, fun ref h => .inr h⟩
    rw [taken]
    simp [PyRtpJBuf.processDropList, tagsOf]
  | cons p drop ih =>
    intro self
    rw [PyRtpJBuf.processDropList]
    obtain ⟨hjb, hcount, hmem⟩ := @ih { self with
      refs :=
        if inputPtr = 0 ∨ p.data ≠ inputPtr then (fetchCachedRef p.data self.refs).2
        else self.refs
      dropped := add64 self.dropped 1 }
    refine ⟨hjb, fun q hq => ?_, fun ref href => ?_⟩
    · rw [hcount q hq, taken_cons]
      dsimp only
      by_cases hp : p.data = inputPtr
      · rw [if_neg (fun h => h.elim hinput fun hne => hne hp), if_neg (fun h => h.1 hp)]
        rfl
      · rw [if_pos (.inr hp), fetchCachedRef_count hq]
        by_cases hqp : q = p.data
        · rw [if_pos hqp, if_pos ⟨hp, hqp⟩]
          omega
        · rw [if_neg hqp, if_neg (fun h => hqp h.2)]
          rfl
    · rcases hmem ref href with hempty | href
      · exact .inl hempty
      · dsimp only at href
        split at href
        · exact fetchCachedRef_mem href
        · exact .inr href

/-! ### Calls keep the table large enough -/

/-- There are at least as many entries for a data pointer as frames. -/
structure CoverInv (st : PyRtpJBuf) : Prop where
  entry : ∀ ref ∈ st.refs, ref = .empty ∨ ref.holds ref.ptr = true
  nonnull : ∀ t ∈ tagsOf st.jb.head, t ≠ 0
  count : ∀ q, q ≠ 0 → (tagsOf st.jb.head).count q ≤ (ptrsOf st.refs).count q

variable {st st' : PyRtpJBuf} {res : PyResult} {input : PyBytes} {inputOpaque : PyObject}

theorem CoverInv.covered (h : CoverInv st) : st.Covered := by
  intro p hp
  have hmem : p.data ∈ tagsOf st.jb.head := List.mem_map_of_mem hp
  have hne := h.nonnull p.data hmem
  have hpos := (List.count_pos_iff.mpr hmem).trans_le (h.count p.data hne)
  obtain ⟨ref, href, hptr⟩ := List.mem_map.mp (List.count_pos_iff.mp hpos)
  refine ⟨ref, href, ?_⟩
  rcases h.entry ref href with rfl | hholds
  · exact absurd hptr.symm hne
  · rwa [hptr] at hholds

theorem ptr_ne_zero (b : PyBytes) : b.ptr ≠ 0 := by
  unfold PyBytes.ptr
  omega

/-- Where the frames of a data pointer go in a call. -/
theorem tags_count {s s' : RtpjbufInst} {call : JBufCall} {r : RjbUdpInR}
    (hs : jbufStep s call = some (s', r)) (q : ℕ) :
    (tagsOf (rtps r.ready)).count q + ((tagsOf r.drop).count q + (tagsOf s'.head).count q) =
      (tagsOf s.head).count q + (tagsOf (newPacket s call)).count q := by
  have h := (tags_perm hs).count_eq q
  rwa [List.count_append, List.count_append, List.count_append] at h

theorem nonnull_step {s s' : RtpjbufInst} {call : JBufCall} {r : RjbUdpInR}
    (hs : jbufStep s call = some (s', r)) (h : ∀ t ∈ tagsOf s.head, t ≠ 0)
    (hnew : ∀ t ∈ tagsOf (newPacket s call), t ≠ 0) : ∀ t ∈ tagsOf s'.head, t ≠ 0 := by
  intro t ht
  have hmem := (tags_perm hs).mem_iff.mp (List.mem_append_right _ (List.mem_append_right _ ht))
  exact (List.mem_append.mp hmem).elim (h t) (hnew t)

/-- The tags of a datagram just passed in. -/
theorem tagsOf_newPacket (s : RtpjbufInst) (data : ℕ) (buf : List UInt8) :
    tagsOf (newPacket s (.udpIn data buf)) = if (parsed buf).isSome then [data] else [] := by
  rw [newPacket]
  cases parsed buf <;> rfl

theorem listHasDataPtr_iff {ps : List RtpPacket} : listHasDataPtr ps ptr = true ↔ ptr ∈ tagsOf ps := by
  rw [listHasDataPtr, List.any_eq_true, tagsOf, List.mem_map]
  simp only [decide_eq_true_eq]

/-- The entry of a datagram that is stored. -/
theorem storeDataRef_spec {inputBytes : PyObject} {refs' : List PyRtpJBufRef}
    (hentry : ∀ ref ∈ refs, ref = .empty ∨ ref.holds ref.ptr = true) (hq : q ≠ 0)
    (h : storeDataRef inputBytes inputOpaque ptr refs = some refs') :
    (ptrsOf refs').count q = (ptrsOf refs).count q + (if q = ptr then 1 else 0) ∧
      ∀ ref ∈ refs', ref = ⟨some inputBytes, some inputOpaque, ptr⟩ ∨ ref ∈ refs := by
  induction refs generalizing refs' with
  | nil => cases h
  | cons x refs ih =>
    rw [List.forall_mem_cons] at hentry
    rw [storeDataRef] at h
    split at h
    · rename_i hnone
      obtain rfl := Option.some.inj h
      -- the entry that is overwritten has no pointer
      have hx : x.ptr = 0 := by
        rcases hentry.1 with rfl | hholds
        · rfl
        · rw [PyRtpJBufRef.holds, hnone] at hholds
          cases hholds
      constructor
      · show (ptr :: ptrsOf refs).count q = (x.ptr :: ptrsOf refs).count q + _
        rw [hx, List.count_cons_of_ne hq.symm, List.count_cons]
        by_cases hqp : q = ptr
        · rw [if_pos hqp, if_pos (beq_iff_eq.mpr hqp.symm)]
        · rw [if_neg hqp, if_neg fun heq => hqp (beq_iff_eq.mp heq).symm]
      · intro ref href
        exact (List.mem_cons.mp href).imp_right (List.mem_cons_of_mem x)
    · obtain ⟨rest, hrest, rfl⟩ := Option.map_eq_some_iff.mp h
      obtain ⟨hcount, hmem⟩ := ih hentry.2 hrest
      constructor
      · show (x.ptr :: ptrsOf rest).count q = (x.ptr :: ptrsOf refs).count q + _
        rw [List.count_cons, List.count_cons, hcount]
        omega
      · intro ref href
        rcases List.mem_cons.mp href with rfl | href
        · exact .inr List.mem_cons_self
        · exact (hmem ref href).imp_right (List.mem_cons_of_mem x)

theorem storeDataRef_none_iff {inputBytes : PyObject} :
    storeDataRef inputBytes inputOpaque ptr refs = none ↔ (refs.any fun ref => ref.data = none) = false := by
  induction refs with
  | nil => exact iff_of_true rfl rfl
  | cons x refs ih =>
    rw [storeDataRef, List.any_cons]
    split
    · rename_i hnone
      rw [decide_eq_true hnone]
      exact iff_of_false (Option.some_ne_none _) Bool.noConfusion
    · rename_i hsome
      rw [Option.map_eq_none_iff, ih, decide_eq_false hsome, Bool.false_or]

/-- A table that holds an entry for every frame of the C buffer, with the two
lists gone through. -/
theorem CoverInv.of_lists {s' : RtpjbufInst} {r : RjbUdpInR} {call : JBufCall} (h : CoverInv st)
    (hs : jbufStep st.jb call = some (s', r)) (hnew : ∀ t ∈ tagsOf (newPacket st.jb call), t ≠ 0)
    (hjb : st'.jb = s')
    (hentry : ∀ ref ∈ st'.refs, ref = .empty ∨ ref.holds ref.ptr = true)
    (hcount : ∀ q, q ≠ 0 → (ptrsOf st.refs).count q + (tagsOf (newPacket st.jb call)).count q ≤
      (ptrsOf st'.refs).count q + ((tagsOf (rtps r.ready)).count q + (tagsOf r.drop).count q)) :
    CoverInv st' where
  entry := hentry
  nonnull := hjb ▸ nonnull_step hs h.nonnull hnew
  count q hq := by
    have hpq := hcount q hq
    have htags := tags_count hs q
    have hle := h.count q hq
    rw [hjb]
    omega

theorem CoverInv.flush (h : CoverInv st) (hs : pyStep st .flush = some (st', res)) : CoverInv st' := by
  obtain ⟨⟨s', r⟩, hflush, heq⟩ := Option.map_eq_some_iff.mp hs
  obtain ⟨rfl, -⟩ := Prod.mk.inj heq
  obtain ⟨hjb, hcount, hmem⟩ := @processDropList_spec noInputPtr (by decide) r.drop
    { st with jb := s', refs := (processReadyList .pyNone .pyNone noInputPtr st.refs r.ready).2 }
  refine h.of_lists (show jbufStep st.jb .flush = some (s', r) from hflush) (fun t ht => by cases ht) hjb
    (fun ref href => ?_) (fun q hq => ?_)
  · rcases hmem ref href with hempty | href
    · exact .inl hempty
    · rcases processReadyList_mem href with hempty | href
      · exact .inl hempty
      · exact h.entry ref href
  · rw [hcount q hq, processReadyList_count hq, taken, taken]
    show _ + 0 ≤ _
    split <;> omega

/-- The datagram is not among those handed out by its own call. -/
def retained (input : PyBytes) (r : RjbUdpInR) : Bool :=
  !(listHasDataPtr (rtps r.ready) input.ptr || listHasDataPtr r.drop input.ptr)

theorem retained_iff {r : RjbUdpInR} :
    retained input r = true ↔ input.ptr ∉ tagsOf (rtps r.ready) ∧ input.ptr ∉ tagsOf r.drop := by
  rw [retained, Bool.not_eq_true', ← Bool.not_eq_true, Bool.or_eq_true, listHasDataPtr_iff,
    listHasDataPtr_iff, not_or]

theorem kept_eq {s' : RtpjbufInst} {r : RjbUdpInR}
    (hs : rtpjbufUdpIn st.jb input.ptr input.bytes = some (s', r)) (herror : r.error = 0) :
    (PyCall.udpIn input inputOpaque).kept st = retained input r := by
  rw [PyCall.kept, hs, Option.any_some, herror, retained]
  rfl

/-- The table after the entry of an accepted datagram is stored. -/
theorem CoverInv.stored {r : RjbUdpInR} (h : CoverInv st)
    (hroom : retained input r = true → (st.refs.any fun ref => ref.data = none) = true) :
    ∃ refs₁, (if retained input r then storeDataRef (.bytes input) inputOpaque input.ptr st.refs
        else some st.refs) = some refs₁ ∧
      (∀ ref ∈ refs₁, ref = .empty ∨ ref.holds ref.ptr = true) ∧
      ∀ q, q ≠ 0 → (ptrsOf refs₁).count q =
        (ptrsOf st.refs).count q + if retained input r = true ∧ q = input.ptr then 1 else 0 := by
  by_cases hret : retained input r = true
  · obtain ⟨refs₁, hstore⟩ : ∃ refs₁,
        storeDataRef (.bytes input) inputOpaque input.ptr st.refs = some refs₁ := by
      refine Option.ne_none_iff_exists'.mp fun hnone => ?_
      rw [storeDataRef_none_iff, hroom hret] at hnone
      cases hnone
    refine ⟨refs₁, by rw [if_pos hret, hstore], fun ref href => ?_, fun q hq => ?_⟩
    · rcases (storeDataRef_spec h.entry one_ne_zero hstore).2 ref href with rfl | href
      · exact .inr (by simp [PyRtpJBufRef.holds])
      · exact h.entry ref href
    · rw [(storeDataRef_spec h.entry hq hstore).1]
      simp only [hret, true_and]
  · refine ⟨st.refs, if_neg hret, h.entry, fun q _ => ?_⟩
    rw [if_neg fun hboth => hret hboth.1, Nat.add_zero]

theorem CoverInv.udpIn (h : CoverInv st) (hroom : (PyCall.udpIn input inputOpaque).hasRoom st = true)
    (hs : pyStep st (.udpIn input inputOpaque) = some (st', res)) : CoverInv st' := by
  obtain ⟨⟨s', r⟩, hin, heq⟩ := Option.map_eq_some_iff.mp hs
  have hstep : jbufStep st.jb (.udpIn input.ptr input.bytes) = some (s', r) := hin
  have htags := tagsOf_newPacket st.jb input.ptr input.bytes
  have hnew : ∀ t ∈ tagsOf (newPacket st.jb (.udpIn input.ptr input.bytes)), t ≠ 0 := by
    intro t ht
    rw [htags] at ht
    split at ht
    · rw [List.mem_singleton.mp ht]
      exact ptr_ne_zero input
    · cases ht
  dsimp only at heq
  rcases jbufStep_error hstep with ⟨hnone, herror, hready⟩ | ⟨hsome, herror⟩
  · -- the parser has rejected it, and the tail may have been purged
    rw [PyRtpJBuf.udpInDone, if_pos herror.ne] at heq
    obtain ⟨rfl, -⟩ := Prod.mk.inj heq
    obtain ⟨hjb, hcount, hmem⟩ := @processDropList_spec input.ptr (ptr_ne_zero input) r.drop
      { st with jb := s' }
    refine h.of_lists hstep hnew hjb (fun ref href => ?_) (fun q hq => ?_)
    · exact (hmem ref href).elim .inl (h.entry ref)
    · rw [hcount q hq, htags, hnone, taken]
      show (ptrsOf st.refs).count q + 0 ≤ (ptrsOf st.refs).count q - _ + _
      split <;> omega
  · obtain ⟨refs₁, hstore, hentry₁, hcount₁⟩ := @CoverInv.stored st input inputOpaque r h fun hret => by
      rw [PyCall.hasRoom, kept_eq hin herror, hret] at hroom
      exact hroom
    rw [PyRtpJBuf.udpInDone, if_neg (not_not.mpr herror)] at heq
    dsimp only at heq
    rw [← retained, hstore] at heq
    obtain ⟨rfl, -⟩ := Prod.mk.inj heq
    obtain ⟨hjb, hcount, hmem⟩ := @processDropList_spec input.ptr (ptr_ne_zero input) r.drop
      { st with
        jb := s'
        refs := (processReadyList (.bytes input) inputOpaque input.ptr refs₁ r.ready).2 }
    refine h.of_lists hstep hnew hjb (fun ref href => ?_) (fun q hq => ?_)
    · rcases hmem ref href with hempty | href
      · exact .inl hempty
      · exact (processReadyList_mem href).elim .inl (hentry₁ ref)
    · rw [hcount q hq, processReadyList_count hq, hcount₁ q hq, htags, if_pos hsome, taken, taken]
      by_cases hptr : q = input.ptr
      · rw [if_pos hptr, if_pos hptr, hptr, List.count_singleton_self]
        by_cases hret : retained input r = true
        · rw [if_pos ⟨hret, rfl⟩]
          omega
        · -- it is handed out at once, and needs no entry
          have hout : 0 < (tagsOf (rtps r.ready)).count input.ptr + (tagsOf r.drop).count input.ptr := by
            rw [retained_iff, not_and_or, not_not, not_not] at hret
            rcases hret with hmem | hmem
            · exact Nat.add_pos_left (List.count_pos_iff.mpr hmem) _
            · exact Nat.add_pos_right _ (List.count_pos_iff.mpr hmem)
          rw [if_neg fun hboth => hret hboth.1]
          omega
      · rw [if_neg hptr, if_neg hptr, if_neg fun hboth => hptr hboth.2,
          List.count_eq_zero.mpr fun hmem => hptr (List.mem_singleton.mp hmem)]
        omega

theorem CoverInv.step {call : PyCall} (h : CoverInv st) (hroom : call.hasRoom st = true)
    (hs : pyStep st call = some (st', res)) : CoverInv st' := by
  cases call with
  | udpIn input inputOpaque => exact h.udpIn hroom hs
  | flush => exact h.flush hs

theorem coverInv_init (capacity : ℕ) : CoverInv (pyRtpJBufInit capacity) where
  entry ref href := .inl (List.eq_of_mem_replicate href)
  nonnull t ht := by cases ht
  count q _ := Nat.zero_le _

/-- A datagram that finds no entry stays behind without its object. -/
theorem orphan_of_full (hnew : (PyCall.udpIn input inputOpaque).notRetained st = true)
    (hroom : ¬ (PyCall.udpIn input inputOpaque).hasRoom st = true)
    (hs : pyStep st (.udpIn input inputOpaque) = some (st', res)) :
    res = .exhausted ∧ ¬ st'.Covered := by
  obtain ⟨⟨s', r⟩, hin, heq⟩ := Option.map_eq_some_iff.mp hs
  have hstep : jbufStep st.jb (.udpIn input.ptr input.bytes) = some (s', r) := hin
  rw [PyCall.hasRoom, Bool.or_eq_true, not_or, Bool.not_eq_true', Bool.not_eq_false,
    Bool.not_eq_true] at hroom
  obtain ⟨hkept, hfull⟩ := hroom
  have herror : r.error = 0 := by
    rw [PyCall.kept, hin, Option.any_some, Bool.and_eq_true] at hkept
    exact of_decide_eq_true hkept.1
  rw [kept_eq hin herror] at hkept
  dsimp only at heq
  rw [PyRtpJBuf.udpInDone, if_neg (not_not.mpr herror)] at heq
  dsimp only at heq
  rw [← retained, if_pos hkept, storeDataRef_none_iff.mpr hfull] at heq
  obtain ⟨rfl, rfl⟩ := Prod.mk.inj heq
  refine ⟨rfl, fun hcov => ?_⟩
  -- the frame is in the buffer
  obtain ⟨hready, hdrop⟩ := retained_iff.mp hkept
  have hsome : (parsed input.bytes).isSome := by
    rcases jbufStep_error hstep with ⟨-, hneg, -⟩ | ⟨hsome, -⟩
    · exact absurd herror hneg.ne
    · exact hsome
  have hheld : input.ptr ∈ tagsOf s'.head := by
    have hmem := (tags_perm hstep).mem_iff.mpr (List.mem_append_right _
      (by rw [tagsOf_newPacket, if_pos hsome]; exact List.mem_singleton_self input.ptr))
    rcases List.mem_append.mp hmem with hmem | hmem
    · exact absurd hmem hready
    · exact (List.mem_append.mp hmem).resolve_left hdrop
  -- no entry has its pointer, before or after the two lists
  obtain ⟨p, hp, hptr⟩ := List.mem_map.mp hheld
  obtain ⟨hjb₁, -, hmem₁⟩ := @processDropList_spec input.ptr (ptr_ne_zero input) (rtps r.ready)
    { st with jb := s' }
  obtain ⟨hjb₂, -, hmem₂⟩ := @processDropList_spec input.ptr (ptr_ne_zero input) r.drop
    (({ st with jb := s' } : PyRtpJBuf).processDropList input.ptr (rtps r.ready))
  obtain ⟨ref, href, hholds⟩ := hcov p (by rw [hjb₂, hjb₁]; exact hp)
  have hempty : ¬ PyRtpJBufRef.empty.holds p.data = true := Bool.false_ne_true
  have hold : ref ∈ st.refs := by
    rcases hmem₂ ref href with rfl | href
    · exact absurd hholds hempty
    · rcases hmem₁ ref href with rfl | href
      · exact absurd hholds hempty
      · exact href
  have hfresh := List.all_eq_true.mp hnew ref hold
  rw [PyRtpJBufRef.holds, hptr] at hholds
  split at hholds
  · rename_i b hdata
    rw [Bool.and_eq_true, decide_eq_true_eq, decide_eq_true_eq] at hholds
    have haddr : b.addr = input.addr := by
      have hsame := hholds.2
      unfold PyBytes.ptr at hsame
      omega
    rw [hdata, Option.any_some, PyObject.isBytesAt, haddr, decide_eq_true rfl] at hfresh
    cases hfresh
  · cases hholds

/-- **Frames and their objects.**  As long as every datagram that the buffer keeps
finds a free entry, every held frame has its object in the table, whatever the
calls raise.  The next call keeps it so exactly when it finds one too, if the
object is not in the table already; else it raises. -/
theorem pyRun_covered {capacity : ℕ} {calls : List PyCall} {results : List PyResult}
    (hroom : Always pyStep (fun st call => call.hasRoom st = true) (pyRtpJBufInit capacity) calls)
    (h : run pyStep (pyRtpJBufInit capacity) calls = some (st, results)) :
    st.Covered ∧
    ∀ (input : PyBytes) (inputOpaque : PyObject) (st' : PyRtpJBuf) (res : PyResult),
      (PyCall.udpIn input inputOpaque).notRetained st = true →
      pyStep st (.udpIn input inputOpaque) = some (st', res) →
      (st'.Covered ↔ (PyCall.udpIn input inputOpaque).hasRoom st = true) := by
  have hinv : CoverInv st :=
    run_induction (fun _ _ st => CoverInv st) (coverInv_init capacity)
      (fun hinv hcall hs => hinv.step hcall hs) hroom h
  refine ⟨hinv.covered, fun input inputOpaque st' res hnew hs => ⟨fun hcov => ?_, fun hcall => ?_⟩⟩
  · by_contra hfull
    exact (orphan_of_full hnew hfull hs).2 hcov
  · exact (hinv.udpIn hcall hs).covered

/-- A datagram that waits for an earlier one, in the only entry. -/
theorem pyRun_covered_waiting :
    ∃ st results, run pyStep (pyRtpJBufInit 1) [.udpIn ⟨1000, datagram 5⟩ .pyNone] = some (st, results) ∧
      st.jb.head ≠ [] ∧ st.Covered ∧ ∀ st' res,
        pyStep st (.udpIn ⟨2000, []⟩ .pyNone) = some (st', res) → st'.Covered := by
  have hrun : (run pyStep (pyRtpJBufInit 1) [.udpIn ⟨1000, datagram 5⟩ .pyNone]).isSome := by decide
  obtain ⟨hcov, hnext⟩ := pyRun_covered (by decide) (Option.some_get hrun).symm
  refine ⟨_, _, (Option.some_get hrun).symm, by decide, hcov, fun st' res hs => ?_⟩
  exact (hnext _ _ st' res (by decide) hs).mpr (by decide)

/-- With one entry, the frame that is purged still has it when the reference to the
new datagram is stored.  The wrapper made by a later flush carries no object, and
reads its payload through a pointer into one that is gone. -/
theorem udpIn_orphan :
    (run pyStep (pyRtpJBufInit 1)
      [.udpIn ⟨1000, datagram 5⟩ .pyNone, .udpIn ⟨2000, datagram 7 ++ [9]⟩ .pyNone]).map
        (fun p => (p.2, decide p.1.Covered)) = some ([.ready [], .exhausted], false) ∧
    (run pyStep (pyRtpJBufInit 1)
      [.udpIn ⟨1000, datagram 5⟩ .pyNone, .udpIn ⟨2000, datagram 7 ++ [9]⟩ .pyNone, .flush]).map
        (fun p => p.2.getLast?) =
      some (some (.ready
        [.ers { lseqStart := 0, lseqEnd := 6, tsDiff := 0 },
          .rtp
            { info :=
                { dataSize := 1, dataOffset := 12, nsamples := 1, ts := 0, seq := 7, ssrc := 1
                  appendable := 1, rtpProfile := some 0 }
              lseq := 7, jbcnt := 0, data := 2032 }
            (some .pyNone) (some .pyNone) none])) := by
  exact ⟨by decide, by decide +kernel⟩

/-- From two entries on there is always one for a datagram that is kept. -/
theorem Tracks.hasRoom {s : RtpjbufInst} {obj : ℕ → PyBytes × PyObject} {capacity : ℕ}
    (h : Tracks obj capacity s st) (htwo : 2 ≤ capacity) (call : PyCall) : call.hasRoom st = true := by
  rw [PyCall.hasRoom, Bool.or_eq_true]
  refine .inr ?_
  by_contra hfull
  rw [List.any_eq_true] at hfull
  have hall : st.refs.filter (fun ref => ref.data.isSome) = st.refs := by
    refine List.filter_eq_self.mpr fun ref href => ?_
    rw [Option.isSome_iff_ne_none]
    exact fun hnone => hfull ⟨ref, href, decide_eq_true hnone⟩
  have hlen := h.refs.used.length_eq
  have hbound := h.size.bound
  rw [h.capacity_eq, effCapacity, if_neg (by omega)] at hbound
  rw [hall, h.length, List.length_map, tagsOf, List.length_map] at hlen
  omega

theorem pyRun_hasRoom {capacity : ℕ} (htwo : 2 ≤ capacity) (hcap : capacity < 2 ^ 32)
    {calls : List PyCall}
    (hnew : Always pyStep (fun st call => call.notRetained st = true) (pyRtpJBufInit capacity) calls) :
    Always pyStep (fun st call => call.hasRoom st = true) (pyRtpJBufInit capacity) calls := by
  rw [always_iff]
  rintro earlier call later rfl st results hrun
  rw [always_iff] at hnew
  have hearlier : Always pyStep (fun st call => call.notRetained st = true) (pyRtpJBufInit capacity)
      earlier := by
    rw [always_iff]
    rintro earlier' call' later' rfl u os hu
    exact hnew earlier' call' (later' ++ call :: later) (by simp) u os hu
  obtain ⟨s, outs, -, htracks, -⟩ := tracks_of_run htwo hcap hearlier hrun
  exact htracks.hasRoom htwo call

end Rtp
