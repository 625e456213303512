/-
The representation invariant of the jitter buffer, and when no assertion
fires.

`JInv` relates the frame list to the three numbers kept beside it: the last
delivered one (`last_lseq`), the largest one (`last_max_lseq`) and the epoch
(`lseq_mask`).  It is kept by every call that does not abort
(`JInv.step`), as long as no packet gets the all-ones number that the code
uses for "none".  `HeadGap`, which the assertions rely on, is a part of it
for capacities from 3 on; for capacities 1 and 2 the purge of the only held
frame can forget `last_max_lseq`, and a call that then brings an old number
breaks it.

* `jbufRun_no_abort` — a run aborts only after a call that assigns the
  all-ones number or that brings an old number into a buffer whose
  `last_max_lseq` was forgotten; `jbufRun_aborts` is such a run;
* `jbufRun_repInv` — the invariant and the absence of aborts for capacities
  from 3 on and fewer than `2 ^ 47` calls.
-/
import LibRtpSynth.JBufConservation

open CWords Runs

namespace Rtp

variable {s s' : RtpjbufInst} {r : RjbUdpInR} {fp : RtpPacket} {drop : List RtpPacket}

/-- The logical sequence numbers of the held frames. -/
def lseqs (s : RtpjbufInst) : List ℕ := s.head.map RtpPacket.lseq

/-- The only held frame has a number that is not new.  This happens for the
capacities 1 and 2 only. -/
def Stuck (s : RtpjbufInst) : Prop :=
  ∃ n, lseqs s = [n] ∧ n ≤ s.lastLseq ∧ (s.capacity = 1 ∨ s.capacity = 2)

/-- The first held frame does not follow the last delivered one. -/
def HeadGap (s : RtpjbufInst) : Prop :=
  s.lastLseq ≠ lrsDefault → ∀ n ∈ (lseqs s).head?, s.lastLseq + 2 ≤ n

/-- The representation invariant, for every capacity. -/
structure JInv (s : RtpjbufInst) : Prop where
  size : SizeInv s
  mask_mod : s.lseqMask % 65536 = 0
  mask_lt : s.lseqMask < 2 ^ 64
  asc : (lseqs s).Pairwise (· < ·)
  lt : ∀ n ∈ lseqs s, n < lmsDefault
  last_le : s.lastLseq ≤ lrsDefault
  tail : ∀ n ∈ (lseqs s).getLast?, s.lastMaxLseq = n
  empty : lseqs s = [] →
    s.lastMaxLseq = s.lastLseq ∨
      (s.lastMaxLseq = lmsDefault ∧ (s.capacity = 1 ∨ s.capacity = 2))
  gap : HeadGap s ∨ Stuck s

theorem lseqs_eq_nil : lseqs s = [] ↔ s.head = [] := List.map_eq_nil_iff

theorem lseqs_length (s : RtpjbufInst) : (lseqs s).length = s.head.length := List.length_map _

/-- An empty buffer has no first frame. -/
theorem HeadGap.of_nil (h : s.head = []) : HeadGap s := by
  intro _ n hn
  rw [lseqs_eq_nil.mpr h] at hn
  cases hn

theorem jInv_ctor {capacity : ℕ} (h : capacity < 2 ^ 32) : JInv (rtpjbufCtor capacity) where
  size := sizeInv_ctor h
  mask_mod := rfl
  mask_lt := by simp [rtpjbufCtor]
  asc := List.Pairwise.nil
  lt := by simp [lseqs, rtpjbufCtor]
  last_le := le_refl _
  tail := by simp [lseqs, rtpjbufCtor]
  empty := fun _ => .inl rfl
  gap := .inl fun h => absurd rfl h

/-- `last_max_lseq` is unset only while nothing is held. -/
theorem JInv.head_nil_of_max (h : JInv s) (hmax : s.lastMaxLseq = lmsDefault) : s.head = [] := by
  by_contra hne
  have hlast : (lseqs s).getLast? ≠ none := by
    rw [Ne, List.getLast?_eq_none_iff, lseqs_eq_nil]
    exact hne
  obtain ⟨n, hn⟩ := Option.ne_none_iff_exists'.mp hlast
  have h1 := h.tail n hn
  have h2 := h.lt n (List.mem_of_getLast? hn)
  omega

/-- From capacity 3 on nothing gets stuck. -/
theorem JInv.headGap (h : JInv s) (h3 : 3 ≤ s.capacity) : HeadGap s := by
  refine h.gap.resolve_right ?_
  rintro ⟨n, -, -, hcap⟩
  omega

/-- No held frame follows the last delivered one: the first does not, and the
others come behind it. -/
theorem JInv.last_add_two_le (h : JInv s) (hgap : HeadGap s) (hlast : s.lastLseq ≠ lrsDefault) :
    ∀ n ∈ lseqs s, s.lastLseq + 2 ≤ n := by
  intro n hn
  have hasc := h.asc
  have hfirst := hgap hlast
  cases hls : lseqs s with
  | nil => rw [hls] at hn; cases hn
  | cons m ms =>
    rw [hls] at hn hasc hfirst
    have hm := hfirst m rfl
    rcases List.mem_cons.mp hn with rfl | hn
    · exact hm
    · have := (List.pairwise_cons.mp hasc).1 n hn
      omega

/-! ### The stale tail -/

/-- What the purge does to the numbers. -/
theorem purgeStaleTail_lseqs (h : JInv s) :
    (lseqs (purgeStaleTail s).2 = lseqs s ∧
      (purgeStaleTail s).2.lastMaxLseq = s.lastMaxLseq ∧ (purgeStaleTail s).1 = none) ∨
    ∃ (p : RtpPacket) (ls : List ℕ), (purgeStaleTail s).1 = some p ∧
      lseqs s = ls ++ [p.lseq] ∧ lseqs (purgeStaleTail s).2 = ls ∧
      (purgeStaleTail s).2.lastMaxLseq = ls.getLast?.getD lmsDefault ∧
      sub32 s.capacity 1 ≤ s.head.length := by
  rcases purgeStaleTail_cases s with ⟨heq, -⟩ | ⟨prev, tail, hhead, hsize, ⟨-, heq⟩ | ⟨-, heq⟩⟩
  · exact .inl (by rw [heq]; exact ⟨rfl, rfl, rfl⟩)
  · rw [heq]
    exact .inl ⟨by simp [lseqs, hhead, RtpPacket.aged], rfl, rfl⟩
  · have hmax : s.lastMaxLseq = tail.lseq := h.tail _ (by simp [lseqs, hhead])
    refine .inr ⟨tail.aged, prev.map RtpPacket.lseq, ?_⟩
    rw [heq]
    refine ⟨rfl, ?_, rfl, ?_, by rw [← h.size.size]; exact hsize⟩
    · simp [lseqs, hhead, RtpPacket.aged]
    · show (if s.lastMaxLseq = tail.lseq then (prev.getLast?).elim lmsDefault RtpPacket.lseq
        else s.lastMaxLseq) = _
      rw [if_pos hmax, List.getLast?_map]
      cases prev.getLast? <;> rfl

theorem JInv.purge (h : JInv s) : JInv (purgeStaleTail s).2 := by
  have hsize := h.size.purge.1
  rcases purgeStaleTail_lseqs h with ⟨hls, hmax, -⟩ | ⟨p, ls, -, hls, hls', hmax, hlen⟩
  · refine ⟨hsize, ?_, ?_, ?_, ?_, ?_, ?_, ?_, ?_⟩
    · rw [purgeStaleTail_lseqMask]; exact h.mask_mod
    · rw [purgeStaleTail_lseqMask]; exact h.mask_lt
    · rw [hls]; exact h.asc
    · rw [hls]; exact h.lt
    · rw [purgeStaleTail_lastLseq]; exact h.last_le
    · rw [hls, hmax]; exact h.tail
    · rw [hls, hmax, purgeStaleTail_lastLseq, purgeStaleTail_capacity]; exact h.empty
    · rw [HeadGap, Stuck, hls, purgeStaleTail_lastLseq, purgeStaleTail_capacity]; exact h.gap
  · have hsub : ls.Sublist (lseqs s) := by rw [hls]; exact List.sublist_append_left _ _
    refine ⟨hsize, ?_, ?_, ?_, ?_, ?_, ?_, ?_, ?_⟩
    · rw [purgeStaleTail_lseqMask]; exact h.mask_mod
    · rw [purgeStaleTail_lseqMask]; exact h.mask_lt
    · rw [hls']; exact h.asc.sublist hsub
    · rw [hls']; exact fun n hn => h.lt n (hsub.subset hn)
    · rw [purgeStaleTail_lastLseq]; exact h.last_le
    · rw [hls', hmax]
      intro n hn
      rw [Option.mem_def.mp hn]; rfl
    · -- only a buffer of capacity 1 or 2 gets empty this way
      rw [hls', hmax, purgeStaleTail_capacity]
      intro hnil
      refine .inr ⟨by rw [hnil]; rfl, ?_⟩
      have hone : s.head.length = 1 := by rw [← lseqs_length, hls, hnil]; rfl
      have hcap := h.size.capacity_lt
      rw [hone] at hlen
      unfold sub32 at hlen
      omega
    · rw [HeadGap, hls', purgeStaleTail_lastLseq]
      refine .inl fun hlast n hn => ?_
      rcases h.gap with hgap | ⟨m, hm, -⟩
      · refine hgap hlast n ?_
        rw [hls, List.head?_append, Option.mem_def.mp hn]; rfl
      · -- the stuck frame was the only one
        have hnil : ls = [] := by
          have := congrArg List.length (hls.symm.trans hm)
          rw [List.length_append] at this
          exact List.length_eq_zero_iff.mp (by simpa using this)
        rw [hnil] at hn
        cases hn

theorem HeadGap.purge (h : JInv s) (hgap : HeadGap s) : HeadGap (purgeStaleTail s).2 := by
  rcases purgeStaleTail_lseqs h with ⟨hls, -, -⟩ | ⟨p, ls, -, hls, hls', -, -⟩
  · rw [HeadGap, hls, purgeStaleTail_lastLseq]; exact hgap
  · rw [HeadGap, hls', purgeStaleTail_lastLseq]
    intro hlast n hn
    refine hgap hlast n ?_
    rw [hls, List.head?_append, Option.mem_def.mp hn]; rfl

/-! ### The conversion -/

/-- The guard of the pre-wrap adjustment. -/
def PreWrap (s : RtpjbufInst) (seq : UInt16) : Prop :=
  s.lastMaxLseq % 65536 < 536 ∧ seq.toNat > 65000

/-- The guard of the wrap. -/
def WrapUp (s : RtpjbufInst) (seq : UInt16) : Prop :=
  s.lastMaxLseq > 65000 ∧ s.lseqMask ||| seq.toNat < sub64 s.lastMaxLseq 65000

instance (s : RtpjbufInst) (seq : UInt16) : Decidable (PreWrap s seq) :=
  inferInstanceAs (Decidable (s.lastMaxLseq % 65536 < 536 ∧ seq.toNat > 65000))

instance (s : RtpjbufInst) (seq : UInt16) : Decidable (WrapUp s seq) :=
  inferInstanceAs (Decidable (s.lastMaxLseq > 65000 ∧
    s.lseqMask ||| seq.toNat < sub64 s.lastMaxLseq 65000))

/-- The three ways a number is assigned. -/
theorem assign_cases (hmod : s.lseqMask % 65536 = 0) (seq : UInt16) :
    (s.lastMaxLseq ≠ lmsDefault ∧ PreWrap s seq ∧
      assign s seq = (s, sub64 (s.lseqMask + seq.toNat) 65536)) ∨
    (s.lastMaxLseq ≠ lmsDefault ∧ ¬ PreWrap s seq ∧ WrapUp s seq ∧
      assign s seq =
        ({ s with lseqMask := add64 s.lseqMask 65536, seqWup := add64 s.seqWup 1 },
          add64 (s.lseqMask + seq.toNat) 65536)) ∨
    ((s.lastMaxLseq = lmsDefault ∨ (¬ PreWrap s seq ∧ ¬ WrapUp s seq)) ∧
      assign s seq = (s, s.lseqMask + seq.toNat)) := by
  have hor : s.lseqMask ||| seq.toNat = s.lseqMask + seq.toNat := lor_eq_add hmod seq.toNat_lt
  by_cases hmax : s.lastMaxLseq = lmsDefault
  · exact .inr (.inr ⟨.inl hmax, by rw [assign, if_pos hmax, hor]⟩)
  · rw [assign, if_neg hmax, convertSeq]
    by_cases hpre : PreWrap s seq
    · refine .inl ⟨hmax, hpre, ?_⟩
      rw [PreWrap] at hpre
      rw [if_pos hpre, hor]
    · by_cases hwrap : WrapUp s seq
      · refine .inr (.inl ⟨hmax, hpre, hwrap, ?_⟩)
        rw [PreWrap] at hpre
        rw [WrapUp] at hwrap
        rw [if_neg hpre, if_pos hwrap, hor]
      · refine .inr (.inr ⟨.inr ⟨hpre, hwrap⟩, ?_⟩)
        rw [PreWrap] at hpre
        rw [WrapUp] at hwrap
        rw [if_neg hpre, if_neg hwrap, hor]

/-- The datagram with number `seq` does not get the all-ones number: only
`65535` can, in the pre-wrap branch of the first epoch, or in the last epoch
before the 64-bit number overflows. -/
def NotSentinel (s : RtpjbufInst) (seq : UInt16) : Prop :=
  seq.toNat = 65535 →
    if s.lastMaxLseq ≠ lmsDefault ∧ PreWrap s seq then s.lseqMask ≠ 0
    else if s.lastMaxLseq ≠ lmsDefault ∧ WrapUp s seq then s.lseqMask ≠ 2 ^ 64 - 131072
    else s.lseqMask ≠ 2 ^ 64 - 65536

instance (s : RtpjbufInst) (seq : UInt16) : Decidable (NotSentinel s seq) :=
  inferInstanceAs (Decidable (seq.toNat = 65535 →
    if s.lastMaxLseq ≠ lmsDefault ∧ PreWrap s seq then s.lseqMask ≠ 0
    else if s.lastMaxLseq ≠ lmsDefault ∧ WrapUp s seq then s.lseqMask ≠ 2 ^ 64 - 131072
    else s.lseqMask ≠ 2 ^ 64 - 65536))

theorem assign_lt (hmod : s.lseqMask % 65536 = 0) (hlt : s.lseqMask < 2 ^ 64) {seq : UInt16}
    (h : NotSentinel s seq) : (assign s seq).2 < lmsDefault := by
  have hseq := seq.toNat_lt
  unfold NotSentinel at h
  unfold lmsDefault lrsDefault
  rcases assign_cases hmod seq with ⟨hmax, hpre, heq⟩ | ⟨hmax, hpre, hwrap, heq⟩ | ⟨hor, heq⟩
  · rw [if_pos ⟨hmax, hpre⟩] at h
    rw [heq]
    dsimp only
    unfold sub64
    omega
  · rw [if_neg (fun hc => hpre hc.2), if_pos ⟨hmax, hwrap⟩] at h
    rw [heq]
    dsimp only
    unfold add64
    omega
  · have h1 : ¬ (s.lastMaxLseq ≠ lmsDefault ∧ PreWrap s seq) := by
      rintro ⟨hmax, hpre⟩
      exact (hor.resolve_left hmax).1 hpre
    have h2 : ¬ (s.lastMaxLseq ≠ lmsDefault ∧ WrapUp s seq) := by
      rintro ⟨hmax, hwrap⟩
      exact (hor.resolve_left hmax).2 hwrap
    rw [if_neg h1, if_neg h2] at h
    rw [heq]
    dsimp only
    omega

theorem lseqs_assign (s : RtpjbufInst) (seq : UInt16) : lseqs (assign s seq).1 = lseqs s := by
  rw [lseqs, assign_head, lseqs]

theorem HeadGap.assign (h : HeadGap s) (seq : UInt16) : HeadGap (assign s seq).1 := by
  rw [HeadGap, lseqs_assign, assign_lastLseq]
  exact h

theorem JInv.assign (h : JInv s) (seq : UInt16) : JInv (assign s seq).1 := by
  have hmask : (Rtp.assign s seq).1.lseqMask % 65536 = 0 ∧
      (Rtp.assign s seq).1.lseqMask < 2 ^ 64 := by
    have h1 := h.mask_mod
    have h2 := h.mask_lt
    rcases assign_cases h1 seq with ⟨-, -, heq⟩ | ⟨-, -, -, heq⟩ | ⟨-, heq⟩
    · rw [heq]; exact ⟨h1, h2⟩
    · rw [heq]
      dsimp only
      unfold add64
      omega
    · rw [heq]; exact ⟨h1, h2⟩
  refine ⟨h.size.assign seq, hmask.1, hmask.2, ?_, ?_, ?_, ?_, ?_, ?_⟩
  · rw [lseqs_assign]; exact h.asc
  · rw [lseqs_assign]; exact h.lt
  · rw [assign_lastLseq]; exact h.last_le
  · rw [lseqs_assign, assign_lastMaxLseq]; exact h.tail
  · rw [lseqs_assign, assign_lastMaxLseq, assign_lastLseq, assign_capacity]; exact h.empty
  · rw [HeadGap, Stuck, lseqs_assign, assign_lastLseq, assign_capacity]; exact h.gap

/-! ### Placing -/

theorem lseqs_insertedInst (s : RtpjbufInst) (fp : RtpPacket) (pre post : List RtpPacket) :
    lseqs (insertedInst s fp pre post) =
      pre.map RtpPacket.lseq ++ fp.lseq :: post.map RtpPacket.lseq := by
  rw [lseqs, insertedInst, List.map_append]
  rfl

theorem Released.lseqs_eq {t : RtpjbufInst} {f₀ ifp : RtpPacket} {run next : List RtpPacket}
    (hrel : Released t f₀ run ifp next) :
    lseqs t = run.map RtpPacket.lseq ++ ifp.lseq :: next.map RtpPacket.lseq := by
  rw [lseqs, hrel.head, List.map_append]
  rfl

/-- The numbers stay ascending. -/
theorem Inserted.asc {pre post : List RtpPacket} (hasc : (lseqs s).Pairwise (· < ·))
    (hins : Inserted s fp pre post) : (lseqs (insertedInst s fp pre post)).Pairwise (· < ·) := by
  rw [lseqs, hins.head, List.map_append] at hasc
  have hpre : ∀ n ∈ pre.map RtpPacket.lseq, n < fp.lseq := by
    intro n hn
    obtain ⟨q, hq, rfl⟩ := List.mem_map.mp hn
    exact hins.pre_lt q hq
  obtain ⟨hasc1, hasc2, hasc3⟩ := List.pairwise_append.mp hasc
  -- the loop compares with the first frame of `post` only; the others are larger
  have hpost : ∀ n ∈ post.map RtpPacket.lseq, fp.lseq < n := by
    intro n hn
    cases hp : post with
    | nil => rw [hp] at hn; cases hn
    | cons q post' =>
      have hq : fp.lseq < q.lseq := hins.post_gt q (by rw [hp]; rfl)
      rw [hp, List.map_cons] at hn hasc2
      rcases List.mem_cons.mp hn with rfl | hn
      · exact hq
      · exact hq.trans ((List.pairwise_cons.mp hasc2).1 n hn)
  rw [lseqs_insertedInst]
  refine List.pairwise_append.mpr ⟨hasc1, List.pairwise_cons.mpr ⟨hpost, hasc2⟩, ?_⟩
  intro m hm n hn
  rcases List.mem_cons.mp hn with rfl | hn
  · exact hpre m hm
  · exact hasc3 m hm n hn

/-- The numbers after an insertion. -/
theorem Inserted.inv {pre post : List RtpPacket} (h : JInv s) (hfp : fp.lseq < lmsDefault)
    (hins : Inserted s fp pre post) :
    (lseqs (insertedInst s fp pre post)).Pairwise (· < ·) ∧
    (∀ n ∈ lseqs (insertedInst s fp pre post), n < lmsDefault) ∧
    (∀ n ∈ (lseqs (insertedInst s fp pre post)).getLast?,
      (insertedInst s fp pre post).lastMaxLseq = n) := by
  refine ⟨hins.asc h.asc, ?_⟩
  have hlt := h.lt
  have htail := h.tail
  rw [lseqs, hins.head, List.map_append] at hlt htail
  rw [lseqs_insertedInst]
  refine ⟨?_, ?_⟩
  · intro n hn
    rcases List.mem_append.mp hn with hn | hn
    · exact hlt n (List.mem_append_left _ hn)
    · rcases List.mem_cons.mp hn with rfl | hn
      · exact hfp
      · exact hlt n (List.mem_append_right _ hn)
  · intro n hn
    show (if post = [] then fp.lseq else s.lastMaxLseq) = n
    cases hp : post with
    | nil =>
      rw [hp] at hn
      simpa using hn
    | cons q post' =>
      rw [if_neg (List.cons_ne_nil _ _)]
      rw [hp] at hn htail
      refine htail n ?_
      rw [List.map_cons, List.getLast?_append_cons] at hn ⊢
      rwa [List.getLast?_cons_cons] at hn

/-- The first number after an insertion that causes no release. -/
theorem Inserted.headGap {pre post : List RtpPacket} (h : JInv s)
    (hone : s.capacity = 1 → s.head = []) (hfp : fp.lseq < lmsDefault)
    (hins : Inserted s fp pre post) (hsize : add32 s.size 1 ≠ s.capacity)
    (hgap : s.lastLseq ≠ lrsDefault →
      ∀ q ∈ (pre ++ fp :: post).head?, q.lseq ≠ add64 s.lastLseq 1) :
    HeadGap (insertedInst s fp pre post) := by
  intro hlast n hn
  have hlast : s.lastLseq ≠ lrsDefault := hlast
  show s.lastLseq + 2 ≤ n
  have hlt : s.lastLseq < fp.lseq := hins.fresh.resolve_left hlast
  cases hp : pre with
  | nil =>
    rw [hp] at hn hgap
    have hn' : fp.lseq = n := Option.some.inj hn
    have hne := hgap hlast fp rfl
    rw [add64_one (hlt.trans hfp)] at hne
    omega
  | cons q pre' =>
    have hhead : s.head = q :: (pre' ++ post) := by rw [hins.head, hp]; rfl
    have hn' : q.lseq = n := by
      rw [hp] at hn
      exact Option.some.inj hn
    subst hn'
    rcases h.gap with hgap | ⟨m, hm, hle, hcap⟩
    · exact hgap hlast q.lseq (by rw [lseqs, hhead]; rfl)
    · -- a buffer with its only frame stuck has capacity 2 and releases
      have hone' : s.head.length = 1 := by rw [← lseqs_length, hm]; rfl
      rw [h.size.size, hone'] at hsize
      rcases hcap with hcap | hcap
      · exact absurd (hone hcap) hins.head_ne
      · exact absurd hcap.symm hsize

/-- The frames behind a released run do not follow it. -/
theorem Released.headGap {t : RtpjbufInst} {f₀ ifp : RtpPacket} {run next : List RtpPacket}
    (hrel : Released t f₀ run ifp next) (hasc : (lseqs t).Pairwise (· < ·))
    (hlt : ∀ n ∈ lseqs t, n < lmsDefault) : HeadGap (releasedInst t run ifp next) := by
  intro _ n hn
  rw [hrel.lseqs_eq] at hasc hlt
  have hifp : ifp.lseq < lmsDefault := hlt _ (by simp)
  obtain ⟨q, hq, rfl⟩ : ∃ q ∈ next.head?, q.lseq = n := by
    have hn : n ∈ (next.map RtpPacket.lseq).head? := hn
    rw [List.head?_map] at hn
    exact Option.map_eq_some_iff.mp hn
  have hgt : ifp.lseq < q.lseq :=
    (List.pairwise_cons.mp (List.pairwise_append.mp hasc).2.1).1 _
      (List.mem_map_of_mem (List.mem_of_mem_head? hq))
  have hne := hrel.gap q hq
  rw [follows_iff hifp] at hne
  show ifp.lseq + 2 ≤ q.lseq
  omega

theorem add_two_le {last lseq : ℕ} (hlt : lseq < lmsDefault) (h : last < lseq)
    (hne : last ≠ sub64 lseq 1) : last + 2 ≤ lseq := by
  rw [sub64_one hlt (by omega)] at hne
  omega

/-- A parsed datagram keeps the invariant, unless it got the all-ones number. -/
theorem JInv.placed (h : JInv s) (hone : s.capacity = 1 → s.head = []) (hcnt : fp.jbcnt = 0)
    (hfp : fp.lseq < lmsDefault) (hp : Placed s fp drop s' r) : JInv s' := by
  have hsize := h.size.placed hone hcnt hp
  have hle : fp.lseq ≤ lrsDefault := hfp.le
  cases hp with
  | late | lateDup | dup =>
    exact ⟨hsize, h.mask_mod, h.mask_lt, h.asc, h.lt, h.last_le, h.tail, h.empty, h.gap⟩
  | deliver hhead =>
    have hnil := lseqs_eq_nil.mpr hhead
    refine ⟨hsize, h.mask_mod, h.mask_lt, h.asc, h.lt, hle, ?_, fun _ => .inl rfl, ?_⟩
    · intro n hn
      have hn : n ∈ (lseqs s).getLast? := hn
      rw [hnil] at hn
      cases hn
    · exact .inl (HeadGap.of_nil hhead)
  | hold hhead hmax hgap hzero =>
    have hlseqs : lseqs { s with lastMaxLseq := fp.lseq, head := [fp], size := 1 } = [fp.lseq] := rfl
    refine ⟨hsize, h.mask_mod, h.mask_lt, by simp [hlseqs], by simpa [hlseqs] using hfp, h.last_le,
      by simp [hlseqs], by simp [hlseqs], ?_⟩
    by_cases hlast : s.lastLseq = lrsDefault
    · exact .inl fun hc => absurd hlast hc
    by_cases hlt : s.lastLseq < fp.lseq
    · refine .inl fun _ n hn => ?_
      rw [← show fp.lseq = n from Option.some.inj hn]
      exact add_two_le hfp hlt (hgap hlast)
    · refine .inr ⟨fp.lseq, hlseqs, not_lt.mp hlt, ?_⟩
      -- an old number is held only when `last_max_lseq` was forgotten
      have hmax' : s.lastMaxLseq = lmsDefault :=
        hmax.resolve_right fun hc => hlt (hc.2.resolve_left hlast)
      exact ((h.empty (lseqs_eq_nil.mpr hhead)).resolve_left
        fun hc => hlast (hc.symm.trans hmax')).2
  | insert pre post hins hsz hgap =>
    obtain ⟨hasc, hlt, htail⟩ := hins.inv h hfp
    refine ⟨hsize, h.mask_mod, h.mask_lt, hasc, hlt, h.last_le, htail, fun hc => ?_,
      .inl (hins.headGap h hone hfp hsz hgap)⟩
    rw [lseqs_eq_nil] at hc
    exact absurd hc (by simp [insertedInst])
  | release pre post f₀ run ifp next hins hrel =>
    obtain ⟨hasc, hlt, htail⟩ := hins.inv h hfp
    have hgap := hrel.headGap hasc hlt
    rw [hrel.lseqs_eq] at hasc hlt htail
    -- `ifp` is the last delivered frame and, when nothing is left, the largest too
    have hasc' := (List.pairwise_append.mp hasc).2.1
    have hifp : ifp.lseq < lmsDefault := hlt _ (by simp)
    refine ⟨hsize, h.mask_mod, h.mask_lt, (List.pairwise_cons.mp hasc').2, fun n hn => ?_, hifp.le,
      fun n hn => ?_, fun hnil => .inl ?_, .inl hgap⟩
    · exact hlt n (List.mem_append_right _ (List.mem_cons_of_mem _ hn))
    · refine htail n ?_
      have hn : n ∈ (next.map RtpPacket.lseq).getLast? := hn
      rw [List.getLast?_append_cons, List.getLast?_cons, Option.mem_def.mp hn]
      rfl
    · have hnext : next.map RtpPacket.lseq = [] := hnil
      rw [hnext] at htail
      exact htail ifp.lseq (by simp)

/-- The gap in front of the buffer is kept too, when a number that comes after
`last_max_lseq` was forgotten is new. -/
theorem Placed.headGap (h : JInv s) (hone : s.capacity = 1 → s.head = [])
    (hfp : fp.lseq < lmsDefault) (hgap : HeadGap s)
    (hnew : s.lastMaxLseq = lmsDefault → s.lastLseq ≠ lrsDefault → s.lastLseq < fp.lseq)
    (hp : Placed s fp drop s' r) : HeadGap s' := by
  cases hp with
  | late | lateDup | dup => exact hgap
  | deliver hhead => exact HeadGap.of_nil hhead
  | hold hhead hmax hne hzero =>
    intro hlast n hn
    have hlast : s.lastLseq ≠ lrsDefault := hlast
    have hlt : s.lastLseq < fp.lseq := by
      rcases hmax with hmax | ⟨-, hfresh⟩
      · exact hnew hmax hlast
      · exact hfresh.resolve_left hlast
    rw [← show fp.lseq = n from Option.some.inj hn]
    exact add_two_le hfp hlt (hne hlast)
  | insert pre post hins hsz hne => exact hins.headGap h hone hfp hsz hne
  | release pre post f₀ run ifp next hins hrel =>
    obtain ⟨hasc, hlt, -⟩ := hins.inv h hfp
    exact hrel.headGap hasc hlt

theorem JInv.flushed {front seg : List RtpPacket} {ifp f₀ : RtpPacket} (h : JInv s)
    (hfl : Flushed s front seg ifp f₀ drop) : JInv (flushedInst s ifp) := by
  have hlast : (lseqs s).getLast? = some ifp.lseq := by
    rw [lseqs, hfl.head, ← List.append_assoc, List.map_append]
    simp
  have hlt := h.lt _ (List.mem_of_getLast? hlast)
  refine ⟨h.size.flushed ifp, h.mask_mod, h.mask_lt, List.Pairwise.nil, ?_, hlt.le, ?_, ?_, ?_⟩
  · intro n hn
    cases hn
  · intro n hn
    cases hn
  · intro _
    exact .inl (h.tail _ hlast)
  · exact .inl (HeadGap.of_nil rfl)

/-! ### Steps -/

/-- The condition on a call that its datagram, if it parses, does not get the
all-ones number. -/
def JBufCall.notSentinel (s : RtpjbufInst) : JBufCall → Prop
  | .udpIn _ buf => ∀ info ∈ parsed buf, (assign (purgeStaleTail s).2 info.seq).2 < lmsDefault
  | .flush => True

/-- **One call keeps the invariant.** -/
theorem JInv.step (h : JInv s) {call : JBufCall} (hs : jbufStep s call = some (s', r))
    (hok : call.notSentinel s) : JInv s' := by
  have hsize := h.size.step hs
  have hpurge := h.purge
  cases jbufStep_cases hs with
  | rejected =>
    exact ⟨hsize, hpurge.mask_mod, hpurge.mask_lt, hpurge.asc, hpurge.lt, hpurge.last_le,
      hpurge.tail, hpurge.empty, hpurge.gap⟩
  | placed info hparse hp =>
    exact (hpurge.assign info.seq).placed (h.size.assign_head_nil info.seq) rfl (hok info hparse) hp
  | idle => exact h
  | flushed front seg ifp f₀ drop hfl => exact h.flushed hfl

/-! ### No assertion fires -/

theorem dAssert_of {α : Type} {invar : Prop} [Decidable invar] (h : invar) (k : Option α) :
    dAssert invar k = k := if_pos h

theorem saveLast_total {rp : RtpPacket} (h : s.lastLseq = lrsDefault ∨ s.lastLseq < rp.lseq) :
    saveLast s rp = some { s with lastLseq := rp.lseq, lastTs := rp.info.ts } :=
  dAssert_of h _

theorem lmsInit_total (fp : RtpPacket) (drop : List RtpPacket) (hlast : s.lastLseq ≤ lrsDefault) :
    ∃ s' r, lmsInit s fp (decide (s.lastLseq = lrsDefault)) drop = some (s', r) := by
  unfold lmsInit
  dsimp only
  split
  · rename_i hc
    simp only [Bool.not_eq_eq_eq_not, Bool.not_true, decide_eq_false_iff_not] at hc
    -- a predecessor in 64-bit arithmetic is smaller, unless it is the sentinel
    have hlt : s.lastLseq < fp.lseq := by
      obtain ⟨h1, h2⟩ := hc
      unfold lrsDefault at h1 hlast
      unfold sub64 at h2
      omega
    rw [saveLast_total]
    · exact ⟨_, _, rfl⟩
    · exact .inr hlt
  · split
    · rename_i hc
      simp only [decide_eq_true_eq] at hc
      rw [dAssert_of hc.1, saveLast_total]
      · exact ⟨_, _, rfl⟩
      · exact .inl hc.1
    · exact ⟨_, _, rfl⟩

theorem releaseHead_total {t : RtpjbufInst} (drop : List RtpPacket) (hne : t.head ≠ [])
    (hsize : t.size = t.head.length % 2 ^ 32) (hlen : t.head.length ≤ 2 ^ 32)
    (hlast : t.lastLseq = lrsDefault ∨ ∀ q ∈ t.head, t.lastLseq < q.lseq) :
    ∃ s' r, releaseHead t (decide (t.lastLseq = lrsDefault)) drop = some (s', r) := by
  unfold releaseHead
  cases hhead : t.head with
  | nil => exact absurd hhead hne
  | cons f₀ rest =>
    dsimp only
    obtain ⟨hlist, -, -⟩ := releaseLoop_spec rest f₀
    generalize (releaseLoop f₀ rest).1 = run at *
    generalize (releaseLoop f₀ rest).2.1 = ifp at *
    generalize (releaseLoop f₀ rest).2.2 = next at *
    have hf₀ : t.lastLseq = lrsDefault ∨ t.lastLseq < f₀.lseq :=
      hlast.imp_right fun h => h f₀ (by rw [hhead]; exact List.mem_cons_self)
    have hifp : t.lastLseq = lrsDefault ∨ t.lastLseq < ifp.lseq :=
      hlast.imp_right fun h => h ifp (by rw [hhead, hlist]; simp)
    -- `size` may have wrapped to 0 with the insertion, which the subtraction undoes
    have hcount : t.head.length = run.length + (next.length + 1) := by
      rw [hhead, hlist, List.length_append]; rfl
    rw [dAssert_of (by simpa using hf₀), dAssert_of (by rw [lmsDefault]; simpa using em' _)]
    have hready : ∃ ready, (if decide (t.lastLseq = lrsDefault) then
        some ((run ++ [ifp]).map RtpFrame.rtp) else
        insertErsFrame { t with head := next, size := sub32 t.size (run ++ [ifp]).length } f₀
          (run ++ [ifp]).tail) = some ready := by
      split
      · exact ⟨_, rfl⟩
      · exact ⟨_, insertErsFrame_eq _ _ _⟩
    obtain ⟨ready, hready⟩ := hready
    rw [hready, Option.bind_some, saveLast_total, Option.bind_some, dAssert_of]
    · exact ⟨_, _, rfl⟩
    · rw [List.length_append, List.length_singleton, hsize]
      unfold sub32
      split
      · rename_i hnil
        rw [hnil, List.length_nil] at hcount
        dsimp only
        omega
      · rename_i hcons
        have := List.length_pos_iff.mpr hcons
        dsimp only
        omega
    · exact hifp

theorem insertFrame_total (h : JInv s) (hgap : HeadGap s) (drop : List RtpPacket)
    (hne : s.head ≠ []) (hfresh : s.lastLseq = lrsDefault ∨ s.lastLseq < fp.lseq) :
    ∃ s' r, insertFrame s fp (decide (s.lastLseq = lrsDefault)) drop = some (s', r) := by
  have hsplit : s.head = (s.head.takeWhile fun ifp => ifp.lseq < fp.lseq) ++
      s.head.dropWhile fun ifp => ifp.lseq < fp.lseq := List.takeWhile_append_dropWhile.symm
  have hpre : ∀ q ∈ s.head.takeWhile fun ifp => ifp.lseq < fp.lseq, q.lseq < fp.lseq := by
    intro q hq
    simpa using List.mem_takeWhile_imp hq
  unfold insertFrame
  dsimp only
  generalize (s.head.takeWhile fun ifp => ifp.lseq < fp.lseq) = pre at *
  generalize (s.head.dropWhile fun ifp => ifp.lseq < fp.lseq) = post at *
  -- with nothing behind the frame all held numbers are smaller, the largest too
  have hassert : post ≠ [] ∨ s.lastMaxLseq < fp.lseq := by
    by_cases hp : post = []
    · right
      rw [hp, List.append_nil] at hsplit
      obtain ⟨q, hq⟩ := Option.ne_none_iff_exists'.mp
        (fun hc => hne (List.getLast?_eq_none_iff.mp hc))
      rw [h.tail q.lseq (by rw [lseqs, List.getLast?_map, hq]; rfl)]
      exact hpre q (by rw [← hsplit]; exact List.mem_of_getLast? hq)
    · exact .inl hp
  split
  · exact ⟨_, _, rfl⟩
  · rw [dAssert_of hassert]
    split
    · refine releaseHead_total (t := { s with
        head := pre ++ fp :: post
        lastMaxLseq := if post = [] then fp.lseq else s.lastMaxLseq
        size := add32 s.size 1 }) drop (by simp) ?_ ?_ ?_
      · have : (pre ++ fp :: post).length = s.head.length + 1 := by
          rw [hsplit, List.length_append, List.length_append]; rfl
        dsimp only
        rw [h.size.size, this]; rfl
      · have hlen := h.size.length_lt
        rw [hsplit, List.length_append] at hlen
        simp only [List.length_append, List.length_cons]
        omega
      · -- every held frame is beyond the last delivered one
        by_cases hlast : s.lastLseq = lrsDefault
        · exact .inl hlast
        · refine .inr fun q hq => ?_
          have hold : ∀ q ∈ s.head, s.lastLseq < q.lseq := by
            intro q hq
            have := h.last_add_two_le hgap hlast q.lseq (List.mem_map_of_mem hq)
            omega
          rw [hsplit] at hold
          rcases List.mem_append.mp hq with hq | hq
          · exact hold q (List.mem_append_left _ hq)
          · rcases List.mem_cons.mp hq with rfl | hq
            · exact hfresh.resolve_left hlast
            · exact hold q (List.mem_append_right _ hq)
    · exact ⟨_, _, rfl⟩

/-- A parsed datagram that is placed without an assertion firing. -/
theorem udpInParsed_total (h : JInv s) (hgap : HeadGap s) (info : RtpInfo) (data : ℕ)
    (drop : List RtpPacket) : ∃ s' r, udpInParsed s info data drop = some (s', r) := by
  unfold udpInParsed
  dsimp only
  by_cases hmax : s.lastMaxLseq = lmsDefault
  · rw [if_pos hmax, dAssert_of (h.head_nil_of_max hmax)]
    exact lmsInit_total _ _ h.last_le
  · have hassert : ∀ head ∈ s.head.head?,
        decide (s.lastLseq = lrsDefault) = true ∨ sub64 head.lseq 1 > s.lastLseq := by
      intro q hq
      by_cases hlast : s.lastLseq = lrsDefault
      · exact .inl (by simpa using hlast)
      · have h1 := hgap hlast q.lseq (by rw [lseqs, List.head?_map, Option.mem_def.mp hq]; rfl)
        have h2 := h.lt q.lseq (List.mem_map_of_mem (List.mem_of_mem_head? hq))
        right
        rw [sub64_one h2 (by omega)]
        omega
    rw [if_neg hmax, dAssert_of hassert]
    have hassign : assign s info.seq = convertSeq s info.seq := if_neg hmax
    have hinv := h.assign info.seq
    have hgap' := hgap.assign info.seq
    have hmax' : (assign s info.seq).1.lastMaxLseq ≠ lmsDefault := by
      rw [assign_lastMaxLseq]; exact hmax
    have hwarm : decide (s.lastLseq = lrsDefault) =
        decide ((assign s info.seq).1.lastLseq = lrsDefault) := by
      rw [assign_lastLseq]
    rw [hwarm]
    rw [hassign] at *
    generalize convertSeq s info.seq = c at *
    split
    · split
      · exact ⟨_, _, rfl⟩
      · exact ⟨_, _, rfl⟩
    · rename_i hlate
      simp only [Bool.not_eq_eq_eq_not, Bool.not_true, decide_eq_false_iff_not, not_and,
        not_le] at hlate
      split
      · rename_i hempty
        -- the largest number is then the last delivered one
        have heq := (hinv.empty (lseqs_eq_nil.mpr hempty)).resolve_right fun hc => hmax' hc.1
        have hlast : c.1.lastLseq ≠ lrsDefault := fun hc => hmax' (heq.trans hc)
        rw [dAssert_of (by rw [hinv.size.size, hempty]; rfl),
          dAssert_of (by rw [heq]; exact hlate hlast)]
        exact lmsInit_total _ _ hinv.last_le
      · rename_i hempty
        exact insertFrame_total hinv hgap' _ hempty (or_iff_not_imp_left.mpr hlate)

theorem rtpjbufFlush_total (h : JInv s) (hgap : HeadGap s) :
    ∃ s' r, rtpjbufFlush s = some (s', r) := by
  unfold rtpjbufFlush
  cases hhead : s.head with
  | nil => exact ⟨_, _, rfl⟩
  | cons fp rest =>
    dsimp only
    obtain ⟨front, h1, -, -, -⟩ := flushLoop_spec rest [] fp [] _ _ _ rfl (by simp)
    generalize (flushLoop [] fp rest []).1 = drop at *
    generalize (flushLoop [] fp rest []).2.1 = seg at *
    generalize (flushLoop [] fp rest []).2.2 = ifp at *
    have hfp := h.lt fp.lseq (by rw [lseqs, hhead]; exact List.mem_cons_self)
    have hassert : sub64 fp.lseq 1 > s.lastLseq ∨ s.lastLseq = lrsDefault := by
      by_cases hlast : s.lastLseq = lrsDefault
      · exact .inr hlast
      · have := hgap hlast fp.lseq (by rw [lseqs, hhead]; rfl)
        left
        rw [sub64_one hfp (by omega)]
        omega
    have hifp : s.lastLseq = lrsDefault ∨ s.lastLseq < ifp.lseq := by
      refine or_iff_not_imp_left.mpr fun hlast => ?_
      have hmem : ifp ∈ s.head := by
        rw [List.nil_append] at h1
        rw [hhead, h1]
        simp
      have := h.last_add_two_le hgap hlast ifp.lseq (List.mem_map_of_mem hmem)
      omega
    rw [dAssert_of hassert, insertErsFrame_eq, Option.bind_some, saveLast_total hifp]
    exact ⟨_, _, rfl⟩

/-- The condition on a call that its datagram, if it parses when packets were
delivered but `last_max_lseq` is unset, has a new number. -/
def JBufCall.fresh (s : RtpjbufInst) : JBufCall → Prop
  | .udpIn _ buf => ∀ info ∈ parsed buf,
      (purgeStaleTail s).2.lastMaxLseq = lmsDefault → s.lastLseq ≠ lrsDefault →
        s.lastLseq < s.lseqMask ||| info.seq.toNat
  | .flush => True

/-- The invariant and the gap in front of the buffer are all the assertions
need. -/
theorem jbufStep_progress (h : JInv s) (hgap : HeadGap s) (call : JBufCall) :
    ∃ s' r, jbufStep s call = some (s', r) := by
  cases call with
  | udpIn data buf =>
    obtain ⟨info, hparse, -⟩ := rtpPacketParseRaw_eq buf .zero
    rw [jbufStep, rtpjbufUdpIn, hparse]
    dsimp only
    rw [Option.bind_some]
    split
    · exact ⟨_, _, rfl⟩
    · exact udpInParsed_total h.purge (hgap.purge h) info data _
  | flush => exact rtpjbufFlush_total h hgap

theorem HeadGap.step (hgap : HeadGap s) (h : JInv s) {call : JBufCall}
    (hok : call.notSentinel s) (hfresh : call.fresh s) (hs : jbufStep s call = some (s', r)) :
    HeadGap s' := by
  cases jbufStep_cases hs with
  | rejected => exact hgap.purge h
  | placed info hparse hp =>
    refine hp.headGap (h.purge.assign _) (h.size.assign_head_nil _) (hok info hparse)
      ((hgap.purge h).assign _) ?_
    rw [assign_lastMaxLseq, assign_lastLseq, purgeStaleTail_lastLseq]
    intro hmax hlast
    -- the number is then the epoch with the datagram's sixteen bits
    rw [Rtp.assign, if_pos hmax, purgeStaleTail_lseqMask]
    exact hfresh info hparse hmax hlast
  | idle => exact hgap
  | flushed => exact HeadGap.of_nil rfl

/-- A call that meets both conditions does not abort. -/
theorem jbufStep_total (h : JInv s) (hgap : HeadGap s) {call : JBufCall}
    (hok : call.notSentinel s) (hfresh : call.fresh s) :
    ∃ s' r, jbufStep s call = some (s', r) ∧ JInv s' ∧ HeadGap s' := by
  obtain ⟨s', r, hs⟩ := jbufStep_progress h hgap call
  exact ⟨s', r, hs, h.step hs hok, hgap.step h hok hfresh hs⟩

/-- The condition for a call to be safe.  Its datagram, if it parses, does not
get the all-ones number; and where the purge of the only held frame has reset
`last_max_lseq` after packets were delivered, its number is new. -/
def JBufCall.safe (s : RtpjbufInst) : JBufCall → Prop
  | .udpIn _ buf => ∀ info ∈ parsed buf,
      NotSentinel (purgeStaleTail s).2 info.seq ∧
      ((purgeStaleTail s).2.lastMaxLseq = lmsDefault → s.lastLseq ≠ lrsDefault →
        s.lastLseq < s.lseqMask ||| info.seq.toNat)
  | .flush => True

instance (s : RtpjbufInst) : ∀ call : JBufCall, Decidable (call.safe s)
  | .udpIn _ buf => inferInstanceAs (Decidable (∀ info ∈ parsed buf, _))
  | .flush => inferInstanceAs (Decidable True)

theorem JInv.notSentinel (h : JInv s) {call : JBufCall} (hsafe : call.safe s) :
    call.notSentinel s := by
  cases call with
  | flush => trivial
  | udpIn data buf =>
    have hpurge := h.purge
    intro info hinfo
    exact assign_lt hpurge.mask_mod hpurge.mask_lt (hsafe info hinfo).1

theorem JBufCall.safe.fresh {call : JBufCall} (hsafe : call.safe s) : call.fresh s := by
  cases call with
  | flush => trivial
  | udpIn data buf =>
    intro info hinfo
    exact (hsafe info hinfo).2

/-- **No assertion fires** in a run whose calls are all safe, for any
capacity. -/
theorem jbufRun_no_abort {capacity : ℕ} (hcap : capacity < 2 ^ 32) {calls : List JBufCall}
    (hsafe : Always jbufStep (fun s call => call.safe s) (rtpjbufCtor capacity) calls) :
    ∃ s outs, run jbufStep (rtpjbufCtor capacity) calls = some (s, outs) := by
  have hinit : JInv (rtpjbufCtor capacity) ∧ HeadGap (rtpjbufCtor capacity) :=
    ⟨jInv_ctor hcap, fun hc => absurd rfl hc⟩
  obtain ⟨s, outs, hrun, -⟩ := run_total (fun _ => True) (fun _ _ s => JInv s ∧ HeadGap s)
    (fun _ => trivial) hinit
    (fun _ hinv hok => jbufStep_total hinv.1 hinv.2 (hinv.1.notSentinel hok) hok.fresh)
    trivial hsafe
  exact ⟨s, outs, hrun⟩

theorem jbufRun_no_abort_wrapped :
    ∃ s outs, run jbufStep (rtpjbufCtor 3)
      [.udpIn 0 (datagram 65534), .udpIn 1 (datagram 2), .udpIn 2 (datagram 65535),
        .udpIn 3 [], .flush] = some (s, outs) :=
  jbufRun_no_abort (by decide) (by decide)

/-- The first epoch has no predecessor: a pre-wrap packet in it gets the
all-ones number, which the next call takes for an unset `last_max_lseq`.  And
once the purge of the only frame has unset it, an old number is held. -/
theorem jbufRun_aborts :
    run jbufStep (rtpjbufCtor 3)
      [.udpIn 0 (datagram 0), .udpIn 1 (datagram 65535), .udpIn 2 (datagram 1)] = none ∧
    run jbufStep (rtpjbufCtor 2)
      [.udpIn 0 (datagram 0), .udpIn 1 (datagram 5), .udpIn 2 [], .udpIn 3 [],
        .udpIn 4 (datagram 0), .flush] = none := by
  decide

/-! ### Capacities from 3 on -/

/-- The pre-wrap adjustment is made only once an epoch has passed. -/
def JBufCall.preWrapOk (s : RtpjbufInst) : JBufCall → Prop
  | .udpIn _ buf => ∀ info ∈ parsed buf,
      PreWrap (purgeStaleTail s).2 info.seq → 0x10000 ≤ s.lseqMask
  | .flush => True

instance (s : RtpjbufInst) : ∀ call : JBufCall, Decidable (call.preWrapOk s)
  | .udpIn _ buf => inferInstanceAs (Decidable (∀ info ∈ parsed buf,
      PreWrap (purgeStaleTail s).2 info.seq → 0x10000 ≤ s.lseqMask))
  | .flush => inferInstanceAs (Decidable True)

theorem JInv.notSentinel_of_preWrapOk (h : JInv s) {call : JBufCall} (hpre : call.preWrapOk s)
    (hmask : s.lseqMask < 2 ^ 63) : call.notSentinel s := by
  cases call with
  | flush => trivial
  | udpIn data buf =>
    intro info hinfo
    have h1 := hpre info hinfo
    have hpurge := h.purge
    refine assign_lt hpurge.mask_mod hpurge.mask_lt fun _ => ?_
    rw [purgeStaleTail_lseqMask]
    split
    · rename_i hc
      have := h1 hc.2
      omega
    · split <;> omega

/-- The epoch advances by at most one for each call. -/
theorem jbufStep_lseqMask_le {call : JBufCall} (hmod : s.lseqMask % 65536 = 0)
    (hs : jbufStep s call = some (s', r)) : s'.lseqMask ≤ s.lseqMask + 65536 := by
  cases jbufStep_cases hs with
  | rejected =>
    show (purgeStaleTail s).2.lseqMask ≤ _
    rw [purgeStaleTail_lseqMask]
    exact Nat.le_add_right _ _
  | placed info hparse hp =>
    have hassign : (assign (purgeStaleTail s).2 info.seq).1.lseqMask ≤ s.lseqMask + 65536 := by
      rw [← purgeStaleTail_lseqMask s] at hmod ⊢
      rcases assign_cases hmod info.seq with ⟨-, -, heq⟩ | ⟨-, -, -, heq⟩ | ⟨-, heq⟩
      · rw [heq]; exact Nat.le_add_right _ _
      · rw [heq]; exact Nat.mod_le _ _
      · rw [heq]; exact Nat.le_add_right _ _
    cases hp <;> exact hassign
  | idle | flushed => exact Nat.le_add_right _ _

theorem jbufStep_capacity {call : JBufCall} (hs : jbufStep s call = some (s', r)) :
    s'.capacity = s.capacity := by
  cases jbufStep_cases hs with
  | rejected => exact purgeStaleTail_capacity s
  | placed info hparse hp =>
    have hassign : (assign (purgeStaleTail s).2 info.seq).1.capacity = s.capacity := by
      rw [assign_capacity, purgeStaleTail_capacity]
    cases hp <;> exact hassign
  | idle | flushed => rfl

/-- From capacity 3 on `last_max_lseq` is unset only as long as it was never
set. -/
theorem JInv.max_purge (h : JInv s) (h3 : 3 ≤ s.capacity)
    (hmax : s.lastMaxLseq ≠ lmsDefault) : (purgeStaleTail s).2.lastMaxLseq ≠ lmsDefault := by
  intro hc
  have hnil := lseqs_eq_nil.mpr (h.purge.head_nil_of_max hc)
  rcases purgeStaleTail_lseqs h with ⟨-, heq, -⟩ | ⟨p, ls, -, hls, hls', -, hlen⟩
  · exact hmax (heq.symm.trans hc)
  · rw [← hls', hnil] at hls
    have hone : s.head.length = 1 := by rw [← lseqs_length, hls]; rfl
    rw [hone, sub32_of_le h.size.capacity_lt (by omega)] at hlen
    omega

theorem Placed.max_ne (hfp : fp.lseq < lmsDefault) (hp : Placed s fp drop s' r) :
    s'.lastMaxLseq ≠ lmsDefault := by
  cases hp with
  | late hmax | lateDup hmax | dup _ hmax => exact hmax
  | deliver | hold => exact hfp.ne
  | insert pre post hins | release pre post f₀ run ifp next hins =>
    show (if post = [] then fp.lseq else s.lastMaxLseq) ≠ lmsDefault
    split
    · exact hfp.ne
    · exact hins.max_ne

/-- After an accepted datagram `last_max_lseq` is set. -/
theorem JInv.max_step (h : JInv s) (h3 : 3 ≤ s.capacity) {call : JBufCall}
    (hs : jbufStep s call = some (s', r)) (hok : call.notSentinel s)
    (hmax : s.lastMaxLseq ≠ lmsDefault ∨ call.accepted ≠ none) : s'.lastMaxLseq ≠ lmsDefault := by
  cases jbufStep_cases hs with
  | rejected e hparse =>
    refine h.max_purge h3 (hmax.resolve_right ?_)
    rw [JBufCall.accepted, hparse]
    exact not_not.mpr rfl
  | placed info hparse hp => exact hp.max_ne (hok info hparse)
  | idle | flushed => exact hmax.resolve_right (not_not.mpr rfl)

/-- From capacity 3 on `last_max_lseq` is set once packets were delivered. -/
theorem JInv.fresh (h : JInv s) (h3 : 3 ≤ s.capacity) (call : JBufCall) :
    call.fresh s := by
  cases call with
  | flush => trivial
  | udpIn data buf =>
    intro info hinfo hmax hlast
    refine absurd ?_ hlast
    have hpurge := h.purge
    have hempty := hpurge.empty (lseqs_eq_nil.mpr (hpurge.head_nil_of_max hmax))
    rw [purgeStaleTail_capacity, purgeStaleTail_lastLseq] at hempty
    have heq := hempty.resolve_right fun hc => by omega
    exact heq.symm.trans hmax

/-- What a run with capacity from 3 on keeps. -/
structure RunInv (capacity : ℕ) (calls : List JBufCall) (s : RtpjbufInst) : Prop where
  inv : JInv s
  capacity_eq : s.capacity = capacity
  mask_le : s.lseqMask ≤ 65536 * calls.length
  max_ne : calls.filterMap JBufCall.accepted ≠ [] → s.lastMaxLseq ≠ lmsDefault

/-- **The invariant holds after every call, and no assertion fires**, from
capacity 3 on, as long as no pre-wrap packet comes in the first epoch. -/
theorem runInv_of_run {capacity : ℕ} (h3 : 3 ≤ capacity) (hcap : capacity < 2 ^ 32)
    {calls : List JBufCall} (hlen : calls.length < 2 ^ 47)
    (hpre : Always jbufStep (fun s call => call.preWrapOk s) (rtpjbufCtor capacity) calls) :
    ∃ s outs, run jbufStep (rtpjbufCtor capacity) calls = some (s, outs) ∧
      RunInv capacity calls s := by
  refine run_total (fun calls => calls.length < 2 ^ 47) (fun calls _ s => RunInv capacity calls s)
    ?_ ⟨jInv_ctor hcap, rfl, Nat.zero_le _, fun hc => absurd rfl hc⟩ ?_ hlen hpre
  · intro calls call hlen
    rw [List.length_append] at hlen
    omega
  · intro calls outs s call hlen hinv hpre
    rw [List.length_append, List.length_singleton] at hlen
    -- fewer than `2 ^ 47` epochs keep the number far from the sentinel
    have hmask := hinv.mask_le
    have hs3 : 3 ≤ s.capacity := hinv.capacity_eq ▸ h3
    have hok := hinv.inv.notSentinel_of_preWrapOk hpre (by omega)
    obtain ⟨s', r, hs, hinv', -⟩ :=
      jbufStep_total hinv.inv (hinv.inv.headGap hs3) hok (hinv.inv.fresh hs3 call)
    refine ⟨s', r, hs, hinv', (jbufStep_capacity hs).trans hinv.capacity_eq, ?_, fun hacc => ?_⟩
    · have := jbufStep_lseqMask_le hinv.inv.mask_mod hs
      rw [List.length_append, List.length_singleton]
      omega
    · refine hinv.inv.max_step hs3 hs hok ?_
      by_cases hcall : call.accepted = none
      · refine .inl (hinv.max_ne ?_)
        simpa [List.filterMap_append, hcall] using hacc
      · exact .inr hcall

/-- **The representation invariant**, in terms of the frame list. -/
theorem jbufRun_repInv {capacity : ℕ} (h3 : 3 ≤ capacity) (hcap : capacity < 2 ^ 32)
    {calls : List JBufCall} (hlen : calls.length < 2 ^ 47)
    (hpre : Always jbufStep (fun s call => call.preWrapOk s) (rtpjbufCtor capacity) calls) :
    ∃ s outs, run jbufStep (rtpjbufCtor capacity) calls = some (s, outs) ∧
      (s.head.map RtpPacket.lseq).Pairwise (· < ·) ∧
      s.size = s.head.length ∧ s.size < capacity ∧
      (∀ tail ∈ s.head.getLast?, s.lastMaxLseq = tail.lseq) ∧
      (s.head = [] → calls.filterMap JBufCall.accepted ≠ [] → s.lastMaxLseq = s.lastLseq) ∧
      (s.lastMaxLseq = lmsDefault → calls.filterMap JBufCall.accepted = []) ∧
      (s.lastLseq ≠ lrsDefault → ∀ head ∈ s.head.head?, s.lastLseq + 2 ≤ head.lseq) := by
  obtain ⟨s, outs, hrun, hinv⟩ := runInv_of_run h3 hcap hlen hpre
  have hs3 : 3 ≤ s.capacity := hinv.capacity_eq ▸ h3
  refine ⟨s, outs, hrun, hinv.inv.asc, hinv.inv.size.size, ?_, ?_, ?_, ?_, ?_⟩
  · have hb := hinv.inv.size.bound
    rw [hinv.capacity_eq, effCapacity, if_neg (by omega)] at hb
    rw [hinv.inv.size.size]
    omega
  · intro tail htail
    refine hinv.inv.tail _ ?_
    rw [lseqs, List.getLast?_map, Option.mem_def.mp htail]
    rfl
  · intro hnil hacc
    exact (hinv.inv.empty (lseqs_eq_nil.mpr hnil)).resolve_right
      fun hc => hinv.max_ne hacc hc.1
  · intro hmax
    by_contra hacc
    exact hinv.max_ne hacc hmax
  · intro hlast head hhead
    refine hinv.inv.headGap hs3 hlast _ ?_
    rw [lseqs, List.head?_map, Option.mem_def.mp hhead]
    rfl

theorem jbufRun_repInv_wrapped :
    ∃ s outs, run jbufStep (rtpjbufCtor 3)
        [.udpIn 0 (datagram 65534), .udpIn 1 (datagram 2), .udpIn 2 (datagram 65535),
          .udpIn 3 []] = some (s, outs) ∧
      (s.head.map RtpPacket.lseq).Pairwise (· < ·) ∧ s.size < 3 := by
  obtain ⟨s, outs, hrun, hasc, -, hsize, -⟩ :=
    jbufRun_repInv (by decide : 3 ≤ 3) (by decide)
      (by decide : [JBufCall.udpIn 0 (datagram 65534), .udpIn 1 (datagram 2),
        .udpIn 2 (datagram 65535), .udpIn 3 []].length < 2 ^ 47) (by decide)
  exact ⟨s, outs, hrun, hasc, hsize⟩

end Rtp
