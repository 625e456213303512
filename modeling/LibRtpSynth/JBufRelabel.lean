/-
What the jitter buffer does not look at.

`rtpjbuf.c` carries the data pointer of a frame from `rtpjbuf_udp_in` to the
lists it returns, and counts the datagrams the parser rejects, without ever
reading either.  `relabel f k` puts the pointers through `f` and sets the
counter to `k`; every function of the buffer commutes with it, so a run does
the same whatever the pointers and the counter are (`jbufStep_relabel`).
-/
import LibRtpSynth.JBufConservation

open CWords Runs

namespace Rtp

variable {s s' : RtpjbufInst} {r : RjbUdpInR} (f : ℕ → ℕ) (k : ℕ)

/-- The packet with its data pointer put through `f`. -/
def RtpPacket.relabel (p : RtpPacket) : RtpPacket := { p with data := f p.data }

/-- The frame with its data pointer, if it has one, put through `f`. -/
def RtpFrame.relabel : RtpFrame → RtpFrame
  | .rtp p => .rtp (p.relabel f)
  | .ers e => .ers e

/-- The result with the data pointers put through `f`. -/
def RjbUdpInR.relabel (r : RjbUdpInR) : RjbUdpInR :=
  ⟨r.error, r.ready.map (RtpFrame.relabel f), r.drop.map (RtpPacket.relabel f)⟩

/-- The instance with the data pointers put through `f` and the counter of
rejected datagrams set to `k`. -/
def RtpjbufInst.relabel (s : RtpjbufInst) : RtpjbufInst :=
  { s with head := s.head.map (RtpPacket.relabel f), dropPerror := k }

/-- The call with its data pointer put through `f`. -/
def JBufCall.relabel : JBufCall → JBufCall
  | .udpIn data buf => .udpIn (f data) buf
  | .flush => .flush

/-- What the relabelling makes of the outcome of a call. -/
def relabelOut (k : ℕ) (p : RtpjbufInst × RjbUdpInR) : RtpjbufInst × RjbUdpInR :=
  (p.1.relabel f k, p.2.relabel f)

@[simp] theorem RtpPacket.relabel_lseq (p : RtpPacket) : (p.relabel f).lseq = p.lseq := rfl

@[simp] theorem RtpPacket.relabel_info (p : RtpPacket) : (p.relabel f).info = p.info := rfl

@[simp] theorem RtpPacket.relabel_jbcnt (p : RtpPacket) : (p.relabel f).jbcnt = p.jbcnt := rfl

@[simp] theorem RtpjbufInst.relabel_head (s : RtpjbufInst) :
    (s.relabel f k).head = s.head.map (RtpPacket.relabel f) := rfl

@[simp] theorem RtpjbufInst.relabel_size (s : RtpjbufInst) : (s.relabel f k).size = s.size := rfl

@[simp] theorem RtpjbufInst.relabel_capacity (s : RtpjbufInst) :
    (s.relabel f k).capacity = s.capacity := rfl

@[simp] theorem RtpjbufInst.relabel_lastLseq (s : RtpjbufInst) :
    (s.relabel f k).lastLseq = s.lastLseq := rfl

@[simp] theorem RtpjbufInst.relabel_lastMaxLseq (s : RtpjbufInst) :
    (s.relabel f k).lastMaxLseq = s.lastMaxLseq := rfl

@[simp] theorem RtpjbufInst.relabel_lseqMask (s : RtpjbufInst) :
    (s.relabel f k).lseqMask = s.lseqMask := rfl

@[simp] theorem map_relabel_rtp (l : List RtpPacket) :
    (l.map RtpFrame.rtp).map (RtpFrame.relabel f) =
      (l.map (RtpPacket.relabel f)).map RtpFrame.rtp := by
  rw [List.map_map, List.map_map]
  rfl

/-! ### The functions of the buffer -/

theorem dAssert_map_congr {α β : Type} {p q : Prop} [Decidable p] [Decidable q] {x : Option α}
    {y : Option β} (g : α → β) (hpq : q ↔ p) (h : y = x.map g) :
    dAssert q y = (dAssert p x).map g := by
  rw [dAssert, dAssert, apply_ite (Option.map g)]
  exact if_congr hpq h rfl

theorem purgeStaleTail_relabel (s : RtpjbufInst) :
    purgeStaleTail (s.relabel f k) =
      ((purgeStaleTail s).1.map (RtpPacket.relabel f), (purgeStaleTail s).2.relabel f k) := by
  unfold purgeStaleTail
  simp only [RtpjbufInst.relabel_head, RtpjbufInst.relabel_size, RtpjbufInst.relabel_capacity,
    RtpjbufInst.relabel_lastMaxLseq, List.getLast?_map, ← List.map_dropLast]
  cases hlast : s.head.getLast? with
  | none => rfl
  | some fp =>
    simp only [Option.map_some, RtpPacket.relabel_jbcnt, RtpPacket.relabel_lseq]
    by_cases hsize : s.size < sub32 s.capacity 1
    · simp only [if_pos hsize]
      rfl
    simp only [if_neg hsize]
    by_cases hage : add64 fp.jbcnt 1 < s.capacity
    · simp [RtpjbufInst.relabel, RtpPacket.relabel, hage]
    · -- the frame before the tail, if there is one, has kept its number
      cases s.head.dropLast.getLast? <;> by_cases hmax : s.lastMaxLseq = fp.lseq <;>
        simp [RtpjbufInst.relabel, RtpPacket.relabel, hage, hmax]

theorem insertErsFrame_relabel (s : RtpjbufInst) (fp : RtpPacket) (rest : List RtpPacket) :
    insertErsFrame (s.relabel f k) (fp.relabel f) (rest.map (RtpPacket.relabel f)) =
      (insertErsFrame s fp rest).map (List.map (RtpFrame.relabel f)) := by
  unfold insertErsFrame
  rw [← List.map_cons, apply_ite (Option.map (List.map (RtpFrame.relabel f)))]
  refine if_congr Iff.rfl ?_ ?_
  · rw [Option.map_some, map_relabel_rtp]
  · rw [← map_relabel_rtp, Option.map_map]
    rfl

theorem saveLast_relabel (s : RtpjbufInst) (rp : RtpPacket) :
    saveLast (s.relabel f k) (rp.relabel f) =
      (saveLast s rp).map (RtpjbufInst.relabel f k) :=
  dAssert_map_congr _ Iff.rfl rfl

theorem convertSeq_relabel (s : RtpjbufInst) (seq : UInt16) :
    convertSeq (s.relabel f k) seq =
      ((convertSeq s seq).1.relabel f k, (convertSeq s seq).2) := by
  by_cases hpre : s.lastMaxLseq % 65536 < 536 ∧ seq.toNat > 65000
  · simp [convertSeq, RtpjbufInst.relabel, hpre]
  by_cases hwrap : s.lastMaxLseq > 65000 ∧ s.lseqMask ||| seq.toNat < sub64 s.lastMaxLseq 65000 <;>
    simp [convertSeq, RtpjbufInst.relabel, hpre, hwrap]

theorem lmsInit_relabel (s : RtpjbufInst) (fp : RtpPacket) (warmUp : Bool)
    (drop : List RtpPacket) :
    lmsInit (s.relabel f k) (fp.relabel f) warmUp (drop.map (RtpPacket.relabel f)) =
      (lmsInit s fp warmUp drop).map (relabelOut f k) := by
  have hsave : (saveLast { s.relabel f k with lastMaxLseq := fp.lseq } (fp.relabel f)).map
        (fun rjbp => (rjbp, (⟨0, [.rtp (fp.relabel f)], drop.map (RtpPacket.relabel f)⟩ : RjbUdpInR))) =
      ((saveLast { s with lastMaxLseq := fp.lseq } fp).map
        fun rjbp => (rjbp, ⟨0, [.rtp fp], drop⟩)).map (relabelOut f k) := by
    rw [show ({ s.relabel f k with lastMaxLseq := fp.lseq } : RtpjbufInst) =
      RtpjbufInst.relabel f k { s with lastMaxLseq := fp.lseq } from rfl, saveLast_relabel,
      Option.map_map, Option.map_map]
    rfl
  unfold lmsInit
  rw [apply_ite (Option.map (relabelOut f k)), apply_ite (Option.map (relabelOut f k))]
  refine if_congr Iff.rfl hsave (if_congr Iff.rfl ?_ rfl)
  exact dAssert_map_congr _ Iff.rfl hsave

theorem releaseLoop_relabel : ∀ (rest : List RtpPacket) (ifp : RtpPacket),
    releaseLoop (ifp.relabel f) (rest.map (RtpPacket.relabel f)) =
      ((releaseLoop ifp rest).1.map (RtpPacket.relabel f),
        (releaseLoop ifp rest).2.1.relabel f,
        (releaseLoop ifp rest).2.2.map (RtpPacket.relabel f)) := by
  intro rest
  induction rest with
  | nil =>
    intro ifp
    rfl
  | cons next rest ih =>
    intro ifp
    rw [List.map_cons, releaseLoop, releaseLoop, ih next]
    by_cases h : add64 ifp.lseq 1 ≠ next.lseq
    · rw [if_pos h]
      exact if_pos h
    · rw [if_neg h]
      exact if_neg h

theorem flushLoop_relabel : ∀ (rest seg : List RtpPacket) (ifp : RtpPacket)
    (drop : List RtpPacket),
    flushLoop (seg.map (RtpPacket.relabel f)) (ifp.relabel f) (rest.map (RtpPacket.relabel f))
        (drop.map (RtpPacket.relabel f)) =
      ((flushLoop seg ifp rest drop).1.map (RtpPacket.relabel f),
        (flushLoop seg ifp rest drop).2.1.map (RtpPacket.relabel f),
        (flushLoop seg ifp rest drop).2.2.relabel f) := by
  intro rest
  induction rest with
  | nil =>
    intro seg ifp drop
    rfl
  | cons next rest ih =>
    intro seg ifp drop
    rw [List.map_cons, flushLoop, flushLoop]
    by_cases h : add64 ifp.lseq 1 ≠ next.lseq
    · rw [if_pos h, ← ih [] next (seg ++ ifp :: drop), List.map_append]
      exact if_pos h
    · rw [if_neg h, ← ih (seg ++ [ifp]) next drop, List.map_append]
      exact if_neg h

theorem releaseHead_relabel (s : RtpjbufInst) (warmUp : Bool) (drop : List RtpPacket) :
    releaseHead (s.relabel f k) warmUp (drop.map (RtpPacket.relabel f)) =
      (releaseHead s warmUp drop).map (relabelOut f k) := by
  unfold releaseHead
  rw [RtpjbufInst.relabel_head]
  cases hhead : s.head with
  | nil => rfl
  | cons fp rest =>
    rw [List.map_cons]
    dsimp only
    rw [releaseLoop_relabel]
    generalize releaseLoop fp rest = l
    obtain ⟨run, ifp, next⟩ := l
    have hframes : run.map (RtpPacket.relabel f) ++ [ifp.relabel f] =
        (run ++ [ifp]).map (RtpPacket.relabel f) := by rw [List.map_append]; rfl
    dsimp only
    rw [hframes, List.length_map, ← List.map_tail]
    refine dAssert_map_congr _ Iff.rfl (dAssert_map_congr _ Iff.rfl ?_)
    -- the instance with the run taken out, and what is made ready
    generalize hu : ({ s with head := next, size := sub32 s.size (run ++ [ifp]).length } :
      RtpjbufInst) = u
    have hu' : ({ s.relabel f k with
        head := next.map (RtpPacket.relabel f)
        size := sub32 (s.relabel f k).size (run ++ [ifp]).length } : RtpjbufInst) =
          u.relabel f k := by rw [← hu]; rfl
    rw [hu', insertErsFrame_relabel, saveLast_relabel, ← map_relabel_rtp]
    rw [show (if warmUp = true then some (((run ++ [ifp]).map RtpFrame.rtp).map (RtpFrame.relabel f))
        else (insertErsFrame u fp (run ++ [ifp]).tail).map (List.map (RtpFrame.relabel f))) =
      (if warmUp = true then some ((run ++ [ifp]).map RtpFrame.rtp)
        else insertErsFrame u fp (run ++ [ifp]).tail).map (List.map (RtpFrame.relabel f)) by
      split <;> rfl]
    generalize (if warmUp = true then some ((run ++ [ifp]).map RtpFrame.rtp)
      else insertErsFrame u fp (run ++ [ifp]).tail) = ready
    cases ready with
    | none => rfl
    | some ready =>
      cases saveLast u ifp with
      | none => rfl
      | some v =>
        refine dAssert_map_congr _ (iff_of_eq (if_congr ?_ rfl rfl)) rfl
        exact List.map_eq_nil_iff

theorem gotdup_relabel (s : RtpjbufInst) (fp : RtpPacket) (drop : List RtpPacket) :
    gotdup (s.relabel f k) (fp.relabel f) (drop.map (RtpPacket.relabel f)) =
      (gotdup s fp drop).map (relabelOut f k) := rfl

theorem insertFrame_relabel (s : RtpjbufInst) (fp : RtpPacket) (warmUp : Bool)
    (drop : List RtpPacket) :
    insertFrame (s.relabel f k) (fp.relabel f) warmUp (drop.map (RtpPacket.relabel f)) =
      (insertFrame s fp warmUp drop).map (relabelOut f k) := by
  -- the loop stops at the same place
  have hpre : ((s.relabel f k).head.takeWhile fun ifp => ifp.lseq < (fp.relabel f).lseq) =
      (s.head.takeWhile fun ifp => ifp.lseq < fp.lseq).map (RtpPacket.relabel f) :=
    List.takeWhile_map
  have hpost : ((s.relabel f k).head.dropWhile fun ifp => ifp.lseq < (fp.relabel f).lseq) =
      (s.head.dropWhile fun ifp => ifp.lseq < fp.lseq).map (RtpPacket.relabel f) :=
    List.dropWhile_map
  unfold insertFrame
  dsimp only
  simp only [hpre, hpost]
  generalize (s.head.takeWhile fun ifp => ifp.lseq < fp.lseq) = pre
  generalize (s.head.dropWhile fun ifp => ifp.lseq < fp.lseq) = post
  have hnil : post.map (RtpPacket.relabel f) = [] ↔ post = [] := List.map_eq_nil_iff
  rw [apply_ite (Option.map (relabelOut f k))]
  refine if_congr ?_ (gotdup_relabel f k s fp drop) ?_
  · rw [List.head?_map, Option.map_map]
    rfl
  refine dAssert_map_congr _ (or_congr (not_congr hnil) Iff.rfl) ?_
  rw [apply_ite (Option.map (relabelOut f k))]
  have hu : insertedInst (s.relabel f k) (fp.relabel f) (pre.map (RtpPacket.relabel f))
      (post.map (RtpPacket.relabel f)) = (insertedInst s fp pre post).relabel f k := by
    simp [insertedInst, RtpjbufInst.relabel]
  refine if_congr (or_congr Iff.rfl (and_congr Iff.rfl ?_)) ?_ ?_
  · cases pre <;> rfl
  · exact (congrArg (releaseHead · warmUp _) hu).trans
      (releaseHead_relabel f k (insertedInst s fp pre post) warmUp drop)
  · exact congrArg (fun u => some (u, _)) hu

theorem udpInParsed_relabel (s : RtpjbufInst) (info : RtpInfo) (data : ℕ)
    (drop : List RtpPacket) :
    udpInParsed (s.relabel f k) info (f data) (drop.map (RtpPacket.relabel f)) =
      (udpInParsed s info data drop).map (relabelOut f k) := by
  unfold udpInParsed
  rw [apply_ite (Option.map (relabelOut f k))]
  refine if_congr Iff.rfl ?_ ?_
  · exact dAssert_map_congr _ List.map_eq_nil_iff
      (lmsInit_relabel f k s ⟨info, s.lseqMask ||| info.seq.toNat, 0, data⟩ _ drop)
  · refine dAssert_map_congr _ ?_ ?_
    · rw [RtpjbufInst.relabel_head, List.head?_map]
      cases s.head.head? with
      | none => simp
      | some q => exact ⟨fun h q' hq' => Option.some.inj hq' ▸ h (q.relabel f) rfl,
          fun h q' hq' => Option.some.inj hq' ▸ h q rfl⟩
    · dsimp only
      rw [convertSeq_relabel]
      generalize convertSeq s info.seq = c
      obtain ⟨u, lseq⟩ := c
      dsimp only
      rw [apply_ite (Option.map (relabelOut f k)), apply_ite (Option.map (relabelOut f k)),
        apply_ite (Option.map (relabelOut f k))]
      -- late, first of an empty buffer, or inserted
      refine if_congr Iff.rfl (if_congr Iff.rfl rfl rfl) (if_congr List.map_eq_nil_iff ?_ ?_)
      · exact dAssert_map_congr _ Iff.rfl (dAssert_map_congr _ Iff.rfl
          (lmsInit_relabel f k u ⟨info, lseq, 0, data⟩ _ drop))
      · exact insertFrame_relabel f k u ⟨info, lseq, 0, data⟩ _ drop

theorem rtpjbufFlush_relabel (s : RtpjbufInst) :
    rtpjbufFlush (s.relabel f k) = (rtpjbufFlush s).map (relabelOut f k) := by
  unfold rtpjbufFlush
  rw [RtpjbufInst.relabel_head]
  cases hhead : s.head with
  | nil => simp [relabelOut, RjbUdpInR.relabel]
  | cons fp rest =>
    rw [List.map_cons]
    dsimp only
    rw [show flushLoop [] (fp.relabel f) (rest.map (RtpPacket.relabel f)) [] = _ from
      flushLoop_relabel f rest [] fp []]
    generalize flushLoop [] fp rest [] = l
    obtain ⟨drop, seg, ifp⟩ := l
    have hframes : seg.map (RtpPacket.relabel f) ++ [ifp.relabel f] =
        (seg ++ [ifp]).map (RtpPacket.relabel f) := by rw [List.map_append]; rfl
    have hfirst : ((seg ++ [ifp]).map (RtpPacket.relabel f)).headD (ifp.relabel f) =
        ((seg ++ [ifp]).headD ifp).relabel f := by cases seg <;> rfl
    refine dAssert_map_congr _ Iff.rfl ?_
    dsimp only
    rw [hframes, hfirst, ← List.map_tail, insertErsFrame_relabel, saveLast_relabel]
    cases insertErsFrame s ((seg ++ [ifp]).headD ifp) (seg ++ [ifp]).tail with
    | none => rfl
    | some ready =>
      cases saveLast s ifp with
      | none => rfl
      | some v => rfl

/-- **A call does not depend on the data pointers** or on the number of
datagrams rejected so far, which it counts up when it rejects one. -/
theorem jbufStep_relabel (s : RtpjbufInst) (call : JBufCall) :
    jbufStep (s.relabel f k) (call.relabel f) =
      (jbufStep s call).map (relabelOut f (if call.rejected then add64 k 1 else k)) := by
  cases call with
  | udpIn data buf =>
    obtain ⟨info, hparse, -⟩ := rtpPacketParseRaw_eq buf .zero
    rw [JBufCall.relabel, jbufStep, jbufStep, rtpjbufUdpIn, rtpjbufUdpIn, purgeStaleTail_relabel,
      hparse]
    dsimp only
    rw [Option.bind_some, Option.bind_some, Option.toList_map]
    by_cases herr : firstViolated (rules buf) ≠ .ok
    · have hrej : (JBufCall.udpIn data buf).rejected = true := by
        rw [JBufCall.rejected, parsed_of_error hparse herr]
        rfl
      rw [if_pos herr, if_pos herr, if_pos hrej]
      rfl
    · have hrej : ¬ (JBufCall.udpIn data buf).rejected = true := by
        rw [not_not] at herr
        rw [herr] at hparse
        rw [JBufCall.rejected, parsed_of_ok hparse]
        exact Bool.false_ne_true
      rw [if_neg herr, if_neg herr, if_neg hrej]
      exact udpInParsed_relabel f k _ info data _
  | flush => exact rtpjbufFlush_relabel f k s

end Rtp
