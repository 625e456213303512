/-
The erasure frames of the jitter buffer: when one is delivered, and the
timestamp span it carries.

`rtpjbuf_udp_in` delivers no erasure before the first packet: its release is
guarded by the warm-up flag.  `rtpjbuf_flush` has no such guard, and takes the
all-ones `last_lseq` of a new buffer for the number in front of `0`:

* `Yields` — what a call delivers, as far as erasures go, `jbufStep_yields`;
* `jbufRun_first_frame` — the first frame of a run is a packet exactly when a
  flush that comes before any delivery finds the numbers `0, 1, .., n - 1`, or
  nothing; `jbufRun_first_frame_erasure` is a run that starts with an erasure.

The span is a product of two 32-bit numbers, divided:

* `ersFrame` — the erasure between two packets, `jbufRun_erasures`;
* `ers_span` — the frame holds the exact share of the timestamp distance
  exactly when the product fits; `ers_span_overflow` is a frame that does not.
-/
import LibRtpSynth.JBufDelivery

open CWords Runs

namespace Rtp

variable {s s' : RtpjbufInst} {r : RjbUdpInR} {fp : RtpPacket} {drop : List RtpPacket}
  {call : JBufCall} {calls : List JBufCall} {outs : List RjbUdpInR} {capacity : ℕ}

/-! ### What a call delivers -/

/-- What a call delivers: nothing, or a run of packets with an erasure in front
of it.  In `rtpjbuf_udp_in` there is no erasure during warm-up. -/
inductive Yields (s : RtpjbufInst) (call : JBufCall) (s' : RtpjbufInst) (ready : List RtpFrame) :
    Prop
  | nothing (hready : ready = []) (hlast : s'.lastLseq = s.lastLseq) (hts : s'.lastTs = s.lastTs)
      (hhead : call = .flush → s.head = [])
  | packets (es : List RtpFrame) (f₀ : RtpPacket) (run : List RtpPacket) (ifp : RtpPacket)
      (hfirst : (run ++ [ifp]).head? = some f₀)
      (hready : ready = es ++ (run ++ [ifp]).map .rtp)
      (hlast : s'.lastLseq = ifp.lseq) (hts : s'.lastTs = ifp.info.ts)
      (hes : es = [] ∨ es = ersBefore s f₀) (hwarm : call ≠ .flush → s.lastLseq = lrsDefault → es = [])
      (hflush : call = .flush → es = ersBefore s f₀ ∧
        ∃ front, s.head = front ++ (run ++ [ifp]) ∧ (run ++ [ifp]).IsChain Follows ∧
          ∀ q ∈ front.getLast?, ¬ Follows q f₀)

theorem ersBefore_congr {t : RtpjbufInst} (hlast : t.lastLseq = s.lastLseq) (hts : t.lastTs = s.lastTs) :
    ersBefore t fp = ersBefore s fp := by
  rw [ersBefore, ersBefore, insertErsFrame, insertErsFrame, hlast, hts]

theorem Placed.yields (hp : Placed s fp drop s' r) (data : ℕ) (buf : List UInt8) :
    Yields s (.udpIn data buf) s' r.ready := by
  cases hp with
  | late | lateDup | dup | hold | insert => exact .nothing rfl rfl rfl nofun
  | deliver hhead hmax hnext =>
    exact .packets [] fp [] fp rfl rfl rfl rfl (.inl rfl) (fun _ _ => rfl) nofun
  | release pre post f₀ run ifp next hins hrel =>
    have hers : ersBefore (insertedInst s fp pre post) f₀ = ersBefore s f₀ := ersBefore_congr rfl rfl
    refine .packets _ f₀ run ifp hrel.first rfl rfl rfl ?_ (fun _ hwarm => if_pos hwarm) nofun
    rw [hers]
    split
    · exact .inl rfl
    · exact .inr rfl

/-- **What a call delivers.** -/
theorem jbufStep_yields (hs : jbufStep s call = some (s', r)) : Yields s call s' r.ready := by
  have hpurge : ∀ t : RtpjbufInst, (purgeStaleTail t).2.lastTs = t.lastTs := by
    intro t
    rw [purgeStaleTail_eq]
  cases jbufStep_cases hs with
  | rejected => exact .nothing rfl (purgeStaleTail_lastLseq s) (hpurge s) nofun
  | @placed data buf _ _ info hparse hp =>
    have hlast := purgeStaleTail_lastLseq s
    have hts := hpurge s
    generalize (purgeStaleTail s).2 = t at *
    have hlast' : (assign t info.seq).1.lastLseq = s.lastLseq := (assign_lastLseq t _).trans hlast
    have hts' : (assign t info.seq).1.lastTs = s.lastTs := by
      rw [assign_eq]
      exact hts
    cases hp.yields data buf with
    | nothing hready h1 h2 _ => exact .nothing hready (h1.trans hlast') (h2.trans hts') nofun
    | packets es f₀ run ifp hfirst hready h1 h2 hes hwarm _ =>
      refine .packets es f₀ run ifp hfirst hready h1 h2 ?_ (fun _ h => hwarm nofun (hlast'.trans h)) nofun
      rwa [ersBefore_congr hlast' hts'] at hes
  | idle hhead => exact .nothing rfl rfl rfl fun _ => hhead
  | flushed front seg ifp f₀ drop hfl =>
    exact .packets _ f₀ seg ifp hfl.first rfl rfl rfl (.inr rfl) (fun h => absurd rfl h)
      fun _ => ⟨rfl, front, hfl.head, hfl.chain, hfl.gap⟩

/-! ### The first frame -/

/-- In a new buffer the number `0` is the one that needs no erasure. -/
theorem ersBefore_warm (hwarm : s.lastLseq = lrsDefault) : ersBefore s fp = [] ↔ fp.lseq = 0 := by
  have hzero : add64 s.lastLseq 1 = 0 := by rw [hwarm]; rfl
  rcases ersBefore_cases s fp with ⟨heq, hers⟩ | ⟨hne, e, hers, -⟩
  · rw [hers, ← heq, hzero]
    simp
  · rw [hers, ← hzero]
    simp [Ne.symm hne]

/-- The numbers in the buffer are ascending. -/
theorem asc_step (hasc : (lseqs s).Pairwise (· < ·)) (hs : jbufStep s call = some (s', r)) :
    (lseqs s').Pairwise (· < ·) := by
  have hpurge : (lseqs (purgeStaleTail s).2).Pairwise (· < ·) := by
    rcases purgeStaleTail_cases s with ⟨heq, -⟩ | ⟨prev, tail, hhead, -, ⟨-, heq⟩ | ⟨-, heq⟩⟩
    · rwa [heq]
    · rw [lseqs, hhead] at hasc
      rw [heq]
      simpa [lseqs, RtpPacket.aged] using hasc
    · rw [lseqs, hhead, List.map_append] at hasc
      rw [heq]
      exact (List.pairwise_append.mp hasc).1
  cases jbufStep_cases hs with
  | rejected => exact hpurge
  | placed info hparse hp =>
    have hassign : (lseqs (assign (purgeStaleTail s).2 info.seq).1).Pairwise (· < ·) := by
      rwa [lseqs_assign]
    cases hp with
    | late | lateDup | dup | deliver => exact hassign
    | hold => exact List.pairwise_singleton _ _
    | insert pre post hins => exact hins.asc hassign
    | release pre post f₀ run ifp next hins hrel =>
      have hall := hins.asc hassign
      rw [hrel.lseqs_eq] at hall
      exact (List.pairwise_cons.mp (List.pairwise_append.mp hall).2.1).2
  | idle => exact hasc
  | flushed => exact List.Pairwise.nil

/-- The numbers of a run of consecutive frames. -/
theorem numbers_of_chain : ∀ {frames : List RtpPacket} {f₀ : RtpPacket},
    (f₀ :: frames).IsChain Follows → ((f₀ :: frames).map RtpPacket.lseq).Pairwise (· < ·) →
    (f₀ :: frames).map RtpPacket.lseq = List.range' f₀.lseq (frames.length + 1) := by
  intro frames
  induction frames with
  | nil => exact fun _ _ => rfl
  | cons f frames ih =>
    intro f₀ hchain hasc
    obtain ⟨hf, hchain⟩ := List.isChain_cons_cons.mp hchain
    obtain ⟨hlt, hasc⟩ := List.pairwise_cons.mp hasc
    -- the number does not wrap, since it grows
    have hnext : f.lseq = f₀.lseq + 1 := by
      have hgt : f₀.lseq < f.lseq := hlt f.lseq List.mem_cons_self
      have hmod : f.lseq ≤ f₀.lseq + 1 := hf ▸ Nat.mod_le _ _
      omega
    rw [List.map_cons, ih hchain hasc, hnext]
    rfl

/-- The last run of the buffer starts with the number `0` exactly when the
buffer holds `0, 1, .., n - 1`. -/
theorem first_eq_zero_iff {front frames : List RtpPacket} {f₀ : RtpPacket}
    (hasc : (lseqs s).Pairwise (· < ·)) (hlen : s.head.length < 2 ^ 32)
    (hhead : s.head = front ++ frames) (hfirst : frames.head? = some f₀)
    (hchain : frames.IsChain Follows) (hgap : ∀ q ∈ front.getLast?, ¬ Follows q f₀) :
    f₀.lseq = 0 ↔ lseqs s = List.range s.head.length := by
  obtain ⟨frames, rfl⟩ := List.head?_eq_some_iff.mp hfirst
  rw [lseqs, hhead, List.map_append] at hasc ⊢
  obtain ⟨-, hasc₂, hlt⟩ := List.pairwise_append.mp hasc
  rcases List.eq_nil_or_concat front with rfl | ⟨front, q, rfl⟩
  · rw [List.map_nil, List.nil_append, List.nil_append, numbers_of_chain hchain hasc₂,
      List.length_cons, List.range_eq_range']
    constructor
    · intro hzero
      rw [hzero]
    · intro hrange
      exact List.head_eq_of_cons_eq hrange
  · rw [List.concat_eq_append] at *
    -- a frame in front of `0` would have a smaller number
    constructor
    · intro hzero
      have := hlt q.lseq (by simp) f₀.lseq (by simp)
      omega
    · intro hrange
      have hq : q.lseq = front.length := by
        have := congrArg (·[front.length]?) hrange
        simpa using this
      have hf₀ : f₀.lseq = front.length + 1 := by
        have := congrArg (·[front.length + 1]?) hrange
        simpa using this
      refine absurd ?_ (hgap q (by simp))
      rw [hhead] at hlen
      simp only [List.length_append, List.length_cons, List.length_nil] at hlen
      rw [Follows, hq, hf₀]
      exact add64_of_lt (by omega)

/-- The numbers `0, 1, .., n - 1`. -/
def FromZero (s : RtpjbufInst) : Prop := lseqs s = List.range s.head.length

/-- What holds in a run as long as nothing is delivered. -/
structure StartInv (outs : List RjbUdpInR) (s : RtpjbufInst) : Prop where
  size : SizeInv s
  asc : (lseqs s).Pairwise (· < ·)
  warm : stream outs = [] → s.lastLseq = lrsDefault

theorem startInv_ctor (hcap : capacity < 2 ^ 32) : StartInv [] (rtpjbufCtor capacity) where
  size := sizeInv_ctor hcap
  asc := List.Pairwise.nil
  warm := fun _ => rfl

theorem StartInv.step (h : StartInv outs s) (hs : jbufStep s call = some (s', r)) :
    StartInv (outs ++ [r]) s' := by
  refine ⟨h.size.step hs, asc_step h.asc hs, fun hnone => ?_⟩
  rw [stream_concat, List.append_eq_nil_iff] at hnone
  cases jbufStep_yields hs with
  | nothing hready hlast => rw [hlast, h.warm hnone.1]
  | packets es f₀ run ifp hfirst hready =>
    rw [hready] at hnone
    simp at hnone

/-- The first frame that a run delivers. -/
theorem StartInv.first (h : StartInv outs s) (hs : jbufStep s call = some (s', r))
    (hnone : stream outs = []) :
    (∀ f ∈ r.ready.head?, f.isRtp = true) ↔ (call = .flush → FromZero s) := by
  have hwarm := h.warm hnone
  cases jbufStep_yields hs with
  | nothing hready _ _ hhead =>
    rw [hready]
    refine iff_of_true (by simp) fun hcall => ?_
    rw [FromZero, lseqs, hhead hcall]
    rfl
  | packets es f₀ run ifp hfirst hready _ _ hes hudp hflush =>
    by_cases hcall : call = .flush
    · obtain ⟨rfl, front, hhead, hchain, hgap⟩ := hflush hcall
      rw [FromZero, ← first_eq_zero_iff h.asc h.size.length_lt hhead hfirst hchain hgap,
        ← ersBefore_warm hwarm, hready]
      rcases ersBefore_cases s f₀ with ⟨-, hers⟩ | ⟨-, e, hers, -⟩
      · rw [hers, List.nil_append, List.head?_map, hfirst]
        simp [RtpFrame.isRtp]
      · rw [hers]
        simp [RtpFrame.isRtp, hcall]
    · rw [hready, hudp hcall hwarm, List.nil_append, List.head?_map, hfirst]
      simp [RtpFrame.isRtp, hcall]

/-- **The first delivered frame is a packet**, whichever call delivers it,
exactly when no flush that comes before any delivery finds other numbers than
`0, 1, .., n - 1`. -/
theorem jbufRun_first_frame (hcap : capacity < 2 ^ 32)
    (hrun : run jbufStep (rtpjbufCtor capacity) calls = some (s, outs)) :
    (∀ f ∈ (stream outs).head?, f.isRtp = true) ↔
      ∀ earlier later u os, calls = earlier ++ .flush :: later →
        run jbufStep (rtpjbufCtor capacity) earlier = some (u, os) → stream os = [] → FromZero u := by
  have htrue : Always jbufStep (fun _ _ => True) (rtpjbufCtor capacity) calls :=
    Always.of_forall fun _ _ _ => trivial
  refine (run_induction (fun calls outs s =>
    run jbufStep (rtpjbufCtor capacity) calls = some (s, outs) ∧ StartInv outs s ∧
      ((∀ f ∈ (stream outs).head?, f.isRtp = true) ↔
        ∀ earlier later u os, calls = earlier ++ .flush :: later →
          run jbufStep (rtpjbufCtor capacity) earlier = some (u, os) → stream os = [] → FromZero u))
    ⟨rfl, startInv_ctor hcap, by simp [stream]⟩ ?_ htrue hrun).2.2
  rintro calls outs s call s' r ⟨hrun, hinv, hiff⟩ - hs
  refine ⟨run_concat_eq_some.mpr ⟨s, outs, r, hrun, hs, rfl⟩, hinv.step hs, ?_⟩
  -- the flushes of the longer run are those of the shorter one, and the last call
  have hsplit : (∀ earlier later u os, calls ++ [call] = earlier ++ .flush :: later →
      run jbufStep (rtpjbufCtor capacity) earlier = some (u, os) → stream os = [] → FromZero u) ↔
      (∀ earlier later u os, calls = earlier ++ .flush :: later →
        run jbufStep (rtpjbufCtor capacity) earlier = some (u, os) → stream os = [] → FromZero u) ∧
      (call = .flush → stream outs = [] → FromZero s) := by
    constructor
    · intro h
      refine ⟨fun earlier later u os heq => h earlier (later ++ [call]) u os (by simp [heq]), ?_⟩
      rintro rfl hnone
      exact h calls [] s outs rfl hrun hnone
    · rintro ⟨hold, hnew⟩ earlier later u os heq hu hnone
      rcases concat_eq_append_cons heq with ⟨rfl, rfl⟩ | ⟨later', hlater⟩
      · rw [hrun] at hu
        obtain ⟨rfl, rfl⟩ := Prod.mk.inj (Option.some.inj hu)
        exact hnew rfl hnone
      · exact hold earlier later' u os hlater hu hnone
  rw [hsplit, ← hiff, stream_concat]
  by_cases hnone : stream outs = []
  · rw [hnone, List.nil_append]
    simp only [List.head?_nil, Option.mem_def, reduceCtorEq, false_implies, implies_true, true_and,
      true_implies]
    exact hinv.first hs hnone
  · rw [List.head?_append_of_ne_nil _ hnone]
    simp [hnone]

theorem jbufRun_first_frame_flushed :
    ∃ s outs, run jbufStep (rtpjbufCtor 4)
        [.udpIn 0 (datagram 1), .udpIn 1 (datagram 0), .flush] = some (s, outs) ∧
      (stream outs).length = 2 ∧ ∀ f ∈ (stream outs).head?, f.isRtp = true := by
  have hrun : (run jbufStep (rtpjbufCtor 4)
      [.udpIn 0 (datagram 1), .udpIn 1 (datagram 0), .flush]).isSome := by decide
  have hsome := (Option.some_get hrun).symm
  refine ⟨_, _, hsome, by decide, (jbufRun_first_frame (by decide) hsome).mpr ?_⟩
  intro earlier later u os heq hu hnone
  -- the only flush is the last call
  obtain rfl : earlier = [.udpIn 0 (datagram 1), .udpIn 1 (datagram 0)] := by
    rcases earlier with _ | ⟨a, _ | ⟨b, _ | ⟨c, _ | ⟨d, earlier⟩⟩⟩⟩ <;> simp_all
  have hstate : (run jbufStep (rtpjbufCtor 4) [.udpIn 0 (datagram 1), .udpIn 1 (datagram 0)]).map
      (fun p => (lseqs p.1, p.1.head.length)) = some ([0, 1], 2) := by decide
  rw [hu, Option.map_some] at hstate
  obtain ⟨hls, hlen⟩ := Prod.mk.inj (Option.some.inj hstate)
  rw [FromZero, hls, hlen]
  rfl

/-- The first packet a buffer is given does not carry the number 0, and the
buffer is flushed: an erasure for the numbers in front of it is delivered
first. -/
theorem jbufRun_first_frame_erasure :
    ∃ s outs, run jbufStep (rtpjbufCtor 3) [.udpIn 0 (datagram 5), .flush] = some (s, outs) ∧
      (stream outs).head? = some (.ers ⟨0, 4, 0⟩) ∧
      ¬ ∀ f ∈ (stream outs).head?, f.isRtp = true := by
  have hrun : (run jbufStep (rtpjbufCtor 3) [.udpIn 0 (datagram 5), .flush]).isSome := by decide
  exact ⟨_, _, (Option.some_get hrun).symm, by decide, by decide⟩

/-! ### The timestamp span -/

theorem ersTsDiff_sub (lastTs ts : UInt32) : ersTsDiff lastTs ts = some (ts - lastTs) := by
  rw [ersTsDiff]
  split
  · rename_i hgt
    have hlt : ts.toNat < lastTs.toNat := hgt
    have hbound := lastTs.toNat_lt
    -- the timestamp has wrapped between the two packets
    refine dAssert_eq_some.mpr ⟨by omega, congrArg some (UInt32.toNat_inj.mp ?_)⟩
    rw [UInt32.toNat_ofNat', UInt32.toNat_sub]
    omega
  · rfl

/-- The number of packets that an erasure covers. -/
def ErsFrame.missing (e : ErsFrame) : ℕ := add64 (sub64 e.lseqEnd e.lseqStart) 1

/-- The erasure between the packet with the number `lastLseq` and the timestamp
`lastTs`, and the packet `fp`. -/
def ersFrame (lastLseq : ℕ) (lastTs : UInt32) (fp : RtpPacket) : ErsFrame :=
  let lseqStart := add64 lastLseq 1
  let lseqEnd := sub64 fp.lseq 1
  let lseqDiff := UInt32.ofNat (add64 (sub64 lseqEnd lseqStart) 1)
  ⟨lseqStart, lseqEnd, (fp.info.ts - lastTs) * lseqDiff / (lseqDiff + 1)⟩

theorem insertErsFrame_ers (hgap : add64 s.lastLseq 1 ≠ fp.lseq) (rest : List RtpPacket) :
    insertErsFrame s fp rest =
      some (.ers (ersFrame s.lastLseq s.lastTs fp) :: (fp :: rest).map .rtp) := by
  rw [insertErsFrame, if_neg hgap, ersTsDiff_sub, Option.map_some]
  rfl

theorem ersBefore_of_ne (hgap : add64 s.lastLseq 1 ≠ fp.lseq) :
    ersBefore s fp = [.ers (ersFrame s.lastLseq s.lastTs fp)] := by
  rw [ersBefore, insertErsFrame_ers hgap]
  rfl

theorem ersBefore_eq (s : RtpjbufInst) (fp : RtpPacket) :
    ersBefore s fp = [] ∨ ersBefore s fp = [.ers (ersFrame s.lastLseq s.lastTs fp)] := by
  rcases ersBefore_cases s fp with ⟨-, hers⟩ | ⟨hne, -⟩
  · exact .inl hers
  · exact .inr (ersBefore_of_ne hne)

theorem ersFrame_missing (lastLseq : ℕ) (lastTs : UInt32) (fp : RtpPacket) :
    (ersFrame lastLseq lastTs fp).missing = sub64 fp.lseq (add64 lastLseq 1) := by
  show add64 (sub64 (sub64 fp.lseq 1) (add64 lastLseq 1)) 1 = _
  unfold add64 sub64
  omega

theorem ersFrame_tsDiff (lastLseq : ℕ) (lastTs : UInt32) (fp : RtpPacket) :
    (ersFrame lastLseq lastTs fp).tsDiff.toNat =
      (fp.info.ts - lastTs).toNat * ((ersFrame lastLseq lastTs fp).missing % 2 ^ 32) % 2 ^ 32 /
        (((ersFrame lastLseq lastTs fp).missing % 2 ^ 32 + 1) % 2 ^ 32) := by
  show (_ * UInt32.ofNat _ / (UInt32.ofNat _ + 1)).toNat = _
  rw [UInt32.toNat_div, UInt32.toNat_mul, UInt32.toNat_add, UInt32.toNat_ofNat']
  rfl

/-- The division of `insert_ers_frame` does not trap. -/
def ErsFrame.Divides (e : ErsFrame) : Prop := UInt32.ofNat e.missing + 1 ≠ 0

theorem divides_iff {e : ErsFrame} : e.Divides ↔ e.missing % 2 ^ 32 + 1 < 2 ^ 32 := by
  have hlt := Nat.mod_lt e.missing (show 0 < 2 ^ 32 by norm_num)
  rw [ErsFrame.Divides, Ne, ← UInt32.toNat_inj, UInt32.toNat_add, UInt32.toNat_ofNat']
  show ¬ (e.missing % 2 ^ 32 + 1) % 2 ^ 32 = 0 ↔ _
  omega

/-- When the span of an erasure is exact, for the timestamp distance `d` and the
number `g` of missing packets: the divisor is not zero, the product fits, and
the number of packets fits or all but one timestamp is in the span anyway. -/
def SpanFits (d g : ℕ) : Prop :=
  g % 2 ^ 32 + 1 < 2 ^ 32 ∧ d * (g % 2 ^ 32) < 2 ^ 32 ∧ (g < 2 ^ 32 ∨ d ≤ g % 2 ^ 32 + 1)

/-- **The arithmetic of the span.** -/
theorem span_eq_iff {d g : ℕ} (hd : d < 2 ^ 32) (hg : g % 2 ^ 32 + 1 < 2 ^ 32) :
    d * (g % 2 ^ 32) % 2 ^ 32 / ((g % 2 ^ 32 + 1) % 2 ^ 32) = d * g / (g + 1) ↔ SpanFits d g := by
  rw [Nat.mod_eq_of_lt hg, SpanFits, and_iff_right hg]
  by_cases hlt : g < 2 ^ 32
  · rw [Nat.mod_eq_of_lt hlt] at hg ⊢
    rw [mod_div_eq_iff (Nat.succ_pos g) hg.le, and_iff_left (.inl hlt)]
  · rcases Nat.eq_zero_or_pos d with rfl | hpos
    · simp
    -- so many packets are missing that all but one timestamp is in the span
    rw [(mul_div_succ_eq_iff hpos).mpr (show d ≤ g + 1 by omega), or_iff_right hlt]
    constructor
    · intro heq
      have hfits : d * (g % 2 ^ 32) < 2 ^ 32 := by
        by_contra hover
        have hlost := mod_div_lt (Nat.succ_pos (g % 2 ^ 32)) hg.le (not_lt.mp hover)
        have hle := @mul_div_succ_le d (g % 2 ^ 32)
        rw [heq] at hlost
        exact absurd hlost (not_lt.mpr hle)
      rw [Nat.mod_eq_of_lt hfits] at heq
      exact ⟨hfits, (mul_div_succ_eq_iff hpos).mp heq⟩
    · rintro ⟨hfits, hle⟩
      rw [Nat.mod_eq_of_lt hfits]
      exact (mul_div_succ_eq_iff hpos).mpr hle

theorem ersFrame_exact_iff (lastLseq : ℕ) (lastTs : UInt32) (fp : RtpPacket) :
    ((ersFrame lastLseq lastTs fp).Divides ∧
      (ersFrame lastLseq lastTs fp).tsDiff.toNat =
        (fp.info.ts - lastTs).toNat * (ersFrame lastLseq lastTs fp).missing /
          ((ersFrame lastLseq lastTs fp).missing + 1)) ↔
      SpanFits (fp.info.ts - lastTs).toNat (ersFrame lastLseq lastTs fp).missing := by
  rw [divides_iff, ersFrame_tsDiff]
  constructor
  · rintro ⟨hdiv, heq⟩
    exact (span_eq_iff (UInt32.toNat_lt _) hdiv).mp heq
  · intro hfits
    exact ⟨hfits.1, (span_eq_iff (UInt32.toNat_lt _) hfits.1).mpr hfits⟩

/-- With a constant step the span is a multiple of the step. -/
theorem spanFits_step {t g : ℕ} (h : t * (g + 1) < 2 ^ 32) :
    SpanFits (t * (g + 1)) g ↔ t * (g + 1) * g < 2 ^ 32 ∧ g % 2 ^ 32 + 1 < 2 ^ 32 := by
  rw [SpanFits]
  rcases Nat.eq_zero_or_pos t with rfl | hpos
  · simp
  · have hg : g + 1 < 2 ^ 32 := lt_of_le_of_lt (Nat.le_mul_of_pos_left (g + 1) hpos) h
    rw [Nat.mod_eq_of_lt (show g < 2 ^ 32 by omega)]
    constructor
    · rintro ⟨h1, h2, -⟩
      exact ⟨h2, h1⟩
    · rintro ⟨h1, h2⟩
      exact ⟨h2, h1, .inl (by omega)⟩

/-! ### The erasures of a run -/

/-- The last delivered frame is the packet that `last_lseq` and `last_ts` are
taken from, and an erasure behind another frame stands between two packets. -/
structure Spanned (frames : List RtpFrame) (s : RtpjbufInst) : Prop where
  last : frames = [] ∨
    ∃ p, frames.getLast? = some (.rtp p) ∧ p.lseq = s.lastLseq ∧ p.info.ts = s.lastTs
  ers : ∀ pre e post, frames = pre ++ .ers e :: post → pre ≠ [] →
    ∃ p q, .rtp p ∈ frames ∧ .rtp q ∈ frames ∧ e = ersFrame p.lseq p.info.ts q

/-- The erasure of a ready list is its first frame. -/
theorem split_ready {es as post : List RtpFrame} {packets : List RtpPacket} {e : ErsFrame} {f : RtpFrame}
    (hes : es = [] ∨ es = [f]) (h : es ++ packets.map .rtp = as ++ .ers e :: post) :
    as = [] ∧ f = .ers e := by
  have hno : ∀ as, packets.map RtpFrame.rtp ≠ as ++ .ers e :: post := by
    intro as heq
    have hmem : RtpFrame.ers e ∈ packets.map RtpFrame.rtp := by rw [heq]; simp
    obtain ⟨p, -, hp⟩ := List.mem_map.mp hmem
    cases hp
  rcases hes with rfl | rfl
  · exact absurd h (hno as)
  · rcases as with _ | ⟨a, as⟩
    · exact ⟨rfl, (List.cons.inj h).1⟩
    · exact absurd (List.cons.inj h).2 (hno as)

theorem Spanned.step {frames : List RtpFrame} (h : Spanned frames s)
    (hs : jbufStep s call = some (s', r)) : Spanned (frames ++ r.ready) s' := by
  cases jbufStep_yields hs with
  | nothing hready hlast hts =>
    rw [hready, List.append_nil]
    refine ⟨?_, h.ers⟩
    rw [hlast, hts]
    exact h.last
  | packets es f₀ run ifp hfirst hready hlast hts hes =>
    rw [hready]
    refine ⟨.inr ⟨ifp, by simp, hlast.symm, hts.symm⟩, fun pre e post heq hpre => ?_⟩
    have hf₀ : RtpFrame.rtp f₀ ∈ frames ++ (es ++ (run ++ [ifp]).map .rtp) := by
      refine List.mem_append_right _ (List.mem_append_right _ (List.mem_map_of_mem ?_))
      exact List.mem_of_head? hfirst
    have hes' : es = [] ∨ es = [.ers (ersFrame s.lastLseq s.lastTs f₀)] := by
      rcases hes with hes | rfl
      · exact .inl hes
      · exact ersBefore_eq s f₀
    -- a new erasure comes first in the ready list, behind the last delivered packet
    have hnew : ∀ as, pre = frames ++ as → es ++ (run ++ [ifp]).map .rtp = as ++ .ers e :: post →
        ∃ p q, .rtp p ∈ frames ++ (es ++ (run ++ [ifp]).map .rtp) ∧
          .rtp q ∈ frames ++ (es ++ (run ++ [ifp]).map .rtp) ∧ e = ersFrame p.lseq p.info.ts q := by
      intro as hpre' hready'
      obtain ⟨rfl, heq⟩ := split_ready hes' hready'
      rw [List.append_nil] at hpre'
      rcases h.last with hnil | ⟨p, hp, h1, h2⟩
      · exact absurd (hpre'.trans hnil) hpre
      · refine ⟨p, f₀, List.mem_append_left _ (List.mem_of_getLast? hp), hf₀, ?_⟩
        rw [h1, h2]
        exact (RtpFrame.ers.inj heq).symm
    rcases List.append_eq_append_iff.mp heq with ⟨as, hpre', hready'⟩ | ⟨bs, hframes, hready'⟩
    · exact hnew as hpre' hready'
    · rcases bs with _ | ⟨b, bs⟩
      · rw [List.append_nil] at hframes
        exact hnew [] (by rw [hframes, List.append_nil]) hready'.symm
      · obtain ⟨rfl, -⟩ := List.cons.inj hready'
        obtain ⟨p, q, hp, hq, he⟩ := h.ers pre e bs hframes hpre
        exact ⟨p, q, List.mem_append_left _ hp, List.mem_append_left _ hq, he⟩

theorem jbufRun_erasures (hrun : run jbufStep (rtpjbufCtor capacity) calls = some (s, outs)) :
    Spanned (stream outs) s := by
  have htrue : Always jbufStep (fun _ _ => True) (rtpjbufCtor capacity) calls :=
    Always.of_forall fun _ _ _ => trivial
  refine run_induction (fun _ outs s => Spanned (stream outs) s) ⟨.inl rfl, by simp [stream]⟩ ?_
    htrue hrun
  intro calls outs s call s' r h _ hs
  rw [stream_concat]
  exact h.step hs

theorem mem_delivered {p : RtpPacket} (h : RtpFrame.rtp p ∈ stream outs) : p ∈ delivered outs := by
  obtain ⟨r, hr, hp⟩ := List.mem_flatMap.mp h
  exact List.mem_flatMap.mpr ⟨r, hr, List.mem_filterMap.mpr ⟨.rtp p, hp, rfl⟩⟩

/-- The timestamp distance of two packets of a stream with a constant step. -/
theorem step_distance {c : UInt32} {t : ℕ} {p q : RtpPacket}
    (hp : p.info.ts = c + .ofNat (t * p.lseq)) (hq : q.info.ts = c + .ofNat (t * q.lseq)) :
    (q.info.ts - p.info.ts).toNat = t * (sub64 q.lseq (add64 p.lseq 1) + 1) % 2 ^ 32 := by
  have hmod : p.lseq + (sub64 q.lseq (add64 p.lseq 1) + 1) ≡ q.lseq [MOD 2 ^ 32] := by
    unfold Nat.ModEq sub64 add64
    omega
  have hmul := hmod.mul_left t
  rw [mul_add, Nat.ModEq] at hmul
  rw [hp, hq, UInt32.toNat_sub, UInt32.toNat_add, UInt32.toNat_add, UInt32.toNat_ofNat',
    UInt32.toNat_ofNat']
  omega

/-- **The timestamp span of an erasure.**  In a stream with the constant step
`t` an erasure of `g` packets behind a packet spans `t * g` exactly when
`t * (g + 1) * g` fits.  Whatever it is called with, `insert_ers_frame` stores
the share `g / (g + 1)` of the distance exactly when the product fits. -/
theorem ers_span (hrun : run jbufStep (rtpjbufCtor capacity) calls = some (s, outs)) (c : UInt32) (t : ℕ)
    (hstep : ∀ p ∈ delivered outs, p.info.ts = c + .ofNat (t * p.lseq)) :
    (∀ pre e post, stream outs = pre ++ .ers e :: post → pre ≠ [] → t * (e.missing + 1) < 2 ^ 32 →
      ((e.Divides ∧ e.tsDiff.toNat = t * e.missing) ↔
        t * (e.missing + 1) * e.missing < 2 ^ 32 ∧ e.missing % 2 ^ 32 + 1 < 2 ^ 32)) ∧
    ∀ (u : RtpjbufInst) (fp : RtpPacket) (rest : List RtpPacket), add64 u.lastLseq 1 ≠ fp.lseq →
      ∃ e, insertErsFrame u fp rest = some (.ers e :: (fp :: rest).map .rtp) ∧
        e.missing = sub64 fp.lseq (add64 u.lastLseq 1) ∧
        ((e.Divides ∧ e.tsDiff.toNat = (fp.info.ts - u.lastTs).toNat * e.missing / (e.missing + 1)) ↔
          SpanFits (fp.info.ts - u.lastTs).toNat e.missing) := by
  constructor
  · intro pre e post heq hpre hlt
    obtain ⟨p, q, hp, hq, rfl⟩ := (jbufRun_erasures hrun).ers pre e post heq hpre
    have hdist := step_distance (hstep p (mem_delivered hp)) (hstep q (mem_delivered hq))
    have hexact := ersFrame_exact_iff p.lseq p.info.ts q
    rw [← ersFrame_missing p.lseq p.info.ts q] at hdist
    rw [hdist, Nat.mod_eq_of_lt hlt, spanFits_step hlt] at hexact
    rw [← hexact]
    -- the share of the distance is what the missing packets take
    rw [show t * ((ersFrame p.lseq p.info.ts q).missing + 1) * (ersFrame p.lseq p.info.ts q).missing =
        t * (ersFrame p.lseq p.info.ts q).missing * ((ersFrame p.lseq p.info.ts q).missing + 1) by ring,
      Nat.mul_div_cancel _ (Nat.succ_pos _)]
  · intro u fp rest hgap
    exact ⟨_, insertErsFrame_ers hgap rest, ersFrame_missing _ _ _, ersFrame_exact_iff _ _ _⟩

/-- A datagram with no payload that carries the sequence number `seq` and the
timestamp `ts`. -/
def stampedDatagram (seq : UInt16) (ts : UInt32) : List UInt8 :=
  [0x80, 0] ++ htons seq ++ htonl ts ++ [0, 0, 0, 1]

/-- The packets `0` and `n` of a stream with the step 160, and a flush. -/
def gapRun (n : ℕ) : List JBufCall :=
  [.udpIn 0 (stampedDatagram 0 0), .udpIn 1 (stampedDatagram (.ofNat n) (.ofNat (160 * n))), .flush]

/-- The packet `n` of that stream. -/
def gapPacket (n data : ℕ) : RtpPacket :=
  ⟨⟨0, 12, -1, .ofNat (160 * n), .ofNat n, 1, 1, some 0⟩, n, 0, data⟩

theorem ers_span_short :
    ∃ s outs pre e post, run jbufStep (rtpjbufCtor 3) (gapRun 3) = some (s, outs) ∧
      stream outs = pre ++ .ers e :: post ∧ e.missing = 2 ∧ e.Divides ∧ e.tsDiff.toNat = 160 * 2 := by
  have hrun : (run jbufStep (rtpjbufCtor 3) (gapRun 3)).map (fun p => (stream p.2, delivered p.2)) =
      some ([.rtp (gapPacket 0 0), .ers ⟨1, 2, 320⟩, .rtp (gapPacket 3 1)],
        [gapPacket 0 0, gapPacket 3 1]) := by decide
  obtain ⟨⟨s, outs⟩, hrun, heq⟩ := Option.map_eq_some_iff.mp hrun
  obtain ⟨hstream, hdelivered⟩ := Prod.mk.inj heq
  have hexact := (ers_span hrun 0 160 (by rw [hdelivered]; decide)).1 [_] _ _ hstream (by decide)
    (by decide)
  exact ⟨s, outs, [_], _, _, hrun, hstream, by decide, hexact.mpr (by decide)⟩

/-- 5200 packets are missing, which is 104 s of a stream with 20 ms packets at
8 kHz: the product `832160 * 5200` does not fit, and the span is 6203 where
832000 timestamps are missing. -/
theorem ers_span_overflow :
    ∃ s outs p e q, run jbufStep (rtpjbufCtor 3) (gapRun 5201) = some (s, outs) ∧
      (∀ p ∈ delivered outs, p.info.ts = 0 + .ofNat (160 * p.lseq)) ∧
      stream outs = [.rtp p, .ers e, .rtp q] ∧ e.missing = 5200 ∧ 160 * (e.missing + 1) < 2 ^ 32 ∧
      e.tsDiff.toNat = 6203 ∧ e.tsDiff.toNat ≠ 160 * e.missing := by
  have hrun : (run jbufStep (rtpjbufCtor 3) (gapRun 5201)).map (fun p => (stream p.2, delivered p.2)) =
      some ([.rtp (gapPacket 0 0), .ers ⟨1, 5200, 6203⟩, .rtp (gapPacket 5201 1)],
        [gapPacket 0 0, gapPacket 5201 1]) := by decide
  obtain ⟨⟨s, outs⟩, hrun, heq⟩ := Option.map_eq_some_iff.mp hrun
  obtain ⟨hstream, hdelivered⟩ := Prod.mk.inj heq
  exact ⟨s, outs, _, _, _, hrun, by rw [hdelivered]; decide, hstream, by decide, by decide, by decide,
    by decide⟩

end Rtp
