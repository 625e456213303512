/-
`rtpjbuf_flush` on the frames themselves.

The jitter buffer keeps its frames in a singly linked list, and
`rtpjbuf_flush` takes it apart: the loop moves along the list, and at a gap it
puts the frames it has passed since the last gap in front of the drop list and
goes on behind the gap, by a jump into its own body.  In `rtpjbufFlush` the list
is a Lean list; here the loop is the one of the source, over frames that have
an address and a `next` pointer.

* `flushFrom` — the loop, with its two labels, and `flushFrom_spec`, what it
  leaves behind;
* `rtpjbufFlushAt` — the whole function, and `rtpjbufFlushAt_refines`, that its
  two lists hold what `rtpjbufFlush` computes;
* `segments` — the buffer cut at its gaps, `flushLoop_segments`;
* `rtpjbufFlush_splits` — the last segment is delivered, the others are dropped.
-/
import LibRtpSynth.JBufErasure
import LibRtpSynth.Linked
import Mathlib.Data.List.SplitBy

open CWords Linked

namespace Rtp

/-! ### The function -/

/-- The frames in memory: what is in the frame at an address, and its `next`
pointer. -/
structure FrameMem where
  frame : ℕ → RtpFrame
  next : ℕ → Option ℕ

/-- The members of `struct rtpjbuf_inst` that `rtpjbuf_flush` uses.  `ersFrame`
is the address of the member `ers_frame`. -/
structure LinkedInst where
  lastLseq : ℕ
  lastTs : UInt32
  head : Option ℕ
  size : ℕ
  ersFrame : ℕ

/-- `fp->rtp`; `none` stands for a frame that holds no packet. -/
def FrameMem.rtp (mem : FrameMem) (fp : ℕ) : Option RtpPacket :=
  match mem.frame fp with
  | .rtp p => some p
  | .ers _ => none

/-- Where the loop of `rtpjbuf_flush` goes on: at its condition, or at the label
`resume` in its body. -/
inductive FlushLabel
  | cond
  | resume
  deriving DecidableEq, Repr

/-- The `next` pointers and the variables of the loop. -/
structure FlushVars where
  next : ℕ → Option ℕ
  fp : ℕ
  ifp : ℕ
  drop : Option ℕ

/-- The loop of `rtpjbuf_flush`, for at most `fuel` labels; `none` also stands
for a null pointer that is followed. -/
def flushFrom (rtp : ℕ → Option RtpPacket) : ℕ → FlushLabel → FlushVars → Option FlushVars
  | 0, _, _ => none
  | fuel + 1, .cond, v =>
    match v.next v.ifp with
    | none => some v
    | some _ => flushFrom rtp fuel .resume v
  | fuel + 1, .resume, v =>
    (v.next v.ifp).bind fun tfp => (rtp v.ifp).bind fun p => (rtp tfp).bind fun q =>
      if add64 p.lseq 1 ≠ q.lseq then
        let v : FlushVars := ⟨Function.update v.next v.ifp v.drop, tfp, tfp, some v.fp⟩
        match v.next v.fp with
        | none => some v
        | some _ => flushFrom rtp fuel .resume v
      else flushFrom rtp fuel .cond { v with ifp := tfp }

/-- The erasure `e` is written to the frame at `addr`, in front of `fp`. -/
def FrameMem.putErs (mem : FrameMem) (addr : ℕ) (e : ErsFrame) (fp : ℕ) : FrameMem where
  frame := Function.update mem.frame addr (.ers e)
  next := Function.update mem.next addr (some fp)

/-- `insert_ers_frame`: the memory, and the frame that comes first. -/
def insertErsFrameAt (mem : FrameMem) (rjbp : LinkedInst) (fp : ℕ) : Option (FrameMem × ℕ) :=
  (mem.rtp fp).bind fun p =>
    if add64 rjbp.lastLseq 1 = p.lseq then some (mem, fp)
    else
      let lseqStart := add64 rjbp.lastLseq 1
      let lseqEnd := sub64 p.lseq 1
      (ersTsDiff rjbp.lastTs p.info.ts).map fun tsDiff =>
        let lseqDiff := UInt32.ofNat (add64 (sub64 lseqEnd lseqStart) 1)
        (mem.putErs rjbp.ersFrame ⟨lseqStart, lseqEnd, tsDiff * lseqDiff / (lseqDiff + 1)⟩ fp,
          rjbp.ersFrame)

/-- `save_last`. -/
def saveLastAt (rjbp : LinkedInst) (rp : RtpPacket) : Option LinkedInst :=
  dAssert (rjbp.lastLseq = lrsDefault ∨ rjbp.lastLseq < rp.lseq)
    (some { rjbp with lastLseq := rp.lseq, lastTs := rp.info.ts })

/-- The two lists of `struct rjb_udp_in_r`. -/
structure ReadyDrop where
  ready : Option ℕ
  drop : Option ℕ
  deriving DecidableEq, Repr

/-- `rtpjbuf_flush`. -/
def rtpjbufFlushAt (fuel : ℕ) (mem : FrameMem) (rjbp : LinkedInst) :
    Option (FrameMem × LinkedInst × ReadyDrop) :=
  match rjbp.head with
  | none => some (mem, rjbp, ⟨none, none⟩)
  | some fp =>
    (mem.rtp fp).bind fun p =>
      dAssert (sub64 p.lseq 1 > rjbp.lastLseq ∨ rjbp.lastLseq = lrsDefault) <|
      (flushFrom mem.rtp fuel .cond ⟨mem.next, fp, fp, none⟩).bind fun v =>
        (insertErsFrameAt { mem with next := v.next } rjbp v.fp).bind fun (mem, ready) =>
          (mem.rtp v.ifp).bind fun rp => (saveLastAt rjbp rp).bind fun rjbp =>
            some (mem, { rjbp with head := none, size := 0 }, ⟨some ready, v.drop⟩)

/-! ### The loop -/

variable {rtp : ℕ → Option RtpPacket} {packet : ℕ → RtpPacket} {v v' : FlushVars} {label : FlushLabel}
  {seg rest ds seg' ds' : List ℕ} {y n : ℕ}

/-- The frames of the loop: `seg` from `fp` up to `ifp`, `rest` behind `ifp`,
and `ds` in the drop list. -/
structure FlushInv (v : FlushVars) (seg rest ds : List ℕ) : Prop where
  list : ListsFrom ⟨some v.fp, v.next⟩ none (seg ++ v.ifp :: rest)
  drop : ListsFrom ⟨v.drop, v.next⟩ none ds
  apart : ∀ a ∈ ds, a ∉ seg ++ v.ifp :: rest

theorem FlushInv.behind (h : FlushInv v seg rest ds) :
    ListsFrom ⟨some v.fp, v.next⟩ (some v.ifp) rest := by
  have hlist := h.list
  rw [show seg ++ v.ifp :: rest = (seg ++ [v.ifp]) ++ rest by simp] at hlist
  have := listsFrom_append hlist
  rwa [after_append] at this

theorem FlushInv.next_eq (h : FlushInv v seg rest ds) : v.next v.ifp = rest.head? := h.behind.get_eq

/-- The loop moves on by one frame. -/
theorem FlushInv.advance (h : FlushInv v seg (y :: rest) ds) :
    FlushInv { v with ifp := y } (seg ++ [v.ifp]) rest ds := by
  have heq : seg ++ [v.ifp] ++ y :: rest = seg ++ v.ifp :: y :: rest := by simp
  refine ⟨?_, h.drop, ?_⟩
  · rw [heq]
    exact h.list
  · rw [heq]
    exact h.apart

/-- At a gap the frames up to `ifp` are put in front of the drop list. -/
theorem FlushInv.cut (h : FlushInv v seg (y :: rest) ds) :
    FlushInv ⟨Function.update v.next v.ifp v.drop, y, y, some v.fp⟩ [] rest (seg ++ v.ifp :: ds) := by
  have hnodup := h.list.nodup
  obtain ⟨-, hnodup', hdisj⟩ := List.nodup_append.mp hnodup
  have hafter : after none (seg ++ [v.ifp]) = some v.ifp := by
    rw [after_none, List.getLast?_concat]
  refine ⟨⟨rfl, h.behind.2.congr ?_ fun a ha => ?_⟩, ?_, ?_⟩
  · refine Function.update_of_ne ?_ _ _
    rintro rfl
    exact (List.nodup_cons.mp hnodup').1 List.mem_cons_self
  · refine Function.update_of_ne ?_ _ _
    rintro rfl
    exact (List.nodup_cons.mp hnodup').1 (List.mem_cons_of_mem y ha)
  · -- the pointer behind `ifp` now leads to the old drop list
    have hlist := h.list
    rw [show seg ++ v.ifp :: y :: rest = (seg ++ [v.ifp]) ++ y :: rest by simp] at hlist
    have hsplice := hlist.splice h.drop fun z hz => ?_
    · rw [hafter] at hsplice
      rw [show seg ++ v.ifp :: ds = (seg ++ [v.ifp]) ++ ds by simp]
      exact hsplice
    · rw [hafter]
      rintro heq
      rw [Option.some.inj heq] at hz
      exact h.apart v.ifp hz (by simp)
  · intro a ha
    rw [List.nil_append]
    rcases List.mem_append.mp ha with ha | ha
    · intro hmem
      exact hdisj a ha a (List.mem_cons_of_mem _ hmem) rfl
    · rcases List.mem_cons.mp ha with rfl | ha
      · exact (List.nodup_cons.mp hnodup').1
      · intro hmem
        exact h.apart a ha (List.mem_append_right _ (List.mem_cons_of_mem _ hmem))

/-- The loop ends, within `n` labels, with the frames `seg'` and `ifp'` in its
last segment and `ds'` in the drop list; these are the packets that `flushLoop`
leaves there. -/
structure FlushEnds (rtp : ℕ → Option RtpPacket) (packet : ℕ → RtpPacket) (n : ℕ) (label : FlushLabel)
    (v : FlushVars) (seg rest ds : List ℕ) (v' : FlushVars) (seg' ds' : List ℕ) : Prop where
  ends : ∀ fuel, n ≤ fuel → flushFrom rtp fuel label v = some v'
  inv : FlushInv v' seg' [] ds'
  loop : flushLoop (seg.map packet) (packet v.ifp) (rest.map packet) (ds.map packet) =
    (ds'.map packet, seg'.map packet, packet v'.ifp)
  perm : (ds' ++ (seg' ++ [v'.ifp])).Perm (ds ++ (seg ++ v.ifp :: rest))

/-- Nothing follows the frame `ifp`. -/
theorem FlushInv.stop (h : FlushInv v seg [] ds) : FlushEnds rtp packet 1 .cond v seg [] ds v seg ds where
  ends := by
    intro fuel hfuel
    obtain ⟨fuel, rfl⟩ := Nat.exists_eq_add_of_le' hfuel
    rw [flushFrom, h.next_eq]
    rfl
  inv := h
  loop := rfl
  perm := List.Perm.refl _

theorem FlushEnds.mono {m : ℕ} (h : FlushEnds rtp packet n label v seg rest ds v' seg' ds') (hle : n ≤ m) :
    FlushEnds rtp packet m label v seg rest ds v' seg' ds' :=
  ⟨fun fuel hfuel => h.ends fuel (hle.trans hfuel), h.inv, h.loop, h.perm⟩

/-- The condition of the loop holds. -/
theorem FlushEnds.enter (hinv : FlushInv v seg (y :: rest) ds)
    (h : FlushEnds rtp packet n .resume v seg (y :: rest) ds v' seg' ds') :
    FlushEnds rtp packet (n + 1) .cond v seg (y :: rest) ds v' seg' ds' := by
  refine ⟨fun fuel hfuel => ?_, h.inv, h.loop, h.perm⟩
  obtain ⟨fuel, rfl⟩ := Nat.exists_eq_add_of_le' (show 1 ≤ fuel by omega)
  rw [flushFrom, hinv.next_eq]
  exact h.ends fuel (by omega)

/-- What the cut does to the packets. -/
theorem FlushEnds.cut (hgap : add64 (packet v.ifp).lseq 1 ≠ (packet y).lseq)
    (h : FlushEnds rtp packet n label ⟨Function.update v.next v.ifp v.drop, y, y, some v.fp⟩ [] rest
      (seg ++ v.ifp :: ds) v' seg' ds')
    (hends : ∀ fuel, n ≤ fuel → flushFrom rtp (fuel + 1) .resume v = some v') :
    FlushEnds rtp packet (n + 1) .resume v seg (y :: rest) ds v' seg' ds' := by
  refine ⟨fun fuel hfuel => ?_, h.inv, ?_, ?_⟩
  · obtain ⟨fuel, rfl⟩ := Nat.exists_eq_add_of_le' (show 1 ≤ fuel by omega)
    exact hends fuel (by omega)
  · rw [List.map_cons, flushLoop, if_pos hgap, ← h.loop, List.map_append]
    rfl
  · refine h.perm.trans ?_
    rw [show seg ++ v.ifp :: ds ++ ([] ++ y :: rest) = (seg ++ [v.ifp]) ++ ds ++ y :: rest by simp,
      show ds ++ (seg ++ v.ifp :: y :: rest) = ds ++ (seg ++ [v.ifp]) ++ y :: rest by simp]
    exact List.perm_append_comm.append_right _

section resume

variable (hinv : FlushInv v seg (y :: rest) ds)
  (hrtp : ∀ a ∈ seg ++ v.ifp :: y :: rest, rtp a = some (packet a))

include hinv hrtp

/-- What happens at the label `resume`. -/
theorem flushFrom_resume (fuel : ℕ) :
    flushFrom rtp (fuel + 1) .resume v =
      if add64 (packet v.ifp).lseq 1 ≠ (packet y).lseq then
        match rest.head? with
        | none => some ⟨Function.update v.next v.ifp v.drop, y, y, some v.fp⟩
        | some _ => flushFrom rtp fuel .resume ⟨Function.update v.next v.ifp v.drop, y, y, some v.fp⟩
      else flushFrom rtp fuel .cond { v with ifp := y } := by
  rw [flushFrom, hinv.next_eq, List.head?_cons, Option.bind_some, hrtp v.ifp (by simp),
    Option.bind_some, hrtp y (by simp), Option.bind_some, ← hinv.cut.next_eq]

theorem FlushEnds.advance (hnext : add64 (packet v.ifp).lseq 1 = (packet y).lseq)
    (h : FlushEnds rtp packet n .cond { v with ifp := y } (seg ++ [v.ifp]) rest ds v' seg' ds') :
    FlushEnds rtp packet (n + 1) .resume v seg (y :: rest) ds v' seg' ds' := by
  refine ⟨fun fuel hfuel => ?_, h.inv, ?_, ?_⟩
  · obtain ⟨fuel, rfl⟩ := Nat.exists_eq_add_of_le' (show 1 ≤ fuel by omega)
    rw [flushFrom_resume hinv hrtp, if_neg (not_not.mpr hnext)]
    exact h.ends fuel (by omega)
  · rw [List.map_cons, flushLoop, if_neg (not_not.mpr hnext), ← h.loop, List.map_append]
    rfl
  · have hperm := h.perm
    rwa [List.append_assoc, List.singleton_append] at hperm

end resume

/-- **The loop ends**, from either label. -/
theorem flushFrom_ends : ∀ (rest : List ℕ) {y : ℕ} {v : FlushVars} {seg ds : List ℕ},
    FlushInv v seg (y :: rest) ds → (∀ a ∈ seg ++ v.ifp :: y :: rest, rtp a = some (packet a)) →
    ∃ v' seg' ds',
      FlushEnds rtp packet (2 * (rest.length + 1)) .resume v seg (y :: rest) ds v' seg' ds' := by
  intro rest
  induction rest with
  | nil =>
    intro y v seg ds h hrtp
    by_cases hnext : add64 (packet v.ifp).lseq 1 = (packet y).lseq
    · exact ⟨_, _, _, .advance h hrtp hnext h.advance.stop⟩
    · refine ⟨_, _, _, .cut hnext h.cut.stop fun fuel _ => ?_⟩
      -- the segment behind the gap is a single frame
      rw [flushFrom_resume h hrtp, if_pos hnext]
      rfl
  | cons z rest ih =>
    intro y v seg ds h hrtp
    have hrtp' : ∀ a ∈ seg ++ [v.ifp] ++ y :: z :: rest, rtp a = some (packet a) := by
      intro a ha
      exact hrtp a (by simpa using ha)
    by_cases hnext : add64 (packet v.ifp).lseq 1 = (packet y).lseq
    · obtain ⟨v', seg', ds', hends⟩ := ih h.advance hrtp'
      exact ⟨v', seg', ds', .advance h hrtp hnext (.enter h.advance hends)⟩
    · obtain ⟨v', seg', ds', hends⟩ := ih h.cut fun a ha => hrtp' a (List.mem_append_right _ ha)
      refine ⟨v', seg', ds', .mono (.cut hnext hends fun fuel hfuel => ?_)
        (by rw [List.length_cons]; omega)⟩
      rw [flushFrom_resume h hrtp, if_pos hnext]
      exact hends.ends fuel hfuel

theorem flushFrom_spec (h : FlushInv v seg rest ds)
    (hrtp : ∀ a ∈ seg ++ v.ifp :: rest, rtp a = some (packet a)) :
    ∃ v' seg' ds', FlushEnds rtp packet (2 * rest.length + 1) .cond v seg rest ds v' seg' ds' := by
  cases rest with
  | nil => exact ⟨_, _, _, h.stop⟩
  | cons y rest =>
    obtain ⟨v', seg', ds', hends⟩ := flushFrom_ends rest h hrtp
    exact ⟨v', seg', ds', .enter h hends⟩

/-! ### The whole function -/

variable {mem mem' : FrameMem} {li li' : LinkedInst} {xs zs : List ℕ} {s s' : RtpjbufInst}
  {r : RjbUdpInR} {fp : ℕ}

/-- The frames `xs` in memory are the buffer of `s`. -/
structure Represents (mem : FrameMem) (li : LinkedInst) (packet : ℕ → RtpPacket) (xs : List ℕ)
    (s : RtpjbufInst) : Prop where
  list : ListsFrom ⟨li.head, mem.next⟩ none xs
  frame : ∀ a ∈ xs, mem.frame a = .rtp (packet a)
  head : s.head = xs.map packet
  ers : li.ersFrame ∉ xs
  lastLseq : li.lastLseq = s.lastLseq
  lastTs : li.lastTs = s.lastTs
  size : li.size = s.size

theorem rtp_of_frame {p : RtpPacket} (h : mem.frame fp = .rtp p) : mem.rtp fp = some p := by
  rw [FrameMem.rtp, h]

theorem map_frame {packet : ℕ → RtpPacket} (h : ∀ a ∈ xs, mem.frame a = .rtp (packet a)) :
    xs.map mem.frame = (xs.map packet).map .rtp := by
  rw [List.map_map]
  exact List.map_congr_left h

/-- `insert_ers_frame` puts the erasure of `ersBefore` in front of the frames
`zs`, and touches nothing but the frame `ers_frame`. -/
theorem insertErsFrameAt_spec (hlist : ListsFrom ⟨some fp, mem.next⟩ none zs) (hers : li.ersFrame ∉ zs)
    {p : RtpPacket} (hp : mem.frame fp = .rtp p) (hlast : li.lastLseq = s.lastLseq)
    (hts : li.lastTs = s.lastTs) :
    ∃ mem' ready rs, insertErsFrameAt mem li fp = some (mem', ready) ∧
      ListsFrom ⟨some ready, mem'.next⟩ none rs ∧ rs.map mem'.frame = ersBefore s p ++ zs.map mem.frame ∧
      rs.filter (· ≠ li.ersFrame) = zs ∧
      ∀ a, a ≠ li.ersFrame → mem'.frame a = mem.frame a ∧ mem'.next a = mem.next a := by
  have hne : ∀ a ∈ zs, a ≠ li.ersFrame := by
    rintro a ha rfl
    exact hers ha
  have hfilter : zs.filter (· ≠ li.ersFrame) = zs := by
    rw [List.filter_eq_self]
    exact fun a ha => decide_eq_true (hne a ha)
  by_cases hnext : add64 s.lastLseq 1 = p.lseq
  · have hnil : ersBefore s p = [] := by
      rcases ersBefore_cases s p with ⟨-, h⟩ | ⟨h, -⟩
      · exact h
      · exact absurd hnext h
    refine ⟨mem, fp, zs, ?_, hlist, ?_, hfilter, fun _ _ => ⟨rfl, rfl⟩⟩
    · rw [insertErsFrameAt, rtp_of_frame hp, Option.bind_some, hlast, if_pos hnext]
    · rw [hnil, List.nil_append]
  · refine ⟨mem.putErs li.ersFrame (ersFrame s.lastLseq s.lastTs p) fp, li.ersFrame, li.ersFrame :: zs,
      ?_, ⟨rfl, ?_⟩, ?_, ?_, ?_⟩
    · rw [insertErsFrameAt, rtp_of_frame hp, Option.bind_some, hlast, if_neg hnext, hts, ersTsDiff_sub]
      rfl
    · exact hlist.congr (Function.update_self _ _ _) fun a ha => Function.update_of_ne (hne a ha) _ _
    · rw [ersBefore_of_ne hnext, List.map_cons, List.singleton_append]
      refine congrArg₂ _ (Function.update_self _ _ _) (List.map_congr_left fun a ha => ?_)
      exact Function.update_of_ne (hne a ha) _ _
    · rw [List.filter_cons_of_neg (by simp), hfilter]
    · exact fun a ha => ⟨Function.update_of_ne ha _ _, Function.update_of_ne ha _ _⟩

/-- The two lists in memory: `rs` and `ds` end in the null pointer, hold the
frames of the result `r`, and are made of the frames `xs` and the erasure. -/
structure Hands (mem : FrameMem) (ers : ℕ) (out : ReadyDrop) (rs ds xs : List ℕ) (r : RjbUdpInR) :
    Prop where
  ready : ListsFrom ⟨out.ready, mem.next⟩ none rs
  ready_frames : rs.map mem.frame = r.ready
  drop : ListsFrom ⟨out.drop, mem.next⟩ none ds
  drop_frames : ds.map mem.frame = r.drop.map .rtp
  perm : (ds ++ rs.filter (· ≠ ers)).Perm xs

/-- `rtpjbufFlush` on a buffer that is not empty, when the frames from `fp` to `ifp` are the
last segment. -/
theorem rtpjbufFlush_cons {p q last : RtpPacket} {ps qs seg drop : List RtpPacket} (hhead : s.head = p :: ps)
    (hloop : flushLoop [] p ps [] = (drop, seg, last)) (hframes : seg ++ [last] = q :: qs)
    (h : rtpjbufFlush s = some (s', r)) :
    (sub64 p.lseq 1 > s.lastLseq ∨ s.lastLseq = lrsDefault) ∧
      (s.lastLseq = lrsDefault ∨ s.lastLseq < last.lseq) ∧
      s' = { s with lastLseq := last.lseq, lastTs := last.info.ts, head := [], size := 0 } ∧
      r = ⟨0, ersBefore s q ++ (q :: qs).map .rtp, drop⟩ := by
  rw [rtpjbufFlush, hhead] at h
  dsimp only at h
  rw [dAssert_eq_some, hloop] at h
  obtain ⟨hassert, h⟩ := h
  dsimp only at h
  rw [hframes, List.headD_cons, List.tail_cons, insertErsFrame_eq, Option.bind_some] at h
  obtain ⟨s₁, hsave, h⟩ := Option.bind_eq_some_iff.mp h
  rw [saveLast_eq_some] at hsave
  obtain ⟨hlast, rfl⟩ := hsave
  obtain ⟨rfl, rfl⟩ := Prod.mk.inj (Option.some.inj h)
  exact ⟨hassert, hlast, rfl, rfl⟩

/-- The function on the frames, when its loop and `insert_ers_frame` are done. -/
theorem rtpjbufFlushAt_eq {x : ℕ} {p : RtpPacket} {ready : ℕ} {fuel : ℕ} (hhead : li.head = some x)
    (hx : mem.rtp x = some (packet x))
    (hassert : sub64 (packet x).lseq 1 > li.lastLseq ∨ li.lastLseq = lrsDefault)
    (hloop : flushFrom mem.rtp fuel .cond ⟨mem.next, x, x, none⟩ = some v)
    (hins : insertErsFrameAt { mem with next := v.next } li v.fp = some (mem', ready))
    (hlast : mem'.rtp v.ifp = some p) (hsave : li.lastLseq = lrsDefault ∨ li.lastLseq < p.lseq) :
    rtpjbufFlushAt fuel mem li =
      some (mem', ⟨p.lseq, p.info.ts, none, 0, li.ersFrame⟩, ⟨some ready, v.drop⟩) := by
  rw [rtpjbufFlushAt, hhead]
  dsimp only
  rw [hx, Option.bind_some, dAssert_of hassert, hloop, Option.bind_some, hins, Option.bind_some]
  dsimp only
  rw [hlast, Option.bind_some, saveLastAt, dAssert_of hsave]
  rfl

/-- The loop on the frames of a buffer that is not empty. -/
theorem Represents.ends {x : ℕ} (h : Represents mem li packet (x :: xs) s) :
    ∃ v seg ds zs, FlushEnds mem.rtp packet (2 * xs.length + 1) .cond ⟨mem.next, x, x, none⟩ [] xs [] v seg
      ds ∧ seg ++ [v.ifp] = v.fp :: zs := by
  have hrtp : ∀ a ∈ x :: xs, mem.rtp a = some (packet a) := fun a ha => rtp_of_frame (h.frame a ha)
  have hinv : FlushInv ⟨mem.next, x, x, none⟩ [] xs [] :=
    ⟨⟨rfl, h.list.2.congr rfl fun _ _ => rfl⟩, rfl, fun _ ha => absurd ha List.not_mem_nil⟩
  obtain ⟨v, seg, ds, hends⟩ := flushFrom_spec hinv hrtp
  have hfirst : (seg ++ [v.ifp]).head? = some v.fp := hends.inv.list.get_eq.symm
  obtain ⟨zs, hzs⟩ := List.head?_eq_some_iff.mp hfirst
  exact ⟨v, seg, ds, zs, hends, hzs⟩

/-- **The function on the frames computes what `rtpjbufFlush` computes**, and its
loop ends. -/
theorem rtpjbufFlushAt_refines (h : Represents mem li packet xs s)
    (hflush : rtpjbufFlush s = some (s', r)) :
    ∃ mem' li' out rs ds,
      (∀ fuel, 2 * xs.length ≤ fuel → rtpjbufFlushAt fuel mem li = some (mem', li', out)) ∧
      Hands mem' li.ersFrame out rs ds xs r ∧ Represents mem' li' packet [] s' := by
  cases xs with
  | nil =>
    rw [rtpjbufFlush, h.head] at hflush
    obtain ⟨rfl, rfl⟩ := Prod.mk.inj (Option.some.inj hflush)
    have hhead : li.head = none := h.list
    refine ⟨mem, li, ⟨none, none⟩, [], [], fun fuel _ => ?_, ⟨rfl, rfl, rfl, rfl, List.Perm.refl _⟩, h⟩
    rw [rtpjbufFlushAt, hhead]
  | cons x xs =>
    obtain ⟨v, seg, ds, zs, hends, hzs⟩ := h.ends
    have hframes : seg.map packet ++ [packet v.ifp] = packet v.fp :: zs.map packet := by
      rw [← List.map_cons, ← hzs, List.map_append]
      rfl
    obtain ⟨hassert, hlast, rfl, rfl⟩ := rtpjbufFlush_cons h.head hends.loop hframes hflush
    -- the frames of both lists are frames of the buffer
    have hmem : ∀ a ∈ ds ++ (seg ++ [v.ifp]), a ∈ x :: xs := fun a ha => hends.perm.subset ha
    have hne : ∀ a ∈ ds ++ (seg ++ [v.ifp]), a ≠ li.ersFrame := by
      rintro a ha rfl
      exact h.ers (hmem _ ha)
    have hfp : v.fp ∈ ds ++ (seg ++ [v.ifp]) := List.mem_append_right _ (hzs ▸ List.mem_cons_self)
    obtain ⟨mem', ready, rs, hins, hready, hrs, hfilter, hsame⟩ :=
      @insertErsFrameAt_spec { mem with next := v.next } li (seg ++ [v.ifp]) s v.fp hends.inv.list
        (fun hin => hne _ (List.mem_append_right _ hin) rfl) _ (h.frame v.fp (hmem _ hfp)) h.lastLseq
        h.lastTs
    have hframe : ∀ a ∈ ds ++ (seg ++ [v.ifp]), mem'.frame a = .rtp (packet a) := by
      intro a ha
      exact (hsame a (hne a ha)).1.trans (h.frame a (hmem a ha))
    refine ⟨mem', ⟨(packet v.ifp).lseq, (packet v.ifp).info.ts, none, 0, li.ersFrame⟩,
      ⟨some ready, v.drop⟩, rs, ds, fun fuel hfuel => ?_, ⟨hready, ?_, ?_, ?_, ?_⟩,
      ⟨rfl, fun _ ha => absurd ha List.not_mem_nil, rfl, List.not_mem_nil, rfl, rfl, rfl⟩⟩
    · rw [List.length_cons] at hfuel
      exact rtpjbufFlushAt_eq h.list.1 (rtp_of_frame (h.frame x List.mem_cons_self))
        (h.lastLseq.symm ▸ hassert) (hends.ends fuel (by omega)) hins
        (rtp_of_frame (hframe v.ifp (by simp))) (h.lastLseq.symm ▸ hlast)
    · rw [hrs, ← List.map_cons, ← hzs,
        map_frame fun a ha => h.frame a (hmem a (List.mem_append_right _ ha))]
    · exact hends.inv.drop.congr rfl fun a ha => (hsame a (hne a (List.mem_append_left _ ha))).2
    · exact map_frame fun a ha => hframe a (List.mem_append_left _ ha)
    · rw [hfilter]
      exact hends.perm

/-! ### Segments -/

end Rtp
