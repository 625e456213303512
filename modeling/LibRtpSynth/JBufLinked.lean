/-
The jitter buffer on the frames themselves.

`rtpjbuf_udp_in` keeps its frames in a singly linked list: it allocates a frame for the
datagram, looks for its place from the head on, links it in, and cuts off the frames that
are due.  In `JBuf` the list is a Lean list; here it is made of frames that have an address
and a `next` pointer, and the loops are those of the source.

A frame that is allocated holds a packet.  Where the memory has no frame, or one that was
freed, an access finds no packet, and the function comes to `none`; so it does when it
follows a null pointer, and when one of its assertions fails.

* `purgeStaleTailAt`, `udpInParsedAt`, `rtpjbufUdpInAt` — the functions on the frames;
* `rtpjbufUdpInAt_refines`, `flushAt_refines`, `dtorLoop_eq` — they do what the functions on
  Lean lists do, and `Outcome` says where every frame went.
-/
import LibRtpSynth.JBufFlush

open CWords Linked Runs

namespace Rtp

/-! ### The functions -/

/-- `struct rtpjbuf_inst` with the pointer to its first frame. -/
structure LinkedBuf extends LinkedInst where
  lastMaxLseq : ℕ
  lseqMask : ℕ
  capacity : ℕ
  dropDup : ℕ
  dropLate : ℕ
  dropPerror : ℕ
  seqWup : ℕ

/-- The head and the pointers of the list. -/
def LinkedBuf.links (rjbp : LinkedBuf) (mem : FrameMem) : Links ℕ := ⟨rjbp.head, mem.next⟩

/-- A packet is written to a frame. -/
def FrameMem.putRtp (mem : FrameMem) (fp : ℕ) (p : RtpPacket) : FrameMem :=
  { mem with frame := Function.update mem.frame fp (.rtp p) }

/-- The pointer of a frame is written. -/
def FrameMem.putNext (mem : FrameMem) (fp : ℕ) (next : Option ℕ) : FrameMem :=
  { mem with next := Function.update mem.next fp next }

/-- What stands for memory without a frame: no packet. -/
def noFrame : RtpFrame := .ers ⟨0, 0, 0⟩

/-- `free`. -/
def FrameMem.free (mem : FrameMem) (fp : ℕ) : FrameMem :=
  { mem with frame := Function.update mem.frame fp noFrame }

/-- What a call comes to: the memory, the instance, and the members of `struct rjb_udp_in_r`. -/
structure LinkedResult where
  mem : FrameMem
  rjbp : LinkedBuf
  error : ℤ
  out : ReadyDrop

/-- `purge_stale_tail`, for a list of less than `fuel` frames. -/
def purgeStaleTailAt (fuel : ℕ) (mem : FrameMem) (rjbp : LinkedBuf) :
    Option (FrameMem × LinkedBuf × Option ℕ) :=
  if rjbp.head = none ∨ rjbp.size < sub32 rjbp.capacity 1 then some (mem, rjbp, none)
  else
    -- the link of the last frame: `prev`, or the head
    (walk (rjbp.links mem) (fun fp => (mem.rtp fp).map fun _ => (mem.next fp).isNone) fuel none).bind
      fun prev => ((rjbp.links mem).get prev).bind fun fp => (mem.rtp fp).bind fun p =>
        let p := { p with jbcnt := add64 p.jbcnt 1 }
        let mem := mem.putRtp fp p
        if p.jbcnt < rjbp.capacity then some (mem, rjbp, none)
        else
          let links := (rjbp.links mem).set prev none
          let mem := { mem with next := links.next }
          (if rjbp.lastMaxLseq = p.lseq then
              prev.elim (some lmsDefault) fun prev => (mem.rtp prev).map RtpPacket.lseq
            else some rjbp.lastMaxLseq).map fun lastMaxLseq =>
              (mem.putNext fp none,
                { rjbp with
                  head := links.head
                  size := sub32 rjbp.size 1
                  lastMaxLseq := lastMaxLseq }, some fp)

/-- The conversion of a 16-bit sequence number. -/
def convertSeqAt (rjbp : LinkedBuf) (seq : UInt16) : LinkedBuf × ℕ :=
  let lseq := rjbp.lseqMask ||| seq.toNat
  if rjbp.lastMaxLseq % 65536 < 536 ∧ seq.toNat > 65000 then (rjbp, sub64 lseq 0x10000)
  else if rjbp.lastMaxLseq > 65000 ∧ lseq < sub64 rjbp.lastMaxLseq 65000 then
    ({ rjbp with
        lseqMask := add64 rjbp.lseqMask 0x10000
        seqWup := add64 rjbp.seqWup 1 },
      add64 lseq 0x10000)
  else (rjbp, lseq)

/-- `save_last`. -/
def LinkedBuf.saveLast (rjbp : LinkedBuf) (rp : RtpPacket) : Option LinkedBuf :=
  (saveLastAt rjbp.toLinkedInst rp).map fun inst => { rjbp with toLinkedInst := inst }

/-- The label `gotdup`. -/
def gotdupAt (mem : FrameMem) (rjbp : LinkedBuf) (fp : ℕ) (drop : Option ℕ) : Option LinkedResult :=
  some ⟨mem.putNext fp drop, { rjbp with dropDup := add64 rjbp.dropDup 1 }, 0, ⟨none, some fp⟩⟩

/-- The label `lms_init`; the frame `fp` holds `p`. -/
def lmsInitAt (mem : FrameMem) (rjbp : LinkedBuf) (fp : ℕ) (p : RtpPacket) (warmUp : Bool)
    (drop : Option ℕ) : Option LinkedResult :=
  let rjbp := { rjbp with lastMaxLseq := p.lseq }
  if !warmUp ∧ rjbp.lastLseq = sub64 p.lseq 1 then
    (rjbp.saveLast p).map fun rjbp => ⟨mem, rjbp, 0, ⟨some fp, drop⟩⟩
  else if warmUp ∧ p.lseq = 0 then
    dAssert (rjbp.lastLseq = lrsDefault)
      ((rjbp.saveLast p).map fun rjbp => ⟨mem, rjbp, 0, ⟨some fp, drop⟩⟩)
  else some ⟨mem, { rjbp with head := some fp, size := 1 }, 0, ⟨none, drop⟩⟩

/-- The loop over the frames that are released, from `ifp` on: the last of them, and what is
left of `jb.size`. -/
def releaseLoopAt (mem : FrameMem) : ℕ → ℕ → ℕ → Option (ℕ × ℕ)
  | 0, _, _ => none
  | fuel + 1, ifp, size =>
    match mem.next ifp with
    | none => some (ifp, size)
    | some next =>
      (mem.rtp ifp).bind fun p => (mem.rtp next).bind fun q =>
        if add64 p.lseq 1 ≠ q.lseq then some (ifp, size)
        else releaseLoopAt mem fuel next (sub32 size 1)

/-- The release of the frames at the head. -/
def releaseHeadAt (fuel : ℕ) (mem : FrameMem) (rjbp : LinkedBuf) (warmUp : Bool) (drop : Option ℕ) :
    Option LinkedResult :=
  rjbp.head.bind fun fp => (mem.rtp fp).bind fun p =>
    (releaseLoopAt mem fuel fp (sub32 rjbp.size 1)).bind fun (ifp, size) =>
      (mem.rtp ifp).bind fun rp =>
        let rjbp := { rjbp with head := mem.next ifp, size := size }
        dAssert (warmUp ∨ rjbp.lastLseq < p.lseq) <|
        dAssert (!warmUp ∨ rjbp.lastLseq = lmsDefault) <|
        (if warmUp then some (mem, fp) else insertErsFrameAt mem rjbp.toLinkedInst fp).bind
          fun (mem, ready) => (rjbp.saveLast rp).bind fun rjbp =>
            dAssert (if rjbp.head = none then rjbp.size = 0 else rjbp.size > 0) <|
            some ⟨mem.putNext ifp none, rjbp, 0, ⟨some ready, drop⟩⟩

/-- The frame `fp`, which holds `p`, is linked in between `ifpPre` and `ifp`; a frame behind the
tail is the new maximum. -/
def linkFrame (mem : FrameMem) (rjbp : LinkedBuf) (fp : ℕ) (p : RtpPacket) (ifpPre ifp : Option ℕ) :
    FrameMem × LinkedBuf :=
  let links := ((rjbp.links mem).set (some fp) ifp).set ifpPre (some fp)
  ({ mem with next := links.next },
    { rjbp with
      head := links.head
      lastMaxLseq := if ifp = none then p.lseq else rjbp.lastMaxLseq
      size := add32 rjbp.size 1 })

/-- The insertion into a list that is not empty, and the release it may cause.  `ifpPre` is
the link at which the loop stops, `ifp` the frame there. -/
def insertFrameAt (fuel : ℕ) (mem : FrameMem) (rjbp : LinkedBuf) (fp : ℕ) (p : RtpPacket)
    (warmUp : Bool) (drop : Option ℕ) : Option LinkedResult :=
  (walk (rjbp.links mem) (fun ifp => (mem.rtp ifp).map fun q => !decide (q.lseq < p.lseq)) fuel
    none).bind fun ifpPre =>
      let ifp := (rjbp.links mem).get ifpPre
      if (ifp.bind mem.rtp).map RtpPacket.lseq = some p.lseq then gotdupAt mem rjbp fp drop
      -- `ifp_pre->next`
      else if ifp = none ∧ ifpPre = none then none
      else
        dAssert (ifp ≠ none ∨ rjbp.lastMaxLseq < p.lseq) <|
        let (mem, rjbp) := linkFrame mem rjbp fp p ifpPre ifp
        (rjbp.head.bind mem.rtp).bind fun head =>
          if rjbp.size = rjbp.capacity ∨ (!warmUp ∧ head.lseq = add64 rjbp.lastLseq 1) then
            releaseHeadAt fuel mem rjbp warmUp drop
          else some ⟨mem, rjbp, 0, ⟨none, drop⟩⟩

/-- `rtpjbuf_udp_in` after the datagram is parsed into the frame `fp`. -/
def udpInParsedAt (fuel : ℕ) (mem : FrameMem) (rjbp : LinkedBuf) (fp : ℕ) (info : RtpInfo) (data : ℕ)
    (drop : Option ℕ) : Option LinkedResult :=
  let warmUp : Bool := rjbp.lastLseq = lrsDefault
  if rjbp.lastMaxLseq = lmsDefault then
    dAssert (rjbp.head = none) <|
    let p : RtpPacket := ⟨info, rjbp.lseqMask ||| info.seq.toNat, 0, data⟩
    lmsInitAt (mem.putRtp fp p) rjbp fp p warmUp drop
  else
    dAssert (∀ head ∈ rjbp.head, ∃ q ∈ mem.rtp head, warmUp ∨ sub64 q.lseq 1 > rjbp.lastLseq) <|
    let (rjbp, lseq) := convertSeqAt rjbp info.seq
    let p : RtpPacket := ⟨info, lseq, 0, data⟩
    let mem := mem.putRtp fp p
    if !warmUp ∧ p.lseq ≤ rjbp.lastLseq then
      if toInt32 (sub64 rjbp.lastLseq p.lseq) = 0 then gotdupAt mem rjbp fp drop
      else
        some ⟨mem.putNext fp drop, { rjbp with dropLate := add64 rjbp.dropLate 1 }, 0,
          ⟨none, some fp⟩⟩
    else if rjbp.head = none then
      dAssert (rjbp.size = 0) <|
      dAssert (rjbp.lastMaxLseq < p.lseq) <|
      lmsInitAt mem rjbp fp p warmUp drop
    else insertFrameAt fuel mem rjbp fp p warmUp drop

/-- `rtpjbuf_udp_in`, with the frame `fp` from `malloc`. -/
def rtpjbufUdpInAt (fuel : ℕ) (mem : FrameMem) (rjbp : LinkedBuf) (fp data : ℕ) (buf : List UInt8) :
    Option LinkedResult :=
  (purgeStaleTailAt fuel mem rjbp).bind fun (mem, rjbp, drop) =>
    -- `memset`
    let mem := mem.putNext fp none
    (rtpPacketParseRaw buf .zero).bind fun (perror, info) =>
      if perror ≠ .ok then
        some ⟨mem.free fp, { rjbp with dropPerror := add64 rjbp.dropPerror 1 }, perror.code,
          ⟨none, drop⟩⟩
      else udpInParsedAt fuel mem rjbp fp info data drop

/-! ### What the memory holds -/

variable {mem mem' : FrameMem} {rjbp rjbp' : LinkedBuf} {xs ds rs gone : List ℕ} {fp a fuel : ℕ}
  {drop : Option ℕ} {s' : RtpjbufInst} {r : RjbUdpInR} {p : RtpPacket}

/-- The packet in a frame. -/
def FrameMem.packet (mem : FrameMem) (a : ℕ) : RtpPacket := (mem.rtp a).getD ⟨.zero, 0, 0, 0⟩

theorem packet_of_frame (h : mem.frame a = .rtp p) : mem.packet a = p := by
  rw [FrameMem.packet, rtp_of_frame h, Option.getD_some]

theorem packet_congr (h : mem'.frame a = mem.frame a) : mem'.packet a = mem.packet a := by
  rw [FrameMem.packet, FrameMem.rtp, h]
  rfl

/-- The frame holds a packet. -/
def FrameMem.IsRtp (mem : FrameMem) (a : ℕ) : Prop := mem.frame a = .rtp (mem.packet a)

theorem isRtp_of_frame (h : mem.frame a = .rtp p) : mem.IsRtp a := by
  rw [FrameMem.IsRtp, packet_of_frame h]
  exact h

theorem FrameMem.IsRtp.congr (h : mem.IsRtp a) (heq : mem'.frame a = mem.frame a) : mem'.IsRtp a :=
  isRtp_of_frame (heq.trans h)

theorem FrameMem.IsRtp.rtp (h : mem.IsRtp a) : mem.rtp a = some (mem.packet a) := rtp_of_frame h

theorem map_packet_congr (h : ∀ a ∈ xs, mem'.frame a = mem.frame a) :
    xs.map mem'.packet = xs.map mem.packet :=
  List.map_congr_left fun a ha => packet_congr (h a ha)

/-- The instance with the packets `head` in its list. -/
def LinkedBuf.inst (rjbp : LinkedBuf) (head : List RtpPacket) : RtpjbufInst where
  lastLseq := rjbp.lastLseq
  lastTs := rjbp.lastTs
  lastMaxLseq := rjbp.lastMaxLseq
  lseqMask := rjbp.lseqMask
  head := head
  size := rjbp.size
  capacity := rjbp.capacity
  dropDup := rjbp.dropDup
  dropLate := rjbp.dropLate
  dropPerror := rjbp.dropPerror
  seqWup := rjbp.seqWup

/-- The frames `xs` are the list of the buffer. -/
structure BufList (mem : FrameMem) (rjbp : LinkedBuf) (xs : List ℕ) : Prop where
  list : ListsFrom (rjbp.links mem) none xs
  isRtp : ∀ a ∈ xs, mem.IsRtp a
  ers : rjbp.ersFrame ∉ xs

/-- The frames `ds` are a drop list. -/
structure DropList (mem : FrameMem) (drop : Option ℕ) (ds : List ℕ) : Prop where
  list : ListsFrom ⟨drop, mem.next⟩ none ds
  isRtp : ∀ a ∈ ds, mem.IsRtp a

theorem BufList.head_eq (h : BufList mem rjbp xs) : rjbp.head = xs.head? := h.list.get_eq

/-- The same frames in other memory. -/
theorem BufList.congr (h : BufList mem rjbp xs) (hhead : rjbp'.head = rjbp.head)
    (hers : rjbp'.ersFrame = rjbp.ersFrame)
    (hsame : ∀ a ∈ xs, mem'.frame a = mem.frame a ∧ mem'.next a = mem.next a) :
    BufList mem' rjbp' xs where
  list := h.list.congr hhead fun a ha => (hsame a ha).2
  isRtp a ha := (h.isRtp a ha).congr (hsame a ha).1
  ers := hers ▸ h.ers

theorem DropList.congr (h : DropList mem drop ds)
    (hsame : ∀ a ∈ ds, mem'.frame a = mem.frame a ∧ mem'.next a = mem.next a) : DropList mem' drop ds where
  list := h.list.congr rfl fun a ha => (hsame a ha).2
  isRtp a ha := (h.isRtp a ha).congr (hsame a ha).1

theorem frame_putRtp_self (mem : FrameMem) (a : ℕ) (p : RtpPacket) : (mem.putRtp a p).frame a = .rtp p :=
  Function.update_self _ _ _

theorem frame_putRtp_of_ne {b : ℕ} (hne : b ≠ a) (mem : FrameMem) (p : RtpPacket) :
    (mem.putRtp a p).frame b = mem.frame b := Function.update_of_ne hne _ _

/-- A packet is written to any frame. -/
theorem BufList.putRtp (h : BufList mem rjbp xs) (a : ℕ) (p : RtpPacket) : BufList (mem.putRtp a p) rjbp xs where
  list := h.list
  isRtp b hb := by
    by_cases hne : b = a
    · subst hne
      exact isRtp_of_frame (frame_putRtp_self mem b p)
    · exact (h.isRtp b hb).congr (frame_putRtp_of_ne hne mem p)
  ers := h.ers

/-! ### `purge_stale_tail` -/

/-- The tail is looked for. -/
theorem BufList.walk_tail {tail : ℕ} (h : BufList mem rjbp (xs ++ [tail])) (hfuel : xs.length < fuel) :
    walk (rjbp.links mem) (fun fp => (mem.rtp fp).map fun _ => (mem.next fp).isNone) fuel none =
        some xs.getLast? ∧
      (rjbp.links mem).get xs.getLast? = some tail := by
  have hlist := h.list
  have hnext : ∀ pre a post, xs ++ [tail] = pre ++ a :: post → mem.next a = post.head? := by
    intro pre a post heq
    rw [heq, show pre ++ a :: post = (pre ++ [a]) ++ post by simp] at hlist
    have hget := (listsFrom_append hlist).get_eq
    rwa [after_append] at hget
  refine ⟨?_, ?_⟩
  · rw [← after_none]
    refine walk_eq hlist (fun a ha => ?_) (fun a ha => ?_) hfuel
    · obtain ⟨pre, post, rfl⟩ := List.append_of_mem ha
      rw [(h.isRtp a (List.mem_append_left _ ha)).rtp, hnext pre a (post ++ [tail]) (by simp)]
      cases post <;> rfl
    · obtain rfl : tail = a := by simpa using ha
      rw [(h.isRtp tail (by simp)).rtp, hnext xs tail [] rfl]
      rfl
  · have hget := (listsFrom_append hlist).get_eq
    rwa [after_none] at hget

theorem purgeStaleTail_concat {s : RtpjbufInst} {prev : List RtpPacket} {tail : RtpPacket}
    (hhead : s.head = prev ++ [tail]) (hfull : sub32 s.capacity 1 ≤ s.size) :
    purgeStaleTail s =
      if tail.aged.jbcnt < s.capacity then (none, { s with head := prev ++ [tail.aged] })
      else (some tail.aged, purgedInst s prev tail) := by
  rw [purgeStaleTail, hhead, List.getLast?_concat]
  dsimp only
  rw [if_neg (not_lt.mpr hfull), List.dropLast_concat]
  rfl

/-- The memory and the instance when the frame `tail` was taken out behind `prev`. -/
def purgedAt (mem : FrameMem) (rjbp : LinkedBuf) (prev : List ℕ) (tail : ℕ) : FrameMem × LinkedBuf :=
  let links := (rjbp.links mem).set prev.getLast? none
  ({ mem.putRtp tail (mem.packet tail).aged with next := Function.update links.next tail none },
    { rjbp with
      head := links.head
      size := sub32 rjbp.size 1
      lastMaxLseq :=
        if rjbp.lastMaxLseq = (mem.packet tail).lseq then
          (prev.map mem.packet).getLast?.elim lmsDefault RtpPacket.lseq
        else rjbp.lastMaxLseq })

section tail

variable {prev : List ℕ} {tail : ℕ}

theorem purgeStaleTailAt_tail (h : BufList mem rjbp (prev ++ [tail])) (hfuel : prev.length < fuel)
    (hfull : sub32 rjbp.capacity 1 ≤ rjbp.size) :
    purgeStaleTailAt fuel mem rjbp =
      if (mem.packet tail).aged.jbcnt < rjbp.capacity then
        some (mem.putRtp tail (mem.packet tail).aged, rjbp, none)
      else
        some ((purgedAt mem rjbp prev tail).1, (purgedAt mem rjbp prev tail).2, some tail) := by
  have htail := h.isRtp tail (by simp)
  have hhead : rjbp.head ≠ none := by
    rw [h.head_eq]
    simp
  obtain ⟨hwalk, hget⟩ := h.walk_tail hfuel
  have hprev : (prev.getLast?.elim (some lmsDefault) fun a =>
      ((mem.putRtp tail (mem.packet tail).aged).rtp a).map RtpPacket.lseq) =
      some ((prev.map mem.packet).getLast?.elim lmsDefault RtpPacket.lseq) := by
    rcases List.eq_nil_or_concat prev with rfl | ⟨pre, a, rfl⟩
    · rfl
    · rw [List.concat_eq_append] at h ⊢
      have hne : a ≠ tail := by
        rintro rfl
        exact (List.nodup_append.mp h.list.nodup).2.2 a (by simp) a (by simp) rfl
      have ha : (mem.putRtp tail (mem.packet tail).aged).IsRtp a :=
        (h.isRtp a (by simp)).congr (frame_putRtp_of_ne hne mem _)
      rw [List.map_append, List.map_singleton, List.getLast?_concat, List.getLast?_concat]
      simp only [Option.elim_some]
      rw [ha.rtp, packet_congr (frame_putRtp_of_ne hne mem _)]
      rfl
  rw [purgeStaleTailAt, if_neg (not_or.mpr ⟨hhead, not_lt.mpr hfull⟩), hwalk, Option.bind_some, hget,
    Option.bind_some, htail.rtp, Option.bind_some]
  dsimp only
  refine if_congr Iff.rfl rfl ?_
  by_cases hmax : rjbp.lastMaxLseq = (mem.packet tail).lseq
  · rw [if_pos hmax]
    refine (congrArg (Option.map _) hprev).trans ?_
    rw [Option.map_some, purgedAt, if_pos hmax]
    rfl
  · rw [if_neg hmax, Option.map_some, purgedAt, if_neg hmax]
    rfl

/-- What is left when the tail was taken out, and the tail. -/
theorem BufList.purged (h : BufList mem rjbp (prev ++ [tail])) :
    BufList (purgedAt mem rjbp prev tail).1 (purgedAt mem rjbp prev tail).2 prev ∧
      DropList (purgedAt mem rjbp prev tail).1 (some tail) [tail] := by
  have hnot : ∀ a ∈ prev, a ≠ tail := by
    rintro a ha rfl
    exact (List.nodup_append.mp h.list.nodup).2.2 a ha a (by simp) rfl
  have hremove := h.list.remove
  have hnext : mem.next tail = none := by
    have hlist := h.list
    rw [show prev ++ [tail] = (prev ++ [tail]) ++ [] by simp] at hlist
    have hget := (listsFrom_append hlist).get_eq
    rwa [after_append] at hget
  rw [after_none, List.append_nil, show (rjbp.links mem).next tail = none from hnext] at hremove
  refine ⟨⟨hremove.congr rfl fun a ha => Function.update_of_ne (hnot a ha) _ _, fun a ha => ?_, ?_⟩,
    ⟨rfl, Function.update_self _ _ _⟩, fun a ha => ?_⟩
  · exact (h.isRtp a (List.mem_append_left _ ha)).congr (frame_putRtp_of_ne (hnot a ha) mem _)
  · exact fun hin => h.ers (List.mem_append_left _ hin)
  · obtain rfl := List.mem_singleton.mp ha
    exact isRtp_of_frame (frame_putRtp_self mem a _)

end tail

/-- `purge_stale_tail` on the frames: the frames `ds` leave the end of the list. -/
theorem purgeStaleTailAt_refines (h : BufList mem rjbp xs) (hfuel : xs.length ≤ fuel) :
    ∃ mem' rjbp' drop xs' ds purged,
      purgeStaleTailAt fuel mem rjbp = some (mem', rjbp', drop) ∧ xs = xs' ++ ds ∧
      BufList mem' rjbp' xs' ∧ DropList mem' drop ds ∧ rjbp'.ersFrame = rjbp.ersFrame ∧
      purgeStaleTail (rjbp.inst (xs.map mem.packet)) = (purged, rjbp'.inst (xs'.map mem'.packet)) ∧
      purged.toList = ds.map mem'.packet := by
  have hskip : rjbp.head = none ∨ rjbp.size < sub32 rjbp.capacity 1 →
      purgeStaleTail (rjbp.inst (xs.map mem.packet)) = (none, rjbp.inst (xs.map mem.packet)) →
      ∃ mem' rjbp' drop xs' ds purged,
        purgeStaleTailAt fuel mem rjbp = some (mem', rjbp', drop) ∧ xs = xs' ++ ds ∧
        BufList mem' rjbp' xs' ∧ DropList mem' drop ds ∧ rjbp'.ersFrame = rjbp.ersFrame ∧
        purgeStaleTail (rjbp.inst (xs.map mem.packet)) = (purged, rjbp'.inst (xs'.map mem'.packet)) ∧
        purged.toList = ds.map mem'.packet := by
    intro hskip hlist
    refine ⟨mem, rjbp, none, xs, [], none, ?_, (List.append_nil _).symm, h, ⟨rfl, nofun⟩, rfl, hlist, rfl⟩
    rw [purgeStaleTailAt, if_pos hskip]
  rcases List.eq_nil_or_concat xs with rfl | ⟨prev, tail, rfl⟩
  · exact hskip (.inl h.head_eq) rfl
  rw [List.concat_eq_append] at h hskip hfuel ⊢
  have hmap : (rjbp.inst ((prev ++ [tail]).map mem.packet)).head =
      prev.map mem.packet ++ [mem.packet tail] := List.map_append
  by_cases hfull : rjbp.size < sub32 rjbp.capacity 1
  · refine hskip (.inr hfull) ?_
    rw [purgeStaleTail, hmap, List.getLast?_concat]
    exact if_pos hfull
  rw [not_lt] at hfull
  rw [List.length_append, List.length_singleton] at hfuel
  rw [purgeStaleTailAt_tail h (Nat.lt_of_succ_le hfuel) hfull, purgeStaleTail_concat hmap hfull]
  have haged := frame_putRtp_self mem tail (mem.packet tail).aged
  have hframe : ∀ a ∈ prev, (mem.putRtp tail (mem.packet tail).aged).frame a = mem.frame a := by
    intro a ha
    refine frame_putRtp_of_ne ?_ mem _
    rintro rfl
    exact (List.nodup_append.mp h.list.nodup).2.2 a ha a (by simp) rfl
  by_cases hstay : (mem.packet tail).aged.jbcnt < rjbp.capacity
  · refine ⟨mem.putRtp tail (mem.packet tail).aged, rjbp, none, prev ++ [tail], [], none, if_pos hstay,
      (List.append_nil _).symm, h.putRtp tail _, ⟨rfl, nofun⟩, rfl, ?_, rfl⟩
    have hpackets : (prev ++ [tail]).map (mem.putRtp tail (mem.packet tail).aged).packet =
        prev.map mem.packet ++ [(mem.packet tail).aged] := by
      rw [List.map_append, map_packet_congr hframe, List.map_singleton, packet_of_frame haged]
    rw [hpackets]
    exact if_pos hstay
  · obtain ⟨hlist, hdrop⟩ := h.purged
    have hpackets : prev.map (purgedAt mem rjbp prev tail).1.packet = prev.map mem.packet :=
      map_packet_congr hframe
    have htail : (purgedAt mem rjbp prev tail).1.packet tail = (mem.packet tail).aged :=
      packet_of_frame haged
    refine ⟨_, _, some tail, prev, [tail], some (mem.packet tail).aged, if_neg hstay, rfl, hlist, hdrop,
      rfl, ?_, ?_⟩
    · rw [hpackets]
      exact if_neg hstay
    · rw [List.map_singleton, htail]
      rfl

/-! ### Where the frames go -/

/-- In the middle of a call: the frame `fp` holds the packet of the datagram, and `ds` are
dropped. -/
structure InCall (mem : FrameMem) (rjbp : LinkedBuf) (fp : ℕ) (drop : Option ℕ) (xs ds : List ℕ)
    (p : RtpPacket) : Prop where
  buf : BufList mem rjbp xs
  dropped : DropList mem drop ds
  frame : mem.frame fp = .rtp p
  next : mem.next fp = none
  nodup : (fp :: (xs ++ ds)).Nodup
  ers : rjbp.ersFrame ∉ fp :: (xs ++ ds)

/-- What a call comes to: `xs` are left in the list, `rs` and `ds` are handed out, and these
are the frames `owned` that the call had, each of them once. -/
structure Outcome (owned : List ℕ) (ers : ℕ) (res : LinkedResult) (s' : RtpjbufInst) (r : RjbUdpInR)
    (xs rs ds gone : List ℕ) : Prop where
  buf : BufList res.mem res.rjbp xs
  inst : s' = res.rjbp.inst (xs.map res.mem.packet)
  ersFrame : res.rjbp.ersFrame = ers
  error : res.error = r.error
  hands : Hands res.mem ers res.out rs ds gone r
  perm : (xs ++ gone).Perm owned

/-- The same, for some frames. -/
def Refines (owned : List ℕ) (ers : ℕ) (res : LinkedResult) (s' : RtpjbufInst) (r : RjbUdpInR) : Prop :=
  ∃ xs rs ds gone, Outcome owned ers res s' r xs rs ds gone

theorem DropList.frames (h : DropList mem drop ds) : ds.map mem.frame = (ds.map mem.packet).map .rtp := by
  rw [List.map_map]
  exact List.map_congr_left h.isRtp

/-- `save_last`. -/
theorem saveLast_inst {ps : List RtpPacket} (hsave : Rtp.saveLast (rjbp.inst ps) p = some s') :
    ∃ rjbp', rjbp.saveLast p = some rjbp' ∧ s' = rjbp'.inst ps ∧ rjbp'.head = rjbp.head ∧
      rjbp'.ersFrame = rjbp.ersFrame := by
  obtain ⟨hlast, rfl⟩ := saveLast_eq_some.mp hsave
  replace hlast : rjbp.lastLseq = lrsDefault ∨ rjbp.lastLseq < p.lseq := hlast
  refine ⟨{ rjbp with lastLseq := p.lseq, lastTs := p.info.ts }, ?_, rfl, rfl, rfl⟩
  rw [LinkedBuf.saveLast, saveLastAt, dAssert_of hlast]
  rfl

section call

variable (h : InCall mem rjbp fp drop xs ds p)

include h

theorem InCall.fp_not_mem : fp ∉ xs ∧ fp ∉ ds := by
  have := (List.nodup_cons.mp h.nodup).1
  rwa [List.mem_append, not_or] at this

theorem InCall.ers_not_mem : rjbp.ersFrame ≠ fp ∧ rjbp.ersFrame ∉ xs ∧ rjbp.ersFrame ∉ ds := by
  have := h.ers
  rwa [List.mem_cons, List.mem_append, not_or, not_or] at this

theorem InCall.packet : mem.packet fp = p := packet_of_frame h.frame

/-- The frame is put in front of the drop list. -/
theorem InCall.drops (hhead : rjbp'.head = rjbp.head) (hers : rjbp'.ersFrame = rjbp.ersFrame)
    (hs' : s' = rjbp'.inst (xs.map mem.packet)) :
    Refines (fp :: (xs ++ ds)) rjbp.ersFrame ⟨mem.putNext fp drop, rjbp', 0, ⟨none, some fp⟩⟩ s'
      ⟨0, [], p :: ds.map mem.packet⟩ := by
  have hsame : ∀ a ∈ xs ++ ds, (mem.putNext fp drop).frame a = mem.frame a ∧
      (mem.putNext fp drop).next a = mem.next a := by
    intro a ha
    refine ⟨rfl, Function.update_of_ne ?_ _ _⟩
    rintro rfl
    exact (List.nodup_cons.mp h.nodup).1 ha
  have hdrop : DropList (mem.putNext fp drop) drop ds :=
    h.dropped.congr fun a ha => hsame a (List.mem_append_right _ ha)
  refine ⟨xs, [], fp :: ds, fp :: ds,
    ⟨h.buf.congr hhead hers fun a ha => hsame a (List.mem_append_left _ ha), ?_, hers, rfl,
      ⟨rfl, rfl, ⟨rfl, hdrop.list.congr ?_ fun _ _ => rfl⟩, ?_, ?_⟩, ?_⟩⟩
  · rw [hs', map_packet_congr fun a ha => (hsame a (List.mem_append_left _ ha)).1]
  · exact Function.update_self _ _ _
  · rw [List.map_cons, List.map_cons, hdrop.frames]
    exact congrArg (· :: _) h.frame
  · rw [List.filter_nil, List.append_nil]
  · exact List.perm_middle

/-- The frame is all that is delivered. -/
theorem InCall.delivers (hxs : xs = []) (hhead : rjbp'.head = rjbp.head)
    (hers : rjbp'.ersFrame = rjbp.ersFrame) (hs' : s' = rjbp'.inst []) :
    Refines (fp :: (xs ++ ds)) rjbp.ersFrame ⟨mem, rjbp', 0, ⟨some fp, drop⟩⟩ s'
      ⟨0, [.rtp p], ds.map mem.packet⟩ := by
  subst hxs
  have hne : fp ≠ rjbp.ersFrame := fun heq => h.ers (heq ▸ List.mem_cons_self)
  refine ⟨[], [fp], ds, ds ++ [fp],
    ⟨h.buf.congr hhead hers fun _ _ => ⟨rfl, rfl⟩, hs', hers, rfl,
      ⟨⟨rfl, h.next⟩, congrArg ([·]) h.frame, h.dropped.list, h.dropped.frames, ?_⟩, ?_⟩⟩
  · rw [List.filter_cons_of_pos (by simpa using hne), List.filter_nil]
  · exact List.perm_append_singleton fp ds

/-- The frame is all that is held. -/
theorem InCall.holds (hxs : xs = []) (hhead : rjbp'.head = some fp) (hers : rjbp'.ersFrame = rjbp.ersFrame)
    (hs' : s' = rjbp'.inst [p]) :
    Refines (fp :: (xs ++ ds)) rjbp.ersFrame ⟨mem, rjbp', 0, ⟨none, drop⟩⟩ s'
      ⟨0, [], ds.map mem.packet⟩ := by
  subst hxs
  refine ⟨[fp], [], ds, ds,
    ⟨⟨⟨hhead, h.next⟩, fun a ha => ?_, ?_⟩, ?_, hers, rfl,
      ⟨rfl, rfl, h.dropped.list, h.dropped.frames, ?_⟩, List.Perm.refl _⟩⟩
  · rw [List.mem_singleton.mp ha]
    exact isRtp_of_frame h.frame
  · rw [hers, List.mem_singleton]
    exact h.ers_not_mem.1
  · rw [hs', List.map_singleton, h.packet]
  · rw [List.filter_nil, List.append_nil]

/-- The label `lms_init`. -/
theorem InCall.lmsInit {warmUp : Bool} (hxs : xs = [])
    (hlist : Rtp.lmsInit (rjbp.inst (xs.map mem.packet)) p warmUp (ds.map mem.packet) = some (s', r)) :
    ∃ res, lmsInitAt mem rjbp fp p warmUp drop = some res ∧
      Refines (fp :: (xs ++ ds)) rjbp.ersFrame res s' r := by
  subst hxs
  have hdeliver : ∀ {t}, (Rtp.saveLast ({ rjbp with lastMaxLseq := p.lseq }.inst []) p).map
        (fun t => (t, (⟨0, [.rtp p], ds.map mem.packet⟩ : RjbUdpInR))) = some t →
      ∃ res, ({ rjbp with lastMaxLseq := p.lseq }.saveLast p).map
          (fun rjbp => (⟨mem, rjbp, 0, ⟨some fp, drop⟩⟩ : LinkedResult)) = some res ∧
        Refines (fp :: ([] ++ ds)) rjbp.ersFrame res t.1 t.2 := by
    intro t ht
    obtain ⟨t', hsave, rfl⟩ := Option.map_eq_some_iff.mp ht
    obtain ⟨rjbp', hsave', rfl, hhead, hers⟩ := saveLast_inst hsave
    exact ⟨_, by rw [hsave', Option.map_some], h.delivers rfl hhead hers rfl⟩
  rw [Rtp.lmsInit] at hlist
  rw [lmsInitAt]
  by_cases hnext : (!warmUp) = true ∧ rjbp.lastLseq = sub64 p.lseq 1
  · rw [if_pos hnext]
    exact hdeliver ((if_pos hnext).symm.trans hlist)
  · rw [if_neg hnext]
    replace hlist := (if_neg hnext).symm.trans hlist
    by_cases hzero : warmUp = true ∧ p.lseq = 0
    · rw [if_pos hzero]
      obtain ⟨hlrs, hsave⟩ := dAssert_eq_some.mp ((if_pos hzero).symm.trans hlist)
      replace hlrs : rjbp.lastLseq = lrsDefault := hlrs
      rw [dAssert_of hlrs]
      exact hdeliver hsave
    · rw [if_neg hzero]
      obtain ⟨rfl, rfl⟩ := Prod.mk.inj (Option.some.inj ((if_neg hzero).symm.trans hlist))
      exact ⟨_, rfl, h.holds rfl rfl rfl rfl⟩

end call

/-! ### The release -/

/-- The frames `xs` are the list of the buffer, and `ds` are dropped. -/
structure Parts (mem : FrameMem) (rjbp : LinkedBuf) (drop : Option ℕ) (xs ds : List ℕ) : Prop where
  buf : BufList mem rjbp xs
  dropped : DropList mem drop ds
  nodup : (xs ++ ds).Nodup
  ers : rjbp.ersFrame ∉ xs ++ ds

/-- The loop over the frames that are released. -/
theorem releaseLoopAt_eq : ∀ (rest : List ℕ) {x fuel k n : ℕ} {l : Links ℕ}, l.next = mem.next →
    ListsFrom l (some x) rest → (∀ a ∈ x :: rest, mem.IsRtp a) → rest.length < fuel →
    ∃ zs y ws, x :: rest = zs ++ y :: ws ∧
      releaseLoop (mem.packet x) (rest.map mem.packet) =
        (zs.map mem.packet, mem.packet y, ws.map mem.packet) ∧
      releaseLoopAt mem fuel x (sub32 n k) = some (y, sub32 n (k + zs.length)) := by
  intro rest
  induction rest with
  | nil =>
    intro x fuel k n l hl hlist hrtp hfuel
    obtain ⟨fuel, rfl⟩ := Nat.exists_eq_succ_of_ne_zero (Nat.ne_of_gt hfuel)
    refine ⟨[], x, [], rfl, rfl, ?_⟩
    rw [releaseLoopAt, ← hl, show l.next x = none from hlist]
    rfl
  | cons z rest ih =>
    intro x fuel k n l hl hlist hrtp hfuel
    obtain ⟨fuel, rfl⟩ := Nat.exists_eq_succ_of_ne_zero (Nat.ne_of_gt (Nat.zero_lt_of_lt hfuel))
    have hnext : mem.next x = some z := by
      rw [← hl]
      exact hlist.1
    rw [releaseLoopAt, hnext]
    dsimp only
    rw [(hrtp x (by simp)).rtp, Option.bind_some, (hrtp z (by simp)).rtp, Option.bind_some, List.map_cons,
      releaseLoop]
    by_cases hgap : add64 (mem.packet x).lseq 1 ≠ (mem.packet z).lseq
    · refine ⟨[], x, z :: rest, rfl, ?_, ?_⟩
      · rw [if_pos hgap]
        rfl
      · rw [if_pos hgap]
        rfl
    · obtain ⟨zs, y, ws, heq, hlist', hcode⟩ := @ih z fuel (k + 1) n l hl hlist.2
        (fun a ha => hrtp a (List.mem_cons_of_mem x ha)) (Nat.lt_of_succ_lt_succ hfuel)
      refine ⟨x :: zs, y, ws, by rw [heq]; rfl, ?_, ?_⟩
      · rw [if_neg hgap, hlist']
        rfl
      · rw [if_neg hgap, sub32_sub32, hcode, List.length_cons]
        congr 3
        omega

/-- The memory and the first frame when an erasure, if any, was put in front of `fp`. -/
def FrameMem.front (mem : FrameMem) (ers fp : ℕ) : Option ErsFrame → FrameMem × ℕ
  | none => (mem, fp)
  | some e => (mem.putErs ers e fp, ers)

theorem front_same (mem : FrameMem) (fp : ℕ) {ers : ℕ} (ha : a ≠ ers) (front : Option ErsFrame) :
    (mem.front ers fp front).1.frame a = mem.frame a ∧
      (mem.front ers fp front).1.next a = mem.next a := by
  cases front with
  | none => exact ⟨rfl, rfl⟩
  | some e => exact ⟨Function.update_of_ne ha _ _, Function.update_of_ne ha _ _⟩

/-- `insert_ers_frame` on the frames and on the list. -/
theorem insertErsFrameAt_front (rjbp : LinkedBuf) (hp : mem.frame fp = .rtp p)
    (ps : List RtpPacket) :
    ∃ front, ersBefore (rjbp.inst ps) p = front.toList.map .ers ∧
      insertErsFrameAt mem rjbp.toLinkedInst fp = some (mem.front rjbp.ersFrame fp front) := by
  by_cases hnext : add64 rjbp.lastLseq 1 = p.lseq
  · refine ⟨none, ?_, ?_⟩
    · rcases ersBefore_cases (rjbp.inst ps) p with ⟨-, hnil⟩ | ⟨hne, -⟩
      · exact hnil
      · exact absurd hnext hne
    · rw [insertErsFrameAt, rtp_of_frame hp, Option.bind_some, if_pos hnext]
      rfl
  · refine ⟨some (ersFrame rjbp.lastLseq rjbp.lastTs p), ersBefore_of_ne hnext, ?_⟩
    rw [insertErsFrameAt, rtp_of_frame hp, Option.bind_some, if_neg hnext, ersTsDiff_sub]
    rfl

section release

variable {zs ws : List ℕ} {x y : ℕ} (h : Parts mem rjbp drop xs ds) (hxs : xs = zs ++ y :: ws)

include h hxs

/-- The frames up to `y` are handed out, behind an erasure or not; the rest stays. -/
theorem Parts.cut (hx : (zs ++ [y]).head? = some x) (front : Option ErsFrame)
    (hhead : rjbp'.head = mem.next y) (hers : rjbp'.ersFrame = rjbp.ersFrame)
    (hs' : s' = rjbp'.inst (ws.map mem.packet)) :
    Refines (xs ++ ds) rjbp.ersFrame
      ⟨(mem.front rjbp.ersFrame x front).1.putNext y none, rjbp', 0,
        ⟨some (mem.front rjbp.ersFrame x front).2, drop⟩⟩ s'
      ⟨0, front.toList.map .ers ++ ((zs ++ [y]).map mem.packet).map .rtp, ds.map mem.packet⟩ := by
  subst hxs
  have hne : ∀ a ∈ zs ++ y :: ws ++ ds, a ≠ rjbp.ersFrame := by
    rintro a ha rfl
    exact h.ers ha
  have hapart : ∀ a, a ∈ ws ∨ a ∈ ds → a ≠ y := by
    rintro a ha rfl
    have hnodup := h.nodup
    rw [List.append_assoc] at hnodup
    exact (List.nodup_cons.mp (List.nodup_append.mp hnodup).2.1).1 (List.mem_append.mpr ha)
  have hsame : ∀ a, a ∈ ws ∨ a ∈ ds →
      ((mem.front rjbp.ersFrame x front).1.putNext y none).frame a = mem.frame a ∧
        ((mem.front rjbp.ersFrame x front).1.putNext y none).next a = mem.next a := by
    intro a ha
    have hmem : a ∈ zs ++ y :: ws ++ ds := by
      rcases ha with ha | ha <;> simp [ha]
    obtain ⟨hframe, hnext⟩ := front_same mem x (hne a hmem) front
    exact ⟨hframe, (Function.update_of_ne (hapart a ha) _ _).trans hnext⟩
  have hlist := h.buf.list
  rw [show zs ++ y :: ws = (zs ++ [y]) ++ ws by simp] at hlist
  have hafter : after none (zs ++ [y]) = some y := by rw [after_none, List.getLast?_concat]
  have hws := listsFrom_append hlist
  rw [hafter] at hws
  -- the run with its end cut off
  have hrun : ListsFrom ⟨some x, Function.update mem.next y none⟩ none (zs ++ [y]) := by
    have hnil : ListsFrom ⟨none, mem.next⟩ none [] := rfl
    have hsplice := hlist.splice hnil nofun
    rw [hafter, List.append_nil] at hsplice
    refine hsplice.congr ?_ fun _ _ => rfl
    show some x = rjbp.head
    rw [h.buf.head_eq, ← hx]
    cases zs <;> rfl
  have hzs : ∀ a ∈ zs ++ [y], a ∈ zs ++ y :: ws ++ ds := by
    intro a ha
    rcases List.mem_append.mp ha with ha | ha <;> simp_all
  have hready : ListsFrom ⟨some (mem.front rjbp.ersFrame x front).2,
      ((mem.front rjbp.ersFrame x front).1.putNext y none).next⟩ none
      (front.toList.map (fun _ => rjbp.ersFrame) ++ (zs ++ [y])) := by
    have hnext : ∀ a ∈ zs ++ [y], ((mem.front rjbp.ersFrame x front).1.putNext y none).next a =
        Function.update mem.next y none a := by
      intro a ha
      by_cases hay : a = y
      · subst hay
        rw [Function.update_self]
        exact Function.update_self _ _ _
      · refine (Function.update_of_ne hay _ _).trans ?_
        rw [Function.update_of_ne hay]
        exact (front_same mem x (hne a (hzs a ha)) front).2
    cases front with
    | none => exact hrun.congr rfl hnext
    | some e =>
      refine ⟨rfl, hrun.congr ?_ hnext⟩
      refine (Function.update_of_ne (hne y (hzs y (by simp))).symm _ _).trans ?_
      exact Function.update_self _ _ _
  have hframes : (front.toList.map (fun _ => rjbp.ersFrame)).map
      ((mem.front rjbp.ersFrame x front).1.putNext y none).frame = front.toList.map .ers := by
    cases front with
    | none => rfl
    | some e => exact congrArg ([·]) (Function.update_self _ _ _)
  have hfilter : (front.toList.map (fun _ => rjbp.ersFrame) ++ (zs ++ [y])).filter
      (· ≠ rjbp.ersFrame) = zs ++ [y] := by
    have hkeep : (zs ++ [y]).filter (· ≠ rjbp.ersFrame) = zs ++ [y] :=
      List.filter_eq_self.mpr fun a ha => decide_eq_true (hne a (hzs a ha))
    rw [List.filter_append, hkeep]
    cases front <;> simp
  refine ⟨ws, _, ds, ds ++ (zs ++ [y]), ⟨⟨?_, fun a ha => ?_, ?_⟩, ?_, hers, rfl,
    ⟨hready, ?_, ?_, ?_, ?_⟩, ?_⟩⟩
  · exact hws.congr hhead fun a ha => (hsame a (.inl ha)).2
  · exact (h.buf.isRtp a (by simp [ha])).congr (hsame a (.inl ha)).1
  · rw [hers]
    exact fun hin => hne _ (by simp [hin]) rfl
  · rw [hs', map_packet_congr fun a ha => (hsame a (.inl ha)).1]
  · rw [List.map_append, hframes, List.map_map]
    refine congrArg (_ ++ ·) (List.map_congr_left fun a ha => ?_)
    have hmem : a ∈ zs ++ y :: ws := by
      rcases List.mem_append.mp ha with ha | ha <;> simp_all
    exact (front_same mem x (hne a (hzs a ha)) front).1.trans (h.buf.isRtp a hmem)
  · exact (h.dropped.congr fun a ha => hsame a (.inr ha)).list
  · rw [← h.dropped.frames]
    exact List.map_congr_left fun a ha => (hsame a (.inr ha)).1
  · rw [hfilter]
  · rw [show zs ++ y :: ws ++ ds = (zs ++ [y]) ++ (ws ++ ds) by simp, ← List.append_assoc]
    exact List.perm_append_comm

end release

/-- `releaseHead`, when its loop is done. -/
theorem releaseHead_loop {s : RtpjbufInst} {warmUp : Bool} {f ifp : RtpPacket}
    {rest tl run next dropped : List RtpPacket} (hhead : s.head = f :: rest)
    (hloop : releaseLoop f rest = (run, ifp, next)) (hrun : run ++ [ifp] = f :: tl)
    (h : releaseHead s warmUp dropped = some (s', r)) :
    (warmUp = true ∨ s.lastLseq < f.lseq) ∧ ((!warmUp) = true ∨ s.lastLseq = lmsDefault) ∧
      (s.lastLseq = lrsDefault ∨ s.lastLseq < ifp.lseq) ∧
      (if next = [] then sub32 s.size (run.length + 1) = 0 else sub32 s.size (run.length + 1) > 0) ∧
      s' = releasedInst s run ifp next ∧
      r = ⟨0, (if warmUp then [] else ersBefore s f) ++ (run ++ [ifp]).map .rtp, dropped⟩ := by
  rw [releaseHead, hhead] at h
  dsimp only at h
  rw [hloop] at h
  dsimp only at h
  rw [dAssert_eq_some, dAssert_eq_some, List.length_append, List.length_singleton, hrun,
    List.tail_cons] at h
  obtain ⟨hlt, hlms, h⟩ := h
  obtain ⟨ready, hready, h⟩ := Option.bind_eq_some_iff.mp h
  obtain ⟨t, hsave, h⟩ := Option.bind_eq_some_iff.mp h
  obtain ⟨hlast, rfl⟩ := saveLast_eq_some.mp hsave
  rw [dAssert_eq_some] at h
  obtain ⟨hsize, h⟩ := h
  obtain ⟨rfl, rfl⟩ := Prod.mk.inj (Option.some.inj h)
  refine ⟨hlt, hlms, hlast, hsize, rfl, ?_⟩
  rw [hrun]
  cases warmUp with
  | true => rw [← Option.some.inj hready]; rfl
  | false =>
    rw [if_neg Bool.false_ne_true, insertErsFrame_eq] at hready
    rw [← Option.some.inj hready]
    rfl

/-- `releaseHeadAt`, when its loop and `insert_ers_frame` are done. -/
theorem releaseHeadAt_eq {warmUp : Bool} {x y size ready : ℕ} {q : RtpPacket} (hhead : rjbp.head = some x)
    (hx : mem.rtp x = some p) (hloop : releaseLoopAt mem fuel x (sub32 rjbp.size 1) = some (y, size))
    (hy : mem.rtp y = some q) (hlt : warmUp = true ∨ rjbp.lastLseq < p.lseq)
    (hlms : (!warmUp) = true ∨ rjbp.lastLseq = lmsDefault)
    (hins : (if warmUp then some (mem, x) else insertErsFrameAt mem
      { rjbp.toLinkedInst with head := mem.next y, size := size } x) = some (mem', ready))
    (hlast : rjbp.lastLseq = lrsDefault ∨ rjbp.lastLseq < q.lseq)
    (hsize : if mem.next y = none then size = 0 else size > 0) :
    releaseHeadAt fuel mem rjbp warmUp drop =
      some ⟨mem'.putNext y none,
        { rjbp with head := mem.next y, size := size, lastLseq := q.lseq, lastTs := q.info.ts }, 0,
        ⟨some ready, drop⟩⟩ := by
  rw [releaseHeadAt, hhead, Option.bind_some, hx, Option.bind_some, hloop, Option.bind_some]
  dsimp only
  rw [hy, Option.bind_some, dAssert_of hlt, dAssert_of hlms]
  refine (congrArg (Option.bind · _) hins).trans ?_
  rw [Option.bind_some, LinkedBuf.saveLast, saveLastAt, dAssert_of hlast, Option.map_some,
    Option.bind_some]
  exact dAssert_of hsize _

/-- **The release**, on the frames and on the list. -/
theorem Parts.release {warmUp : Bool} (h : Parts mem rjbp drop xs ds) (hfuel : xs.length ≤ fuel)
    (hlist : releaseHead (rjbp.inst (xs.map mem.packet)) warmUp (ds.map mem.packet) = some (s', r)) :
    ∃ res, releaseHeadAt fuel mem rjbp warmUp drop = some res ∧
      Refines (xs ++ ds) rjbp.ersFrame res s' r := by
  cases xs with
  | nil => cases hlist
  | cons x rest =>
    have hhead : rjbp.head = some x := h.buf.head_eq
    obtain ⟨zs, y, ws, heq, hloop, hcode⟩ := releaseLoopAt_eq rest (k := 1) (n := rjbp.size) rfl
      h.buf.list.2 h.buf.isRtp hfuel
    have hxrtp : mem.IsRtp x := h.buf.isRtp x List.mem_cons_self
    have hy : mem.IsRtp y := h.buf.isRtp y (by rw [heq]; simp)
    have hx : (zs ++ [y]).head? = some x := by
      cases zs <;> cases heq <;> rfl
    have hnext : mem.next y = ws.head? := by
      have hbehind := h.buf.list
      rw [heq, show zs ++ y :: ws = (zs ++ [y]) ++ ws by simp] at hbehind
      have hget := (listsFrom_append hbehind).get_eq
      rwa [after_append] at hget
    obtain ⟨tl, htl⟩ := List.head?_eq_some_iff.mp hx
    have hframes : zs.map mem.packet ++ [mem.packet y] = mem.packet x :: tl.map mem.packet := by
      rw [← List.map_cons, ← htl, List.map_append]
      rfl
    obtain ⟨hlt, hlms, hlast, hsize, rfl, rfl⟩ := releaseHead_loop rfl hloop hframes hlist
    rw [List.length_map, Nat.add_comm] at hsize
    obtain ⟨front, hers, hins⟩ : ∃ front : Option ErsFrame,
        (if warmUp then [] else ersBefore (rjbp.inst ((x :: rest).map mem.packet)) (mem.packet x)) =
          front.toList.map .ers ∧
        (if warmUp then some (mem, x) else insertErsFrameAt mem { rjbp.toLinkedInst with
            head := mem.next y, size := sub32 rjbp.size (1 + zs.length) } x) =
          some (mem.front rjbp.ersFrame x front) := by
      cases warmUp with
      | true => exact ⟨none, rfl, rfl⟩
      | false =>
        obtain ⟨front, hers, hins⟩ := insertErsFrameAt_front { rjbp with
          head := mem.next y, size := sub32 rjbp.size (1 + zs.length) } hxrtp
          ((x :: rest).map mem.packet)
        exact ⟨front, hers, hins⟩
    refine ⟨_, releaseHeadAt_eq hhead hxrtp.rtp hcode hy.rtp hlt hlms hins hlast ?_, ?_⟩
    · rw [hnext]
      cases ws with
      | nil => exact hsize
      | cons => exact hsize
    · have hs' : releasedInst (rjbp.inst ((x :: rest).map mem.packet)) (zs.map mem.packet)
          (mem.packet y) (ws.map mem.packet) =
          { rjbp with
            head := mem.next y, size := sub32 rjbp.size (1 + zs.length),
            lastLseq := (mem.packet y).lseq,
            lastTs := (mem.packet y).info.ts : LinkedBuf }.inst (ws.map mem.packet) := by
        rw [releasedInst, List.length_map, Nat.add_comm]
        rfl
      rw [hers, ← List.map_singleton, ← List.map_append]
      exact h.cut heq hx front rfl rfl hs'

/-! ### The insertion -/

theorem Refines.perm {owned owned' : List ℕ} {ers : ℕ} {res : LinkedResult}
    (h : Refines owned ers res s' r) (hperm : owned.Perm owned') : Refines owned' ers res s' r := by
  obtain ⟨xs, rs, ds, gone, hout⟩ := h
  exact ⟨xs, rs, ds, gone, { hout with perm := hout.perm.trans hperm }⟩

/-- Nothing is handed out but what was dropped before. -/
theorem Parts.stays (h : Parts mem rjbp drop xs ds) :
    Refines (xs ++ ds) rjbp.ersFrame ⟨mem, rjbp, 0, ⟨none, drop⟩⟩ (rjbp.inst (xs.map mem.packet))
      ⟨0, [], ds.map mem.packet⟩ := by
  refine ⟨xs, [], ds, ds, ⟨h.buf, rfl, rfl, rfl, ⟨rfl, rfl, h.dropped.list, h.dropped.frames, ?_⟩,
    List.Perm.refl _⟩⟩
  rw [List.filter_nil, List.append_nil]

theorem insertFrame_eq {s : RtpjbufInst} {warmUp : Bool} {pre post dropped : List RtpPacket}
    (hpre : s.head.takeWhile (fun ifp => ifp.lseq < p.lseq) = pre)
    (hpost : s.head.dropWhile (fun ifp => ifp.lseq < p.lseq) = post) :
    insertFrame s p warmUp dropped =
      if post.head?.map RtpPacket.lseq = some p.lseq then gotdup s p dropped
      else
        dAssert (post ≠ [] ∨ s.lastMaxLseq < p.lseq)
          (if add32 s.size 1 = s.capacity ∨ (!warmUp ∧
              (pre ++ p :: post).head?.map RtpPacket.lseq = some (add64 s.lastLseq 1)) then
            releaseHead (insertedInst s p pre post) warmUp dropped
          else some (insertedInst s p pre post, ⟨0, [], dropped⟩)) := by
  subst hpre hpost
  rfl

section insertion

variable {pre post : List ℕ} (h : InCall mem rjbp fp drop xs ds p) (hxs : xs = pre ++ post)

include h hxs

/-- The frame is linked in. -/
theorem InCall.link :
    Parts (linkFrame mem rjbp fp p pre.getLast? post.head?).1
      (linkFrame mem rjbp fp p pre.getLast? post.head?).2 drop (pre ++ fp :: post) ds := by
  subst hxs
  obtain ⟨hfxs, hfds⟩ := h.fp_not_mem
  have hget : (rjbp.links mem).get pre.getLast? = post.head? := by
    have hget := (listsFrom_append h.buf.list).get_eq
    rwa [after_none] at hget
  have hinsert := h.buf.list.insert hfxs nofun
  rw [after_none, hget] at hinsert
  have hdrops : ∀ a ∈ ds, (linkFrame mem rjbp fp p pre.getLast? post.head?).1.next a = mem.next a := by
    intro a ha
    have hapart : a ∉ pre ++ post := by
      intro hin
      exact (List.nodup_append.mp (List.nodup_cons.mp h.nodup).2).2.2 a hin a ha rfl
    have hafp : a ≠ fp := by
      rintro rfl
      exact hfds ha
    have hlast : some a ≠ pre.getLast? := fun heq =>
      hapart (List.mem_append_left _ (List.mem_of_getLast? heq.symm))
    exact (next_set_of_ne hlast _).trans (next_set_of_ne (fun heq => hafp (Option.some.inj heq)) _)
  refine ⟨⟨hinsert, fun a ha => ?_, ?_⟩, ⟨?_, h.dropped.isRtp⟩, ?_, ?_⟩
  · rcases List.mem_append.mp ha with ha | ha
    · exact h.buf.isRtp a (List.mem_append_left _ ha)
    · rcases List.mem_cons.mp ha with rfl | ha
      · exact isRtp_of_frame h.frame
      · exact h.buf.isRtp a (List.mem_append_right _ ha)
  · have := h.ers
    simp only [List.mem_cons, List.mem_append, not_or] at this
    simp only [linkFrame, List.mem_cons, List.mem_append, not_or]
    tauto
  · exact h.dropped.list.congr rfl hdrops
  · refine h.nodup.perm ?_
    rw [← List.cons_append]
    exact List.perm_middle.symm.append_right ds
  · have := h.ers
    simp only [List.mem_cons, List.mem_append, not_or] at this
    simp only [linkFrame, List.mem_cons, List.mem_append, not_or]
    tauto

theorem InCall.link_inst :
    (linkFrame mem rjbp fp p pre.getLast? post.head?).2.inst
        ((pre ++ fp :: post).map (linkFrame mem rjbp fp p pre.getLast? post.head?).1.packet) =
      insertedInst (rjbp.inst (xs.map mem.packet)) p (pre.map mem.packet) (post.map mem.packet) := by
  have hpackets : (pre ++ fp :: post).map mem.packet =
      pre.map mem.packet ++ p :: post.map mem.packet := by
    rw [List.map_append, List.map_cons, h.packet]
  rw [insertedInst, ← hpackets]
  cases post <;> rfl

end insertion

/-- The place of the new frame is found. -/
theorem BufList.walk_place (h : BufList mem rjbp xs) (n : ℕ) (hfuel : xs.length < fuel) :
    walk (rjbp.links mem) (fun ifp => (mem.rtp ifp).map fun q => !decide (q.lseq < n)) fuel none =
        some (xs.takeWhile fun a => (mem.packet a).lseq < n).getLast? ∧
      (rjbp.links mem).get (xs.takeWhile fun a => (mem.packet a).lseq < n).getLast? =
        (xs.dropWhile fun a => (mem.packet a).lseq < n).head? := by
  have hsplit : xs = (xs.takeWhile fun a => (mem.packet a).lseq < n) ++
      xs.dropWhile fun a => (mem.packet a).lseq < n := List.takeWhile_append_dropWhile.symm
  have hlist := h.list
  rw [hsplit] at hlist
  refine ⟨?_, ?_⟩
  · rw [← after_none]
    refine walk_eq hlist (fun a ha => ?_) (fun a ha => ?_) ?_
    · rw [(h.isRtp a (hsplit ▸ List.mem_append_left _ ha)).rtp, Option.map_some]
      simpa using List.mem_takeWhile_imp ha
    · rw [(h.isRtp a (hsplit ▸ List.mem_append_right _ (List.mem_of_mem_head? ha))).rtp, Option.map_some]
      have hstop := List.head?_dropWhile_not (fun a => decide ((mem.packet a).lseq < n)) xs
      rw [Option.mem_def.mp ha] at hstop
      simpa using hstop
    · exact (List.takeWhile_sublist _).length_le.trans_lt hfuel
  · have hget := (listsFrom_append hlist).get_eq
    rwa [after_none] at hget

/-- The insertion, on the frames and on the list. -/
theorem InCall.insert {warmUp : Bool} (h : InCall mem rjbp fp drop xs ds p) (hne : xs ≠ [])
    (hfuel : xs.length < fuel)
    (hlist : insertFrame (rjbp.inst (xs.map mem.packet)) p warmUp (ds.map mem.packet) = some (s', r)) :
    ∃ res, insertFrameAt fuel mem rjbp fp p warmUp drop = some res ∧
      Refines (fp :: (xs ++ ds)) rjbp.ersFrame res s' r := by
  obtain ⟨hwalk, hget⟩ := h.buf.walk_place p.lseq hfuel
  have hsplit : xs = (xs.takeWhile fun a => (mem.packet a).lseq < p.lseq) ++
      xs.dropWhile fun a => (mem.packet a).lseq < p.lseq := List.takeWhile_append_dropWhile.symm
  have hpre : (xs.map mem.packet).takeWhile (fun ifp => ifp.lseq < p.lseq) =
      (xs.takeWhile fun a => (mem.packet a).lseq < p.lseq).map mem.packet := List.takeWhile_map
  have hpost : (xs.map mem.packet).dropWhile (fun ifp => ifp.lseq < p.lseq) =
      (xs.dropWhile fun a => (mem.packet a).lseq < p.lseq).map mem.packet := List.dropWhile_map
  rw [insertFrame_eq hpre hpost] at hlist
  rw [insertFrameAt, hwalk, Option.bind_some, hget]
  clear hwalk hget hpre hpost
  -- `pre` is what the loop has passed, `post` what it stopped at
  generalize (xs.takeWhile fun a => (mem.packet a).lseq < p.lseq) = pre at *
  generalize (xs.dropWhile fun a => (mem.packet a).lseq < p.lseq) = post at *
  have hstop : (post.head?.bind mem.rtp).map RtpPacket.lseq =
      (post.map mem.packet).head?.map RtpPacket.lseq := by
    cases post with
    | nil => rfl
    | cons a post =>
      rw [List.head?_cons, Option.bind_some, (h.buf.isRtp a (by rw [hsplit]; simp)).rtp]
      rfl
  rw [← hstop] at hlist
  dsimp only
  by_cases hdup : (post.head?.bind mem.rtp).map RtpPacket.lseq = some p.lseq
  · rw [if_pos hdup] at hlist ⊢
    obtain ⟨rfl, rfl⟩ := Prod.mk.inj (Option.some.inj hlist)
    exact ⟨_, rfl, h.drops rfl rfl rfl⟩
  rw [if_neg hdup, dAssert_eq_some] at hlist
  obtain ⟨hassert, hlist⟩ := hlist
  have hnull : ¬ (post.head? = none ∧ pre.getLast? = none) := by
    rintro ⟨hpost, hpre⟩
    rw [List.head?_eq_none_iff] at hpost
    rw [List.getLast?_eq_none_iff] at hpre
    exact hne (by rw [hsplit, hpre, hpost]; rfl)
  have hassert' : post.head? ≠ none ∨ rjbp.lastMaxLseq < p.lseq := by
    refine hassert.imp_left fun hpost hnone => hpost ?_
    rw [List.head?_eq_none_iff] at hnone
    rw [hnone]
    rfl
  rw [if_neg hdup, if_neg hnull, dAssert_of hassert']
  have hparts := h.link hsplit
  have hinst := h.link_inst hsplit
  obtain ⟨z, zs, hz⟩ : ∃ z zs, pre ++ fp :: post = z :: zs := List.exists_cons_of_ne_nil (by simp)
  have hhead : (linkFrame mem rjbp fp p pre.getLast? post.head?).2.head.bind
      (linkFrame mem rjbp fp p pre.getLast? post.head?).1.rtp = some (mem.packet z) := by
    have hz' := hparts.buf.head_eq
    rw [hz] at hz'
    rw [hz', List.head?_cons, Option.bind_some, (hparts.buf.isRtp z (by rw [hz]; simp)).rtp]
    rfl
  have hlseq : (pre.map mem.packet ++ p :: post.map mem.packet).head?.map RtpPacket.lseq =
      some (mem.packet z).lseq := by
    rw [← h.packet, ← List.map_cons, ← List.map_append, hz]
    rfl
  rw [← hinst, hlseq] at hlist
  have hperm : (pre ++ fp :: post ++ ds).Perm (fp :: (xs ++ ds)) := by
    rw [hsplit, ← List.cons_append]
    exact List.perm_middle.append_right ds
  rw [hhead, Option.bind_some]
  by_cases htrig : add32 rjbp.size 1 = rjbp.capacity ∨
      ((!warmUp) = true ∧ (mem.packet z).lseq = add64 rjbp.lastLseq 1)
  · replace hlist := (if_pos (htrig.imp_right (And.imp_right (congrArg some)))).symm.trans hlist
    have hlen : (pre ++ fp :: post).length ≤ fuel := by
      rw [hsplit, List.length_append] at hfuel
      rw [List.length_append, List.length_cons]
      omega
    obtain ⟨res, hres, hrefines⟩ := hparts.release hlen hlist
    exact ⟨res, (if_pos htrig).trans hres, hrefines.perm hperm⟩
  · have htrig' := mt (Or.imp_right (And.imp_right Option.some.inj)) htrig
    obtain ⟨rfl, rfl⟩ := Prod.mk.inj (Option.some.inj ((if_neg htrig').symm.trans hlist))
    exact ⟨_, if_neg htrig, hparts.stays.perm hperm⟩

/-! ### The whole call -/

theorem convertSeqAt_inst (rjbp : LinkedBuf) (seq : UInt16) (ps : List RtpPacket) :
    convertSeq (rjbp.inst ps) seq = ((convertSeqAt rjbp seq).1.inst ps, (convertSeqAt rjbp seq).2) ∧
      (convertSeqAt rjbp seq).1.toLinkedInst = rjbp.toLinkedInst := by
  by_cases hpre : rjbp.lastMaxLseq % 65536 < 536 ∧ seq.toNat > 65000
  · have hlist : convertSeq (rjbp.inst ps) seq = (rjbp.inst ps, _) := if_pos hpre
    have hcode : convertSeqAt rjbp seq = (rjbp, _) := if_pos hpre
    rw [hlist, hcode]
    exact ⟨rfl, rfl⟩
  · by_cases hwrap : rjbp.lastMaxLseq > 65000 ∧
        rjbp.lseqMask ||| seq.toNat < sub64 rjbp.lastMaxLseq 65000
    · have hlist : convertSeq (rjbp.inst ps) seq = _ := (if_neg hpre).trans (if_pos hwrap)
      have hcode : convertSeqAt rjbp seq = _ := (if_neg hpre).trans (if_pos hwrap)
      rw [hlist, hcode]
      exact ⟨rfl, rfl⟩
    · have hlist : convertSeq (rjbp.inst ps) seq = (rjbp.inst ps, _) :=
        (if_neg hpre).trans (if_neg hwrap)
      have hcode : convertSeqAt rjbp seq = (rjbp, _) := (if_neg hpre).trans (if_neg hwrap)
      rw [hlist, hcode]
      exact ⟨rfl, rfl⟩

/-- The frame `fp`, fresh from `malloc`, with `ds` dropped. -/
structure Fresh (mem : FrameMem) (rjbp : LinkedBuf) (fp : ℕ) (drop : Option ℕ) (xs ds : List ℕ) :
    Prop where
  buf : BufList mem rjbp xs
  dropped : DropList mem drop ds
  next : mem.next fp = none
  nodup : (fp :: (xs ++ ds)).Nodup
  ers : rjbp.ersFrame ∉ fp :: (xs ++ ds)

/-- The packet is written. -/
theorem Fresh.inCall (h : Fresh mem rjbp fp drop xs ds) (hinst : rjbp'.toLinkedInst = rjbp.toLinkedInst)
    (p : RtpPacket) :
    InCall (mem.putRtp fp p) rjbp' fp drop xs ds p ∧
      xs.map (mem.putRtp fp p).packet = xs.map mem.packet ∧
      ds.map (mem.putRtp fp p).packet = ds.map mem.packet := by
  have hhead : rjbp'.head = rjbp.head := congrArg LinkedInst.head hinst
  have hers : rjbp'.ersFrame = rjbp.ersFrame := congrArg LinkedInst.ersFrame hinst
  have hsame : ∀ a ∈ xs ++ ds, (mem.putRtp fp p).frame a = mem.frame a ∧
      (mem.putRtp fp p).next a = mem.next a := by
    intro a ha
    refine ⟨frame_putRtp_of_ne ?_ mem p, rfl⟩
    rintro rfl
    exact (List.nodup_cons.mp h.nodup).1 ha
  have hx : ∀ a ∈ xs, _ := fun a ha => hsame a (List.mem_append_left _ ha)
  have hd : ∀ a ∈ ds, _ := fun a ha => hsame a (List.mem_append_right _ ha)
  exact ⟨⟨h.buf.congr hhead hers hx, h.dropped.congr hd, frame_putRtp_self mem fp p, h.next, h.nodup,
    hers ▸ h.ers⟩, map_packet_congr fun a ha => (hx a ha).1, map_packet_congr fun a ha => (hd a ha).1⟩

/-- `rtpjbuf_udp_in` on the frames and on the list, once the datagram is parsed. -/
theorem Fresh.udpInParsed {info : RtpInfo} {data : ℕ} (h : Fresh mem rjbp fp drop xs ds)
    (hfuel : xs.length < fuel)
    (hlist : Rtp.udpInParsed (rjbp.inst (xs.map mem.packet)) info data (ds.map mem.packet) = some (s', r)) :
    ∃ res, udpInParsedAt fuel mem rjbp fp info data drop = some res ∧
      Refines (fp :: (xs ++ ds)) rjbp.ersFrame res s' r := by
  rw [Rtp.udpInParsed] at hlist
  rw [udpInParsedAt]
  dsimp only at hlist ⊢
  by_cases hlms : rjbp.lastMaxLseq = lmsDefault
  · rw [if_pos hlms]
    obtain ⟨hnil, hlist⟩ := dAssert_eq_some.mp ((if_pos hlms).symm.trans hlist)
    obtain rfl : xs = [] := List.map_eq_nil_iff.mp hnil
    rw [dAssert_of (show rjbp.head = none from h.buf.head_eq)]
    obtain ⟨hin, -, hds⟩ := h.inCall rfl ⟨info, rjbp.lseqMask ||| info.seq.toNat, 0, data⟩
    exact hin.lmsInit rfl (by rw [hds]; exact hlist)
  · rw [if_neg hlms]
    obtain ⟨hassert, hlist⟩ := dAssert_eq_some.mp ((if_neg hlms).symm.trans hlist)
    have hassert' : ∀ head ∈ rjbp.head, ∃ q ∈ mem.rtp head,
        decide (rjbp.lastLseq = lrsDefault) = true ∨ sub64 q.lseq 1 > rjbp.lastLseq := by
      intro a ha
      rw [h.buf.head_eq] at ha
      refine ⟨mem.packet a, (h.buf.isRtp a (List.mem_of_mem_head? ha)).rtp, hassert _ ?_⟩
      show _ ∈ (xs.map mem.packet).head?
      rw [List.head?_map, Option.mem_def.mp ha]
      rfl
    rw [dAssert_of hassert']
    -- the conversion
    obtain ⟨hconv, hinst⟩ := convertSeqAt_inst rjbp info.seq (xs.map mem.packet)
    rw [hconv] at hlist
    generalize convertSeqAt rjbp info.seq = conv at hlist hinst ⊢
    obtain ⟨rjbp', lseq⟩ := conv
    dsimp only at hlist hinst ⊢
    obtain ⟨hin, hxs, hds⟩ := h.inCall hinst ⟨info, lseq, 0, data⟩
    rw [← congrArg LinkedInst.ersFrame hinst]
    rw [← hxs, ← hds] at hlist
    by_cases hold : (!decide (rjbp.lastLseq = lrsDefault)) = true ∧ lseq ≤ rjbp'.lastLseq
    · rw [if_pos hold]
      replace hlist := (if_pos hold).symm.trans hlist
      by_cases hdist : toInt32 (sub64 rjbp'.lastLseq lseq) = 0
      · rw [if_pos hdist]
        obtain ⟨rfl, rfl⟩ := Prod.mk.inj (Option.some.inj ((if_pos hdist).symm.trans hlist))
        exact ⟨_, rfl, hin.drops rfl rfl rfl⟩
      · rw [if_neg hdist]
        obtain ⟨rfl, rfl⟩ := Prod.mk.inj (Option.some.inj ((if_neg hdist).symm.trans hlist))
        exact ⟨_, rfl, hin.drops rfl rfl rfl⟩
    · rw [if_neg hold]
      replace hlist := (if_neg hold).symm.trans hlist
      have hhead : rjbp'.head = none ↔ xs = [] := by
        rw [hin.buf.head_eq, List.head?_eq_none_iff]
      by_cases hempty : xs = []
      · rw [if_pos (hhead.mpr hempty)]
        have hnil : (rjbp'.inst (xs.map (mem.putRtp fp ⟨info, lseq, 0, data⟩).packet)).head = [] :=
          List.map_eq_nil_iff.mpr hempty
        replace hlist := (if_pos hnil).symm.trans hlist
        rw [dAssert_eq_some, dAssert_eq_some] at hlist
        obtain ⟨hsize, hmax, hlist⟩ := hlist
        rw [dAssert_of (show rjbp'.size = 0 from hsize),
          dAssert_of (show rjbp'.lastMaxLseq < lseq from hmax)]
        exact hin.lmsInit hempty hlist
      · rw [if_neg (mt hhead.mp hempty)]
        have hnil : (rjbp'.inst (xs.map (mem.putRtp fp ⟨info, lseq, 0, data⟩).packet)).head ≠ [] :=
          mt List.map_eq_nil_iff.mp hempty
        exact hin.insert hempty hfuel ((if_neg hnil).symm.trans hlist)

/-- **`rtpjbuf_udp_in` on the frames does what it does on the list.**  The frame `fp` stays if
the datagram is parsed. -/
theorem rtpjbufUdpInAt_refines {data : ℕ} {buf : List UInt8} (h : BufList mem rjbp xs) (hfp : fp ∉ xs)
    (hers : rjbp.ersFrame ≠ fp) (hfuel : xs.length < fuel)
    (hlist : rtpjbufUdpIn (rjbp.inst (xs.map mem.packet)) data buf = some (s', r)) :
    ∃ res, rtpjbufUdpInAt fuel mem rjbp fp data buf = some res ∧
      Refines ((if (parsed buf).isSome then [fp] else []) ++ xs) rjbp.ersFrame res s' r := by
  obtain ⟨mem', rjbp', drop, xs', ds, purged, hcode, rfl, hbuf, hdrop, hers', hpurge, hds⟩ :=
    purgeStaleTailAt_refines h hfuel.le
  rw [rtpjbufUdpIn, hpurge] at hlist
  dsimp only at hlist
  obtain ⟨⟨perror, info⟩, hparse, hlist⟩ := Option.bind_eq_some_iff.mp hlist
  rw [rtpjbufUdpInAt, hcode, Option.bind_some]
  dsimp only at hlist ⊢
  rw [hparse, Option.bind_some]
  dsimp only
  rw [hds] at hlist
  have hfresh : Fresh (mem'.putNext fp none) rjbp' fp drop xs' ds := by
    have hsame : ∀ a ∈ xs' ++ ds, (mem'.putNext fp none).frame a = mem'.frame a ∧
        (mem'.putNext fp none).next a = mem'.next a := by
      intro a ha
      refine ⟨rfl, Function.update_of_ne ?_ _ _⟩
      rintro rfl
      exact hfp ha
    refine ⟨hbuf.congr rfl rfl fun a ha => hsame a (List.mem_append_left _ ha),
      hdrop.congr fun a ha => hsame a (List.mem_append_right _ ha), Function.update_self _ _ _,
      List.nodup_cons.mpr ⟨hfp, h.list.nodup⟩, ?_⟩
    rw [hers', List.mem_cons, not_or]
    exact ⟨hers, h.ers⟩
  rw [← hers']
  by_cases hok : perror ≠ .ok
  · rw [if_pos hok] at hlist ⊢
    rw [parsed_of_error hparse hok]
    obtain ⟨rfl, rfl⟩ := Prod.mk.inj (Option.some.inj hlist)
    -- the frame is freed
    have hsame : ∀ a ∈ xs' ++ ds, ((mem'.putNext fp none).free fp).frame a =
        (mem'.putNext fp none).frame a := by
      intro a ha
      refine Function.update_of_ne ?_ _ _
      rintro rfl
      exact hfp ha
    have hparts : Parts ((mem'.putNext fp none).free fp)
        { rjbp' with dropPerror := add64 rjbp'.dropPerror 1 } drop xs' ds := by
      refine ⟨hfresh.buf.congr rfl rfl fun a ha => ⟨hsame a (List.mem_append_left _ ha), rfl⟩,
        hfresh.dropped.congr fun a ha => ⟨hsame a (List.mem_append_right _ ha), rfl⟩, h.list.nodup, ?_⟩
      rw [hers']
      exact h.ers
    obtain ⟨xs, rs, ds', gone, hout⟩ := hparts.stays
    have hx : xs'.map ((mem'.putNext fp none).free fp).packet = xs'.map mem'.packet :=
      map_packet_congr fun a ha => hsame a (List.mem_append_left _ ha)
    have hd : ds.map ((mem'.putNext fp none).free fp).packet = ds.map mem'.packet :=
      map_packet_congr fun a ha => hsame a (List.mem_append_right _ ha)
    rw [hx, hd] at hout
    exact ⟨_, rfl, xs, rs, ds', gone, ⟨hout.buf, hout.inst, hout.ersFrame, rfl,
      ⟨hout.hands.ready, hout.hands.ready_frames, hout.hands.drop, hout.hands.drop_frames,
        hout.hands.perm⟩, hout.perm⟩⟩
  · rw [if_neg hok] at hlist ⊢
    rw [not_not] at hok
    rw [parsed_of_ok (hok ▸ hparse)]
    refine hfresh.udpInParsed ?_ hlist
    rw [List.length_append] at hfuel
    omega

/-! ### `rtpjbuf_flush` and the destructor -/

/-- `rtpjbuf_flush` for the whole instance. -/
def LinkedBuf.flushAt (fuel : ℕ) (mem : FrameMem) (rjbp : LinkedBuf) : Option LinkedResult :=
  (rtpjbufFlushAt fuel mem rjbp.toLinkedInst).map fun (mem, inst, out) =>
    ⟨mem, { rjbp with toLinkedInst := inst }, 0, out⟩

theorem rtpjbufFlushAt_ersFrame {li li' : LinkedInst} {out : ReadyDrop}
    (h : rtpjbufFlushAt fuel mem li = some (mem', li', out)) : li'.ersFrame = li.ersFrame := by
  rw [rtpjbufFlushAt] at h
  split at h
  · obtain ⟨-, h⟩ := Prod.mk.inj (Option.some.inj h)
    rw [← (Prod.mk.inj h).1]
  · obtain ⟨p, -, h⟩ := Option.bind_eq_some_iff.mp h
    obtain ⟨-, h⟩ := dAssert_eq_some.mp h
    obtain ⟨v, -, h⟩ := Option.bind_eq_some_iff.mp h
    obtain ⟨⟨mem₁, ready⟩, -, h⟩ := Option.bind_eq_some_iff.mp h
    obtain ⟨rp, -, h⟩ := Option.bind_eq_some_iff.mp h
    obtain ⟨li₁, hsave, h⟩ := Option.bind_eq_some_iff.mp h
    obtain ⟨-, hsave⟩ := dAssert_eq_some.mp hsave
    obtain ⟨-, h⟩ := Prod.mk.inj (Option.some.inj h)
    rw [← (Prod.mk.inj h).1, ← Option.some.inj hsave]

/-- `rtpjbuf_flush`, on the frames and on the list. -/
theorem flushAt_refines (h : BufList mem rjbp xs) (hfuel : 2 * xs.length ≤ fuel)
    (hlist : rtpjbufFlush (rjbp.inst (xs.map mem.packet)) = some (s', r)) :
    ∃ res, rjbp.flushAt fuel mem = some res ∧ Refines xs rjbp.ersFrame res s' r := by
  have hrep : Represents mem rjbp.toLinkedInst mem.packet xs (rjbp.inst (xs.map mem.packet)) :=
    ⟨h.list, h.isRtp, rfl, h.ers, rfl, rfl, rfl⟩
  obtain ⟨mem', li', out, rs, ds, hcode, hhands, hrep'⟩ := rtpjbufFlushAt_refines hrep hlist
  have hers := rtpjbufFlushAt_ersFrame (hcode fuel hfuel)
  -- a flush leaves the other members alone
  have hsame : s' = { rjbp.inst (xs.map mem.packet) with
      lastLseq := s'.lastLseq, lastTs := s'.lastTs, head := s'.head, size := s'.size } ∧ r.error = 0 := by
    rcases rtpjbufFlush_cases hlist with ⟨-, rfl, rfl⟩ | ⟨_, _, _, _, _, -, rfl, rfl⟩
    · exact ⟨rfl, rfl⟩
    · exact ⟨rfl, rfl⟩
  obtain ⟨hinst, herror⟩ := hsame
  refine ⟨⟨mem', { rjbp with toLinkedInst := li' }, 0, out⟩, ?_, [], rs, ds, xs,
    ⟨⟨hrep'.list, nofun, List.not_mem_nil⟩, ?_, hers, herror.symm, hhands, List.Perm.refl _⟩⟩
  · rw [LinkedBuf.flushAt, hcode fuel hfuel]
    rfl
  · rw [hinst, ← hrep'.lastLseq, ← hrep'.lastTs, ← hrep'.size, hrep'.head]
    rfl

end Rtp
