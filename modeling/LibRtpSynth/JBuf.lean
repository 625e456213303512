/-
The RTP jitter buffer (`src/rtpjbuf.c`, `src/rtpjbuf.h`).

The singly linked frame lists of the source are Lean lists of packets; a
pointer to the middle of a list is the rest of the list from there on, and
cutting or splicing a list at a pointer is `++`.  `uint64_t` and `unsigned int`
arithmetic wraps explicitly (`add64`, `sub64`, `add32`, `sub32`).  A datagram
is the address `data` at which the caller keeps it together with its bytes.

Functions of the source that can call `abort()` through `d_assert` return
`Option`, with `none` for the abort; `malloc` is taken to succeed.
-/
import LibRtpSynth.Parser
import LibRtpSynth.Runs

open CWords

namespace Rtp

/-- `LRS_DEFAULT`. -/
def lrsDefault : ℕ := 2 ^ 64 - 1

/-- `LMS_DEFAULT`. -/
def lmsDefault : ℕ := lrsDefault

/-- `struct rtp_packet`. -/
structure RtpPacket where
  info : RtpInfo
  lseq : ℕ
  jbcnt : ℕ
  data : ℕ
  deriving DecidableEq, Repr

/-- `struct ers_frame`. -/
structure ErsFrame where
  lseqStart : ℕ
  lseqEnd : ℕ
  tsDiff : UInt32
  deriving DecidableEq, Repr

/-- `struct rtp_frame`: a packet or an erasure. -/
inductive RtpFrame
  | rtp (p : RtpPacket)
  | ers (e : ErsFrame)
  deriving DecidableEq, Repr

/-- `struct rtpjbuf_inst` with its `jb` and `jbs` members in line.  The storage
of the erasure frame handed out by `insert_ers_frame` is left out. -/
structure RtpjbufInst where
  lastLseq : ℕ
  lastTs : UInt32
  lastMaxLseq : ℕ
  lseqMask : ℕ
  head : List RtpPacket
  size : ℕ
  capacity : ℕ
  dropDup : ℕ
  dropLate : ℕ
  dropPerror : ℕ
  seqWup : ℕ
  deriving DecidableEq, Repr

/-- `struct rjb_udp_in_r`.  Only packets are ever dropped. -/
structure RjbUdpInR where
  error : ℤ
  ready : List RtpFrame
  drop : List RtpPacket
  deriving DecidableEq, Repr

/-- `rtpjbuf_ctor`. -/
def rtpjbufCtor (capacity : ℕ) : RtpjbufInst where
  lastLseq := lrsDefault
  lastTs := 0
  lastMaxLseq := lmsDefault
  lseqMask := 0
  head := []
  size := 0
  capacity := capacity
  dropDup := 0
  dropLate := 0
  dropPerror := 0
  seqWup := 0

/-- `d_assert(invar)` before the computation `k`. -/
def dAssert {α : Type} (invar : Prop) [Decidable invar] (k : Option α) : Option α :=
  if invar then k else none

/-- `purge_stale_tail`: the purged frame, if any, and the instance. -/
def purgeStaleTail (rjbp : RtpjbufInst) : Option RtpPacket × RtpjbufInst :=
  match rjbp.head.getLast? with
  | none => (none, rjbp)
  | some fp =>
    -- unsigned: a capacity of 0 makes the bound `2 ^ 32 - 1`
    if rjbp.size < sub32 rjbp.capacity 1 then (none, rjbp)
    else
      let prev := rjbp.head.dropLast
      let fp := { fp with jbcnt := add64 fp.jbcnt 1 }
      if fp.jbcnt < rjbp.capacity then (none, { rjbp with head := prev ++ [fp] })
      else
        (some fp,
          { rjbp with
            head := prev
            size := sub32 rjbp.size 1
            lastMaxLseq :=
              if rjbp.lastMaxLseq = fp.lseq then (prev.getLast?).elim lmsDefault RtpPacket.lseq
              else rjbp.lastMaxLseq })

/-- The timestamp distance of `insert_ers_frame`: the timestamp may have
wrapped between the two packets. -/
def ersTsDiff (lastTs ts : UInt32) : Option UInt32 :=
  if lastTs > ts then
    let tsDiff64 := 0x100000000 + ts.toNat - lastTs.toNat
    dAssert (tsDiff64 < 0x100000000) (some (UInt32.ofNat tsDiff64))
  else some (ts - lastTs)

/-- `insert_ers_frame` in front of the frames `fp :: rest`.  A divisor
`lseq_diff + 1` that wraps to zero traps in C; here it gives `0`. -/
def insertErsFrame (rjbp : RtpjbufInst) (fp : RtpPacket) (rest : List RtpPacket) :
    Option (List RtpFrame) :=
  if add64 rjbp.lastLseq 1 = fp.lseq then some ((fp :: rest).map .rtp)
  else
    let lseqStart := add64 rjbp.lastLseq 1
    let lseqEnd := sub64 fp.lseq 1
    (ersTsDiff rjbp.lastTs fp.info.ts).map fun tsDiff =>
      -- the timestamps of the gap, in proportion to the packets missing in it
      let lseqDiff := UInt32.ofNat (add64 (sub64 lseqEnd lseqStart) 1)
      .ers ⟨lseqStart, lseqEnd, tsDiff * lseqDiff / (lseqDiff + 1)⟩ :: (fp :: rest).map .rtp

/-- `save_last`. -/
def saveLast (rjbp : RtpjbufInst) (rp : RtpPacket) : Option RtpjbufInst :=
  dAssert (rjbp.lastLseq = lrsDefault ∨ rjbp.lastLseq < rp.lseq)
    (some { rjbp with lastLseq := rp.lseq, lastTs := rp.info.ts })

/-! ### `rtpjbuf_udp_in` -/

/-- The conversion of a 16-bit sequence number: the instance with the wrap
counted, and the logical sequence number. -/
def convertSeq (rjbp : RtpjbufInst) (seq : UInt16) : RtpjbufInst × ℕ :=
  let lseq := rjbp.lseqMask ||| seq.toNat
  if rjbp.lastMaxLseq % 65536 < 536 ∧ seq.toNat > 65000 then
    -- pre-wrap packet received after a wrap
    (rjbp, sub64 lseq 0x10000)
  else if rjbp.lastMaxLseq > 65000 ∧ lseq < sub64 rjbp.lastMaxLseq 65000 then
    ({ rjbp with
        lseqMask := add64 rjbp.lseqMask 0x10000
        seqWup := add64 rjbp.seqWup 1 },
      add64 lseq 0x10000)
  else (rjbp, lseq)

/-- The label `gotdup`. -/
def gotdup (rjbp : RtpjbufInst) (fp : RtpPacket) (drop : List RtpPacket) :
    Option (RtpjbufInst × RjbUdpInR) :=
  some ({ rjbp with dropDup := add64 rjbp.dropDup 1 }, ⟨0, [], fp :: drop⟩)

/-- The label `lms_init`: the buffer is empty. -/
def lmsInit (rjbp : RtpjbufInst) (fp : RtpPacket) (warmUp : Bool) (drop : List RtpPacket) :
    Option (RtpjbufInst × RjbUdpInR) :=
  let rjbp := { rjbp with lastMaxLseq := fp.lseq }
  -- the next packet of the stream, or packet 0 of a new one, is not held
  if !warmUp ∧ rjbp.lastLseq = sub64 fp.lseq 1 then
    (saveLast rjbp fp).map fun rjbp => (rjbp, ⟨0, [.rtp fp], drop⟩)
  else if warmUp ∧ fp.lseq = 0 then
    dAssert (rjbp.lastLseq = lrsDefault)
      ((saveLast rjbp fp).map fun rjbp => (rjbp, ⟨0, [.rtp fp], drop⟩))
  else some ({ rjbp with head := [fp], size := 1 }, ⟨0, [], drop⟩)

/-- The loop over the run of consecutive frames that starts at `ifp`: the
frames of the run before its last one, the last one, and what follows. -/
def releaseLoop (ifp : RtpPacket) : List RtpPacket → List RtpPacket × RtpPacket × List RtpPacket
  | [] => ([], ifp, [])
  | next :: rest =>
    if add64 ifp.lseq 1 ≠ next.lseq then ([], ifp, next :: rest)
    else
      let r := releaseLoop next rest
      (ifp :: r.1, r.2)

/-- Release the run at the head of the buffer. -/
def releaseHead (rjbp : RtpjbufInst) (warmUp : Bool) (drop : List RtpPacket) :
    Option (RtpjbufInst × RjbUdpInR) :=
  match rjbp.head with
  | [] => none
  | fp :: rest =>
    let (run, ifp, next) := releaseLoop fp rest
    let frames := run ++ [ifp]
    let rjbp := { rjbp with head := next, size := sub32 rjbp.size frames.length }
    dAssert (warmUp ∨ rjbp.lastLseq < fp.lseq) <|
    dAssert (!warmUp ∨ rjbp.lastLseq = lmsDefault) <|
    (if warmUp then some (frames.map .rtp) else insertErsFrame rjbp fp frames.tail).bind
      fun ready => (saveLast rjbp ifp).bind fun rjbp =>
        -- `size` went down by one for each frame of the run
        dAssert (if next = [] then rjbp.size = 0 else rjbp.size > 0) <|
        some (rjbp, ⟨0, ready, drop⟩)

/-- Insertion into a non-empty buffer, and the release it may cause.  `pre` are
the frames the loop passes, the last of them `ifp_pre`; `post` starts at the
frame `ifp` where it stops. -/
def insertFrame (rjbp : RtpjbufInst) (fp : RtpPacket) (warmUp : Bool) (drop : List RtpPacket) :
    Option (RtpjbufInst × RjbUdpInR) :=
  let pre := rjbp.head.takeWhile fun ifp => ifp.lseq < fp.lseq
  let post := rjbp.head.dropWhile fun ifp => ifp.lseq < fp.lseq
  if post.head?.map RtpPacket.lseq = some fp.lseq then gotdup rjbp fp drop
  else
    -- a frame behind the tail is the new maximum
    dAssert (post ≠ [] ∨ rjbp.lastMaxLseq < fp.lseq) <|
    let rjbp : RtpjbufInst :=
      { rjbp with
        head := pre ++ fp :: post
        lastMaxLseq := if post = [] then fp.lseq else rjbp.lastMaxLseq
        size := add32 rjbp.size 1 }
    -- the buffer is full, or the frame fills the gap in front of it
    if rjbp.size = rjbp.capacity ∨
        (!warmUp ∧ rjbp.head.head?.map RtpPacket.lseq = some (add64 rjbp.lastLseq 1)) then
      releaseHead rjbp warmUp drop
    else some (rjbp, ⟨0, [], drop⟩)

/-- `rtpjbuf_udp_in` after the datagram is parsed. -/
def udpInParsed (rjbp : RtpjbufInst) (info : RtpInfo) (data : ℕ) (drop : List RtpPacket) :
    Option (RtpjbufInst × RjbUdpInR) :=
  let warmUp : Bool := rjbp.lastLseq = lrsDefault
  if rjbp.lastMaxLseq = lmsDefault then
    -- no largest number yet: straight to `lms_init`
    dAssert (rjbp.head = []) <|
    lmsInit rjbp ⟨info, rjbp.lseqMask ||| info.seq.toNat, 0, data⟩ warmUp drop
  else
    dAssert (∀ head ∈ rjbp.head.head?, warmUp ∨ sub64 head.lseq 1 > rjbp.lastLseq) <|
    let (rjbp, lseq) := convertSeq rjbp info.seq
    let fp : RtpPacket := ⟨info, lseq, 0, data⟩
    if !warmUp ∧ fp.lseq ≤ rjbp.lastLseq then
      -- `ldist` is an `int`
      if toInt32 (sub64 rjbp.lastLseq fp.lseq) = 0 then gotdup rjbp fp drop
      else some ({ rjbp with dropLate := add64 rjbp.dropLate 1 }, ⟨0, [], fp :: drop⟩)
    else if rjbp.head = [] then
      -- falls through to `lms_init`
      dAssert (rjbp.size = 0) <|
      dAssert (rjbp.lastMaxLseq < fp.lseq) <|
      lmsInit rjbp fp warmUp drop
    else insertFrame rjbp fp warmUp drop

/-- `rtpjbuf_udp_in` on the datagram `buf` kept at `data`. -/
def rtpjbufUdpIn (rjbp : RtpjbufInst) (data : ℕ) (buf : List UInt8) :
    Option (RtpjbufInst × RjbUdpInR) :=
  let (purged, rjbp) := purgeStaleTail rjbp
  (rtpPacketParseRaw buf .zero).bind fun (perror, info) =>
    if perror ≠ .ok then
      some ({ rjbp with dropPerror := add64 rjbp.dropPerror 1 },
        ⟨perror.code, [], purged.toList⟩)
    else udpInParsed rjbp info data purged.toList

/-! ### `rtpjbuf_flush` -/

/-- The loop of `rtpjbuf_flush`: `seg` are the frames from `fp` up to `ifp`,
which is followed by the third argument; at a gap the segment is put in front
of the drop list. -/
def flushLoop (seg : List RtpPacket) (ifp : RtpPacket) :
    List RtpPacket → List RtpPacket → List RtpPacket × List RtpPacket × RtpPacket
  | [], drop => (drop, seg, ifp)
  | next :: rest, drop =>
    if add64 ifp.lseq 1 ≠ next.lseq then flushLoop [] next rest (seg ++ ifp :: drop)
    else flushLoop (seg ++ [ifp]) next rest drop

/-- `rtpjbuf_flush`. -/
def rtpjbufFlush (rjbp : RtpjbufInst) : Option (RtpjbufInst × RjbUdpInR) :=
  match rjbp.head with
  | [] => some (rjbp, ⟨0, [], []⟩)
  | fp :: rest =>
    dAssert (sub64 fp.lseq 1 > rjbp.lastLseq ∨ rjbp.lastLseq = lrsDefault) <|
    let (drop, seg, ifp) := flushLoop [] fp rest []
    let frames := seg ++ [ifp]
    (insertErsFrame rjbp (frames.headD ifp) frames.tail).bind fun ready =>
      (saveLast rjbp ifp).bind fun rjbp =>
        some ({ rjbp with head := [], size := 0 }, ⟨0, ready, drop⟩)

/-! ### Calls -/

/-- The calls of a jitter buffer's user. -/
inductive JBufCall
  | udpIn (data : ℕ) (buf : List UInt8)
  | flush
  deriving DecidableEq, Repr

/-- One call. -/
def jbufStep (rjbp : RtpjbufInst) : JBufCall → Option (RtpjbufInst × RjbUdpInR)
  | .udpIn data buf => rtpjbufUdpIn rjbp data buf
  | .flush => rtpjbufFlush rjbp

/-- A datagram with no payload that carries the sequence number `seq`. -/
def datagram (seq : UInt16) : List UInt8 :=
  [0x80, 0, (seq >>> 8).toUInt8, seq.toUInt8, 0, 0, 0, 0, 0, 0, 0, 1]

end Rtp
