/-
The RTP packet synthesizer (`src/rtpsynth.c`, `src/rsth_timeops.h`).

A synthesizer `RsynthInst` holds the header `model` it stamps on packets and
the 64-bit counters `l` of the next sequence number and timestamp.  The buffer
of `rsynth_next_pkt_pa` is a list of `blen` bytes; block operations outside it
give `none`.  The clock readings and the values of the random function are
arguments.  The host is little-endian: `model->ssrc = rand_val` stores the
random value in host order, and everything that reads the packet back sees it
byte-swapped.
-/
import LibRtpSynth.Parser

open CWords

namespace Rtp

/-- `struct rsynth_seq`. -/
structure RsynthSeq where
  ts : ℕ
  seq : ℕ
  deriving DecidableEq, Repr

/-- `struct timespec`. -/
structure Timespec where
  tvSec : ℤ
  tvNsec : ℤ
  deriving DecidableEq, Repr

/-- `struct rsynth_inst`. -/
structure RsynthInst where
  srate : ℤ
  ptime : ℤ
  l : RsynthSeq
  tsInc : ℤ
  lastTs : Timespec
  model : RtpHdr
  deriving DecidableEq, Repr

/-- Add a C integer to an `unsigned long long` counter. -/
def addSigned64 (a : ℕ) (z : ℤ) : ℕ := ((a + z) % 2 ^ 64).toNat

/-- `rsynth_ctor`; `randSsrc`, `randTs` and `randSeq` are the three values the
random function returns. -/
def rsynthCtor (srate ptime : ℤ) (randSsrc randTs randSeq : UInt32) (now : Timespec) :
    RsynthInst where
  srate := srate
  ptime := ptime
  l := { ts := randTs.toNat &&& 0xfffffffe, seq := randSeq.toNat &&& 0xffff }
  tsInc := (toInt32 (80 * ptime)).tdiv 10
  lastTs := now
  model :=
    { version := 2, p := 0, x := 0, cc := 0, mbt := 1, pt := 0, seq := 0, ts := 0
      ssrc := bswap32 randSsrc }

/-- The buffer of `rsynth_next_pkt_pa` before the header is written: the
payload moved behind the header (`filled`) or cleared, and the rest cleared. -/
def rsynthFill (hl : ℕ) (plen : ℤ) (buf : List UInt8) (filled : ℤ) : Option (List UInt8) :=
  if filled = 0 then
    memset buf sizeofRtpHdr 0 (sub64 buf.length sizeofRtpHdr)
  else
    (memmove buf hl 0 (plen % 2 ^ 64).toNat).bind fun buf =>
      if hl + plen < 0 then none
      else memset buf (hl + plen).toNat 0 (((buf.length : ℤ) - hl - plen) % 2 ^ 32).toNat

/-- The header of the next packet: a copy of the model with the payload type
and the counters filled in. -/
def rsynthStamp (rip : RsynthInst) (pt : ℤ) : RtpHdr :=
  { rip.model with
    pt := BitVec.ofInt 7 pt
    seq := UInt16.ofNat rip.l.seq
    ts := UInt32.ofNat rip.l.ts }

/-- The synthesizer after a packet. -/
def rsynthAdvance (rip : RsynthInst) (now : Timespec) : RsynthInst :=
  { rip with
    model.mbt := 0
    l := { ts := addSigned64 rip.l.ts rip.tsInc, seq := add64 rip.l.seq 1 }
    lastTs := now }

/-- `rsynth_next_pkt_pa` on a buffer of `blen = buf.length` bytes: the return
value, the synthesizer and the buffer afterwards. -/
def rsynthNextPktPa (rip : RsynthInst) (plen pt : ℤ) (buf : List UInt8) (filled : ℤ)
    (now : Timespec) : Option (ℤ × RsynthInst × List UInt8) :=
  let hl := rtpHdrLen rip.model
  let rs := ((hl + plen) % 2 ^ 32).toNat
  if rs > buf.length then some (-1, rip, buf)
  else
    (rsynthFill hl plen buf filled).bind fun buf =>
      (store buf 0 (rsynthStamp rip pt).bytes).map fun buf =>
        (toInt32 rs, rsynthAdvance rip now, buf)

/-- `rsynth_skip`. -/
def rsynthSkip (rip : RsynthInst) (npkts : ℤ) : RsynthInst :=
  { rip with l.ts := addSigned64 rip.l.ts (toInt32 (rip.tsInc * npkts)) }

/-- `rsynth_set_mbt`: the old marker bit and the synthesizer with the new one. -/
def rsynthSetMbt (rip : RsynthInst) (newSt : ℕ) : ℕ × RsynthInst :=
  (rip.model.mbt.toNat, { rip with model.mbt := BitVec.ofNat 1 newSt })

/-- `timespecsub`. -/
def timespecsub (vvp uvp : Timespec) : Timespec :=
  let sec := vvp.tvSec - uvp.tvSec
  let nsec := vvp.tvNsec - uvp.tvNsec
  if nsec < 0 then ⟨sec - 1, nsec + 1000000000⟩ else ⟨sec, nsec⟩

/-- `timespec2un64time`. -/
def timespec2un64time (s : Timespec) : ℕ :=
  ((s.tvSec * 1000000000 + s.tvNsec) % 2 ^ 64).toNat

/-- `rsynth_resync`: the counters handed out through `rsp`, and the synthesizer
with its timestamp moved on by the time since the last packet. -/
def rsynthResync (rip : RsynthInst) (now : Timespec) : RsynthSeq × RsynthInst :=
  let elapsed := timespec2un64time (timespecsub now rip.lastTs)
  let samples := ((elapsed * rip.srate) % 2 ^ 64).toNat / 1000000000
  (rip.l, { rip with l.ts := add64 rip.l.ts samples })

/-! ### Calls -/

/-- The calls of a synthesizer's user. -/
inductive SynthCall
  | nextPktPa (plen pt : ℤ) (buf : List UInt8) (filled : ℤ) (now : Timespec)
  | skip (npkts : ℤ)
  | setMbt (newSt : ℕ)
  deriving DecidableEq, Repr

/-- What a call returns. -/
inductive SynthRet
  | pkt (rval : ℤ) (buf : List UInt8)
  | mbt (oldSt : ℕ)
  | unit
  deriving DecidableEq, Repr

/-- One call. -/
def synthStep (rip : RsynthInst) : SynthCall → Option (RsynthInst × SynthRet)
  | .nextPktPa plen pt buf filled now =>
    (rsynthNextPktPa rip plen pt buf filled now).map fun r => (r.2.1, .pkt r.1 r.2.2)
  | .skip npkts => some (rsynthSkip rip npkts, .unit)
  | .setMbt newSt => some ((rsynthSetMbt rip newSt).2, .mbt (rsynthSetMbt rip newSt).1)

end Rtp
