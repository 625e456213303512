/-
The RTP packet parser (`src/rtp.c`, `src/rtp.h`, `src/rtp_info.h`).

`rtpPacketParseRaw buf rinfo` is `rtp_packet_parse_raw` on the bytes `buf` with
the caller's `rinfo`: it returns the parser code together with the record as
the function leaves it, on the error exits too.  Every byte is read through
`buf[i]?`, so the outer `none` stands for a read outside the packet.

The header is the little-endian branch of `struct rtp_hdr`, bit-fields as
`BitVec`s; `seq`, `ts` and `ssrc` are kept as the values their bytes have in
network order.
-/
import LibRtpSynth.CWords

open CWords

namespace Rtp

/-- `rtp_parser_err_t`. -/
inductive RtpParserErr
  | notparsed | ok | ptooshrt | ihdrver | ptooshrtxs | ptooshrtxh | ptooshrtps | ptooshrtp | ips
  deriving DecidableEq, Repr

/-- The numeric value of a parser code. -/
def RtpParserErr.code : RtpParserErr → ℤ
  | .notparsed => 0
  | .ok => 1
  | .ptooshrt => -1
  | .ihdrver => -2
  | .ptooshrtxs => -3
  | .ptooshrtxh => -4
  | .ptooshrtps => -5
  | .ptooshrtp => -6
  | .ips => -7

/-- `RTP_NSAMPLES_UNKNOWN`. -/
def rtpNsamplesUnknown : ℤ := -1

/-- `struct rtp_info`.  The pointer `rtp_profile` is the index it has in the
table `rtp_profiles`. -/
structure RtpInfo where
  dataSize : ℕ
  dataOffset : ℕ
  nsamples : ℤ
  ts : UInt32
  seq : UInt16
  ssrc : UInt32
  appendable : ℤ
  rtpProfile : Option ℕ
  deriving DecidableEq, Repr

/-- The record after `memset(.., '\0', ..)`. -/
def RtpInfo.zero : RtpInfo := ⟨0, 0, 0, 0, 0, 0, 0, none⟩

/-- `struct rtp_hdr` without its CSRC list. -/
structure RtpHdr where
  version : BitVec 2
  p : BitVec 1
  x : BitVec 1
  cc : BitVec 4
  mbt : BitVec 1
  pt : BitVec 7
  seq : UInt16
  ts : UInt32
  ssrc : UInt32
  deriving DecidableEq, Repr

/-- `sizeof(struct rtp_hdr)`. -/
def sizeofRtpHdr : ℕ := 12

/-- `sizeof(struct rtp_hdr_ext)`. -/
def sizeofRtpHdrExt : ℕ := 4

/-- `RTP_HDR_LEN`. -/
def rtpHdrLen (header : RtpHdr) : ℕ := sizeofRtpHdr + header.cc.toNat * 4

/-- Overlay the header on the first twelve bytes of a packet. -/
def RtpHdr.load : List UInt8 → Option RtpHdr
  | b₀ :: b₁ :: s₀ :: s₁ :: t₀ :: t₁ :: t₂ :: t₃ :: r₀ :: r₁ :: r₂ :: r₃ :: _ =>
    some
      { version := BitVec.ofNat 2 (b₀.toNat / 64)
        p := BitVec.ofNat 1 (b₀.toNat / 32)
        x := BitVec.ofNat 1 (b₀.toNat / 16)
        cc := BitVec.ofNat 4 b₀.toNat
        mbt := BitVec.ofNat 1 (b₁.toNat / 128)
        pt := BitVec.ofNat 7 b₁.toNat
        seq := ntohs s₀ s₁
        ts := ntohl t₀ t₁ t₂ t₃
        ssrc := ntohl r₀ r₁ r₂ r₃ }
  | _ => none

/-- The twelve bytes of a header. -/
def RtpHdr.bytes (h : RtpHdr) : List UInt8 :=
  [UInt8.ofNat (h.version.toNat * 64 + h.p.toNat * 32 + h.x.toNat * 16 + h.cc.toNat),
    UInt8.ofNat (h.mbt.toNat * 128 + h.pt.toNat)] ++ htons h.seq ++ htonl h.ts ++ htonl h.ssrc

/-! ### Sample counting -/

/-- `g723_len`. -/
def g723Len (ch : UInt8) : ℤ :=
  match ch.toNat % 4 with
  | 2 => 4  -- silence insertion descriptor
  | 0 => 24 -- 6.3 kbit/s
  | 1 => 20 -- 5.3 kbit/s
  | _ => rtpNsamplesUnknown

theorem g723Len_cases (ch : UInt8) :
    g723Len ch = 4 ∨ g723Len ch = 24 ∨ g723Len ch = 20 ∨ g723Len ch = rtpNsamplesUnknown := by
  unfold g723Len
  split <;> simp

theorem g723Len_pos {ch : UInt8} (h : g723Len ch ≠ rtpNsamplesUnknown) : 4 ≤ g723Len ch := by
  rcases g723Len_cases ch with h' | h' | h' | h'
  · omega
  · omega
  · omega
  · exact absurd h' h

/-- The loop of `g723_samples`, from position `pos` with `samples` counted.  The
two counters are `int`s in the source and integers here; they agree up to
payloads of 35 million bytes (`g723SamplesInt_exact`), far beyond any datagram. -/
def g723Loop (buf : List UInt8) (maxlen : ℤ) (pos : ℕ) (samples : ℤ) : Option ℤ :=
  if (pos : ℤ) < maxlen then
    match buf[pos]? with
    | none => none
    | some ch =>
      if hn : g723Len ch = rtpNsamplesUnknown then some rtpNsamplesUnknown
      else g723Loop buf maxlen (pos + (g723Len ch).toNat) (samples + 240)
  else some samples
termination_by (maxlen - pos).toNat
decreasing_by
  rcases g723Len_cases ch with h | h | h | h
  · rw [h]; omega
  · rw [h]; omega
  · rw [h]; omega
  · exact absurd h hn

/-- `g723_samples`. -/
def g723Samples (buf : List UInt8) (maxlen : ℤ) : Option ℤ := g723Loop buf maxlen 0 0

/-- `rtp_calc_samples`: the payload types are those of `enum rtp_type`, and the
results are converted from `size_t` to `int` on return. -/
def rtpCalcSamples (codecId : ℕ) (nbytes : ℕ) (data : List UInt8) : Option ℤ :=
  match codecId with
  | 0 => some (toInt32 nbytes) -- RTP_PCMU
  | 8 => some (toInt32 nbytes) -- RTP_PCMA
  | 18 => some (toInt32 (nbytes / 10 * 80 + (if nbytes % 10 = 0 then 0 else 80) : ℕ)) -- RTP_G729
  | 3 => some (toInt32 (160 * (nbytes / 33) : ℕ)) -- RTP_GSM
  | 4 => g723Samples data (toInt32 nbytes) -- RTP_G723
  | 9 => some (toInt32 nbytes) -- RTP_G722
  | _ => some rtpNsamplesUnknown

/-! ### The parser -/

/-- The last part of `rtp_packet_parse_raw`, from the check of the header and
extension length on. -/
def parsePayload (buf : List UInt8) (header : RtpHdr) (rinfo : RtpInfo) :
    Option (RtpParserErr × RtpInfo) :=
  if buf.length < rinfo.dataOffset then some (.ptooshrtxh, rinfo)
  else if header.p ≠ 0 then
    if rinfo.dataOffset = buf.length then some (.ptooshrtps, rinfo)
    else
      (buf[buf.length - 1]?).bind fun paddingSize =>
        if paddingSize = 0 then some (.ips, rinfo) else finish paddingSize.toNat
  else finish 0
where
  /-- Everything after the padding is known. -/
  finish (paddingSize : ℕ) : Option (RtpParserErr × RtpInfo) :=
    if buf.length < rinfo.dataOffset + paddingSize then some (.ptooshrtp, rinfo)
    else
      let rinfo :=
        { rinfo with
          dataSize := buf.length - rinfo.dataOffset - paddingSize
          ts := header.ts
          seq := header.seq
          ssrc := header.ssrc
          rtpProfile := some header.pt.toNat }
      if rinfo.dataSize = 0 then some (.ok, rinfo)
      else
        (rtpCalcSamples header.pt.toNat rinfo.dataSize (buf.drop rinfo.dataOffset)).map
          fun nsamples =>
            (.ok,
              { rinfo with
                nsamples := nsamples
                -- a comfort noise frame ends a G.729 packet
                appendable :=
                  if header.pt.toNat = 18 ∧ rinfo.dataSize % 10 ≠ 0 then 0
                  else rinfo.appendable })

/-- `rtp_packet_parse_raw`. -/
def rtpPacketParseRaw (buf : List UInt8) (rinfo : RtpInfo) : Option (RtpParserErr × RtpInfo) :=
  let rinfo :=
    { rinfo with dataSize := 0, dataOffset := 0, appendable := 1, nsamples := rtpNsamplesUnknown }
  if buf.length < sizeofRtpHdr then some (.ptooshrt, rinfo)
  else
    (RtpHdr.load buf).bind fun header =>
      if header.version ≠ 2 then some (.ihdrver, rinfo)
      else
        let rinfo := { rinfo with dataOffset := rtpHdrLen header }
        if header.x ≠ 0 then
          if buf.length < rinfo.dataOffset + sizeofRtpHdrExt then some (.ptooshrtxs, rinfo)
          else
            (buf[rinfo.dataOffset + 2]?).bind fun l₀ => (buf[rinfo.dataOffset + 3]?).bind fun l₁ =>
              parsePayload buf header
                { rinfo with
                  dataOffset :=
                    rinfo.dataOffset + sizeofRtpHdrExt + (ntohs l₀ l₁).toNat * 4 }
        else parsePayload buf header rinfo

end Rtp
