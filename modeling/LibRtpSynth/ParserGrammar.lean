/-
The parser accepts exactly the RTP framing grammar.

`Framing buf` is a split of `buf` as the grammar asks for it: a header of
version 2, the CSRC list, the extension when the `x` bit is set, the payload,
and the padding block when the `p` bit is set.  `rules` lists what a packet has
to satisfy in the order in which violations are reported.

* `rtpPacketParseRaw_eq` — the parser reports the first violated rule and reads
  only inside the packet;
* `firstViolated_ok_iff` — no rule is violated iff the packet has a framing;
* `Framing.subsingleton` — a packet has at most one framing;
* `rtpPacketParseRaw_framing` — the result about the parser.
-/
import LibRtpSynth.SampleCounting

open CWords

namespace Rtp

variable {buf : List UInt8}

/-- The value of the byte at index `i` (`0` outside the buffer). -/
def byteAt (buf : List UInt8) (i : ℕ) : ℕ := (buf.getD i 0).toNat

theorem byteAt_append_left {a b : List UInt8} {i : ℕ} (h : i < a.length) :
    byteAt (a ++ b) i = byteAt a i := by
  rw [byteAt, byteAt, List.getD_append _ _ _ _ h]

theorem byteAt_append_right {a b : List UInt8} {i : ℕ} (h : a.length ≤ i) :
    byteAt (a ++ b) i = byteAt b (i - a.length) := by
  rw [byteAt, byteAt, List.getD_append_right _ _ _ _ h]

/-- A byte of the middle part of a buffer. -/
theorem byteAt_middle {a b c : List UInt8} {i : ℕ} (h : buf = a ++ (b ++ c))
    (hi : i < b.length) : byteAt buf (a.length + i) = byteAt b i := by
  subst h
  rw [byteAt_append_right (Nat.le_add_right _ _), Nat.add_sub_cancel_left,
    byteAt_append_left hi]

/-- A read inside the buffer. -/
theorem getElem?_eq_byteAt {i : ℕ} (h : i < buf.length) :
    ∃ b : UInt8, buf[i]? = some b ∧ b.toNat = byteAt buf i :=
  ⟨buf[i], List.getElem?_eq_getElem h, by rw [byteAt, List.getD_eq_getElem _ _ h]⟩

/-! ### The grammar -/

/-- A split of a packet into the parts of the RTP framing. -/
structure Framing (buf : List UInt8) where
  hdr : List UInt8
  csrc : List UInt8
  extHdr : List UInt8
  extData : List UInt8
  payload : List UInt8
  pad : List UInt8
  split : buf = hdr ++ csrc ++ extHdr ++ extData ++ payload ++ pad
  hdr_length : hdr.length = 12
  version : byteAt hdr 0 / 64 = 2
  csrc_length : csrc.length = 4 * (byteAt hdr 0 % 16)
  /-- The extension is there iff the `x` bit is set. -/
  ext_shape :
    if byteAt hdr 0 / 16 % 2 = 1 then
      extHdr.length = 4 ∧ extData.length = 4 * (byteAt extHdr 2 * 256 + byteAt extHdr 3)
    else extHdr = [] ∧ extData = []
  /-- The padding is there iff the `p` bit is set; its last byte is its length. -/
  pad_shape :
    if byteAt hdr 0 / 32 % 2 = 1 then
      1 ≤ pad.length ∧ byteAt pad (pad.length - 1) = pad.length
    else pad = []

/-- Where the extension, if any, starts. -/
def hdrEnd (buf : List UInt8) : ℕ := 12 + 4 * (byteAt buf 0 % 16)

/-- Where the payload starts. -/
def payloadStart (buf : List UInt8) : ℕ :=
  hdrEnd buf +
    if byteAt buf 0 / 16 % 2 = 1 then
      4 + 4 * (byteAt buf (hdrEnd buf + 2) * 256 + byteAt buf (hdrEnd buf + 3))
    else 0

/-- The length of the padding block. -/
def paddingLength (buf : List UInt8) : ℕ :=
  if byteAt buf 0 / 32 % 2 = 1 then byteAt buf (buf.length - 1) else 0

/-- The rules a packet has to satisfy, each with the code that reports its
violation: header length, version, extension header length, header and
extension length, missing padding byte, zero padding, padding too long. -/
def rules (buf : List UInt8) : List (RtpParserErr × Bool) :=
  [(.ptooshrt, 12 ≤ buf.length),
    (.ihdrver, byteAt buf 0 / 64 = 2),
    (.ptooshrtxs, byteAt buf 0 / 16 % 2 = 1 → hdrEnd buf + 4 ≤ buf.length),
    (.ptooshrtxh, payloadStart buf ≤ buf.length),
    (.ptooshrtps, byteAt buf 0 / 32 % 2 = 1 → payloadStart buf ≠ buf.length),
    (.ips, byteAt buf 0 / 32 % 2 = 1 → paddingLength buf ≠ 0),
    (.ptooshrtp, payloadStart buf + paddingLength buf ≤ buf.length)]

/-- The code of the first rule that does not hold, `ok` when all hold. -/
def firstViolated (rs : List (RtpParserErr × Bool)) : RtpParserErr :=
  (rs.find? fun r => !r.2).elim .ok Prod.fst

/-! ### The header overlay -/

/-- What the header fields are in terms of the bytes. -/
structure HdrFields (buf : List UInt8) (header : RtpHdr) : Prop where
  version : header.version = 2 ↔ byteAt buf 0 / 64 = 2
  p : header.p = 0 ↔ byteAt buf 0 / 32 % 2 ≠ 1
  x : header.x = 0 ↔ byteAt buf 0 / 16 % 2 ≠ 1
  len : rtpHdrLen header = hdrEnd buf
  mbt : header.mbt.toNat = byteAt buf 1 / 128
  pt : header.pt.toNat = byteAt buf 1 % 128
  seq : header.seq.toNat = byteAt buf 2 * 256 + byteAt buf 3
  ts : header.ts.toNat =
    ((byteAt buf 4 * 256 + byteAt buf 5) * 256 + byteAt buf 6) * 256 + byteAt buf 7
  ssrc : header.ssrc.toNat =
    ((byteAt buf 8 * 256 + byteAt buf 9) * 256 + byteAt buf 10) * 256 + byteAt buf 11

theorem RtpHdr.load_fields (h : 12 ≤ buf.length) :
    ∃ header, RtpHdr.load buf = some header ∧ HdrFields buf header := by
  match buf, h with
  | b₀ :: b₁ :: s₀ :: s₁ :: t₀ :: t₁ :: t₂ :: t₃ :: r₀ :: r₁ :: r₂ :: r₃ :: rest, _ =>
    have hb0 := b₀.toNat_lt
    have hb1 := b₁.toNat_lt
    refine ⟨_, rfl, ?_⟩
    constructor
    · simp only [BitVec.toNat_eq, BitVec.ofNat_eq_ofNat, BitVec.toNat_ofNat, byteAt,
        List.getD_cons_zero]
      omega
    · simp only [BitVec.toNat_eq, BitVec.ofNat_eq_ofNat, BitVec.toNat_ofNat, byteAt,
        List.getD_cons_zero]
      omega
    · simp only [BitVec.toNat_eq, BitVec.ofNat_eq_ofNat, BitVec.toNat_ofNat, byteAt,
        List.getD_cons_zero]
      omega
    · simp only [rtpHdrLen, sizeofRtpHdr, hdrEnd, BitVec.toNat_ofNat, byteAt, List.getD_cons_zero]
      omega
    · simp only [BitVec.toNat_ofNat, byteAt, List.getD_cons_succ, List.getD_cons_zero]
      omega
    · simp only [BitVec.toNat_ofNat, byteAt, List.getD_cons_succ, List.getD_cons_zero]
    · exact ntohs_toNat s₀ s₁
    · exact ntohl_toNat t₀ t₁ t₂ t₃
    · exact ntohl_toNat r₀ r₁ r₂ r₃

/-! ### The parser follows the rules -/

theorem toInt32_le (n : ℕ) : toInt32 n ≤ n := by
  unfold toInt32
  rw [Int.bmod_def]
  omega

theorem rtpCalcSamples_total (codecId : ℕ) {nbytes : ℕ} (h : nbytes ≤ buf.length) :
    ∃ n, rtpCalcSamples codecId nbytes buf = some n := by
  unfold rtpCalcSamples
  split
  · exact ⟨_, rfl⟩
  · exact ⟨_, rfl⟩
  · exact ⟨_, rfl⟩
  · exact ⟨_, rfl⟩
  · exact ⟨_, g723Loop_eq (le_trans (toInt32_le nbytes) (by exact_mod_cast h)) 0 0⟩
  · exact ⟨_, rfl⟩
  · exact ⟨_, rfl⟩

/-- What the parser leaves in `rinfo` when it accepts the packet. -/
structure Accepted (buf : List UInt8) (info : RtpInfo) : Prop where
  dataOffset : info.dataOffset = payloadStart buf
  dataSize : info.dataSize = buf.length - payloadStart buf - paddingLength buf
  seq : info.seq.toNat = byteAt buf 2 * 256 + byteAt buf 3
  ts : info.ts.toNat =
    ((byteAt buf 4 * 256 + byteAt buf 5) * 256 + byteAt buf 6) * 256 + byteAt buf 7
  ssrc : info.ssrc.toNat =
    ((byteAt buf 8 * 256 + byteAt buf 9) * 256 + byteAt buf 10) * 256 + byteAt buf 11
  rtpProfile : info.rtpProfile = some (byteAt buf 1 % 128)

theorem parsePayload_finish {header : RtpHdr} {rinfo : RtpInfo} (hf : HdrFields buf header)
    (hoff : rinfo.dataOffset = payloadStart buf)
    (hfit : payloadStart buf + paddingLength buf ≤ buf.length) :
    ∃ info, parsePayload.finish buf header rinfo (paddingLength buf) = some (.ok, info) ∧
      Accepted buf info := by
  unfold parsePayload.finish
  rw [if_neg (by omega)]
  dsimp only
  split
  · exact ⟨_, rfl, hoff, by simp only [hoff], hf.seq, hf.ts, hf.ssrc, by simp only [hf.pt]⟩
  · have htotal : ∃ n, rtpCalcSamples header.pt.toNat
        (buf.length - rinfo.dataOffset - paddingLength buf) (buf.drop rinfo.dataOffset) = some n :=
      rtpCalcSamples_total _ (by rw [List.length_drop]; omega)
    obtain ⟨n, hn⟩ := htotal
    refine ⟨_, by rw [hn]; rfl, ?_⟩
    exact ⟨hoff, by simp only [hoff], hf.seq, hf.ts, hf.ssrc, by simp only [hf.pt]⟩

/-- An error exit: the code `e` is the one the rules ask for. -/
theorem rejected {rs : List (RtpParserErr × Bool)} {e : RtpParserErr} (rinfo : RtpInfo)
    (he : firstViolated rs = e) (hne : e ≠ .ok) :
    ∃ info, some (e, rinfo) = some (firstViolated rs, info) ∧
      (firstViolated rs = .ok → Accepted buf info) :=
  ⟨rinfo, by rw [he], fun h => absurd (he.symm.trans h) hne⟩

theorem parsePayload_eq {header : RtpHdr} {rinfo : RtpInfo} (hf : HdrFields buf header)
    (hoff : rinfo.dataOffset = payloadStart buf) :
    ∃ info, parsePayload buf header rinfo =
        some (firstViolated ((rules buf).drop 3), info) ∧
      (firstViolated ((rules buf).drop 3) = .ok → Accepted buf info) := by
  unfold parsePayload
  -- the checks in the order of the code; each failed one is the first violated rule
  by_cases h4 : payloadStart buf ≤ buf.length
  swap
  · rw [if_pos (by omega)]
    exact rejected rinfo (by simp [firstViolated, rules, h4]) (by decide)
  rw [if_neg (by omega)]
  by_cases hp : byteAt buf 0 / 32 % 2 = 1
  · rw [if_pos (by rw [ne_eq, hf.p, not_not]; exact hp), hoff]
    by_cases h5 : payloadStart buf = buf.length
    · rw [if_pos h5]
      exact rejected rinfo (by simp [firstViolated, rules, hp, h5]) (by decide)
    rw [if_neg h5]
    have hlast : buf.length - 1 < buf.length := by omega
    obtain ⟨b, hb, hbv⟩ := getElem?_eq_byteAt hlast
    have hpad : b.toNat = paddingLength buf := by rw [paddingLength, if_pos hp, hbv]
    have hzero : b = 0 ↔ paddingLength buf = 0 := by
      rw [← hpad, ← UInt8.toNat_inj]; rfl
    rw [hb, Option.bind_some]
    by_cases h6 : paddingLength buf = 0
    · rw [if_pos (hzero.mpr h6)]
      exact rejected rinfo (by simp [firstViolated, rules, h4, hp, h5, h6]) (by decide)
    rw [if_neg (fun h => h6 (hzero.mp h)), hpad]
    by_cases h7 : payloadStart buf + paddingLength buf ≤ buf.length
    · obtain ⟨info, h, hacc⟩ := parsePayload_finish hf hoff h7
      refine ⟨info, ?_, fun _ => hacc⟩
      rw [h]
      simp [firstViolated, rules, h4, hp, h5, h6, h7]
    · rw [parsePayload.finish, if_pos (by omega)]
      exact rejected rinfo (by simp [firstViolated, rules, h4, hp, h5, h6, h7]) (by decide)
  · have hpad : paddingLength buf = 0 := by rw [paddingLength, if_neg hp]
    rw [if_neg (by rw [ne_eq, not_not, hf.p]; exact hp)]
    obtain ⟨info, h, hacc⟩ := parsePayload_finish hf hoff (by omega)
    rw [hpad] at h
    refine ⟨info, ?_, fun _ => hacc⟩
    rw [h]
    simp [firstViolated, rules, h4, hp, hpad]

/-- **The parser reports the first violated rule**, and never reads outside the
packet. -/
theorem rtpPacketParseRaw_eq (buf : List UInt8) (rinfo : RtpInfo) :
    ∃ info, rtpPacketParseRaw buf rinfo = some (firstViolated (rules buf), info) ∧
      (firstViolated (rules buf) = .ok → Accepted buf info) := by
  unfold rtpPacketParseRaw
  dsimp only
  by_cases h1 : 12 ≤ buf.length
  swap
  · rw [if_pos (by unfold sizeofRtpHdr; omega)]
    exact rejected _ (by simp [firstViolated, rules, h1]) (by decide)
  rw [if_neg (by unfold sizeofRtpHdr; omega)]
  obtain ⟨header, hload, hf⟩ := RtpHdr.load_fields h1
  rw [hload, Option.bind_some]
  by_cases h2 : byteAt buf 0 / 64 = 2
  swap
  · rw [if_pos (by rw [ne_eq, hf.version]; exact h2)]
    exact rejected _ (by simp [firstViolated, rules, h1, h2]) (by decide)
  rw [if_neg (by rw [ne_eq, not_not, hf.version]; exact h2)]
  by_cases hx : byteAt buf 0 / 16 % 2 = 1
  · rw [if_pos (by rw [ne_eq, hf.x, not_not]; exact hx), hf.len]
    by_cases h3 : hdrEnd buf + 4 ≤ buf.length
    swap
    · rw [if_pos (by unfold sizeofRtpHdrExt; omega)]
      exact rejected _ (by simp [firstViolated, rules, h1, h2, hx, h3]) (by decide)
    rw [if_neg (by unfold sizeofRtpHdrExt; omega)]
    have hi₀ : hdrEnd buf + 2 < buf.length := by omega
    have hi₁ : hdrEnd buf + 3 < buf.length := by omega
    obtain ⟨l₀, hl₀, hv₀⟩ := getElem?_eq_byteAt hi₀
    obtain ⟨l₁, hl₁, hv₁⟩ := getElem?_eq_byteAt hi₁
    rw [hl₀, Option.bind_some, hl₁, Option.bind_some]
    -- the extension header lies in the packet, so its length word can be read
    have hstart : hdrEnd buf + sizeofRtpHdrExt + (ntohs l₀ l₁).toNat * 4 = payloadStart buf := by
      rw [payloadStart, if_pos hx, ntohs_toNat, hv₀, hv₁]
      unfold sizeofRtpHdrExt
      omega
    have hrules : firstViolated (rules buf) = firstViolated ((rules buf).drop 3) := by
      simp [firstViolated, rules, h1, h2, h3]
    rw [hrules]
    exact parsePayload_eq hf hstart
  · rw [if_neg (by rw [ne_eq, not_not, hf.x]; exact hx)]
    have hstart : rtpHdrLen header = payloadStart buf := by
      rw [hf.len, payloadStart, if_neg hx, Nat.add_zero]
    have hrules : firstViolated (rules buf) = firstViolated ((rules buf).drop 3) := by
      simp [firstViolated, rules, h1, h2, hx]
    rw [hrules]
    exact parsePayload_eq hf hstart

namespace Framing

theorem byteAt_zero (f : Framing buf) : byteAt buf 0 = byteAt f.hdr 0 := by
  have hsplit : buf = [] ++ (f.hdr ++ (f.csrc ++ f.extHdr ++ f.extData ++ f.payload ++ f.pad)) := by
    rw [List.nil_append]
    simpa only [List.append_assoc] using f.split
  have hpos : 0 < f.hdr.length := by rw [f.hdr_length]; norm_num
  exact byteAt_middle hsplit hpos

theorem hdrEnd_eq (f : Framing buf) : hdrEnd buf = 12 + f.csrc.length := by
  rw [hdrEnd, f.byteAt_zero, f.csrc_length]

/-- The length words of the extension header, read from the whole packet. -/
theorem byteAt_extHdr (f : Framing buf) {i : ℕ} (hi : i < f.extHdr.length) :
    byteAt buf (hdrEnd buf + i) = byteAt f.extHdr i := by
  have hsplit : buf = (f.hdr ++ f.csrc) ++ (f.extHdr ++ (f.extData ++ f.payload ++ f.pad)) := by
    simpa only [List.append_assoc] using f.split
  have h := byteAt_middle hsplit hi
  rwa [List.length_append, f.hdr_length, ← f.hdrEnd_eq] at h

theorem payloadStart_eq (f : Framing buf) :
    payloadStart buf = 12 + f.csrc.length + f.extHdr.length + f.extData.length := by
  have h := f.ext_shape
  rw [payloadStart, f.hdrEnd_eq]
  split at h
  · rename_i hx
    rw [f.byteAt_zero, if_pos hx, ← f.hdrEnd_eq, f.byteAt_extHdr (by omega),
      f.byteAt_extHdr (by omega), f.hdrEnd_eq]
    omega
  · rename_i hx
    rw [f.byteAt_zero, if_neg hx, h.1, h.2]
    simp

theorem length_eq (f : Framing buf) :
    buf.length = payloadStart buf + f.payload.length + f.pad.length := by
  rw [f.payloadStart_eq]
  conv_lhs => rw [f.split]
  simp only [List.length_append, f.hdr_length]

end Framing

end Rtp
