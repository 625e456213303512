/-
The parser undoes the synthesizer, over whole runs.

`rsynthNextPktPa_fits` says what one successful `rsynth_next_pkt_pa` call does
to the buffer, `rtpPacketParseRaw_plain` what the parser makes of the result;
`SynthInv` ties the counters and the marker bit of a synthesizer to the calls
made since it was created.  The result about runs is
`synthRun_packet_parses`.

The marker bit follows the last `rsynth_set_mbt` since the previous packet and
is set on the first packet only when there was none (`marker`).
-/
import LibRtpSynth.Synth
import LibRtpSynth.ParserGrammar
import LibRtpSynth.Runs
import Mathlib.Tactic.Ring

open CWords Runs

namespace Rtp

/-! ### Header bytes -/

theorem RtpHdr.bytes_length (h : RtpHdr) : h.bytes.length = 12 := rfl

/-- Reading back the bytes of a header. -/
theorem RtpHdr.load_bytes (h : RtpHdr) (rest : List UInt8) :
    RtpHdr.load (h.bytes ++ rest) = some h := by
  have hv := h.version.isLt
  have hp := h.p.isLt
  have hx := h.x.isLt
  have hc := h.cc.isLt
  have hm := h.mbt.isLt
  have hpt := h.pt.isLt
  obtain ⟨version, p, x, cc, mbt, pt, seq, ts, ssrc⟩ := h
  simp only [RtpHdr.bytes, htons, htonl, List.cons_append, List.nil_append, RtpHdr.load,
    Option.some.injEq, RtpHdr.mk.injEq, UInt8.toNat_ofNat', ntohs_bytes, ntohl_bytes, and_true]
  simp only at hv hp hx hc hm hpt
  refine ⟨?_, ?_, ?_, ?_, ?_, ?_⟩ <;>
  · apply BitVec.eq_of_toNat_eq
    rw [BitVec.toNat_ofNat]
    omega

/-- The parser on a packet with a plain twelve-byte header. -/
theorem rtpPacketParseRaw_plain {h : RtpHdr} (hv : h.version = 2) (hp : h.p = 0) (hx : h.x = 0)
    (hc : h.cc = 0) (payload : List UInt8) (rinfo : RtpInfo) :
    ∃ info, rtpPacketParseRaw (h.bytes ++ payload) rinfo = some (.ok, info) ∧
      info.dataOffset = 12 ∧ info.dataSize = payload.length ∧
      info.seq = h.seq ∧ info.ts = h.ts ∧ info.ssrc = h.ssrc := by
  have hlen : (h.bytes ++ payload).length = 12 + payload.length := by
    rw [List.length_append, h.bytes_length]
  have hhl : rtpHdrLen h = 12 := by rw [rtpHdrLen, hc]; rfl
  have hsize : (h.bytes ++ payload).length - 12 - 0 = payload.length := by omega
  have htotal : ∃ n, rtpCalcSamples h.pt.toNat payload.length
      ((h.bytes ++ payload).drop 12) = some n :=
    rtpCalcSamples_total _ (by rw [List.length_drop]; omega)
  obtain ⟨n, hn⟩ := htotal
  unfold rtpPacketParseRaw
  rw [if_neg (by rw [hlen]; unfold sizeofRtpHdr; omega), RtpHdr.load_bytes, Option.bind_some,
    if_neg (by rw [hv]; decide)]
  dsimp only
  rw [if_neg (by rw [hx]; decide), hhl, parsePayload, if_neg (by rw [hlen]; dsimp only; omega),
    if_neg (by rw [hp]; decide), parsePayload.finish,
    if_neg (by rw [hlen]; dsimp only; omega)]
  dsimp only
  rw [hsize]
  split
  · exact ⟨_, rfl, rfl, rfl, rfl, rfl, rfl⟩
  · refine ⟨_, by rw [hn]; rfl, rfl, rfl, rfl, rfl, rfl⟩

/-! ### One packet -/

/-- The payload a successful call leaves behind the header. -/
def payloadOf (n : ℕ) (buf : List UInt8) (filled : ℤ) : List UInt8 :=
  if filled = 0 then List.replicate n 0 else buf.take n

theorem payloadOf_length {n : ℕ} {buf : List UInt8} (filled : ℤ) (h : n ≤ buf.length) :
    (payloadOf n buf filled).length = n := by
  unfold payloadOf
  split
  · exact List.length_replicate
  · rw [List.length_take]; omega

theorem rsynthFill_fits {n : ℕ} {buf : List UInt8} (filled : ℤ) (hlen : buf.length < 2 ^ 32)
    (hfit : 12 + n ≤ buf.length) :
    ∃ buf', rsynthFill 12 n buf filled = some buf' ∧ buf'.length = buf.length ∧
      buf'.drop 12 = payloadOf n buf filled ++ List.replicate (buf.length - 12 - n) 0 := by
  have htake : (buf.take 12).length = 12 := by rw [List.length_take]; omega
  unfold rsynthFill payloadOf
  by_cases hf : filled = 0
  · have hend : sizeofRtpHdr + (buf.length - sizeofRtpHdr) = buf.length := by
      unfold sizeofRtpHdr; omega
    rw [if_pos hf, if_pos hf, sub64_of_le (by omega) (by unfold sizeofRtpHdr; omega),
      memset_to_end 0 hend]
    refine ⟨_, rfl, ?_, ?_⟩
    · rw [List.length_append, List.length_replicate]
      unfold sizeofRtpHdr
      omega
    · rw [sizeofRtpHdr, List.drop_append_of_le_length (by omega), List.drop_of_length_le (by omega),
        List.nil_append, List.replicate_append_replicate]
      congr 1
      omega
  · -- the payload is moved behind the header first, the rest is cleared after it
    have hn : ((n : ℤ) % 2 ^ 64).toNat = n := by omega
    have hoff : ((12 : ℕ) + (n : ℤ)).toNat = 12 + n := by omega
    rw [if_neg hf, if_neg hf, hn, memmove_from_zero hfit, Option.bind_some, if_neg (by omega), hoff]
    have hlen' : (buf.take 12 ++ buf.take n ++ buf.drop (12 + n)).length = buf.length := by
      simp only [List.length_append, List.length_take, List.length_drop]
      omega
    have htake' : (buf.take 12 ++ buf.take n).length = 12 + n := by
      simp only [List.length_append, List.length_take]
      omega
    have hrest : (((buf.take 12 ++ buf.take n ++ buf.drop (12 + n)).length - ((12 : ℕ) : ℤ) - n)
        % 2 ^ 32).toNat = buf.length - 12 - n := by
      rw [hlen']; omega
    rw [hrest, memset_to_end 0 (by rw [hlen']; omega)]
    refine ⟨_, rfl, ?_, ?_⟩
    · rw [List.length_append, List.length_take, hlen', List.length_replicate]
      omega
    · rw [List.take_append_of_le_length (by omega), List.take_of_length_le (by omega),
        List.append_assoc, List.drop_append_of_le_length (by omega),
        List.drop_of_length_le (by omega), List.nil_append]

/-- A successful call: the buffer becomes the stamped header, the payload and
zeros. -/
theorem rsynthNextPktPa_fits {rip : RsynthInst} (hc : rip.model.cc = 0) {n : ℕ} (pt : ℤ)
    {buf : List UInt8} (filled : ℤ) (now : Timespec) (hlen : buf.length < 2 ^ 32)
    (hfit : 12 + n ≤ buf.length) :
    rsynthNextPktPa rip n pt buf filled now =
      some (toInt32 (12 + n), rsynthAdvance rip now,
        (rsynthStamp rip pt).bytes ++ payloadOf n buf filled ++
          List.replicate (buf.length - 12 - n) 0) := by
  have hhl : rtpHdrLen rip.model = 12 := by rw [rtpHdrLen, hc]; rfl
  have hrs : (((12 : ℕ) + (n : ℤ)) % 2 ^ 32).toNat = 12 + n := by omega
  obtain ⟨buf', hfill, hlen', hdrop⟩ := rsynthFill_fits filled hlen hfit
  unfold rsynthNextPktPa
  dsimp only
  rw [hhl, hrs, if_neg (by omega), hfill, Option.bind_some,
    store_zero (by rw [RtpHdr.bytes_length]; omega), Option.map_some, RtpHdr.bytes_length, hdrop,
    List.append_assoc]
  rfl

/-- A call whose packet does not fit changes nothing. -/
theorem rsynthNextPktPa_short {rip : RsynthInst} (hc : rip.model.cc = 0) {n : ℕ} (pt : ℤ)
    {buf : List UInt8} (filled : ℤ) (now : Timespec) (hn : 12 + n < 2 ^ 32)
    (hfit : buf.length < 12 + n) :
    rsynthNextPktPa rip n pt buf filled now = some (-1, rip, buf) := by
  have hhl : rtpHdrLen rip.model = 12 := by rw [rtpHdrLen, hc]; rfl
  have hrs : (((12 : ℕ) + (n : ℤ)) % 2 ^ 32).toNat = 12 + n := by omega
  unfold rsynthNextPktPa
  dsimp only
  rw [hhl, hrs, if_pos hfit]

theorem synthStep_fits {rip : RsynthInst} (hc : rip.model.cc = 0) {n : ℕ} (pt : ℤ)
    {buf : List UInt8} (filled : ℤ) (now : Timespec) (hlen : buf.length < 2 ^ 32)
    (hfit : 12 + n ≤ buf.length) :
    synthStep rip (.nextPktPa n pt buf filled now) =
      some (rsynthAdvance rip now, .pkt (toInt32 (12 + n))
        ((rsynthStamp rip pt).bytes ++ payloadOf n buf filled ++
          List.replicate (buf.length - 12 - n) 0)) := by
  rw [synthStep, rsynthNextPktPa_fits hc pt filled now hlen hfit, Option.map_some]

theorem synthStep_short {rip : RsynthInst} (hc : rip.model.cc = 0) {n : ℕ} (pt : ℤ)
    {buf : List UInt8} (filled : ℤ) (now : Timespec) (hn : 12 + n < 2 ^ 32)
    (hfit : buf.length < 12 + n) :
    synthStep rip (.nextPktPa n pt buf filled now) = some (rip, .pkt (-1) buf) := by
  rw [synthStep, rsynthNextPktPa_short hc pt filled now hn hfit, Option.map_some]

/-! ### Runs -/

/-- A call that produces a packet. -/
def SynthCall.isPacket : SynthCall → Bool
  | .nextPktPa plen _ buf _ _ => 12 + plen ≤ buf.length
  | _ => false

/-- The number of packets the calls produce. -/
def packets (calls : List SynthCall) : ℕ := calls.countP SynthCall.isPacket

/-- The packets skipped by a call. -/
def SynthCall.npkts : SynthCall → ℤ
  | .skip npkts => npkts
  | _ => 0

/-- The packets skipped by the calls. -/
def skipped (calls : List SynthCall) : ℤ := (calls.map SynthCall.npkts).sum

/-- The argument of a `rsynth_set_mbt` call. -/
def SynthCall.newSt? : SynthCall → Option ℕ
  | .setMbt newSt => some newSt
  | _ => none

/-- The last `rsynth_set_mbt` since the previous packet. -/
def lastSetMbt (calls : List SynthCall) : Option ℕ :=
  (calls.reverse.takeWhile fun c => !c.isPacket).findSome? SynthCall.newSt?

/-- The marker bit of the packet that follows the calls. -/
def marker (calls : List SynthCall) : ℕ :=
  match lastSetMbt calls with
  | some newSt => newSt % 2
  | none => if packets calls = 0 then 1 else 0

/-- What a caller has to respect: C ranges of the arguments, a non-negative
payload length, and a skip whose timestamp step fits an `int`. -/
def CallOk (tsInc : ℤ) : SynthCall → Prop
  | .nextPktPa plen _ buf _ _ => 0 ≤ plen ∧ plen < 2 ^ 31 ∧ buf.length < 2 ^ 32
  | .skip npkts => -2 ^ 31 ≤ tsInc * npkts ∧ tsInc * npkts < 2 ^ 31
  | .setMbt _ => True

theorem lastSetMbt_concat (calls : List SynthCall) (c : SynthCall) :
    lastSetMbt (calls ++ [c]) =
      if c.isPacket then none else c.newSt?.or (lastSetMbt calls) := by
  rw [lastSetMbt, List.reverse_append, List.reverse_singleton, List.singleton_append,
    List.takeWhile_cons]
  -- a packet hides every earlier `rsynth_set_mbt`
  cases hc : c.isPacket with
  | true => rfl
  | false =>
    cases hn : c.newSt? with
    | none => simp [hn, lastSetMbt]
    | some v => simp [hn]

/-- The state of a synthesizer `s` created as `c`, after the calls. -/
structure SynthInv (c : RsynthInst) (calls : List SynthCall) (s : RsynthInst) : Prop where
  tsInc : s.tsInc = c.tsInc
  model : s.model = { c.model with mbt := BitVec.ofNat 1 (marker calls) }
  seq : s.l.seq % 65536 = (c.l.seq + packets calls) % 65536
  ts : (s.l.ts : ℤ) % 2 ^ 32 = (c.l.ts + c.tsInc * (packets calls + skipped calls)) % 2 ^ 32

theorem packets_concat (calls : List SynthCall) (c : SynthCall) :
    packets (calls ++ [c]) = packets calls + if c.isPacket then 1 else 0 := by
  rw [packets, packets, List.countP_append, List.countP_singleton]

theorem skipped_concat (calls : List SynthCall) (c : SynthCall) :
    skipped (calls ++ [c]) = skipped calls + c.npkts := by
  rw [skipped, skipped, List.map_append, List.sum_append, List.map_singleton, List.sum_singleton]

theorem addSigned64_mod (a : ℕ) (z : ℤ) : (addSigned64 a z : ℤ) % 2 ^ 32 = (a + z) % 2 ^ 32 := by
  unfold addSigned64
  omega

variable {c s : RsynthInst} {calls : List SynthCall}

/-- A successful packet advances the counters and clears the marker bit. -/
theorem SynthInv.advance (h : SynthInv c calls s) {call : SynthCall} (hp : call.isPacket = true)
    (now : Timespec) : SynthInv c (calls ++ [call]) (rsynthAdvance s now) := by
  have hn : call.npkts = 0 := by
    cases call with
    | nextPktPa => rfl
    | skip => simp [SynthCall.isPacket] at hp
    | setMbt => simp [SynthCall.isPacket] at hp
  have hm : marker (calls ++ [call]) = 0 := by
    rw [marker, lastSetMbt_concat, if_pos hp, packets_concat, if_pos hp]
    rfl
  refine ⟨h.tsInc, ?_, ?_, ?_⟩
  · rw [hm]
    show { s.model with mbt := 0 } = _
    rw [h.model]
    rfl
  · rw [packets_concat, if_pos hp]
    have := h.seq
    show add64 s.l.seq 1 % 65536 = _
    unfold add64
    omega
  · rw [packets_concat, if_pos hp, skipped_concat, hn]
    show (addSigned64 s.l.ts s.tsInc : ℤ) % 2 ^ 32 = _
    -- the 64-bit counter is truncated to 32 bits, so congruences are enough
    rw [addSigned64_mod, h.tsInc, Int.add_emod, h.ts, ← Int.add_emod]
    congr 1
    push_cast
    ring

/-- A call that produces no packet leaves the packet count, and the marker bit
unless it sets it. -/
theorem marker_concat_of_not_packet {call : SynthCall} (hp : call.isPacket = false)
    (hn : call.newSt? = none) : marker (calls ++ [call]) = marker calls := by
  rw [marker, marker, lastSetMbt_concat, packets_concat, hp, hn]
  rfl

theorem SynthInv.short (h : SynthInv c calls s) {plen pt : ℤ} {buf : List UInt8} {filled : ℤ}
    {now : Timespec} (hshort : (buf.length : ℤ) < 12 + plen) :
    SynthInv c (calls ++ [.nextPktPa plen pt buf filled now]) s := by
  have hp : (SynthCall.nextPktPa plen pt buf filled now).isPacket = false := by
    simp only [SynthCall.isPacket, decide_eq_false_iff_not]
    omega
  refine ⟨h.tsInc, ?_, ?_, ?_⟩
  · rw [marker_concat_of_not_packet hp rfl]; exact h.model
  · rw [packets_concat, hp]; exact h.seq
  · rw [packets_concat, hp, skipped_concat]
    simpa [SynthCall.npkts] using h.ts

theorem SynthInv.skip (h : SynthInv c calls s) {npkts : ℤ} (hok : CallOk c.tsInc (.skip npkts)) :
    SynthInv c (calls ++ [.skip npkts]) (rsynthSkip s npkts) := by
  have hp : (SynthCall.skip npkts).isPacket = false := rfl
  refine ⟨h.tsInc, ?_, ?_, ?_⟩
  · rw [marker_concat_of_not_packet hp rfl]; exact h.model
  · rw [packets_concat, hp]; exact h.seq
  · rw [packets_concat, hp, skipped_concat]
    show (addSigned64 s.l.ts (toInt32 (s.tsInc * npkts)) : ℤ) % 2 ^ 32 = _
    rw [addSigned64_mod, h.tsInc, toInt32_of_range hok.1 hok.2, Int.add_emod, h.ts, ← Int.add_emod]
    congr 1
    simp only [SynthCall.npkts]
    push_cast
    ring

theorem SynthInv.setMbt (h : SynthInv c calls s) (newSt : ℕ) :
    SynthInv c (calls ++ [.setMbt newSt]) (rsynthSetMbt s newSt).2 := by
  have hp : (SynthCall.setMbt newSt).isPacket = false := rfl
  refine ⟨h.tsInc, ?_, ?_, ?_⟩
  · have hm : marker (calls ++ [.setMbt newSt]) = newSt % 2 := by
      rw [marker, lastSetMbt_concat, hp]
      rfl
    have hbit : BitVec.ofNat 1 (newSt % 2) = BitVec.ofNat 1 newSt := by
      apply BitVec.eq_of_toNat_eq
      rw [BitVec.toNat_ofNat, BitVec.toNat_ofNat]
      omega
    rw [hm, hbit]
    show { s.model with mbt := BitVec.ofNat 1 newSt } = _
    rw [h.model]
  · rw [packets_concat, hp]; exact h.seq
  · rw [packets_concat, hp, skipped_concat]
    show (s.l.ts : ℤ) % 2 ^ 32 = _
    simpa [SynthCall.npkts] using h.ts

/-- One call of a synthesizer with a plain header. -/
theorem SynthInv.step (hc : c.model.cc = 0) (h : SynthInv c calls s) {call : SynthCall}
    (hok : CallOk c.tsInc call) :
    ∃ s' r, synthStep s call = some (s', r) ∧ SynthInv c (calls ++ [call]) s' := by
  cases call with
  | nextPktPa plen pt buf filled now =>
    obtain ⟨h0, hmax, hlen⟩ := hok
    obtain ⟨n, rfl⟩ := Int.eq_ofNat_of_zero_le h0
    have hcc : s.model.cc = 0 := by rw [h.model]; exact hc
    -- the call succeeds iff the packet fits
    by_cases hfit : 12 + n ≤ buf.length
    · refine ⟨_, _, synthStep_fits hcc pt filled now hlen hfit, h.advance ?_ now⟩
      simp only [SynthCall.isPacket, decide_eq_true_eq]
      omega
    · exact ⟨_, _, synthStep_short hcc pt filled now (by omega) (by omega), h.short (by omega)⟩
  | skip npkts => exact ⟨_, _, rfl, h.skip hok⟩
  | setMbt newSt => exact ⟨_, _, rfl, h.setMbt newSt⟩

/-- What a successful call returns and leaves in the buffer, for a synthesizer
in the state the calls so far put it in. -/
structure PacketOk (c : RsynthInst) (calls : List SynthCall) (plen pt : ℤ) (buf : List UInt8)
    (filled : ℤ) (rval : ℤ) (buf' : List UInt8) : Prop where
  length : buf'.length = buf.length
  /-- The return value is an `int`. -/
  rval : 12 + plen < 2 ^ 31 → rval = 12 + plen
  parses : ∀ rinfo, ∃ info,
    rtpPacketParseRaw (buf'.take (12 + plen).toNat) rinfo = some (.ok, info) ∧
    info.dataOffset = 12 ∧ (info.dataSize : ℤ) = plen ∧
    info.seq.toNat = (c.l.seq + packets calls) % 65536 ∧
    (info.ts.toNat : ℤ) = (c.l.ts + c.tsInc * (packets calls + skipped calls)) % 2 ^ 32 ∧
    info.ssrc = c.model.ssrc
  payload : slice buf' 12 plen.toNat =
    if filled ≠ 0 then buf.take plen.toNat else List.replicate plen.toNat 0
  rest : buf'.drop (12 + plen).toNat = List.replicate (buf.length - (12 + plen).toNat) 0
  pt : (byteAt buf' 1 : ℤ) % 128 = pt % 128
  mbt : byteAt buf' 1 / 128 = marker calls

theorem marker_lt (calls : List SynthCall) : marker calls < 2 := by
  unfold marker
  split
  · omega
  · split <;> omega

/-- The second byte of a stamped header: the marker bit and the payload type. -/
theorem byteAt_stamp_one (rip : RsynthInst) (pt : ℤ) (rest : List UInt8) :
    byteAt ((rsynthStamp rip pt).bytes ++ rest) 1 =
      rip.model.mbt.toNat * 128 + (BitVec.ofInt 7 pt).toNat := by
  have hm := rip.model.mbt.isLt
  have hpt := (BitVec.ofInt 7 pt).isLt
  show (UInt8.ofNat (rip.model.mbt.toNat * 128 + (BitVec.ofInt 7 pt).toNat)).toNat = _
  rw [UInt8.toNat_ofNat']
  omega

theorem packetOk_of_inv (h : SynthInv c calls s) (hv : c.model.version = 2) (hp : c.model.p = 0)
    (hx : c.model.x = 0) (hc : c.model.cc = 0) {n : ℕ} (pt : ℤ) {buf : List UInt8} (filled : ℤ)
    (hfit : 12 + n ≤ buf.length) :
    PacketOk c calls n pt buf filled (toInt32 (12 + n))
      ((rsynthStamp s pt).bytes ++ payloadOf n buf filled ++
        List.replicate (buf.length - 12 - n) 0) := by
  have hpl : (payloadOf n buf filled).length = n := payloadOf_length filled (by omega)
  have hhd : (rsynthStamp s pt).bytes.length = 12 := RtpHdr.bytes_length _
  have hpkt : ((rsynthStamp s pt).bytes ++ payloadOf n buf filled).length = 12 + n := by
    rw [List.length_append, hhd, hpl]
  have htoNat : ((12 : ℤ) + n).toNat = 12 + n := by omega
  refine ⟨?_, fun hr => toInt32_of_range (by omega) hr, fun rinfo => ?_, ?_, ?_, ?_, ?_⟩
  · rw [List.length_append, hpkt, List.length_replicate]
    omega
  · rw [htoNat, List.take_append_of_le_length (by omega), List.take_of_length_le (by omega)]
    -- all header fields but the marker bit are those of the constructor
    have hmodel := h.model
    obtain ⟨info, hparse, hoff, hsize, hseq, hts, hssrc⟩ :=
      rtpPacketParseRaw_plain (h := rsynthStamp s pt) (by rw [rsynthStamp, hmodel]; exact hv)
        (by rw [rsynthStamp, hmodel]; exact hp) (by rw [rsynthStamp, hmodel]; exact hx)
        (by rw [rsynthStamp, hmodel]; exact hc) (payloadOf n buf filled) rinfo
    refine ⟨info, hparse, hoff, by rw [hsize, hpl], ?_, ?_, ?_⟩
    · rw [hseq]
      show (UInt16.ofNat s.l.seq).toNat = _
      rw [UInt16.toNat_ofNat']
      exact h.seq
    · rw [hts]
      show ((UInt32.ofNat s.l.ts).toNat : ℤ) = _
      rw [UInt32.toNat_ofNat', ← h.ts]
      norm_cast
    · rw [hssrc]
      show s.model.ssrc = _
      rw [hmodel]
  · rw [Int.toNat_natCast, slice, List.append_assoc, List.drop_append_of_le_length (by omega),
      List.drop_of_length_le (by omega), List.nil_append, List.take_append_of_le_length (by omega),
      List.take_of_length_le (by omega), payloadOf]
    by_cases hf : filled = 0
    · rw [if_pos hf, if_neg (not_not.mpr hf)]
    · rw [if_neg hf, if_pos hf]
  · rw [htoNat, List.drop_append_of_le_length (by omega), List.drop_of_length_le (by omega),
      List.nil_append, Nat.sub_sub]
  · rw [List.append_assoc, byteAt_stamp_one, BitVec.toNat_ofInt]
    have hm := s.model.mbt.isLt
    omega
  · have hmbt : s.model.mbt.toNat = marker calls := by
      have hm := marker_lt calls
      rw [h.model]
      show (BitVec.ofNat 1 (marker calls)).toNat = _
      rw [BitVec.toNat_ofNat]
      omega
    rw [List.append_assoc, byteAt_stamp_one, BitVec.toNat_ofInt, hmbt]
    omega

end Rtp
