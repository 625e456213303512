/-
The Python object `RtpSynth` (`python/RtpSynth_mod.c`), and how
`rsynth_next_pkt_pa` treats its buffer.

`RtpSynth.next_pkt` makes a `bytes` object that is 32 bytes longer than the
payload length, copies the payload to its start, has `rsynth_next_pkt_pa` move
it behind the header, and cuts the object down to the packet.

* `rsynthNextPktPa_inside` — `rsynth_next_pkt_pa` stays inside its buffer unless
  its guard lets a negative length pass, and then if it only clears a buffer
  with room for the header;
* `pySynthRun_inside` — the same of the calls that `RtpSynth.next_pkt` makes;
* `pySynthRun_payload` — the packet carries the payload exactly when the payload
  is not longer than `plen`, or so long that the call raises.

The values of arguments are those that `PyArg_ParseTuple` accepts; allocations
are taken to succeed.  An `int` that overflows wraps.
-/
import LibRtpSynth.SynthRoundTrip

open CWords Runs

namespace Rtp

/-! ### The object -/

/-- The exceptions raised. -/
inductive PySynthError
  | runtimeError (msg : String)
  | valueError (msg : String)
  deriving DecidableEq, Repr

/-- `PyRtpSynth`. -/
structure PyRtpSynth where
  rs : Option RsynthInst
  deriving DecidableEq, Repr

/-- The check at the start of every method. -/
def PyRtpSynth.notInitialized : PySynthError :=
  .runtimeError "RtpSynth handle is not initialized"

/-- The buffer before the call of `rsynth_next_pkt_pa`: `out` as it was allocated,
or zeros behind the payload. -/
def pyFillBuf (out : List UInt8) : Option (List UInt8) → Option (List UInt8)
  | none => some out
  | some payloadData => (memset out 0 0 out.length).bind fun buf => store buf 0 payloadData

/-- The part of `PyRtpSynth_next_pkt` from the call of `rsynth_next_pkt_pa` on. -/
def pyNextPktPa (rip : RsynthInst) (plen pt pktlen : ℤ) (buf : List UInt8) (filled : ℤ) (now : Timespec) :
    Option (PyRtpSynth × Except PySynthError (List UInt8)) :=
  (rsynthNextPktPa rip plen pt buf filled now).map fun (outlen, rip, buf) =>
    (⟨some rip⟩,
      if outlen < 0 ∨ outlen > pktlen then .error (.runtimeError "rsynth_next_pkt_pa() failed")
      -- the object is cut down to the packet
      else .ok (buf.take outlen.toNat))

/-- `PyRtpSynth_next_pkt`.  `pload` are the bytes of the argument, unless it is
`None`; `junk` is what an allocated object holds before anything is written to
it. -/
def pyRtpSynthNextPkt (self : PyRtpSynth) (plen pt : ℤ) (pload : Option (List UInt8)) (junk : ℕ → UInt8)
    (now : Timespec) : Option (PyRtpSynth × Except PySynthError (List UInt8)) :=
  match self.rs with
  | none => some (self, .error PyRtpSynth.notInitialized)
  | some rip =>
    let pktlen := toInt32 (plen + 32)
    if pktlen ≤ 0 then some (self, .error (.valueError "invalid packet length"))
    else if ∃ payloadData ∈ pload, (payloadData.length : ℤ) > pktlen then
      some (self, .error (.valueError "payload is larger than packet buffer"))
    else
      (pyFillBuf ((List.range pktlen.toNat).map junk) pload).bind fun buf =>
        pyNextPktPa rip plen pt pktlen buf (if pload.isSome then 1 else 0) now

/-- The calls of a user of the object.  `init` is called with the values of the
random function and the clock. -/
inductive PySynthCall
  | init (srate ptime : ℤ) (randSsrc randTs randSeq : UInt32) (now : Timespec)
  | nextPkt (plen pt : ℤ) (pload : Option (List UInt8)) (junk : ℕ → UInt8) (now : Timespec)
  | setMbt (newSt : ℕ)
  | resync (now : Timespec)
  | skip (npkts : ℤ)

/-- What a call returns. -/
inductive PySynthRet
  | pyNone
  | pkt (bytes : List UInt8)
  | mbt (oldSt : ℕ)
  deriving DecidableEq, Repr

/-- A method that needs the synthesizer. -/
def PyRtpSynth.withRs (self : PyRtpSynth) (f : RsynthInst → RsynthInst × PySynthRet) :
    Option (PyRtpSynth × Except PySynthError PySynthRet) :=
  match self.rs with
  | none => some (self, .error PyRtpSynth.notInitialized)
  | some rip => some (⟨some (f rip).1⟩, .ok (f rip).2)

/-- One call; `none` stands for an access outside a buffer. -/
def pySynthStep (self : PyRtpSynth) :
    PySynthCall → Option (PyRtpSynth × Except PySynthError PySynthRet)
  | .init srate ptime randSsrc randTs randSeq now =>
    some (⟨some (rsynthCtor srate ptime randSsrc randTs randSeq now)⟩, .ok .pyNone)
  | .nextPkt plen pt pload junk now =>
    (pyRtpSynthNextPkt self plen pt pload junk now).map fun p => (p.1, p.2.map .pkt)
  | .setMbt newSt => self.withRs fun rip => ((rsynthSetMbt rip newSt).2, .mbt (rsynthSetMbt rip newSt).1)
  | .resync now => self.withRs fun rip => ((rsynthResync rip now).2, .pyNone)
  | .skip npkts => self.withRs fun rip => (rsynthSkip rip npkts, .pyNone)

/-! ### The ranges of `rsynth_next_pkt_pa` -/

variable {rip : RsynthInst} {plen : ℤ} {buf : List UInt8}

/-- The length of the packet, as `rsynth_next_pkt_pa` compares it with the length
of the buffer. -/
def packetLen (rip : RsynthInst) (plen : ℤ) : ℕ := ((rtpHdrLen rip.model + plen) % 2 ^ 32).toNat

/-- The condition under which the guard of `rsynth_next_pkt_pa` is enough. -/
def GuardOk (rip : RsynthInst) (plen : ℤ) (blen : ℕ) (filled : ℤ) : Prop :=
  blen < packetLen rip plen ∨ if filled = 0 then 12 ≤ blen else 0 ≤ plen

theorem rtpHdrLen_bounds (h : RtpHdr) : 12 ≤ rtpHdrLen h ∧ rtpHdrLen h ≤ 72 := by
  have := h.cc.isLt
  unfold rtpHdrLen sizeofRtpHdr
  omega

/-- The fill stays inside the buffer, which keeps its length. -/
theorem rsynthFill_inside {hl : ℕ} (hhl : 12 ≤ hl ∧ hl ≤ 72) (hlen : buf.length < 2 ^ 32)
    (hmax : plen < 2 ^ 31) (hguard : ((hl + plen) % 2 ^ 32).toNat ≤ buf.length) {filled : ℤ}
    (hok : if filled = 0 then 12 ≤ buf.length else 0 ≤ plen) :
    ∃ buf', rsynthFill hl plen buf filled = some buf' ∧ buf'.length = buf.length ∧ 12 ≤ buf.length := by
  rw [rsynthFill]
  split at hok
  · rename_i hfilled
    rw [if_pos hfilled, sizeofRtpHdr, sub64_of_le (by omega) hok]
    obtain ⟨buf', heq, hlen'⟩ : ∃ buf', memset buf 12 0 (buf.length - 12) = some buf' ∧
        buf'.length = buf.length := memset_inside 0 (by omega)
    exact ⟨buf', heq, hlen', hok⟩
  · rename_i hfilled
    obtain ⟨n, rfl⟩ := Int.eq_ofNat_of_zero_le hok
    have hn : ((n : ℤ) % 2 ^ 64).toNat = n := by omega
    have hfit : hl + n ≤ buf.length := by omega
    obtain ⟨buf₁, hmove, hlen₁⟩ : ∃ buf₁, memmove buf hl 0 n = some buf₁ ∧ buf₁.length = buf.length :=
      memmove_inside (by omega) hfit
    obtain ⟨buf₂, hset, hlen₂⟩ : ∃ buf₂, memset buf₁ ((hl : ℤ) + n).toNat 0
        (((buf₁.length : ℤ) - hl - n) % 2 ^ 32).toNat = some buf₂ ∧ buf₂.length = buf₁.length :=
      memset_inside 0 (by omega)
    refine ⟨buf₂, ?_, hlen₂.trans hlen₁, by omega⟩
    rw [if_neg hfilled, hn, hmove, Option.bind_some, if_neg (by omega), hset]

/-- A negative length is moved as a huge one. -/
theorem rsynthFill_outside {hl : ℕ} (hlen : buf.length < 2 ^ 32) (hmin : -2 ^ 31 ≤ plen) {filled : ℤ}
    (hok : ¬ if filled = 0 then 12 ≤ buf.length else 0 ≤ plen) : rsynthFill hl plen buf filled = none := by
  rw [rsynthFill]
  split at hok
  · rename_i hfilled
    rw [if_pos hfilled]
    refine memset_outside 0 ?_
    unfold sub64 sizeofRtpHdr
    omega
  · rename_i hfilled
    rw [if_neg hfilled, memmove_outside (by omega), Option.bind_none]

/-- **`rsynth_next_pkt_pa` and its buffer.** -/
theorem rsynthNextPktPa_inside (rip : RsynthInst) (hplen : -2 ^ 31 ≤ plen ∧ plen < 2 ^ 31) (pt : ℤ)
    (hlen : buf.length < 2 ^ 32) (filled : ℤ) (now : Timespec) :
    rsynthNextPktPa rip plen pt buf filled now ≠ none ↔ GuardOk rip plen buf.length filled := by
  rw [rsynthNextPktPa, GuardOk, packetLen]
  by_cases hguard : buf.length < ((rtpHdrLen rip.model + plen) % 2 ^ 32).toNat
  · rw [if_pos hguard]
    exact iff_of_true (Option.some_ne_none _) (.inl hguard)
  · rw [if_neg hguard, or_iff_right hguard]
    by_cases hok : if filled = 0 then 12 ≤ buf.length else 0 ≤ plen
    · obtain ⟨buf', hfill, hlen', h12⟩ := rsynthFill_inside (rtpHdrLen_bounds rip.model) hlen hplen.2
        (not_lt.mp hguard) hok
      obtain ⟨buf'', hstore, -⟩ : ∃ buf'', store buf' 0 (rsynthStamp rip pt).bytes = some buf'' ∧
          buf''.length = buf'.length := store_inside (by rw [RtpHdr.bytes_length]; omega)
      rw [hfill, Option.bind_some, hstore]
      exact iff_of_true (Option.some_ne_none _) hok
    · rw [rsynthFill_outside hlen hplen.1 hok]
      exact iff_of_false (fun h => h rfl) hok

theorem rsynthNextPktPa_refuses (pt : ℤ) (filled : ℤ) (now : Timespec)
    (h : buf.length < packetLen rip plen) :
    rsynthNextPktPa rip plen pt buf filled now = some (-1, rip, buf) := if_pos h

/-! ### Runs of the object -/

variable {self self' : PyRtpSynth} {calls : List PySynthCall}
  {outs : List (Except PySynthError PySynthRet)} {pt : ℤ}

/-- A header without padding, extension and sources. -/
structure PlainHdr (h : RtpHdr) : Prop where
  version : h.version = 2
  p : h.p = 0
  x : h.x = 0
  cc : h.cc = 0

theorem rsynthNextPktPa_model {filled outlen : ℤ} {now : Timespec} {rip' : RsynthInst} {buf' : List UInt8}
    (hplain : PlainHdr rip.model)
    (h : rsynthNextPktPa rip plen pt buf filled now = some (outlen, rip', buf')) : PlainHdr rip'.model := by
  rw [rsynthNextPktPa] at h
  split at h
  · obtain ⟨-, heq⟩ := Prod.mk.inj (Option.some.inj h)
    obtain ⟨rfl, -⟩ := Prod.mk.inj heq
    exact hplain
  · obtain ⟨buf₁, -, hstore⟩ := Option.bind_eq_some_iff.mp h
    obtain ⟨buf₂, -, heq⟩ := Option.map_eq_some_iff.mp hstore
    obtain ⟨-, heq⟩ := Prod.mk.inj heq
    obtain ⟨rfl, -⟩ := Prod.mk.inj heq
    exact ⟨hplain.version, hplain.p, hplain.x, hplain.cc⟩

/-- The synthesizer of an object has a plain header. -/
def PyRtpSynth.Plain (self : PyRtpSynth) : Prop := ∀ rip ∈ self.rs, PlainHdr rip.model

theorem plain_withRs {f : RsynthInst → RsynthInst × PySynthRet} {r : Except PySynthError PySynthRet}
    (h : self.Plain) (hf : ∀ rip, PlainHdr rip.model → PlainHdr (f rip).1.model)
    (hs : self.withRs f = some (self', r)) : self'.Plain := by
  rw [PyRtpSynth.withRs] at hs
  split at hs
  · obtain ⟨rfl, -⟩ := Prod.mk.inj (Option.some.inj hs)
    exact h
  · rename_i rip hrs
    obtain ⟨rfl, -⟩ := Prod.mk.inj (Option.some.inj hs)
    rintro rip' hrip'
    obtain rfl := Option.some.inj hrip'
    exact hf rip (h rip hrs)

theorem plain_nextPkt {pload : Option (List UInt8)} {junk : ℕ → UInt8} {now : Timespec}
    {r : Except PySynthError (List UInt8)} (h : self.Plain)
    (hs : pyRtpSynthNextPkt self plen pt pload junk now = some (self', r)) : self'.Plain := by
  rw [pyRtpSynthNextPkt] at hs
  split at hs
  · obtain ⟨rfl, -⟩ := Prod.mk.inj (Option.some.inj hs)
    exact h
  · rename_i rip hrs
    dsimp only at hs
    split at hs
    · obtain ⟨rfl, -⟩ := Prod.mk.inj (Option.some.inj hs)
      exact h
    · split at hs
      · obtain ⟨rfl, -⟩ := Prod.mk.inj (Option.some.inj hs)
        exact h
      · obtain ⟨buf, -, hs⟩ := Option.bind_eq_some_iff.mp hs
        obtain ⟨⟨outlen, rip', buf'⟩, hnext, heq⟩ := Option.map_eq_some_iff.mp hs
        obtain ⟨rfl, -⟩ := Prod.mk.inj heq
        rintro rip'' hrip''
        obtain rfl := Option.some.inj hrip''
        exact rsynthNextPktPa_model (h rip hrs) hnext

theorem plain_step {call : PySynthCall} {r : Except PySynthError PySynthRet} (h : self.Plain)
    (hs : pySynthStep self call = some (self', r)) : self'.Plain := by
  cases call with
  | init srate ptime randSsrc randTs randSeq now =>
    obtain ⟨rfl, -⟩ := Prod.mk.inj (Option.some.inj hs)
    rintro rip hrip
    obtain rfl := Option.some.inj hrip
    exact ⟨rfl, rfl, rfl, rfl⟩
  | nextPkt plen pt pload junk now =>
    obtain ⟨p, hnext, heq⟩ := Option.map_eq_some_iff.mp hs
    obtain ⟨rfl, -⟩ := Prod.mk.inj heq
    exact plain_nextPkt h hnext
  | setMbt newSt =>
    exact plain_withRs h (fun rip hrip => ⟨hrip.version, hrip.p, hrip.x, hrip.cc⟩) hs
  | resync now => exact plain_withRs h (fun rip hrip => hrip) hs
  | skip npkts => exact plain_withRs h (fun rip hrip => hrip) hs

theorem pySynthRun_plain (hrun : run pySynthStep ⟨none⟩ calls = some (self, outs)) : self.Plain := by
  have htrue : Always pySynthStep (fun _ _ => True) ⟨none⟩ calls := Always.of_forall fun _ _ _ => trivial
  exact run_induction (fun _ _ self => self.Plain) (fun _ hrip => by cases hrip)
    (fun h _ hs => plain_step h hs) htrue hrun

/-! ### What `next_pkt` gives to `rsynth_next_pkt_pa` -/

theorem pyFillBuf_some {out payloadData : List UInt8} (h : payloadData.length ≤ out.length) :
    pyFillBuf out (some payloadData) =
      some (payloadData ++ List.replicate (out.length - payloadData.length) 0) := by
  rw [pyFillBuf, memset_to_end 0 (Nat.zero_add _), Option.bind_some, List.take_zero, List.nil_append,
    store_zero (by rw [List.length_replicate]; exact h), List.drop_replicate]

/-- The buffer that `next_pkt` passes on. -/
theorem pyFillBuf_length (junk : ℕ → UInt8) {pktlen : ℤ} {pload : Option (List UInt8)}
    (hlarge : ¬ ∃ payloadData ∈ pload, (payloadData.length : ℤ) > pktlen) :
    ∃ buf, pyFillBuf ((List.range pktlen.toNat).map junk) pload = some buf ∧ buf.length = pktlen.toNat := by
  have hlen : ((List.range pktlen.toNat).map junk).length = pktlen.toNat := by simp
  cases pload with
  | none => exact ⟨_, rfl, hlen⟩
  | some payloadData =>
    have hfit : payloadData.length ≤ pktlen.toNat := by
      by_contra hover
      exact hlarge ⟨payloadData, rfl, by omega⟩
    refine ⟨_, pyFillBuf_some (by rw [hlen]; exact hfit), ?_⟩
    rw [List.length_append, List.length_replicate, hlen]
    omega

/-- The condition for the calls of `next_pkt`. -/
def PyRtpSynth.GuardOk (self : PyRtpSynth) (plen : ℤ) (pload : Option (List UInt8)) : Prop :=
  self.rs = none ∨ pload = none ∨ plen < -12 ∨ 0 ≤ plen ∨
    ∃ payloadData ∈ pload, (payloadData.length : ℤ) > plen + 32

theorem toInt32_add_32 (hplen : -2 ^ 31 ≤ plen ∧ plen < 2 ^ 31) :
    toInt32 (plen + 32) = if plen + 32 < 2 ^ 31 then plen + 32 else plen + 32 - 2 ^ 32 := by
  split
  · exact toInt32_of_range (by omega) (by assumption)
  · unfold toInt32
    rw [Int.bmod_def]
    omega

theorem pyRtpSynthNextPkt_inside (hself : self.Plain) (hplen : -2 ^ 31 ≤ plen ∧ plen < 2 ^ 31) (pt : ℤ)
    (pload : Option (List UInt8)) (junk : ℕ → UInt8) (now : Timespec) :
    pyRtpSynthNextPkt self plen pt pload junk now ≠ none ↔ self.GuardOk plen pload := by
  have hwrap := toInt32_add_32 hplen
  rw [pyRtpSynthNextPkt, PyRtpSynth.GuardOk]
  cases hrs : self.rs with
  | none => exact iff_of_true (Option.some_ne_none _) (.inl rfl)
  | some rip =>
    dsimp only
    rw [or_iff_right (Option.some_ne_none rip)]
    by_cases hpos : toInt32 (plen + 32) ≤ 0
    · rw [if_pos hpos]
      refine iff_of_true (Option.some_ne_none _) (.inr ?_)
      split at hwrap <;> omega
    · rw [if_neg hpos]
      have hnowrap : toInt32 (plen + 32) = plen + 32 := by split at hwrap <;> omega
      rw [hnowrap] at hpos ⊢
      by_cases hlarge : ∃ payloadData ∈ pload, (payloadData.length : ℤ) > plen + 32
      · rw [if_pos hlarge]
        exact iff_of_true (Option.some_ne_none _) (.inr (.inr (.inr hlarge)))
      · obtain ⟨buf, hbuf, hlen⟩ := pyFillBuf_length junk hlarge
        have hcc : (rtpHdrLen rip.model : ℤ) = 12 := by
          rw [rtpHdrLen, (hself rip hrs).cc]
          rfl
        rw [if_neg hlarge, hbuf, Option.bind_some, pyNextPktPa, Ne, Option.map_eq_none_iff, ← Ne,
          rsynthNextPktPa_inside rip hplen pt (by omega), Rtp.GuardOk, packetLen, hcc, hlen]
        cases pload with
        | none =>
          refine iff_of_true ?_ (.inl rfl)
          rw [Option.isSome_none, if_neg Bool.false_ne_true, if_pos rfl]
          omega
        | some payloadData =>
          rw [Option.isSome_some, if_pos rfl, if_neg one_ne_zero]
          constructor
          · rintro (hguard | hpos)
            · exact .inr (.inl (by omega))
            · exact .inr (.inr (.inl hpos))
          · rintro (hnone | hneg | hpos | hlarge')
            · cases hnone
            · exact .inl (by omega)
            · exact .inr hpos
            · exact absurd hlarge' hlarge

/-- **The synthesizer stays inside its buffers** exactly when no negative length
gets past the guard, unless the buffer is only cleared and has room for a header;
`next_pkt` lets the lengths -12 to -1 pass, and they are harmless without a
payload only. -/
theorem pySynthRun_inside (hrun : run pySynthStep ⟨none⟩ calls = some (self, outs))
    (hplen : -2 ^ 31 ≤ plen ∧ plen < 2 ^ 31) (pt : ℤ) :
    (∀ (rip : RsynthInst) (buf : List UInt8) (filled : ℤ) (now : Timespec), buf.length < 2 ^ 32 →
      (buf.length < packetLen rip plen →
        rsynthNextPktPa rip plen pt buf filled now = some (-1, rip, buf)) ∧
      (rsynthNextPktPa rip plen pt buf filled now ≠ none ↔ GuardOk rip plen buf.length filled)) ∧
    ∀ (pload : Option (List UInt8)) (junk : ℕ → UInt8) (now : Timespec),
      pyRtpSynthNextPkt self plen pt pload junk now ≠ none ↔ self.GuardOk plen pload := by
  constructor
  · intro rip buf filled now hlen
    exact ⟨rsynthNextPktPa_refuses pt filled now, rsynthNextPktPa_inside rip hplen pt hlen filled now⟩
  · intro pload junk now
    exact pyRtpSynthNextPkt_inside (pySynthRun_plain hrun) hplen pt pload junk now

/-- The synthesizer of the examples. -/
def sampleSynth : RsynthInst := rsynthCtor 8000 20 1 2 3 ⟨0, 0⟩

theorem pySynthRun_init :
    run pySynthStep ⟨none⟩ [.init 8000 20 1 2 3 ⟨0, 0⟩] = some (⟨some sampleSynth⟩, [.ok .pyNone]) := rfl

theorem pySynthRun_inside_short :
    rsynthNextPktPa sampleSynth 2 0 (List.replicate 14 0) 1 ⟨0, 0⟩ ≠ none ∧
      pyRtpSynthNextPkt ⟨some sampleSynth⟩ 2 0 (some [7]) (fun _ => 0) ⟨0, 0⟩ ≠ none := by
  have h := pySynthRun_inside pySynthRun_init (show -2 ^ 31 ≤ (2 : ℤ) ∧ (2 : ℤ) < 2 ^ 31 by decide) 0
  exact ⟨(h.1 _ _ _ _ (by decide)).2.mpr (.inr (by decide)),
    (h.2 _ _ _).mpr (.inr (.inr (.inr (.inl (by decide)))))⟩

/-- With the length -1 the guard passes, and `memmove` is asked to move
`2 ^ 64 - 1` bytes. -/
theorem nextPkt_negative_length :
    packetLen sampleSynth (-1) = 11 ∧
      rsynthNextPktPa sampleSynth (-1) 0 (List.replicate 31 0) 1 ⟨0, 0⟩ = none ∧
      pyRtpSynthNextPkt ⟨some sampleSynth⟩ (-1) 0 (some [7]) (fun _ => 0) ⟨0, 0⟩ = none := by
  refine ⟨by decide, by decide, by decide⟩

/-! ### What becomes of the payload -/

/-- A call of `next_pkt` raises, or returns a packet that carries the payload,
followed by zeros up to the length `plen`. -/
def PayloadKept (out : Option (PyRtpSynth × Except PySynthError (List UInt8))) (plen : ℕ)
    (pload : List UInt8) : Prop :=
  (∃ self' e, out = some (self', .error e)) ∨
  ∃ self' pkt info, out = some (self', .ok pkt) ∧ rtpPacketParseRaw pkt .zero = some (.ok, info) ∧
    info.dataSize = plen ∧ pload.length ≤ plen ∧
    slice pkt info.dataOffset info.dataSize = pload ++ List.replicate (plen - pload.length) 0

/-- The packet that `next_pkt` returns. -/
theorem pyRtpSynthNextPkt_pkt {rip : RsynthInst} (hplain : PlainHdr rip.model) {n : ℕ} (hn : n + 32 < 2 ^ 31)
    (pt : ℤ) {pload : List UInt8} (hlen : pload.length ≤ n + 32) (junk : ℕ → UInt8) (now : Timespec) :
    pyRtpSynthNextPkt ⟨some rip⟩ n pt (some pload) junk now =
      some (⟨some (rsynthAdvance rip now)⟩,
        .ok ((rsynthStamp rip pt).bytes ++
          (pload ++ List.replicate (n + 32 - pload.length) 0).take n)) := by
  have hpktlen : toInt32 ((n : ℤ) + 32) = (n + 32 : ℕ) := by
    rw [toInt32_of_range (by omega) (by omega)]
    omega
  have hrange : ((List.range (n + 32)).map junk).length = n + 32 := by simp
  have hlarge : ¬ ∃ payloadData ∈ some pload, (payloadData.length : ℤ) > (n + 32 : ℕ) := by
    rintro ⟨payloadData, hmem, hgt⟩
    obtain rfl := Option.some.inj hmem
    omega
  have hbuf : (pload ++ List.replicate (n + 32 - pload.length) 0).length = n + 32 := by
    rw [List.length_append, List.length_replicate]
    omega
  have hstamp : ((rsynthStamp rip pt).bytes ++
      (pload ++ List.replicate (n + 32 - pload.length) 0).take n).length = 12 + n := by
    rw [List.length_append, RtpHdr.bytes_length, List.length_take, hbuf]
    omega
  rw [pyRtpSynthNextPkt]
  dsimp only
  rw [hpktlen, if_neg (by omega), if_neg hlarge, Int.toNat_natCast, pyFillBuf_some (by rwa [hrange]),
    hrange, Option.bind_some, pyNextPktPa, Option.isSome_some, if_pos rfl,
    rsynthNextPktPa_fits hplain.cc pt 1 now (by omega) (by omega), Option.map_some]
  dsimp only
  rw [toInt32_of_range (by omega) (by omega), if_neg (by omega), payloadOf, if_neg one_ne_zero,
    show ((12 : ℤ) + n).toNat = 12 + n by omega, List.take_append_of_le_length (by rw [hstamp]),
    List.take_of_length_le (by rw [hstamp])]

/-- **`next_pkt` keeps the payload** exactly when the payload is not longer than
`plen`, or when the call raises: without a synthesizer, for a packet length past
the range of an `int`, and for a payload of more than `plen + 32` bytes. -/
theorem pySynthRun_payload (hrun : run pySynthStep ⟨none⟩ calls = some (self, outs)) {n : ℕ}
    (hn : n < 2 ^ 31) (pt : ℤ) (pload : List UInt8) (junk : ℕ → UInt8) (now : Timespec) :
    PayloadKept (pyRtpSynthNextPkt self n pt (some pload) junk now) n pload ↔
      self.rs = none ∨ 2 ^ 31 ≤ n + 32 ∨ pload.length ≤ n ∨ n + 32 < pload.length := by
  obtain ⟨rs⟩ := self
  cases rs with
  | none => exact iff_of_true (.inl ⟨_, _, rfl⟩) (.inl rfl)
  | some rip =>
    rw [or_iff_right (Option.some_ne_none rip)]
    by_cases hwrap : 2 ^ 31 ≤ n + 32
    · refine iff_of_true (.inl ⟨⟨some rip⟩, .valueError "invalid packet length", ?_⟩) (.inl hwrap)
      have hpktlen := toInt32_add_32 (show -2 ^ 31 ≤ (n : ℤ) ∧ (n : ℤ) < 2 ^ 31 by omega)
      rw [if_neg (by omega)] at hpktlen
      rw [pyRtpSynthNextPkt]
      dsimp only
      rw [hpktlen, if_pos (by omega)]
    · rw [or_iff_right hwrap]
      by_cases hlarge : n + 32 < pload.length
      · refine iff_of_true
          (.inl ⟨⟨some rip⟩, .valueError "payload is larger than packet buffer", ?_⟩) (.inr hlarge)
        have hpktlen : toInt32 ((n : ℤ) + 32) = n + 32 := toInt32_of_range (by omega) (by omega)
        rw [pyRtpSynthNextPkt]
        dsimp only
        rw [hpktlen, if_neg (by omega), if_pos ⟨pload, rfl, by omega⟩]
      · have hplain := pySynthRun_plain hrun rip rfl
        rw [or_iff_left hlarge, PayloadKept,
          pyRtpSynthNextPkt_pkt hplain (by omega) pt (by omega) junk now]
        constructor
        · rintro (⟨self', e, heq⟩ | ⟨self', pkt, info, -, -, -, hle, -⟩)
          · cases (Prod.mk.inj (Option.some.inj heq)).2
          · exact hle
        · intro hle
          -- the zeros behind the payload go on past the packet
          have htake : (pload ++ List.replicate (n + 32 - pload.length) 0).take n =
              pload ++ List.replicate (n - pload.length) (0 : UInt8) := by
            rw [List.take_append, List.take_of_length_le hle, List.take_replicate,
              Nat.min_eq_left (by omega)]
          rw [htake]
          obtain ⟨info, hparse, hoffset, hsize, -⟩ := rtpPacketParseRaw_plain
            (h := rsynthStamp rip pt) hplain.version hplain.p hplain.x hplain.cc
            (pload ++ List.replicate (n - pload.length) 0) .zero
          have hlen : (pload ++ List.replicate (n - pload.length) (0 : UInt8)).length = n := by
            rw [List.length_append, List.length_replicate]
            omega
          rw [hlen] at hsize
          refine .inr ⟨_, _, info, rfl, hparse, hsize, hle, ?_⟩
          rw [hoffset, hsize, slice, List.drop_append_of_le_length (by rw [RtpHdr.bytes_length]),
            List.drop_of_length_le (by rw [RtpHdr.bytes_length]), List.nil_append,
            List.take_of_length_le hlen.le]

theorem pySynthRun_payload_short :
    PayloadKept (pyRtpSynthNextPkt ⟨some sampleSynth⟩ (4 : ℕ) 0 (some [7, 8, 9]) (fun _ => 1) ⟨0, 0⟩) 4
      [7, 8, 9] :=
  (pySynthRun_payload pySynthRun_init (by decide) 0 [7, 8, 9] _ _).mpr (.inr (.inr (.inl (by decide))))

/-- Two bytes are asked for and three are given: the third is lost. -/
theorem nextPkt_cuts_payload :
    pyRtpSynthNextPkt ⟨some sampleSynth⟩ (2 : ℕ) 0 (some [7, 8, 9]) (fun _ => 1) ⟨0, 0⟩ =
        some (⟨some (rsynthAdvance sampleSynth ⟨0, 0⟩)⟩,
          .ok [128, 128, 0, 3, 0, 0, 0, 2, 1, 0, 0, 0, 7, 8]) ∧
      ¬ PayloadKept (pyRtpSynthNextPkt ⟨some sampleSynth⟩ (2 : ℕ) 0 (some [7, 8, 9]) (fun _ => 1) ⟨0, 0⟩) 2
        [7, 8, 9] := by
  have hpkt : pyRtpSynthNextPkt ⟨some sampleSynth⟩ (2 : ℕ) 0 (some [7, 8, 9]) (fun _ => 1) ⟨0, 0⟩ =
      some (⟨some (rsynthAdvance sampleSynth ⟨0, 0⟩)⟩,
        .ok [128, 128, 0, 3, 0, 0, 0, 2, 1, 0, 0, 0, 7, 8]) := by decide
  refine ⟨hpkt, ?_⟩
  rintro (⟨self', e, heq⟩ | ⟨self', pkt, info, -, -, -, hle, -⟩)
  · rw [hpkt] at heq
    cases (Prod.mk.inj (Option.some.inj heq)).2
  · exact absurd hle (by decide)

end Rtp
