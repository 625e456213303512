/-
Mu-law as a quantiser.

A sample is clipped to 32635, and 132 is added to its magnitude.  The code keeps
the sign, the place of the leading bit of the sum (the exponent field) and the
four bits behind it, and the decoder goes back to the middle of the sums with
this code.

* `linear2ulawScalar_eq`, `ulaw2linearScalar_ulawCode` — the two functions in
  these terms;
* `quantise_eq` — their composition; `linear2ulaw_ulaw2linear` — the other way round;
* `ulaw_quantiser` — what the codec does to a sample, which fails for
  `LLONG_MIN` alone, where the negation overflows (`ulaw_minValue`).
-/
import LibRtpSynth.RtpUtils
import LibRtpSynth.SignificantBits

open CWords Runs SignificantBits

namespace RtpUtils

variable {sample : Int64} {m : ℕ}

/-! ### Codes -/

/-- The code of a sign, an exponent and a mantissa. -/
def ulawCode (neg : Bool) (exponent mantissa : ℕ) : UInt8 :=
  UInt8.ofNat (255 - ((if neg then 128 else 0) + 16 * exponent + mantissa))

/-- The exponent field of a code. -/
def exponentField (ulaw : UInt8) : ℕ := ((~~~ulaw >>> 4) &&& 7).toNat

theorem exponentField_ulawCode : ∀ neg, ∀ exponent < 8, ∀ mantissa < 16,
    exponentField (ulawCode neg exponent mantissa) = exponent := by decide

/-- The last two lines of `linear2ulaw_scalar`. -/
theorem ulawCode_eq : ∀ neg, ∀ exponent < 8, ∀ mantissa < 16,
    (~~~((if neg then 0x80 else 0 : Int32) ||| Int32.ofNat exponent <<< 4 ||| Int32.ofNat mantissa) &&&
      0xFF).toUInt32.toUInt8 = ulawCode neg exponent mantissa := by decide

theorem ulaw2linearScalar_ulawCode : ∀ neg, ∀ exponent < 8, ∀ mantissa < 16,
    (ulaw2linearScalar (ulawCode neg exponent mantissa)).toInt =
      if neg then -(((mantissa * 8 + 132) * 2 ^ exponent - 132 : ℕ) : ℤ)
      else (((mantissa * 8 + 132) * 2 ^ exponent - 132 : ℕ) : ℤ) := by decide

/-- A code that is decoded and coded again comes back, but for that of the negative zero. -/
theorem linear2ulaw_ulaw2linear (ulaw : UInt8) :
    linear2ulawScalar (ulaw2linearScalar ulaw).toInt64 = if ulaw = 0x7f then 0xff else ulaw := by
  have hlt := ulaw.toNat_lt
  -- the two halves of the byte
  have hall : ∀ hi < 16, ∀ lo < 16,
      linear2ulawScalar (ulaw2linearScalar (UInt8.ofNat (16 * hi + lo))).toInt64 =
        if UInt8.ofNat (16 * hi + lo) = 0x7f then 0xff else UInt8.ofNat (16 * hi + lo) := by decide
  have hulaw := hall (ulaw.toNat / 16) (by omega) (ulaw.toNat % 16) (by omega)
  rwa [Nat.div_add_mod, UInt8.ofNat_toNat] at hulaw

/-! ### The exponent -/

theorem mask_shiftRight : ∀ e < 7,
    Int32.ofNat (2 ^ (e + 8)) >>> 1 = Int32.ofNat (2 ^ (e + 7)) := by decide

theorem mask_toInt64 : ∀ e < 8, (Int32.ofNat (2 ^ (e + 7))).toInt64 = Int64.ofNat (2 ^ (e + 7)) := by
  decide

/-- The loop finds the leading bit. -/
theorem exponentLoop_eq (hm : 2 ^ 7 ≤ m) : ∀ e < 8, m < 2 ^ (e + 8) →
    exponentLoop (Int64.ofNat m) e (Int32.ofNat (2 ^ (e + 7))) = Nat.log2 m - 7 := by
  intro e
  induction e with
  | zero =>
    intro _ hlt
    have hlog : Nat.log2 m = 7 := (Nat.log2_eq_iff (by omega)).mpr ⟨hm, hlt⟩
    rw [exponentLoop, hlog]
  | succ e ih =>
    intro he (hlt : m < 2 ^ (e + 9))
    have hpow : 2 ^ (e + 9) ≤ 2 ^ 15 := Nat.pow_le_pow_right (by norm_num) (by omega)
    have hbit : Int64.ofNat m &&& Int64.ofNat (2 ^ (e + 8)) = 0 ↔ m < 2 ^ (e + 8) := by
      rw [int64_and_ofNat, int64_ofNat_eq_zero_iff, and_two_pow_eq_zero_iff hlt]
      exact Nat.and_le_left.trans_lt (by omega)
    rw [exponentLoop, mask_toInt64 (e + 1) he, Nat.add_right_comm e 1 7]
    split
    · rename_i hzero
      rw [mask_shiftRight e (by omega), ih (by omega) (hbit.mp hzero)]
    · rename_i hone
      have hle : 2 ^ (e + 8) ≤ m := not_lt.mp (mt hbit.mpr hone)
      have hlog : Nat.log2 m = e + 8 := (Nat.log2_eq_iff (by omega)).mpr ⟨hle, hlt⟩
      rw [hlog]
      omega

/-! ### The encoder -/

/-- The sample clipped at both ends. -/
def clamp (sample : Int64) : ℤ := max (-32635) (min sample.toInt 32635)

/-- The clipped magnitude with the bias. -/
def biased (sample : Int64) : ℕ := (clamp sample).natAbs + 132

theorem biased_bounds (sample : Int64) : 132 ≤ biased sample ∧ biased sample ≤ 32767 := by
  rw [biased, clamp]
  omega

theorem log2_biased (sample : Int64) :
    7 ≤ Nat.log2 (biased sample) ∧ Nat.log2 (biased sample) < 15 := by
  have hb := biased_bounds sample
  exact ⟨(Nat.le_log2 (by omega)).mpr (by omega), (Nat.log2_lt (by omega)).mpr (by omega)⟩

theorem clamp_neg_iff : clamp sample < 0 ↔ sample < 0 := by
  rw [Int64.lt_iff_toInt_lt, Int64.toInt_zero, clamp]
  omega

theorem toInt_eq_minValue_iff : sample.toInt = -2 ^ 63 ↔ sample = Int64.minValue := by
  rw [← Int64.toInt_inj, Int64.toInt_minValue]

/-- Nothing overflows but the negation of `LLONG_MIN`. -/
theorem negated_eq (h : sample ≠ Int64.minValue) :
    (if sample < 0 then -sample else sample) = Int64.ofNat sample.toInt.natAbs := by
  have hlt := sample.toInt_lt
  have hle := sample.le_toInt
  have hne := mt toInt_eq_minValue_iff.mp h
  rw [← Int64.toInt_inj, Int64.toInt_ofNat_of_lt (by omega)]
  split
  · rename_i hneg
    rw [Int64.lt_iff_toInt_lt, Int64.toInt_zero] at hneg
    rw [Int64.toInt_neg, Int.bmod_eq_of_le (by omega) (by omega)]
    omega
  · rename_i hneg
    rw [Int64.lt_iff_toInt_lt, Int64.toInt_zero] at hneg
    omega

theorem clipped_eq {n : ℕ} (hn : n < 2 ^ 63) :
    (if Int64.ofNat n > ulawClip.toInt64 then ulawClip.toInt64 else Int64.ofNat n) =
      Int64.ofNat (min n 32635) := by
  have hclip : ulawClip.toInt64 = Int64.ofNat 32635 := by decide
  rw [hclip]
  split
  · rename_i hgt
    have hlt : 32635 < n := (Int64.ofNat_lt_iff_lt (by norm_num) hn).mp hgt
    rw [min_eq_right hlt.le]
  · rename_i hgt
    have hle : n ≤ 32635 := not_lt.mp (mt (Int64.ofNat_lt_iff_lt (by norm_num) hn).mpr hgt)
    rw [min_eq_left hle]

/-- `mag` when the loop begins. -/
theorem mag_eq (h : sample ≠ Int64.minValue) :
    (if (if sample < 0 then -sample else sample) > ulawClip.toInt64 then ulawClip.toInt64
      else if sample < 0 then -sample else sample) + ulawBias.toInt64 =
    Int64.ofNat (biased sample) := by
  have hlt := sample.toInt_lt
  have hle := sample.le_toInt
  have hne := mt toInt_eq_minValue_iff.mp h
  have hbias : ulawBias.toInt64 = Int64.ofNat 132 := by decide
  have hclamp : min sample.toInt.natAbs 32635 = (clamp sample).natAbs := by
    rw [clamp]
    omega
  rw [negated_eq h, clipped_eq (by omega), hbias, hclamp, ← Int64.ofNat_add, biased]

/-- The encoder in terms of the biased magnitude. -/
theorem linear2ulawScalar_eq (h : sample ≠ Int64.minValue) :
    linear2ulawScalar sample = ulawCode (sample < 0) (Nat.log2 (biased sample) - 7)
      (biased sample / 2 ^ (Nat.log2 (biased sample) - 7 + 3) % 16) := by
  have hb := biased_bounds sample
  have hlog := log2_biased sample
  have hexp : exponentLoop (Int64.ofNat (biased sample)) 7 0x4000 = Nat.log2 (biased sample) - 7 :=
    exponentLoop_eq (by omega) 7 (by norm_num) (by omega)
  have hmant : ((Int64.ofNat (biased sample) >>> Int64.ofNat (Nat.log2 (biased sample) - 7 + 3)) &&&
      0x0F).toInt32 =
      Int32.ofNat (biased sample / 2 ^ (Nat.log2 (biased sample) - 7 + 3) % 16) := by
    have hmask : (0x0F : Int64) = Int64.ofNat (2 ^ 4 - 1) := rfl
    rw [int64_shiftRight_ofNat (by omega) (by omega), hmask, int64_and_ofNat,
      Nat.and_two_pow_sub_one_eq_mod, Int64.toInt32_ofNat']
  rw [linear2ulawScalar, mag_eq h, hexp, hmant, ← ulawCode_eq _ _ (by omega) _ (Nat.mod_lt _ (by norm_num))]
  congr 4
  by_cases hneg : sample < 0
  · rw [if_pos hneg, if_pos (decide_eq_true hneg)]
  · rw [if_neg hneg, if_neg (by simp [hneg])]

/-! ### The quantiser -/

/-- A sample coded and decoded. -/
def quantise (sample : Int64) : ℤ := (ulaw2linearScalar (linear2ulawScalar sample)).toInt

theorem exponentField_eq (h : sample ≠ Int64.minValue) :
    exponentField (linear2ulawScalar sample) = Nat.log2 (biased sample) - 7 := by
  have hlog := log2_biased sample
  rw [linear2ulawScalar_eq h,
    exponentField_ulawCode _ _ (by omega) _ (Nat.mod_lt _ (by norm_num))]

theorem shift_biased (sample : Int64) :
    shift 4 (biased sample) = Nat.log2 (biased sample) - 7 + 3 := by
  have hlog := log2_biased sample
  rw [shift]
  omega

/-- The decoder puts a one in front of the mantissa and a one behind it. -/
theorem mid_biased (sample : Int64) :
    (biased sample / 2 ^ (Nat.log2 (biased sample) - 7 + 3) % 16 * 8 + 132) *
      2 ^ (Nat.log2 (biased sample) - 7) = mid 4 (biased sample) := by
  have hb := biased_bounds sample
  have hge : 2 ^ 4 ≤ lead 4 (biased sample) := two_pow_le_lead (by omega)
  have hlt : lead 4 (biased sample) < 2 ^ (4 + 1) := lead_lt (by omega)
  have hmod : lead 4 (biased sample) % 16 * 8 + 132 = lead 4 (biased sample) * 8 + 4 := by omega
  rw [mid, ← shift_biased, ← lead, hmod, shift_biased, Nat.pow_add]
  have hhalf : 2 ^ (Nat.log2 (biased sample) - 7) * 2 ^ 3 / 2 =
      2 ^ (Nat.log2 (biased sample) - 7) * 4 := by omega
  rw [hhalf]
  ring

/-- The middle of the biased magnitudes with the same code, without the bias. -/
theorem quantise_eq (h : sample ≠ Int64.minValue) :
    quantise sample = mirror (fun n => mid 4 (n + 132) - 132) (clamp sample) := by
  have hlog := log2_biased sample
  rw [quantise, linear2ulawScalar_eq h,
    ulaw2linearScalar_ulawCode _ _ (by omega) _ (Nat.mod_lt _ (by norm_num)), mid_biased, mirror]
  by_cases hneg : sample < 0
  · rw [if_pos (decide_eq_true hneg), if_pos (clamp_neg_iff.mpr hneg), biased]
  · rw [if_neg (by simp [hneg]), if_neg (mt clamp_neg_iff.mp hneg), biased]

theorem clamp_mono {larger : Int64} (h : sample ≤ larger) : clamp sample ≤ clamp larger := by
  rw [Int64.le_iff_toInt_le] at h
  rw [clamp, clamp]
  omega

theorem quantise_mono (h : sample ≠ Int64.minValue) {larger : Int64} (hle : sample ≤ larger) :
    quantise sample ≤ quantise larger := by
  have hlarger : larger ≠ Int64.minValue := by
    rintro rfl
    exact h (Int64.le_antisymm hle (Int64.minValue_le sample))
  rw [quantise_eq h, quantise_eq hlarger]
  refine mirror_mono (fun m n hmn => Nat.sub_le_sub_right (mid_mono ?_ ?_) 132) (clamp_mono hle)
  · omega
  · omega

theorem quantise_near (h : sample ≠ Int64.minValue) :
    |quantise sample - clamp sample| ≤ 2 ^ (exponentField (linear2ulawScalar sample) + 2) := by
  have hhalf : 2 ^ shift 4 (biased sample) / 2 = 2 ^ (Nat.log2 (biased sample) - 7 + 2) := by
    rw [shift_biased, Nat.pow_succ, Nat.mul_div_cancel _ (by norm_num)]
  have hbias : biased sample = (clamp sample).natAbs + 132 := rfl
  have hle := mid_le_add 4 (biased sample)
  have hge := le_mid_add 4 (biased sample)
  rw [hhalf] at hle hge
  have h1 : mid 4 (biased sample) - 132 ≤
      (clamp sample).natAbs + 2 ^ (Nat.log2 (biased sample) - 7 + 2) := by omega
  have h2 : (clamp sample).natAbs ≤
      mid 4 (biased sample) - 132 + 2 ^ (Nat.log2 (biased sample) - 7 + 2) := by omega
  have hnear := mirror_near (f := fun n => mid 4 (n + 132) - 132) h1 h2
  rw [quantise_eq h, exponentField_eq h]
  exact_mod_cast hnear

/-- A sample has the code of the clipped one. -/
theorem linear2ulawScalar_clamp (h : sample ≠ Int64.minValue) :
    linear2ulawScalar sample = linear2ulawScalar (Int64.ofInt (clamp sample)) := by
  have hclamp : (Int64.ofInt (clamp sample)).toInt = clamp sample := by
    refine Int64.toInt_ofInt_of_le ?_ ?_
    · rw [clamp]
      omega
    · rw [clamp]
      omega
  have hidem : clamp (Int64.ofInt (clamp sample)) = clamp sample := by
    rw [clamp, hclamp, clamp]
    omega
  have hne : Int64.ofInt (clamp sample) ≠ Int64.minValue := by
    rw [Ne, ← toInt_eq_minValue_iff, hclamp, clamp]
    omega
  have hneg : Int64.ofInt (clamp sample) < 0 ↔ sample < 0 := by
    rw [← clamp_neg_iff, hidem, clamp_neg_iff]
  have hbiased : biased (Int64.ofInt (clamp sample)) = biased sample := by
    rw [biased, hidem, biased]
  rw [linear2ulawScalar_eq h, linear2ulawScalar_eq hne, hbiased, decide_eq_decide.mpr hneg]

/-- At `LLONG_MIN` the negation overflows: the code is that of a small negative sample. -/
theorem ulaw_minValue :
    linear2ulawScalar Int64.minValue = 0x7f ∧ clamp Int64.minValue = -32635 ∧
    linear2ulawScalar (Int64.ofInt (clamp Int64.minValue)) = 0x00 ∧
    linear2ulawScalar Int64.minValue ≠ linear2ulawScalar (Int64.ofInt (clamp Int64.minValue)) ∧
    ¬ |quantise Int64.minValue - clamp Int64.minValue| ≤
      2 ^ (exponentField (linear2ulawScalar Int64.minValue) + 2) ∧
    ¬ quantise Int64.minValue ≤ quantise (-1000) := by
  decide

/-- A PCM16 array, or the bytes of one, goes through the scalar function element by element. -/
theorem utilsSpec_pcm16 (samples : List Int16) {itemsize : ℤ} (h : itemsize = 1 ∨ itemsize = 2) :
    utilsSpec (.linear2ulaw (.buffer ⟨int16Bytes samples, itemsize⟩)) =
      .ok (.bytes (samples.map fun s => linear2ulawScalar s.toInt64)) := by
  have heven : ¬ (int16Bytes samples).length % 2 ≠ 0 := by
    rw [int16Bytes_length]
    omega
  have hsamples : pcm16FromObj (.buffer ⟨int16Bytes samples, itemsize⟩) = .ok samples := by
    rw [pcm16FromObj]
    dsimp only
    rcases h with rfl | rfl
    · rw [if_neg (by norm_num), if_pos rfl, if_neg heven, int16s_int16Bytes]
    · rw [if_pos rfl, if_neg heven, int16s_int16Bytes]
  rw [utilsSpec, hsamples]
  · rfl
  · intro value h
    cases h

/-- **The codec is a saturating monotone quantiser** for every sample but `LLONG_MIN`: a sample
has the code of the clipped one, it comes back within half a step of it, and no larger
sample comes back smaller.  After any calls of the module an array of samples is coded element
by element. -/
theorem ulaw_quantiser (sample : Int64) :
    (linear2ulawScalar sample = linear2ulawScalar (Int64.ofInt (clamp sample)) ↔
      sample ≠ Int64.minValue) ∧
    (|quantise sample - clamp sample| ≤ 2 ^ (exponentField (linear2ulawScalar sample) + 2) ↔
      sample ≠ Int64.minValue) ∧
    ((∀ larger, sample ≤ larger → quantise sample ≤ quantise larger) ↔
      sample ≠ Int64.minValue) ∧
    ∀ (calls : List UtilsCall) (samples : List Int16) (itemsize : ℤ),
      itemsize = 1 ∨ itemsize = 2 → ∃ g outs,
        run utilsStep pyInitRtpUtils
            (calls ++ [.linear2ulaw (.buffer ⟨int16Bytes samples, itemsize⟩)]) =
          some (g, outs ++ [.ok (.bytes (samples.map fun s => linear2ulawScalar s.toInt64))]) := by
  refine ⟨⟨?_, linear2ulawScalar_clamp⟩, ⟨?_, quantise_near⟩, ⟨?_, fun h _ => quantise_mono h⟩, ?_⟩
  · rintro heq rfl
    exact absurd heq (by decide)
  · rintro hle rfl
    exact absurd hle (by decide)
  · rintro hmono rfl
    exact absurd (hmono (-1000) (Int64.minValue_le _)) (by decide)
  · intro calls samples itemsize hsize
    obtain ⟨g, hrun⟩ :=
      utilsRun_eq (calls ++ [.linear2ulaw (.buffer ⟨int16Bytes samples, itemsize⟩)])
    rw [List.map_append, List.map_singleton, utilsSpec_pcm16 samples hsize] at hrun
    exact ⟨g, calls.map utilsSpec, hrun⟩

end RtpUtils
