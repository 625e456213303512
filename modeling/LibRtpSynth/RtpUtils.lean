/-
The mu-law functions of the module `RtpUtils` (`python/RtpUtils_mod.c`).

`linear2ulaw_scalar` and `ulaw2linear_scalar` work on one sample, in the integer
types of the source; a `long long` that overflows wraps.  `linear2ulaw` and
`ulaw2linear` take an `int` or an object with a buffer: the first go through the
scalar functions, the others through two tables that are filled from them at
the first call.

* `ensureTables_eq` — what the tables hold;
* `utilsRun_eq` — in every run of the module each call returns what the scalar
  functions give for its elements.

`none` as a result stands for an access outside a table.  Allocations are taken
to succeed, and the host is little-endian.  `resample_linear`, which computes in
`double`, is left out; it does not use the tables.
-/
import LibRtpSynth.CWords
import LibRtpSynth.Runs

open CWords Runs

namespace RtpUtils

/-! ### One sample -/

/-- `ULAW_BIAS`. -/
def ulawBias : Int32 := 0x84

/-- `ULAW_CLIP`. -/
def ulawClip : Int32 := 32635

/-- The loop of `linear2ulaw_scalar`. -/
def exponentLoop (mag : Int64) : ℕ → Int32 → ℕ
  | 0, _ => 0
  | exponent + 1, mask =>
    if mag &&& mask.toInt64 = 0 then exponentLoop mag exponent (mask >>> 1) else exponent + 1

/-- `linear2ulaw_scalar`. -/
def linear2ulawScalar (sample : Int64) : UInt8 :=
  let sign : Int32 := if sample < 0 then 0x80 else 0
  let mag := if sample < 0 then -sample else sample
  let mag := if mag > ulawClip.toInt64 then ulawClip.toInt64 else mag
  let mag := mag + ulawBias.toInt64
  let exponent := exponentLoop mag 7 0x4000
  let mantissa := ((mag >>> Int64.ofNat (exponent + 3)) &&& 0x0F).toInt32
  let ulaw := ~~~(sign ||| Int32.ofNat exponent <<< 4 ||| mantissa) &&& 0xFF
  ulaw.toUInt32.toUInt8

/-- A byte as an `int`. -/
def promote (b : UInt8) : Int32 := b.toUInt32.toInt32

/-- `ulaw2linear_scalar`. -/
def ulaw2linearScalar (ulaw : UInt8) : Int16 :=
  let ulaw := (~~~promote ulaw &&& 0xFF).toUInt32.toUInt8
  let sign := promote ulaw &&& 0x80
  let exponent := promote ulaw >>> 4 &&& 0x07
  let mantissa := promote ulaw &&& 0x0F
  let sample := ((mantissa <<< 3) + ulawBias) <<< exponent
  let sample := sample - ulawBias
  let sample := if sign ≠ 0 then -sample else sample
  sample.toInt16

/-! ### The module -/

/-- The static data of the module; `arrayCtor` tells that `g_array_ctor` is set. -/
structure UtilsGlobals where
  arrayCtor : Bool
  pcm16ToUlaw : List UInt8
  ulawToPcm : List Int16
  tablesReady : Bool
  deriving DecidableEq, Repr

/-- The data behind `PyInit_RtpUtils`. -/
def pyInitRtpUtils : UtilsGlobals :=
  ⟨true, List.replicate 65536 0, List.replicate 256 0, false⟩

/-- `ensure_tables`. -/
def ensureTables (g : UtilsGlobals) : Option UtilsGlobals :=
  if g.tablesReady then some g
  else
    (fillTable (fun i => toUint16 (i + 32768)) (fun i => linear2ulawScalar (Int64.ofInt i)) 65536
        (-32768) g.pcm16ToUlaw).bind fun pcm16ToUlaw =>
      (fillTable Int.toNat (fun i => ulaw2linearScalar (UInt8.ofInt i)) 256 0 g.ulawToPcm).map
        fun ulawToPcm => { g with pcm16ToUlaw, ulawToPcm, tablesReady := true }

/-- The exceptions raised.  Those of `PyLong_AsLongLong` and `PyObject_GetBuffer` have no text here. -/
inductive PyUtilsError
  | runtimeError (msg : String)
  | valueError (msg : String)
  | typeError (msg : String)
  | asLongLong
  | getBuffer
  deriving DecidableEq, Repr

/-- `Py_buffer`: the memory, whose length is `len`, and the size of an element. -/
structure PyBuffer where
  buf : List UInt8
  itemsize : ℤ
  deriving DecidableEq, Repr

/-- An argument. -/
inductive PyArg
  | long (value : ℤ)
  | buffer (view : PyBuffer)
  | other
  deriving DecidableEq, Repr

/-- What a call returns. -/
inductive UtilsRet
  | long (value : ℤ)
  | bytes (b : List UInt8)
  | array (samples : List Int16)
  deriving DecidableEq, Repr

/-- `PyLong_AsLongLong`. -/
def pyLongAsLongLong (value : ℤ) : Except PyUtilsError Int64 :=
  if -2 ^ 63 ≤ value ∧ value < 2 ^ 63 then .ok (Int64.ofInt value) else .error .asLongLong

/-- The samples in memory. -/
def int16s : List UInt8 → List Int16
  | b₀ :: b₁ :: bytes => (ntohs b₁ b₀).toInt16 :: int16s bytes
  | _ => []

/-- The bytes of samples in memory. -/
def int16Bytes (samples : List Int16) : List UInt8 :=
  samples.flatMap fun sample => (htons sample.toUInt16).reverse

/-- `pcm16_from_obj`. -/
def pcm16FromObj : PyArg → Except PyUtilsError (List Int16)
  | .buffer view =>
    if view.itemsize = 2 then
      if view.buf.length % 2 ≠ 0 then .error (.valueError "PCM16 buffer must be 2-byte aligned")
      else .ok (int16s view.buf)
    else if view.itemsize = 1 then
      if view.buf.length % 2 ≠ 0 then
        .error (.valueError "PCM16 byte buffer length must be even")
      else .ok (int16s view.buf)
    else .error (.typeError "expected a PCM16 buffer (itemsize 2) or PCM16 bytes")
  | .long _ | .other => .error .getBuffer

/-- `array_h_from_pcm16`. -/
def arrayHFromPcm16 (g : UtilsGlobals) (samples : List Int16) : Except PyUtilsError UtilsRet :=
  if g.arrayCtor then
    if samples.length = 0 then .ok (.array []) else .ok (.array (int16s (int16Bytes samples)))
  else .error (.runtimeError "array.array constructor is not initialized")

/-- `PyRtpUtils_linear2ulaw` behind `ensure_tables`. -/
def linear2ulawObj (g : UtilsGlobals) : PyArg → Option (Except PyUtilsError UtilsRet)
  | .long value =>
    some ((pyLongAsLongLong value).map fun sample => .long (linear2ulawScalar sample).toNat)
  | obj =>
    match pcm16FromObj obj with
    | .error e => some (.error e)
    | .ok samples =>
      (samples.mapM fun sample => g.pcm16ToUlaw[toUint16 (sample.toInt + 32768)]?).map
        fun out => .ok (.bytes out)

/-- `PyRtpUtils_ulaw2linear` behind `ensure_tables`. -/
def ulaw2linearObj (g : UtilsGlobals) : PyArg → Option (Except PyUtilsError UtilsRet)
  | .long value =>
    match pyLongAsLongLong value with
    | .error e => some (.error e)
    | .ok ulaw =>
      (g.ulawToPcm[(ulaw &&& 0xFF).toUInt64.toUInt8.toNat]?).map fun sample =>
        .ok (.long sample.toInt)
  | .buffer view =>
    if view.itemsize ≠ 1 then
      some (.error (.typeError "ulaw2linear expects bytes-like input"))
    else
      (view.buf.mapM fun b => g.ulawToPcm[b.toNat]?).map fun samples => arrayHFromPcm16 g samples
  | .other => some (.error .getBuffer)

/-- The calls of a user of the module. -/
inductive UtilsCall
  | linear2ulaw (obj : PyArg)
  | ulaw2linear (obj : PyArg)
  deriving DecidableEq, Repr

/-- One call. -/
def utilsStep (g : UtilsGlobals) :
    UtilsCall → Option (UtilsGlobals × Except PyUtilsError UtilsRet)
  | .linear2ulaw obj => (ensureTables g).bind fun g => (linear2ulawObj g obj).map fun r => (g, r)
  | .ulaw2linear obj => (ensureTables g).bind fun g => (ulaw2linearObj g obj).map fun r => (g, r)

/-! ### The tables -/

/-- The data once the tables are filled. -/
def filledGlobals : UtilsGlobals where
  arrayCtor := true
  pcm16ToUlaw := (List.range 65536).map fun k : ℕ => linear2ulawScalar (Int64.ofInt (-32768 + k))
  ulawToPcm := (List.range 256).map fun k : ℕ => ulaw2linearScalar (UInt8.ofInt (0 + k))
  tablesReady := true

/-- The data that a run of the module comes to. -/
def Reached (g : UtilsGlobals) : Prop := g = pyInitRtpUtils ∨ g = filledGlobals

theorem ensureTables_eq {g : UtilsGlobals} (h : Reached g) : ensureTables g = some filledGlobals := by
  rcases h with rfl | rfl
  · have hpcm := fillTable_eq (fun i => toUint16 (i + 32768))
      (fun i => linear2ulawScalar (Int64.ofInt i)) 65536 (-32768) [] (List.replicate 65536 0)
      List.length_replicate (by
        intro k hk
        show ((-32768 + (k : ℤ) + 32768) % 2 ^ 16).toNat = 0 + k
        omega)
    have hulaw := fillTable_eq Int.toNat (fun i => ulaw2linearScalar (UInt8.ofInt i)) 256 0 []
      (List.replicate 256 0) List.length_replicate (by
        intro k _
        rw [List.length_nil]
        omega)
    rw [List.nil_append, List.nil_append] at hpcm hulaw
    rw [ensureTables, pyInitRtpUtils, if_neg Bool.false_ne_true, hpcm, Option.bind_some, hulaw,
      Option.map_some, filledGlobals]
  · rw [ensureTables, filledGlobals, if_pos rfl]

/-- An element of the table for `linear2ulaw`. -/
theorem pcm16ToUlaw_eq (sample : Int16) :
    filledGlobals.pcm16ToUlaw[toUint16 (sample.toInt + 32768)]? =
      some (linear2ulawScalar sample.toInt64) := by
  have h1 := sample.le_toInt
  have h2 := sample.toInt_lt
  have hindex : toUint16 (sample.toInt + 32768) = (sample.toInt + 32768).toNat := by
    rw [toUint16, Int.emod_eq_of_lt (by omega) (by omega)]
  have hvalue : -32768 + ((sample.toInt + 32768).toNat : ℤ) = sample.toInt := by omega
  rw [filledGlobals, List.getElem?_map, hindex, List.getElem?_range (by omega), Option.map_some,
    hvalue, Int64.ofInt_int16ToInt]

/-- An element of the table for `ulaw2linear`. -/
theorem ulawToPcm_eq (b : UInt8) :
    filledGlobals.ulawToPcm[b.toNat]? = some (ulaw2linearScalar b) := by
  have hlt := b.toNat_lt
  have hvalue : UInt8.ofInt (0 + b.toNat) = b := by
    rw [zero_add, UInt8.ofInt, Int.emod_eq_of_lt (by omega) (by omega), Int.toNat_natCast,
      UInt8.ofNat_toNat]
  rw [filledGlobals, List.getElem?_map, List.getElem?_range hlt, Option.map_some, hvalue]

/-! ### Samples in memory -/

theorem int16s_int16Bytes (samples : List Int16) : int16s (int16Bytes samples) = samples := by
  induction samples with
  | nil => rfl
  | cons sample samples ih =>
    rw [int16Bytes, List.flatMap_cons, htons]
    show (ntohs _ _).toInt16 :: int16s (int16Bytes samples) = sample :: samples
    rw [ih, ntohs_bytes, Int16.toInt16_toUInt16]

theorem int16Bytes_length (samples : List Int16) :
    (int16Bytes samples).length = 2 * samples.length := by
  induction samples with
  | nil => rfl
  | cons sample samples ih =>
    rw [int16Bytes, List.flatMap_cons, List.length_append, ← int16Bytes, ih, List.length_cons]
    show 2 + _ = _
    omega

/-! ### The calls -/

/-- What a call is for: the scalar function on every element. -/
def utilsSpec : UtilsCall → Except PyUtilsError UtilsRet
  | .linear2ulaw (.long value) =>
    (pyLongAsLongLong value).map fun sample => .long (linear2ulawScalar sample).toNat
  | .linear2ulaw obj =>
    (pcm16FromObj obj).map fun samples =>
      .bytes (samples.map fun sample => linear2ulawScalar sample.toInt64)
  | .ulaw2linear (.long value) =>
    (pyLongAsLongLong value).map fun ulaw =>
      .long (ulaw2linearScalar (ulaw &&& 0xFF).toUInt64.toUInt8).toInt
  | .ulaw2linear (.buffer view) =>
    if view.itemsize ≠ 1 then .error (.typeError "ulaw2linear expects bytes-like input")
    else .ok (.array (view.buf.map ulaw2linearScalar))
  | .ulaw2linear .other => .error .getBuffer

theorem linear2ulawObj_eq (obj : PyArg) :
    linear2ulawObj filledGlobals obj = some (utilsSpec (.linear2ulaw obj)) := by
  have hmap (samples : List Int16) :
      samples.mapM (fun sample => filledGlobals.pcm16ToUlaw[toUint16 (sample.toInt + 32768)]?) =
        some (samples.map fun sample => linear2ulawScalar sample.toInt64) := by
    simp only [pcm16ToUlaw_eq]
    exact List.mapM_pure
  cases obj with
  | long value => rfl
  | buffer view =>
    rw [linear2ulawObj, utilsSpec]
    · cases pcm16FromObj (.buffer view) with
      | error e => rfl
      | ok samples =>
        dsimp only
        rw [hmap]
        rfl
    · intro value h
      cases h
    · intro value h
      cases h
  | other => rfl

theorem arrayHFromPcm16_eq {g : UtilsGlobals} (h : g.arrayCtor = true) (samples : List Int16) :
    arrayHFromPcm16 g samples = .ok (.array samples) := by
  rw [arrayHFromPcm16, if_pos h, int16s_int16Bytes]
  split
  · rename_i hzero
    rw [List.length_eq_zero_iff.mp hzero]
  · rfl

theorem ulaw2linearObj_eq (obj : PyArg) :
    ulaw2linearObj filledGlobals obj = some (utilsSpec (.ulaw2linear obj)) := by
  cases obj with
  | long value =>
    rw [ulaw2linearObj, utilsSpec]
    cases pyLongAsLongLong value with
    | error e => rfl
    | ok ulaw =>
      dsimp only
      rw [ulawToPcm_eq]
      rfl
  | buffer view =>
    have hmap : view.buf.mapM (fun b => filledGlobals.ulawToPcm[b.toNat]?) =
        some (view.buf.map ulaw2linearScalar) := by
      simp only [ulawToPcm_eq]
      exact List.mapM_pure
    rw [ulaw2linearObj, utilsSpec, hmap, Option.map_some, arrayHFromPcm16_eq rfl]
    split <;> rfl
  | other => rfl

theorem utilsStep_eq {g : UtilsGlobals} (h : Reached g) (call : UtilsCall) :
    utilsStep g call = some (filledGlobals, utilsSpec call) := by
  cases call with
  | linear2ulaw obj =>
    rw [utilsStep, ensureTables_eq h, Option.bind_some, linear2ulawObj_eq, Option.map_some]
  | ulaw2linear obj =>
    rw [utilsStep, ensureTables_eq h, Option.bind_some, ulaw2linearObj_eq, Option.map_some]

/-- **Every run of the module** ends, and each call returns what the scalar functions give. -/
theorem utilsRun_eq (calls : List UtilsCall) :
    ∃ g, run utilsStep pyInitRtpUtils calls = some (g, calls.map utilsSpec) := by
  obtain ⟨g, outs, hrun, -, rfl⟩ : ∃ g outs, run utilsStep pyInitRtpUtils calls = some (g, outs) ∧
      Reached g ∧ outs = calls.map utilsSpec := by
    refine run_total (P := fun _ _ => True) (fun _ => True)
      (fun calls outs g => Reached g ∧ outs = calls.map utilsSpec) (fun _ => trivial)
      ⟨.inl rfl, rfl⟩ ?_ trivial (.of_forall fun _ _ _ => trivial)
    rintro calls outs g call - ⟨hg, rfl⟩ -
    refine ⟨filledGlobals, utilsSpec call, utilsStep_eq hg call, .inr rfl, ?_⟩
    rw [List.map_append, List.map_singleton]
  exact ⟨g, hrun⟩

end RtpUtils
