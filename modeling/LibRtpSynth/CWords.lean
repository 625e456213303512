/-
Fixed-width C arithmetic and byte buffers.

Unsigned 64- and 32-bit words are naturals with the reduction written out
(`add64`, `sub64`, `add32`, `sub32`), so that invariants about them are linear
arithmetic; `toInt32` is the conversion of an integer to a C `int`.  Signed
words are Lean's, with lemmas for those that are not negative.  A buffer is a
list of bytes, and the block operations of `<string.h>` check their ranges:
`none` stands for an access outside the buffer.

The byte-order functions read and write memory: `ntohs b₀ b₁` is the value of
the two bytes `b₀ b₁` in network order, `htons v` the two bytes that store `v`.
-/
import Mathlib.Data.Int.ModEq
import Mathlib.Data.Nat.Bitwise
import Mathlib.Tactic.NormNum
import Mathlib.Tactic.Ring

namespace CWords

/-! ### Unsigned words -/

/-- `a + b` in `uint64_t`. -/
def add64 (a b : ℕ) : ℕ := (a + b) % 2 ^ 64

/-- `a - b` in `uint64_t`. -/
def sub64 (a b : ℕ) : ℕ := (a + (2 ^ 64 - b % 2 ^ 64)) % 2 ^ 64

/-- `a + b` in `unsigned int`. -/
def add32 (a b : ℕ) : ℕ := (a + b) % 2 ^ 32

/-- `a - b` in `unsigned int`. -/
def sub32 (a b : ℕ) : ℕ := (a + (2 ^ 32 - b % 2 ^ 32)) % 2 ^ 32

theorem add64_of_lt {a b : ℕ} (h : a + b < 2 ^ 64) : add64 a b = a + b :=
  Nat.mod_eq_of_lt h

theorem sub64_of_le {a b : ℕ} (ha : a < 2 ^ 64) (h : b ≤ a) : sub64 a b = a - b := by
  unfold sub64; omega

theorem add64_lt (a b : ℕ) : add64 a b < 2 ^ 64 := Nat.mod_lt _ (by norm_num)

theorem sub32_of_le {a b : ℕ} (ha : a < 2 ^ 32) (h : b ≤ a) : sub32 a b = a - b := by
  unfold sub32; omega

theorem sub32_sub32 (a b c : ℕ) : sub32 (sub32 a b) c = sub32 a (b + c) := by
  unfold sub32
  omega

/-- A word with its low sixteen bits clear is completed by addition. -/
theorem lor_eq_add {a b : ℕ} (ha : a % 65536 = 0) (hb : b < 65536) : a ||| b = a + b := by
  -- `a` is a multiple of `2 ^ 16`
  have h := Nat.two_pow_add_eq_or_of_lt (i := 16) hb (a / 65536)
  rw [show (2 : ℕ) ^ 16 * (a / 65536) = a by omega] at h
  exact h.symm

/-- The conversion to a 32-bit C `int`. -/
def toInt32 (z : ℤ) : ℤ := z.bmod (2 ^ 32)

theorem toInt32_of_range {z : ℤ} (h1 : -2 ^ 31 ≤ z) (h2 : z < 2 ^ 31) : toInt32 z = z := by
  unfold toInt32
  rw [Int.bmod_def]
  omega

/-- The reduction of a sum may be left to the end. -/
theorem toInt32_add (z w : ℤ) : toInt32 (toInt32 z + w) = toInt32 (z + w) := Int.bmod_add_bmod

/-! ### Signed words

A `long long` that is not negative has the bits of the natural number. -/

/-- The conversion of an integer to `uint16_t`. -/
def toUint16 (z : ℤ) : ℕ := (z % 2 ^ 16).toNat

theorem int64_ofNat_eq_zero_iff {a : ℕ} (h : a < 2 ^ 63) : Int64.ofNat a = 0 ↔ a = 0 := by
  rw [← Int64.toInt_inj, Int64.toInt_ofNat_of_lt h, Int64.toInt_zero]
  omega

theorem int64_and_ofNat (a b : ℕ) : Int64.ofNat a &&& Int64.ofNat b = Int64.ofNat (a &&& b) :=
  Int64.toBitVec_inj.mp BitVec.ofNat_and.symm

/-- The shift of a 64-bit word reduces the number of places. -/
theorem smod_places {s : ℕ} (h : s < 64) : (BitVec.ofNat 64 s).smod 64 = BitVec.ofNat 64 s := by
  revert s
  decide

theorem int64_shiftRight_ofNat {a s : ℕ} (ha : a < 2 ^ 63) (hs : s < 64) :
    Int64.ofNat a >>> Int64.ofNat s = Int64.ofNat (a / 2 ^ s) := by
  have hmsb : (BitVec.ofNat 64 a).msb = false := by
    rw [BitVec.msb_eq_false_iff_two_mul_lt, BitVec.toNat_ofNat]
    omega
  have hdiv : a / 2 ^ s < 2 ^ 64 := (Nat.div_le_self _ _).trans_lt (by omega)
  apply Int64.toBitVec_inj.mp
  show (BitVec.ofNat 64 a).sshiftRight' ((BitVec.ofNat 64 s).smod 64) = BitVec.ofNat 64 (a / 2 ^ s)
  rw [smod_places hs, BitVec.sshiftRight_eq', BitVec.sshiftRight_eq_of_msb_false hmsb]
  apply BitVec.eq_of_toNat_eq
  rw [BitVec.toNat_ushiftRight, BitVec.toNat_ofNat, BitVec.toNat_ofNat, BitVec.toNat_ofNat,
    Nat.mod_eq_of_lt (by omega), Nat.mod_eq_of_lt (by omega), Nat.mod_eq_of_lt hdiv,
    Nat.shiftRight_eq_div_pow]

/-! ### Products that are reduced and divided -/

/-- Reducing a dividend before the division loses at least one. -/
theorem mod_div_lt {x m n : ℕ} (hn : 0 < n) (hnm : n ≤ m) (hx : m ≤ x) : x % m / n < x / n := by
  have hstep : x % m + n ≤ x := by
    have hdiv := Nat.div_add_mod x m
    have hpos : 1 ≤ x / m := Nat.div_pos hx (by omega)
    have := Nat.mul_le_mul_left m hpos
    omega
  calc x % m / n < x % m / n + 1 := Nat.lt_succ_self _
    _ = (x % m + n) / n := (Nat.add_div_right _ hn).symm
    _ ≤ x / n := Nat.div_le_div_right hstep

theorem mod_div_eq_iff {x m n : ℕ} (hn : 0 < n) (hnm : n ≤ m) : x % m / n = x / n ↔ x < m := by
  constructor
  · intro heq
    by_contra hx
    exact absurd heq (mod_div_lt hn hnm (not_lt.mp hx)).ne
  · intro hx
    rw [Nat.mod_eq_of_lt hx]

/-- The share `g / (g + 1)` takes one off a number up to `g + 1`, and more off a
larger one. -/
theorem mul_div_succ_eq_iff {d g : ℕ} (hd : 0 < d) : d * g / (g + 1) = d - 1 ↔ d ≤ g + 1 := by
  obtain ⟨d, rfl⟩ := Nat.exists_eq_succ_of_ne_zero hd.ne'
  have hmul : (d + 1) * g + d = d * (g + 1) + g := by ring
  rw [Nat.succ_eq_add_one, Nat.add_sub_cancel]
  constructor
  · intro heq
    have := Nat.div_mul_le_self ((d + 1) * g) (g + 1)
    rw [heq] at this
    omega
  · intro hle
    refine Nat.div_eq_of_lt_le ?_ ?_
    · omega
    · have : (d + 1) * (g + 1) = d * (g + 1) + g + 1 := by ring
      omega

theorem mul_div_succ_le {d g : ℕ} : d * g / (g + 1) ≤ d - 1 := by
  obtain _ | d := d
  · simp
  · have hlt : (d + 1) * g < (d + 1) * (g + 1) :=
      Nat.mul_lt_mul_of_pos_left (Nat.lt_succ_self g) (Nat.succ_pos d)
    rw [Nat.add_sub_cancel]
    exact Nat.le_of_lt_succ ((Nat.div_lt_iff_lt_mul (Nat.succ_pos g)).mpr hlt)

/-! ### Byte order -/

/-- The 16-bit value of two bytes in network order. -/
def ntohs (b₀ b₁ : UInt8) : UInt16 := UInt16.ofNat (b₀.toNat * 256 + b₁.toNat)

/-- The 32-bit value of four bytes in network order. -/
def ntohl (b₀ b₁ b₂ b₃ : UInt8) : UInt32 :=
  UInt32.ofNat (((b₀.toNat * 256 + b₁.toNat) * 256 + b₂.toNat) * 256 + b₃.toNat)

/-- The two bytes that store `v` in network order. -/
def htons (v : UInt16) : List UInt8 := [UInt8.ofNat (v.toNat / 256), UInt8.ofNat v.toNat]

/-- The four bytes that store `v` in network order. -/
def htonl (v : UInt32) : List UInt8 :=
  [UInt8.ofNat (v.toNat / 16777216), UInt8.ofNat (v.toNat / 65536),
    UInt8.ofNat (v.toNat / 256), UInt8.ofNat v.toNat]

/-- The value in network order of the bytes that hold `v` on a little-endian
host. -/
def bswap32 (v : UInt32) : UInt32 :=
  ntohl (UInt8.ofNat v.toNat) (UInt8.ofNat (v.toNat / 256)) (UInt8.ofNat (v.toNat / 65536))
    (UInt8.ofNat (v.toNat / 16777216))

theorem ntohs_toNat (b₀ b₁ : UInt8) : (ntohs b₀ b₁).toNat = b₀.toNat * 256 + b₁.toNat := by
  have h0 := b₀.toNat_lt
  have h1 := b₁.toNat_lt
  rw [ntohs, UInt16.toNat_ofNat']
  omega

theorem ntohl_toNat (b₀ b₁ b₂ b₃ : UInt8) :
    (ntohl b₀ b₁ b₂ b₃).toNat =
      ((b₀.toNat * 256 + b₁.toNat) * 256 + b₂.toNat) * 256 + b₃.toNat := by
  have h0 := b₀.toNat_lt
  have h1 := b₁.toNat_lt
  have h2 := b₂.toNat_lt
  have h3 := b₃.toNat_lt
  rw [ntohl, UInt32.toNat_ofNat']
  omega

theorem ntohs_bytes (v : UInt16) :
    ntohs (UInt8.ofNat (v.toNat / 256)) (UInt8.ofNat v.toNat) = v := by
  apply UInt16.toNat_inj.mp
  have hv := v.toNat_lt
  rw [ntohs_toNat, UInt8.toNat_ofNat', UInt8.toNat_ofNat']
  omega

theorem ntohl_bytes (v : UInt32) :
    ntohl (UInt8.ofNat (v.toNat / 16777216)) (UInt8.ofNat (v.toNat / 65536))
      (UInt8.ofNat (v.toNat / 256)) (UInt8.ofNat v.toNat) = v := by
  apply UInt32.toNat_inj.mp
  have hv := v.toNat_lt
  rw [ntohl_toNat]
  simp only [UInt8.toNat_ofNat']
  omega

/-! ### Block operations -/

/-- The `n` bytes from index `off` on. -/
def slice (buf : List UInt8) (off n : ℕ) : List UInt8 := (buf.drop off).take n

theorem slice_length {buf : List UInt8} {off n : ℕ} (h : off + n ≤ buf.length) :
    (slice buf off n).length = n := by
  rw [slice, List.length_take, List.length_drop]
  omega

/-- Store `bytes` at index `off`. -/
def store (buf : List UInt8) (off : ℕ) (bytes : List UInt8) : Option (List UInt8) :=
  if off + bytes.length ≤ buf.length then
    some (buf.take off ++ bytes ++ buf.drop (off + bytes.length))
  else none

/-- `memset(buf + off, c, n)`. -/
def memset (buf : List UInt8) (off : ℕ) (c : UInt8) (n : ℕ) : Option (List UInt8) :=
  if off + n ≤ buf.length then
    some (buf.take off ++ List.replicate n c ++ buf.drop (off + n))
  else none

/-- `memmove(buf + dst, buf + src, n)`: the source range is read before the
destination is written. -/
def memmove (buf : List UInt8) (dst src n : ℕ) : Option (List UInt8) :=
  if src + n ≤ buf.length then store buf dst (slice buf src n) else none

/-- Inside the buffer a store succeeds, and keeps the length. -/
theorem store_inside {buf bytes : List UInt8} {off : ℕ} (h : off + bytes.length ≤ buf.length) :
    ∃ buf', store buf off bytes = some buf' ∧ buf'.length = buf.length := by
  refine ⟨_, if_pos h, ?_⟩
  rw [List.length_append, List.length_append, List.length_take, List.length_drop]
  omega

theorem memset_inside {buf : List UInt8} {off n : ℕ} (c : UInt8) (h : off + n ≤ buf.length) :
    ∃ buf', memset buf off c n = some buf' ∧ buf'.length = buf.length := by
  refine ⟨_, if_pos h, ?_⟩
  rw [List.length_append, List.length_append, List.length_take, List.length_replicate,
    List.length_drop]
  omega

theorem memset_outside {buf : List UInt8} {off n : ℕ} (c : UInt8) (h : buf.length < off + n) :
    memset buf off c n = none := if_neg (not_le.mpr h)

theorem memmove_inside {buf : List UInt8} {dst src n : ℕ} (hsrc : src + n ≤ buf.length)
    (hdst : dst + n ≤ buf.length) :
    ∃ buf', memmove buf dst src n = some buf' ∧ buf'.length = buf.length := by
  rw [memmove, if_pos hsrc]
  exact store_inside (by rw [slice_length hsrc]; exact hdst)

theorem memmove_outside {buf : List UInt8} {dst src n : ℕ} (h : buf.length < src + n) :
    memmove buf dst src n = none := if_neg (not_le.mpr h)

theorem store_zero {buf bytes : List UInt8} (h : bytes.length ≤ buf.length) :
    store buf 0 bytes = some (bytes ++ buf.drop bytes.length) := by
  rw [store, if_pos (by omega), List.take_zero, List.nil_append, Nat.zero_add]

/-- Clear a buffer from `off` to its end. -/
theorem memset_to_end {buf : List UInt8} {off n : ℕ} (c : UInt8) (h : off + n = buf.length) :
    memset buf off c n = some (buf.take off ++ List.replicate n c) := by
  rw [memset, if_pos (by omega), h, List.drop_length, List.append_nil]

theorem memmove_from_zero {buf : List UInt8} {dst n : ℕ} (h : dst + n ≤ buf.length) :
    memmove buf dst 0 n = some (buf.take dst ++ buf.take n ++ buf.drop (dst + n)) := by
  have hlen : (slice buf 0 n).length = n := slice_length (by omega)
  rw [memmove, if_pos (by omega), store, hlen, if_pos h]
  rfl

/-! ### Tables -/

/-- The loop `for (i = start; ..; i++) table[index(i)] = value(i)` of `n` rounds. -/
def fillTable {α : Type*} (index : ℤ → ℕ) (value : ℤ → α) : ℕ → ℤ → List α → Option (List α)
  | 0, _, table => some table
  | n + 1, i, table =>
    if index i < table.length then fillTable index value n (i + 1) (table.set (index i) (value i))
    else none

/-- A loop over all elements in order. -/
theorem fillTable_eq {α : Type*} (index : ℤ → ℕ) (value : ℤ → α) :
    ∀ (n : ℕ) (i : ℤ) (done rest : List α), rest.length = n →
      (∀ k < n, index (i + k) = done.length + k) →
      fillTable index value n i (done ++ rest) =
        some (done ++ (List.range n).map fun k : ℕ => value (i + k)) := by
  intro n
  induction n with
  | zero =>
    intro i done rest hrest _
    rw [List.length_eq_zero_iff.mp hrest]
    rfl
  | succ n ih =>
    intro i done rest hrest hindex
    obtain ⟨old, rest, rfl⟩ := List.exists_cons_of_length_eq_add_one hrest
    have hi : index i = done.length := by
      have h0 := hindex 0 (Nat.succ_pos n)
      rwa [Nat.cast_zero, add_zero] at h0
    have hset : (done ++ old :: rest).set done.length (value i) = (done ++ [value i]) ++ rest := by
      rw [List.set_append_right _ _ le_rfl, Nat.sub_self, List.set_cons_zero, List.append_assoc]
      rfl
    rw [fillTable, hi, if_pos (by rw [List.length_append, List.length_cons]; omega), hset,
      ih (i + 1) (done ++ [value i]) rest (Nat.succ.inj hrest) ?_, List.append_assoc,
      List.range_succ_eq_map]
    · congr 2
      rw [List.map_cons, List.map_map, List.singleton_append, Nat.cast_zero, add_zero]
      congr 1
      refine List.map_congr_left fun k _ => ?_
      show value (i + 1 + k) = value (i + (k + 1 : ℕ))
      congr 1
      push_cast
      ring
    · intro k hk
      have hk1 := hindex (k + 1) (by omega)
      rw [List.length_append, List.length_singleton]
      push_cast at hk1
      rw [add_assoc i 1 (k : ℤ), add_comm 1 (k : ℤ), hk1]
      omega

/-! ### Arrays that double -/

/-- The loop that doubles a capacity up to `need`; a `size_t` is doubled at most 64
times. -/
def growCap : ℕ → ℕ → ℕ → Option ℕ
  | 0, _, _ => none
  | fuel + 1, newCap, need =>
    if newCap < need then
      if newCap > (2 ^ 64 - 1) / 2 then none else growCap fuel (newCap * 2) need
    else some newCap

/-- `realloc`, which gives no block of more than `PTRDIFF_MAX` bytes; otherwise
the address is up to the allocator. -/
def realloc (size : ℕ) (addr : Option ℕ) : Option ℕ := if size < 2 ^ 63 then addr else none

theorem growCap_eq {cap : ℕ} (h : cap < 2 ^ 62) :
    growCap 65 (if cap = 0 then 4 else cap) (if cap = 0 then 4 else cap * 2 % 2 ^ 64) =
      some (if cap = 0 then 4 else cap * 2) := by
  by_cases hz : cap = 0
  · rw [if_pos hz, if_pos hz, if_pos hz]
    rfl
  · rw [if_neg hz, if_neg hz, if_neg hz, Nat.mod_eq_of_lt (by omega), growCap, if_pos (by omega),
      if_neg (by omega), growCap, if_neg (by omega)]

end CWords
