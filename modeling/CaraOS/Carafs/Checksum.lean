import CaraOS.Carafs.Format
import Mathlib.Data.Nat.Bitwise

namespace CaraOS.Carafs

/-!
# The block checksum

`Carafs_Crc32c` works a byte at a time with a table.  Its bit step is linear
over exclusive or and one to one on 32 bits, so the bytes of a message can be
taken as one number that the bit steps divide.
-/

open List

/-- A message bit goes through a register reduced by the polynomial. -/
def crcShift (c : Nat) (bit : Bool) : Nat :=
  if (c % 2 == 1) != bit then 0x82F63B78 ^^^ (c / 2) else c / 2

/-- The bits of a byte, in the order they are sent. -/
def byteBits (byte : UInt8) : List Bool :=
  (List.range 8).map byte.toNat.testBit

/-- CRC-32C as it is defined, bit by bit. -/
def crc32cBitwise (seed : Nat) (bytes : List UInt8) : Nat :=
  0xFFFFFFFF ^^^ ((bytes.flatMap byteBits).foldl crcShift (0xFFFFFFFF ^^^ seed))

theorem crcBit_xor (a b : Nat) : crcBit (a ^^^ b) = crcBit a ^^^ crcBit b := by
  have halves : (a ^^^ b) / 2 = a / 2 ^^^ b / 2 := Nat.shiftRight_xor_distrib (i := 1)
  change 0x82F63B78 * ((a ^^^ b) % 2) ^^^ (a ^^^ b) / 2 =
    (0x82F63B78 * (a % 2) ^^^ a / 2) ^^^ (0x82F63B78 * (b % 2) ^^^ b / 2)
  rw [halves]
  rcases Nat.mod_two_eq_zero_or_one a with isA | isA <;>
    rcases Nat.mod_two_eq_zero_or_one b with isB | isB <;>
      simp [Nat.add_mod, isA, isB, Nat.xor_assoc, Nat.xor_left_comm]

theorem crcBit_iterate_xor (n a b : Nat) :
    crcBit^[n] (a ^^^ b) = crcBit^[n] a ^^^ crcBit^[n] b := by
  induction n generalizing a b with
  | zero => rfl
  | succ n ih => rw [Function.iterate_succ_apply, crcBit_xor, ih]; rfl

theorem crcBit_double (c : Nat) : crcBit (2 * c) = c := by
  change 0x82F63B78 * (2 * c % 2) ^^^ 2 * c / 2 = c
  simp

/-- Bits that are zero leave without a reduction. -/
theorem crcBit_iterate_mul (n c : Nat) : crcBit^[n] (2 ^ n * c) = c := by
  induction n with
  | zero => rw [pow_zero, one_mul]; rfl
  | succ n ih =>
    rw [pow_succ', mul_assoc, Function.iterate_succ_apply, crcBit_double, ih]

theorem split_xor (n x : Nat) : x % 2 ^ n ^^^ 2 ^ n * (x / 2 ^ n) = x := by
  refine Nat.eq_of_testBit_eq fun i => ?_
  rw [Nat.testBit_xor, Nat.testBit_two_pow_mul, Nat.testBit_div_two_pow]
  by_cases low : i < n
  · simp [low, Nat.not_le.mpr low]
  · simp [low, Nat.not_lt.mp low]

theorem crcByte_eq (c : Nat) (byte : UInt8) : crcByte c byte = crcBit^[8] (c ^^^ byte.toNat) := by
  have high : (c ^^^ byte.toNat) / 2 ^ 8 = c / 2 ^ 8 := by
    rw [← Nat.shiftRight_eq_div_pow, Nat.shiftRight_xor_distrib, Nat.shiftRight_eq_div_pow,
      Nat.shiftRight_eq_div_pow, Nat.div_eq_of_lt byte.toNat_lt, Nat.xor_zero]
  rw [← split_xor 8 (c ^^^ byte.toNat), crcBit_iterate_xor, crcBit_iterate_mul, high]
  rfl

theorem crcShift_eq (c : Nat) (bit : Bool) : crcShift c bit = crcBit (c ^^^ bit.toNat) := by
  have one : crcBit bit.toNat = if bit then 0x82F63B78 else 0 := by
    cases bit <;> decide
  rw [crcBit_xor, one]
  change _ = (0x82F63B78 * (c % 2) ^^^ c / 2) ^^^ _
  rcases Nat.mod_two_eq_zero_or_one c with low | low <;> cases bit <;>
    simp [crcShift, low, Nat.xor_comm, Nat.xor_left_comm]

theorem foldl_crcShift (c x n : Nat) :
    ((List.range n).map x.testBit).foldl crcShift c = crcBit^[n] (c ^^^ x % 2 ^ n) := by
  induction n with
  | zero => simp [Nat.mod_one]
  | succ n ih =>
    have top : x % 2 ^ (n + 1) / 2 ^ n = (x.testBit n).toNat := by
      rw [Nat.toNat_testBit, pow_succ, Nat.mod_mul_right_div_self]
    have low : x % 2 ^ (n + 1) % 2 ^ n = x % 2 ^ n :=
      Nat.mod_mod_of_dvd x (pow_dvd_pow 2 (Nat.le_succ n))
    rw [range_succ, map_append, foldl_append, ih]
    change crcShift _ _ = _
    rw [crcShift_eq, ← split_xor n (x % 2 ^ (n + 1)), top, low, ← Nat.xor_assoc,
      Function.iterate_succ_apply', crcBit_iterate_xor n _ (2 ^ n * _), crcBit_iterate_mul]

theorem foldl_crcByte (bytes : List UInt8) (c : Nat) :
    bytes.foldl crcByte c = (bytes.flatMap byteBits).foldl crcShift c := by
  induction bytes generalizing c with
  | nil => rfl
  | cons byte bytes ih =>
    rw [flatMap_cons, foldl_append, byteBits, foldl_crcShift,
      Nat.mod_eq_of_lt byte.toNat_lt, ← crcByte_eq, ← ih]
    rfl

theorem crc32c_append (seed : Nat) (a b : List UInt8) :
    crc32c (crc32c seed a) b = crc32c seed (a ++ b) := by
  change 0xFFFFFFFF ^^^ b.foldl crcByte (0xFFFFFFFF ^^^ (0xFFFFFFFF ^^^ _)) =
    0xFFFFFFFF ^^^ (a ++ b).foldl crcByte _
  rw [Nat.xor_xor_cancel_left, foldl_append]

/-! ## Changes it detects -/

theorem crcBit_lt {c : Nat} (small : c < 2 ^ 32) : crcBit c < 2 ^ 32 := by
  refine Nat.xor_lt_two_pow ?_ (Nat.lt_of_le_of_lt (Nat.div_le_self c 2) small)
  change 0x82F63B78 * (c % 2) < 2 ^ 32
  omega

/-- The polynomial's top bit shows whether there was a reduction. -/
theorem crcBit_eq_zero {c : Nat} (small : c < 2 ^ 32) (zero : crcBit c = 0) : c = 0 := by
  have same : 0x82F63B78 * (c % 2) = c / 2 := Nat.xor_eq_zero_iff.mp zero
  omega

theorem crcBit_iterate_eq_zero {n c : Nat} (small : c < 2 ^ 32) (zero : crcBit^[n] c = 0) :
    c = 0 := by
  induction n generalizing c with
  | zero => exact zero
  | succ n ih => exact crcBit_eq_zero small (ih (crcBit_lt small) zero)

/-- A message as one number, its first byte the lowest. -/
def word : List UInt8 → Nat
  | [] => 0
  | byte :: bytes => 2 ^ 8 * word bytes + byte.toNat

theorem foldl_crcByte_word (bytes : List UInt8) (c : Nat) :
    bytes.foldl crcByte c = crcBit^[8 * bytes.length] (c ^^^ word bytes) := by
  induction bytes generalizing c with
  | nil => exact (Nat.xor_zero c).symm
  | cons byte bytes ih =>
    have small := byte.toNat_lt
    have low : word (byte :: bytes) % 2 ^ 8 = byte.toNat := by
      rw [word]
      omega
    have high : word (byte :: bytes) / 2 ^ 8 = word bytes := by
      rw [word]
      omega
    rw [foldl_cons, ih, crcByte_eq, length_cons, Nat.mul_succ,
      Function.iterate_add_apply, ← split_xor 8 (word (byte :: bytes)), low, high,
      ← Nat.xor_assoc, crcBit_iterate_xor 8 _ (2 ^ 8 * _), crcBit_iterate_mul]

theorem xor_xor_xor_cancel (a b c : Nat) : (a ^^^ b) ^^^ (a ^^^ c) = b ^^^ c := by
  rw [Nat.xor_assoc, Nat.xor_left_comm b, Nat.xor_xor_cancel_left]

/-- The same bytes keep two registers as far apart as bit steps do. -/
theorem foldl_crcByte_xor (bytes : List UInt8) (c d : Nat) :
    bytes.foldl crcByte c ^^^ bytes.foldl crcByte d = crcBit^[8 * bytes.length] (c ^^^ d) := by
  rw [foldl_crcByte_word, foldl_crcByte_word, ← crcBit_iterate_xor, Nat.xor_comm c, Nat.xor_comm d,
    xor_xor_xor_cancel]

theorem word_lt (bytes : List UInt8) : word bytes < 2 ^ (8 * bytes.length) := by
  induction bytes with
  | nil => exact Nat.one_pos
  | cons byte bytes ih =>
    have small := byte.toNat_lt
    rw [word, length_cons, Nat.mul_succ, pow_add]
    omega

theorem word_inj {a b : List UInt8} (sameLength : a.length = b.length) (same : word a = word b) :
    a = b := by
  induction a generalizing b with
  | nil => exact (length_eq_zero_iff.mp sameLength.symm).symm
  | cons x a ih =>
    cases b with
    | nil => cases sameLength
    | cons y b =>
      have smallX := x.toNat_lt
      have smallY := y.toNat_lt
      rw [word, word] at same
      rw [UInt8.toNat_inj.mp (by omega : x.toNat = y.toNat), ih (Nat.succ.inj sameLength) (by omega)]

/-- What `Carafs_BlockCrc` sums up: the block with zeroes for the checksum. -/
def withoutCrc (bytes : List UInt8) (crcOff : Nat) : List UInt8 :=
  bytes.take crcOff ++ ([0, 0, 0, 0] ++ bytes.drop (crcOff + 4))

theorem blockCrc_eq (bytes : List UInt8) (crcOff : Nat) :
    blockCrc bytes crcOff = crc32c 0 (withoutCrc bytes crcOff) := by
  rw [blockCrc, crc32c_append, crc32c_append]
  rfl

/--
The checksum is CRC-32C, can be taken in parts, and tells blocks apart that
differ in at most four bytes in a row besides the checksum.
-/
theorem carafs_checksum :
    (∀ seed bytes, crc32c seed bytes = crc32cBitwise seed bytes) ∧
    (∀ seed a b, crc32c (crc32c seed a) b = crc32c seed (a ++ b)) ∧
    ∀ (crcOff : Nat) (a b before burst burst' behind : List UInt8),
      withoutCrc a crcOff = before ++ burst ++ behind →
      withoutCrc b crcOff = before ++ burst' ++ behind →
      burst.length = burst'.length → burst.length ≤ 4 → burst ≠ burst' →
      blockCrc a crcOff ≠ blockCrc b crcOff := by
  refine ⟨?_, crc32c_append, ?_⟩
  · intro seed bytes
    rw [crc32cBitwise, ← foldl_crcByte]
    rfl
  · intro crcOff a b before burst burst' behind isA isB sameLength short differ equal
    rw [blockCrc_eq, blockCrc_eq, isA, isB] at equal
    have sums := Nat.xor_right_inj.mp equal
    rw [foldl_append, foldl_append, foldl_append, foldl_append, ← Nat.xor_eq_zero_iff,
      foldl_crcByte_xor, foldl_crcByte_word burst, foldl_crcByte_word burst', ← sameLength,
      ← crcBit_iterate_xor, ← Function.iterate_add_apply, xor_xor_xor_cancel] at sums
    have small : word burst ^^^ word burst' < 2 ^ 32 := by
      have le : 2 ^ (8 * burst.length) ≤ 2 ^ 32 := Nat.pow_le_pow_right (by decide) (by omega)
      refine Nat.xor_lt_two_pow ((word_lt burst).trans_le le) ((word_lt burst').trans_le ?_)
      rwa [← sameLength]
    exact differ (word_inj sameLength (Nat.xor_eq_zero_iff.mp (crcBit_iterate_eq_zero small sums)))

theorem carafs_checksum_flip :
    blockCrc [1, 2, 3, 4, 5, 6, 7, 8] 0 ≠ blockCrc [1, 2, 3, 4, 5, 6, 7, 9] 0 :=
  carafs_checksum.2.2 0 _ _ [0, 0, 0, 0, 5, 6, 7] [8] [9] [] rfl rfl rfl (by decide) (by decide)

end CaraOS.Carafs
