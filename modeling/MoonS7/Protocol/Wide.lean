import MoonS7.Protocol.Bytes

/-!
# 64-bit integers

MoonBit's `Int64` is a 64-bit two's complement integer. The fields of four and of eight bytes go
through it where an `Int` has not enough bits for an unsigned value or a mantissa. As in `Bytes`,
everything is read as arithmetic on the bits, `bits64 v`.
-/

namespace MoonS7

/-- The 64 bits of `v`, read as a natural number. -/
def bits64 (v : Int64) : Nat := v.toUInt64.toNat

section Bits

variable (a v : Int64)

theorem bits64_toInt : (bits64 v : Int) = v.toInt % 2 ^ 64 := by
  show (v.toBitVec.toNat : Int) = v.toBitVec.toInt % 2 ^ 64
  have := v.toBitVec.isLt
  rw [BitVec.toInt_eq_toNat_cond]
  split <;> omega

/-- Bits that leave the sign bit alone are the number. -/
theorem toInt_eq_bits64 {v : Int64} (h : bits64 v < 2 ^ 63) : v.toInt = bits64 v := by
  have h₁ := bits64_toInt v
  have h₂ := v.le_toInt
  have h₃ := v.toInt_lt
  omega

theorem bits64_ofInt (n : Int) : bits64 (Int64.ofInt n) = (n % 2 ^ 64).toNat := by
  show (BitVec.ofInt 64 n).toNat = (n % 2 ^ 64).toNat
  rw [BitVec.toNat_ofInt]
  rfl

theorem bits64_sub : bits64 (a - v) = (2 ^ 64 - bits64 v + bits64 a) % 2 ^ 64 := by
  show (a - v).toBitVec.toNat = (2 ^ 64 - v.toBitVec.toNat + a.toBitVec.toNat) % 2 ^ 64
  rw [Int64.toBitVec_sub, BitVec.toNat_sub]

theorem bits64_or : bits64 (a ||| v) = bits64 a ||| bits64 v := by
  show (a ||| v).toBitVec.toNat = a.toBitVec.toNat ||| v.toBitVec.toNat
  rw [Int64.toBitVec_or, BitVec.toNat_or]

theorem bits64_shiftLeft {k : Int64} {n : Nat} (hk : k.toBitVec.smod 64 = BitVec.ofNat 64 n)
    (hn : n < 64) : bits64 (v <<< k) = bits64 v * 2 ^ n % 2 ^ 64 := by
  have e : (BitVec.ofNat 64 n).toNat = n := by
    rw [BitVec.toNat_ofNat]
    omega
  show (v <<< k).toBitVec.toNat = v.toBitVec.toNat * 2 ^ n % 2 ^ 64
  rw [Int64.toBitVec_shiftLeft, hk, BitVec.shiftLeft_eq', BitVec.toNat_shiftLeft, e, Nat.shiftLeft_eq]

theorem bits64_mask {mask : Int64} {m : Nat} (h : bits64 mask = 2 ^ m - 1) :
    bits64 (v &&& mask) = bits64 v % 2 ^ m := by
  show (v &&& mask).toBitVec.toNat = v.toBitVec.toNat % 2 ^ m
  rw [Int64.toBitVec_and]
  exact toNat_mask h

theorem bits64_field {k mask : Int64} {n m : Nat} (hk : k.toBitVec.smod 64 = BitVec.ofNat 64 n)
    (hm : bits64 mask = 2 ^ m - 1) (hnm : n + m ≤ 64) (hn : n < 64) :
    bits64 ((v >>> k) &&& mask) = bits64 v / 2 ^ n % 2 ^ m := by
  have e : (BitVec.ofNat 64 n).toNat = n := by
    rw [BitVec.toNat_ofNat]
    omega
  show ((v >>> k) &&& mask).toBitVec.toNat = v.toBitVec.toNat / 2 ^ n % 2 ^ m
  rw [Int64.toBitVec_and, Int64.toBitVec_shiftRight, hk, BitVec.sshiftRight', e]
  exact toNat_field hm hnm

/-- `v.to_int()` keeps the lower half. -/
theorem bits_toInt32 : bits v.toInt32 = bits64 v % 2 ^ 32 := by
  show (v.toBitVec.signExtend 32).toNat = v.toBitVec.toNat % 2 ^ 32
  rw [BitVec.signExtend_eq_setWidth_of_le _ (by decide), BitVec.toNat_setWidth]

/-- `v.to_int64()` keeps the bits, and copies the sign bit into the upper half. -/
theorem bits64_toInt64 (v : Int32) : bits64 v.toInt64 % 2 ^ 32 = bits v := by
  have h := bits64_toInt v.toInt64
  rw [Int32.toInt_toInt64] at h
  have h' := bits_toInt v
  omega

end Bits

end MoonS7
