import Mathlib.Algebra.Ring.Int.Defs
import Mathlib.Algebra.Ring.Nat
import Mathlib.Data.Nat.Bitwise
import MoonS7.Core

/-!
# Bytes and 32-bit integers (`protocol/s7comm.mbt`, 20-32)

MoonBit's `Int` is a 32-bit two's complement integer, `Int32` here; a `Byte` is a `UInt8`. The
encoders cut bytes out of an `Int` with shifts and masks, the decoders put them together again.
Both are read here as arithmetic on `bits v`, the 32 bits of `v` as a natural number.
-/

namespace MoonS7

/-- `v.to_byte()`: the lowest eight bits. -/
def tb (v : Int32) : UInt8 := v.toUInt32.toUInt8

def hi8 (v : Int32) : UInt8 := tb ((v >>> 8) &&& 0xFF)

def lo8 (v : Int32) : UInt8 := tb (v &&& 0xFF)

/-- `b.to_int()`. -/
def toInt (b : UInt8) : Int32 := Int32.ofNat b.toNat

/-- The 32 bits of `v`, read as a natural number. -/
def bits (v : Int32) : Nat := v.toUInt32.toNat

/-! ## 1. The bits of a sum, of a shift and of a masked number -/

theorem bits_inj {a b : Int32} (h : bits a = bits b) : a = b :=
  Int32.toBitVec_inj.mp (BitVec.eq_of_toNat_eq h)

theorem bits_lt (v : Int32) : bits v < 2 ^ 32 := v.toBitVec.isLt

@[simp] theorem bits_ofNat (n : Nat) : bits (Int32.ofNat n) = n % 2 ^ 32 := by
  simp [bits]

theorem bits_add (a b : Int32) : bits (a + b) = (bits a + bits b) % 2 ^ 32 := by
  simp [bits]

theorem bits_or (a b : Int32) : bits (a ||| b) = bits a ||| bits b := by
  show (a ||| b).toBitVec.toNat = a.toBitVec.toNat ||| b.toBitVec.toNat
  rw [Int32.toBitVec_or, BitVec.toNat_or]

theorem bits_shiftLeft {k : Int32} {n : Nat} (hk : k.toBitVec.smod 32 = BitVec.ofNat 32 n)
    (hn : n < 32) (v : Int32) : bits (v <<< k) = bits v * 2 ^ n % 2 ^ 32 := by
  have e : (BitVec.ofNat 32 n).toNat = n := by
    rw [BitVec.toNat_ofNat]
    omega
  show (v <<< k).toBitVec.toNat = v.toBitVec.toNat * 2 ^ n % 2 ^ 32
  rw [Int32.toBitVec_shiftLeft, hk, BitVec.shiftLeft_eq', BitVec.toNat_shiftLeft, e, Nat.shiftLeft_eq]

theorem bits_shiftLeft_three (v : Int32) : bits (v <<< 3) = bits v * 8 % 2 ^ 32 :=
  bits_shiftLeft (n := 3) (by decide) (by decide) v

theorem bits_toInt (v : Int32) : (bits v : Int) = v.toInt % 2 ^ 32 := by
  show (v.toBitVec.toNat : Int) = v.toBitVec.toInt % 2 ^ 32
  have := v.toBitVec.isLt
  rw [BitVec.toInt_eq_toNat_cond]
  split <;> omega

/-- A number that is not negative is its bits. -/
theorem bits_of_nonneg {v : Int32} (h : 0 ≤ v.toInt) : bits v = v.toInt.toNat := by
  have h₁ := bits_toInt v
  have h₂ := v.toInt_lt
  omega

/-- Bits that leave the sign bit alone are the number. -/
theorem toInt_eq_bits {v : Int32} (h : bits v < 2 ^ 31) : v.toInt = bits v := by
  have h₁ := bits_toInt v
  have h₂ := v.le_toInt
  have h₃ := v.toInt_lt
  omega

/-- The lowest bits of a number, from its value. -/
theorem bits_mod {n : Nat} (h : n ∣ 2 ^ 32) (v : Int32) : bits v % n = (v.toInt % n).toNat := by
  have h₁ : ((bits v % n : Nat) : Int) = v.toInt % n := by
    rw [Int.natCast_emod, bits_toInt]
    exact Int.emod_emod_of_dvd _ (by exact_mod_cast h)
  rw [← h₁, Int.toNat_natCast]

theorem toInt_ofNat_small {n : Nat} (h : n < 2 ^ 31) : (Int32.ofNat n).toInt = n :=
  Int32.toInt_ofNat_of_lt h

theorem toNat_mask {w m : Nat} {x mask : BitVec w} (h : mask.toNat = 2 ^ m - 1) :
    (x &&& mask).toNat = x.toNat % 2 ^ m := by
  rw [BitVec.toNat_and, h, Nat.and_two_pow_sub_one_eq_mod]

/-- A shift to the right by `n` and a mask of `m` bits cut out the bits from `n` on: the copies of
    the sign bit that the shift brings in are above them. -/
theorem toNat_field {w n m : Nat} {x mask : BitVec w} (h : mask.toNat = 2 ^ m - 1) (hnm : n + m ≤ w) :
    (x.sshiftRight n &&& mask).toNat = x.toNat / 2 ^ n % 2 ^ m := by
  rw [toNat_mask h]
  apply Nat.eq_of_testBit_eq
  intro i
  rw [Nat.testBit_mod_two_pow, Nat.testBit_mod_two_pow, Nat.testBit_div_two_pow]
  by_cases hi : i < m
  · have hshift : (x.sshiftRight n).toNat.testBit i = x.toNat.testBit (i + n) := by
      have hw : ¬ w ≤ i := by omega
      rw [BitVec.testBit_toNat, BitVec.testBit_toNat, BitVec.getLsbD_sshiftRight,
        if_pos (by omega), Nat.add_comm]
      simp [hw]
    rw [hshift]
  · simp [hi]

theorem bits_mask {mask : Int32} {m : Nat} (h : bits mask = 2 ^ m - 1) (v : Int32) :
    bits (v &&& mask) = bits v % 2 ^ m := by
  show (v &&& mask).toBitVec.toNat = v.toBitVec.toNat % 2 ^ m
  rw [Int32.toBitVec_and]
  exact toNat_mask h

/-- The mask of the sign bit. -/
theorem sign_mask (v : Int32) : v &&& 0x80000000 ≠ 0 ↔ bits v / 2 ^ 31 = 1 := by
  have hlt := bits_lt v
  have hmask : bits (v &&& 0x80000000) = 2 ^ 31 * (decide (bits v / 2 ^ 31 % 2 = 1)).toNat := by
    rw [← Nat.testBit_eq_decide_div_mod_eq, ← Nat.two_pow_and, Nat.and_comm]
    show (v &&& 0x80000000).toBitVec.toNat = v.toBitVec.toNat &&& 2 ^ 31
    rw [Int32.toBitVec_and, BitVec.toNat_and]
    rfl
  have hne : v &&& 0x80000000 ≠ 0 ↔ bits (v &&& 0x80000000) ≠ 0 :=
    not_congr ⟨fun h => by rw [h]; rfl, fun h => bits_inj h⟩
  rw [hne, hmask]
  by_cases h : bits v / 2 ^ 31 % 2 = 1
  · simp only [h, decide_true, Bool.toNat_true]
    omega
  · simp only [h, decide_false, Bool.toNat_false]
    omega

theorem bits_field {k mask : Int32} {n m : Nat} (hk : k.toBitVec.smod 32 = BitVec.ofNat 32 n)
    (hm : bits mask = 2 ^ m - 1) (hnm : n + m ≤ 32) (hn : n < 32) (v : Int32) :
    bits ((v >>> k) &&& mask) = bits v / 2 ^ n % 2 ^ m := by
  have e : (BitVec.ofNat 32 n).toNat = n := by
    rw [BitVec.toNat_ofNat]
    omega
  show ((v >>> k) &&& mask).toBitVec.toNat = v.toBitVec.toNat / 2 ^ n % 2 ^ m
  rw [Int32.toBitVec_and, Int32.toBitVec_shiftRight, hk, BitVec.sshiftRight', e]
  exact toNat_field hm hnm

/-- A number that is not negative is shifted to the right without copies of its sign bit. -/
theorem bits_shiftRight {k : Int32} {n : Nat} (hk : k.toBitVec.smod 32 = BitVec.ofNat 32 n)
    (hn : n < 32) {v : Int32} (h : bits v < 2 ^ 31) : bits (v >>> k) = bits v / 2 ^ n := by
  have e : (BitVec.ofNat 32 n).toNat = n := by
    rw [BitVec.toNat_ofNat]
    omega
  have hmsb : v.toBitVec.msb = false := BitVec.msb_eq_false_iff_two_mul_lt.mpr (by
    have : v.toBitVec.toNat < 2 ^ 31 := h
    omega)
  show (v >>> k).toBitVec.toNat = v.toBitVec.toNat / 2 ^ n
  rw [Int32.toBitVec_shiftRight, hk, BitVec.sshiftRight', e, BitVec.sshiftRight_eq_of_msb_false hmsb,
    BitVec.toNat_ushiftRight, Nat.shiftRight_eq_div_pow]

/-! ## 2. Bytes cut out of an integer -/

theorem tb_eq (v : Int32) : tb v = UInt8.ofNat (bits v) := by
  apply UInt8.toNat.inj
  simp [tb, bits]

theorem tb_shiftRight {k : Int32} {n : Nat} (hk : k.toBitVec.smod 32 = BitVec.ofNat 32 n)
    (hn : n ≤ 24) (v : Int32) : tb ((v >>> k) &&& 0xFF) = UInt8.ofNat (bits v / 2 ^ n) := by
  rw [tb_eq, bits_field hk (m := 8) (by decide) (by omega) (by omega)]
  apply UInt8.toNat.inj
  simp

theorem hi8_eq (v : Int32) : hi8 v = UInt8.ofNat (bits v / 256) :=
  tb_shiftRight (k := 8) (n := 8) (by decide) (by decide) v

theorem tb_shift16 (v : Int32) : tb ((v >>> 16) &&& 0xFF) = UInt8.ofNat (bits v / 65536) :=
  tb_shiftRight (k := 16) (n := 16) (by decide) (by decide) v

theorem lo8_eq (v : Int32) : lo8 v = UInt8.ofNat (bits v) := by
  rw [lo8, tb_eq, bits_mask (m := 8) (by decide)]
  apply UInt8.toNat.inj
  simp

/-- The four bytes of a word, the most significant one first. -/
def bytes32 (bits : Int32) : List UInt8 :=
  [tb ((bits >>> 24) &&& 0xFF), tb ((bits >>> 16) &&& 0xFF), tb ((bits >>> 8) &&& 0xFF),
    tb (bits &&& 0xFF)]

theorem bytes32_eq (v : Int32) : bytes32 v = [UInt8.ofNat (bits v / 2 ^ 24),
    UInt8.ofNat (bits v / 65536), UInt8.ofNat (bits v / 256), UInt8.ofNat (bits v)] := by
  have h24 : tb ((v >>> 24) &&& 0xFF) = UInt8.ofNat (bits v / 2 ^ 24) :=
    tb_shiftRight (n := 24) (by decide) (by decide) v
  have h8 : tb ((v >>> 8) &&& 0xFF) = UInt8.ofNat (bits v / 256) := hi8_eq v
  have h0 : tb (v &&& 0xFF) = UInt8.ofNat (bits v) := lo8_eq v
  rw [bytes32, h24, tb_shift16, h8, h0]

/-- The bytes of a length or a count. -/
theorem hi8_ofNat (n : Nat) : hi8 (Int32.ofNat n) = UInt8.ofNat (n / 256) := by
  rw [hi8_eq, bits_ofNat]
  apply UInt8.toNat.inj
  simp only [UInt8.toNat_ofNat']
  omega

/-! ## 3. Integers put together from bytes -/

theorem bits_byte (b : UInt8) : bits (toInt b) = b.toNat := by
  have := b.toNat_lt
  rw [toInt, bits_ofNat]
  omega

/-- The bits a byte keeps under a mask. -/
theorem bits_toInt_mask {mask : Int32} {m : Nat} (h : bits mask = 2 ^ m - 1) (b : UInt8) :
    bits (toInt b &&& mask) = b.toNat % 2 ^ m := by
  rw [bits_mask h, bits_byte]

theorem or_eq_add {x y n : Nat} (h : y < 2 ^ n) : x * 2 ^ n ||| y = x * 2 ^ n + y := by
  rw [← Nat.shiftLeft_eq, Nat.shiftLeft_add_eq_or_of_lt h]

/-- The same with both numbers moved to the left. -/
theorem or_shifted {x y m n : Nat} (h : y < 2 ^ m) :
    x * 2 ^ (m + n) ||| y * 2 ^ n = (x * 2 ^ m + y) * 2 ^ n := by
  have hlt : y * 2 ^ n < 2 ^ (m + n) := by
    rw [Nat.pow_add]
    exact Nat.mul_lt_mul_of_pos_right h (Nat.two_pow_pos n)
  rw [or_eq_add hlt, Nat.pow_add, Nat.add_mul, Nat.mul_assoc]

/-- Four bytes joined by `|`. -/
theorem or_bytes (a b c d : UInt8) :
    a.toNat * 2 ^ 24 ||| b.toNat * 2 ^ 16 ||| c.toNat * 2 ^ 8 ||| d.toNat =
      ((a.toNat * 256 + b.toNat) * 256 + c.toNat) * 256 + d.toNat := by
  have h₂ : a.toNat * 2 ^ 24 ||| b.toNat * 2 ^ 16 = (a.toNat * 256 + b.toNat) * 2 ^ 16 :=
    or_shifted (m := 8) (n := 16) b.toNat_lt
  have h₃ : (a.toNat * 256 + b.toNat) * 2 ^ 16 ||| c.toNat * 2 ^ 8 =
      ((a.toNat * 256 + b.toNat) * 256 + c.toNat) * 2 ^ 8 := or_shifted (m := 8) (n := 8) c.toNat_lt
  rw [h₂, h₃, or_eq_add d.toNat_lt]
  rfl

/-- `(a.to_int() << 8) | b.to_int()`. -/
def be16 (a b : UInt8) : Int32 := (toInt a <<< 8) ||| toInt b

theorem be16_eq (a b : UInt8) : be16 a b = Int32.ofNat (a.toNat * 256 + b.toNat) := by
  have ha := a.toNat_lt
  have hb := b.toNat_lt
  apply bits_inj
  rw [be16, bits_or, bits_shiftLeft (n := 8) (by decide) (by decide), bits_byte, bits_byte,
    Nat.mod_eq_of_lt (by omega), or_eq_add hb, bits_ofNat, Nat.mod_eq_of_lt (by omega)]
  rfl

theorem be16_toInt (a b : UInt8) : (be16 a b).toInt = a.toNat * 256 + b.toNat := by
  have ha := a.toNat_lt
  have hb := b.toNat_lt
  rw [be16_eq, toInt_ofNat_small (by omega)]
  rfl

/-- `(a.to_int() << 24) | (b.to_int() << 16) | (c.to_int() << 8) | d.to_int()`. -/
def be32 (a b c d : UInt8) : Int32 :=
  (toInt a <<< 24) ||| (toInt b <<< 16) ||| (toInt c <<< 8) ||| toInt d

theorem bits_be32 (a b c d : UInt8) :
    bits (be32 a b c d) = ((a.toNat * 256 + b.toNat) * 256 + c.toNat) * 256 + d.toNat := by
  have ha := a.toNat_lt
  have hb := b.toNat_lt
  have hc := c.toNat_lt
  rw [be32, bits_or, bits_or, bits_or, bits_shiftLeft (n := 24) (by decide) (by decide),
    bits_shiftLeft (n := 16) (by decide) (by decide), bits_shiftLeft (n := 8) (by decide) (by decide),
    bits_byte, bits_byte, bits_byte, bits_byte, Nat.mod_eq_of_lt (by omega),
    Nat.mod_eq_of_lt (by omega), Nat.mod_eq_of_lt (by omega), or_bytes]

/-- **A sign bit, an exponent that is not masked and a mantissa**, put together with `|`: the bit of
    the exponent above its field falls on the sign bit, those above it are lost. -/
theorem or_fields {s e m p q : Nat} (hpq : p + q = 31) (hm : m < 2 ^ p) :
    s * 2 ^ 31 ||| e * 2 ^ p % 2 ^ 32 ||| m =
      ((s ||| e / 2 ^ q % 2) * 2 ^ q + e % 2 ^ q) * 2 ^ p + m := by
  have hs : s * 2 ^ 31 = s <<< q <<< p := by
    rw [Nat.shiftLeft_eq, Nat.shiftLeft_eq, Nat.mul_assoc, ← Nat.pow_add, Nat.add_comm q p, hpq]
  have he : e * 2 ^ p % 2 ^ 32 = (e % 2 ^ (q + 1)) <<< p := by
    rw [Nat.shiftLeft_eq, show 32 = q + 1 + p by omega, Nat.pow_add _ (q + 1) p,
      Nat.mul_mod_mul_right]
  have hsplit : e % 2 ^ (q + 1) = (e / 2 ^ q % 2) <<< q ||| e % 2 ^ q := by
    rw [← Nat.shiftLeft_add_eq_or_of_lt (Nat.mod_lt _ (Nat.two_pow_pos q)), Nat.shiftLeft_eq,
      Nat.pow_succ, Nat.mod_mul, Nat.mul_comm (2 ^ q), Nat.add_comm]
  rw [hs, he, ← Nat.shiftLeft_or_distrib, hsplit, ← Nat.or_assoc, ← Nat.shiftLeft_or_distrib,
    ← Nat.shiftLeft_add_eq_or_of_lt (Nat.mod_lt _ (Nat.two_pow_pos q)),
    ← Nat.shiftLeft_add_eq_or_of_lt hm, Nat.shiftLeft_eq, Nat.shiftLeft_eq]

end MoonS7
