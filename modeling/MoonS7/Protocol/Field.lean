import MoonS7.Lib.BigEndian
import MoonS7.Protocol.Wide

/-!
# 32-bit fields (`protocol/field.mbt`, 124-245)

The signed and the unsigned 32-bit field of a data block. The constructors give a field the value
`0` when they get fewer than four bytes.

Main results: `dint_exact` and `dword_exact` -- the value of a field is the number of its four bytes,
and its bytes are these four.
-/

namespace MoonS7

open BigEndian

/-! ## 1. The fields -/

/-- Four bytes, most significant first; `b[i]` aborts past the end. -/
def dwordFromBytes (b : List UInt8) : S7Result Int64 := do
  let b0 ← byteAt b 0
  let b1 ← byteAt b 1
  let b2 ← byteAt b 2
  let b3 ← byteAt b 3
  .ok (((toInt b0).toInt64 <<< 24) ||| ((toInt b1).toInt64 <<< 16) ||| ((toInt b2).toInt64 <<< 8) |||
    (toInt b3).toInt64)

def dwordToBytes (val : Int64) : List UInt8 :=
  [((val >>> 24) &&& 0xFF).toUInt64.toUInt8, ((val >>> 16) &&& 0xFF).toUInt64.toUInt8,
    ((val >>> 8) &&& 0xFF).toUInt64.toUInt8, (val &&& 0xFF).toUInt64.toUInt8]

def dintFromBytes (b : List UInt8) : S7Result Int32 := do
  let u ← dwordFromBytes b
  let s := if u ≥ 0x80000000 then u - 0x100000000 else u
  .ok s.toInt32

def dintToBytes (val : Int32) : List UInt8 := dwordToBytes (val.toInt64 &&& 0xFFFFFFFF)

structure DIntField where
  dbNum : Int32
  offsetVal : Int32
  valueVal : Int32

def DIntField.new (db offset : Int32) (bytes : List UInt8) : S7Result DIntField := do
  let val ← if bytes.length ≥ 4 then dintFromBytes bytes else .ok 0
  .ok { dbNum := db, offsetVal := offset, valueVal := val }

def DIntField.value (self : DIntField) : Int32 := self.valueVal

def DIntField.toBytes (self : DIntField) : List UInt8 := dintToBytes self.valueVal

structure DWordField where
  dbNum : Int32
  offsetVal : Int32
  valueVal : Int64

def DWordField.new (db offset : Int32) (bytes : List UInt8) : S7Result DWordField := do
  let val ← if bytes.length ≥ 4 then dwordFromBytes bytes else .ok 0
  .ok { dbNum := db, offsetVal := offset, valueVal := val }

def DWordField.value (self : DWordField) : Int64 := self.valueVal

def DWordField.toBytes (self : DWordField) : List UInt8 := dwordToBytes self.valueVal

/-- Fewer than four bytes are read as `0`. -/
theorem dint_short (db offset : Int32) {bytes : List UInt8} (h : bytes.length < 4) :
    DIntField.new db offset bytes = .ok ⟨db, offset, 0⟩ := by
  rw [DIntField.new, if_neg (by omega)]
  rfl

theorem dword_short (db offset : Int32) {bytes : List UInt8} (h : bytes.length < 4) :
    DWordField.new db offset bytes = .ok ⟨db, offset, 0⟩ := by
  rw [DWordField.new, if_neg (by omega)]
  rfl

/-! ## 2. The bytes as numbers -/

/-- A byte cut out of a 64-bit integer. -/
theorem byte_field {k : Int64} {n : Nat} (hk : k.toBitVec.smod 64 = BitVec.ofNat 64 n) (hn : n ≤ 56)
    (v : Int64) : ((v >>> k) &&& 0xFF).toUInt64.toUInt8 = UInt8.ofNat (bits64 v / 2 ^ n) := by
  have hbits : bits64 ((v >>> k) &&& 0xFF) = bits64 v / 2 ^ n % 2 ^ 8 :=
    bits64_field v hk (by decide) (by omega) (by omega)
  apply UInt8.toNat.inj
  rw [UInt64.toNat_toUInt8, UInt8.toNat_ofNat', ← bits64, hbits]
  omega

theorem dwordToBytes_eq (v : Int64) : dwordToBytes v = beBytes (bits64 v) 4 := by
  have h0 : (v &&& 0xFF).toUInt64.toUInt8 = UInt8.ofNat (bits64 v) := by
    have hbits : bits64 (v &&& 0xFF) = bits64 v % 2 ^ 8 := bits64_mask v (by decide)
    apply UInt8.toNat.inj
    rw [UInt64.toNat_toUInt8, UInt8.toNat_ofNat', ← bits64, hbits]
    omega
  rw [dwordToBytes, byte_field (k := 24) (n := 24) (by decide) (by decide),
    byte_field (k := 16) (n := 16) (by decide) (by decide),
    byte_field (k := 8) (n := 8) (by decide) (by decide), h0]
  simp [beBytes]

theorem dintToBytes_eq (v : Int32) : dintToBytes v = beBytes (bits v) 4 := by
  have hbits : bits64 (v.toInt64 &&& 0xFFFFFFFF) = bits64 v.toInt64 % 2 ^ 32 :=
    bits64_mask _ (by decide)
  rw [dintToBytes, dwordToBytes_eq, hbits, bits64_toInt64]

theorem bits64_byte (b : UInt8) : bits64 (toInt b).toInt64 = b.toNat := by
  have hlt := b.toNat_lt
  have hv : (toInt b).toInt = b.toNat := toInt_ofNat_small (by omega)
  have h := bits64_toInt (toInt b).toInt64
  rw [Int32.toInt_toInt64, hv] at h
  omega

theorem dwordFromBytes_eq {bs : List UInt8} (h : bs.length = 4) :
    ∃ u, dwordFromBytes bs = .ok u ∧ bits64 u = beNat bs := by
  obtain ⟨b0, b1, b2, b3, rfl⟩ : ∃ b0 b1 b2 b3, bs = [b0, b1, b2, b3] :=
    List.length_eq_four.mp h
  have h0 := b0.toNat_lt
  have h1 := b1.toNat_lt
  have h2 := b2.toNat_lt
  refine ⟨_, rfl, ?_⟩
  rw [bits64_or, bits64_or, bits64_or, bits64_shiftLeft (n := 24) _ (by decide) (by decide),
    bits64_shiftLeft (n := 16) _ (by decide) (by decide),
    bits64_shiftLeft (n := 8) _ (by decide) (by decide), bits64_byte, bits64_byte, bits64_byte,
    bits64_byte, Nat.mod_eq_of_lt (by omega), Nat.mod_eq_of_lt (by omega),
    Nat.mod_eq_of_lt (by omega), or_bytes]
  simp [beNat]

theorem dintFromBytes_eq {bs : List UInt8} (h : bs.length = 4) :
    ∃ i, dintFromBytes bs = .ok i ∧ bits i = beNat bs := by
  obtain ⟨u, hu, hbits⟩ := dwordFromBytes_eq h
  have hlt : beNat bs < 256 ^ 4 := h ▸ beNat_lt bs
  have hsub : bits64 (u - 0x100000000) % 2 ^ 32 = bits64 u % 2 ^ 32 := by
    rw [bits64_sub, show bits64 0x100000000 = 2 ^ 32 by decide]
    omega
  have hrun : dintFromBytes bs =
      .ok (if u ≥ 0x80000000 then u - 0x100000000 else u).toInt32 := by
    rw [dintFromBytes, hu]
    rfl
  refine ⟨_, hrun, ?_⟩
  rw [bits_toInt32]
  split
  · rw [hsub, hbits, Nat.mod_eq_of_lt (by omega)]
  · rw [hbits, Nat.mod_eq_of_lt (by omega)]

/-- **The unsigned field is exact**: its value is the number of its bytes, and its bytes these. -/
theorem dword_exact (db offset : Int32) {bs : List UInt8} (h : bs.length = 4) :
    ∃ f, DWordField.new db offset bs = .ok f ∧ f.value.toInt = beNat bs ∧ f.toBytes = bs := by
  obtain ⟨u, hu, hbits⟩ := dwordFromBytes_eq h
  have hlt : beNat bs < 256 ^ 4 := h ▸ beNat_lt bs
  refine ⟨⟨db, offset, u⟩, ?_, ?_, ?_⟩
  · rw [DWordField.new, if_pos (by omega), hu]
    rfl
  · show u.toInt = _
    rw [toInt_eq_bits64 (by omega), hbits]
  · rw [DWordField.toBytes, dwordToBytes_eq, hbits, ← h, beBytes_beNat]

/-- **The signed field is exact**, with the bits of its value for the number. -/
theorem dint_exact (db offset : Int32) {bs : List UInt8} (h : bs.length = 4) :
    ∃ f, DIntField.new db offset bs = .ok f ∧ bits f.value = beNat bs ∧ f.toBytes = bs := by
  obtain ⟨i, hi, hbits⟩ := dintFromBytes_eq h
  refine ⟨⟨db, offset, i⟩, ?_, hbits, ?_⟩
  · rw [DIntField.new, if_pos (by omega), hi]
    rfl
  · rw [DIntField.toBytes, dintToBytes_eq, hbits, ← h, beBytes_beNat]

end MoonS7
