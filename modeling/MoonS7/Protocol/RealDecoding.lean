import MoonS7.Protocol.Reals

/-!
# Reading REALs

How far `f32_from_bytes` and `f64_from_bytes` read a pattern as IEEE 754 has it. Of the finite
patterns with an exponent field other than zero, the decoder of four bytes reads all right and
the decoder of eight bytes half of them: its lower word goes through a signed integer. With
an exponent field of zero both add the leading `1` of a normal number, and only zero is read right.

Main results: `f64_ieee_iff` and `f32_ieee_iff` -- the exact conditions; `f64_ieee_refuted` and
`f32_ieee_refuted` are two patterns that are read wrong.
-/

namespace MoonS7

open BigEndian Ieee754

section Fields

variable {F : Format} {p : Pattern F}

/-- A normal number is read right exactly if its mantissa is. -/
theorem decoded_normal_iff (h₀ : p.exp ≠ 0) (h₁ : p.exp ≠ 2 ^ F.exp - 1) (m : ℤ) :
    decoded p m = .fin p.value ↔ m = p.mant := by
  have hs : (-1 : ℚ) ^ p.sign.toNat ≠ 0 := pow_ne_zero _ (by norm_num)
  have he : (2 : ℚ) ^ ((p.exp : ℤ) - F.bias) ≠ 0 := zpow_ne_zero _ two_ne_zero
  have hm : (2 : ℚ) ^ F.mant ≠ 0 := pow_ne_zero _ two_ne_zero
  rw [decoded, if_neg fun h => h₀ h.1, if_neg h₁, Pattern.value, if_neg h₀, Double.fin.injEq,
    mul_right_inj' hs, mul_left_inj' he, add_right_inj, div_left_inj' hm]
  exact_mod_cast Iff.rfl

/-- Of the numbers without a leading `1`, zero alone is read right. -/
theorem decoded_subnormal_iff (h₀ : p.exp = 0) (hF : F.exp ≠ 0) :
    decoded p p.mant = .fin p.value ↔ p.mant = 0 := by
  have hs : (-1 : ℚ) ^ p.sign.toNat ≠ 0 := pow_ne_zero _ (by norm_num)
  have he : (2 : ℚ) ^ (-F.bias) ≠ 0 := zpow_ne_zero _ two_ne_zero
  have hm : (0 : ℚ) < 2 ^ F.mant := pow_pos two_pos _
  have htop : p.exp ≠ 2 ^ F.exp - 1 := by
    have := Nat.pow_le_pow_right two_pos (Nat.one_le_iff_ne_zero.mpr hF)
    omega
  by_cases hz : p.mant = 0
  · rw [decoded, if_pos ⟨h₀, hz⟩, Pattern.value, if_pos h₀, hz]
    simp
  · have hlt : (p.mant : ℚ) < 2 ^ F.mant := by exact_mod_cast p.mant_lt
    have htwo : (2 : ℚ) ^ (1 - F.bias) = 2 * 2 ^ (-F.bias) := by
      rw [sub_eq_add_neg, zpow_add₀ two_ne_zero, zpow_one]
    have hexp : ((p.exp : ℕ) : ℤ) - F.bias = -F.bias := by
      rw [h₀]
      simp
    rw [decoded, if_neg fun h => hz h.2, if_neg htop, Pattern.value, if_pos h₀, Double.fin.injEq,
      mul_right_inj' hs, htwo, hexp, ← mul_assoc, mul_left_inj' he]
    refine ⟨fun h => ?_, fun h => absurd h hz⟩
    -- `1 + t = 2 t` for a `t` below `1`
    have ht : (p.mant : ℚ) / 2 ^ F.mant < 1 := (div_lt_one hm).mpr hlt
    push_cast at h
    linarith

end Fields

/-! ## 1. Eight bytes -/

theorem doubleField_value (db offset : Int32) {b : List UInt8} (h : b.length = 8) :
    (DoubleField.new db offset b).map DoubleField.value = f64FromBytes b := by
  rw [DoubleField.new, if_pos (by omega)]
  cases f64FromBytes b with
  | ok v => rfl
  | error d => rfl

/-- The eight bytes are read as IEEE 754 has them, by the decoder and by the field. -/
def ReadsDouble (db offset : Int32) (b : List UInt8) : Prop :=
  f64FromBytes b = .ok (.fin (ofBytes binary64 b).value) ∧
    (DoubleField.new db offset b).map DoubleField.value = .ok (.fin (ofBytes binary64 b).value)

theorem signedMant_eq_iff (p : Pattern binary64) :
    signedMant p = p.mant ↔ p.mant.testBit 31 = false := by
  unfold signedMant
  cases p.mant.testBit 31 with
  | false => simp
  | true => simp

/-- **A normal number of eight bytes is read right exactly if** the top bit of its lower word is
    not set. -/
theorem f64_ieee_iff (db offset : Int32) (b : List UInt8) (h : b.length = 8)
    (hexp : 1 ≤ (ofBytes binary64 b).exp ∧ (ofBytes binary64 b).exp ≤ 2046) :
    ReadsDouble db offset b ↔ (ofBytes binary64 b).mant.testBit 31 = false := by
  have h₀ : (ofBytes binary64 b).exp ≠ 0 := by omega
  have h₁ : (ofBytes binary64 b).exp ≠ 2 ^ binary64.exp - 1 := by
    rw [binary64_exp]
    omega
  rw [ReadsDouble, doubleField_value db offset h, and_self, f64FromBytes_eq h, Except.ok.injEq,
    decoded_normal_iff h₀ h₁, signedMant_eq_iff]

theorem f64_ieee_pi : ReadsDouble 1 0 [0x40, 0x09, 0x21, 0xFB, 0x54, 0x44, 0x2D, 0x18] ↔
    (ofBytes binary64 [0x40, 0x09, 0x21, 0xFB, 0x54, 0x44, 0x2D, 0x18]).mant.testBit 31 = false :=
  f64_ieee_iff 1 0 _ rfl (by decide)

/-- `1 + 2^-21` is read as `1 - 2^-21`. -/
theorem f64_ieee_refuted : ¬ ∀ (db offset : Int32) (b : List UInt8), b.length = 8 →
    1 ≤ (ofBytes binary64 b).exp ∧ (ofBytes binary64 b).exp ≤ 2046 → ReadsDouble db offset b := by
  intro h
  have hread := (h 1 0 [0x3F, 0xF0, 0, 0, 0x80, 0, 0, 0] rfl (by decide)).1
  have hrun : f64FromBytes [0x3F, 0xF0, 0, 0, 0x80, 0, 0, 0] = .ok (.fin (2097151 / 2097152)) := by
    decide +kernel
  have hval : (ofBytes binary64 [0x3F, 0xF0, 0, 0, 0x80, 0, 0, 0]).value = 2097153 / 2097152 := by
    decide +kernel
  rw [hrun, hval, Except.ok.injEq, Double.fin.injEq] at hread
  norm_num at hread

/-! ## 2. Four bytes -/

/-- **A finite pattern of four bytes is read right exactly if** its exponent field is not zero or
    its mantissa is. -/
theorem f32_ieee_iff (b : List UInt8) (h : b.length = 4) (hexp : (ofBytes binary32 b).exp ≤ 254) :
    f32FromBytes b = .ok (.fin (ofBytes binary32 b).value) ↔
      (ofBytes binary32 b).exp ≠ 0 ∨ (ofBytes binary32 b).mant = 0 := by
  rw [f32FromBytes_eq h, Except.ok.injEq]
  by_cases h₀ : (ofBytes binary32 b).exp = 0
  · rw [decoded_subnormal_iff h₀ (by decide)]
    simp [h₀]
  · have h₁ : (ofBytes binary32 b).exp ≠ 2 ^ binary32.exp - 1 := by
      rw [binary32_exp]
      omega
    rw [decoded_normal_iff h₀ h₁]
    simp [h₀]

theorem f32_ieee_pi : f32FromBytes [0x40, 0x49, 0x0F, 0xDB] =
      .ok (.fin (ofBytes binary32 [0x40, 0x49, 0x0F, 0xDB]).value) ↔
    (ofBytes binary32 [0x40, 0x49, 0x0F, 0xDB]).exp ≠ 0 ∨
      (ofBytes binary32 [0x40, 0x49, 0x0F, 0xDB]).mant = 0 :=
  f32_ieee_iff _ rfl (by decide)

/-- The smallest pattern, `2^-149`, is read as a number above `2^-127`. -/
theorem f32_ieee_refuted : ¬ ∀ b : List UInt8, b.length = 4 → (ofBytes binary32 b).exp ≤ 254 →
    f32FromBytes b = .ok (.fin (ofBytes binary32 b).value) := by
  intro h
  have hread := h [0, 0, 0, 1] rfl (by decide)
  have hrun : f32FromBytes [0, 0, 0, 1] = .ok (.fin ((1 + 1 / 2 ^ 23) / 2 ^ 127)) := by
    decide +kernel
  have hval : (ofBytes binary32 [0, 0, 0, 1]).value = 1 / 2 ^ 149 := by decide +kernel
  rw [hrun, hval, Except.ok.injEq, Double.fin.injEq] at hread
  norm_num at hread

end MoonS7
