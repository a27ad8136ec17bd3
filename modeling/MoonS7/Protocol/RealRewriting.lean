import MoonS7.Protocol.Reals
import MoonS7.Protocol.Wide

/-!
# Writing REALs exactly

What comes out of a decoder or has the fields of a pattern is written without rounding. The encoder
of four bytes writes back what was read, also where it was read wrong: with an exponent field of
zero both add the leading `1` of a normal number. The encoder of eight bytes writes each normal
number as IEEE 754 has it, although its mantissa goes through a signed integer.

Main results: `float_rewritten` and `f64_exact`.
-/

namespace MoonS7

open BigEndian Ieee754 Loops

section Fields

variable {F : Format} (p : Pattern F)

/-- What a decoder makes of a finite pattern that is not zero, if it has read the mantissa right. -/
theorem decoded_assemble {p : Pattern F} (hz : ¬ (p.exp = 0 ∧ p.mant = 0))
    (ht : p.exp ≠ 2 ^ F.exp - 1) :
    decoded p p.mant = .fin (assemble p.sign F.mant p.mant (p.exp - F.bias)) := by
  rw [decoded, if_neg hz, if_neg ht, Int.cast_natCast, assemble]

/-- **The encoders undo it**, field by field. -/
theorem encoded_assemble : encoded F (assemble p.sign F.mant p.mant (p.exp - F.bias)) = p := by
  have hexp := exponent_assemble p.sign ((p.exp : ℤ) - F.bias) p.mant_lt
  have hlt : ((p.exp : ℕ) : ℤ) < 2 ^ F.exp := by exact_mod_cast p.exp_lt
  have hmant : ((p.mant : ℕ) : ℤ) < 2 ^ F.mant := by exact_mod_cast p.mant_lt
  have hover : ((p.exp : ℕ) : ℤ) / 2 ^ F.exp % 2 ≠ 1 := by
    rw [Int.ediv_eq_zero_of_lt (by omega) hlt]
    decide
  ext1
  · show (decide _ || decide _) = p.sign
    rw [hexp, sub_add_cancel, decide_eq_false hover, Bool.or_false, Bool.eq_iff_iff,
      decide_eq_true_iff, assemble_neg_iff]
  · rw [encoded_exp, hexp, sub_add_cancel, Int.emod_eq_of_lt (by omega) hlt, Int.toNat_natCast]
  · rw [encoded_mant, fraction_assemble _ _ p.mant_lt, Int.emod_eq_of_lt (by omega) hmant,
      Int.toNat_natCast]

end Fields

/-! ## 1. Four bytes -/

/-- **A REAL is written back as it was read**, unless it is an infinity, not a number, or the
    other zero. -/
theorem float_rewritten (db offset : Int32) (b : List UInt8) (h : b.length = 4)
    (hexp : (ofBytes binary32 b).exp ≠ 255) (hzero : b ≠ [0x80, 0x00, 0x00, 0x00]) :
    ∃ f, FloatField.new db offset b = .ok f ∧ Returns f.toBytes b := by
  have hb : (ofBytes binary32 b).bytes = b := bytes_ofBytes (by rw [h]; rfl)
  refine ⟨⟨db, offset, decoded (ofBytes binary32 b) (ofBytes binary32 b).mant⟩, ?_, ?_⟩
  · rw [FloatField.new, if_pos (by omega), f32FromBytes_eq h]
    rfl
  · show Returns (f32ToBytes (decoded (ofBytes binary32 b) (ofBytes binary32 b).mant)) b
    by_cases hz : (ofBytes binary32 b).exp = 0 ∧ (ofBytes binary32 b).mant = 0
    · have hsign : (ofBytes binary32 b).sign = false := by
        by_contra hs
        refine hzero ?_
        rw [← hb, Pattern.bytes, Pattern.word, hz.1, hz.2, Bool.of_not_eq_false hs]
        decide
      have hbytes : b = [0x00, 0x00, 0x00, 0x00] := by
        rw [← hb, Pattern.bytes, Pattern.word, hz.1, hz.2, hsign]
        decide
      rw [decoded, if_pos hz, hbytes]
      exact returns_some _
    · have hlt := (ofBytes binary32 b).exp_lt
      rw [binary32_exp] at hlt
      have hexp' := exponent_assemble (ofBytes binary32 b).sign
        (((ofBytes binary32 b).exp : ℤ) - binary32.bias) (ofBytes binary32 b).mant_lt
      have hret := f32ToBytes_returns
        (assemble_ne_zero (ofBytes binary32 b).sign _ _ (ofBytes binary32 b).mant)
        (by rw [hexp', binary32_bias]; omega) (by rw [hexp', binary32_bias]; omega)
      rw [encoded_assemble, hb] at hret
      rw [decoded_assemble hz hexp]
      exact hret

theorem float_rewritten_one : ∃ f, FloatField.new 1 0 [0x3F, 0x80, 0x00, 0x01] = .ok f ∧
    Returns f.toBytes [0x3F, 0x80, 0x00, 0x01] :=
  float_rewritten 1 0 _ rfl (by decide) (by decide)

/-! ## 2. Eight bytes -/

section Eight

variable {x : ℚ}

/-- A number that an `Int64` holds is not changed by `to_int64`. -/
theorem toInt64_intCast {n : ℤ} (h₁ : 0 ≤ n) (h₂ : n < 2 ^ 63) :
    (Double.fin n).toInt64 = Int64.ofInt n := by
  have hn : ¬ (n : ℚ) < 0 := by
    rw [not_lt]
    exact_mod_cast h₁
  rw [Double.toInt64, Double.truncate, if_neg hn, Int.floor_intCast]
  congr 1
  omega

/-- The upper word that `f64_to_bytes` puts together. -/
theorem bits_f64_high {mi : Int64} (hmi : mi = Int64.ofInt (fraction 52 x)) :
    bits (((if x < 0 then 1 else 0 : Int32) <<< 31) |||
      ((Int32.ofInt (exponent x) + 1023) <<< 20) ||| ((mi >>> 32) &&& 0xFFFFF).toInt32) =
    (encoded binary64 x).word / 2 ^ 32 := by
  have heb : Int32.ofInt (exponent x) + 1023 = Int32.ofInt (exponent x + 1023) := by
    rw [Int32.ofInt_add]
    rfl
  have he : bits (Int32.ofInt (exponent x + 1023) <<< 20) =
      bits (Int32.ofInt (exponent x + 1023)) * 2 ^ 20 % 2 ^ 32 :=
    bits_shiftLeft (by decide) (by decide) _
  have hm : bits ((mi >>> 32) &&& 0xFFFFF).toInt32 = bits64 mi / 2 ^ 32 % 2 ^ 20 := by
    have h : bits64 ((mi >>> 32) &&& 0xFFFFF) = bits64 mi / 2 ^ 32 % 2 ^ 20 :=
      bits64_field mi (by decide) (by decide) (by decide) (by decide)
    rw [bits_toInt32, h]
    omega
  have hover : bits (Int32.ofInt (exponent x + 1023)) / 2 ^ 11 % 2 =
      (decide ((exponent x + 1023) / 2 ^ 11 % 2 = 1)).toNat := by
    rw [toNat_sign (Nat.mod_lt _ two_pos), bits_ofInt]
    exact congrArg Bool.toNat (decide_eq_decide.mpr (by omega))
  have hexp : bits (Int32.ofInt (exponent x + 1023)) % 2 ^ 11 = (encoded binary64 x).exp := by
    rw [bits_ofInt, encoded_exp, binary64_bias, binary64_exp]
    omega
  have hmant : bits64 mi / 2 ^ 32 % 2 ^ 20 = (encoded binary64 x).mant / 2 ^ 32 := by
    rw [hmi, bits64_ofInt, encoded_mant, binary64_mant]
    omega
  rw [bits_or, bits_or, bits_sign, heb, he, hm,
    or_fields (q := 11) (by decide) (Nat.mod_lt _ (by decide)), hover, hexp, hmant, Pattern.word,
    toNat_encoded_sign, binary64_bias, binary64_exp, binary64_mant]
  omega

/-- The lower word. -/
theorem bits_f64_low {mi : Int64} (hmi : mi = Int64.ofInt (fraction 52 x)) :
    bits (mi &&& 0xFFFFFFFF).toInt32 = (encoded binary64 x).word % 2 ^ 32 := by
  have hm : bits64 (mi &&& 0xFFFFFFFF) = bits64 mi % 2 ^ 32 := bits64_mask mi (by decide)
  have hmant : bits64 mi % 2 ^ 32 = (encoded binary64 x).mant % 2 ^ 32 := by
    rw [hmi, bits64_ofInt, encoded_mant, binary64_mant]
    omega
  rw [bits_toInt32, hm, hmant, Pattern.word, binary64_mant]
  omega

theorem bytes64_pattern {hi lo : Int32} {p : Pattern binary64} (hhi : bits hi = p.word / 2 ^ 32)
    (hlo : bits lo = p.word % 2 ^ 32) : bytes32 hi ++ bytes32 lo = p.bytes := by
  have hbyte : ∀ k : Nat, k ∣ 2 ^ 24 →
      UInt8.ofNat (p.word % 2 ^ 32 / k) = UInt8.ofNat (p.word / k) := by
    intro k hk
    obtain ⟨c, hc⟩ := hk
    apply UInt8.toNat.inj
    rw [UInt8.toNat_ofNat', UInt8.toNat_ofNat']
    have hkc : 2 ^ 32 = k * (c * 256) := by
      rw [← Nat.mul_assoc, ← hc]
      rfl
    rw [hkc, Nat.mod_mul_right_div_self, Nat.mod_mul_left_mod]
  have h0 := hbyte 1 (by decide)
  rw [Nat.div_one, Nat.div_one] at h0
  rw [bytes32_eq, bytes32_eq, hhi, hlo, hbyte _ (by decide), hbyte _ (by decide), hbyte _ (by decide),
    h0, Nat.div_div_eq_div_mul, Nat.div_div_eq_div_mul, Nat.div_div_eq_div_mul]
  simp [Pattern.bytes, beBytes, binary64]

/-- **What `f64_to_bytes` makes of a number** that is not zero. -/
theorem f64ToBytes_returns (hx : x ≠ 0) (hlo : -2 ^ 31 < exponent x) (hhi : exponent x < 2 ^ 31) :
    Returns (f64ToBytes (.fin x)) (encoded binary64 x).bytes := by
  obtain ⟨hf₀, hf₁⟩ := fraction_bounds hx 52
  have hscale : (4503599627370496 : Double) = .fin (2 ^ 52) := by
    rw [Double.ofNat_eq]
    norm_num
  have hmi : ((Double.fin |x| / pow2 (Int32.ofInt (exponent x)) - 1) *
      4503599627370496).round.toInt64 = Int64.ofInt (fraction 52 x) := by
    rw [hscale, round_significand 52 hlo hhi, toInt64_intCast hf₀ (by omega)]
  have hbytes : f64Fields (if x < 0 then 1 else 0) (Int32.ofInt (exponent x)) (.fin |x|) =
      (encoded binary64 x).bytes := bytes64_pattern (bits_f64_high hmi) (bits_f64_low hmi)
  rw [← hbytes]
  exact encodeReal_returns hx

end Eight

/-- **A normal number is written as the pattern of eight bytes** with its sign, its exponent and
    its mantissa. -/
theorem f64_exact (s : Bool) (e : ℤ) (m : Nat) (he : -1022 ≤ e ∧ e ≤ 1023) (hm : m < 2 ^ 52) :
    ∃ p : Pattern binary64, p.sign = s ∧ p.exp = e + 1023 ∧ p.mant = m ∧ p.bytes.length = 8 ∧
      Returns (f64ToBytes (.fin ((-1) ^ s.toNat * ((1 + m / 2 ^ 52) * 2 ^ e)))) p.bytes := by
  have hlt : (e + 1023).toNat < 2 ^ binary64.exp := by
    rw [binary64_exp]
    omega
  have hexp : ((e + 1023).toNat : ℤ) = e + 1023 := Int.toNat_of_nonneg (by omega)
  refine ⟨⟨s, (e + 1023).toNat, m, hlt, hm⟩, rfl, hexp, rfl, length_beBytes _ _, ?_⟩
  have hx : exponent (assemble s 52 m e) = e := exponent_assemble s e hm
  have hret := f64ToBytes_returns (assemble_ne_zero s e 52 m) (by omega) (by omega)
  have henc := encoded_assemble (F := binary64) ⟨s, (e + 1023).toNat, m, hlt, hm⟩
  rw [hexp, binary64_bias, add_sub_cancel_right] at henc
  rw [← henc]
  exact hret

theorem f64_exact_one : ∃ p : Pattern binary64, p.sign = true ∧ p.exp = (0 : ℤ) + 1023 ∧
    p.mant = 2 ^ 31 ∧ p.bytes.length = 8 ∧ Returns
      (f64ToBytes (.fin ((-1) ^ true.toNat * ((1 + (2 ^ 31 : Nat) / 2 ^ 52) * 2 ^ (0 : ℤ))))) p.bytes :=
  f64_exact true 0 (2 ^ 31) (by decide) (by decide)

end MoonS7
