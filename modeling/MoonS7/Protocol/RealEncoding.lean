import Mathlib.Data.Sign.Basic
import MoonS7.Protocol.Reals

/-!
# Writing REALs

What `f32_to_bytes` writes of a number, read back by `f32_from_bytes`. In the range of the normal
numbers it is the nearest pattern, unless rounding carries out of the mantissa: the carry is masked
away, and about half of the number is left. Out of that range the exponent wraps around, and its
lowest lost bit falls on the sign. Of the infinities nothing is written: the loops do not end.

Main results: `f32_accurate_iff`, `f32_degrades_iff` and `rewrite_iff` -- the exact conditions
under which a number is written accurately, degrades when it is out of range, and can be written
back after it was read.
-/

namespace MoonS7

open BigEndian Ieee754 Loops

section Encoded

variable {x : ℚ}

/-- The bytes of a pattern are decoded to what its fields say. -/
theorem f32FromBytes_bytes (p : Pattern binary32) :
    f32FromBytes p.bytes = .ok (decoded p p.mant) := by
  have h4 : p.bytes.length = 4 := length_beBytes _ _
  rw [f32FromBytes_eq h4, ofBytes_bytes (by decide)]

theorem encoded_sign_iff (F : Format) (x : ℚ) : (encoded F x).sign = true ↔
    x < 0 ∨ (exponent x + F.bias) / 2 ^ F.exp % 2 = 1 := by
  rw [encoded, Bool.or_eq_true, decide_eq_true_iff, decide_eq_true_iff]

/-- The significand is rounded to a power of two. -/
def RoundsToPower (x : ℚ) : Prop :=
  significand x < 1 + 1 / 2 ^ 24 ∨ 2 - 1 / 2 ^ 24 ≤ significand x

theorem encoded_mant_eq_zero_iff (hx : x ≠ 0) : (encoded binary32 x).mant = 0 ↔ RoundsToPower x := by
  obtain ⟨h₀, h₁⟩ := fraction_bounds hx 23
  have hlo := fraction_eq_zero_iff hx 23
  have hhi := fraction_lt_iff 23 x
  rw [RoundsToPower, ← hlo, ← not_lt, ← hhi, encoded_mant, binary32_mant]
  omega

end Encoded

/-! ## 1. Accuracy -/

/-- The number is written, read back with an error of half a unit at most, and with its sign. -/
def Accurate (x : ℚ) : Prop := ∃ bs y, Returns (f32ToBytes (.fin x)) bs ∧
  f32FromBytes bs = .ok (.fin y) ∧ |y - x| ≤ 2 ^ (exponent x - 24) ∧ SignType.sign y = SignType.sign x

/-- The exponents of the normal numbers of four bytes. -/
theorem exponent_normal {x : ℚ} (hlo : (2 : ℚ) ^ (-126 : ℤ) ≤ |x|)
    (hhi : |x| ≤ (2 - 2 ^ (-23 : ℤ)) * 2 ^ (127 : ℤ)) :
    x ≠ 0 ∧ -126 ≤ exponent x ∧ exponent x ≤ 127 := by
  have hpos : (0 : ℚ) < 2 ^ (-126 : ℤ) := zpow_pos two_pos _
  have hx : x ≠ 0 := abs_pos.mp (lt_of_lt_of_le hpos hlo)
  have hlt : |x| < (2 : ℚ) ^ (128 : ℤ) := lt_of_le_of_lt hhi (by norm_num)
  have h₁ := (le_exponent_iff hx (-126)).mpr hlo
  have h₂ := (exponent_lt_iff hx 128).mpr hlt
  exact ⟨hx, h₁, by omega⟩

/-- The number that a normal one is read back as. -/
theorem decoded_encoded {x : ℚ} (h₁ : -126 ≤ exponent x) (h₂ : exponent x ≤ 127) :
    decoded (encoded binary32 x) (encoded binary32 x).mant =
      .fin ((-1) ^ (decide (x < 0)).toNat *
        ((1 + (encoded binary32 x).mant / 2 ^ 23) * (2 : ℚ) ^ exponent x)) := by
  have hexp : ((encoded binary32 x).exp : ℤ) = exponent x + 127 := by
    rw [encoded_exp, binary32_bias, binary32_exp]
    omega
  have hsign : (encoded binary32 x).sign = decide (x < 0) := by
    rw [Bool.eq_iff_iff, encoded_sign_iff, decide_eq_true_iff, binary32_bias, binary32_exp]
    have hbit : (exponent x + 127) / 2 ^ 8 % 2 ≠ 1 := by omega
    exact or_iff_left hbit
  have h₀ : ¬ (encoded binary32 x).exp = 0 := by omega
  have htop : ¬ (encoded binary32 x).exp = 2 ^ binary32.exp - 1 := by
    rw [binary32_exp]
    omega
  rw [decoded, if_neg fun h => h₀ h.1, if_neg htop, hsign, hexp, binary32_bias, binary32_mant,
    add_sub_cancel_right]
  rfl

/-- What is read back has the sign of the number, and the magnitudes differ as the numbers do. -/
theorem sign_and_error {x Y : ℚ} (hx : x ≠ 0) (hY : 0 < Y) :
    |(-1) ^ (decide (x < 0)).toNat * Y - x| = |Y - (|x|)| ∧
      SignType.sign ((-1) ^ (decide (x < 0)).toNat * Y) = SignType.sign x := by
  rcases lt_or_gt_of_ne hx with h | h
  · have hneg : (-1 : ℚ) ^ (decide (x < 0)).toNat * Y = -Y := by
      rw [decide_eq_true h]
      simp
    rw [hneg, abs_of_neg h, sign_neg h, sign_neg (by linarith)]
    refine ⟨?_, rfl⟩
    rw [← abs_neg]
    congr 1
    ring
  · have hpos : (-1 : ℚ) ^ (decide (x < 0)).toNat * Y = Y := by
      rw [decide_eq_false (not_lt.mpr h.le)]
      simp
    rw [hpos, abs_of_pos h, sign_pos h, sign_pos hY]
    exact ⟨rfl, rfl⟩

/-- **A number in the range of the normal ones is written accurately exactly if** its significand
    does not round up to `2`: a carry out of the mantissa is lost. -/
theorem f32_accurate_iff (x : ℚ) (hlo : (2 : ℚ) ^ (-126 : ℤ) ≤ |x|)
    (hhi : |x| ≤ (2 - 2 ^ (-23 : ℤ)) * 2 ^ (127 : ℤ)) :
    Accurate x ↔ significand x < 2 - 1 / 2 ^ 24 := by
  obtain ⟨hx, h₁, h₂⟩ := exponent_normal hlo hhi
  have hret := f32ToBytes_returns hx (by omega) (by omega)
  have hdec := (f32FromBytes_bytes (encoded binary32 x)).trans
    (congrArg Except.ok (decoded_encoded h₁ h₂))
  have he : (0 : ℚ) < 2 ^ exponent x := zpow_pos two_pos _
  have hY : (0 : ℚ) < (1 + (encoded binary32 x).mant / 2 ^ 23) * 2 ^ exponent x := by positivity
  obtain ⟨herr, hsign⟩ := sign_and_error hx hY
  have hacc : Accurate x ↔ |(1 + (encoded binary32 x).mant / 2 ^ 23) * (2 : ℚ) ^ exponent x - (|x|)| ≤
      2 ^ (exponent x - 24) := by
    constructor
    · rintro ⟨bs, y, hbs, hy, hle, -⟩
      obtain rfl := hbs.unique hret
      cases hdec.symm.trans hy
      rw [← herr]
      exact hle
    · intro hle
      exact ⟨_, _, hret, hdec, herr.trans_le hle, hsign⟩
  have hfr := fraction_bounds hx 23
  rw [hacc, ← fraction_lt_iff 23 x]
  by_cases hcarry : fraction 23 x < 2 ^ 23
  · have hm : ((encoded binary32 x).mant : ℚ) = fraction 23 x := by
      have h : ((encoded binary32 x).mant : ℤ) = fraction 23 x := by
        rw [encoded_mant, binary32_mant]
        omega
      exact_mod_cast h
    have h := fraction_error 23 x
    rw [hm]
    exact ⟨fun _ => hcarry, fun _ => h⟩
  · -- what is read back is half of the number
    have hm : (encoded binary32 x).mant = 0 := by
      rw [encoded_mant, binary32_mant]
      omega
    have hs : 2 - 1 / 2 ^ 24 ≤ significand x :=
      not_lt.mp fun h => hcarry ((fraction_lt_iff 23 x).mpr h)
    refine ⟨fun hle => ?_, fun h => absurd h hcarry⟩
    have hpow : (2 : ℚ) ^ (exponent x - 24) = 2 ^ exponent x / 2 ^ 24 := by
      rw [zpow_sub₀ two_ne_zero]
      norm_num
    have hP := mul_le_mul_of_nonneg_right hs he.le
    have hle := (abs_le.mp hle).1
    rw [hm, hpow, abs_eq_significand x] at hle
    norm_num at hle hP
    linarith

theorem f32_accurate_half : Accurate (1 / 2) ↔ significand (1 / 2) < 2 - 1 / 2 ^ 24 :=
  f32_accurate_iff (1 / 2) (by norm_num [abs_of_pos]) (by norm_num [abs_of_pos])

/-- `2 - 2^-25` is written as `1`. -/
theorem f32_accurate_refuted : ¬ ∀ x : ℚ, (2 : ℚ) ^ (-126 : ℤ) ≤ |x| →
    |x| ≤ (2 - 2 ^ (-23 : ℤ)) * 2 ^ (127 : ℤ) → Accurate x := by
  intro h
  obtain ⟨bs, y, hbs, hy, hle, -⟩ := h (2 - 1 / 2 ^ 25) (by norm_num [abs_of_pos])
    (by norm_num [abs_of_pos])
  have habs : |(2 - 1 / 2 ^ 25 : ℚ)| = 2 - 1 / 2 ^ 25 := abs_of_pos (by norm_num)
  have he : exponent (2 - 1 / 2 ^ 25) = 0 :=
    exponent_eq (s := 2 - 1 / 2 ^ 25) (by norm_num) (by norm_num) (by rw [habs, zpow_zero, mul_one])
  have hret := f32ToBytes_returns (x := 2 - 1 / 2 ^ 25) (by norm_num) (by rw [he]; norm_num)
    (by rw [he]; norm_num)
  have hm : (encoded binary32 (2 - 1 / 2 ^ 25)).mant = 0 := by
    refine (encoded_mant_eq_zero_iff (by norm_num)).mpr (Or.inr ?_)
    rw [significand, he, habs]
    norm_num
  obtain rfl := hbs.unique hret
  rw [f32FromBytes_bytes, decoded_encoded (by rw [he]; norm_num) (by rw [he]; norm_num),
    Except.ok.injEq, Double.fin.injEq] at hy
  rw [← hy, hm, he] at hle
  norm_num [abs_of_neg] at hle

/-! ## 2. Numbers out of range -/

/-- The number keeps its sign; one that is too large becomes an infinity, one that is too small a
    number of magnitude `2^-126` at most. -/
def Degrades (x : ℚ) : Prop := ∃ bs, Returns (f32ToBytes (.fin x)) bs ∧
  ((ofBytes binary32 bs).sign = true ↔ x < 0) ∧
  ((2 : ℚ) ^ (128 : ℤ) ≤ |x| → (ofBytes binary32 bs).exp = 255 ∧ (ofBytes binary32 bs).mant = 0) ∧
  (|x| < (2 : ℚ) ^ (-126 : ℤ) → ∃ y, f32FromBytes bs = .ok (.fin y) ∧ |y| ≤ 2 ^ (-126 : ℤ))

/-- The magnitude a finite pattern is decoded to. -/
theorem abs_decoded {p : Pattern binary32} (hz : ¬ (p.exp = 0 ∧ p.mant = 0)) (ht : p.exp ≠ 255) :
    ∃ y, decoded p p.mant = .fin y ∧
      |y| = (1 + p.mant / 2 ^ 23) * (2 : ℚ) ^ ((p.exp : ℤ) - 127) := by
  have htop : ¬ p.exp = 2 ^ binary32.exp - 1 := ht
  have hpow : (0 : ℚ) < 2 ^ ((p.exp : ℤ) - 127) := zpow_pos two_pos _
  rw [decoded, if_neg hz, if_neg htop, binary32_mant, binary32_bias]
  refine ⟨_, rfl, ?_⟩
  rw [abs_mul, abs_pow, abs_neg, abs_one, one_pow, one_mul, Int.cast_natCast]
  exact abs_of_nonneg (by positivity)

/-- The magnitudes of `2^-126` and below. -/
theorem magnitude_le_iff {e m : Nat} (hm : m < 2 ^ 23) :
    (1 + m / 2 ^ 23) * (2 : ℚ) ^ ((e : ℤ) - 127) ≤ 2 ^ (-126 : ℤ) ↔ e = 0 ∨ (e = 1 ∧ m = 0) := by
  have ht₁ : (m : ℚ) / 2 ^ 23 < 1 := by
    rw [div_lt_one (by norm_num)]
    exact_mod_cast hm
  have ht₀ : (0 : ℚ) ≤ (m : ℚ) / 2 ^ 23 := by positivity
  have hunit : (2 : ℚ) ^ (-126 : ℤ) = 2 * 2 ^ (-127 : ℤ) := by norm_num
  have hpos : (0 : ℚ) < 2 ^ (-127 : ℤ) := zpow_pos two_pos _
  have hpow : (2 : ℚ) ^ ((e : ℤ) - 127) = 2 ^ e * 2 ^ (-127 : ℤ) := by
    rw [sub_eq_add_neg, zpow_add₀ two_ne_zero, zpow_natCast]
  rw [hunit, hpow, ← mul_assoc, mul_le_mul_iff_left₀ hpos]
  constructor
  · intro h
    by_contra hne
    rcases Nat.lt_or_ge e 2 with he | he
    · obtain rfl : e = 1 := by omega
      have hm₀ : m ≠ 0 := fun h => hne (Or.inr ⟨rfl, h⟩)
      have ht : (0 : ℚ) < (m : ℚ) / 2 ^ 23 := by positivity
      linarith
    · have h4 : (4 : ℚ) ≤ 2 ^ e := by exact_mod_cast Nat.pow_le_pow_right two_pos he
      nlinarith
  · rintro (rfl | ⟨rfl, rfl⟩)
    · linarith
    · norm_num

/-- A pattern is decoded to a magnitude of `2^-126` at most exactly if its exponent field is zero,
    or one with an empty mantissa. -/
theorem decoded_small_iff (p : Pattern binary32) :
    (∃ y, f32FromBytes p.bytes = .ok (.fin y) ∧ |y| ≤ (2 : ℚ) ^ (-126 : ℤ)) ↔
      p.exp = 0 ∨ (p.exp = 1 ∧ p.mant = 0) := by
  rw [f32FromBytes_bytes]
  by_cases hz : p.exp = 0 ∧ p.mant = 0
  · have hdec : decoded p p.mant = .fin 0 := by rw [decoded, if_pos hz]
    have hpos : (0 : ℚ) < 2 ^ (-126 : ℤ) := zpow_pos two_pos _
    rw [hdec]
    exact ⟨fun _ => Or.inl hz.1, fun _ => ⟨0, rfl, abs_zero.trans_le hpos.le⟩⟩
  · by_cases ht : p.exp = 255
    · have htop : p.exp = 2 ^ binary32.exp - 1 := ht
      have hdec : decoded p p.mant = if p.sign then .negInf else .posInf := by
        rw [decoded, if_neg hz, if_pos htop]
      rw [hdec]
      constructor
      · intro h
        obtain ⟨y, hy, -⟩ := h
        cases hs : p.sign <;> rw [hs] at hy <;> cases hy
      · omega
    · obtain ⟨y, hy, habs⟩ := abs_decoded hz ht
      rw [hy, ← magnitude_le_iff p.mant_lt, ← habs]
      constructor
      · intro h
        obtain ⟨y', hy', hle⟩ := h
        cases hy'
        exact hle
      · exact fun hle => ⟨y, rfl, hle⟩

/-- **A number of a `Double`'s range degrades as it should exactly if** the bit above its exponent
    field does not give it a sign, and, where it is out of the range of four bytes, its exponent
    wraps around to a field that still means so. -/
theorem f32_degrades_iff (x : ℚ) (hlo : (2 : ℚ) ^ (-1074 : ℤ) ≤ |x|)
    (hhi : |x| < (2 : ℚ) ^ (1024 : ℤ)) :
    Degrades x ↔ (x < 0 ∨ (exponent x + 127) / 256 % 2 = 0) ∧
      (128 ≤ exponent x → (exponent x + 127) % 256 = 255 ∧ RoundsToPower x) ∧
      (exponent x < -126 → (exponent x + 127) % 256 = 0 ∨
        ((exponent x + 127) % 256 = 1 ∧ RoundsToPower x)) := by
  have hpos : (0 : ℚ) < 2 ^ (-1074 : ℤ) := zpow_pos two_pos _
  have hx : x ≠ 0 := abs_pos.mp (lt_of_lt_of_le hpos hlo)
  have h₁ := (le_exponent_iff hx (-1074)).mpr hlo
  have h₂ := (exponent_lt_iff hx 1024).mpr hhi
  have hret := f32ToBytes_returns hx (by omega) (by omega)
  have hbytes : ofBytes binary32 (encoded binary32 x).bytes = encoded binary32 x :=
    ofBytes_bytes (by decide) _
  have hdeg : Degrades x ↔ ((encoded binary32 x).sign = true ↔ x < 0) ∧
      (128 ≤ exponent x → (encoded binary32 x).exp = 255 ∧ (encoded binary32 x).mant = 0) ∧
      (exponent x < -126 → (encoded binary32 x).exp = 0 ∨
        ((encoded binary32 x).exp = 1 ∧ (encoded binary32 x).mant = 0)) := by
    rw [le_exponent_iff hx, exponent_lt_iff hx, ← decoded_small_iff]
    constructor
    · rintro ⟨bs, hbs, h⟩
      obtain rfl := hbs.unique hret
      rw [hbytes] at h
      exact h
    · intro h
      refine ⟨_, hret, ?_⟩
      rw [hbytes]
      exact h
  have hexp : (encoded binary32 x).exp = ((exponent x + 127) % 256).toNat := by
    rw [encoded_exp, binary32_bias, binary32_exp]
    rfl
  have hsign : ((encoded binary32 x).sign = true ↔ x < 0) ↔
      x < 0 ∨ (exponent x + 127) / 256 % 2 = 0 := by
    rw [encoded_sign_iff, binary32_bias, binary32_exp]
    by_cases hneg : x < 0
    · simp [hneg]
    · simp only [hneg, false_or, iff_false]
      omega
  have h255 : ((exponent x + 127) % 256).toNat = 255 ↔ (exponent x + 127) % 256 = 255 := by omega
  have h0 : ((exponent x + 127) % 256).toNat = 0 ↔ (exponent x + 127) % 256 = 0 := by omega
  have h1 : ((exponent x + 127) % 256).toNat = 1 ↔ (exponent x + 127) % 256 = 1 := by omega
  rw [hdeg, hsign, hexp, encoded_mant_eq_zero_iff hx, h255, h0, h1]

theorem f32_degrades_large : Degrades (2 ^ 128) ↔
    ((2 ^ 128 : ℚ) < 0 ∨ (exponent (2 ^ 128) + 127) / 256 % 2 = 0) ∧
      (128 ≤ exponent (2 ^ 128) → (exponent (2 ^ 128) + 127) % 256 = 255 ∧ RoundsToPower (2 ^ 128)) ∧
      (exponent (2 ^ 128) < -126 → (exponent (2 ^ 128) + 127) % 256 = 0 ∨
        ((exponent (2 ^ 128) + 127) % 256 = 1 ∧ RoundsToPower (2 ^ 128))) :=
  f32_degrades_iff (2 ^ 128) (by decide +kernel) (by decide +kernel)

/-- `2^129` is written as the other zero. -/
theorem f32_degrades_refuted : ¬ ∀ x : ℚ, (2 : ℚ) ^ (-1074 : ℤ) ≤ |x| → |x| < (2 : ℚ) ^ (1024 : ℤ) →
    Degrades x := by
  intro h
  have habs : |(2 ^ 129 : ℚ)| = 2 ^ 129 := abs_of_pos (by norm_num)
  obtain ⟨bs, hbs, hsign, -⟩ := h (2 ^ 129) (by decide +kernel) (by decide +kernel)
  have he : exponent (2 ^ 129) = 129 :=
    exponent_eq (s := 1) (by norm_num) (by norm_num) (by rw [habs]; norm_num)
  have hret := f32ToBytes_returns (x := 2 ^ 129) (by norm_num) (by rw [he]; norm_num)
    (by rw [he]; norm_num)
  obtain rfl := hbs.unique hret
  have hflip : (encoded binary32 (2 ^ 129)).sign = true := by
    rw [encoded_sign_iff, he, binary32_bias, binary32_exp]
    exact Or.inr (by decide)
  rw [ofBytes_bytes (by decide)] at hsign
  exact absurd (hsign.mp hflip) (by norm_num)

/-! ## 3. Reading and writing back -/

/-- A field made of the bytes `b` can be written back. -/
def RewritesFloat (db offset : Int32) (b : List UInt8) : Prop :=
  ∃ f, FloatField.new db offset b = .ok f ∧ Terminates f.toBytes

def RewritesDouble (db offset : Int32) (b : List UInt8) : Prop :=
  ∃ f, DoubleField.new db offset b = .ok f ∧ Terminates f.toBytes

section Rewrite

variable (zero : List UInt8) (enc : Int32 → Int32 → Double → List UInt8) {F : Format}

theorem encodeReal_zero : Terminates (encodeReal zero enc (.fin 0)) := ⟨zero, returns_some zero⟩

/-- **What a decoder has read is written back exactly if** it is not an infinity. -/
theorem encodeReal_terminates_iff (p : Pattern F) {m : ℤ} (hm : -2 ^ F.mant < m) (hF : F.exp ≠ 0) :
    Terminates (encodeReal zero enc (decoded p m)) ↔ p.exp ≠ 2 ^ F.exp - 1 := by
  have h2 := Nat.pow_le_pow_right two_pos (Nat.one_le_iff_ne_zero.mpr hF)
  by_cases hz : p.exp = 0 ∧ p.mant = 0
  · have hdec : decoded p m = .fin 0 := by rw [decoded, if_pos hz]
    rw [hdec]
    refine ⟨fun _ => ?_, fun _ => encodeReal_zero zero enc⟩
    omega
  · by_cases ht : p.exp = 2 ^ F.exp - 1
    · have hinf : decoded p m = .posInf ∨ decoded p m = .negInf := by
        rw [decoded, if_neg hz, if_pos ht]
        cases p.sign with
        | false => exact Or.inl rfl
        | true => exact Or.inr rfl
      exact ⟨fun h => absurd h (encodeReal_diverges hinf).not_terminates, fun h => absurd ht h⟩
    · have hpos : (0 : ℚ) < 2 ^ F.mant := pow_pos two_pos _
      have hmv : (0 : ℚ) < 1 + m / 2 ^ F.mant := by
        have h : (-2 ^ F.mant : ℚ) < m := by exact_mod_cast hm
        have := (lt_div_iff₀ hpos).mpr (show -1 * (2 : ℚ) ^ F.mant < m by linarith)
        linarith
      have hne : (-1) ^ p.sign.toNat * ((1 + m / 2 ^ F.mant) * (2 : ℚ) ^ (p.exp - F.bias)) ≠ 0 :=
        mul_ne_zero (pow_ne_zero _ (by norm_num))
          (mul_ne_zero hmv.ne' (zpow_ne_zero _ two_ne_zero))
      have hdec : decoded p m = .fin ((-1) ^ p.sign.toNat *
          ((1 + m / 2 ^ F.mant) * (2 : ℚ) ^ (p.exp - F.bias))) := by
        rw [decoded, if_neg hz, if_neg ht]
      rw [hdec]
      exact ⟨fun _ => ht, fun _ => ⟨_, encodeReal_returns hne⟩⟩

end Rewrite

theorem lt_signedMant (p : Pattern binary64) : -2 ^ binary64.mant < signedMant p := by
  rw [binary64_mant, signedMant]
  split <;> omega

theorem rewritesFloat_iff (db offset : Int32) {b : List UInt8} (h : b.length = 4) :
    RewritesFloat db offset b ↔ (ofBytes binary32 b).exp ≠ 255 := by
  have hnew : FloatField.new db offset b =
      .ok ⟨db, offset, decoded (ofBytes binary32 b) (ofBytes binary32 b).mant⟩ := by
    rw [FloatField.new, if_pos (by omega), f32FromBytes_eq h]
    rfl
  have hm : (-2 ^ binary32.mant : ℤ) < (ofBytes binary32 b).mant := by
    rw [binary32_mant]
    omega
  simp only [RewritesFloat, hnew, Except.ok.injEq, exists_eq_left']
  exact encodeReal_terminates_iff [0x00, 0x00, 0x00, 0x00] f32Fields _ hm (by decide)

theorem rewritesDouble_iff (db offset : Int32) {b : List UInt8} (h : b.length = 8) :
    RewritesDouble db offset b ↔ (ofBytes binary64 b).exp ≠ 2047 := by
  have hnew : DoubleField.new db offset b =
      .ok ⟨db, offset, decoded (ofBytes binary64 b) (signedMant (ofBytes binary64 b))⟩ := by
    rw [DoubleField.new, if_pos (by omega), f64FromBytes_eq h]
    rfl
  have hm := lt_signedMant (ofBytes binary64 b)
  simp only [RewritesDouble, hnew, Except.ok.injEq, exists_eq_left']
  exact encodeReal_terminates_iff (List.replicate 8 0x00) f64Fields _ hm (by decide)

/-- **A field read from the bytes of a PLC can be written back exactly if** their exponent field is
    not all ones. -/
theorem rewrite_iff (db offset : Int32) :
    (∀ b : List UInt8, b.length = 4 →
      (RewritesFloat db offset b ↔ (ofBytes binary32 b).exp ≠ 255)) ∧
    (∀ b : List UInt8, b.length = 8 →
      (RewritesDouble db offset b ↔ (ofBytes binary64 b).exp ≠ 2047)) :=
  ⟨fun _ h => rewritesFloat_iff db offset h, fun _ h => rewritesDouble_iff db offset h⟩

theorem rewrite_one : (RewritesFloat 1 0 [0x3F, 0x80, 0, 0] ↔
      (ofBytes binary32 [0x3F, 0x80, 0, 0]).exp ≠ 255) ∧
    (RewritesDouble 1 0 [0x3F, 0xF0, 0, 0, 0, 0, 0, 0] ↔
      (ofBytes binary64 [0x3F, 0xF0, 0, 0, 0, 0, 0, 0]).exp ≠ 2047) :=
  ⟨(rewrite_iff 1 0).1 _ rfl, (rewrite_iff 1 0).2 _ rfl⟩

/-- The infinity, `7F 80 00 00`, is never written back. -/
theorem rewrite_refuted : ¬ ∀ db offset : Int32,
    (∀ b : List UInt8, b.length = 4 → RewritesFloat db offset b) ∧
    (∀ b : List UInt8, b.length = 8 → RewritesDouble db offset b) := by
  intro h
  have hrun := (rewritesFloat_iff 1 0 rfl).mp ((h 1 0).1 [0x7F, 0x80, 0, 0] rfl)
  exact hrun (by decide)

end MoonS7
