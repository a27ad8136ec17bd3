import MoonS7.Lib.Rounding
import MoonS7.Protocol.Reals

/-!
# The binary exponent of a number (`protocol/field.mbt`, 433-459)

`ilog2_floor` and `pow2` in the arithmetic of eight bytes. The halvings and doublings of
`ilog2_floor` are exact on every positive number, the subnormal ones included. `pow2` takes a
negative power for the inverse of the positive one, and that is an infinity from `2 ^ 1024` on: the
numbers below `2 ^ -1023` are divided by zero.

Main result: `binaryExponent_iff` -- a number is brought to `[1, 2)` exactly if it is not smaller
than `2 ^ -1023`, and a power of two is exact from `-1023` to `1023`.
-/

namespace MoonS7

open Ieee754 Loops

abbrev Binary64 : Type := Rounded binary64

/-- `ilog2_floor` finds the exponent of `x`, and dividing by `pow2` of it leaves a number in
    `[1, 2)`. -/
def Normalised (x : Binary64) : Prop :=
  ∃ (q : ℚ) (n : Int32), x.val = .fin q ∧ Returns (ilog2Floor x) n ∧
    (2 : ℚ) ^ n.toInt ≤ q ∧ q < 2 ^ (n.toInt + 1) ∧
    ∃ y : ℚ, (x / pow2 n).val = .fin y ∧ 1 ≤ y ∧ y < 2

/-! ## 1. Powers of two -/

theorem one_val : (1 : Binary64).val = .fin 1 := by
  have h : binary64.Holds (2 ^ (0 : ℤ)) := holds_zpow (by decide) (by decide)
  rw [zpow_zero] at h
  exact rounded_fin h

theorem two_val : (2 : Binary64).val = .fin 2 := by
  have h : binary64.Holds (2 ^ (1 : ℤ)) := holds_zpow (by decide) (by decide)
  rw [zpow_one] at h
  exact rounded_fin h

theorem iterate_twice (k : Nat) :
    ((fun r : Binary64 => r * 2)^[k] 1).val = if k ≤ 1023 then .fin (2 ^ k) else .posInf := by
  induction k with
  | zero => exact one_val
  | succ k ih =>
    rw [Function.iterate_succ_apply', Rounded.mul_val, ih, two_val]
    by_cases hk : k ≤ 1023
    · rw [if_pos hk, Double.fin_mul, ← pow_succ, ← zpow_natCast]
      by_cases hk' : k + 1 ≤ 1023
      · rw [if_pos hk', rounded_fin (holds_zpow (by simp; omega) (by simp; omega))]
      · rw [if_neg hk', rounded_zpow_large (by simp; omega) (by simp; omega)]
    · rw [if_neg hk, if_neg (by omega)]
      rfl

theorem pow2_val_of_nonneg {e : Int32} (h : 0 ≤ e.toInt) :
    (pow2 e : Binary64).val = if e.toInt ≤ 1023 then .fin (2 ^ e.toInt) else .posInf := by
  have hneg : ¬ e < 0 := fun hlt => absurd (Int32.lt_iff_toInt_lt.mp hlt) (not_lt.mpr h)
  obtain ⟨k, hk⟩ := Int.eq_ofNat_of_zero_le h
  unfold pow2
  simp only [if_neg hneg]
  rw [iterate_twice, hk, Int.toNat_natCast, zpow_natCast]
  exact if_congr (by omega) rfl rfl

/-- **A negative power is the inverse of a positive one**, which may be an infinity. -/
theorem pow2_val_of_neg {e : Int32} (h : e.toInt < 0) (hmin : e ≠ Int32.minValue) :
    (pow2 e : Binary64).val = if -1023 ≤ e.toInt then .fin (2 ^ e.toInt) else .fin 0 := by
  have hneg : e < 0 := Int32.lt_iff_toInt_lt.mpr h
  have hle := e.le_toInt
  have hmin' : e.toInt ≠ -2 ^ 31 := fun he => hmin (Int32.toInt_inj.mp he)
  have hn : (-e).toInt = -e.toInt := by
    rw [Int32.toInt_neg]
    exact Int.bmod_eq_of_le (by omega) (by omega)
  obtain ⟨k, hk⟩ := Int.eq_ofNat_of_zero_le (a := -e.toInt) (by omega)
  have he : e.toInt = -k := by omega
  unfold pow2
  simp only [if_pos hneg]
  rw [Rounded.div_val, one_val, iterate_twice, hn, hk, Int.toNat_natCast, he]
  by_cases hk' : k ≤ 1023
  · have hpow : (1 : ℚ) / 2 ^ k = 2 ^ (-k : ℤ) := by rw [zpow_neg, zpow_natCast, one_div]
    rw [if_pos hk', if_pos (by omega), Double.fin_div _ (pow_ne_zero _ two_ne_zero), hpow]
    exact rounded_fin (holds_zpow (by simp; omega) (by simp))
  · rw [if_neg hk', if_neg (by omega)]
    exact rounded_fin (holds_zero _)

/-- The least `Int` is its own negative: the loop makes no round. -/
theorem pow2_val_minValue : (pow2 Int32.minValue : Binary64).val = .fin 1 := by
  have hneg : -Int32.minValue = Int32.minValue := by decide
  have hlt : Int32.minValue < 0 := by decide
  have hone : binary64.Holds 1 := (1 : Binary64).holds 1 one_val
  unfold pow2
  simp only [if_pos hlt, hneg]
  rw [show Int32.minValue.toInt.toNat = 0 from by decide, Function.iterate_zero, id_eq,
    Rounded.div_val, one_val, Double.fin_div _ one_ne_zero, div_one, rounded_fin hone]

/-- **A power of two is exact exactly from `-1023` to `1023`.** -/
theorem pow2_exact_iff (e : Int32) :
    (pow2 e : Binary64).val = .fin (2 ^ e.toInt) ↔ -1023 ≤ e.toInt ∧ e.toInt ≤ 1023 := by
  rcases lt_or_ge e.toInt 0 with hneg | hnn
  · by_cases hmin : e = Int32.minValue
    · subst hmin
      rw [pow2_val_minValue, Double.fin.injEq]
      have hlt : (2 : ℚ) ^ Int32.minValue.toInt < 1 := zpow_lt_one_of_neg₀ one_lt_two (by decide)
      exact iff_of_false (fun h => absurd h.symm (ne_of_lt hlt)) (by decide)
    · rw [pow2_val_of_neg hneg hmin]
      by_cases h : -1023 ≤ e.toInt
      · rw [if_pos h]
        exact iff_of_true rfl ⟨h, by omega⟩
      · rw [if_neg h, Double.fin.injEq]
        exact iff_of_false (fun h0 => zpow_ne_zero _ two_ne_zero h0.symm) fun h' => h h'.1
  · rw [pow2_val_of_nonneg hnn]
    by_cases h : e.toInt ≤ 1023
    · rw [if_pos h]
      exact iff_of_true rfl ⟨by omega, h⟩
    · rw [if_neg h]
      exact iff_of_false nofun fun h' => h h'.2

/-! ## 2. The loops -/

/-- The variables of a loop, without the bound on `v`. -/
def Log2.exact (s : Log2 Binary64) : Log2 Double := ⟨s.v.val, s.n⟩

/-- `v` is a positive number. -/
def Log2.Positive (s : Log2 Binary64) : Prop := ∃ v : ℚ, s.v.val = .fin v ∧ 0 < v

section Loops

variable {s : Log2 Binary64}

theorem tooLarge_exact (s : Log2 Binary64) : tooLarge s = tooLarge s.exact := by
  refine decide_eq_decide.mpr ?_
  show (2 : Binary64).val ≤ s.v.val ↔ _
  rw [two_val]
  rfl

theorem tooSmall_exact (s : Log2 Binary64) : tooSmall s = tooSmall s.exact := by
  refine decide_eq_decide.mpr ?_
  show s.v.val < (1 : Binary64).val ↔ _
  rw [one_val]
  rfl

/-- Halving a number from `2` on is exact. -/
theorem halve_exact (h : s.Positive) (hc : tooLarge s = true) :
    (halve s).Positive ∧ (halve s).exact = halve s.exact := by
  obtain ⟨v, hv, hpos⟩ := h
  have hholds := s.v.holds v hv
  have hge : 2 ≤ v := by
    have hle : Double.fin 2 ≤ s.v.val := of_decide_eq_true ((tooLarge_exact s).symm.trans hc)
    rwa [hv, Double.fin_le_fin] at hle
  have hhalf : v / 2 = v * 2 ^ (-1 : ℤ) := by
    rw [zpow_neg_one, div_eq_mul_inv]
  have habs : |v * 2 ^ (-1 : ℤ)| = v / 2 := by
    rw [← hhalf, abs_of_pos (by linarith)]
  have hrange := hholds.range
  rw [abs_of_pos hpos] at hrange
  have hexact : (s.v / 2).val = .fin (v / 2) := by
    rw [Rounded.div_val, hv, two_val, Double.fin_div _ two_ne_zero, hhalf]
    refine rounded_fin (hholds.mul_zpow (-1) ?_ ?_) <;> rw [habs]
    · have : (2 : ℚ) ^ (1 - binary64.bias) ≤ 1 := zpow_le_one_of_nonpos₀ one_le_two (by decide)
      linarith
    · linarith
  refine ⟨⟨v / 2, hexact, by linarith⟩, ?_⟩
  show (⟨(s.v / 2).val, s.n + 1⟩ : Log2 Double) = ⟨s.v.val / 2, s.n + 1⟩
  rw [hexact, hv, Double.ofNat_eq, Double.fin_div _ (by norm_num)]

/-- Doubling a number below `1` is exact. -/
theorem twice_exact (h : s.Positive) (hc : tooSmall s = true) :
    (twice s).Positive ∧ (twice s).exact = twice s.exact := by
  obtain ⟨v, hv, hpos⟩ := h
  have hlt : v < 1 := by
    have hlt : s.v.val < Double.fin 1 := of_decide_eq_true ((tooSmall_exact s).symm.trans hc)
    rwa [hv, Double.fin_lt_fin] at hlt
  have hexact : (s.v * 2).val = .fin (v * 2) := by
    rw [Rounded.mul_val, hv, two_val, Double.fin_mul]
    refine rounded_fin ((s.v.holds v hv).mul_two ?_)
    have hbound : (2 : ℚ) ^ (1 : ℤ) ≤ 2 ^ (binary64.bias + 1) :=
      zpow_le_zpow_right₀ one_le_two (by decide)
    rw [zpow_one] at hbound
    rw [abs_of_pos (by linarith)]
    linarith
  refine ⟨⟨v * 2, hexact, by linarith⟩, ?_⟩
  show (⟨(s.v * 2).val, s.n - 1⟩ : Log2 Double) = ⟨s.v.val * 2, s.n - 1⟩
  rw [hexact, hv, Double.ofNat_eq, Double.fin_mul]

end Loops

section Normalise

variable {x : Binary64} {q : ℚ} (hx : x.val = .fin q) (hq : 0 < q)

include hx hq

/-- **The loops do not round.** -/
theorem ilog2Floor_exact (fuel : Nat) : ilog2Floor x fuel = ilog2Floor (Double.fin q) fuel := by
  have hstart : (⟨x, 0⟩ : Log2 Binary64).Positive := ⟨q, hx, hq⟩
  obtain ⟨h₁, hall⟩ := whileLoop_map Log2.exact Log2.Positive (fun s _ => tooLarge_exact s)
    (fun s hs hc => halve_exact hs hc) hstart fuel
  have hfin : (⟨x, 0⟩ : Log2 Binary64).exact = ⟨.fin q, 0⟩ := congrArg (Log2.mk · 0) hx
  rw [hfin] at h₁
  unfold ilog2Floor
  rw [← h₁]
  cases hs : whileLoop tooLarge halve fuel (⟨x, 0⟩ : Log2 Binary64) with
  | none => rfl
  | some s =>
    obtain ⟨h₂, -⟩ := whileLoop_map Log2.exact Log2.Positive (fun s _ => tooSmall_exact s)
      (fun s hs hc => twice_exact hs hc) (hall s hs) fuel
    show (do let s ← whileLoop tooSmall twice fuel s; return s.n) =
      (do let s ← whileLoop tooSmall twice fuel s.exact; return s.n)
    rw [← h₂]
    cases whileLoop tooSmall twice fuel s <;> rfl

theorem ilog2Floor_returns_exact : Returns (ilog2Floor x) (Int32.ofInt (exponent q)) := by
  rw [funext (ilog2Floor_exact hx hq)]
  exact ilog2Floor_returns hq

omit hx in
theorem le_exponent_of_pos (e : ℤ) : e ≤ exponent q ↔ (2 : ℚ) ^ e ≤ q := by
  rw [le_exponent_iff hq.ne', abs_of_pos hq]

omit hx in
theorem exponent_lt_of_pos (e : ℤ) : exponent q < e ↔ q < (2 : ℚ) ^ e := by
  rw [exponent_lt_iff hq.ne', abs_of_pos hq]

/-- The exponents of the positive numbers. -/
theorem exponent_range : -1074 ≤ exponent q ∧ exponent q ≤ 1023 := by
  have hholds := x.holds q hx
  have hlo := hholds.le_exponent hq.ne'
  have hhi := hholds.exponent_le hq.ne'
  rw [binary64_bias] at hlo hhi
  rw [binary64_mant] at hlo
  omega

theorem toInt_exponent : (Int32.ofInt (exponent q)).toInt = exponent q := by
  obtain ⟨hlo, hhi⟩ := exponent_range hx hq
  exact Int32.toInt_ofInt_of_le (by omega) (by omega)

/-- The division of a number by its power of two is exact, if the power is no infinity. -/
theorem div_pow2_of_le (h : -1023 ≤ exponent q) :
    (x / pow2 (Int32.ofInt (exponent q))).val = .fin (q / 2 ^ exponent q) := by
  obtain ⟨-, hhi⟩ := exponent_range hx hq
  have hn := toInt_exponent hx hq
  have hpow : (pow2 (Int32.ofInt (exponent q)) : Binary64).val = .fin (2 ^ exponent q) := by
    have he := (pow2_exact_iff (Int32.ofInt (exponent q))).mpr (by omega)
    rwa [hn] at he
  obtain ⟨h₁, h₂⟩ := significand_bounds hq.ne'
  rw [significand, abs_of_pos hq] at h₁ h₂
  have hdiv : q / 2 ^ exponent q = q * 2 ^ (-exponent q) := by rw [zpow_neg, div_eq_mul_inv]
  rw [Rounded.div_val, hx, hpow, Double.fin_div _ (zpow_pos two_pos _).ne', hdiv]
  -- the significand is in `[1, 2)`, where the format has room for it
  refine rounded_fin ((x.holds q hx).mul_zpow _ ?_ ?_) <;> rw [← hdiv, abs_of_pos (by linarith)]
  · have : (2 : ℚ) ^ (1 - binary64.bias) ≤ 1 := zpow_le_one_of_nonpos₀ one_le_two (by decide)
    linarith
  · have hbound : (2 : ℚ) ^ (1 : ℤ) ≤ 2 ^ (binary64.bias + 1) :=
      zpow_le_zpow_right₀ one_le_two (by decide)
    rw [zpow_one] at hbound
    linarith

/-- A smaller number is divided by zero. -/
theorem div_pow2_of_lt (h : exponent q < -1023) :
    (x / pow2 (Int32.ofInt (exponent q))).val = .posInf := by
  obtain ⟨hlo, -⟩ := exponent_range hx hq
  have hn := toInt_exponent hx hq
  have hne : Int32.ofInt (exponent q) ≠ Int32.minValue := fun he => by
    rw [← Int32.toInt_inj, hn] at he
    have hmin : Int32.minValue.toInt = -2 ^ 31 := rfl
    omega
  have hzero := pow2_val_of_neg (e := Int32.ofInt (exponent q)) (by omega) hne
  rw [hn, if_neg (by omega)] at hzero
  have hinf : Double.fin q / Double.fin 0 = .posInf := by
    show (if (0 : ℚ) = 0 then Double.infinity q else .fin (q / 0)) = .posInf
    rw [if_pos rfl, Double.infinity, if_pos hq]
  rw [Rounded.div_val, hx, hzero, hinf]
  rfl

/-- **A number is normalised exactly if** it is not smaller than `2 ^ -1023`. -/
theorem normalised_iff : Normalised x ↔ (2 : ℚ) ^ (-1023 : ℤ) ≤ q := by
  have hn := toInt_exponent hx hq
  rw [← le_exponent_of_pos hq]
  constructor
  · rintro ⟨q', n, hx', hret, -, -, y, hy, -⟩
    cases hx.symm.trans hx'
    obtain rfl := hret.unique (ilog2Floor_returns_exact hx hq)
    by_contra hsmall
    rw [div_pow2_of_lt hx hq (by omega)] at hy
    cases hy
  · intro hle
    obtain ⟨h₁, h₂⟩ := significand_bounds hq.ne'
    rw [significand, abs_of_pos hq] at h₁ h₂
    refine ⟨q, _, hx, ilog2Floor_returns_exact hx hq, ?_, ?_, q / 2 ^ exponent q,
      div_pow2_of_le hx hq hle, h₁, h₂⟩
    · rw [hn, ← le_exponent_of_pos hq]
    · rw [hn, ← exponent_lt_of_pos hq]
      exact lt_add_one _

/-- **Numbers are normalised and powers are exact exactly if** no power is an infinity. -/
theorem binaryExponent_iff (e : Int32) :
    (Normalised x ∧ (pow2 e : Binary64).val = .fin (2 ^ e.toInt)) ↔
      (2 : ℚ) ^ (-1023 : ℤ) ≤ q ∧ -1023 ≤ e.toInt ∧ e.toInt ≤ 1023 :=
  and_congr (normalised_iff hx hq) (pow2_exact_iff e)

end Normalise

/-- `3` and `2 ^ -2`. -/
theorem binaryExponent_three : Normalised (Rounded.of binary64 (.fin 3)) ∧
    (pow2 (-2) : Binary64).val = .fin (2 ^ (-2 : Int32).toInt) := by
  have hlt : (2 : ℚ) ^ (2 : ℤ) ≤ 2 ^ (binary64.bias + 1) :=
    zpow_le_zpow_right₀ one_le_two (by decide)
  have h3 : binary64.Holds 3 := ⟨⟨3, 0, by decide, by decide, by norm_num⟩, by
    rw [abs_of_pos (by norm_num)]
    exact lt_of_lt_of_le (by norm_num) hlt⟩
  refine (binaryExponent_iff (rounded_fin h3) (by norm_num) (-2)).mpr ⟨?_, by decide, by decide⟩
  exact (zpow_le_one_of_nonpos₀ one_le_two (by decide)).trans (by norm_num)

/-- The least positive number, `2 ^ -1074`. -/
def leastPositive : Binary64 := Rounded.of binary64 (.fin (2 ^ (-1074 : ℤ)))

theorem leastPositive_val : leastPositive.val = .fin (2 ^ (-1074 : ℤ)) :=
  rounded_fin (holds_zpow (by simp) (by simp))

/-- **The least positive number is divided by zero.** -/
theorem binaryExponent_refuted : (pow2 (-1074) : Binary64).val = .fin 0 ∧
    ¬ ∀ (x : Binary64) (q : ℚ) (e : Int32), x.val = .fin q → 0 < q →
      Normalised x ∧ (pow2 e : Binary64).val = .fin (2 ^ e.toInt) := by
  refine ⟨pow2_val_of_neg (by decide) (by decide), fun h => ?_⟩
  have hpos : (0 : ℚ) < 2 ^ (-1074 : ℤ) := zpow_pos two_pos _
  have hn := (h leastPositive _ 0 leastPositive_val hpos).1
  rw [normalised_iff leastPositive_val hpos, zpow_le_zpow_iff_right₀ one_lt_two] at hn
  omega

end MoonS7
