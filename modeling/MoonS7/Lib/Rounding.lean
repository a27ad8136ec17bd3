import MoonS7.Lib.Double
import MoonS7.Lib.Ieee754

/-!
# Doubles that are rounded

What a format holds are the multiples of a power of two with `mant + 1` bits, down to the unit of the
subnormal numbers and below the power of two that overflows (`Format.Holds`). `Format.round` rounds
a rational to the nearest of them, and to the even one from the middle between two. In `Rounded F`
every operation is the one of `Double`, rounded; a result that is too large becomes an infinity.

Main results: `round_holds` (what is rounded is held) and `round_eq_self` (what is held is not
rounded).
-/

namespace Ieee754

variable {F : Format} {x : ℚ}

/-! ## 1. Rounding -/

/-- To the nearest integer, and to the even one from the middle between two. -/
def roundEven (x : ℚ) : ℤ :=
  if x - ⌊x⌋ < 1 / 2 then ⌊x⌋
  else if 1 / 2 < x - ⌊x⌋ then ⌊x⌋ + 1
  else if ⌊x⌋ % 2 = 0 then ⌊x⌋ else ⌊x⌋ + 1

theorem roundEven_intCast (n : ℤ) : roundEven n = n := by
  rw [roundEven, Int.floor_intCast, sub_self, if_pos (by norm_num)]

theorem roundEven_cases (x : ℚ) : roundEven x = ⌊x⌋ ∨ (roundEven x = ⌊x⌋ + 1 ∧ (⌊x⌋ : ℚ) < x) := by
  unfold roundEven
  split
  · exact Or.inl rfl
  · rename_i h
    have hlt : (⌊x⌋ : ℚ) < x := by linarith
    split
    · exact Or.inr ⟨rfl, hlt⟩
    · split
      · exact Or.inl rfl
      · exact Or.inr ⟨rfl, hlt⟩

/-- Rounding does not pass an integer. -/
theorem abs_roundEven_le {n : ℤ} (h : |x| < n) : |roundEven x| ≤ n := by
  obtain ⟨hlo, hhi⟩ := abs_lt.mp h
  have hlo' : -n ≤ ⌊x⌋ := Int.le_floor.mpr (by push_cast; exact hlo.le)
  have hhi' : ⌊x⌋ < n := Int.floor_lt.mpr hhi
  rcases roundEven_cases x with hr | ⟨hr, -⟩ <;> rw [hr, abs_le] <;> omega

/-- The exponent of the last place of a number. -/
def Format.lastPlace (F : Format) (x : ℚ) : ℤ := max (exponent x) (1 - F.bias) - F.mant

def Format.round (F : Format) (x : ℚ) : ℚ :=
  roundEven (x / 2 ^ F.lastPlace x) * 2 ^ F.lastPlace x

/-- The numbers that a format holds. -/
structure Format.Holds (F : Format) (x : ℚ) : Prop where
  places : ∃ m e : ℤ, |m| < 2 ^ (F.mant + 1) ∧ 1 - F.bias - F.mant ≤ e ∧ x = m * 2 ^ e
  range : |x| < 2 ^ (F.bias + 1)

theorem abs_div_lastPlace (F : Format) (x : ℚ) : |x / 2 ^ F.lastPlace x| < (2 ^ (F.mant + 1) : ℤ) := by
  have hpos : (0 : ℚ) < 2 ^ F.lastPlace x := zpow_pos two_pos _
  rw [abs_div, abs_of_pos hpos, div_lt_iff₀ hpos]
  push_cast
  rw [← zpow_natCast, ← zpow_add₀ two_ne_zero]
  by_cases hx : x = 0
  · rw [hx, abs_zero]
    exact zpow_pos two_pos _
  · rw [← exponent_lt_iff hx, Format.lastPlace]
    push_cast
    have := le_max_left (exponent x) (1 - F.bias)
    omega

/-- **What is rounded is held**, unless it is too large. -/
theorem round_holds (h : |F.round x| < 2 ^ (F.bias + 1)) : F.Holds (F.round x) := by
  have hm : |roundEven (x / 2 ^ F.lastPlace x)| ≤ 2 ^ (F.mant + 1) :=
    abs_roundEven_le (abs_div_lastPlace F x)
  have he : 1 - F.bias - F.mant ≤ F.lastPlace x := by
    have := le_max_right (exponent x) (1 - F.bias)
    rw [Format.lastPlace]
    omega
  refine ⟨?_, h⟩
  rcases lt_or_eq_of_le hm with hlt | heq
  · exact ⟨_, _, hlt, he, rfl⟩
  · -- one bit too many, all of them zero but the first
    obtain ⟨m, hm⟩ : (2 : ℤ) ^ F.mant ∣ roundEven (x / 2 ^ F.lastPlace x) := by
      rw [← dvd_abs, heq, pow_succ]
      exact dvd_mul_right _ _
    have hm2 : |m| = 2 := by
      rw [hm, abs_mul, abs_of_pos (by positivity), pow_succ] at heq
      exact mul_left_cancel₀ (by positivity) heq
    have h2 : (2 : ℤ) ∣ m := by
      rw [← dvd_abs, hm2]
    obtain ⟨k, rfl⟩ := h2
    have hk : |k| = 1 := by
      rw [abs_mul] at hm2
      norm_num at hm2
      exact hm2
    refine ⟨k * 2 ^ F.mant, F.lastPlace x + 1, ?_, by omega, ?_⟩
    · rw [abs_mul, hk, one_mul, abs_of_pos (by positivity)]
      exact pow_lt_pow_right₀ one_lt_two (Nat.lt_succ_self _)
    · rw [Format.round, hm, zpow_add_one₀ two_ne_zero]
      push_cast
      ring

/-- A multiple of the last place is not rounded. -/
theorem round_places {m e : ℤ} (hm : |m| < 2 ^ (F.mant + 1)) (he : 1 - F.bias - F.mant ≤ e) :
    F.round (m * 2 ^ e) = m * 2 ^ e := by
  generalize hx : (m * 2 ^ e : ℚ) = x
  have hpow : (2 : ℚ) ^ F.lastPlace x ≠ 0 := zpow_ne_zero _ two_ne_zero
  by_cases h0 : x = 0
  · rw [Format.round, h0, zero_div]
    have hz : roundEven 0 = 0 := by exact_mod_cast roundEven_intCast 0
    rw [hz, Int.cast_zero, zero_mul]
  · have hle : F.lastPlace x ≤ e := by
      have hexp : exponent x < F.mant + 1 + e := by
        have hpos : (0 : ℚ) < 2 ^ e := zpow_pos two_pos _
        rw [exponent_lt_iff h0, ← hx, abs_mul, abs_of_pos hpos, zpow_add₀ two_ne_zero]
        refine mul_lt_mul_of_pos_right ?_ hpos
        exact_mod_cast hm
      rw [Format.lastPlace]
      omega
    have hq : x / 2 ^ F.lastPlace x = ((m * 2 ^ (e - F.lastPlace x).toNat : ℤ) : ℚ) := by
      rw [div_eq_iff hpow]
      push_cast
      rw [← zpow_natCast, Int.toNat_of_nonneg (by omega), mul_assoc, ← zpow_add₀ two_ne_zero,
        sub_add_cancel]
      exact hx.symm
    rw [Format.round, hq, roundEven_intCast, ← hq, div_mul_cancel₀ _ hpow]

/-- **What is held is not rounded.** -/
theorem round_eq_self (h : F.Holds x) : F.round x = x := by
  obtain ⟨m, e, hm, he, rfl⟩ := h.places
  exact round_places hm he

/-! ## 2. Numbers that are held -/

theorem holds_zero (F : Format) : F.Holds 0 where
  places := ⟨0, 1 - F.bias - F.mant, by
    rw [abs_zero]
    exact pow_pos two_pos _, le_refl _, by rw [Int.cast_zero, zero_mul]⟩
  range := by
    rw [abs_zero]
    exact zpow_pos two_pos _

theorem one_lt_two_pow_mant (F : Format) : |(1 : ℤ)| < 2 ^ (F.mant + 1) := by
  rw [abs_one]
  exact one_lt_pow₀ one_lt_two (Nat.succ_ne_zero _)

/-- A power of two is held from the least subnormal number on. -/
theorem holds_zpow {e : ℤ} (hlo : 1 - F.bias - F.mant ≤ e) (hhi : e ≤ F.bias) : F.Holds (2 ^ e) where
  places := ⟨1, e, one_lt_two_pow_mant F, hlo, by rw [Int.cast_one, one_mul]⟩
  range := by
    rw [abs_of_pos (zpow_pos two_pos _)]
    exact zpow_lt_zpow_right₀ one_lt_two (by omega)

/-- Moving the point keeps a number that stays normal. -/
theorem Format.Holds.mul_zpow (h : F.Holds x) (n : ℤ) (hlo : (2 : ℚ) ^ (1 - F.bias) ≤ |x * 2 ^ n|)
    (hhi : |x * 2 ^ n| < 2 ^ (F.bias + 1)) : F.Holds (x * 2 ^ n) := by
  obtain ⟨m, e, hm, -, hx⟩ := h.places
  refine ⟨⟨m, e + n, hm, ?_, ?_⟩, hhi⟩
  · have hpos : (0 : ℚ) < 2 ^ (e + n) := zpow_pos two_pos _
    have hlt : (2 : ℚ) ^ (1 - F.bias) < 2 ^ (F.mant + 1 + (e + n)) := by
      refine lt_of_le_of_lt hlo ?_
      rw [hx, mul_assoc, ← zpow_add₀ two_ne_zero, abs_mul, abs_of_pos hpos, zpow_add₀ two_ne_zero (_ + 1)]
      refine mul_lt_mul_of_pos_right ?_ hpos
      exact_mod_cast hm
    have := (zpow_lt_zpow_iff_right₀ one_lt_two).mp hlt
    omega
  · rw [hx, mul_assoc, ← zpow_add₀ two_ne_zero]

/-- Doubling keeps a number that does not become too large. -/
theorem Format.Holds.mul_two (h : F.Holds x) (hhi : |x * 2| < 2 ^ (F.bias + 1)) : F.Holds (x * 2) := by
  obtain ⟨m, e, hm, he, hx⟩ := h.places
  refine ⟨⟨m, e + 1, hm, by omega, ?_⟩, hhi⟩
  rw [hx, zpow_add_one₀ two_ne_zero, mul_assoc]

/-- The magnitude of a number other than zero is not below the least subnormal one. -/
theorem Format.Holds.le_exponent (h : F.Holds x) (hx : x ≠ 0) : 1 - F.bias - F.mant ≤ exponent x := by
  obtain ⟨m, e, -, he, rfl⟩ := h.places
  refine he.trans ((le_exponent_iff hx e).mpr ?_)
  have hpos : (0 : ℚ) < 2 ^ e := zpow_pos two_pos _
  have hm : m ≠ 0 := fun h => hx (by rw [h, Int.cast_zero, zero_mul])
  rw [abs_mul, abs_of_pos hpos]
  refine le_mul_of_one_le_left hpos.le ?_
  exact_mod_cast Int.one_le_abs hm

theorem Format.Holds.exponent_le (h : F.Holds x) (hx : x ≠ 0) : exponent x ≤ F.bias := by
  have := (exponent_lt_iff hx _).mpr h.range
  omega

/-! ## 3. Rounded operations -/

/-- A result, rounded. -/
def Format.rounded (F : Format) : Double → Double
  | .fin q => if |F.round q| < 2 ^ (F.bias + 1) then .fin (F.round q) else Double.infinity q
  | x => x

/-- A `Double` in the format `F`. -/
structure Rounded (F : Format) where
  val : Double
  holds : ∀ q, val = .fin q → F.Holds q

namespace Rounded

def of (F : Format) (x : Double) : Rounded F where
  val := F.rounded x
  holds q hq := by
    cases x with
    | posInf | negInf | nan => cases hq
    | fin a =>
      rw [Format.rounded] at hq
      by_cases h : |F.round a| < 2 ^ (F.bias + 1)
      · rw [if_pos h] at hq
        cases hq
        exact round_holds h
      · rw [if_neg h] at hq
        exact absurd hq (Double.infinity_ne_fin a q)

instance (n : Nat) : OfNat (Rounded F) n := ⟨of F (.fin n)⟩
instance : Mul (Rounded F) := ⟨fun a b => of F (a.val * b.val)⟩
instance : Div (Rounded F) := ⟨fun a b => of F (a.val / b.val)⟩
instance : LT (Rounded F) := ⟨fun a b => a.val < b.val⟩
instance : LE (Rounded F) := ⟨fun a b => a.val ≤ b.val⟩
instance : DecidableLT (Rounded F) := fun a b => inferInstanceAs (Decidable (a.val < b.val))
instance : DecidableLE (Rounded F) := fun a b => inferInstanceAs (Decidable (a.val ≤ b.val))

theorem mul_val (a b : Rounded F) : (a * b).val = F.rounded (a.val * b.val) := rfl

theorem div_val (a b : Rounded F) : (a / b).val = F.rounded (a.val / b.val) := rfl

end Rounded

/-- **A result that the format holds is exact.** -/
theorem rounded_fin (h : F.Holds x) : F.rounded (.fin x) = .fin x := by
  rw [Format.rounded, round_eq_self h, if_pos h.range]

/-- A power of two that is too large. -/
theorem rounded_zpow_large {e : ℤ} (hlo : 1 - F.bias - F.mant ≤ e) (he : F.bias < e) :
    F.rounded (.fin (2 ^ e)) = .posInf := by
  have hpos : (0 : ℚ) < 2 ^ e := zpow_pos two_pos _
  have hround : F.round (2 ^ e) = 2 ^ e := by
    have h := round_places (one_lt_two_pow_mant F) hlo
    rwa [Int.cast_one, one_mul] at h
  have hle : (2 : ℚ) ^ (F.bias + 1) ≤ 2 ^ e := zpow_le_zpow_right₀ one_le_two he
  rw [Format.rounded, hround, abs_of_pos hpos, if_neg (not_lt.mpr hle), Double.infinity, if_pos hpos]

end Ieee754
