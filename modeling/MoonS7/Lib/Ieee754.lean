import Mathlib.Algebra.Order.Round
import Mathlib.Data.Int.Log
import Mathlib.Data.Rat.Floor
import Mathlib.Tactic.FieldSimp
import Mathlib.Tactic.Linarith
import Mathlib.Tactic.NormNum
import Mathlib.Tactic.Positivity
import Mathlib.Tactic.Ring
import MoonS7.Lib.BigEndian

/-!
# Binary interchange formats

A format has a sign bit, `exp` bits of a biased exponent and `mant` bits of a mantissa. A pattern is
the three fields of one word; `value` is the rational it stands for, `bytes` the word with its most
significant byte in front.

The other way round, a rational that is not zero has an exponent and a significand,
`|x| = significand x * 2 ^ exponent x` with `1 ≤ significand x < 2`, and `fraction k x` is what
`k` bits keep of the significand. Rounding moves it by half a unit at most (`fraction_error`), and
up to the next power of two exactly if the significand is within half a unit of `2`
(`fraction_lt_iff`).
-/

namespace Ieee754

open BigEndian

/-! ## 1. Patterns and what they stand for -/

structure Format where
  exp : Nat
  mant : Nat

def Format.bias (F : Format) : ℤ := 2 ^ (F.exp - 1) - 1

def binary32 : Format := ⟨8, 23⟩

def binary64 : Format := ⟨11, 52⟩

@[simp] theorem binary32_exp : binary32.exp = 8 := rfl

@[simp] theorem binary32_mant : binary32.mant = 23 := rfl

@[simp] theorem binary32_bias : binary32.bias = 127 := by norm_num [Format.bias]

@[simp] theorem binary64_exp : binary64.exp = 11 := rfl

@[simp] theorem binary64_mant : binary64.mant = 52 := rfl

@[simp] theorem binary64_bias : binary64.bias = 1023 := by norm_num [Format.bias]

structure Pattern (F : Format) where
  sign : Bool
  exp : Nat
  mant : Nat
  exp_lt : exp < 2 ^ F.exp
  mant_lt : mant < 2 ^ F.mant

attribute [ext] Pattern

variable {F : Format}

/-- What a pattern stands for, unless its exponent field is all ones. -/
def Pattern.value (p : Pattern F) : ℚ :=
  (-1) ^ p.sign.toNat *
    if p.exp = 0 then p.mant / 2 ^ F.mant * (2 : ℚ) ^ (1 - F.bias)
    else (1 + p.mant / 2 ^ F.mant) * (2 : ℚ) ^ (p.exp - F.bias)

/-! ## 2. Words and bytes -/

def Pattern.word (p : Pattern F) : Nat :=
  (p.sign.toNat * 2 ^ F.exp + p.exp) * 2 ^ F.mant + p.mant

def ofWord (F : Format) (w : Nat) : Pattern F where
  sign := decide (w / 2 ^ F.mant / 2 ^ F.exp % 2 = 1)
  exp := w / 2 ^ F.mant % 2 ^ F.exp
  mant := w % 2 ^ F.mant
  exp_lt := Nat.mod_lt _ (Nat.two_pow_pos _)
  mant_lt := Nat.mod_lt _ (Nat.two_pow_pos _)

def Pattern.bytes (p : Pattern F) : List UInt8 := beBytes p.word ((1 + F.exp + F.mant) / 8)

def ofBytes (F : Format) (bs : List UInt8) : Pattern F := ofWord F (beNat bs)

theorem Pattern.word_lt (p : Pattern F) : p.word < 2 ^ (1 + F.exp + F.mant) := by
  have hs : p.sign.toNat * 2 ^ F.exp ≤ 1 * 2 ^ F.exp := Nat.mul_le_mul_right _ (Bool.toNat_le _)
  have he := p.exp_lt
  have hm := p.mant_lt
  calc p.word < (p.sign.toNat * 2 ^ F.exp + p.exp + 1) * 2 ^ F.mant := by
        rw [Pattern.word, Nat.succ_mul]
        omega
    _ ≤ (2 * 2 ^ F.exp) * 2 ^ F.mant := Nat.mul_le_mul_right _ (by omega)
    _ = 2 ^ (1 + F.exp + F.mant) := by rw [Nat.pow_add, Nat.pow_add, Nat.pow_one]

theorem ofWord_word (p : Pattern F) : ofWord F p.word = p := by
  have hdiv : p.word / 2 ^ F.mant = p.sign.toNat * 2 ^ F.exp + p.exp := by
    rw [Pattern.word, Nat.mul_comm, Nat.mul_add_div (Nat.two_pow_pos _),
      Nat.div_eq_of_lt p.mant_lt, Nat.add_zero]
  have hmant : p.word % 2 ^ F.mant = p.mant := by
    rw [Pattern.word, Nat.mul_comm, Nat.mul_add_mod, Nat.mod_eq_of_lt p.mant_lt]
  have hexp : p.word / 2 ^ F.mant % 2 ^ F.exp = p.exp := by
    rw [hdiv, Nat.mul_comm, Nat.mul_add_mod, Nat.mod_eq_of_lt p.exp_lt]
  have hsign : p.word / 2 ^ F.mant / 2 ^ F.exp = p.sign.toNat := by
    rw [hdiv, Nat.mul_comm, Nat.mul_add_div (Nat.two_pow_pos _), Nat.div_eq_of_lt p.exp_lt,
      Nat.add_zero]
  cases p with
  | mk sign exp mant he hm =>
    simp only [ofWord, Pattern.mk.injEq]
    refine ⟨?_, hexp, hmant⟩
    rw [hsign]
    cases sign <;> rfl

/-- **The fields of a pattern are read back from its bytes.** -/
theorem ofBytes_bytes (h : 8 ∣ 1 + F.exp + F.mant) (p : Pattern F) : ofBytes F p.bytes = p := by
  obtain ⟨n, hn⟩ := h
  have hw := p.word_lt
  have hd : (1 + F.exp + F.mant) / 8 = n := by omega
  have hlt : p.word < 256 ^ n := by
    rw [hn, Nat.pow_mul] at hw
    exact hw
  rw [ofBytes, Pattern.bytes, hd, beNat_beBytes hlt, ofWord_word]

theorem word_ofWord {w : Nat} (h : w < 2 ^ (1 + F.exp + F.mant)) : (ofWord F w).word = w := by
  have hs : w / 2 ^ F.mant / 2 ^ F.exp < 2 := by
    rw [Nat.div_div_eq_div_mul, ← Nat.pow_add, Nat.div_lt_iff_lt_mul (Nat.two_pow_pos _)]
    calc w < 2 ^ (1 + F.exp + F.mant) := h
      _ = 2 * 2 ^ (F.mant + F.exp) := by rw [Nat.add_assoc, Nat.pow_add, Nat.add_comm F.exp, Nat.pow_one]
  have hbit : ∀ n : Nat, n < 2 → (decide (n % 2 = 1)).toNat = n := by decide
  show ((decide (w / 2 ^ F.mant / 2 ^ F.exp % 2 = 1)).toNat * 2 ^ F.exp +
    w / 2 ^ F.mant % 2 ^ F.exp) * 2 ^ F.mant + w % 2 ^ F.mant = w
  rw [hbit _ hs, Nat.div_add_mod', Nat.div_add_mod']

/-- **The bytes of a pattern are put together again** from its fields. -/
theorem bytes_ofBytes {bs : List UInt8} (h : 8 * bs.length = 1 + F.exp + F.mant) :
    (ofBytes F bs).bytes = bs := by
  have hlt : beNat bs < 2 ^ (1 + F.exp + F.mant) := by
    rw [← h, Nat.pow_mul]
    exact beNat_lt bs
  have hd : (1 + F.exp + F.mant) / 8 = bs.length := by omega
  rw [ofBytes, Pattern.bytes, word_ofWord hlt, hd, beBytes_beNat]

/-! ## 3. Exponent, significand, fraction -/

/-- The `e` with `2 ^ e ≤ |x| < 2 ^ (e + 1)`. -/
def exponent (x : ℚ) : ℤ := Int.log 2 |x|

def significand (x : ℚ) : ℚ := |x| / 2 ^ exponent x

/-- The significand without its leading `1`, rounded to `k` bits. -/
def fraction (k : Nat) (x : ℚ) : ℤ := round ((significand x - 1) * 2 ^ k)

section Nonzero

variable {x : ℚ} (hx : x ≠ 0) (k : Nat)

theorem abs_eq_significand (x : ℚ) : |x| = significand x * 2 ^ exponent x := by
  rw [significand, div_mul_cancel₀]
  exact zpow_ne_zero _ two_ne_zero

include hx

theorem le_exponent_iff (e : ℤ) : e ≤ exponent x ↔ (2 : ℚ) ^ e ≤ |x| := by
  rw [exponent, ← Int.zpow_le_iff_le_log one_lt_two (abs_pos.mpr hx)]
  rfl

theorem exponent_lt_iff (e : ℤ) : exponent x < e ↔ |x| < (2 : ℚ) ^ e := by
  rw [← not_le, ← not_le, le_exponent_iff hx]

theorem significand_bounds : 1 ≤ significand x ∧ significand x < 2 := by
  have hpos : (0 : ℚ) < 2 ^ exponent x := zpow_pos two_pos _
  have hlo := (le_exponent_iff hx (exponent x)).mp (le_refl _)
  have hhi := (exponent_lt_iff hx (exponent x + 1)).mp (lt_add_one _)
  rw [zpow_add_one₀ two_ne_zero, mul_comm] at hhi
  exact ⟨(one_le_div hpos).mpr hlo, (div_lt_iff₀ hpos).mpr hhi⟩

omit hx in
/-- There is one way to write a number with a significand and an exponent. -/
theorem exponent_eq {s : ℚ} {e : ℤ} (h₁ : 1 ≤ s) (h₂ : s < 2) (h : |x| = s * 2 ^ e) :
    exponent x = e := by
  have hpos : (0 : ℚ) < 2 ^ e := zpow_pos two_pos _
  have hx : x ≠ 0 := by
    rw [← abs_pos, h]
    exact mul_pos (by linarith) hpos
  have hlo : e ≤ exponent x := by
    rw [le_exponent_iff hx, h]
    nlinarith
  have hhi : exponent x < e + 1 := by
    rw [exponent_lt_iff hx, h, zpow_add_one₀ two_ne_zero]
    nlinarith
  omega

theorem exponent_mul_zpow (n : ℤ) : exponent (x * 2 ^ n) = exponent x + n := by
  obtain ⟨h₁, h₂⟩ := significand_bounds hx
  have hn : (0 : ℚ) < 2 ^ n := zpow_pos two_pos n
  refine exponent_eq h₁ h₂ ?_
  rw [abs_mul, abs_of_pos hn, abs_eq_significand x, mul_assoc, ← zpow_add₀ two_ne_zero]

theorem fraction_bounds : 0 ≤ fraction k x ∧ fraction k x ≤ 2 ^ k := by
  obtain ⟨hlo, hhi⟩ := significand_bounds hx
  have hk : (0 : ℚ) < 2 ^ k := pow_pos two_pos k
  have h0 : 0 ≤ (significand x - 1) * 2 ^ k := mul_nonneg (by linarith) hk.le
  have h1 : (significand x - 1) * 2 ^ k < 2 ^ k := by nlinarith
  have hr₀ := sub_half_lt_round ((significand x - 1) * 2 ^ k)
  have hr₁ := round_le_add_half ((significand x - 1) * 2 ^ k)
  constructor
  · have h : (-1 : ℚ) < fraction k x := by
      rw [fraction]
      linarith
    have : -1 < fraction k x := by exact_mod_cast h
    omega
  · have h : (fraction k x : ℚ) < ((2 ^ k + 1 : ℤ) : ℚ) := by
      rw [fraction]
      push_cast
      linarith
    have : fraction k x < 2 ^ k + 1 := by exact_mod_cast h
    omega

end Nonzero

theorem fraction_lt (k : Nat) (x : ℚ) (n : ℤ) :
    fraction k x < n ↔ significand x < 1 + (n - 1 / 2) / 2 ^ k := by
  have hk : (0 : ℚ) < 2 ^ k := pow_pos two_pos k
  rw [fraction, round_eq, Int.floor_lt, ← sub_lt_iff_lt_add', lt_div_iff₀ hk, lt_sub_iff_add_lt]

/-- **The fraction stays below the next power of two** exactly if the significand is further than
    half a unit from `2`. -/
theorem fraction_lt_iff (k : Nat) (x : ℚ) :
    fraction k x < 2 ^ k ↔ significand x < 2 - 1 / 2 ^ (k + 1) := by
  have hs : 1 + (((2 ^ k : ℤ) : ℚ) - 1 / 2) / 2 ^ k = 2 - 1 / 2 ^ (k + 1) := by
    push_cast
    rw [pow_succ]
    field_simp
    ring
  rw [fraction_lt, hs]

/-- It is zero exactly if the significand is closer than half a unit to `1`. -/
theorem fraction_eq_zero_iff {x : ℚ} (hx : x ≠ 0) (k : Nat) :
    fraction k x = 0 ↔ significand x < 1 + 1 / 2 ^ (k + 1) := by
  have hs : 1 + (((1 : ℤ) : ℚ) - 1 / 2) / 2 ^ k = 1 + 1 / 2 ^ (k + 1) := by
    push_cast
    rw [pow_succ]
    field_simp
    norm_num
  have h0 := (fraction_bounds hx k).1
  rw [← hs, ← fraction_lt]
  omega

/-- **Rounding to `k` bits moves a number by half a unit at most.** -/
theorem fraction_error (k : Nat) (x : ℚ) :
    |(1 + fraction k x / 2 ^ k) * (2 : ℚ) ^ exponent x - (|x|)| ≤ 2 ^ (exponent x - (k + 1)) := by
  have hk : (0 : ℚ) < 2 ^ k := pow_pos two_pos k
  have he : (0 : ℚ) < 2 ^ exponent x := zpow_pos two_pos _
  have hround := abs_sub_round ((significand x - 1) * 2 ^ k)
  have hunit : 1 + (fraction k x : ℚ) / 2 ^ k - significand x =
      (fraction k x - (significand x - 1) * 2 ^ k) / 2 ^ k := by
    field_simp
    ring
  have hpow : (2 : ℚ) ^ (exponent x - (k + 1)) = 1 / 2 / 2 ^ k * 2 ^ exponent x := by
    rw [zpow_sub₀ two_ne_zero, zpow_add_one₀ two_ne_zero, zpow_natCast]
    field_simp
  rw [abs_eq_significand x, ← sub_mul, hunit, abs_mul, abs_div, abs_of_pos hk, abs_of_pos he, hpow,
    abs_sub_comm]
  exact mul_le_mul_of_nonneg_right (div_le_div_of_nonneg_right hround hk.le) he.le

/-- A number given by the fields of a pattern. -/
def assemble (s : Bool) (k m : Nat) (e : ℤ) : ℚ := (-1) ^ s.toNat * ((1 + m / 2 ^ k) * 2 ^ e)

section Assemble

variable (s : Bool) {k m : Nat} (e : ℤ)

theorem magnitude_pos (k m : Nat) : (0 : ℚ) < (1 + m / 2 ^ k) * 2 ^ e :=
  mul_pos (by positivity) (zpow_pos two_pos e)

theorem abs_assemble (k m : Nat) : |assemble s k m e| = (1 + m / 2 ^ k) * 2 ^ e := by
  rw [assemble, abs_mul, abs_pow, abs_neg, abs_one, one_pow, one_mul, abs_of_pos (magnitude_pos e k m)]

theorem assemble_ne_zero (k m : Nat) : assemble s k m e ≠ 0 := by
  rw [← abs_pos, abs_assemble]
  exact magnitude_pos e k m

theorem assemble_neg_iff (k m : Nat) : assemble s k m e < 0 ↔ s = true := by
  have hpos := magnitude_pos e k m
  cases s with
  | false => simpa [assemble] using hpos.le
  | true => simpa [assemble] using hpos

theorem exponent_assemble (hm : m < 2 ^ k) : exponent (assemble s k m e) = e := by
  have hk : (0 : ℚ) < 2 ^ k := pow_pos two_pos k
  have ht : (m : ℚ) / 2 ^ k < 1 := (div_lt_one hk).mpr (by exact_mod_cast hm)
  have h₀ : (0 : ℚ) ≤ m / 2 ^ k := by positivity
  exact exponent_eq (by linarith) (by linarith) (abs_assemble s e k m)

theorem fraction_assemble (hm : m < 2 ^ k) : fraction k (assemble s k m e) = m := by
  have he : (2 : ℚ) ^ e ≠ 0 := zpow_ne_zero _ two_ne_zero
  have hk : (2 : ℚ) ^ k ≠ 0 := pow_ne_zero _ two_ne_zero
  rw [fraction, significand, exponent_assemble s e hm, abs_assemble, mul_div_cancel_right₀ _ he,
    add_sub_cancel_left, div_mul_cancel₀ _ hk, round_natCast]

end Assemble

end Ieee754
