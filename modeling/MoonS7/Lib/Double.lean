import Mathlib.Algebra.Order.Floor.Ring
import Mathlib.Algebra.Order.Ring.Abs
import Mathlib.Data.Rat.Floor

/-!
# Doubles without rounding

A floating-point number as an exact rational: the operations are those of IEEE 754 with the
infinities and the undefined results, but a finite result is the result of the rational operation.
A rational has one zero, and no magnitude is too large or too small for it.
-/

inductive Double where
  | fin (q : ℚ)
  | posInf
  | negInf
  | nan
  deriving DecidableEq

namespace Double

/-! ## 1. The operations -/

/-- An infinity that takes its sign from `q`; undefined where `q` has none. -/
def infinity (q : ℚ) : Double := if 0 < q then posInf else if q < 0 then negInf else nan

protected def neg : Double → Double
  | fin a => fin (-a)
  | posInf => negInf
  | negInf => posInf
  | nan => nan

protected def add : Double → Double → Double
  | fin a, fin b => fin (a + b)
  | nan, _ => nan
  | _, nan => nan
  | posInf, negInf => nan
  | negInf, posInf => nan
  | posInf, _ => posInf
  | _, posInf => posInf
  | negInf, _ => negInf
  | _, negInf => negInf

protected def mul : Double → Double → Double
  | fin a, fin b => fin (a * b)
  | nan, _ => nan
  | _, nan => nan
  | fin a, posInf => infinity a
  | fin a, negInf => infinity (-a)
  | posInf, fin b => infinity b
  | negInf, fin b => infinity (-b)
  | posInf, posInf => posInf
  | negInf, negInf => posInf
  | posInf, negInf => negInf
  | negInf, posInf => negInf

protected def div : Double → Double → Double
  | fin a, fin b => if b = 0 then infinity a else fin (a / b)
  | nan, _ => nan
  | _, nan => nan
  | fin _, _ => fin 0
  | posInf, fin b => if b < 0 then negInf else posInf
  | negInf, fin b => if b < 0 then posInf else negInf
  | _, _ => nan

instance (n : Nat) : OfNat Double n := ⟨fin n⟩
instance : Neg Double := ⟨Double.neg⟩
instance : Add Double := ⟨Double.add⟩
instance : Sub Double := ⟨fun a b => a + -b⟩
instance : Mul Double := ⟨Double.mul⟩
instance : Div Double := ⟨Double.div⟩

/-- `a == b`, which does not hold of two undefined results. -/
protected def beq : Double → Double → Bool
  | fin a, fin b => decide (a = b)
  | posInf, posInf => true
  | negInf, negInf => true
  | _, _ => false

protected def blt : Double → Double → Bool
  | fin a, fin b => decide (a < b)
  | negInf, fin _ => true
  | negInf, posInf => true
  | fin _, posInf => true
  | _, _ => false

protected def ble (a b : Double) : Bool := a.blt b || a.beq b

instance : LT Double := ⟨fun a b => a.blt b = true⟩
instance : LE Double := ⟨fun a b => a.ble b = true⟩
instance : DecidableLT Double := fun a b => inferInstanceAs (Decidable (a.blt b = true))
instance : DecidableLE Double := fun a b => inferInstanceAs (Decidable (a.ble b = true))

/-- To the nearest integer, and upwards from the middle between two. -/
def round : Double → Double
  | fin a => fin ⌊a + 1 / 2⌋
  | x => x

/-- Towards zero, and to the nearer end of `lo ..= hi` from outside of it; `0` for an undefined
    result. -/
def truncate (lo hi : ℤ) : Double → ℤ
  | fin a => max lo (min hi (if a < 0 then ⌈a⌉ else ⌊a⌋))
  | posInf => hi
  | negInf => lo
  | nan => 0

def toInt32 (x : Double) : Int32 := Int32.ofInt (x.truncate (-2 ^ 31) (2 ^ 31 - 1))

def toInt64 (x : Double) : Int64 := Int64.ofInt (x.truncate (-2 ^ 63) (2 ^ 63 - 1))

def ofInt32 (v : Int32) : Double := fin v.toInt

/-! ## 2. Finite operands -/

section Finite

variable (a b : ℚ)

@[simp] theorem zero_eq : (0 : Double) = fin 0 := rfl

@[simp] theorem one_eq : (1 : Double) = fin 1 := rfl

@[simp] theorem ofNat_eq (n : Nat) [n.AtLeastTwo] :
    (OfNat.ofNat n : Double) = fin (OfNat.ofNat n) := rfl

@[simp] theorem fin_neg : -fin a = fin (-a) := rfl

@[simp] theorem fin_add : fin a + fin b = fin (a + b) := rfl

@[simp] theorem fin_sub : fin a - fin b = fin (a - b) := by
  rw [sub_eq_add_neg]
  rfl

@[simp] theorem fin_mul : fin a * fin b = fin (a * b) := rfl

theorem fin_div {b : ℚ} (h : b ≠ 0) : fin a / fin b = fin (a / b) := by
  show (if b = 0 then infinity a else fin (a / b)) = fin (a / b)
  rw [if_neg h]

theorem infinity_ne_fin : infinity a ≠ fin b := by
  unfold infinity
  split
  · nofun
  · split <;> nofun

@[simp] theorem fin_beq : (fin a).beq (fin b) = decide (a = b) := rfl

@[simp] theorem fin_blt : (fin a).blt (fin b) = decide (a < b) := rfl

@[simp] theorem fin_ble : (fin a).ble (fin b) = decide (a ≤ b) := by
  show (decide (a < b) || decide (a = b)) = decide (a ≤ b)
  rw [← Bool.decide_or]
  exact decide_eq_decide.mpr le_iff_lt_or_eq.symm

theorem fin_lt_fin : fin a < fin b ↔ a < b := decide_eq_true_iff

theorem fin_le_fin : fin a ≤ fin b ↔ a ≤ b := by
  show (fin a).ble (fin b) = true ↔ a ≤ b
  rw [fin_ble, decide_eq_true_iff]

end Finite

end Double
