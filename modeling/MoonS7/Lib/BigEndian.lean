import Mathlib.Tactic.Positivity
import Mathlib.Tactic.Ring

/-!
# Big-endian numbers

A number as a list of bytes, the most significant one in front. `beNat` and `beBytes` undo each
other: the bytes of a number are its lowest ones (`beNat_beBytes_mod`), and every list of bytes is
the bytes of its number (`beBytes_beNat`).
-/

namespace BigEndian

/-- The number a list of bytes stands for, most significant byte first. -/
def beNat (bs : List UInt8) : Nat := bs.foldl (fun n b => n * 256 + b.toNat) 0

/-- The lowest `n` bytes of a number, most significant byte first. -/
def beBytes (w : Nat) : Nat → List UInt8
  | 0 => []
  | n + 1 => UInt8.ofNat (w / 256 ^ n) :: beBytes w n

theorem length_beBytes (w n : Nat) : (beBytes w n).length = n := by
  induction n with
  | zero => rfl
  | succ n ih => rw [beBytes, List.length_cons, ih]

theorem foldl_beBytes (w n k : Nat) :
    (beBytes w n).foldl (fun n b => n * 256 + b.toNat) k = k * 256 ^ n + w % 256 ^ n := by
  induction n generalizing k with
  | zero => simp [beBytes, Nat.mod_one]
  | succ n ih =>
    have hdigit : w % 256 ^ (n + 1) = w / 256 ^ n % 256 * 256 ^ n + w % 256 ^ n := by
      rw [Nat.pow_succ, Nat.mod_mul, Nat.mul_comm (256 ^ n), Nat.add_comm]
    rw [beBytes, List.foldl_cons, ih, UInt8.toNat_ofNat', hdigit, Nat.pow_succ]
    ring

theorem beNat_beBytes_mod (w n : Nat) : beNat (beBytes w n) = w % 256 ^ n := by
  rw [beNat, foldl_beBytes, Nat.zero_mul, Nat.zero_add]

theorem beNat_beBytes {w n : Nat} (h : w < 256 ^ n) : beNat (beBytes w n) = w := by
  rw [beNat_beBytes_mod, Nat.mod_eq_of_lt h]

theorem foldl_bytes (bs : List UInt8) (k : Nat) :
    bs.foldl (fun n b => n * 256 + b.toNat) k = k * 256 ^ bs.length + beNat bs := by
  induction bs generalizing k with
  | nil => simp [beNat]
  | cons b bs ih =>
    rw [beNat, List.foldl_cons, List.foldl_cons, ih, ih (0 * 256 + b.toNat), List.length_cons,
      Nat.pow_succ]
    ring

theorem beNat_cons (b : UInt8) (bs : List UInt8) :
    beNat (b :: bs) = b.toNat * 256 ^ bs.length + beNat bs := by
  rw [beNat, List.foldl_cons, foldl_bytes, Nat.zero_mul, Nat.zero_add]

theorem beNat_lt (bs : List UInt8) : beNat bs < 256 ^ bs.length := by
  induction bs with
  | nil => exact Nat.one_pos
  | cons b bs ih =>
    have hb : (b.toNat + 1) * 256 ^ bs.length ≤ 256 * 256 ^ bs.length :=
      Nat.mul_le_mul_right _ b.toNat_lt
    rw [beNat_cons, List.length_cons, Nat.pow_succ, Nat.mul_comm (256 ^ _)]
    rw [Nat.succ_mul] at hb
    omega

/-- What is above the lowest `n` bytes does not matter for them. -/
theorem beBytes_add_mul (k w n : Nat) : beBytes (k * 256 ^ n + w) n = beBytes w n := by
  induction n generalizing k with
  | zero => rfl
  | succ n ih =>
    have hk : k * 256 ^ (n + 1) = 256 ^ n * (k * 256) := by
      rw [Nat.pow_succ]
      ring
    have hhead : UInt8.ofNat ((k * 256 ^ (n + 1) + w) / 256 ^ n) = UInt8.ofNat (w / 256 ^ n) := by
      apply UInt8.toNat.inj
      rw [hk, Nat.mul_add_div (by positivity), UInt8.toNat_ofNat', UInt8.toNat_ofNat']
      omega
    have htail : beBytes (k * 256 ^ (n + 1) + w) n = beBytes w n := by
      rw [hk, Nat.mul_comm]
      exact ih (k * 256)
    rw [beBytes, beBytes, hhead, htail]

theorem beBytes_mod (w n : Nat) : beBytes (w % 256 ^ n) n = beBytes w n := by
  conv_rhs => rw [← Nat.div_add_mod' w (256 ^ n), beBytes_add_mul]

theorem beBytes_beNat (bs : List UInt8) : beBytes (beNat bs) bs.length = bs := by
  induction bs with
  | nil => rfl
  | cons b bs ih =>
    have hhead : UInt8.ofNat ((b.toNat * 256 ^ bs.length + beNat bs) / 256 ^ bs.length) = b := by
      rw [Nat.mul_comm, Nat.mul_add_div (by positivity), Nat.div_eq_of_lt (beNat_lt bs),
        Nat.add_zero, UInt8.ofNat_toNat]
    rw [beNat_cons, List.length_cons, beBytes, hhead, beBytes_add_mul, ih]

end BigEndian
