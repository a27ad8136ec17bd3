import Mathlib.Tactic.Common

/-!
# UTF-8

The encoding is the one of Lean's own strings, `String.utf8EncodeChar`. `Sequence n bs`: the bytes
`bs` have the form of an encoding -- a lead byte of the right range, continuation bytes behind it --
and carry the bits of `n`. An encoding has it (`sequence_utf8EncodeChar`); so have the overlong
forms, the surrogates and what is above the last code. For a decoder that looks at lead bytes only,
`valid_value3_iff` and `valid_value4_iff` say when the bits it puts together are a character.
-/

namespace Utf8

/-- The UTF-8 bytes of a text. -/
def bytes (s : List Char) : List UInt8 := s.flatMap String.utf8EncodeChar

/-! ## 1. The bits of two, three and four bytes -/

def value2 (b0 b1 : UInt8) : Nat := b0.toNat % 32 * 64 + b1.toNat % 64

def value3 (b0 b1 b2 : UInt8) : Nat := (b0.toNat % 16 * 64 + b1.toNat % 64) * 64 + b2.toNat % 64

def value4 (b0 b1 b2 b3 : UInt8) : Nat :=
  ((b0.toNat % 8 * 64 + b1.toNat % 64) * 64 + b2.toNat % 64) * 64 + b3.toNat % 64

theorem valid_of_lt {n : Nat} (h : n < 0xD800) : n.isValidChar := Or.inl h

theorem value2_lt (b0 b1 : UInt8) : value2 b0 b1 < 0x800 := by
  rw [value2]
  omega

/-- Three bytes are a character unless they are a surrogate. -/
theorem valid_value3_iff (b0 b1 b2 : UInt8) :
    (value3 b0 b1 b2).isValidChar ↔ ¬ (b0.toNat % 16 = 13 ∧ 32 ≤ b1.toNat % 64) := by
  rw [Nat.isValidChar, value3]
  omega

/-- Four bytes are a character unless they are beyond the last one, or a surrogate in an overlong
    form. -/
theorem valid_value4_iff (b0 b1 b2 b3 : UInt8) : (value4 b0 b1 b2 b3).isValidChar ↔
    ¬ (4 < b0.toNat % 8 ∨ (b0.toNat % 8 = 4 ∧ 16 ≤ b1.toNat % 64) ∨
      (b0.toNat % 8 = 0 ∧ b1.toNat % 64 = 13 ∧ 32 ≤ b2.toNat % 64)) := by
  rw [Nat.isValidChar, value4]
  omega

/-! ## 2. Encodings -/

/-- A continuation byte. -/
def Tail (b : UInt8) : Prop := 0x80 ≤ b.toNat ∧ b.toNat < 0xC0

inductive Sequence : Nat → List UInt8 → Prop where
  | one {b0 : UInt8} (h : b0.toNat < 0x80) : Sequence b0.toNat [b0]
  | two {b0 b1 : UInt8} (h : 0xC0 ≤ b0.toNat ∧ b0.toNat < 0xE0) (h₁ : Tail b1) :
      Sequence (value2 b0 b1) [b0, b1]
  | three {b0 b1 b2 : UInt8} (h : 0xE0 ≤ b0.toNat ∧ b0.toNat < 0xF0) (h₁ : Tail b1) (h₂ : Tail b2) :
      Sequence (value3 b0 b1 b2) [b0, b1, b2]
  | four {b0 b1 b2 b3 : UInt8} (h : 0xF0 ≤ b0.toNat) (h₁ : Tail b1) (h₂ : Tail b2) (h₃ : Tail b3) :
      Sequence (value4 b0 b1 b2 b3) [b0, b1, b2, b3]

theorem toNat_ofNat {n : Nat} (h : n < 256) : (UInt8.ofNat n).toNat = n := by
  rw [UInt8.toNat_ofNat']
  omega

theorem tail_ofNat (n : Nat) : Tail (UInt8.ofNat (n % 64 + 0x80)) := by
  rw [Tail, toNat_ofNat (by omega)]
  omega

theorem Sequence.of_eq {m n : Nat} {bs : List UInt8} (h : Sequence m bs) (e : m = n) :
    Sequence n bs := by
  rw [← e]
  exact h

theorem toNat_lt (c : Char) : c.val.toNat < 0x110000 := by
  have h := c.valid
  rw [UInt32.isValidChar, Nat.isValidChar] at h
  omega

/-- **An encoding is a sequence** with the bits of its character. -/
theorem sequence_utf8EncodeChar (c : Char) : Sequence c.toNat (String.utf8EncodeChar c) := by
  have hc := toNat_lt c
  unfold String.utf8EncodeChar Char.toNat
  generalize c.val.toNat = n at hc ⊢
  by_cases h1 : n ≤ 0x7f
  · have h0 : (UInt8.ofNat n).toNat = n := toNat_ofNat (by omega)
    rw [if_pos h1]
    exact (Sequence.one (by omega)).of_eq h0
  · rw [if_neg h1]
    by_cases h2 : n ≤ 0x7ff
    · have h0 : (UInt8.ofNat (n / 64 % 0x20 + 0xc0)).toNat = n / 64 + 0xc0 := by
        rw [toNat_ofNat (by omega)]
        omega
      rw [if_pos h2]
      refine (Sequence.two (by omega) (tail_ofNat _)).of_eq ?_
      rw [value2, h0, toNat_ofNat (by omega)]
      omega
    · rw [if_neg h2]
      by_cases h3 : n ≤ 0xffff
      · have h0 : (UInt8.ofNat (n / 4096 % 0x10 + 0xe0)).toNat = n / 4096 + 0xe0 := by
          rw [toNat_ofNat (by omega)]
          omega
        rw [if_pos h3]
        refine (Sequence.three (by omega) (tail_ofNat _) (tail_ofNat _)).of_eq ?_
        rw [value3, h0, toNat_ofNat (by omega), toNat_ofNat (by omega)]
        omega
      · have h0 : (UInt8.ofNat (n / 262144 % 0x08 + 0xf0)).toNat = n / 262144 + 0xf0 := by
          rw [toNat_ofNat (by omega)]
          omega
        rw [if_neg h3]
        refine (Sequence.four (by omega) (tail_ofNat _) (tail_ofNat _) (tail_ofNat _)).of_eq ?_
        rw [value4, h0, toNat_ofNat (by omega), toNat_ofNat (by omega), toNat_ofNat (by omega)]
        omega

end Utf8
