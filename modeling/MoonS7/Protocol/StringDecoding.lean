import MoonS7.Lib.Utf8
import MoonS7.Protocol.Strings

/-!
# Reading STRINGs

What `decode_utf8` makes of any bytes. It goes by the lead byte alone: continuation bytes are not
tested, and neither is the code that comes out. So it reads every encoding right
(`utf8Codes_sequence`), and other bytes as surrogates, or as codes beyond the last character.

Main result: `string_scalars_iff` -- the bytes of a field of which all codes are characters.
-/

namespace MoonS7

open Utf8

/-! ## 1. The codes as arithmetic -/

section Head

variable {b0 b1 b2 b3 : UInt8} {bs : List UInt8}

theorem toInt_mask (b : UInt8) : toInt b &&& 0xFF = toInt b := by
  have := b.toNat_lt
  apply bits_inj
  rw [bits_mask (m := 8) (by decide), bits_byte]
  omega

/-- The comparisons of a lead byte. -/
theorem lead_lt {k : Int32} {n : Nat} (hk : k.toInt = n) (b : UInt8) :
    toInt b &&& 0xFF < k ↔ b.toNat < n := by
  have := b.toNat_lt
  rw [toInt_mask, Int32.lt_iff_toInt_lt, hk, toInt, toInt_ofNat_small (by omega)]
  omega

theorem lead_one (b : UInt8) : toInt b &&& 0xFF < 0x80 ↔ b.toNat < 0x80 := lead_lt rfl b

theorem lead_two (b : UInt8) : toInt b &&& 0xFF < 0xE0 ↔ b.toNat < 0xE0 := lead_lt rfl b

theorem lead_three (b : UInt8) : toInt b &&& 0xFF < 0xF0 ↔ b.toNat < 0xF0 := lead_lt rfl b

/-- The bits are moved to the left without a loss. -/
theorem bits_moved {mask k : Int32} {m n : Nat} (h : bits mask = 2 ^ m - 1)
    (hk : k.toBitVec.smod 32 = BitVec.ofNat 32 n) (hmn : m + n < 32) (b : UInt8) :
    bits ((toInt b &&& mask) <<< k) = b.toNat % 2 ^ m * 2 ^ n := by
  have hlt : b.toNat % 2 ^ m * 2 ^ n < 2 ^ m * 2 ^ n :=
    Nat.mul_lt_mul_of_pos_right (Nat.mod_lt _ (Nat.two_pow_pos m)) (Nat.two_pow_pos n)
  have hle : 2 ^ m * 2 ^ n ≤ 2 ^ 32 := by
    rw [← Nat.pow_add]
    exact Nat.pow_le_pow_right (by decide) (by omega)
  rw [bits_shiftLeft hk (by omega), bits_toInt_mask h, Nat.mod_eq_of_lt (by omega)]

theorem code2_eq (b0 b1 : UInt8) : code2 b0 b1 = Int32.ofNat (value2 b0 b1) := by
  have h0 : bits ((toInt b0 &&& 0x1F) <<< 6) = b0.toNat % 2 ^ 5 * 2 ^ 6 :=
    bits_moved (by decide) (by decide) (by decide) b0
  have h1 : bits (toInt b1 &&& 0x3F) = b1.toNat % 2 ^ 6 := bits_toInt_mask (by decide) b1
  apply bits_inj
  rw [code2, toInt_mask, bits_or, h0, h1, or_eq_add (by omega), bits_ofNat, value2]
  omega

theorem code3_eq (b0 b1 b2 : UInt8) : code3 b0 b1 b2 = Int32.ofNat (value3 b0 b1 b2) := by
  have h0 : bits ((toInt b0 &&& 0x0F) <<< 12) = b0.toNat % 2 ^ 4 * 2 ^ 12 :=
    bits_moved (by decide) (by decide) (by decide) b0
  have h1 : bits ((toInt b1 &&& 0x3F) <<< 6) = b1.toNat % 2 ^ 6 * 2 ^ 6 :=
    bits_moved (by decide) (by decide) (by decide) b1
  have h2 : bits (toInt b2 &&& 0x3F) = b2.toNat % 2 ^ 6 := bits_toInt_mask (by decide) b2
  have h01 : b0.toNat % 2 ^ 4 * 2 ^ 12 ||| b1.toNat % 2 ^ 6 * 2 ^ 6 =
      (b0.toNat % 2 ^ 4 * 64 + b1.toNat % 2 ^ 6) * 2 ^ 6 := or_shifted (m := 6) (n := 6) (by omega)
  apply bits_inj
  rw [code3, toInt_mask, bits_or, bits_or, h0, h1, h2, h01, or_eq_add (by omega), bits_ofNat, value3]
  omega

theorem code4_eq (b0 b1 b2 b3 : UInt8) : code4 b0 b1 b2 b3 = Int32.ofNat (value4 b0 b1 b2 b3) := by
  have h0 : bits ((toInt b0 &&& 0x07) <<< 18) = b0.toNat % 2 ^ 3 * 2 ^ 18 :=
    bits_moved (by decide) (by decide) (by decide) b0
  have h1 : bits ((toInt b1 &&& 0x3F) <<< 12) = b1.toNat % 2 ^ 6 * 2 ^ 12 :=
    bits_moved (by decide) (by decide) (by decide) b1
  have h2 : bits ((toInt b2 &&& 0x3F) <<< 6) = b2.toNat % 2 ^ 6 * 2 ^ 6 :=
    bits_moved (by decide) (by decide) (by decide) b2
  have h3 : bits (toInt b3 &&& 0x3F) = b3.toNat % 2 ^ 6 := bits_toInt_mask (by decide) b3
  have h01 : b0.toNat % 2 ^ 3 * 2 ^ 18 ||| b1.toNat % 2 ^ 6 * 2 ^ 12 =
      (b0.toNat % 2 ^ 3 * 64 + b1.toNat % 2 ^ 6) * 2 ^ 12 := or_shifted (m := 6) (n := 12) (by omega)
  have h012 : (b0.toNat % 2 ^ 3 * 64 + b1.toNat % 2 ^ 6) * 2 ^ 12 ||| b2.toNat % 2 ^ 6 * 2 ^ 6 =
      ((b0.toNat % 2 ^ 3 * 64 + b1.toNat % 2 ^ 6) * 64 + b2.toNat % 2 ^ 6) * 2 ^ 6 :=
    or_shifted (m := 6) (n := 6) (by omega)
  apply bits_inj
  rw [code4, toInt_mask, bits_or, bits_or, bits_or, h0, h1, h2, h3, h01, h012, or_eq_add (by omega),
    bits_ofNat, value4]
  omega

/-! ## 2. One character -/

theorem utf8Head_one (h : b0.toNat < 0x80) : utf8Head b0 bs = (some (Int32.ofNat b0.toNat), 1) := by
  unfold utf8Head
  simp only [lead_one, if_pos h]
  rw [toInt_mask]
  rfl

theorem utf8Head_two (h₀ : 0x80 ≤ b0.toNat) (h : b0.toNat < 0xE0) :
    utf8Head b0 (b1 :: bs) = (some (Int32.ofNat (value2 b0 b1)), 2) := by
  unfold utf8Head
  simp only [lead_one, lead_two, if_neg (Nat.not_lt.mpr h₀), if_pos h, code2_eq]

theorem utf8Head_three (h₀ : 0xE0 ≤ b0.toNat) (h : b0.toNat < 0xF0) :
    utf8Head b0 (b1 :: b2 :: bs) = (some (Int32.ofNat (value3 b0 b1 b2)), 3) := by
  have h1 : ¬ b0.toNat < 0x80 := by omega
  unfold utf8Head
  simp only [lead_one, lead_two, lead_three, if_neg h1, if_neg (Nat.not_lt.mpr h₀), if_pos h,
    code3_eq]

theorem utf8Head_four (h : 0xF0 ≤ b0.toNat) :
    utf8Head b0 (b1 :: b2 :: b3 :: bs) = (some (Int32.ofNat (value4 b0 b1 b2 b3)), 4) := by
  have h1 : ¬ b0.toNat < 0x80 := by omega
  have h2 : ¬ b0.toNat < 0xE0 := by omega
  unfold utf8Head
  simp only [lead_one, lead_two, lead_three, if_neg h1, if_neg h2, if_neg (Nat.not_lt.mpr h),
    code4_eq]

/-- Too few bytes for the character of a lead byte. -/
def Short (b0 : UInt8) (n : Nat) : Prop :=
  0x80 ≤ b0.toNat ∧ (n = 0 ∨ (0xE0 ≤ b0.toNat ∧ n = 1) ∨ (0xF0 ≤ b0.toNat ∧ n = 2))

theorem utf8Head_short (h : Short b0 bs.length) : utf8Head b0 bs = (none, 1) := by
  obtain ⟨h₀, h⟩ := h
  unfold utf8Head
  simp only [lead_one, lead_two, lead_three, if_neg (Nat.not_lt.mpr h₀)]
  rcases bs with _ | ⟨b1, _ | ⟨b2, _ | ⟨b3, bs⟩⟩⟩
  · rfl
  · simp only [List.length_cons, List.length_nil] at h
    simp only [if_neg (show ¬ b0.toNat < 0xE0 by omega)]
  · simp only [List.length_cons, List.length_nil] at h
    simp only [if_neg (show ¬ b0.toNat < 0xE0 by omega), if_neg (show ¬ b0.toNat < 0xF0 by omega)]
  · simp only [List.length_cons] at h
    omega

/-- What stands at a lead byte: a character of one to four bytes, or too few bytes. -/
theorem head_cases (b0 : UInt8) (bs : List UInt8) :
    b0.toNat < 0x80 ∨
    (0x80 ≤ b0.toNat ∧ b0.toNat < 0xE0 ∧ ∃ b1 rest, bs = b1 :: rest) ∨
    (0xE0 ≤ b0.toNat ∧ b0.toNat < 0xF0 ∧ ∃ b1 b2 rest, bs = b1 :: b2 :: rest) ∨
    (0xF0 ≤ b0.toNat ∧ ∃ b1 b2 b3 rest, bs = b1 :: b2 :: b3 :: rest) ∨
    Short b0 bs.length := by
  by_cases h1 : b0.toNat < 0x80
  · exact Or.inl h1
  · have hshort : (bs.length = 0 ∨ (0xE0 ≤ b0.toNat ∧ bs.length = 1) ∨
        (0xF0 ≤ b0.toNat ∧ bs.length = 2)) → Short b0 bs.length := fun h => ⟨Nat.le_of_not_lt h1, h⟩
    rcases bs with _ | ⟨b1, _ | ⟨b2, _ | ⟨b3, bs⟩⟩⟩
    · exact Or.inr (Or.inr (Or.inr (Or.inr (hshort (Or.inl rfl)))))
    · by_cases h2 : b0.toNat < 0xE0
      · exact Or.inr (Or.inl ⟨by omega, h2, _, _, rfl⟩)
      · exact Or.inr (Or.inr (Or.inr (Or.inr (hshort (Or.inr (Or.inl ⟨by omega, rfl⟩))))))
    · by_cases h2 : b0.toNat < 0xE0
      · exact Or.inr (Or.inl ⟨by omega, h2, _, _, rfl⟩)
      · by_cases h3 : b0.toNat < 0xF0
        · exact Or.inr (Or.inr (Or.inl ⟨by omega, h3, _, _, _, rfl⟩))
        · exact Or.inr (Or.inr (Or.inr (Or.inr (hshort (Or.inr (Or.inr ⟨by omega, rfl⟩))))))
    · by_cases h2 : b0.toNat < 0xE0
      · exact Or.inr (Or.inl ⟨by omega, h2, _, _, rfl⟩)
      · by_cases h3 : b0.toNat < 0xF0
        · exact Or.inr (Or.inr (Or.inl ⟨by omega, h3, _, _, _, rfl⟩))
        · exact Or.inr (Or.inr (Or.inr (Or.inl ⟨by omega, _, _, _, _, rfl⟩)))

/-- **An encoding is read right**, whatever is behind it. -/
theorem utf8Codes_sequence {n : Nat} (h : Sequence n bs) (rest : List UInt8) :
    utf8Codes 0 (bs ++ rest) = Int32.ofNat n :: utf8Codes 0 rest := by
  cases h with
  | one h =>
    rw [List.singleton_append, utf8Codes, utf8Head_one h]
    rfl
  | two h h₁ =>
    rw [List.cons_append, utf8Codes, List.cons_append, utf8Head_two (by omega) h.2]
    rfl
  | three h h₁ h₂ =>
    rw [List.cons_append, utf8Codes, List.cons_append, List.cons_append, utf8Head_three h.1 h.2]
    rfl
  | four h h₁ h₂ h₃ =>
    rw [List.cons_append, utf8Codes, List.cons_append, List.cons_append, List.cons_append,
      utf8Head_four h]
    rfl

end Head

/-! ## 3. Codes that are no characters -/

/-- A Unicode scalar value. -/
def IsScalar (c : Int32) : Prop :=
  0 ≤ c.toInt ∧ c.toInt ≤ 0x10FFFF ∧ ¬ (0xD800 ≤ c.toInt ∧ c.toInt ≤ 0xDFFF)

theorem isScalar_ofNat_iff {n : Nat} (h : n < 2 ^ 31) : IsScalar (Int32.ofNat n) ↔ n.isValidChar := by
  rw [IsScalar, toInt_ofNat_small h, Nat.isValidChar]
  omega

/-- The number of bytes `decode_utf8` takes at a lead byte `b0` with `n` bytes behind it. -/
def width (b0 : UInt8) (n : Nat) : Nat :=
  if b0.toNat < 0x80 then 1
  else if b0.toNat < 0xE0 ∧ 1 ≤ n then 2
  else if b0.toNat < 0xF0 ∧ 2 ≤ n then 3
  else if 3 ≤ n then 4
  else 1

/-- The bytes from `b0` on begin with a surrogate, or with a code beyond the last character: three
    bytes with the bits of `D800` and above, four with those of `110000` and above -- or with a
    surrogate in an overlong form. -/
def NoScalar (b0 : UInt8) : List UInt8 → Prop
  | b1 :: b2 :: bs =>
    (0xE0 ≤ b0.toNat ∧ b0.toNat < 0xF0 ∧ b0.toNat % 16 = 13 ∧ 32 ≤ b1.toNat % 64) ∨
    (0xF0 ≤ b0.toNat ∧ bs ≠ [] ∧ (4 < b0.toNat % 8 ∨ (b0.toNat % 8 = 4 ∧ 16 ≤ b1.toNat % 64) ∨
      (b0.toNat % 8 = 0 ∧ b1.toNat % 64 = 13 ∧ 32 ≤ b2.toNat % 64)))
  | _ => False

/-- Nowhere where a character begins stands one that is none; `n` bytes are still to skip. -/
def OnlyScalars : Nat → List UInt8 → Prop
  | _, [] => True
  | n + 1, _ :: bs => OnlyScalars n bs
  | 0, b0 :: bs => ¬ NoScalar b0 bs ∧ OnlyScalars (width b0 bs.length - 1) bs

section Scalars

variable {b0 : UInt8} {bs : List UInt8}

/-- Below `E0` no lead byte has a code that is none. -/
theorem not_noScalar_of_lt (h : b0.toNat < 0xE0) : ¬ NoScalar b0 bs := by
  rcases bs with _ | ⟨b1, _ | ⟨b2, bs⟩⟩
  · exact id
  · exact id
  · intro hn
    rcases hn with ⟨hn, -⟩ | ⟨hn, -⟩ <;> omega

theorem not_noScalar_of_short (h : Short b0 bs.length) : ¬ NoScalar b0 bs := by
  obtain ⟨-, h⟩ := h
  rcases bs with _ | ⟨b1, _ | ⟨b2, _ | ⟨b3, bs⟩⟩⟩
  · exact id
  · exact id
  · simp only [List.length_cons, List.length_nil] at h
    intro hn
    rcases hn with ⟨-, hn, -⟩ | ⟨-, hn, -⟩
    · omega
    · exact hn rfl
  · simp only [List.length_cons] at h
    omega

variable (b0 bs)

/-- **The code at a lead byte** is a character unless it is one of `NoScalar`. -/
theorem head_scalar_iff : (utf8Head b0 bs).2 = width b0 bs.length ∧
    ((∀ c ∈ (utf8Head b0 bs).1, IsScalar c) ↔ ¬ NoScalar b0 bs) := by
  have hsome : ∀ {n : Nat} {q : Prop}, n < 2 ^ 31 → (n.isValidChar ↔ q) →
      ((∀ c ∈ (some (Int32.ofNat n) : Option Int32), IsScalar c) ↔ q) := by
    intro n q hn hq
    rw [← hq, ← isScalar_ofNat_iff hn]
    exact ⟨fun h => h _ rfl, fun h c hc => by cases hc; exact h⟩
  rcases head_cases b0 bs with h | ⟨h₀, h, b1, rest, rfl⟩ | ⟨h₀, h, b1, b2, rest, rfl⟩ |
    ⟨h, b1, b2, b3, rest, rfl⟩ | h
  · rw [utf8Head_one h, width, if_pos h]
    exact ⟨rfl, hsome (by omega)
      ⟨fun _ => not_noScalar_of_lt (by omega), fun _ => valid_of_lt (by omega)⟩⟩
  · have hv := value2_lt b0 b1
    rw [utf8Head_two h₀ h, width, if_neg (by omega), if_pos ⟨h, Nat.succ_pos _⟩]
    exact ⟨rfl, hsome (by omega) ⟨fun _ => not_noScalar_of_lt h, fun _ => valid_of_lt (by omega)⟩⟩
  · have hv : value3 b0 b1 b2 < 2 ^ 31 := by
      rw [value3]
      omega
    have hno : NoScalar b0 (b1 :: b2 :: rest) ↔ b0.toNat % 16 = 13 ∧ 32 ≤ b1.toNat % 64 := by
      rw [NoScalar]
      omega
    rw [utf8Head_three h₀ h, width, if_neg (by omega), if_neg (by omega),
      if_pos ⟨h, by simp only [List.length_cons]; omega⟩, hno]
    exact ⟨rfl, hsome hv (valid_value3_iff b0 b1 b2)⟩
  · have hv : value4 b0 b1 b2 b3 < 2 ^ 31 := by
      rw [value4]
      omega
    have hne : b3 :: rest ≠ [] := List.cons_ne_nil _ _
    have hno : NoScalar b0 (b1 :: b2 :: b3 :: rest) ↔ 4 < b0.toNat % 8 ∨
        (b0.toNat % 8 = 4 ∧ 16 ≤ b1.toNat % 64) ∨
        (b0.toNat % 8 = 0 ∧ b1.toNat % 64 = 13 ∧ 32 ≤ b2.toNat % 64) := by
      simp only [NoScalar, ne_eq, hne, not_false_eq_true, true_and]
      omega
    rw [utf8Head_four h, width, if_neg (by omega), if_neg (by omega), if_neg (by omega),
      if_pos (by simp only [List.length_cons]; omega), hno]
    exact ⟨rfl, hsome hv (valid_value4_iff b0 b1 b2 b3)⟩
  · have hs := h.2
    have h₀ := h.1
    rw [utf8Head_short h, width, if_neg (by omega), if_neg (by omega), if_neg (by omega),
      if_neg (by omega)]
    exact ⟨rfl, fun _ => not_noScalar_of_short h, fun _ c hc => by cases hc⟩

/-- The codes of a list of bytes, one lead byte after the other. -/
theorem codes_scalar_iff (n : Nat) : (∀ c ∈ utf8Codes n bs, IsScalar c) ↔ OnlyScalars n bs := by
  induction n, bs using utf8Codes.induct with
  | case1 n =>
    rw [utf8Codes, OnlyScalars]
    exact ⟨fun _ => trivial, fun _ c hc => by cases hc⟩
  | case2 n b bs ih => exact ih
  | case3 b0 bs ih =>
    obtain ⟨hw, hhead⟩ := head_scalar_iff b0 bs
    rw [utf8Codes, OnlyScalars, ← hhead, ← hw, ← ih]
    simp only [List.mem_append, Option.mem_toList, Option.mem_def, or_imp, forall_and]

end Scalars

/-- The bytes of a STRING field that hold its characters. -/
def s7StringBody (data : List UInt8) : List UInt8 := (data.drop 2).take (data[1]?.elim 0 UInt8.toNat)

/-- The codes that are passed to `Char::from_int` are all characters: a string made of any codes
    is made of these. -/
def DecodesScalars (data : List UInt8) : Prop :=
  ∃ cs, decodeS7String (fun _ => true) data = .ok cs ∧ ∀ c ∈ cs, IsScalar c

theorem decodeS7String_all (data : List UInt8) :
    decodeS7String (fun _ => true) data = .ok (s7StringCodes data) := by
  have hall : (s7StringCodes data).all (fun _ => true) = true := by simp
  rw [decodeS7String_eq, if_pos hall]

/-- **A field is decoded to characters exactly if** at no lead byte stands a surrogate or a code
    beyond the last one. -/
theorem string_scalars_iff (data : List UInt8) :
    DecodesScalars data ↔ OnlyScalars 0 (s7StringBody data) := by
  rw [← codes_scalar_iff, DecodesScalars, decodeS7String_all]
  constructor
  · intro h
    obtain ⟨cs, hcs, hc⟩ := h
    cases hcs
    exact hc
  · intro h
    exact ⟨_, rfl, h⟩

/-- `ED A0 80` is read as the surrogate `D800`. -/
theorem string_scalars_refuted : ¬ ∀ data : List UInt8, DecodesScalars data := by
  intro h
  obtain ⟨cs, hcs, hc⟩ := h [3, 3, 0xED, 0xA0, 0x80]
  rw [decodeS7String_all] at hcs
  cases hcs
  obtain ⟨hn, -⟩ := (codes_scalar_iff [0xED, 0xA0, 0x80] 0).mp hc
  exact hn (Or.inl (by decide))

end MoonS7
