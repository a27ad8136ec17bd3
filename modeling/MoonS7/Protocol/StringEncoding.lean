import MoonS7.Lib.Records
import MoonS7.Protocol.StringDecoding

/-!
# Writing STRINGs

What `encode_s7_string` makes of a string of characters: their UTF-8 bytes, cut off after `max_len`
of them. A cut inside of a character leaves the beginning of an encoding, of which the decoder skips
the lead byte and goes on with the continuation bytes.

Main results: `stringField_roundTrip` -- a string that fits comes back; `truncation_iff` -- one that
does not is cut to its longest beginning unless three bytes of a character of four are left.
-/

namespace MoonS7

open Utf8 Records

/-- A string of the program that is made of characters. -/
def text (s : List Char) : Text := s.map fun c => Int32.ofNat c.toNat

/-! ## 1. The encoder is UTF-8 -/

/-- A byte of an encoding: the mark of its kind and the bits it carries. -/
theorem tb_marked {mark v : Int32} {x n m : Nat} (hmark : bits mark = x * 2 ^ n) (hv : bits v = m)
    (h : m < 2 ^ n) : tb (mark ||| v) = UInt8.ofNat (m + x * 2 ^ n) := by
  rw [tb_eq, bits_or, hmark, hv, or_eq_add h, Nat.add_comm]

theorem tb_tail (v : Int32) : tb ((0x80 : Int32) ||| (v &&& 0x3F)) = UInt8.ofNat (bits v % 64 + 0x80) :=
  tb_marked (x := 2) (n := 6) (by decide) (bits_mask (m := 6) (by decide) v) (Nat.mod_lt _ (by decide))

theorem tb_tail_field {k : Int32} {n : Nat} (hk : k.toBitVec.smod 32 = BitVec.ofNat 32 n) (hn : n ≤ 26)
    (v : Int32) : tb ((0x80 : Int32) ||| ((v >>> k) &&& 0x3F)) =
      UInt8.ofNat (bits v / 2 ^ n % 64 + 0x80) :=
  tb_marked (x := 2) (n := 6) (by decide)
    (bits_field hk (m := 6) (by decide) (by omega) (by omega) v) (Nat.mod_lt _ (by decide))

theorem utf8Char_eq (c : Char) : utf8Char (Int32.ofNat c.toNat) = String.utf8EncodeChar c := by
  have hc := Utf8.toNat_lt c
  unfold String.utf8EncodeChar Char.toNat
  generalize c.val.toNat = n at hc ⊢
  have hn : bits (Int32.ofNat n) = n := by
    rw [bits_ofNat]
    omega
  have hlt : ∀ {k : Int32} {m : Nat}, k.toInt = m → (Int32.ofNat n < k ↔ n < m) := by
    intro k m hk
    rw [Int32.lt_iff_toInt_lt, hk, toInt_ofNat_small (by omega)]
    omega
  simp only [utf8Char, hlt (k := 0x80) (m := 0x80) rfl, hlt (k := 0x800) (m := 0x800) rfl,
    hlt (k := 0x10000) (m := 0x10000) rfl]
  by_cases h1 : n ≤ 0x7f
  · rw [if_pos h1, if_pos (by omega), tb_eq, hn]
  · rw [if_neg h1, if_neg (by omega)]
    by_cases h2 : n ≤ 0x7ff
    · have hlead : tb ((0xC0 : Int32) ||| (Int32.ofNat n >>> 6)) =
          UInt8.ofNat (n / 64 % 0x20 + 0xc0) :=
        tb_marked (x := 3) (n := 6) (by decide)
          (by rw [bits_shiftRight (n := 6) (by decide) (by decide) (by omega), hn]; omega) (by omega)
      rw [if_pos h2, if_pos (by omega), hlead, tb_tail, hn]
    · rw [if_neg h2, if_neg (by omega)]
      by_cases h3 : n ≤ 0xffff
      · have hlead : tb ((0xE0 : Int32) ||| (Int32.ofNat n >>> 12)) =
            UInt8.ofNat (n / 4096 % 0x10 + 0xe0) :=
          tb_marked (x := 14) (n := 4) (by decide)
            (by rw [bits_shiftRight (n := 12) (by decide) (by decide) (by omega), hn]; omega)
            (by omega)
        rw [if_pos h3, if_pos (by omega), hlead,
          tb_tail_field (k := 6) (n := 6) (by decide) (by decide), tb_tail, hn]
        rfl
      · have hlead : tb ((0xF0 : Int32) ||| (Int32.ofNat n >>> 18)) =
            UInt8.ofNat (n / 262144 % 0x08 + 0xf0) :=
          tb_marked (x := 30) (n := 3) (by decide)
            (by rw [bits_shiftRight (n := 18) (by decide) (by decide) (by omega), hn]; omega)
            (by omega)
        rw [if_neg h3, if_neg (by omega), hlead,
          tb_tail_field (k := 6) (n := 6) (by decide) (by decide),
          tb_tail_field (k := 12) (n := 12) (by decide) (by decide), tb_tail, hn]
        rfl

theorem writeStringUtf8_text (s : List Char) : writeStringUtf8 (text s) = Utf8.bytes s := by
  rw [writeStringUtf8, text, Utf8.bytes, List.flatMap_map]
  exact List.flatMap_congr fun c _ => utf8Char_eq c

/-- **The characters of a string are read back**, whatever is behind them. -/
theorem utf8Codes_bytes (s : List Char) (rest : List UInt8) :
    utf8Codes 0 (Utf8.bytes s ++ rest) = text s ++ utf8Codes 0 rest := by
  induction s with
  | nil => rfl
  | cons c s ih =>
    rw [Utf8.bytes, List.flatMap_cons, List.append_assoc,
      utf8Codes_sequence (sequence_utf8EncodeChar c)]
    show _ :: utf8Codes 0 (Utf8.bytes s ++ rest) = _
    rw [ih]
    rfl

/-! ## 2. The bytes of a field -/

section Encode

variable {maxLen : Int32}

/-- The bytes of the characters that `max_len` leaves room for. -/
def fieldChars (maxLen : Int32) (s : List Char) : List UInt8 :=
  (Utf8.bytes s).take maxLen.toInt.toNat

theorem length_fieldChars_lt (h : 0 ≤ maxLen.toInt ∧ maxLen.toInt ≤ 255) (s : List Char) :
    (fieldChars maxLen s).length < 256 := by
  rw [fieldChars, List.length_take]
  omega

theorem encodeS7String_text (h : 0 ≤ maxLen.toInt ∧ maxLen.toInt ≤ 255) (s : List Char) :
    encodeS7String maxLen (text s) =
      [tb maxLen, UInt8.ofNat (fieldChars maxLen s).length] ++ fieldChars maxLen s := by
  have hcur : ∀ n : Nat, n < 256 → tb (Int32.ofNat n) = UInt8.ofNat n := by
    intro n hn
    rw [tb_eq, bits_ofNat, Nat.mod_eq_of_lt (by omega)]
  have hmax : maxLen = Int32.ofNat maxLen.toInt.toNat := by
    apply Int32.toInt_inj.mp
    rw [toInt_ofNat_small (by omega)]
    omega
  simp only [encodeS7String, writeStringUtf8_text]
  by_cases hlen : ((Utf8.bytes s).length : Int) > maxLen.toInt
  · have hl : (fieldChars maxLen s).length = maxLen.toInt.toNat := by
      rw [fieldChars, List.length_take]
      omega
    rw [if_pos hlen, hl, ← hcur _ (by omega), ← hmax]
    rfl
  · have hl : fieldChars maxLen s = Utf8.bytes s := List.take_of_length_le (by omega)
    rw [if_neg hlen, hl, hcur _ (by omega), toInt_ofNat_small (by omega), Int.toNat_natCast,
      List.take_length]

/-- **A field is read up to its length byte**, whatever is behind its characters. -/
theorem s7StringCodes_field (b0 : UInt8) {body : List UInt8} (h : body.length < 256)
    (rest : List UInt8) :
    s7StringCodes ([b0, UInt8.ofNat body.length] ++ body ++ rest) = utf8Codes 0 body := by
  have hlen : (UInt8.ofNat body.length).toNat = body.length := toNat_ofNat h
  show utf8Codes 0 ((body ++ rest).take (UInt8.ofNat body.length).toNat) = _
  rw [hlen, List.take_left]

theorem decode_text {takes : Int32 → Bool} (htakes : ∀ c : Char, takes (Int32.ofNat c.toNat) = true)
    {data : List UInt8} {s : List Char} (h : s7StringCodes data = text s) :
    decodeS7String takes data = .ok (text s) := by
  have hall : (text s).all takes = true := by
    rw [List.all_eq_true]
    intro c hc
    obtain ⟨c, -, rfl⟩ := List.mem_map.mp hc
    exact htakes c
  rw [decodeS7String_eq, h, if_pos hall]

/-- **A string that fits comes back**: the field is as long as `max_len` says, with zeros behind the
    characters. -/
theorem stringField_roundTrip {takes : Int32 → Bool}
    (htakes : ∀ c : Char, takes (Int32.ofNat c.toNat) = true) (db byteOff : Int32)
    (h : 0 ≤ maxLen.toInt ∧ maxLen.toInt ≤ 255) {s : List Char}
    (hs : (Utf8.bytes s).length ≤ maxLen.toInt) :
    ∃ data f, (StringField.new db byteOff maxLen (text s)).toBytes = data ∧
      data = [UInt8.ofNat maxLen.toInt.toNat, UInt8.ofNat (Utf8.bytes s).length] ++ Utf8.bytes s ++
        List.replicate (maxLen.toInt.toNat - (Utf8.bytes s).length) 0 ∧
      data.length = maxLen.toInt.toNat + 2 ∧
      StringField.fromBytes takes db byteOff maxLen data = .ok f ∧ f.value = text s := by
  have hbody : fieldChars maxLen s = Utf8.bytes s := List.take_of_length_le (by omega)
  have hlt := length_fieldChars_lt h s
  have hmax : tb maxLen = UInt8.ofNat maxLen.toInt.toNat := by
    rw [tb_eq, bits_of_nonneg h.1]
  have hsum : (maxLen + 2).toInt.toNat = maxLen.toInt.toNat + 2 := by
    have hbits : bits (maxLen + 2) = maxLen.toInt.toNat + 2 := by
      rw [bits_add, bits_of_nonneg h.1, show bits 2 = 2 by decide]
      omega
    rw [toInt_eq_bits (by omega), Int.toNat_natCast, hbits]
  have hdata : (StringField.new db byteOff maxLen (text s)).toBytes =
      [UInt8.ofNat maxLen.toInt.toNat, UInt8.ofNat (Utf8.bytes s).length] ++ Utf8.bytes s ++
        List.replicate (maxLen.toInt.toNat - (Utf8.bytes s).length) 0 := by
    rw [StringField.toBytes]
    simp only [StringField.new, encodeS7String_text h, hbody, hmax, hsum]
    rw [List.length_append]
    congr 2
    simp only [List.length_cons, List.length_nil]
    omega
  have hcodes : s7StringCodes ([UInt8.ofNat maxLen.toInt.toNat, UInt8.ofNat (Utf8.bytes s).length] ++
      Utf8.bytes s ++ List.replicate (maxLen.toInt.toNat - (Utf8.bytes s).length) 0) = text s := by
    rw [hbody] at hlt
    rw [s7StringCodes_field _ hlt, ← List.append_nil (Utf8.bytes s), utf8Codes_bytes]
    exact List.append_nil _
  refine ⟨_, ⟨db, byteOff, maxLen, text s⟩, hdata, rfl, ?_, ?_, rfl⟩
  · rw [List.length_append, List.length_append, List.length_replicate]
    simp only [List.length_cons, List.length_nil]
    omega
  · rw [StringField.fromBytes, decode_text htakes hcodes]
    rfl

theorem stringField_roundTrip_cafe :
    ∃ data f, (StringField.new 1 0 6 (text ['c', 'a', 'f', 'é'])).toBytes = data ∧
      data = [UInt8.ofNat 6, UInt8.ofNat (Utf8.bytes ['c', 'a', 'f', 'é']).length] ++
        Utf8.bytes ['c', 'a', 'f', 'é'] ++
        List.replicate (6 - (Utf8.bytes ['c', 'a', 'f', 'é']).length) 0 ∧
      data.length = 6 + 2 ∧ StringField.fromBytes (fun _ => true) 1 0 6 data = .ok f ∧
      f.value = text ['c', 'a', 'f', 'é'] :=
  stringField_roundTrip (fun _ => rfl) 1 0 (by decide) (by decide)

end Encode

/-! ## 3. A cut inside of a character -/

section Cut

variable {b0 : UInt8} {bs : List UInt8}

/-- A lead byte whose character is cut off is skipped. -/
theorem utf8Codes_short (h : Short b0 bs.length) : utf8Codes 0 (b0 :: bs) = utf8Codes 0 bs := by
  rw [utf8Codes, utf8Head_short h]
  rfl

/-- **Of the beginning of an encoding** nothing is read, unless it is three bytes: behind the lead
    byte are two continuation bytes then, which are taken for a character of their own. -/
theorem utf8Codes_cut {n : Nat} (h : Sequence n bs) {k : Nat} (hk : k < bs.length) :
    utf8Codes 0 (bs.take k) = [] ↔ k ≠ 3 := by
  have htail : ∀ {b : UInt8}, Tail b → utf8Codes 0 [b] = [] := fun hb =>
    utf8Codes_short ⟨hb.1, Or.inl rfl⟩
  cases h with
  | one h =>
    obtain rfl : k = 0 := Nat.lt_one_iff.mp hk
    exact ⟨fun _ => by decide, fun _ => rfl⟩
  | @two b0 b1 h h₁ =>
    have hlead : utf8Codes 0 [b0] = [] := utf8Codes_short ⟨by omega, Or.inl rfl⟩
    have hk : k < 2 := hk
    obtain rfl | rfl : k = 0 ∨ k = 1 := by omega
    · exact ⟨fun _ => by decide, fun _ => rfl⟩
    · exact ⟨fun _ => by decide, fun _ => hlead⟩
  | @three b0 b1 b2 h h₁ h₂ =>
    have hlead : utf8Codes 0 [b0] = [] := utf8Codes_short ⟨by omega, Or.inl rfl⟩
    have hlead₂ : utf8Codes 0 [b0, b1] = [] := by
      rw [utf8Codes_short ⟨by omega, Or.inr (Or.inl ⟨h.1, rfl⟩)⟩]
      exact htail h₁
    have hk : k < 3 := hk
    obtain rfl | rfl | rfl : k = 0 ∨ k = 1 ∨ k = 2 := by omega
    · exact ⟨fun _ => by decide, fun _ => rfl⟩
    · exact ⟨fun _ => by decide, fun _ => hlead⟩
    · exact ⟨fun _ => by decide, fun _ => hlead₂⟩
  | @four b0 b1 b2 b3 h h₁ h₂ h₃ =>
    have hlead : utf8Codes 0 [b0] = [] := utf8Codes_short ⟨by omega, Or.inl rfl⟩
    have hlead₂ : utf8Codes 0 [b0, b1] = [] := by
      rw [utf8Codes_short ⟨by omega, Or.inr (Or.inl ⟨by omega, rfl⟩)⟩]
      exact htail h₁
    have hlead₃ : utf8Codes 0 [b0, b1, b2] ≠ [] := by
      have hb1 := h₁.2
      rw [utf8Codes_short ⟨by omega, Or.inr (Or.inr ⟨h, rfl⟩)⟩, utf8Codes,
        utf8Head_two h₁.1 (by omega)]
      exact List.cons_ne_nil _ _
    have hk : k < 4 := hk
    obtain rfl | rfl | rfl | rfl : k = 0 ∨ k = 1 ∨ k = 2 ∨ k = 3 := by omega
    · exact ⟨fun _ => by decide, fun _ => rfl⟩
    · exact ⟨fun _ => by decide, fun _ => hlead⟩
    · exact ⟨fun _ => by decide, fun _ => hlead₂⟩
    · exact ⟨fun he => absurd he hlead₃, fun hne => absurd rfl hne⟩

/-- Three bytes of a character of four are left. -/
def CutAfterThree (n : Nat) (s : List Char) : Prop :=
  ∃ p c rest, s = p ++ c :: rest ∧ c.utf8Size = 4 ∧ (Utf8.bytes p).length + 3 = n

/-- **What is read of a string that is cut off**: the characters that fit, and nothing else unless
    the cut leaves three bytes of four. -/
theorem utf8Codes_take (n : Nat) (s : List Char) :
    ∃ cs, utf8Codes 0 ((Utf8.bytes s).take n) = text (fitting String.utf8EncodeChar n s) ++ cs ∧
      (cs = [] ↔ ¬ CutAfterThree n s) := by
  refine ⟨utf8Codes 0 (cutOff String.utf8EncodeChar n s), ?_, ?_⟩
  · rw [Utf8.bytes, take_flatMap]
    exact utf8Codes_bytes _ _
  · have hcut : CutAfterThree n s → ∃ p c rest, s = p ++ c :: rest ∧
        fitting String.utf8EncodeChar n s = p ∧ (Utf8.bytes p).length + 3 = n := by
      intro h
      obtain ⟨p, c, rest, rfl, hc, hn⟩ := h
      have hp : Longest String.utf8EncodeChar n (p ++ c :: rest) p :=
        Longest.of_cut (show (Utf8.bytes p).length ≤ n by omega) (by
          rw [String.length_utf8EncodeChar, hc]
          show n < (Utf8.bytes p).length + 4
          omega)
      exact ⟨p, c, rest, rfl, (fitting_longest _ n _).unique hp, hn⟩
    rcases cutOff_cases String.utf8EncodeChar n s with
      ⟨hall, hoff, -⟩ | ⟨p, c, rest, k, hs, hfit, hn, hk, hoff⟩
    · rw [hoff]
      refine ⟨fun _ h => ?_, fun _ => rfl⟩
      obtain ⟨p, c, rest, hs, hfit, -⟩ := hcut h
      have hp : s = p := by rw [← hfit, hall]
      have hlen := congrArg List.length hs
      rw [hp, List.length_append, List.length_cons] at hlen
      omega
    · have hn : (Utf8.bytes p).length + k = n := hn
      have hthree : CutAfterThree n s ↔ k = 3 := by
        constructor
        · intro h
          obtain ⟨p', c', rest', -, hfit', hn'⟩ := hcut h
          rw [hfit] at hfit'
          rw [← hfit'] at hn'
          omega
        · intro h
          rw [String.length_utf8EncodeChar] at hk
          have := c.utf8Size_le_four
          exact ⟨p, c, rest, hs, by omega, by omega⟩
      rw [hoff, utf8Codes_cut (sequence_utf8EncodeChar c) hk, hthree]

theorem s7StringCodes_encode {maxLen : Int32} (h : 0 ≤ maxLen.toInt ∧ maxLen.toInt ≤ 255)
    (s : List Char) : s7StringCodes (encodeS7String maxLen (text s)) =
      utf8Codes 0 ((Utf8.bytes s).take maxLen.toInt.toNat) := by
  have hfield := s7StringCodes_field (tb maxLen) (length_fieldChars_lt h s) []
  rw [List.append_nil] at hfield
  rw [encodeS7String_text h]
  exact hfield

/-- **A string that is cut off is read back as its longest beginning** of whole characters exactly
    if the cut does not leave three bytes of a character of four. -/
theorem truncation_iff {takes : Int32 → Bool}
    (htakes : ∀ c : Char, takes (Int32.ofNat c.toNat) = true) {maxLen : Int32}
    (h : 0 ≤ maxLen.toInt ∧ maxLen.toInt ≤ 255) (s : List Char) :
    (∃ p, decodeS7String takes (encodeS7String maxLen (text s)) = .ok (text p) ∧
      Longest String.utf8EncodeChar maxLen.toInt.toNat s p) ↔
    ¬ CutAfterThree maxLen.toInt.toNat s := by
  obtain ⟨cs, hcs, hcut⟩ := utf8Codes_take maxLen.toInt.toNat s
  have hcodes := (s7StringCodes_encode h s).trans hcs
  have hfit := fitting_longest String.utf8EncodeChar maxLen.toInt.toNat s
  rw [← hcut]
  constructor
  · intro hp
    obtain ⟨p, hp, hlong⟩ := hp
    rw [decodeS7String_eq, hcodes, hlong.unique hfit] at hp
    split at hp
    · exact List.append_right_eq_self.mp (Except.ok.inj hp)
    · cases hp
  · intro h
    rw [h, List.append_nil] at hcodes
    exact ⟨_, decode_text htakes hcodes, hfit⟩

theorem truncation_iff_whole :
    (∃ p, decodeS7String (fun _ => true) (encodeS7String 4 (text ['a', 'b', '€'])) = .ok (text p) ∧
      Longest String.utf8EncodeChar 4 ['a', 'b', '€'] p) ↔ ¬ CutAfterThree 4 ['a', 'b', '€'] :=
  truncation_iff (fun _ => rfl) (by decide) _

/-- Of `F0 9F 98 80` three bytes are left, and `9F 98` is read as the character `7D8`. -/
theorem truncation_refuted :
    ¬ ∀ (takes : Int32 → Bool) (maxLen : Int32) (s : List Char),
      (∀ c : Char, takes (Int32.ofNat c.toNat) = true) → 0 ≤ maxLen.toInt ∧ maxLen.toInt ≤ 255 →
      ∃ p, decodeS7String takes (encodeS7String maxLen (text s)) = .ok (text p) ∧
        Longest String.utf8EncodeChar maxLen.toInt.toNat s p := by
  intro h
  obtain ⟨p, hp, hlong⟩ := h (fun _ => true) 3 ['😀'] (fun _ => rfl) (by decide)
  have hread : s7StringCodes (encodeS7String 3 (text ['😀'])) = [0x7D8] := by decide
  rw [decodeS7String_all, hread] at hp
  obtain ⟨t, ht⟩ := hlong.isPrefix
  cases p with
  | nil => cases hp
  | cons c p =>
    rw [List.cons_append, List.cons.injEq] at ht
    obtain ⟨rfl, ht⟩ := ht
    obtain ⟨rfl, -⟩ := List.append_eq_nil_iff.mp ht
    exact absurd hlong.fits (by decide)

end Cut

end MoonS7
