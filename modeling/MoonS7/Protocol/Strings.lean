import MoonS7.Protocol.Services

/-!
# STRING fields (`protocol/s7comm.mbt`, 97-160, and `protocol/field.mbt`, 461-517)

A STRING of a data block is `[max_len, cur_len, chars...]` with the characters in UTF-8. A string
of the program is a list of character codes. `takes` says which codes `String::from_array` of the
core library accepts; the program aborts on another.

Main results: `decodeUtf8_eq` and `decodeS7String_eq` -- the decoder reads no byte past the end, and
returns the codes of `utf8Codes` unless one of them is refused.
-/

namespace MoonS7

/-! ## 1. Encoding -/

/-- The UTF-8 bytes of a character. -/
def utf8Char (c : Int32) : List UInt8 :=
  if c < 0x80 then [tb c]
  else if c < 0x800 then [tb ((0xC0 : Int32) ||| (c >>> 6)), tb ((0x80 : Int32) ||| (c &&& 0x3F))]
  else if c < 0x10000 then
    [tb ((0xE0 : Int32) ||| (c >>> 12)), tb ((0x80 : Int32) ||| ((c >>> 6) &&& 0x3F)), tb ((0x80 : Int32) ||| (c &&& 0x3F))]
  else [tb ((0xF0 : Int32) ||| (c >>> 18)), tb ((0x80 : Int32) ||| ((c >>> 12) &&& 0x3F)),
    tb ((0x80 : Int32) ||| ((c >>> 6) &&& 0x3F)), tb ((0x80 : Int32) ||| (c &&& 0x3F))]

/-- `Buffer::write_string_utf8`. -/
def writeStringUtf8 (s : Text) : List UInt8 := s.flatMap utf8Char

def encodeS7String (maxLen : Int32) (s : Text) : List UInt8 :=
  let chars := writeStringUtf8 s
  let cur := if (chars.length : Int) > maxLen.toInt then maxLen else Int32.ofNat chars.length
  [tb maxLen, tb cur] ++ chars.take cur.toInt.toNat

/-! ## 2. Decoding -/

/-- The loop of `decode_utf8` from place `i` on. -/
def decodeUtf8Loop (b : List UInt8) (i : Nat) (chars : Text) : S7Result Text :=
  if _h : i < b.length then do
    let c0 := toInt (← byteAt b i) &&& 0xFF
    if c0 < 0x80 then decodeUtf8Loop b (i + 1) (chars ++ [c0])
    else if c0 < 0xE0 ∧ i + 1 < b.length then do
      let cp := ((c0 &&& 0x1F) <<< 6) ||| (toInt (← byteAt b (i + 1)) &&& 0x3F)
      decodeUtf8Loop b (i + 2) (chars ++ [cp])
    else if c0 < 0xF0 ∧ i + 2 < b.length then do
      let cp := ((c0 &&& 0x0F) <<< 12) ||| ((toInt (← byteAt b (i + 1)) &&& 0x3F) <<< 6) |||
        (toInt (← byteAt b (i + 2)) &&& 0x3F)
      decodeUtf8Loop b (i + 3) (chars ++ [cp])
    else if i + 3 < b.length then do
      let cp := ((c0 &&& 0x07) <<< 18) ||| ((toInt (← byteAt b (i + 1)) &&& 0x3F) <<< 12) |||
        ((toInt (← byteAt b (i + 2)) &&& 0x3F) <<< 6) ||| (toInt (← byteAt b (i + 3)) &&& 0x3F)
      decodeUtf8Loop b (i + 4) (chars ++ [cp])
    else decodeUtf8Loop b (i + 1) chars
  else .ok chars
termination_by b.length - i

/-- `String::from_array`. -/
def stringFromArray (takes : Int32 → Bool) (chars : Text) : S7Result Text :=
  if chars.all takes then .ok chars else .error .abort

def decodeUtf8 (takes : Int32 → Bool) (b : List UInt8) : S7Result Text := do
  stringFromArray takes (← decodeUtf8Loop b 0 [])

def decodeS7String (takes : Int32 → Bool) (data : List UInt8) : S7Result Text :=
  if data.length < 2 then .ok []
  else do
    let cur := (toInt (← byteAt data 1)).toInt.toNat
    let avail := data.length - 2
    let n := if cur > avail then avail else cur
    decodeUtf8 takes ((data.drop 2).take n)

/-! ## 3. The codes of a list of bytes -/

/-- The code of a character of two, three and four bytes. -/
def code2 (b0 b1 : UInt8) : Int32 :=
  (((toInt b0 &&& 0xFF) &&& 0x1F) <<< 6) ||| (toInt b1 &&& 0x3F)

def code3 (b0 b1 b2 : UInt8) : Int32 :=
  (((toInt b0 &&& 0xFF) &&& 0x0F) <<< 12) ||| ((toInt b1 &&& 0x3F) <<< 6) ||| (toInt b2 &&& 0x3F)

def code4 (b0 b1 b2 b3 : UInt8) : Int32 :=
  (((toInt b0 &&& 0xFF) &&& 0x07) <<< 18) ||| ((toInt b1 &&& 0x3F) <<< 12) |||
    ((toInt b2 &&& 0x3F) <<< 6) ||| (toInt b3 &&& 0x3F)

/-- The first character of a list of bytes that is not empty, if there is one, and the number of
    bytes it takes: a lead byte whose character is cut off is skipped. -/
def utf8Head (b0 : UInt8) (bs : List UInt8) : Option Int32 × Nat :=
  let c0 := toInt b0 &&& 0xFF
  if c0 < 0x80 then (some c0, 1)
  else match bs with
    | [] => (none, 1)
    | b1 :: bs =>
      if c0 < 0xE0 then (some (code2 b0 b1), 2)
      else match bs with
        | [] => (none, 1)
        | b2 :: bs =>
          if c0 < 0xF0 then (some (code3 b0 b1 b2), 3)
          else match bs with
            | [] => (none, 1)
            | b3 :: _ => (some (code4 b0 b1 b2 b3), 4)

/-- The codes that `decode_utf8` passes to `Char::from_int`, with `n` for the bytes still to skip. -/
def utf8Codes : Nat → List UInt8 → Text
  | _, [] => []
  | n + 1, _ :: bs => utf8Codes n bs
  | 0, b0 :: bs => (utf8Head b0 bs).1.toList ++ utf8Codes ((utf8Head b0 bs).2 - 1) bs

section Codes

theorem byteAt_drop (b : List UInt8) (i k : Nat) : byteAt (b.drop i) k = byteAt b (i + k) := by
  rw [byteAt, byteAt, List.getElem?_drop]

theorem utf8Codes_skip (n : Nat) (bs : List UInt8) : utf8Codes n bs = utf8Codes 0 (bs.drop n) := by
  induction n generalizing bs with
  | zero => rfl
  | succ n ih =>
    cases bs with
    | nil => rfl
    | cons b bs => exact ih bs

theorem utf8Head_pos (b0 : UInt8) (bs : List UInt8) : 0 < (utf8Head b0 bs).2 := by
  unfold utf8Head
  simp only
  repeat' split
  all_goals exact Nat.succ_pos _

/-- **One turn of the loop** takes one character off the rest of the bytes, or skips a byte. -/
theorem decodeUtf8Loop_step {b bs : List UInt8} {i : Nat} {b0 : UInt8} (h : b.drop i = b0 :: bs)
    (chars : Text) : decodeUtf8Loop b i chars =
      decodeUtf8Loop b (i + (utf8Head b0 bs).2) (chars ++ (utf8Head b0 bs).1.toList) := by
  have hlen : b.length - i = bs.length + 1 := by rw [← List.length_drop, h, List.length_cons]
  have hi : i < b.length := by omega
  have hb0 : byteAt b i = .ok b0 := by rw [← Nat.add_zero i, ← byteAt_drop, h]; rfl
  have hat : ∀ k, byteAt b (i + (k + 1)) = byteAt bs k := by
    intro k
    rw [← byteAt_drop, h, byteAt, byteAt, List.getElem?_cons_succ]
  conv_lhs => rw [decodeUtf8Loop]
  rw [dif_pos hi, hb0, ok_bind, hat 0, hat 1, hat 2]
  unfold utf8Head
  simp only
  by_cases h1 : toInt b0 &&& 0xFF < 0x80
  · rw [if_pos h1, if_pos h1]
    rfl
  · rw [if_neg h1, if_neg h1]
    -- the bytes that the character needs are there, or the list ends before
    rcases bs with _ | ⟨b1, bs⟩
    · rw [List.length_nil] at hlen
      rw [if_neg (by omega), if_neg (by omega), if_neg (by omega)]
      simp
    rw [List.length_cons] at hlen
    by_cases h2 : toInt b0 &&& 0xFF < 0xE0
    · rw [if_pos ⟨h2, by omega⟩]
      simp only [if_pos h2]
      rfl
    rw [if_neg (fun h => h2 h.1)]
    simp only [if_neg h2]
    rcases bs with _ | ⟨b2, bs⟩
    · rw [List.length_nil] at hlen
      rw [if_neg (by omega), if_neg (by omega)]
      simp
    rw [List.length_cons] at hlen
    by_cases h3 : toInt b0 &&& 0xFF < 0xF0
    · rw [if_pos ⟨h3, by omega⟩]
      simp only [if_pos h3]
      rfl
    rw [if_neg (fun h => h3 h.1)]
    simp only [if_neg h3]
    rcases bs with _ | ⟨b3, bs⟩
    · rw [List.length_nil] at hlen
      rw [if_neg (by omega)]
      simp
    · rw [List.length_cons] at hlen
      rw [if_pos (by omega)]
      rfl

/-- **The loop of `decode_utf8`** ends with the codes of the bytes from place `i` on. -/
theorem decodeUtf8Loop_eq (b : List UInt8) (i : Nat) (chars : Text) :
    decodeUtf8Loop b i chars = .ok (chars ++ utf8Codes 0 (b.drop i)) := by
  induction hm : b.length - i using Nat.strongRecOn generalizing i chars with
  | ind m ih =>
    cases hd : b.drop i with
    | nil =>
      have hle : b.length ≤ i := List.drop_eq_nil_iff.mp hd
      rw [decodeUtf8Loop, dif_neg (by omega), utf8Codes, List.append_nil]
    | cons b0 bs =>
      have hlt : i < b.length := by
        by_contra hge
        rw [List.drop_eq_nil_of_le (by omega)] at hd
        cases hd
      have hpos := utf8Head_pos b0 bs
      have hbs : bs = b.drop (i + 1) := by
        rw [← List.drop_drop, hd]
        rfl
      have hrest : bs.drop ((utf8Head b0 bs).2 - 1) = b.drop (i + (utf8Head b0 bs).2) := by
        conv_lhs => rw [hbs, List.drop_drop]
        rw [← hbs]
        congr 1
        omega
      rw [decodeUtf8Loop_step hd, ih _ (by omega) _ _ rfl, utf8Codes, utf8Codes_skip _ bs, hrest,
        List.append_assoc]

theorem decodeUtf8_eq (takes : Int32 → Bool) (b : List UInt8) :
    decodeUtf8 takes b = stringFromArray takes (utf8Codes 0 b) := by
  rw [decodeUtf8, decodeUtf8Loop_eq, ok_bind, List.nil_append, List.drop_zero]

/-- The codes of a STRING field: as many bytes as its length byte says, if there are so many. -/
def s7StringCodes (data : List UInt8) : Text :=
  utf8Codes 0 ((data.drop 2).take (data[1]?.elim 0 UInt8.toNat))

/-- **A STRING field is decoded** to its codes; the program aborts exactly if one is refused. -/
theorem decodeS7String_eq (takes : Int32 → Bool) (data : List UInt8) :
    decodeS7String takes data =
      if (s7StringCodes data).all takes then .ok (s7StringCodes data) else .error .abort := by
  unfold decodeS7String
  by_cases hlen : data.length < 2
  · have hc : s7StringCodes data = [] := by
      unfold s7StringCodes
      rw [List.drop_eq_nil_of_le (by omega), List.take_nil]
      rfl
    rw [if_pos hlen, hc]
    rfl
  · obtain ⟨b1, h1, h1'⟩ := byteAt_of_lt (show 1 < data.length by omega)
    have hcur : (toInt b1).toInt.toNat = b1.toNat := by
      have := b1.toNat_lt
      rw [toInt, toInt_ofNat_small (by omega), Int.toNat_natCast]
    have htake : (data.drop 2).take
        (if b1.toNat > data.length - 2 then data.length - 2 else b1.toNat) =
        (data.drop 2).take b1.toNat := by
      by_cases hgt : b1.toNat > data.length - 2
      · rw [if_pos hgt, List.take_of_length_le (by rw [List.length_drop]),
          List.take_of_length_le (by rw [List.length_drop]; omega)]
      · rw [if_neg hgt]
    have hcodes : s7StringCodes data = utf8Codes 0 ((data.drop 2).take b1.toNat) := by
      unfold s7StringCodes
      rw [h1]
      rfl
    rw [if_neg hlen, h1', ok_bind]
    simp only [hcur]
    rw [htake, decodeUtf8_eq, ← hcodes, stringFromArray]

end Codes

/-! ## 4. The field -/

structure StringField where
  dbNum : Int32
  byteOffset : Int32
  maxLen : Int32
  value : Text

def StringField.new (db byteOff maxLen : Int32) (value : Text) : StringField :=
  { dbNum := db, byteOffset := byteOff, maxLen, value }

/-- Padded with zeros to `max_len + 2` bytes. -/
def StringField.toBytes (self : StringField) : List UInt8 :=
  let b := encodeS7String self.maxLen self.value
  b ++ List.replicate ((self.maxLen + 2).toInt.toNat - b.length) 0x00

def StringField.fromBytes (takes : Int32 → Bool) (db byteOff maxLen : Int32) (data : List UInt8) :
    S7Result StringField := do
  let value ← decodeS7String takes data
  .ok { dbNum := db, byteOffset := byteOff, maxLen, value }

end MoonS7
