import MoonS7.Lib.Double
import MoonS7.Lib.Ieee754
import MoonS7.Lib.Loops
import MoonS7.Protocol.Bytes

/-!
# REAL fields (`protocol/field.mbt`, 252-459)

The fields of four and of eight bytes that hold a floating-point number, and the helpers that take
such a number apart and put it together. A `Double` is an exact rational here: the halvings, the
doublings and the scalings of the helpers do not round. `pow2` and `ilog2_floor` are written for any
arithmetic, because it matters to them where powers of two overflow (`BinaryExponent`). The loops of
`ilog2_floor` are given fuel.

Main results: `pow2_eq`, `ilog2Floor_returns` (the loops find the binary exponent of every positive
rational) and `ilog2Floor_diverges` (of `+∞` they do not), `f32FromBytes_eq` and `f64FromBytes_eq`
(what the decoders make of the three fields), `f32ToBytes_returns` (what the encoder makes of a
rational).
-/

namespace MoonS7

open BigEndian Ieee754 Loops

/-! ## 1. The helpers -/

section Helpers

variable {D : Type} [OfNat D 1] [OfNat D 2] [Mul D] [Div D]

def pow2 (e : Int32) : D :=
  let n := if e < 0 then -e else e
  let r := (fun r : D => r * 2)^[n.toInt.toNat] 1
  if e < 0 then 1 / r else r

/-- The two variables of `ilog2_floor`. -/
structure Log2 (D : Type) where
  v : D
  n : Int32

/-- `v >= 2.0`. -/
def tooLarge [LE D] [DecidableLE D] (s : Log2 D) : Bool := decide (2 ≤ s.v)

def halve (s : Log2 D) : Log2 D := ⟨s.v / 2, s.n + 1⟩

/-- `v < 1.0`. -/
def tooSmall [LT D] [DecidableLT D] (s : Log2 D) : Bool := decide (s.v < 1)

def twice (s : Log2 D) : Log2 D := ⟨s.v * 2, s.n - 1⟩

def ilog2Floor [LT D] [DecidableLT D] [LE D] [DecidableLE D] (x : D) (fuel : Nat) : Option Int32 := do
  let s ← whileLoop tooLarge halve fuel ⟨x, 0⟩
  let s ← whileLoop tooSmall twice fuel s
  return s.n

end Helpers

/-- The rest of `f32_from_bytes`, with the four bytes in one word. -/
def f32OfBits (bits : Int32) : Double :=
  let sign : Double := if bits &&& 0x80000000 ≠ 0 then -1 else 1
  let exp := ((bits >>> 23) &&& 0xFF) - 127
  let mant := Double.ofInt32 (bits &&& 0x7FFFFF)
  if exp = -127 ∧ mant.beq 0 then 0
  else if exp = 128 then (if Double.blt 0 sign then 1 / 0 else -1 / 0)
  else
    let mv := 1 + mant / 8388608
    sign * mv * pow2 exp

def f32FromBytes (b : List UInt8) : S7Result Double := do
  let b0 ← byteAt b 0
  let b1 ← byteAt b 1
  let b2 ← byteAt b 2
  let b3 ← byteAt b 3
  .ok (f32OfBits (be32 b0 b1 b2 b3))

/-- The two encoders, with `zero` for the bytes of zero and `enc` for what they make of the sign,
    the binary exponent and the magnitude. -/
def encodeReal (zero : List UInt8) (enc : Int32 → Int32 → Double → List UInt8) (val : Double)
    (fuel : Nat) : Option (List UInt8) :=
  if val.beq 0 then some zero
  else do
    let sb : Int32 := if val.blt 0 then 1 else 0
    let av := if val.blt 0 then -val else val
    let ev ← ilog2Floor av fuel
    return enc sb ev av

def f32Fields (sb ev : Int32) (av : Double) : List UInt8 :=
  let eb := ev + 127
  let mn := av / pow2 ev
  let mi := ((mn - 1) * 8388608).round.toInt32
  let bits := (sb <<< 31) ||| (eb <<< 23) ||| (mi &&& 0x7FFFFF)
  bytes32 bits

def f32ToBytes : Double → Nat → Option (List UInt8) :=
  encodeReal [0x00, 0x00, 0x00, 0x00] f32Fields

/-- The rest of `f64_from_bytes`, with the eight bytes in two words. -/
def f64OfBits (hi lo : Int32) : Double :=
  let sign : Double := if hi &&& 0x80000000 ≠ 0 then -1 else 1
  let exp := ((hi >>> 20) &&& 0x7FF) - 1023
  let mh := Double.ofInt32 (hi &&& 0xFFFFF)
  let ml := Double.ofInt32 lo
  if exp = -1023 ∧ mh.beq 0 ∧ ml.beq 0 then 0
  else if exp = 1024 then (if Double.blt 0 sign then 1 / 0 else -1 / 0)
  else
    let mv := 1 + (mh * 4294967296 + ml) / 4503599627370496
    sign * mv * pow2 exp

def f64FromBytes (b : List UInt8) : S7Result Double := do
  let b0 ← byteAt b 0
  let b1 ← byteAt b 1
  let b2 ← byteAt b 2
  let b3 ← byteAt b 3
  let b4 ← byteAt b 4
  let b5 ← byteAt b 5
  let b6 ← byteAt b 6
  let b7 ← byteAt b 7
  .ok (f64OfBits (be32 b0 b1 b2 b3) (be32 b4 b5 b6 b7))

def f64Fields (sb ev : Int32) (av : Double) : List UInt8 :=
  let eb := ev + 1023
  let mn := av / pow2 ev
  let mi64 := ((mn - 1) * 4503599627370496).round.toInt64
  let hm := ((mi64 >>> 32) &&& 0xFFFFF).toInt32
  let lm := (mi64 &&& 0xFFFFFFFF).toInt32
  let hi := (sb <<< 31) ||| (eb <<< 20) ||| hm
  let lo := lm
  bytes32 hi ++ bytes32 lo

def f64ToBytes : Double → Nat → Option (List UInt8) := encodeReal (List.replicate 8 0x00) f64Fields

/-! ## 2. The fields -/

structure FloatField where
  dbNum : Int32
  offsetVal : Int32
  valueVal : Double

def FloatField.new (db offset : Int32) (bytes : List UInt8) : S7Result FloatField := do
  let val ← if bytes.length ≥ 4 then f32FromBytes bytes else .ok 0
  .ok { dbNum := db, offsetVal := offset, valueVal := val }

def FloatField.value (self : FloatField) : Double := self.valueVal

def FloatField.toBytes (self : FloatField) (fuel : Nat) : Option (List UInt8) :=
  f32ToBytes self.valueVal fuel

structure DoubleField where
  dbNum : Int32
  offsetVal : Int32
  valueVal : Double

def DoubleField.new (db offset : Int32) (bytes : List UInt8) : S7Result DoubleField := do
  let val ← if bytes.length ≥ 8 then f64FromBytes bytes else .ok 0
  .ok { dbNum := db, offsetVal := offset, valueVal := val }

def DoubleField.value (self : DoubleField) : Double := self.valueVal

def DoubleField.toBytes (self : DoubleField) (fuel : Nat) : Option (List UInt8) :=
  f64ToBytes self.valueVal fuel

/-! ## 3. Powers of two -/

theorem iterate_double (n : Nat) : (fun r : Double => r * 2)^[n] 1 = .fin (2 ^ n) := by
  induction n with
  | zero => rfl
  | succ n ih =>
    rw [Function.iterate_succ_apply', ih, pow_succ]
    rfl

/-- **`pow2` is the power of two**, but for the one number that has no negative. -/
theorem pow2_eq {e : Int32} (h : -2 ^ 31 < e.toInt) : pow2 e = Double.fin (2 ^ e.toInt) := by
  have hle := e.toInt_lt
  unfold pow2
  simp only [iterate_double]
  by_cases hneg : e < 0
  · have he : e.toInt < 0 := Int32.lt_iff_toInt_lt.mp hneg
    have hn : (-e).toInt = -e.toInt := by
      rw [Int32.toInt_neg]
      exact Int.bmod_eq_of_le (by omega) (by omega)
    rw [if_pos hneg, if_pos hneg, hn, Double.one_eq, Double.fin_div _ (pow_ne_zero _ two_ne_zero),
      ← zpow_natCast, Int.toNat_of_nonneg (by omega), zpow_neg]
    simp
  · have he : ¬ e.toInt < 0 := fun h => hneg (Int32.lt_iff_toInt_lt.mpr h)
    rw [if_neg hneg, if_neg hneg, ← zpow_natCast, Int.toNat_of_nonneg (by omega)]

/-! ## 4. The binary exponent -/

/-- What the loops keep of `x`: `v * 2 ^ n`. -/
structure Scaled (x : ℚ) (s : Log2 Double) (v : ℚ) (i : ℤ) : Prop where
  value : s.v = .fin v
  count : s.n = Int32.ofInt i
  pos : 0 < v
  eq : v * 2 ^ i = x

/-- The binary exponent of a number: what the loops bring to zero. -/
def magnitude : Double → ℤ
  | .fin q => exponent q
  | _ => 0

section Scaled

variable {x v : ℚ} {i : ℤ} {s : Log2 Double}

theorem Scaled.halve (h : Scaled x s v i) : Scaled x (halve s) (v / 2) (i + 1) := by
  refine ⟨?_, ?_, half_pos h.pos, ?_⟩
  · show s.v / 2 = _
    rw [h.value, Double.ofNat_eq, Double.fin_div _ (by norm_num)]
  · show s.n + 1 = _
    rw [h.count, Int32.ofInt_add]
    rfl
  · rw [← h.eq, zpow_add_one₀ two_ne_zero]
    ring

theorem Scaled.twice (h : Scaled x s v i) : Scaled x (twice s) (v * 2) (i - 1) := by
  refine ⟨?_, ?_, mul_pos h.pos two_pos, ?_⟩
  · show s.v * 2 = _
    rw [h.value, Double.ofNat_eq, Double.fin_mul]
  · show s.n - 1 = _
    rw [h.count, Int32.ofInt_sub]
    rfl
  · rw [← h.eq, zpow_sub_one₀ two_ne_zero]
    ring

theorem Scaled.exponent_eq (h : Scaled x s v i) (h₁ : 1 ≤ v) (h₂ : v < 2) : exponent x = i := by
  refine Ieee754.exponent_eq h₁ h₂ ?_
  have hpos : (0 : ℚ) < 2 ^ i := zpow_pos two_pos i
  rw [← h.eq, abs_of_pos (mul_pos h.pos hpos)]

theorem Scaled.magnitude_eq (h : Scaled x s v i) : magnitude s.v = exponent v := by
  rw [h.value]
  rfl

theorem Scaled.tooLarge_eq (h : Scaled x s v i) : tooLarge s = decide (2 ≤ v) := by
  rw [tooLarge, h.value]
  exact decide_eq_decide.mpr (Double.fin_le_fin 2 v)

theorem Scaled.tooSmall_eq (h : Scaled x s v i) : tooSmall s = decide (v < 1) := by
  rw [tooSmall, h.value]
  exact decide_eq_decide.mpr (Double.fin_lt_fin v 1)

end Scaled

/-- The first loop: every round lowers the binary exponent by one. -/
theorem returns_halving {x : ℚ} (hx : 0 < x) : ∃ s v i,
    Returns (whileLoop tooLarge halve · ⟨.fin x, 0⟩) s ∧ Scaled x s v i ∧ v < 2 := by
  have start : Scaled x ⟨.fin x, 0⟩ x 0 := ⟨rfl, rfl, hx, by simp⟩
  have round : ∀ s, (∃ v i, Scaled x s v i) → tooLarge s = true →
      (∃ v i, Scaled x (halve s) v i) ∧
        (magnitude (halve s).v).toNat < (magnitude s.v).toNat := by
    rintro s ⟨v, i, h⟩ hc
    have hv : 2 ≤ v := of_decide_eq_true (h.tooLarge_eq.symm.trans hc)
    have hne : v ≠ 0 := h.pos.ne'
    have hlog : 1 ≤ exponent v := by
      rw [le_exponent_iff hne, abs_of_pos h.pos, zpow_one]
      exact hv
    have hhalf : exponent (v / 2) = exponent v - 1 := by
      rw [div_eq_mul_inv, ← zpow_neg_one, exponent_mul_zpow hne]
      rfl
    refine ⟨⟨_, _, h.halve⟩, ?_⟩
    rw [h.magnitude_eq, h.halve.magnitude_eq, hhalf]
    omega
  obtain ⟨s, hs, ⟨v, i, h⟩, hc⟩ := returns_whileLoop (fun s => ∃ v i, Scaled x s v i)
    (fun s => (magnitude s.v).toNat) round ⟨x, 0, start⟩
  rw [h.tooLarge_eq] at hc
  exact ⟨s, v, i, hs, h, not_le.mp (of_decide_eq_false hc)⟩

/-- The second loop raises it, and does not undo the first. -/
theorem returns_doubling {x v : ℚ} {i : ℤ} {s : Log2 Double} (h : Scaled x s v i) (hv : v < 2) :
    ∃ t w j, Returns (whileLoop tooSmall twice · s) t ∧ Scaled x t w j ∧ 1 ≤ w ∧ w < 2 := by
  have round : ∀ s, (∃ v i, Scaled x s v i ∧ v < 2) → tooSmall s = true →
      (∃ v i, Scaled x (twice s) v i ∧ v < 2) ∧
        (-magnitude (twice s).v).toNat < (-magnitude s.v).toNat := by
    rintro s ⟨v, i, h, -⟩ hc
    have hv : v < 1 := of_decide_eq_true (h.tooSmall_eq.symm.trans hc)
    have hne : v ≠ 0 := h.pos.ne'
    have hlog : exponent v < 0 := by
      rw [exponent_lt_iff hne, abs_of_pos h.pos, zpow_zero]
      exact hv
    have htwice : exponent (v * 2) = exponent v + 1 := by
      have e := exponent_mul_zpow hne 1
      rw [zpow_one] at e
      exact e
    refine ⟨⟨_, _, h.twice, by linarith⟩, ?_⟩
    rw [h.magnitude_eq, h.twice.magnitude_eq, htwice]
    omega
  obtain ⟨t, ht, ⟨w, j, h', hw⟩, hc⟩ := returns_whileLoop
    (fun s => ∃ v i, Scaled x s v i ∧ v < 2) (fun s => (-magnitude s.v).toNat) round ⟨v, i, h, hv⟩
  rw [h'.tooSmall_eq] at hc
  exact ⟨t, w, j, ht, h', not_lt.mp (of_decide_eq_false hc), hw⟩

/-- **The loops find the binary exponent** of every positive rational. -/
theorem ilog2Floor_returns {x : ℚ} (hx : 0 < x) :
    Returns (ilog2Floor (Double.fin x)) (Int32.ofInt (exponent x)) := by
  obtain ⟨s, v, i, hs, h, hv⟩ := returns_halving hx
  obtain ⟨t, w, j, ht, h', hw₁, hw₂⟩ := returns_doubling h hv
  have hn : t.n = Int32.ofInt (exponent x) := by rw [h'.count, h'.exponent_eq hw₁ hw₂]
  rw [← hn]
  exact hs.bind (ht.bind (returns_some t.n))

/-- Half of `+∞` is `+∞`. -/
theorem ilog2Floor_diverges : Diverges (ilog2Floor Double.posInf) := by
  have round : ∀ s : Log2 Double, s.v = .posInf → tooLarge s = true ∧ (halve s).v = .posInf := by
    intro s hs
    unfold tooLarge halve
    rw [hs]
    exact ⟨rfl, rfl⟩
  exact (diverges_whileLoop (fun s => s.v = .posInf) round rfl).bind

/-! ## 5. The decoders -/

section Decode

variable {F : Format}

/-- What the decoders make of the fields of a pattern, with `m` for what they have read of its
    mantissa. -/
def decoded (p : Pattern F) (m : ℤ) : Double :=
  if p.exp = 0 ∧ p.mant = 0 then .fin 0
  else if p.exp = 2 ^ F.exp - 1 then (if p.sign then .negInf else .posInf)
  else .fin ((-1) ^ p.sign.toNat * ((1 + m / 2 ^ F.mant) * (2 : ℚ) ^ (p.exp - F.bias)))

/-- The last lines of the two decoders. -/
theorem decode_tail {p : Pattern F} {m : ℤ} {sgn mv : Double} {e lo hi : Int32} {zero : Prop}
    [Decidable zero] (hsgn : sgn = .fin ((-1) ^ p.sign.toNat)) (he : e.toInt = p.exp - F.bias)
    (hlo : lo.toInt = -F.bias) (hmin : -2 ^ 31 < lo.toInt) (hhi : hi.toInt = 2 ^ F.exp - 1 - F.bias)
    (hzero : zero ↔ p.mant = 0) (hmv : mv = .fin (1 + m / 2 ^ F.mant)) :
    (if e = lo ∧ zero then 0
      else if e = hi then (if Double.blt 0 sgn then 1 / 0 else -1 / 0)
      else sgn * mv * pow2 e) = decoded p m := by
  have helo : e = lo ↔ p.exp = 0 := by
    rw [← Int32.toInt_inj, he, hlo]
    omega
  have hehi : e = hi ↔ p.exp = 2 ^ F.exp - 1 := by
    rw [← Int32.toInt_inj, he, hhi]
    have := Nat.one_le_two_pow (n := F.exp)
    have hc : ((2 ^ F.exp - 1 : Nat) : ℤ) = 2 ^ F.exp - 1 := by push_cast [this]; rfl
    omega
  have hemin : -2 ^ 31 < e.toInt := by omega
  unfold decoded
  by_cases hz : p.exp = 0 ∧ p.mant = 0
  · rw [if_pos ⟨helo.mpr hz.1, hzero.mpr hz.2⟩, if_pos hz]
    rfl
  · rw [if_neg fun h => hz ⟨helo.mp h.1, hzero.mp h.2⟩, if_neg hz]
    by_cases ht : p.exp = 2 ^ F.exp - 1
    · rw [if_pos (hehi.mpr ht), if_pos ht, hsgn]
      cases p.sign <;> rfl
    · rw [if_neg fun h => ht (hehi.mp h), if_neg ht, hsgn, hmv, pow2_eq hemin, he]
      simp only [Double.fin_mul, mul_assoc]

theorem sign_eq {v : Int32} {s : Bool} (h : bits v / 2 ^ 31 = s.toNat) :
    (if v &&& 0x80000000 ≠ 0 then (-1 : Double) else 1) = .fin ((-1) ^ s.toNat) := by
  cases s with
  | false =>
    rw [if_neg (by rw [sign_mask, h]; decide)]
    rfl
  | true =>
    rw [if_pos (by rw [sign_mask, h]; decide)]
    rfl

/-- An exponent field without its bias. -/
theorem toInt_unbiased {a c : Int32} {n : Nat} {k : ℤ} (ha : bits a = n) (hn : n < 2 ^ 16)
    (hc : c.toInt = k) (hk : 0 ≤ k ∧ k < 2 ^ 16) : (a - c).toInt = n - k := by
  have han : a.toInt = n := by rw [toInt_eq_bits (by omega), ha]
  rw [Int32.toInt_sub, han, hc]
  exact Int.bmod_eq_of_le (by omega) (by omega)

theorem toNat_sign {n : Nat} (h : n < 2) : n = (decide (n % 2 = 1)).toNat := by
  by_cases h1 : n % 2 = 1
  · simp only [h1, decide_true, Bool.toNat_true]
    omega
  · simp only [h1, decide_false, Bool.toNat_false]
    omega

theorem ofInt32_beq (a : Int32) : (Double.ofInt32 a).beq 0 = true ↔ a.toInt = 0 := by
  rw [Double.ofInt32, Double.zero_eq, Double.fin_beq, decide_eq_true_iff]
  exact Int.cast_eq_zero

theorem f32OfBits_eq (v : Int32) :
    f32OfBits v = decoded (ofWord binary32 (bits v)) (ofWord binary32 (bits v)).mant := by
  have hlt := bits_lt v
  have hexp : bits ((v >>> 23) &&& 0xFF) = bits v / 2 ^ 23 % 2 ^ 8 :=
    bits_field (by decide) (by decide) (by decide) (by decide) _
  have hmant : (v &&& 0x7FFFFF).toInt = (bits v % 2 ^ 23 : Nat) := by
    have h : bits (v &&& 0x7FFFFF) = bits v % 2 ^ 23 := bits_mask (by decide) _
    rw [toInt_eq_bits (by omega), h]
  have hsign : bits v / 2 ^ 31 = (ofWord binary32 (bits v)).sign.toNat := by
    have h : bits v / 2 ^ 23 / 2 ^ 8 = bits v / 2 ^ 31 := by omega
    show _ = (decide (bits v / 2 ^ 23 / 2 ^ 8 % 2 = 1)).toNat
    rw [h]
    exact toNat_sign (by omega)
  refine decode_tail (sign_eq hsign) ?_ (by decide) (by decide) (by decide) ?_ ?_
  · exact toInt_unbiased hexp (Nat.lt_trans (Pattern.exp_lt _) (by decide)) (by decide) (by decide)
  · rw [ofInt32_beq, hmant]
    exact Int.natCast_eq_zero
  · rw [Double.ofInt32, hmant, Double.one_eq, Double.ofNat_eq, Double.fin_div _ (by norm_num),
      Double.fin_add]
    show _ = Double.fin (1 + ((bits v % 2 ^ 23 : Nat) : ℤ) / 2 ^ 23)
    norm_num

/-- **What `f32_from_bytes` makes of four bytes.** -/
theorem f32FromBytes_eq {b : List UInt8} (h : b.length = 4) :
    f32FromBytes b = .ok (decoded (ofBytes binary32 b) (ofBytes binary32 b).mant) := by
  obtain ⟨b0, b, rfl⟩ := List.exists_cons_of_length_eq_add_one h
  obtain ⟨b1, b, rfl⟩ := List.exists_cons_of_length_eq_add_one (Nat.succ.inj h)
  obtain ⟨b2, b3, rfl⟩ := List.length_eq_two.mp (Nat.succ.inj (Nat.succ.inj h))
  have hword : beNat [b0, b1, b2, b3] = bits (be32 b0 b1 b2 b3) := by
    rw [bits_be32]
    simp [beNat]
  rw [ofBytes, hword, ← f32OfBits_eq]
  rfl

/-- The mantissa as `f64_from_bytes` reads it: the lower word has a sign. -/
def signedMant (p : Pattern binary64) : ℤ :=
  if p.mant.testBit 31 then p.mant - 2 ^ 32 else p.mant

theorem f64OfBits_eq (hi lo : Int32) :
    f64OfBits hi lo = decoded (ofWord binary64 (bits hi * 2 ^ 32 + bits lo))
      (signedMant (ofWord binary64 (bits hi * 2 ^ 32 + bits lo))) := by
  have hhi := bits_lt hi
  have hlo := bits_lt lo
  have hexp : bits ((hi >>> 20) &&& 0x7FF) = (bits hi * 2 ^ 32 + bits lo) / 2 ^ 52 % 2 ^ 11 := by
    have h : bits ((hi >>> 20) &&& 0x7FF) = bits hi / 2 ^ 20 % 2 ^ 11 :=
      bits_field (by decide) (by decide) (by decide) (by decide) _
    omega
  have hmh : (hi &&& 0xFFFFF).toInt = (bits hi % 2 ^ 20 : Nat) := by
    have h : bits (hi &&& 0xFFFFF) = bits hi % 2 ^ 20 := bits_mask (by decide) _
    rw [toInt_eq_bits (by omega), h]
  have hmant : (hi &&& 0xFFFFF).toInt * 2 ^ 32 + lo.toInt =
      signedMant (ofWord binary64 (bits hi * 2 ^ 32 + bits lo)) := by
    have hm : (ofWord binary64 (bits hi * 2 ^ 32 + bits lo)).mant =
        bits hi % 2 ^ 20 * 2 ^ 32 + bits lo := by
      show (bits hi * 2 ^ 32 + bits lo) % 2 ^ 52 = _
      omega
    have hl := bits_toInt lo
    have hl₁ := lo.le_toInt
    have hl₂ := lo.toInt_lt
    unfold signedMant
    rw [hmh, hm, Nat.testBit_eq_decide_div_mod_eq]
    by_cases h : (bits hi % 2 ^ 20 * 2 ^ 32 + bits lo) / 2 ^ 31 % 2 = 1
    · rw [if_pos (decide_eq_true h)]
      omega
    · rw [if_neg (by simpa using h)]
      omega
  have hsign : bits hi / 2 ^ 31 = (ofWord binary64 (bits hi * 2 ^ 32 + bits lo)).sign.toNat := by
    have h : (bits hi * 2 ^ 32 + bits lo) / 2 ^ 52 / 2 ^ 11 = bits hi / 2 ^ 31 := by omega
    show _ = (decide ((bits hi * 2 ^ 32 + bits lo) / 2 ^ 52 / 2 ^ 11 % 2 = 1)).toNat
    rw [h]
    exact toNat_sign (by omega)
  refine decode_tail (sign_eq hsign) ?_ (by decide) (by decide) (by decide) ?_ ?_
  · exact toInt_unbiased hexp (Nat.lt_trans (Pattern.exp_lt _) (by decide)) (by decide) (by decide)
  · have hl := bits_toInt lo
    have hl₁ := lo.le_toInt
    have hl₂ := lo.toInt_lt
    rw [ofInt32_beq, ofInt32_beq, hmh]
    show _ ↔ (bits hi * 2 ^ 32 + bits lo) % 2 ^ 52 = 0
    omega
  · rw [Double.ofInt32, Double.ofInt32, ← hmant, Double.one_eq, Double.ofNat_eq, Double.ofNat_eq,
      Double.fin_mul, Double.fin_add, Double.fin_div _ (by norm_num), Double.fin_add]
    show _ = Double.fin (1 + (((hi &&& 0xFFFFF).toInt * 2 ^ 32 + lo.toInt : ℤ) : ℚ) / 2 ^ 52)
    push_cast
    norm_num

/-- **What `f64_from_bytes` makes of eight bytes.** -/
theorem f64FromBytes_eq {b : List UInt8} (h : b.length = 8) :
    f64FromBytes b = .ok (decoded (ofBytes binary64 b) (signedMant (ofBytes binary64 b))) := by
  obtain ⟨b0, b, rfl⟩ := List.exists_cons_of_length_eq_add_one h
  obtain ⟨b1, b, rfl⟩ := List.exists_cons_of_length_eq_add_one (Nat.succ.inj h)
  obtain ⟨b2, b, rfl⟩ := List.exists_cons_of_length_eq_add_one (Nat.add_right_cancel (m := 2) h)
  obtain ⟨b3, b, rfl⟩ := List.exists_cons_of_length_eq_add_one (Nat.add_right_cancel (m := 3) h)
  obtain ⟨b4, b, rfl⟩ := List.exists_cons_of_length_eq_add_one (Nat.add_right_cancel (m := 4) h)
  obtain ⟨b5, b, rfl⟩ := List.exists_cons_of_length_eq_add_one (Nat.add_right_cancel (m := 5) h)
  obtain ⟨b6, b7, rfl⟩ := List.length_eq_two.mp (Nat.add_right_cancel (m := 6) h)
  have hword : beNat [b0, b1, b2, b3, b4, b5, b6, b7] =
      bits (be32 b0 b1 b2 b3) * 2 ^ 32 + bits (be32 b4 b5 b6 b7) := by
    rw [bits_be32, bits_be32]
    simp [beNat]
    ring
  rw [ofBytes, hword, ← f64OfBits_eq]
  rfl

end Decode

/-! ## 6. The encoders -/

section Encode

variable {F : Format} {x : ℚ} {zero : List UInt8} {enc : Int32 → Int32 → Double → List UInt8}

theorem toNat_emod_lt (n : ℤ) (k : Nat) : (n % 2 ^ k).toNat < 2 ^ k := by
  have hpos : (0 : ℤ) < 2 ^ k := by positivity
  have h := Int.emod_lt_of_pos n hpos
  zify
  rw [Int.toNat_of_nonneg (Int.emod_nonneg n hpos.ne')]
  exact h

/-- The pattern the encoders make of a number. The exponent is not masked: the bit above its field
    falls on the sign. The mantissa is: what is rounded up to the next power of two becomes zero. -/
def encoded (F : Format) (x : ℚ) : Pattern F where
  sign := decide (x < 0) || decide ((exponent x + F.bias) / 2 ^ F.exp % 2 = 1)
  exp := ((exponent x + F.bias) % 2 ^ F.exp).toNat
  mant := (fraction F.mant x % 2 ^ F.mant).toNat
  exp_lt := toNat_emod_lt _ _
  mant_lt := toNat_emod_lt _ _

theorem encoded_exp (F : Format) (x : ℚ) :
    (encoded F x).exp = ((exponent x + F.bias) % 2 ^ F.exp).toNat := by rw [encoded]

theorem encoded_mant (F : Format) (x : ℚ) :
    (encoded F x).mant = (fraction F.mant x % 2 ^ F.mant).toNat := by rw [encoded]

theorem abs_eq_ite (x : ℚ) :
    (if (Double.fin x).blt 0 then -Double.fin x else Double.fin x) = .fin |x| := by
  rw [Double.zero_eq, Double.fin_blt]
  by_cases h : x < 0
  · rw [if_pos (decide_eq_true h), Double.fin_neg, abs_of_neg h]
  · rw [if_neg (by simpa using h), abs_of_nonneg (not_lt.mp h)]

/-- **The encoders return on every rational**: the loops do. -/
theorem encodeReal_returns (hx : x ≠ 0) : Returns (encodeReal zero enc (.fin x))
    (enc (if x < 0 then 1 else 0) (Int32.ofInt (exponent x)) (.fin |x|)) := by
  have hne : ¬ (Double.fin x).beq 0 = true := by
    rw [Double.zero_eq, Double.fin_beq, decide_eq_true_iff]
    exact hx
  have hlt : (if (Double.fin x).blt 0 then (1 : Int32) else 0) = if x < 0 then 1 else 0 := by
    rw [Double.zero_eq, Double.fin_blt]
    simp only [decide_eq_true_eq]
  have hrun : encodeReal zero enc (.fin x) = fun fuel => ilog2Floor (Double.fin |x|) fuel >>= fun ev =>
      some (enc (if x < 0 then 1 else 0) ev (.fin |x|)) := by
    funext fuel
    unfold encodeReal
    rw [if_neg hne, hlt, abs_eq_ite]
    rfl
  have hlog := ilog2Floor_returns (abs_pos.mpr hx)
  have habs : exponent |x| = exponent x := by rw [exponent, abs_abs, exponent]
  rw [habs] at hlog
  rw [hrun]
  exact hlog.bind (returns_some _)

/-- On the infinities they do not. -/
theorem encodeReal_diverges {val : Double} (h : val = .posInf ∨ val = .negInf) :
    Diverges (encodeReal zero enc val) := by
  have hrun : ∃ sb, encodeReal zero enc val = fun fuel => ilog2Floor Double.posInf fuel >>= fun ev =>
      some (enc sb ev .posInf) := by
    rcases h with rfl | rfl
    · exact ⟨0, rfl⟩
    · exact ⟨1, rfl⟩
  obtain ⟨sb, hrun⟩ := hrun
  rw [hrun]
  exact ilog2Floor_diverges.bind

theorem bits_ofInt (n : ℤ) : bits (Int32.ofInt n) = (n % 2 ^ 32).toNat := by
  show (BitVec.ofInt 32 n).toNat = (n % 2 ^ 32).toNat
  rw [BitVec.toNat_ofInt]
  rfl

/-- The significand, rounded to a fraction of `k` bits. -/
theorem round_significand (k : Nat) (hlo : -2 ^ 31 < exponent x) (hhi : exponent x < 2 ^ 31) :
    ((Double.fin |x| / pow2 (Int32.ofInt (exponent x)) - 1) * .fin (2 ^ k)).round =
      .fin (fraction k x) := by
  have he : (Int32.ofInt (exponent x)).toInt = exponent x :=
    Int32.toInt_ofInt_of_le (by omega) hhi
  rw [pow2_eq (by rw [he]; exact hlo), he, Double.fin_div _ (zpow_ne_zero _ two_ne_zero),
    Double.one_eq, Double.fin_sub, Double.fin_mul, fraction, significand, round_eq]
  rfl

/-- A number that an `Int` holds is not changed by `to_int`. -/
theorem toInt32_intCast {n : ℤ} (h₁ : 0 ≤ n) (h₂ : n < 2 ^ 31) :
    (Double.fin n).toInt32 = Int32.ofInt n := by
  have hn : ¬ (n : ℚ) < 0 := by
    rw [not_lt]
    exact_mod_cast h₁
  rw [Double.toInt32, Double.truncate, if_neg hn, Int.floor_intCast]
  congr 1
  omega

theorem bits_sign (x : ℚ) :
    bits ((if x < 0 then 1 else 0 : Int32) <<< 31) = (decide (x < 0)).toNat * 2 ^ 31 := by
  by_cases h : x < 0
  · rw [if_pos h, decide_eq_true h]
    rfl
  · rw [if_neg h, decide_eq_false h]
    rfl

/-- The sign of the encoders: that of the number, and the bit above the exponent field. -/
theorem toNat_encoded_sign (F : Format) (x : ℚ) : (encoded F x).sign.toNat =
    (decide (x < 0)).toNat ||| (decide ((exponent x + F.bias) / 2 ^ F.exp % 2 = 1)).toNat := by
  show (decide (x < 0) || decide ((exponent x + F.bias) / 2 ^ F.exp % 2 = 1)).toNat = _
  cases decide (x < 0) <;> cases decide ((exponent x + F.bias) / 2 ^ F.exp % 2 = 1) <;> rfl

/-- The word `f32_to_bytes` puts together. -/
theorem bits_f32 {mi : Int32} (hmi : mi = Int32.ofInt (fraction 23 x)) :
    bits (((if x < 0 then 1 else 0 : Int32) <<< 31) ||| ((Int32.ofInt (exponent x) + 127) <<< 23) |||
      (mi &&& 0x7FFFFF)) = (encoded binary32 x).word := by
  have heb : Int32.ofInt (exponent x) + 127 = Int32.ofInt (exponent x + 127) := by
    rw [Int32.ofInt_add]
    rfl
  have he : bits (Int32.ofInt (exponent x + 127) <<< 23) =
      bits (Int32.ofInt (exponent x + 127)) * 2 ^ 23 % 2 ^ 32 :=
    bits_shiftLeft (by decide) (by decide) _
  have hm : bits (mi &&& 0x7FFFFF) = bits mi % 2 ^ 23 := bits_mask (by decide) _
  have hover : bits (Int32.ofInt (exponent x + 127)) / 2 ^ 8 % 2 =
      (decide ((exponent x + 127) / 2 ^ 8 % 2 = 1)).toNat := by
    rw [toNat_sign (Nat.mod_lt _ two_pos), bits_ofInt]
    exact congrArg Bool.toNat (decide_eq_decide.mpr (by omega))
  have hexp : bits (Int32.ofInt (exponent x + 127)) % 2 ^ 8 = (encoded binary32 x).exp := by
    rw [bits_ofInt, encoded_exp, binary32_bias, binary32_exp]
    omega
  have hmant : bits mi % 2 ^ 23 = (encoded binary32 x).mant := by
    rw [hmi, bits_ofInt, encoded_mant, binary32_mant]
    omega
  rw [bits_or, bits_or, bits_sign, heb, he, hm,
    or_fields (q := 8) (by decide) (Nat.mod_lt _ (by decide)), hover, hexp, hmant, Pattern.word,
    toNat_encoded_sign, binary32_bias, binary32_exp, binary32_mant]

theorem bytes32_pattern {v : Int32} {p : Pattern binary32} (h : bits v = p.word) :
    bytes32 v = p.bytes := by
  rw [bytes32_eq, h]
  simp [Pattern.bytes, beBytes, binary32]

/-- **What `f32_to_bytes` makes of a number** that is not zero. -/
theorem f32ToBytes_returns (hx : x ≠ 0) (hlo : -2 ^ 31 < exponent x) (hhi : exponent x < 2 ^ 31) :
    Returns (f32ToBytes (.fin x)) (encoded binary32 x).bytes := by
  obtain ⟨hf₀, hf₁⟩ := fraction_bounds hx 23
  have hscale : (8388608 : Double) = .fin (2 ^ 23) := by
    rw [Double.ofNat_eq]
    norm_num
  have hmi : ((Double.fin |x| / pow2 (Int32.ofInt (exponent x)) - 1) * 8388608).round.toInt32 =
      Int32.ofInt (fraction 23 x) := by
    rw [hscale, round_significand 23 hlo hhi, toInt32_intCast hf₀ (by omega)]
  have hbytes : f32Fields (if x < 0 then 1 else 0) (Int32.ofInt (exponent x)) (.fin |x|) =
      (encoded binary32 x).bytes := bytes32_pattern (bits_f32 hmi)
  rw [← hbytes]
  exact encodeReal_returns hx

end Encode

end MoonS7
