import MoonS7.Lib.Records

/-!
# Type, length, value

Parameters with a type byte, a length byte and as many bytes of value, one behind the other up to
the end of their section.
-/

namespace Tlv

open Records

def encode (p : UInt8 × List UInt8) : List UInt8 := p.1 :: UInt8.ofNat p.2.length :: p.2

/-- The first parameter, and what is left behind it. -/
def decode : List UInt8 → Option ((UInt8 × List UInt8) × List UInt8)
  | t :: n :: bs => if n.toNat ≤ bs.length then some ((t, bs.take n.toNat), bs.drop n.toNat) else none
  | _ => none

/-- All parameters of a section. -/
def params (bs : List UInt8) : Option (List (UInt8 × List UInt8)) := allRecords decode bs.length bs

theorem decode_encode {p : UInt8 × List UInt8} (h : p.2.length < 256) (rest : List UInt8) :
    decode (encode p ++ rest) = some (p, rest) := by
  have hn : (UInt8.ofNat p.2.length).toNat = p.2.length := by
    rw [UInt8.toNat_ofNat']
    omega
  rw [encode, List.cons_append, List.cons_append, decode, hn, if_pos (by rw [List.length_append]; omega),
    List.take_left, List.drop_left]

/-- **Parameters are read back** if their values are short enough for the length byte. -/
theorem params_encode {ps : List (UInt8 × List UInt8)} (h : ∀ p ∈ ps, p.2.length < 256) :
    params (ps.flatMap encode) = some ps := by
  have hne : ∀ p, encode p ≠ [] := fun _ => List.cons_ne_nil _ _
  have hall := allRecords_flatMap (f := id) (fun p hp => decode_encode (h p hp)) hne
    (length_le_flatMap hne ps)
  rw [List.map_id] at hall
  exact hall

end Tlv
