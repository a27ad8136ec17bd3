import MoonS7.Plc.Simulator

/-!
# Replies to reads of any length

The search for the S7 header begins in the TPKT header. The length there is `0x32` and a message
type for some payloads of about 12800 bytes, and the parser takes it for the header.

Main result: `readResp_parsed_iff` -- the payloads that are read back.
-/

namespace MoonS7

/-- The length of the reply to a payload of `n` bytes looks like an S7 header: the protocol id, and
    the type of a message with or without the error flag. -/
def LengthIsHeader (n : Nat) : Prop :=
  (25 + n) / 256 = 0x32 ∧
    ((25 + n) % 128 = 0x01 ∨ (25 + n) % 128 = 0x03 ∨ (25 + n) % 128 = 0x07)

/-- The two bytes of the TPKT length. -/
theorem lengthIsHeader_iff {n : Nat} (h : 25 + n ≤ 65535) :
    LengthIsHeader n ↔ UInt8.ofNat ((4 + 3 + 10 + 4 + (4 + n)) / 256) = pid ∧
      msgType (UInt8.ofNat (4 + 3 + 10 + 4 + (4 + n))) = true := by
  rw [← UInt8.toNat_inj, msgType_iff, UInt8.toNat_ofNat', UInt8.toNat_ofNat',
    show pid.toNat = 50 from rfl, LengthIsHeader]
  omega

/-- Such a reply is refused: what is taken for its return code is a byte of the data length. -/
theorem parseResponse_of_lengthIsHeader {p : List UInt8} (h : 25 + p.length ≤ 65535) (refn : Nat)
    (hlen : LengthIsHeader p.length) : parseResponse (buildReadResp p refn) ≠ .ok [p] := by
  intro hparse
  obtain ⟨hhi, hlo⟩ := (lengthIsHeader_iff h).mp hlen
  have hfind : findS7 (buildReadResp p refn) = some 2 := by
    unfold buildReadResp
    simp only [hhi]
    exact findHeader_length hlo
  obtain ⟨s7, hreply, -⟩ := parseResponse_ok_iff.mp hparse
  cases hfind.symm.trans hreply.header
  have hcode : some (UInt8.ofNat (4 + p.length)) = some 0xFF := hreply.code
  have hcode := congrArg UInt8.toNat (Option.some.inj hcode)
  obtain ⟨-, hlen⟩ := hlen
  rw [UInt8.toNat_ofNat', show (0xFF : UInt8).toNat = 255 from rfl] at hcode
  omega

/-- **A reply is read back exactly if** its length does not look like a header. -/
theorem readResp_parsed_iff {p : List UInt8} (h : 25 + p.length ≤ 65535) (refn : Nat) :
    parseResponse (buildReadResp p refn) = .ok [p] ↔ ¬ LengthIsHeader p.length := by
  constructor
  · intro hparse hlen
    exact parseResponse_of_lengthIsHeader h refn hlen hparse
  · intro hlen
    refine parseResponse_of_header (findHeader_tpkt (by decide) (fun hhi => ?_) (by decide))
    rw [lengthIsHeader_iff h] at hlen
    exact Bool.not_eq_true _ ▸ fun hlo => hlen ⟨hhi, hlo⟩

theorem readResp_parsed_word : parseResponse (buildReadResp [0x12, 0x34] 1) = .ok [[0x12, 0x34]] ↔
    ¬ LengthIsHeader [(0x12 : UInt8), 0x34].length :=
  readResp_parsed_iff (by decide) 1

/-- 12776 bytes make a TPKT length of `3201`. -/
theorem readResp_refuted : ¬ ∀ (p : List UInt8) (refn : Nat), 25 + p.length ≤ 65535 →
    parseResponse (buildReadResp p refn) = .ok [p] := by
  intro h
  have hlen : (List.replicate 12776 (0 : UInt8)).length = 12776 := List.length_replicate
  have hlt : 25 + (List.replicate 12776 (0 : UInt8)).length ≤ 65535 := by omega
  refine parseResponse_of_lengthIsHeader hlt 1 ?_ (h _ 1 hlt)
  rw [hlen]
  exact ⟨by decide, Or.inl (by decide)⟩

end MoonS7
