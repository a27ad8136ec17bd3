import MoonS7.Lib.Tlv
import MoonS7.Protocol.Requests

/-!
# The connection request

The request of `build_cotp_cr` has two lengths in front of its parameters: the one of the TPKT
header, which counts the TSAPs, and the COTP length indicator, which is the number `0x11`.

Main result: `cotpCr_parsed_iff` -- the request is read back by its own lengths exactly if the two
TSAPs have four bytes together.
-/

namespace MoonS7

/-- A frame read by its own lengths: the length of the TPKT header and the indicator behind it are
    the frame's, and behind six fixed bytes the parameters fill the COTP header. -/
structure CrParsed (f : Frame) (params : List (UInt8 × List UInt8)) : Prop where
  tpkt : ∃ hi lo, f[2]? = some hi ∧ f[3]? = some lo ∧ hi.toNat * 256 + lo.toNat = f.length
  indicator : ∃ li, f[4]? = some li ∧ li.toNat + 5 = f.length ∧
    Tlv.params (((f.drop 5).take li.toNat).drop 6) = some params

/-- The size of a TPDU and the two TSAPs. -/
def crParams (lsap rsap : List UInt8) : List (UInt8 × List UInt8) :=
  [(0xC0, [0x0A]), (0xC1, lsap), (0xC2, rsap)]

section Request

variable (lsap rsap : List UInt8)

theorem length_buildCotpCr : (buildCotpCr lsap rsap).length = 18 + lsap.length + rsap.length := by
  unfold buildCotpCr
  simp only [List.length_append, List.length_cons, List.length_nil]
  omega

/-- The request is eleven bytes and its parameters. -/
theorem buildCotpCr_eq : buildCotpCr lsap rsap =
    [0x03, 0x00, hi8 (Int32.ofNat (18 + lsap.length + rsap.length)),
      lo8 (Int32.ofNat (18 + lsap.length + rsap.length)), 0x11, 0xE0, 0x00, 0x00, 0x00, 0x02, 0x00] ++
      (crParams lsap rsap).flatMap Tlv.encode := by
  have htb : ∀ n : Nat, tb (Int32.ofNat n) = UInt8.ofNat n := by
    intro n
    rw [tb_eq, bits_ofNat]
    apply UInt8.toNat.inj
    rw [UInt8.toNat_ofNat', UInt8.toNat_ofNat']
    omega
  rw [buildCotpCr, htb, htb]
  simp [crParams, Tlv.encode]

end Request

/-- **The request is well formed exactly if** the length indicator, which is fixed, is right for
    the TSAPs. -/
theorem cotpCr_parsed_iff (lsap rsap : List UInt8) :
    CrParsed (buildCotpCr lsap rsap) (crParams lsap rsap) ↔ lsap.length + rsap.length = 4 := by
  have hlen := length_buildCotpCr lsap rsap
  have heq := buildCotpCr_eq lsap rsap
  constructor
  · intro hp
    obtain ⟨li, hli, hl, -⟩ := hp.indicator
    have hli' : some (0x11 : UInt8) = some li := hli
    cases hli'
    rw [hlen, show (0x11 : UInt8).toNat = 17 from rfl] at hl
    omega
  · intro h4
    refine ⟨⟨_, _, rfl, rfl, ?_⟩, ⟨0x11, rfl, ?_, ?_⟩⟩
    · rw [hlen, hi8_ofNat, lo8_eq, bits_ofNat, UInt8.toNat_ofNat', UInt8.toNat_ofNat']
      omega
    · rw [hlen, show (0x11 : UInt8).toNat = 17 from rfl]
      omega
    · have hsec : (((buildCotpCr lsap rsap).drop 5).take (0x11 : UInt8).toNat).drop 6 =
          (crParams lsap rsap).flatMap Tlv.encode := by
        rw [List.take_of_length_le (by rw [List.length_drop, hlen]; show _ ≤ 17; omega), heq]
        rfl
      rw [hsec]
      refine Tlv.params_encode fun p hp => ?_
      simp only [crParams, List.mem_cons, List.not_mem_nil, or_false] at hp
      rcases hp with rfl | rfl | rfl
      · decide
      · show lsap.length < 256
        omega
      · show rsap.length < 256
        omega

/-- **A TSAP of three bytes** makes a request whose length indicator is one too small. -/
theorem cotpCr_parsed_refuted : ¬ ∀ lsap rsap : List UInt8, 13 + lsap.length + rsap.length ≤ 254 →
    CrParsed (buildCotpCr lsap rsap) (crParams lsap rsap) := by
  intro h
  obtain ⟨li, hli, hl, -⟩ := (h [0x01, 0x00, 0x00] [0x01, 0x01] (by decide)).indicator
  have hli' : some (0x11 : UInt8) = some li := hli
  cases hli'
  rw [length_buildCotpCr] at hl
  revert hl
  decide

end MoonS7
