import MoonS7.Lib.Tlv
import MoonS7.Protocol.Replies

/-!
# The connection confirm

`parse_cotp_cc` knows one connection confirm: the one whose COTP length indicator is `0x11`. It does
not compare the indicator with the length of the frame, it does not look at the parameters, and the
TPDU size it returns is the number 1024.

Main results: `parseCotpCc_cases` -- which frames it takes; `cotpCc_iff` -- it takes exactly the
connection confirms, with the size they propose, where these have 22 bytes and propose 1024.
-/

namespace MoonS7

/-- The frames that `parse_cotp_cc` takes. -/
structure TakenForCc (f : Frame) : Prop where
  length : 7 ≤ f.length
  version : f[0]? = some 0x03
  indicator : f[4]? = some 0x11
  code : f[5]? = some 0xD0

/-- **What `parse_cotp_cc` returns.** -/
theorem parseCotpCc_cases (f : Frame) :
    (TakenForCc f ∧ parseCotpCc f = .ok 1024) ∨
      (¬ TakenForCc f ∧ ∃ m, parseCotpCc f = err (.invalidPdu m)) := by
  unfold parseCotpCc
  by_cases hlen : f.length < 7
  · rw [if_pos hlen]
    exact Or.inr ⟨fun h => Nat.not_lt.mpr h.length hlen, _, rfl⟩
  · obtain ⟨b0, h0, hb0⟩ := byteAt_of_lt (show 0 < f.length by omega)
    obtain ⟨b4, h4, hb4⟩ := byteAt_of_lt (show 4 < f.length by omega)
    obtain ⟨b5, h5, hb5⟩ := byteAt_of_lt (show 5 < f.length by omega)
    rw [if_neg hlen, hb0, ok_bind, hb4, ok_bind, hb5, ok_bind]
    by_cases hv : b0 ≠ 0x03
    · rw [if_pos hv]
      exact Or.inr ⟨fun h => hv (Option.some.inj (h0.symm.trans h.version)), _, rfl⟩
    · rw [if_neg hv]
      by_cases hc : b4 ≠ 0x11 ∨ b5 ≠ 0xD0
      · rw [if_pos hc]
        refine Or.inr ⟨fun h => ?_, _, rfl⟩
        rcases hc with hc | hc
        · exact hc (Option.some.inj (h4.symm.trans h.indicator))
        · exact hc (Option.some.inj (h5.symm.trans h.code))
      · rw [if_neg hc]
        obtain ⟨hc4, hc5⟩ := not_or.mp hc
        exact Or.inl ⟨⟨Nat.le_of_not_lt hlen, by rw [h0, not_not.mp hv], by rw [h4, not_not.mp hc4],
          by rw [h5, not_not.mp hc5]⟩, rfl⟩

/-- The head of a connection confirm: the version, a length indicator that counts what is behind
    it, and the code. -/
structure CcHead (f : Frame) : Prop where
  version : f[0]? = some 0x03
  indicator : ∃ li, f[4]? = some li ∧ li.toNat + 5 = f.length
  code : f[5]? = some 0xD0

/-- A connection confirm with the parameters `ps`, which stand behind six fixed bytes. -/
structure Confirm (f : Frame) (ps : List (UInt8 × List UInt8)) : Prop where
  head : CcHead f
  params : Tlv.params (f.drop 11) = some ps

/-- A connection confirm that proposes TPDUs of `2 ^ v` bytes. -/
def Proposes (f : Frame) (v : UInt8) : Prop :=
  ∃ ps, Confirm f ps ∧ (0xC0, [v]) ∈ ps ∧ 7 ≤ v.toNat ∧ v.toNat ≤ 13

/-- Confirms are taken with the size they propose, and nothing else is taken. -/
structure CcExact (f : Frame) : Prop where
  accepted : ∀ v, Proposes f v → parseCotpCc f = .ok (Int32.ofNat (2 ^ v.toNat))
  rejected : ¬ CcHead f → ∃ e, parseCotpCc f = err e

section Confirm

variable {f : Frame}

/-- The indicator `0x11` is right for frames of 22 bytes. -/
theorem CcHead.indicator_iff (h : CcHead f) : f[4]? = some 0x11 ↔ f.length = 22 := by
  obtain ⟨li, hli, hlen⟩ := h.indicator
  rw [hli, Option.some.injEq, ← UInt8.toNat_inj, show (0x11 : UInt8).toNat = 17 from rfl]
  omega

theorem TakenForCc.head_iff (h : TakenForCc f) : CcHead f ↔ f.length = 22 := by
  refine ⟨fun hh => hh.indicator_iff.mp h.indicator, fun hlen => ⟨h.version, ⟨0x11, h.indicator, ?_⟩, h.code⟩⟩
  rw [hlen]
  rfl

/-- Of the sizes a confirm may propose, 1024 is that of `10`. -/
theorem size_eq_iff {v : UInt8} (h₁ : 7 ≤ v.toNat) (h₂ : v.toNat ≤ 13) :
    (1024 : Int32) = Int32.ofNat (2 ^ v.toNat) ↔ v = 10 := by
  rw [← UInt8.toNat_inj]
  have hv : v.toNat = 7 ∨ v.toNat = 8 ∨ v.toNat = 9 ∨ v.toNat = 10 ∨ v.toNat = 11 ∨ v.toNat = 12 ∨
      v.toNat = 13 := by omega
  rcases hv with hv | hv | hv | hv | hv | hv | hv
  all_goals
    rw [hv]
    decide

/-- **Exactly the confirms are taken, with the size they propose, if and only if** they have 22 bytes
    and propose 1024, and what has the indicator of 22 bytes has as many. -/
theorem cotpCc_iff (f : Frame) :
    CcExact f ↔ (∀ v, Proposes f v → f.length = 22 ∧ v = 10) ∧ (TakenForCc f → f.length = 22) := by
  constructor
  · intro h
    refine ⟨fun v hp => ?_, fun ht => ?_⟩
    · have hok := h.accepted v hp
      obtain ⟨ps, hc, -, h₁, h₂⟩ := hp
      rcases parseCotpCc_cases f with ⟨ht, he⟩ | ⟨-, m, he⟩
      · rw [he, Except.ok.injEq] at hok
        exact ⟨hc.head.indicator_iff.mp ht.indicator, (size_eq_iff h₁ h₂).mp hok⟩
      · cases he.symm.trans hok
    · by_contra hlen
      obtain ⟨e, he⟩ := h.rejected fun hh => hlen (ht.head_iff.mp hh)
      rcases parseCotpCc_cases f with ⟨-, hok⟩ | ⟨hno, -⟩
      · cases hok.symm.trans he
      · exact hno ht
  · rintro ⟨hsize, hlen⟩
    refine ⟨fun v hp => ?_, fun hh => ?_⟩
    · obtain ⟨h22, rfl⟩ := hsize v hp
      obtain ⟨ps, hc, -⟩ := hp
      rcases parseCotpCc_cases f with ⟨-, he⟩ | ⟨hno, -⟩
      · exact he
      · exact absurd ⟨by omega, hc.head.version, hc.head.indicator_iff.mpr h22, hc.head.code⟩ hno
    · rcases parseCotpCc_cases f with ⟨ht, -⟩ | ⟨-, m, he⟩
      · exact absurd (ht.head_iff.mpr (hlen ht)) hh
      · exact ⟨_, he⟩

end Confirm

/-- The length in the TPKT header is that of the frame. -/
def TpktLength (f : Frame) : Prop :=
  ∃ hi lo, f[2]? = some hi ∧ f[3]? = some lo ∧ hi.toNat * 256 + lo.toNat = f.length

/-- **A confirm that proposes 512** is taken for one that proposes 1024. -/
theorem cotpCc_refuted : ¬ ∀ f : Frame, TpktLength f → CcExact f := by
  intro h
  have hp : Proposes [0x03, 0x00, 0x00, 0x16, 0x11, 0xD0, 0x00, 0x01, 0x00, 0x02, 0x00, 0xC0, 0x01, 0x09,
      0xC1, 0x02, 0x01, 0x00, 0xC2, 0x02, 0x01, 0x01] 9 :=
    ⟨[(0xC0, [0x09]), (0xC1, [0x01, 0x00]), (0xC2, [0x01, 0x01])],
      ⟨⟨rfl, ⟨0x11, rfl, rfl⟩, rfl⟩, by decide⟩, by decide, by decide, by decide⟩
  have hok := (h _ ⟨0x00, 0x16, rfl, rfl, rfl⟩).accepted 9 hp
  revert hok
  decide

end MoonS7
