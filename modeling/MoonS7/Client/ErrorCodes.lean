import MoonS7.Client.Client

/-!
# The code of an error reply

An error reply of the PLC carries an error class and code, two bytes behind the twelve of its
header's fixed part. A read looks for them if the frame goes on behind them; a write returns the
item's return code in their place.

Main result: `code_kept_iff` -- a read and a write both return the code of a reply exactly if it is
the return code as well.
-/

namespace MoonS7

open Interaction Port Ranges

/-! ## 1. Error replies -/

/-- A reply with a header at index 7, the error flag, and the error class and code `c`. -/
structure ErrorReply (f : Frame) (c : Int32) : Prop where
  header : isHeader msgType f 7 = true
  flag : ∃ mt, f[8]? = some mt ∧ errorFlag mt = true
  code : ∃ hi lo, f[17]? = some hi ∧ f[18]? = some lo ∧ c = Int32.ofNat (256 * hi.toNat + lo.toNat)

/-- The result is the PLC's error `c`. -/
def Tells {α : Type} (c : Int32) (x : S7Result α) : Prop := ∃ msg, x = err (.plcError c msg)

/-- `parse_response` returns the code `c` for `f`, and so do all reads and writes that get `f` as an
    answer. -/
structure CodeKept (f : Frame) (c : Int32) : Prop where
  parsed : Tells c (parseResponse f)
  read : ∀ (cl : S7Client) (db start size : Int32) (tr : List (Event Frame Frame S7Error))
    (x : S7Result (List UInt8)),
    Follows (cl.agRead db start size).run tr x → f ∈ answers tr → Tells c x
  written : ∀ (cl : S7Client) (db start : Int32) (data : List UInt8)
    (tr : List (Event Frame Frame S7Error)) (x : S7Result Unit),
    Follows (cl.agWrite db start data).run tr x → f ∈ answers tr → Tells c x

/-! ## 2. The two checks, by the place of the header -/

section Checks

variable {f : Frame} {s : Nat} (hs : findS7 f = some s) {c : Int32}

include hs

theorem tells_writeReply_iff :
    Tells c (writeReply f) ↔ ∃ rc, f[s + 14]? = some rc ∧ rc ≠ 0xFF ∧ toInt rc = c := by
  unfold writeReply
  simp only [hs]
  by_cases hl : f.length ≤ s + 14
  · rw [if_pos hl, List.getElem?_eq_none hl]
    constructor
    · intro h
      obtain ⟨msg, h⟩ := h
      cases h
    · intro h
      obtain ⟨rc, h, -⟩ := h
      cases h
  · obtain ⟨b, hb, hb'⟩ := byteAt_of_lt (Nat.lt_of_not_le hl)
    rw [if_neg hl, hb', ok_bind, hb]
    constructor
    · intro h
      obtain ⟨msg, h⟩ := h
      by_cases hrc : toInt b ≠ 0xFF
      · rw [if_pos hrc] at h
        cases h
        exact ⟨b, rfl, fun e => hrc (toInt_eq_ff.mpr e), rfl⟩
      · rw [if_neg hrc] at h
        cases h
    · intro h
      obtain ⟨rc, hrc, hff, rfl⟩ := h
      cases hrc
      exact ⟨_, if_pos fun e => hff (toInt_eq_ff.mp e)⟩

/-- With the error flag a read takes the two bytes, if the frame goes on behind them. -/
theorem parseResponse_flag {mt hi lo : UInt8} (hmt : f[s + 1]? = some mt)
    (hflag : errorFlag mt = true) (hhi : f[s + 10]? = some hi) (hlo : f[s + 11]? = some lo) :
    parseResponse f = err (.plcError (if s + 12 < f.length then be16 hi lo else 0) "PLC error") := by
  have hlt := lt_of_findS7 hs
  unfold parseResponse
  simp only [hs, if_neg (show ¬ f.length < s + 2 by omega), byteAt_ok hmt, ok_bind, hflag, if_true,
    byteAt_ok hhi, byteAt_ok hlo]
  split <;> rfl

theorem tells_noFlag_iff {mt rc : UInt8} (hmt : f[s + 1]? = some mt) (hflag : errorFlag mt = false)
    (hrc : f[s + 14]? = some rc) (hff : rc ≠ 0xFF) :
    Tells (toInt rc) (parseResponse f) ↔ s + 18 ≤ f.length := by
  have hlt := lt_of_findS7 hs
  unfold parseResponse
  simp only [hs, if_neg (show ¬ f.length < s + 2 by omega), byteAt_ok hmt, ok_bind, hflag,
    Bool.false_eq_true, if_false, byteAt_ok hrc]
  constructor
  · intro h
    obtain ⟨msg, h⟩ := h
    by_contra hl
    rw [if_pos (Nat.lt_of_not_le hl)] at h
    cases h
  · intro hl
    rw [if_neg (Nat.not_lt.mpr hl), if_pos fun e => hff (toInt_eq_ff.mp e)]
    exact ⟨_, rfl⟩

end Checks

/-! ## 3. The runs -/

section Runs

variable {f : Frame} {c : Int32}

/-- A write of one byte returns what the check makes of its answer. -/
theorem follows_one_write (f : Frame) :
    ∃ tr, Follows (S7Client.agWrite { S7Client.new with connected := true } 1 0 [0]).run tr
      (writeReply f) ∧ f ∈ answers tr := by
  obtain ⟨q, hq⟩ : ∃ q : Frame,
      writeReqs { S7Client.new with connected := true } (.db 1) 0 [0] = [.ok q] := by
    rw [writeReqs, cuts_single _ (by decide) (by decide)]
    exact ⟨_, rfl⟩
  refine ⟨[Event.sent q (.ok ()), Event.got (.ok f)], ?_, List.mem_cons_self⟩
  rw [(ByteWrite.ag 1).eq, chunkedWrite_eq rfl, hq]
  cases hr : writeReply f with
  | error d => exact follows_ofResult_iff.mpr ⟨_, follows_session_iff.mpr (.rejected _ _ hr), rfl⟩
  | ok u => exact follows_ofResult_iff.mpr ⟨_, follows_session_iff.mpr (.accepted _ hr .done), rfl⟩

/-- The codes agree: the return code is `c` and not `0xFF`, and what a read makes of a frame with
    its first header at `s` is `c` too. -/
structure Coincides (f : Frame) (s : Nat) (c : Int32) : Prop where
  returnCode : ∃ rc, f[s + 14]? = some rc ∧ rc ≠ 0xFF ∧ toInt rc = c
  flag : ∀ mt, f[s + 1]? = some mt → errorFlag mt = true →
    ∃ hi lo, f[s + 10]? = some hi ∧ f[s + 11]? = some lo ∧ be16 hi lo = c
  noFlag : ∀ mt, f[s + 1]? = some mt → errorFlag mt = false → s + 18 ≤ f.length

theorem codeKept_at_iff {s : Nat} (hs : findS7 f = some s) : CodeKept f c ↔ Coincides f s c := by
  obtain ⟨mt, hmt, -⟩ := byteAt_of_lt (lt_of_findS7 hs)
  constructor
  · intro h
    obtain ⟨tr, hf, hmem⟩ := follows_one_write f
    obtain ⟨rc, hrc, hff, rfl⟩ := (tells_writeReply_iff hs).mp (h.written _ _ _ _ _ _ hf hmem)
    have hlen := (List.getElem?_eq_some_iff.mp hrc).1
    refine ⟨⟨rc, hrc, hff, rfl⟩, fun mt' hmt' hflag => ?_, fun mt' hmt' hflag => ?_⟩
    · obtain ⟨hi, hhi, -⟩ := byteAt_of_lt (show s + 10 < f.length by omega)
      obtain ⟨lo, hlo, -⟩ := byteAt_of_lt (show s + 11 < f.length by omega)
      obtain ⟨msg, hp⟩ := h.parsed
      rw [parseResponse_flag hs hmt' hflag hhi hlo, if_pos (by omega), Except.error.injEq,
        Stop.err.injEq, S7Error.plcError.injEq] at hp
      exact ⟨hi, lo, hhi, hlo, hp.1⟩
    · exact (tells_noFlag_iff hs hmt' hflag hrc hff).mp h.parsed
  · intro h
    obtain ⟨rc, hrc, hff, rfl⟩ := h.returnCode
    have hlen := (List.getElem?_eq_some_iff.mp hrc).1
    have hparsed : Tells (toInt rc) (parseResponse f) := by
      cases hflag : errorFlag mt with
      | false => exact (tells_noFlag_iff hs hmt hflag hrc hff).mpr (h.noFlag mt hmt hflag)
      | true =>
        obtain ⟨hi, lo, hhi, hlo, hc⟩ := h.flag mt hmt hflag
        exact ⟨_, by rw [parseResponse_flag hs hmt hflag hhi hlo, if_pos (by omega), hc]⟩
    have hwritten := (tells_writeReply_iff hs).mpr ⟨rc, hrc, hff, rfl⟩
    obtain ⟨msg, hp⟩ := hparsed
    obtain ⟨msg', hw⟩ := hwritten
    have hcheck : readCheck f = err (.plcError (toInt rc) msg) := by
      rw [readCheck, hp]
      rfl
    refine ⟨⟨msg, hp⟩, fun cl db start size tr x hf hmem => ?_,
      fun cl db start data tr x hf hmem => ?_⟩
    · exact ⟨msg, (ByteRead.ag db).of_rejected hf hmem hcheck⟩
    · exact ⟨msg', (ByteWrite.ag db).of_rejected hf hmem hw⟩

end Runs

/-- **The code of an error reply is kept exactly if** it coincides with the return code; in a frame
    without a header before index 7, if the class is zero and the code the return code. -/
theorem code_kept_iff {f : Frame} {c : Int32} (h : ErrorReply f c) :
    ∃ s, s ≤ 7 ∧ findS7 f = some s ∧ (CodeKept f c ↔ Coincides f s c) ∧
      (s = 7 → (CodeKept f c ↔ f[17]? = some 0 ∧ f[21]? = f[18]? ∧ f[18]? ≠ some 0xFF)) := by
  obtain ⟨s, hs, hle⟩ := findHeader_of_isHeader h.header
  refine ⟨s, hle, hs, codeKept_at_iff hs, ?_⟩
  rintro rfl
  obtain ⟨mt, hmt, hflag⟩ := h.flag
  obtain ⟨hi, lo, hhi, hlo, rfl⟩ := h.code
  have hval : be16 hi lo = Int32.ofNat (256 * hi.toNat + lo.toNat) := by
    rw [be16_eq, Nat.mul_comm]
  have hrcval : ∀ rc : UInt8, toInt rc = Int32.ofNat (256 * hi.toNat + lo.toNat) ↔
      hi = 0 ∧ rc = lo := by
    intro rc
    have h₁ := hi.toNat_lt
    have h₂ := lo.toNat_lt
    have h₃ := rc.toNat_lt
    have hz : (0 : UInt8).toNat = 0 := rfl
    rw [← UInt8.toNat_inj, ← UInt8.toNat_inj, hz]
    constructor
    · intro e
      have e' := congrArg bits e
      rw [bits_byte, bits_ofNat] at e'
      omega
    · intro e
      obtain ⟨e₁, e₂⟩ := e
      rw [toInt, e₁, e₂, Nat.mul_zero, Nat.zero_add]
  rw [codeKept_at_iff hs, hhi, hlo]
  constructor
  · intro hc
    obtain ⟨rc, hrc, hff, hval'⟩ := hc.returnCode
    obtain ⟨rfl, rfl⟩ := (hrcval rc).mp hval'
    exact ⟨rfl, hrc, fun e => hff (Option.some.inj e)⟩
  · intro hc
    obtain ⟨hhi', hrc, hff⟩ := hc
    cases hhi'
    refine ⟨⟨lo, hrc, fun e => hff (by rw [e]), (hrcval lo).mpr ⟨rfl, rfl⟩⟩, fun _ _ _ => ?_,
      fun mt' hmt' hno => ?_⟩
    · exact ⟨0, lo, hhi, hlo, hval⟩
    · cases hmt.symm.trans hmt'
      cases hflag.symm.trans hno

/-- The header of an error reply and nothing behind it, error `0x8504`. -/
def headerOnly : Frame :=
  [0x03, 0x00, 0x00, 0x13, 0x02, 0xF0, 0x80, 0x32, 0x83, 0x00, 0x00, 0x00, 0x01, 0x00, 0x00, 0x00,
    0x00, 0x85, 0x04]

theorem errorReply_headerOnly : ErrorReply headerOnly 0x8504 :=
  ⟨by decide, ⟨_, rfl, by decide⟩, _, _, rfl, rfl, by decide⟩

theorem code_kept_headerOnly : ∃ s, s ≤ 7 ∧ findS7 headerOnly = some s ∧
    (CodeKept headerOnly 0x8504 ↔ Coincides headerOnly s 0x8504) ∧
    (s = 7 → (CodeKept headerOnly 0x8504 ↔ headerOnly[17]? = some 0 ∧
      headerOnly[21]? = headerOnly[18]? ∧ headerOnly[18]? ≠ some 0xFF)) :=
  code_kept_iff errorReply_headerOnly

/-- **A code that is lost**: the read of a frame that ends with its code returns `0`. -/
theorem code_kept_refuted : ¬ ∀ (f : Frame) (c : Int32), ErrorReply f c → CodeKept f c := by
  intro h
  obtain ⟨msg, hp⟩ := (h _ _ errorReply_headerOnly).parsed
  have hs : findS7 headerOnly = some 7 := by decide +kernel
  rw [parseResponse_flag hs rfl (by decide) rfl rfl, if_neg (by decide), Except.error.injEq,
    Stop.err.injEq, S7Error.plcError.injEq] at hp
  exact absurd hp.1 (by decide)

end MoonS7
