import MoonS7.Client.Client

/-!
# Integers written and read back

The four pairs of accessors for integers. What the writer of a pair makes of a value, the reader
turns back into the value, modulo the size of the field: `int` and `dint` into the signed number of
its residue class, `word` and `dword` into the unsigned one.

Main result: `accessors_agree`.
-/

namespace MoonS7

open Interaction Port BigEndian

/-! ## 1. Words -/

theorem wordBytes_eq (v : Int32) : wordBytes v = beBytes (bits v) 2 := by
  have hhi : tb ((v >>> 8) &&& 0xFF) = UInt8.ofNat (bits v / 256) := hi8_eq v
  have hlo : tb (v &&& 0xFF) = UInt8.ofNat (bits v) := lo8_eq v
  rw [wordBytes, hhi, hlo]
  simp [beBytes]

/-- Adding `65536` to a negative value leaves the lower half alone. -/
theorem intBytes_eq (v : Int32) : intBytes v = beBytes (bits v) 2 := by
  have hadd : bits (v + 65536) % 256 ^ 2 = bits v % 256 ^ 2 := by
    rw [bits_add, show bits 65536 = 65536 by decide]
    omega
  rw [intBytes, wordBytes_eq]
  split
  · rw [← beBytes_mod, hadd, beBytes_mod]
  · rfl

theorem wordValue_eq {bs : List UInt8} (h : bs.length = 2) :
    wordValue bs = .ok (Int32.ofNat (beNat bs)) := by
  obtain ⟨b0, b1, rfl⟩ := List.length_eq_two.mp h
  show (Except.ok (be16 b0 b1) : S7Result Int32) = _
  rw [be16_eq]
  simp [beNat]

theorem intValue_eq {bs : List UInt8} (h : bs.length = 2) :
    ∃ r, intValue bs = .ok r ∧ -32768 ≤ r.toInt ∧ r.toInt ≤ 32767 ∧
      r.toInt % 2 ^ 16 = beNat bs % 2 ^ 16 := by
  obtain ⟨b0, b1, rfl⟩ := List.length_eq_two.mp h
  have hlt : beNat [b0, b1] < 256 ^ 2 := beNat_lt [b0, b1]
  have hu : be16 b0 b1 = Int32.ofNat (beNat [b0, b1]) := by
    rw [be16_eq]
    simp [beNat]
  have hrun : intValue [b0, b1] = .ok (if be16 b0 b1 ≥ 32768 then be16 b0 b1 - 65536 else be16 b0 b1) :=
    rfl
  generalize beNat [b0, b1] = n at hlt hu ⊢
  have hn : (Int32.ofNat n).toInt = n := toInt_ofNat_small (by omega)
  rw [hrun, hu]
  refine ⟨_, rfl, ?_⟩
  by_cases hge : Int32.ofNat n ≥ 32768
  · have hle : (32768 : Int) ≤ (Int32.ofNat n).toInt := Int32.le_iff_toInt_le.mp hge
    -- the difference is the number whose sum with 65536 is `n`
    have hsum : bits (Int32.ofNat n - 65536 + 65536) = n := by
      rw [Int32.sub_add_cancel, bits_ofNat, Nat.mod_eq_of_lt (by omega)]
    rw [bits_add, show bits 65536 = 65536 by decide] at hsum
    have hbits := bits_toInt (Int32.ofNat n - 65536)
    have h₁ := (Int32.ofNat n - 65536).le_toInt
    have h₂ := (Int32.ofNat n - 65536).toInt_lt
    rw [if_pos hge]
    omega
  · have hlt : (Int32.ofNat n).toInt < 32768 := Int32.lt_iff_toInt_lt.mp (Int32.not_le.mp hge)
    rw [if_neg hge, hn]
    omega

/-! ## 2. The accessors -/

/-- The writer writes the bytes `bs` to the data block; the reader reads as many from there, and
    makes `a` of them. -/
structure ReadsBack {α : Type} (cl : S7Client) (db start : Int32) (write : Client Unit)
    (read : Client α) (bs : List UInt8) (size : Int32) (dec : List UInt8 → S7Result α) (a : α) :
    Prop where
  writes : write = chunkedWrite cl (.db db) start bs
  reads : read = chunkedRead cl (.db db) start size >>= fun b => ofResult (dec b)
  covers : size.toInt = bs.length
  decodes : dec bs = .ok a

section Accessors

variable (cl : S7Client) (db start v : Int32)

theorem int_readsBack : ∃ r, ReadsBack cl db start (cl.agWriteInt db start v)
    (cl.agReadInt db start) (intBytes v) 2 intValue r ∧
    -32768 ≤ r.toInt ∧ r.toInt ≤ 32767 ∧ r.toInt % 2 ^ 16 = v.toInt % 2 ^ 16 := by
  have hlen : (beBytes (bits v) 2).length = 2 := length_beBytes _ _
  obtain ⟨r, hr, h₁, h₂, hmod⟩ := intValue_eq hlen
  rw [beNat_beBytes_mod] at hmod
  have hv := bits_toInt v
  rw [← intBytes_eq] at hlen hr
  exact ⟨r, ⟨(ValueWrite.int db v).eq, (ValueRead.int db).eq, by rw [hlen]; rfl, hr⟩, h₁, h₂, by omega⟩

theorem word_readsBack : ∃ r, ReadsBack cl db start (cl.agWriteWord db start v)
    (cl.agReadWord db start) (wordBytes v) 2 wordValue r ∧
    0 ≤ r.toInt ∧ r.toInt ≤ 65535 ∧ r.toInt % 2 ^ 16 = v.toInt % 2 ^ 16 := by
  have hlen : (beBytes (bits v) 2).length = 2 := length_beBytes _ _
  have hr := wordValue_eq hlen
  have hlt : bits v % 256 ^ 2 < 256 ^ 2 := Nat.mod_lt _ (by decide)
  rw [beNat_beBytes_mod] at hr
  have hv := bits_toInt v
  rw [← wordBytes_eq] at hlen hr
  refine ⟨_, ⟨(ValueWrite.word db v).eq, (ValueRead.word db).eq, by rw [hlen]; rfl, hr⟩, ?_⟩
  rw [toInt_ofNat_small (by omega)]
  omega

theorem dint_readsBack : ReadsBack cl db start (cl.agWriteDInt db start v)
    (cl.agReadDInt db start) (dintToBytes v) 4
    (fun b => (DIntField.new db start b).map DIntField.value) v := by
  have hlen : (beBytes (bits v) 4).length = 4 := length_beBytes _ _
  obtain ⟨f, hf, hbits, -⟩ := dint_exact db start hlen
  rw [beNat_beBytes (bits_lt v)] at hbits
  rw [← dintToBytes_eq] at hlen hf
  refine ⟨(ValueWrite.dint db v).eq, (ValueRead.dint db).eq, by rw [hlen]; rfl, ?_⟩
  simp only [hf, bits_inj hbits, Except.map]

theorem dword_readsBack (w : Int64) : ∃ r, ReadsBack cl db start (cl.agWriteDWord db start w)
    (cl.agReadDWord db start) (dwordToBytes w) 4
    (fun b => (DWordField.new db start b).map DWordField.value) r ∧
    0 ≤ r.toInt ∧ r.toInt ≤ 2 ^ 32 - 1 ∧ r.toInt % 2 ^ 32 = w.toInt % 2 ^ 32 := by
  have hlen : (beBytes (bits64 w) 4).length = 4 := length_beBytes _ _
  obtain ⟨f, hf, hval, -⟩ := dword_exact db start hlen
  have hlt : bits64 w % 256 ^ 4 < 256 ^ 4 := Nat.mod_lt _ (by decide)
  rw [beNat_beBytes_mod] at hval
  have hw := bits64_toInt w
  rw [← dwordToBytes_eq] at hlen hf
  refine ⟨f.value, ⟨(ValueWrite.dword db w).eq, (ValueRead.dword db).eq, by rw [hlen]; rfl, ?_⟩, ?_⟩
  · simp only [hf, Except.map]
  · omega

/-- **The accessors agree modulo the size of a field**: the reader of a pair gives the number in its
    range that is congruent to the one written. The two 32-bit fields agree on all bytes, and give
    them back. -/
theorem accessors_agree (w : Int64) :
    (∃ r, ReadsBack cl db start (cl.agWriteInt db start v) (cl.agReadInt db start) (intBytes v) 2
      intValue r ∧ -32768 ≤ r.toInt ∧ r.toInt ≤ 32767 ∧ r.toInt % 2 ^ 16 = v.toInt % 2 ^ 16) ∧
    (∃ r, ReadsBack cl db start (cl.agWriteWord db start v) (cl.agReadWord db start) (wordBytes v) 2
      wordValue r ∧ 0 ≤ r.toInt ∧ r.toInt ≤ 65535 ∧ r.toInt % 2 ^ 16 = v.toInt % 2 ^ 16) ∧
    ReadsBack cl db start (cl.agWriteDInt db start v) (cl.agReadDInt db start) (dintToBytes v) 4
      (fun b => (DIntField.new db start b).map DIntField.value) v ∧
    (∃ r, ReadsBack cl db start (cl.agWriteDWord db start w) (cl.agReadDWord db start)
      (dwordToBytes w) 4 (fun b => (DWordField.new db start b).map DWordField.value) r ∧
      0 ≤ r.toInt ∧ r.toInt ≤ 2 ^ 32 - 1 ∧ r.toInt % 2 ^ 32 = w.toInt % 2 ^ 32) ∧
    ∀ b0 b1 b2 b3 : UInt8, ∃ i u, DIntField.new db start [b0, b1, b2, b3] = .ok i ∧
      DWordField.new db start [b0, b1, b2, b3] = .ok u ∧
      i.value.toInt % 2 ^ 32 = u.value.toInt % 2 ^ 32 ∧
      i.toBytes = [b0, b1, b2, b3] ∧ u.toBytes = [b0, b1, b2, b3] := by
  refine ⟨int_readsBack cl db start v, word_readsBack cl db start v, dint_readsBack cl db start v,
    dword_readsBack cl db start w, fun b0 b1 b2 b3 => ?_⟩
  have hlen : [b0, b1, b2, b3].length = 4 := rfl
  obtain ⟨i, hi, hbits, hbytes⟩ := dint_exact db start hlen
  obtain ⟨u, hu, hval, hbytes'⟩ := dword_exact db start hlen
  have hmod := bits_toInt i.value
  refine ⟨i, u, hi, hu, ?_, hbytes, hbytes'⟩
  rw [hval, ← hbits, hmod, Int.emod_emod]

end Accessors

end MoonS7
