import Mathlib.Data.List.TakeWhile
import MoonS7.Client.Operations

/-!
# The CPU's information in parts

A PLC may send a system status list in parts, one in each reply. `cpu_info` asks for a second part if
the first is shorter than the list it expects, and for no third.

Main results: `run_cpuInfo` -- `cpu_info` returns what the parser makes of the first two parts;
`cpuInfo_whole_iff` -- this is the result of the whole list exactly if the first two parts have the
205 bytes the parser wants.
-/

namespace MoonS7

open Interaction Port

/-! ## 1. The fields of a list -/

/-- The longest beginning of `region` without a zero byte. -/
structure LongestNulFree (region s : List UInt8) : Prop where
  pre : s <+: region
  free : 0x00 ∉ s
  longest : ∀ t, t <+: region → 0x00 ∉ t → t.length ≤ s.length

/-- The text of the field of `len` bytes from `start` on. -/
def FieldText (data : List UInt8) (start len : Nat) (text : Text) : Prop :=
  ∃ s, LongestNulFree ((data.drop start).take len) s ∧ text = s.map toInt

/-- The five strings of a list. -/
structure CpuInfoOf (data : List UInt8) (info : CpuInfo) : Prop where
  asName : FieldText data 2 24 info.asName
  moduleName : FieldText data 36 24 info.moduleName
  copyright : FieldText data 104 26 info.copyright
  serialNumber : FieldText data 138 24 info.serialNumber
  moduleTypeName : FieldText data 172 32 info.moduleTypeName

section Fields

theorem longestNulFree_takeWhile (region : List UInt8) :
    LongestNulFree region (region.takeWhile (· ≠ 0x00)) := by
  refine ⟨List.takeWhile_prefix _, fun h => ?_, fun t ht h0 => ?_⟩
  · exact of_decide_eq_true (List.mem_takeWhile_imp (p := fun b : UInt8 => decide (b ≠ 0x00)) h) rfl
  · obtain ⟨u, rfl⟩ := ht
    have hall : ∀ b ∈ t, decide (b ≠ 0x00) = true := by
      intro b hb
      exact decide_eq_true fun h0' => h0 (h0' ▸ hb)
    rw [List.takeWhile_append_of_pos hall, List.length_append]
    exact Nat.le_add_right _ _

theorem strSlice_fieldText (data : List UInt8) (start len : Nat) (h : start ≤ data.length) :
    ∃ text, strSlice data start len = .ok text ∧ FieldText data start len text :=
  ⟨_, strSlice_eq data len h, _, longestNulFree_takeWhile _, rfl⟩

/-- **The strings of a list that is long enough.** -/
theorem parseCpuInfo_ok {data : List UInt8} (h : 205 ≤ data.length) :
    ∃ info, parseCpuInfo data = .ok info ∧ CpuInfoOf data info := by
  obtain ⟨t₁, h₁, f₁⟩ := strSlice_fieldText data 172 32 (by omega)
  obtain ⟨t₂, h₂, f₂⟩ := strSlice_fieldText data 138 24 (by omega)
  obtain ⟨t₃, h₃, f₃⟩ := strSlice_fieldText data 2 24 (by omega)
  obtain ⟨t₄, h₄, f₄⟩ := strSlice_fieldText data 104 26 (by omega)
  obtain ⟨t₅, h₅, f₅⟩ := strSlice_fieldText data 36 24 (by omega)
  unfold parseCpuInfo
  rw [if_neg (by omega), h₁, ok_bind, h₂, ok_bind, h₃, ok_bind, h₄, ok_bind, h₅, ok_bind]
  exact ⟨_, rfl, f₃, f₅, f₄, f₂, f₁⟩

theorem strSlice_append {data rest : List UInt8} {start len : Nat} (h : start + len ≤ data.length) :
    strSlice (data ++ rest) start len = strSlice data start len := by
  rw [strSlice_eq _ _ (by rw [List.length_append]; omega), strSlice_eq _ _ (by omega),
    List.drop_append_of_le_length (by omega),
    List.take_append_of_le_length (by rw [List.length_drop]; omega)]

/-- What is behind the fields changes nothing. -/
theorem parseCpuInfo_append {data : List UInt8} (h : 205 ≤ data.length) (rest : List UInt8) :
    parseCpuInfo (data ++ rest) = parseCpuInfo data := by
  unfold parseCpuInfo
  rw [if_neg (by rw [List.length_append]; omega), if_neg (by omega), strSlice_append (by omega),
    strSlice_append (by omega), strSlice_append (by omega), strSlice_append (by omega),
    strSlice_append (by omega)]

theorem parseCpuInfo_short {data : List UInt8} (h : data.length < 205) :
    parseCpuInfo data = err (.invalidPdu "CPU info too short") := by
  rw [parseCpuInfo, if_pos h]

end Fields

/-! ## 2. One part in each reply -/

/-- A connection on which the frames of a list arrive, one for each receive. -/
def delivery : (c : Call Frame) → List Frame → Reply Frame Frame S7Error c × List Frame
  | .send _, fs => ((.ok () : Except S7Error Unit), fs)
  | .receive, f :: fs => ((.ok f : Except S7Error Frame), fs)
  | .receive, [] => ((.error (.timeout "read timeout") : Except S7Error Frame), [])

/-- The replies that deliver the parts of a list, each behind 41 bytes. -/
def Delivers : List (List UInt8) → List Frame → Prop :=
  List.Forall₂ fun part f => part ≠ [] ∧ 41 ≤ f.length ∧ f.drop 41 = part

section Run

variable {cl : S7Client} {parts : List (List UInt8)} {replies : List Frame}

theorem parseSzlFirst_part {part : List UInt8} {f : Frame}
    (h : part ≠ [] ∧ 41 ≤ f.length ∧ f.drop 41 = part) :
    ∃ szl, parseSzlFirst f = .ok szl ∧ szl.data = part := by
  obtain ⟨hne, hlen, hpart⟩ := h
  have hpos := List.length_pos_of_ne_nil hne
  rw [← hpart, List.length_drop] at hpos
  obtain ⟨b₁, -, h₁⟩ := byteAt_of_lt (show 37 < f.length by omega)
  obtain ⟨b₂, -, h₂⟩ := byteAt_of_lt (show 38 < f.length by omega)
  obtain ⟨b₃, -, h₃⟩ := byteAt_of_lt (show 39 < f.length by omega)
  obtain ⟨b₄, -, h₄⟩ := byteAt_of_lt (show 40 < f.length by omega)
  unfold parseSzlFirst
  rw [if_neg (by omega), h₁, ok_bind, h₂, ok_bind, h₃, ok_bind, h₄, ok_bind]
  exact ⟨_, rfl, hpart⟩

/-- A request, and the part in the reply to it. -/
theorem run_part {β : Type} {f : Frame} {szl : SzlData} (h : parseSzlFirst f = .ok szl)
    (q : Frame) (k : SzlData → Client β) (fs : List Frame) :
    run delivery (do
      send Stop.err q
      let resp ← receive Stop.err
      let szl ← ofResult (parseSzlFirst resp)
      k szl : Client β).run (f :: fs) = run delivery (k szl).run fs := by
  show run delivery (ofResult (parseSzlFirst f) >>= k).run fs = _
  rw [h, ofResult_ok_bind]

/-- **`cpu_info` reads two parts**, of a list that has enough bytes. -/
theorem run_cpuInfo (hc : cl.connected = true) (h : Delivers parts replies)
    (hlen : 205 ≤ parts.flatten.length) :
    (run delivery cl.cpuInfo.run replies).1 = parseCpuInfo (parts.take 2).flatten := by
  unfold S7Client.cpuInfo szlRead
  rw [if_neg (by rw [hc]; decide)]
  cases h with
  | nil => simp at hlen
  | @cons part f parts fs hp h =>
    obtain ⟨szl, hszl, hdata⟩ := parseSzlFirst_part hp
    rw [run_part hszl, hdata]
    by_cases hshort : part.length < 205
    · rw [if_pos hshort]
      cases h with
      | nil =>
        simp at hlen
        omega
      | @cons part' f' parts fs hp' h =>
        obtain ⟨szl', hszl', hdata'⟩ := parseSzlFirst_part hp'
        rw [run_part hszl', hdata', ofResult_run, run_ret]
        show parseCpuInfo (part ++ part') = parseCpuInfo (part ++ (part' ++ []))
        rw [List.append_nil]
    · rw [if_neg hshort, ofResult_run, run_ret, List.take_succ_cons, List.flatten_cons,
        parseCpuInfo_append (Nat.le_of_not_lt hshort)]

/-- `cpu_info` returns what the parser makes of the whole list: the five strings of the list. -/
structure ReadsWhole (cl : S7Client) (replies : List Frame) (data : List UInt8) : Prop where
  result : (run delivery cl.cpuInfo.run replies).1 = parseCpuInfo data
  fields : ∃ info, parseCpuInfo data = .ok info ∧ CpuInfoOf data info

/-- **The parts do not matter exactly if** the first two are long enough. -/
theorem cpuInfo_whole_iff (hc : cl.connected = true) (h : Delivers parts replies)
    (hlen : 205 ≤ parts.flatten.length) :
    ReadsWhole cl replies parts.flatten ↔ 205 ≤ (parts.take 2).flatten.length := by
  have hrun := run_cpuInfo hc h hlen
  obtain ⟨info, hinfo, hof⟩ := parseCpuInfo_ok hlen
  constructor
  · intro hw
    by_contra hshort
    rw [parseCpuInfo_short (Nat.lt_of_not_le hshort), hw.result, hinfo] at hrun
    cases hrun
  · intro h2
    refine ⟨?_, info, hinfo, hof⟩
    rw [hrun, ← parseCpuInfo_append h2 (parts.drop 2).flatten, ← List.flatten_append,
      List.take_append_drop]

end Run

/-- A reply to a request for a list: 41 bytes, which `cpu_info` does not use, and the part. -/
def szlReply (part : List UInt8) : Frame := List.replicate 41 0x00 ++ part

theorem delivers_szlReply {parts : List (List UInt8)} (h : ∀ p ∈ parts, p ≠ []) :
    Delivers parts (parts.map szlReply) := by
  induction parts with
  | nil => exact .nil
  | cons p parts ih =>
    refine .cons ⟨h p List.mem_cons_self, ?_, ?_⟩ (ih fun q hq => h q (List.mem_cons_of_mem _ hq))
    · rw [szlReply, List.length_append, List.length_replicate]
      exact Nat.le_add_right _ _
    · exact List.drop_left' List.length_replicate

/-- The length of a list whose parts are one byte repeated. -/
theorem length_parts (xs : List (Nat × UInt8)) :
    (xs.map fun x => List.replicate x.1 x.2).flatten.length = (xs.map Prod.fst).sum := by
  rw [List.length_flatten, List.map_map]
  simp only [Function.comp_def, List.length_replicate]

/-- A list of 205 bytes in two parts. -/
theorem cpuInfo_whole_two :
    ∃ info, (run delivery (S7Client.cpuInfo { S7Client.new with connected := true }).run
      [szlReply (List.replicate 100 0x41), szlReply (List.replicate 105 0x00)]).1 = .ok info := by
  have hd : Delivers [List.replicate 100 0x41, List.replicate 105 0x00] _ :=
    delivers_szlReply (by simp)
  have hlen : 205 ≤ [List.replicate 100 (0x41 : UInt8), List.replicate 105 0x00].flatten.length :=
    Nat.le_of_eq (length_parts [(100, 0x41), (105, 0x00)]).symm
  have hw : ReadsWhole { S7Client.new with connected := true } _ _ :=
    (cpuInfo_whole_iff rfl hd hlen).mpr hlen
  obtain ⟨info, hinfo, -⟩ := hw.fields
  exact ⟨info, hw.result.trans hinfo⟩

/-- **A list in three parts** is too short for `cpu_info`. -/
theorem cpuInfo_whole_refuted :
    ¬ ∀ (cl : S7Client) (parts : List (List UInt8)) (replies : List Frame), cl.connected = true →
      Delivers parts replies → 205 ≤ parts.flatten.length → ReadsWhole cl replies parts.flatten := by
  intro h
  have hd : Delivers [List.replicate 70 0x41, List.replicate 70 0x41, List.replicate 70 0x41] _ :=
    delivers_szlReply (by simp)
  have hlen : 205 ≤ [List.replicate 70 (0x41 : UInt8), List.replicate 70 0x41,
      List.replicate 70 0x41].flatten.length :=
    Nat.le_trans (by decide) (Nat.le_of_eq (length_parts [(70, 0x41), (70, 0x41), (70, 0x41)]).symm)
  have h2 : [List.replicate 70 (0x41 : UInt8), List.replicate 70 0x41].flatten.length < 205 :=
    Nat.lt_of_le_of_lt (Nat.le_of_eq (length_parts [(70, 0x41), (70, 0x41)])) (by decide)
  have hw := h { S7Client.new with connected := true } _ _ rfl hd hlen
  obtain ⟨info, hinfo, -⟩ := hw.fields
  have hres := hw.result
  rw [run_cpuInfo rfl hd hlen] at hres
  cases (parseCpuInfo_short h2).symm.trans (hres.trans hinfo)

end MoonS7
