import MoonS7.Lib.Records
import MoonS7.Plc.Simulator

/-!
# Requests of any number of items

What can be read back from the frames of `build_read_pdu` and `build_write_pdu`, for a list of
items of any length. The items have twelve bytes each and stand one behind the other. The data
section of a write is a second list of records, of different lengths, which can be read in two
ways: by the length each record declares, in bits or in bytes, and by the count and the word
length of the item it belongs to, which is how the simulator does it.

Main results: `buildReadPdu_lossless` and `buildWritePdu_lossless` -- a job is refused exactly if
it is too long, and otherwise every field of the frame is exact and every item is read back; and
`plcServe_buildWritePdu`, what the simulator stores for a write of several items.
-/

namespace MoonS7

open Records

/-! ## 1. The header of a job -/

/-- The two bytes of a frame from place `i` on, as a number. -/
def u16At (f : Frame) (i : Nat) : Option Nat := do
  let a ← f[i]?
  let b ← f[i + 1]?
  return u16 a b

/-- The fields in front of the items. -/
structure JobHeader (f : Frame) (refn plen dlen n : Nat) : Prop where
  tpkt : u16At f 2 = some f.length
  refn : u16At f 11 = some refn
  plen : u16At f 13 = some plen
  dlen : u16At f 15 = some dlen
  count : f[18]?.map UInt8.toNat = some n

section Header

variable {refn : Int32} {fn : UInt8} {n : Nat} {ps wdata : List UInt8}

/-- The places of the fields. -/
theorem job_fields (t₁ t₀ r₁ r₀ p₁ p₀ d₁ d₀ fn c : UInt8) (rest : List UInt8) {f : Frame}
    (hf : f = [0x03, 0x00, t₁, t₀] ++ cotpDt ++ (pid :: 0x01 :: 0x00 :: 0x00 :: r₁ :: r₀ :: p₁ :: p₀ ::
      d₁ :: d₀ :: fn :: c :: rest)) :
    u16At f 2 = some (u16 t₁ t₀) ∧ u16At f 11 = some (u16 r₁ r₀) ∧ u16At f 13 = some (u16 p₁ p₀) ∧
      u16At f 15 = some (u16 d₁ d₀) ∧ f[18]?.map UInt8.toNat = some c.toNat := by
  subst hf
  exact ⟨rfl, rfl, rfl, rfl, rfl⟩

/-- **Every field of a job frame is exact**: none of the lengths and counts of a job that is short
    enough to be sent is cut off at the width of its field. -/
theorem packet_header (h : 2 + ps.length + wdata.length ≤ 947) (hn : n < 256) :
    JobHeader (packet refn ([fn, tb (Int32.ofNat n)] ++ ps) wdata) (refn.toInt % 65536).toNat
      (2 + ps.length) wdata.length n := by
  have hp : ([fn, tb (Int32.ofNat n)] ++ ps).length = 2 + ps.length := by
    rw [List.length_append]
    rfl
  have hlen : (packet refn ([fn, tb (Int32.ofNat n)] ++ ps) wdata).length < 65536 := by
    rw [length_packet, hp]
    omega
  have hr : (refn.toInt % 65536).toNat = bits refn % 65536 := (bits_mod ⟨65536, by decide⟩ refn).symm
  have hc : (tb (Int32.ofNat n)).toNat = n := by
    rw [tb_eq, bits_ofNat, UInt8.toNat_ofNat']
    omega
  obtain ⟨ht, hrefn, hpl, hdl, hcount⟩ := job_fields _ _ _ _ _ _ _ _ fn _ (ps ++ wdata)
    (packet_eq refn ([fn, tb (Int32.ofNat n)] ++ ps) wdata)
  rw [u16_length hlen] at ht
  rw [u16_hi8_lo8, ← hr] at hrefn
  rw [u16_length (by omega), hp] at hpl
  rw [u16_length (by omega)] at hdl
  rw [hc] at hcount
  exact ⟨ht, hrefn, hpl, hdl, hcount⟩

/-- What stands behind the header: the items, then the data. -/
theorem drop_packet : (packet refn ([fn, tb (Int32.ofNat n)] ++ ps) wdata).drop 19 = ps ++ wdata := by
  rw [packet_eq]
  rfl

theorem drop_packet_data :
    (packet refn ([fn, tb (Int32.ofNat n)] ++ ps) wdata).drop (19 + ps.length) = wdata := by
  rw [← List.drop_drop, drop_packet, List.drop_left]

end Header

/-! ## 2. Items -/

/-- What an item names. -/
structure ItemSpec where
  wordLen : Int32
  count : Int32
  db : Int32
  area : Area
  byteOffset : Int32

/-- The area of a code and a DB number. -/
def areaOf (code : UInt8) (db : Int32) : Area :=
  if code = 0x81 then .processInputs
  else if code = 0x82 then .processOutputs
  else if code = 0x83 then .flags
  else if code = 0x84 then .dataBlock db
  else if code = 0x85 then .systemInfo
  else if code = 0x86 then .timer
  else if code = 0x87 then .counter
  else .vendor (toInt code)

/-- What the twelve bytes of an item say, the address shifted down to a byte offset. -/
def PlcItem.spec (it : PlcItem) : ItemSpec where
  wordLen := toInt it.wl
  count := Int32.ofNat it.count
  db := Int32.ofNat it.dbNum
  area := areaOf it.area (Int32.ofNat it.dbNum)
  byteOffset := Int32.ofNat it.byteOff

/-- The place an item names fits its fields: no vendor's area, a DB number, an offset of 21 bits and
    no bit offset, which no public constructor sets. -/
structure Addressable (area : Area) (byteOffset bitOffset : Int32) : Prop where
  noVendor : ∀ v, area ≠ .vendor v
  db : 0 ≤ (adb area).toInt ∧ (adb area).toInt ≤ 65535
  offset : 0 ≤ byteOffset.toInt ∧ byteOffset.toInt < 2 ^ 21
  bit : bitOffset = 0

section Items

/-- A code and a DB number belong to one area, but for the codes a vendor may choose. -/
theorem areaOf_acode {area : Area} (h : ∀ v, area ≠ .vendor v) :
    areaOf (acode area) (adb area) = area := by
  cases area with
  | vendor v => exact absurd rfl (h v)
  | dataBlock n => rfl
  | processInputs => rfl
  | processOutputs => rfl
  | flags => rfl
  | systemInfo => rfl
  | timer => rfl
  | counter => rfl

theorem ofNat_bits (v : Int32) : Int32.ofNat (bits v) = v := by
  apply Int32.toBitVec_inj.mp
  show BitVec.ofNat 32 v.toBitVec.toNat = v.toBitVec
  rw [BitVec.ofNat_toNat, BitVec.setWidth_eq]

/-- A number that fits sixteen bits is read back from them. -/
theorem ofNat_bits_mod {v : Int32} (h₀ : 0 ≤ v.toInt) (h₁ : v.toInt ≤ 65535) :
    Int32.ofNat (bits v % 65536) = v := by
  have hb := bits_of_nonneg h₀
  rw [Nat.mod_eq_of_lt (by omega), ofNat_bits]

theorem toInt_tb {v : Int32} (h₀ : 0 ≤ v.toInt) (h₁ : v.toInt ≤ 255) : toInt (tb v) = v := by
  have hb := bits_of_nonneg h₀
  rw [toInt, tb_eq, UInt8.toNat_ofNat', Nat.mod_eq_of_lt (by omega), ofNat_bits]

/-- **An item is read back** if each part of it fits its field. -/
theorem spec_itemAt {wl c : Int32} {area : Area} {off bit : Int32} (ha : Addressable area off bit)
    (hw : 0 ≤ wl.toInt ∧ wl.toInt ≤ 255) (hc : 0 ≤ c.toInt ∧ c.toInt ≤ 65535) :
    (itemAt wl c area off).spec = ⟨wl, c, adb area, area, off⟩ := by
  have hdb := ofNat_bits_mod ha.db.1 ha.db.2
  have hoff : Int32.ofNat (itemAt wl c area off).byteOff = off := by
    have hb := bits_of_nonneg ha.offset.1
    have := ha.offset.2
    rw [itemAt_byteOff, Nat.mod_eq_of_lt (by omega), ofNat_bits]
  unfold PlcItem.spec
  rw [hoff]
  show ItemSpec.mk (toInt (tb wl)) (Int32.ofNat (bits c % 65536)) (Int32.ofNat (bits (adb area) % 65536))
    (areaOf (acode area) (Int32.ofNat (bits (adb area) % 65536))) off = _
  rw [toInt_tb hw.1 hw.2, ofNat_bits_mod hc.1 hc.2, hdb, areaOf_acode ha.noVendor]

/-- Items of a request, read back one by one in front of whatever is behind them. -/
theorem plcItems_flatMap {α : Type} {wl c off : α → Int32} {area : α → Area} (xs : List α)
    (rest : List UInt8) :
    plcItems xs.length (xs.flatMap (fun x => itemParams (wl x) (c x) (area x) (off x) 0) ++ rest) =
      xs.map fun x => itemAt (wl x) (c x) (area x) (off x) := by
  induction xs with
  | nil => rfl
  | cons x xs ih =>
    rw [List.flatMap_cons, List.append_assoc, List.length_cons, plcItems_cons, ih, List.map_cons]

end Items

/-! ## 3. Read requests -/

/-- An item of a read whose parts all fit the frame. -/
structure ReadItem.Fits (it : ReadItem) : Prop where
  place : Addressable it.area it.byteOffset it.bitOffset
  wordLen : 0 ≤ it.wordLen.toInt ∧ it.wordLen.toInt ≤ 255
  count : 0 ≤ it.count.toInt ∧ it.count.toInt ≤ 65535

def ReadItem.spec (it : ReadItem) : ItemSpec :=
  ⟨it.wordLen, it.count, adb it.area, it.area, it.byteOffset⟩

/-- The items of a read request, read back in order. -/
theorem plcItems_readParams {items : List ReadItem} (h : ∀ it ∈ items, it.Fits)
    (rest : List UInt8) :
    (plcItems items.length (items.flatMap ReadItem.params ++ rest)).map PlcItem.spec =
      items.map ReadItem.spec := by
  have hp : items.flatMap ReadItem.params = items.flatMap fun it =>
      itemParams it.wordLen it.count it.area it.byteOffset 0 := by
    apply List.flatMap_congr
    intro it hit
    rw [ReadItem.params, (h it hit).place.bit]
  rw [hp, plcItems_flatMap, List.map_map]
  apply List.map_congr_left
  intro it hit
  have hf := h it hit
  exact spec_itemAt hf.place hf.wordLen hf.count

/-- **Read requests are lossless**: a job of `n` items is refused exactly if `15 + 12 * n` is over
    the limit; otherwise its header is exact and its items are read back in order. -/
theorem buildReadPdu_lossless (items : List ReadItem) (refn : Int32) (h : ∀ it ∈ items, it.Fits) :
    ((∃ e, buildReadPdu items refn = err e) ↔ 960 < 15 + 12 * items.length) ∧
    (15 + 12 * items.length ≤ 960 → ∃ frame, buildReadPdu items refn = .ok frame ∧
      JobHeader frame (refn.toInt % 65536).toNat (2 + 12 * items.length) 0 items.length ∧
      (plcItems items.length (frame.drop 19)).map PlcItem.spec = items.map ReadItem.spec) := by
  have hb := buildReadPdu_eq items refn
  refine ⟨?_, fun hle => ?_⟩
  · rw [hb, refused_iff]
    omega
  · rw [if_pos (by omega)] at hb
    have hl := length_readParams items
    refine ⟨_, hb, ?_, ?_⟩
    · rw [← hl]
      exact packet_header (by rw [hl, List.length_nil]; omega) (by omega)
    · rw [drop_packet]
      exact plcItems_readParams h []

theorem buildReadPdu_lossless_two :
    ∃ frame, buildReadPdu [ReadItem.new (.dataBlock 65535) 2097151 (.byteArray 65535),
        ReadItem.withWordLen .timer 4 .timer wlTimer] 65537 = .ok frame ∧
      u16At frame 11 = some 1 ∧ frame[18]?.map UInt8.toNat = some 2 := by
  have h : ∀ it ∈ [ReadItem.new (.dataBlock 65535) 2097151 (.byteArray 65535),
      ReadItem.withWordLen .timer 4 .timer wlTimer], it.Fits := by
    intro it hit
    simp only [List.mem_cons, List.not_mem_nil, or_false] at hit
    rcases hit with rfl | rfl
    · exact ⟨⟨by rintro v ⟨⟩, by decide, by decide, rfl⟩, by decide, by decide⟩
    · exact ⟨⟨by rintro v ⟨⟩, by decide, by decide, rfl⟩, by decide, by decide⟩
  obtain ⟨frame, hb, hh, -⟩ := (buildReadPdu_lossless _ 65537 h).2 (by decide)
  exact ⟨frame, hb, hh.refn, hh.count⟩

/-! ## 4. The data section of a write -/

/-- The bytes of a data record by the length it declares: bits for the transport size `4`, bytes
    for `3` and `9`. -/
def declaredBytes (ts : UInt8) (len : Nat) : Option Nat :=
  if ts = 0x04 then some (len / 8) else if ts = 0x03 ∨ ts = 0x09 then some len else none

/-- One data record, read by its declared length. -/
def dataRecord : List UInt8 → Option (List UInt8 × List UInt8)
  | _ :: ts :: l₁ :: l₀ :: rest => do
    let k ← declaredBytes ts (u16 l₁ l₀)
    if k ≤ rest.length then some (rest.take k, rest.drop k) else none
  | _ => none

/-- The data of the items `its`, each cut out by the item's count and word length, as the
    simulator does. -/
def plcData : List UInt8 → List PlcItem → List (List UInt8)
  | _, [] => []
  | wd, it :: its =>
    if 4 ≤ wd.length then (wd.drop 4).take it.dataLen :: plcData (wd.drop (4 + it.dataLen)) its
    else [] :: plcData wd its

/-- What the simulator stores is the data of the items, one after the other. -/
theorem storeItems_eq (m : Mem) (wd : List UInt8) (its : List PlcItem) :
    storeItems m wd its =
      (its.zip (plcData wd its)).foldl (fun m p => m.store p.1.region p.1.byteOff p.2) m := by
  induction its generalizing m wd with
  | nil => rfl
  | cons it its ih =>
    rw [storeItems, plcData]
    split
    · rw [List.zip_cons_cons, List.foldl_cons, ih]
    · rw [List.zip_cons_cons, List.foldl_cons, Mem.store_nil, ih]

/-- The word lengths with a size. -/
def wordLens : List Int32 :=
  [wlBit, wlByte, wlChar, wlWord, wlInt, wlDWord, wlDInt, wlReal, wlCounter, wlTimer]

/-- An item of a write whose parts all fit the frame, with data for whole elements. -/
structure WriteItem.Fits (it : WriteItem) : Prop where
  place : Addressable it.area it.byteOffset it.bitOffset
  wordLen : it.wordLen ∈ wordLens
  data : it.data ≠ []
  whole : dataSizeByte it.wordLen ∣ it.data.length

/-- The elements of an item's data. -/
def WriteItem.count (it : WriteItem) : Int32 :=
  Int32.ofNat (it.data.length / dataSizeByte it.wordLen)

def WriteItem.spec (it : WriteItem) : ItemSpec :=
  ⟨it.wordLen, it.count, adb it.area, it.area, it.byteOffset⟩

section Data

/-- What a look at each of the word lengths shows holds of them all. -/
theorem forall_wordLens {P : Int32 → Prop} [DecidablePred P]
    (h : wordLens.all (fun wl => decide (P wl)) = true) (wl : Int32) (hm : wl ∈ wordLens) : P wl :=
  of_decide_eq_true (List.all_eq_true.mp h wl hm)

/-- **The client and the simulator agree on the size of an element.** -/
theorem wordSize_itemAt {wl : Int32} (h : wl ∈ wordLens) (c : Int32) (area : Area) (off : Int32) :
    (itemAt wl c area off).wordSize = dataSizeByte wl :=
  forall_wordLens (P := fun wl => (if tb wl = 0x01 ∨ tb wl = 0x02 ∨ tb wl = 0x03 then 1
    else if tb wl = 0x04 ∨ tb wl = 0x05 ∨ tb wl = 0x1C ∨ tb wl = 0x1D then 2 else 4) =
    dataSizeByte wl) (by decide) wl h

theorem dataSizeByte_pos {wl : Int32} (h : wl ∈ wordLens) : 0 < dataSizeByte wl :=
  forall_wordLens (P := fun wl => 0 < dataSizeByte wl) (by decide) wl h

theorem wordLens_range {wl : Int32} (h : wl ∈ wordLens) : 0 ≤ wl.toInt ∧ wl.toInt ≤ 255 :=
  forall_wordLens (P := fun wl => 0 ≤ wl.toInt ∧ wl.toInt ≤ 255) (by decide) wl h

variable {it : WriteItem}

theorem length_section (it : WriteItem) : it.section.length = 4 + it.data.length := by
  unfold WriteItem.section
  rw [List.length_append]
  rfl

theorem WriteItem.Fits.params (h : it.Fits) :
    it.params = .ok (itemParams it.wordLen it.count it.area it.byteOffset 0) := by
  have hd : ¬ it.data.length < 1 := fun hlt => h.data (List.length_eq_zero_iff.mp (by omega))
  have hs := dataSizeByte_pos h.wordLen
  unfold WriteItem.params
  rw [if_neg hd, if_neg (by omega), h.place.bit]
  rfl

/-- The count of an item fits its field if the data does, and names the data's length. -/
theorem WriteItem.count_range (hlen : it.data.length ≤ 943) :
    bits it.count = it.data.length / dataSizeByte it.wordLen ∧
      0 ≤ it.count.toInt ∧ it.count.toInt ≤ 65535 := by
  have hle : it.data.length / dataSizeByte it.wordLen ≤ it.data.length := Nat.div_le_self _ _
  have hc : it.count.toInt = (it.data.length / dataSizeByte it.wordLen : Nat) :=
    toInt_ofNat_small (by omega)
  have hb : bits it.count = (it.data.length / dataSizeByte it.wordLen) % 2 ^ 32 := bits_ofNat _
  refine ⟨?_, ?_, by omega⟩
  · rw [hb]
    exact Nat.mod_eq_of_lt (by omega)
  · rw [hc]
    exact Int.natCast_nonneg _

theorem WriteItem.Fits.dataLen (h : it.Fits) (hlen : it.data.length ≤ 943) :
    (itemAt it.wordLen it.count it.area it.byteOffset).dataLen = it.data.length := by
  have hb := (count_range hlen).1
  have hle : it.data.length / dataSizeByte it.wordLen ≤ it.data.length := Nat.div_le_self _ _
  have hc : (itemAt it.wordLen it.count it.area it.byteOffset).count =
      it.data.length / dataSizeByte it.wordLen := by
    show bits it.count % 65536 = _
    rw [hb]
    exact Nat.mod_eq_of_lt (by omega)
  rw [PlcItem.dataLen, hc, wordSize_itemAt h.wordLen]
  exact Nat.div_mul_cancel h.whole

/-- **A data record is read back by its declared length**, whatever is behind it. -/
theorem dataRecord_section (hlen : it.data.length ≤ 943) (rest : List UInt8) :
    dataRecord (it.section ++ rest) = some (it.data, rest) := by
  have hread : ∀ {ts : UInt8} {v : Int32}, declaredBytes ts (u16 (hi8 v) (lo8 v)) = some it.data.length →
      dataRecord ([0x00, ts, hi8 v, lo8 v] ++ it.data ++ rest) = some (it.data, rest) := by
    intro ts v hk
    show (do
      let k ← declaredBytes ts (u16 (hi8 v) (lo8 v))
      if k ≤ (it.data ++ rest).length then some ((it.data ++ rest).take k, (it.data ++ rest).drop k)
      else none) = _
    rw [hk]
    show (if it.data.length ≤ (it.data ++ rest).length then _ else _) = _
    rw [if_pos (by rw [List.length_append]; omega), List.take_left, List.drop_left]
  have hbytes : u16 (hi8 (Int32.ofNat it.data.length)) (lo8 (Int32.ofNat it.data.length)) =
      it.data.length := u16_length (by omega)
  unfold WriteItem.section
  by_cases hbit : it.wordLen = wlBit
  · simp only [if_pos hbit, if_pos (Or.inl hbit)]
    apply hread
    rw [hbytes]
    rfl
  · by_cases hct : it.wordLen = wlCounter ∨ it.wordLen = wlTimer
    · simp only [if_neg hbit, if_pos hct, if_pos (Or.inr hct)]
      apply hread
      rw [hbytes]
      rfl
    · have hno : ¬ (it.wordLen = wlBit ∨ it.wordLen = wlCounter ∨ it.wordLen = wlTimer) := by
        rintro (h | h)
        · exact hbit h
        · exact hct h
      simp only [if_neg hbit, if_neg hct, if_neg hno]
      apply hread
      rw [u16_hi8_lo8, bits_shiftLeft_three, bits_ofNat]
      show some _ = some _
      congr 1
      omega

/-- The data of the items, read back by their counts. -/
theorem plcData_sections {items : List WriteItem} (h : ∀ it ∈ items, it.Fits)
    (hlen : ∀ it ∈ items, it.data.length ≤ 943) :
    plcData (items.flatMap WriteItem.section)
      (items.map fun it => itemAt it.wordLen it.count it.area it.byteOffset) =
      items.map WriteItem.data := by
  induction items with
  | nil => rfl
  | cons it items ih =>
    have hd := (h it List.mem_cons_self).dataLen (hlen it List.mem_cons_self)
    have hs := length_section it
    rw [List.flatMap_cons, List.map_cons, plcData, if_pos (by rw [List.length_append]; omega), hd,
      List.map_cons]
    congr 1
    · show (it.data ++ items.flatMap WriteItem.section).take it.data.length = it.data
      rw [List.take_left]
    · rw [← hs, List.drop_left]
      exact ih (fun i hi => h i (List.mem_cons_of_mem _ hi)) fun i hi => hlen i (List.mem_cons_of_mem _ hi)

end Data

/-! ## 5. Write requests -/

section Writes

variable {items : List WriteItem}

/-- The bytes of the items of a write. -/
def writeParams (items : List WriteItem) : List UInt8 :=
  items.flatMap fun it => itemParams it.wordLen it.count it.area it.byteOffset 0

theorem length_writeParams (items : List WriteItem) :
    (writeParams items).length = 12 * items.length :=
  Records.length_flatMap (fun _ => length_itemParams _ _ _ _ _) items

theorem length_sections (items : List WriteItem) :
    (items.flatMap WriteItem.section).length = (items.map fun it => 4 + it.data.length).sum := by
  rw [List.length_flatMap]
  simp only [length_section]

theorem buildWritePdu_fits (h : ∀ it ∈ items, it.Fits) (refn : Int32) :
    buildWritePdu items refn =
      if 2 + (writeParams items).length + (items.flatMap WriteItem.section).length ≤ 947
      then .ok (packet refn ([pw, tb (Int32.ofNat items.length)] ++ writeParams items)
        (items.flatMap WriteItem.section))
      else err (.invalidPdu "PDU too big") :=
  buildWritePdu_of_params (fun it hit => (h it hit).params) refn

/-- In a job that is short enough no item's data is longer than this. -/
theorem length_data_le (h : (items.flatMap WriteItem.section).length ≤ 947) {it : WriteItem}
    (hit : it ∈ items) : it.data.length ≤ 943 := by
  obtain ⟨before, after, rfl⟩ := List.append_of_mem hit
  rw [List.flatMap_append, List.flatMap_cons, List.length_append, List.length_append,
    length_section] at h
  omega

/-- **Write requests are lossless**: a job is refused exactly if it is over the limit; otherwise its
    header is exact, its items are read back in order, and both ways of reading the data section
    give the items' data. -/
theorem buildWritePdu_lossless (items : List WriteItem) (refn : Int32) (h : ∀ it ∈ items, it.Fits) :
    ((∃ e, buildWritePdu items refn = err e) ↔
      960 < 3 + 10 + (2 + 12 * items.length) + (items.map fun it => 4 + it.data.length).sum) ∧
    (3 + 10 + (2 + 12 * items.length) + (items.map fun it => 4 + it.data.length).sum ≤ 960 →
      ∃ frame, buildWritePdu items refn = .ok frame ∧
        JobHeader frame (refn.toInt % 65536).toNat (2 + 12 * items.length)
          (items.map fun it => 4 + it.data.length).sum items.length ∧
        (plcItems items.length (frame.drop 19)).map PlcItem.spec = items.map WriteItem.spec ∧
        records dataRecord items.length (frame.drop (19 + 12 * items.length)) =
          some (items.map WriteItem.data, []) ∧
        plcData (frame.drop (19 + 12 * items.length)) (plcItems items.length (frame.drop 19)) =
          items.map WriteItem.data) := by
  have hb := buildWritePdu_fits h refn
  have hp := length_writeParams items
  have hw := length_sections items
  rw [← hw]
  refine ⟨?_, fun hle => ?_⟩
  · rw [hb, refused_iff]
    omega
  · rw [if_pos (by omega)] at hb
    have hlen : ∀ it ∈ items, it.data.length ≤ 943 := fun it hit => length_data_le (by omega) hit
    refine ⟨_, hb, ?_, ?_, ?_, ?_⟩
    · rw [← hp]
      exact packet_header (by omega) (by omega)
    · rw [drop_packet, writeParams, plcItems_flatMap, List.map_map]
      apply List.map_congr_left
      intro it hit
      have hf := h it hit
      exact spec_itemAt hf.place (wordLens_range hf.wordLen) (WriteItem.count_range (hlen it hit)).2
    · rw [← hp, drop_packet_data, ← List.append_nil (items.flatMap WriteItem.section)]
      exact records_flatMap (fun it hit rest => dataRecord_section (hlen it hit) rest) []
    · rw [← hp, drop_packet_data, drop_packet, writeParams, plcItems_flatMap]
      exact plcData_sections h hlen

/-- The smallest list that has all three units: a bit, a counter and two words, for a data block,
    the counters and the flags. -/
theorem buildWritePdu_lossless_three :
    (∃ frame, buildWritePdu [WriteItem.withWordLen (.dataBlock 7) 3 .bool [1] wlBit,
        WriteItem.withWordLen .counter 0 .counter [0, 9] wlCounter,
        WriteItem.new .flags 2097151 .word [1, 2, 3, 4]] (-1) = .ok frame ∧
      plcData (frame.drop (19 + 12 * 3)) (plcItems 3 (frame.drop 19)) = [[1], [0, 9], [1, 2, 3, 4]]) := by
  have h : ∀ it ∈ [WriteItem.withWordLen (.dataBlock 7) 3 .bool [1] wlBit,
      WriteItem.withWordLen .counter 0 .counter [0, 9] wlCounter,
      WriteItem.new .flags 2097151 .word [1, 2, 3, 4]], it.Fits := by
    intro it hit
    simp only [List.mem_cons, List.not_mem_nil, or_false] at hit
    rcases hit with rfl | rfl | rfl
    · exact ⟨⟨by rintro v ⟨⟩, by decide, by decide, rfl⟩, by decide, by decide, by decide⟩
    · exact ⟨⟨by rintro v ⟨⟩, by decide, by decide, rfl⟩, by decide, by decide, by decide⟩
    · exact ⟨⟨by rintro v ⟨⟩, by decide, by decide, rfl⟩, by decide, by decide, by decide⟩
  obtain ⟨frame, hb, -, -, -, hd⟩ := (buildWritePdu_lossless _ (-1) h).2 (by decide)
  exact ⟨frame, hb, hd⟩

/-- **What the simulator does with a write of several items**: it stores the data of each where the
    item says, in the order of the list. -/
theorem plcServe_buildWritePdu (h : ∀ it ∈ items, it.Fits) {refn : Int32} {frame : Frame}
    (hb : buildWritePdu items refn = .ok frame) (m : Mem) :
    plcServe m frame = some (buildWriteResp (bits refn % 65536),
      items.foldl (fun m it => m.store it.area.region (bits it.byteOffset % 2 ^ 21) it.data) m) := by
  have hp := length_writeParams items
  rw [buildWritePdu_fits h] at hb
  by_cases hle : 2 + (writeParams items).length + (items.flatMap WriteItem.section).length ≤ 947
  · rw [if_pos hle] at hb
    cases hb
    have hlen : ∀ it ∈ items, it.data.length ≤ 943 := fun it hit => length_data_le (by omega) hit
    have hn : (tb (Int32.ofNat items.length)).toNat = items.length := by
      rw [tb_eq, bits_ofNat, UInt8.toNat_ofNat']
      omega
    have hits : plcItems (tb (Int32.ofNat items.length)).toNat (writeParams items) =
        items.map fun it => itemAt it.wordLen it.count it.area it.byteOffset := by
      rw [hn, ← List.append_nil (writeParams items), writeParams, plcItems_flatMap]
    rw [plcServe, parseS7Request_packet refn (by rw [List.length_append]; exact hle)]
    show some (buildWriteResp _, storeItems m (items.flatMap WriteItem.section)
      (plcItems (tb (Int32.ofNat items.length)).toNat (writeParams items))) = _
    rw [hits, storeItems_eq, plcData_sections h hlen, List.zip_map', List.foldl_map]
    simp only [itemAt_region, itemAt_byteOff]
  · rw [if_neg hle] at hb
    cases hb

end Writes

end MoonS7
