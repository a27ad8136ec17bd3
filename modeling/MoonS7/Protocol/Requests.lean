import MoonS7.Lib.Records
import MoonS7.Protocol.Bytes
import MoonS7.Protocol.Types

/-!
# Request frames (`protocol/s7comm.mbt`, 34-68 and 160-417)

The frames the client sends: read and write jobs of any number of items, the setup job and the
COTP connection request. The source fills arrays of a length computed beforehand; the parts are
joined here in the order in which it fills them.

Main results: `buildReadPdu_eq` and `buildWritePdu_of_params` (a job is refused exactly if it is
longer than `MAX_PDU`), and the frames of one byte-array item, `buildReadPdu_bytes` and
`buildWritePdu_bytes`, which are the only jobs the client sends.
-/

namespace MoonS7

/-- A frame on the wire, from its TPKT header on. -/
abbrev Frame : Type := List UInt8

def pid : UInt8 := 0x32

def maxPdu : Nat := 960

def pr : UInt8 := 0x04

def pw : UInt8 := 0x05

def cotpDt : List UInt8 := [0x02, 0xF0, 0x80]

def acode : Area → UInt8
  | .processInputs => tb 0x81
  | .processOutputs => tb 0x82
  | .flags => tb 0x83
  | .dataBlock _ => tb 0x84
  | .systemInfo => tb 0x85
  | .timer => tb 0x86
  | .counter => tb 0x87
  | .vendor v => tb v

def adb : Area → Int32
  | .dataBlock v => v
  | _ => 0

def mkHdr (mt : UInt8) (refn plen dlen : Int32) : List UInt8 :=
  [pid, mt, 0x00, 0x00, hi8 refn, lo8 refn, hi8 plen, lo8 plen, hi8 dlen, lo8 dlen]

/-! ## 1. Items -/

/-- The twelve bytes of an item, the same in a read and in a write: word length, element count,
    DB number, area code and the 24-bit bit address. -/
def itemParams (wordLen count : Int32) (area : Area) (byteOffset bitOffset : Int32) : List UInt8 :=
  let a := (byteOffset <<< 3) ||| bitOffset
  [0x12, 0x0A, 0x10, tb wordLen, hi8 count, lo8 count, hi8 (adb area), lo8 (adb area), acode area,
    tb ((a >>> 16) &&& 0xFF), tb ((a >>> 8) &&& 0xFF), tb (a &&& 0xFF)]

def ReadItem.params (it : ReadItem) : List UInt8 :=
  itemParams it.wordLen it.count it.area it.byteOffset it.bitOffset

/-- The element count of a write, `dl / data_size_byte(word_len)`: the division aborts for a word
    length without a size. -/
def WriteItem.params (it : WriteItem) : S7Result (List UInt8) :=
  let dl := it.data.length
  if dl < 1 then .ok (itemParams it.wordLen 1 it.area it.byteOffset it.bitOffset)
  else if dataSizeByte it.wordLen = 0 then .error .abort
  else .ok (itemParams it.wordLen (Int32.ofNat (dl / dataSizeByte it.wordLen)) it.area
    it.byteOffset it.bitOffset)

/-- The data section of an item: the length is in bits, but in bytes for bits, counters and
    timers. -/
def WriteItem.section (it : WriteItem) : List UInt8 :=
  let dl := Int32.ofNat it.data.length
  let ts := if it.wordLen = wlBit then tb 3
    else if it.wordLen = wlCounter ∨ it.wordLen = wlTimer then tb 9
    else tb 4
  let bitLen := if it.wordLen = wlBit ∨ it.wordLen = wlCounter ∨ it.wordLen = wlTimer then dl
    else dl <<< 3
  [0x00, ts, hi8 bitLen, lo8 bitLen] ++ it.data

/-! ## 2. Jobs -/

/-- A whole job frame: TPKT, COTP, S7 header, parameters and data. -/
def packet (refn : Int32) (params wdata : List UInt8) : List UInt8 :=
  let hdr := mkHdr 0x01 refn (Int32.ofNat params.length) (Int32.ofNat wdata.length)
  let tlen := cotpDt.length + hdr.length + params.length + wdata.length + 4
  [0x03, 0x00, hi8 (Int32.ofNat tlen), lo8 (Int32.ofNat tlen)] ++ cotpDt ++ hdr ++ params ++ wdata

/-- The end of both builders: a job that is too long is refused. -/
def finishPdu (refn : Int32) (params wdata : List UInt8) : S7Result (List UInt8) :=
  let hdr := mkHdr 0x01 refn (Int32.ofNat params.length) (Int32.ofNat wdata.length)
  let total := cotpDt.length + hdr.length + params.length + wdata.length
  if maxPdu < total then err (.invalidPdu "PDU too big") else .ok (packet refn params wdata)

def buildReadPdu (items : List ReadItem) (refn : Int32) : S7Result (List UInt8) :=
  let n := items.length
  finishPdu refn ([pr, tb (Int32.ofNat n)] ++ items.flatMap ReadItem.params) []

def buildWritePdu (items : List WriteItem) (refn : Int32) : S7Result (List UInt8) := do
  let n := items.length
  let ps ← items.mapM WriteItem.params
  finishPdu refn ([pw, tb (Int32.ofNat n)] ++ ps.flatten) (items.flatMap WriteItem.section)

/-! ## 3. Connection and setup -/

def buildSetupPdu (_refn _call _called : Int32) : List UInt8 :=
  let pduSize : Int32 := 960
  [0x03, 0x00, 0x00, 0x19, 0x02, 0xF0, 0x80, pid, 0x01, 0x00, 0x00, 0x00, 0x00,
    0x00, 0x08, 0x00, 0x00, 0xF0, 0x00, 0x00, 0x08, 0x00, 0x08, hi8 pduSize, lo8 pduSize]

def buildCotpCr (lsap rsap : List UInt8) : List UInt8 :=
  let sl := lsap.length
  let rl := rsap.length
  let total := 18 + sl + rl
  [0x03, 0x00, hi8 (Int32.ofNat total), lo8 (Int32.ofNat total), 0x11, 0xE0, 0x00, 0x00, 0x00, 0x02,
    0x00, 0xC0, 0x01, 0x0A, 0xC1, tb (Int32.ofNat sl)] ++ lsap ++ [0xC2, tb (Int32.ofNat rl)] ++ rsap

/-! ## 4. What the builders return -/

section Lengths

@[simp] theorem length_mkHdr (mt : UInt8) (refn plen dlen : Int32) :
    (mkHdr mt refn plen dlen).length = 10 := rfl

@[simp] theorem length_itemParams (wl c : Int32) (area : Area) (off bit : Int32) :
    (itemParams wl c area off bit).length = 12 := rfl

@[simp] theorem length_packet (refn : Int32) (params wdata : List UInt8) :
    (packet refn params wdata).length = 17 + params.length + wdata.length := by
  simp only [packet, List.length_append, length_mkHdr, cotpDt, List.length_cons, List.length_nil]

end Lengths

/-- The bytes of a job frame. -/
theorem packet_eq (refn : Int32) (params wdata : List UInt8) :
    packet refn params wdata =
      [0x03, 0x00, hi8 (Int32.ofNat (packet refn params wdata).length),
        lo8 (Int32.ofNat (packet refn params wdata).length)] ++ cotpDt ++
      (pid :: 0x01 :: 0x00 :: 0x00 :: hi8 refn :: lo8 refn ::
        hi8 (Int32.ofNat params.length) :: lo8 (Int32.ofNat params.length) ::
        hi8 (Int32.ofNat wdata.length) :: lo8 (Int32.ofNat wdata.length) :: (params ++ wdata)) := by
  have hlen : cotpDt.length + (mkHdr 0x01 refn (Int32.ofNat params.length)
      (Int32.ofNat wdata.length)).length + params.length + wdata.length + 4 =
      (packet refn params wdata).length := by
    simp only [length_packet, cotpDt, length_mkHdr, List.length_cons, List.length_nil]
    omega
  rw [← hlen, packet, List.append_assoc]
  rfl

/-- The end of a builder, by the length of the job. -/
theorem finishPdu_eq (refn : Int32) (params wdata : List UInt8) :
    finishPdu refn params wdata =
      if params.length + wdata.length ≤ 947 then .ok (packet refn params wdata)
      else err (.invalidPdu "PDU too big") := by
  have h : maxPdu < cotpDt.length + (mkHdr 0x01 refn (Int32.ofNat params.length)
      (Int32.ofNat wdata.length)).length + params.length + wdata.length ↔
      ¬ params.length + wdata.length ≤ 947 := by
    simp only [maxPdu, cotpDt, length_mkHdr, List.length_cons, List.length_nil]
    omega
  unfold finishPdu
  simp only [h, ite_not]

theorem length_readParams (items : List ReadItem) :
    (items.flatMap ReadItem.params).length = 12 * items.length :=
  Records.length_flatMap (fun _ => length_itemParams _ _ _ _ _) items

/-- A job with a limit is refused exactly beyond it. -/
theorem refused_iff {α : Type} {c : Prop} [Decidable c] {a : α} {e : S7Error} :
    (∃ e', (if c then .ok a else err e : S7Result α) = err e') ↔ ¬ c := by
  split
  next hc =>
    refine ⟨fun ⟨e', he⟩ => ?_, fun hn => absurd hc hn⟩
    cases he
  next hc => exact ⟨fun _ => hc, fun _ => ⟨e, rfl⟩⟩

/-- **A read job is refused exactly if it is too long**, that is from 79 items on. -/
theorem buildReadPdu_eq (items : List ReadItem) (refn : Int32) :
    buildReadPdu items refn =
      if items.length ≤ 78 then
        .ok (packet refn ([pr, tb (Int32.ofNat items.length)] ++ items.flatMap ReadItem.params) [])
      else err (.invalidPdu "PDU too big") := by
  have h : ([pr, tb (Int32.ofNat items.length)] ++ items.flatMap ReadItem.params).length +
      ([] : List UInt8).length ≤ 947 ↔ items.length ≤ 78 := by
    rw [List.length_append, length_readParams, List.length_nil]
    show 2 + _ + 0 ≤ 947 ↔ _
    omega
  rw [buildReadPdu, finishPdu_eq]
  simp only [h]

/-- **A write job is refused exactly if it is too long**, where every item has its parameters. -/
theorem buildWritePdu_of_params {items : List WriteItem} {g : WriteItem → List UInt8}
    (h : ∀ it ∈ items, it.params = .ok (g it)) (refn : Int32) :
    buildWritePdu items refn =
      if 2 + (items.flatMap g).length + (items.flatMap WriteItem.section).length ≤ 947
      then .ok (packet refn ([pw, tb (Int32.ofNat items.length)] ++ items.flatMap g)
        (items.flatMap WriteItem.section))
      else err (.invalidPdu "PDU too big") := by
  have hm : items.mapM WriteItem.params = .ok (items.map g) := by
    induction items with
    | nil => rfl
    | cons it items ih =>
      have hrest := ih fun i hi => h i (List.mem_cons_of_mem _ hi)
      rw [List.mapM_cons, h it List.mem_cons_self]
      show (do let bs ← items.mapM WriteItem.params; pure (g it :: bs)) = _
      rw [hrest]
      rfl
  have hc : ([pw, tb (Int32.ofNat items.length)] ++ items.flatMap g).length =
      2 + (items.flatMap g).length := by
    rw [List.length_append]
    rfl
  unfold buildWritePdu
  rw [hm]
  show finishPdu refn (_ ++ (items.map g).flatten) _ = _
  rw [← List.flatMap_def, finishPdu_eq]
  simp only [hc]

/-- The parameters of a write item whose word length has a size. -/
def WriteItem.sizedParams (it : WriteItem) : List UInt8 :=
  itemParams it.wordLen
    (if it.data.length < 1 then 1 else Int32.ofNat (it.data.length / dataSizeByte it.wordLen))
    it.area it.byteOffset it.bitOffset

theorem WriteItem.params_ok (it : WriteItem) (h : dataSizeByte it.wordLen ≠ 0) :
    it.params = .ok it.sizedParams := by
  unfold WriteItem.params WriteItem.sizedParams
  by_cases hd : it.data.length < 1
  · simp only [if_pos hd]
  · simp only [if_neg hd, if_neg h]

/-! ## 5. The jobs of the client: one item of bytes -/

/-- The request for `c` bytes of `area` from offset `off` on. -/
def readFrame (area : Area) (off c refn : Int32) : List UInt8 :=
  packet refn ([pr, 1] ++ itemParams wlByte c area off 0) []

/-- The request to write `chunk` to `area` from offset `off` on. -/
def writeFrame (area : Area) (off : Int32) (chunk : List UInt8) (refn : Int32) : List UInt8 :=
  let n := Int32.ofNat chunk.length
  packet refn ([pw, 1] ++ itemParams wlByte n area off 0)
    ([0x00, 0x04, hi8 (n <<< 3), lo8 (n <<< 3)] ++ chunk)

@[simp] theorem length_readFrame (area : Area) (off c refn : Int32) :
    (readFrame area off c refn).length = 31 := by
  rw [readFrame, length_packet]
  rfl

@[simp] theorem length_writeFrame (area : Area) (off : Int32) (chunk : List UInt8) (refn : Int32) :
    (writeFrame area off chunk refn).length = 35 + chunk.length := by
  simp only [writeFrame, length_packet, List.length_append, length_itemParams, List.length_cons,
    List.length_nil]
  omega

theorem buildReadPdu_bytes (area : Area) (off c refn : Int32) :
    buildReadPdu [ReadItem.new area off (.byteArray c)] refn = .ok (readFrame area off c refn) := by
  rw [buildReadPdu_eq, if_pos (by simp)]
  rfl

/-- **A write of bytes is refused exactly if there are more than 929 of them.** -/
theorem buildWritePdu_bytes (area : Area) (off c refn : Int32) {chunk : List UInt8}
    (h : 0 < chunk.length) :
    buildWritePdu [WriteItem.new area off (.byteArray c) chunk] refn =
      if chunk.length ≤ 929 then .ok (writeFrame area off chunk refn)
      else err (.invalidPdu "PDU too big") := by
  have hp : (WriteItem.new area off (.byteArray c) chunk).params =
      .ok (itemParams wlByte (Int32.ofNat chunk.length) area off 0) := by
    have hd : ¬ (WriteItem.new area off (.byteArray c) chunk).data.length < 1 := Nat.not_lt.mpr h
    have hw : dataSizeByte (WriteItem.new area off (.byteArray c) chunk).wordLen = 1 := by
      show dataSizeByte wlByte = 1
      decide
    simp only [WriteItem.params, if_neg hd, hw, Nat.div_one]
    rfl
  have hs : (WriteItem.new area off (.byteArray c) chunk).section =
      [0x00, 0x04, hi8 (Int32.ofNat chunk.length <<< 3), lo8 (Int32.ofNat chunk.length <<< 3)] ++
        chunk := rfl
  have hall : ∀ it ∈ [WriteItem.new area off (.byteArray c) chunk], it.params =
      .ok (itemParams wlByte (Int32.ofNat chunk.length) area off 0) := by
    intro it hit
    rw [List.mem_singleton.mp hit, hp]
  have hc : 2 + (itemParams wlByte (Int32.ofNat chunk.length) area off 0).length +
      ([0x00, 0x04, hi8 (Int32.ofNat chunk.length <<< 3), lo8 (Int32.ofNat chunk.length <<< 3)] ++
        chunk).length ≤ 947 ↔ chunk.length ≤ 929 := by
    simp only [List.length_append, length_itemParams, List.length_cons, List.length_nil]
    omega
  rw [buildWritePdu_of_params hall]
  simp only [List.flatMap_cons, List.flatMap_nil, hs, List.append_nil, hc]
  rfl

end MoonS7
