import Mathlib.Logic.Function.Basic
import MoonS7.Lib.Port
import MoonS7.Lib.Ranges
import MoonS7.Protocol.Replies

/-!
# The PLC (`tools/s7_sim.py`)

The repository's simulator as a function from a request and a memory to a reply and a memory. Two
things are general here that the simulator cuts short: every area has a memory, not only the data
blocks, and a memory has a byte at every offset, so that no read is short.

Main results: what the PLC does with the two requests of the client, `plcServe_readFrame` and
`plcServe_writeFrame`, for arbitrary 32-bit fields; and that the client's checks take its replies,
`parseResponse_buildReadResp` and `writeReply_writeResp`.
-/

namespace MoonS7

open Ranges

/-! ## 1. Memory -/

/-- A part of the PLC's memory with offsets of its own: a data block, or an area. -/
inductive Region where
  | db (n : Nat)
  | inputs
  | outputs
  | flags
  | other (area : UInt8)
  deriving DecidableEq

abbrev Mem : Type := Region → Nat → UInt8

/-- `m` with `bs` stored in `r` from offset `off` on. -/
def Mem.store (m : Mem) (r : Region) (off : Nat) (bs : List UInt8) : Mem :=
  Function.update m r (splice (m r) off bs)

theorem Mem.store_same (m : Mem) (r : Region) (off : Nat) (bs : List UInt8) :
    m.store r off bs r = splice (m r) off bs := Function.update_self r _ m

theorem Mem.store_other (m : Mem) {r r' : Region} (h : r' ≠ r) (off : Nat) (bs : List UInt8) :
    m.store r off bs r' = m r' := Function.update_of_ne h _ m

theorem Mem.store_nil (m : Mem) (r : Region) (off : Nat) : m.store r off [] = m := by
  rw [Mem.store, splice_nil, Function.update_eq_self]

/-- Storing `a ++ b` is storing `a`, then `b` right behind it. -/
theorem Mem.store_append (m : Mem) (r : Region) (off : Nat) (a b : List UInt8) :
    m.store r off (a ++ b) = (m.store r off a).store r (off + a.length) b := by
  rw [Mem.store, Mem.store, Mem.store_same, Mem.store, Function.update_idem, splice_append]

/-- Storing a further piece of `data` behind the first `s` bytes. -/
theorem Mem.store_take (m : Mem) (r : Region) (off : Nat) {data : List UInt8} {s : Nat}
    (h : s ≤ data.length) (c : Nat) :
    (m.store r off (data.take s)).store r (off + s) ((data.drop s).take c) =
      m.store r off (data.take (s + c)) := by
  have hs : (data.take s).length = s := by
    rw [List.length_take]
    omega
  rw [List.take_add, Mem.store_append, hs]

/-! ## 2. Requests -/

/-- The message types the simulator looks for; it does not mask the error flag. -/
def simMsgType (b : UInt8) : Bool := b == 0x01 || b == 0x03 || b == 0x07

def findS7Header (data : List UInt8) : Option Nat := findHeader simMsgType data

structure Request where
  msgType : UInt8
  refn : Nat
  params : List UInt8
  data : List UInt8
  deriving DecidableEq

/-- Two bytes, most significant first. -/
def u16 (a b : UInt8) : Nat := a.toNat * 256 + b.toNat

/-- A frame without a header, or with a header that is cut off, is no request. -/
def parseS7Request (data : List UInt8) : Option Request := do
  let s7 ← findS7Header data
  match data.drop s7 with
  | _ :: mt :: _ :: _ :: r1 :: r0 :: p1 :: p0 :: d1 :: d0 :: rest =>
    let plen := u16 p1 p0
    let dlen := u16 d1 d0
    some { msgType := mt, refn := u16 r1 r0, params := rest.take plen,
           data := (rest.drop plen).take dlen }
  | _ => none

/-- An item as the frame names it. -/
structure PlcItem where
  wl : UInt8
  count : Nat
  dbNum : Nat
  area : UInt8
  addr : Nat
  deriving DecidableEq

def PlcItem.byteOff (it : PlcItem) : Nat := it.addr / 8

def PlcItem.wordSize (it : PlcItem) : Nat :=
  if it.wl = 0x01 ∨ it.wl = 0x02 ∨ it.wl = 0x03 then 1
  else if it.wl = 0x04 ∨ it.wl = 0x05 ∨ it.wl = 0x1C ∨ it.wl = 0x1D then 2
  else 4

def PlcItem.dataLen (it : PlcItem) : Nat := it.count * it.wordSize

/-- The region of an area code and a DB number. -/
def regionOf (area : UInt8) (dbNum : Nat) : Region :=
  if area = 0x84 then .db dbNum
  else if area = 0x81 then .inputs
  else if area = 0x82 then .outputs
  else if area = 0x83 then .flags
  else .other area

def PlcItem.region (it : PlcItem) : Region := regionOf it.area it.dbNum

/-- The items of a request, of twelve bytes each; a cut-off item ends the list. -/
def plcItems : Nat → List UInt8 → List PlcItem
  | n + 1, _ :: _ :: _ :: wl :: c1 :: c0 :: d1 :: d0 :: area :: a2 :: a1 :: a0 :: rest =>
    { wl, count := u16 c1 c0, dbNum := u16 d1 d0, area, addr := a2.toNat * 65536 + u16 a1 a0 } ::
      plcItems n rest
  | _, _ => []

/-- The items a request names. -/
def Request.items (req : Request) : List PlcItem :=
  match req.params with
  | _ :: n :: rest => plcItems n.toNat rest
  | _ => []

/-! ## 3. Replies -/

def buildReadResp (data : List UInt8) (refn : Nat) : List UInt8 :=
  let dlen := data.length
  let totalDataLen := 4 + dlen
  let totalPkt := 4 + 3 + 10 + 4 + totalDataLen
  [0x03, 0x00, UInt8.ofNat (totalPkt / 256), UInt8.ofNat totalPkt, 0x02, 0xF0, 0x80, 0x32, 0x03,
    0x00, 0x00, UInt8.ofNat (refn / 256), UInt8.ofNat refn, 0x00, 0x04,
    UInt8.ofNat (totalDataLen / 256), UInt8.ofNat totalDataLen, 0x00, 0x00, 0x00, 0x00, 0xFF, 0x04,
    UInt8.ofNat (dlen / 256), UInt8.ofNat dlen] ++ data

/-- The reply to a write, with the item's return code `rc`; the simulator's is `0xFF`. -/
def writeResp (rc : UInt8) (refn : Nat) : List UInt8 :=
  [0x03, 0x00, 0x00, 0x16, 0x02, 0xF0, 0x80, 0x32, 0x03, 0x00, 0x00, UInt8.ofNat (refn / 256),
    UInt8.ofNat refn, 0x00, 0x02, 0x00, 0x01, 0x00, 0x00, 0x05, 0x01, rc]

def buildWriteResp (refn : Nat) : List UInt8 := writeResp 0xFF refn

/-- The items of a write, each with a 4-byte header and its bytes in the data section `wd`. -/
def storeItems : Mem → List UInt8 → List PlcItem → Mem
  | m, _, [] => m
  | m, wd, it :: its =>
    if 4 ≤ wd.length then
      storeItems (m.store it.region it.byteOff ((wd.drop 4).take it.dataLen))
        (wd.drop (4 + it.dataLen)) its
    else storeItems m wd its

def handleS7Request (m : Mem) (req : Request) : Option (Frame × Mem) :=
  match req.params with
  | func :: _ :: _ =>
    if func = 0x04 then
      some (buildReadResp (req.items.flatMap fun it => window (m it.region) it.byteOff it.dataLen)
        req.refn, m)
    else if func = 0x05 then some (buildWriteResp req.refn, storeItems m req.data req.items)
    else none
  | _ => none

/-- The reply to a frame and the memory after it. -/
def plcServe (m : Mem) (frame : Frame) : Option (Frame × Mem) :=
  (parseS7Request frame).bind (handleS7Request m)

/-! ## 4. The client's requests, as the PLC reads them -/

section Decode

theorem u16_ofNat (n : Nat) : u16 (UInt8.ofNat (n / 256)) (UInt8.ofNat n) = n % 65536 := by
  simp only [u16, UInt8.toNat_ofNat']
  omega

theorem u16_hi8_lo8 (v : Int32) : u16 (hi8 v) (lo8 v) = bits v % 65536 := by
  rw [hi8_eq, lo8_eq, u16_ofNat]

theorem u16_length {k : Nat} (h : k < 65536) : u16 (hi8 (Int32.ofNat k)) (lo8 (Int32.ofNat k)) = k := by
  rw [u16_hi8_lo8, bits_ofNat]
  omega

/-- The length of a job that is not too long to be sent does not look like a header. -/
theorem hi8_packet_ne_pid (refn : Int32) {params wdata : List UInt8}
    (h : params.length + wdata.length ≤ 947) :
    hi8 (Int32.ofNat (packet refn params wdata).length) ≠ pid := by
  intro e
  rw [hi8_ofNat, length_packet] at e
  have := congrArg UInt8.toNat e
  rw [UInt8.toNat_ofNat', show pid.toNat = 50 from rfl] at this
  omega

/-- A job frame that is not too long for the client to send is read back whole. -/
theorem parseS7Request_packet (refn : Int32) {params wdata : List UInt8}
    (h : params.length + wdata.length ≤ 947) :
    parseS7Request (packet refn params wdata) = some ⟨0x01, bits refn % 65536, params, wdata⟩ := by
  rw [packet_eq, parseS7Request, findS7Header,
    findHeader_frame (by decide) (hi8_packet_ne_pid refn h) (by decide)]
  show some (Request.mk 0x01 (u16 (hi8 refn) (lo8 refn)) ((params ++ wdata).take (u16 _ _))
    (((params ++ wdata).drop (u16 _ _)).take (u16 _ _))) = _
  rw [u16_length (show params.length < 65536 by omega), u16_length (show wdata.length < 65536 by omega),
    u16_hi8_lo8, List.take_left, List.drop_left, List.take_length]

/-- The item of a request, as the PLC reads it: DB number, count and address are cut off at the
    width of their fields. -/
def itemAt (wl c : Int32) (area : Area) (off : Int32) : PlcItem where
  wl := tb wl
  count := bits c % 65536
  dbNum := bits (adb area) % 65536
  area := acode area
  addr := bits off * 8 % 2 ^ 24

/-- The region the PLC finds for an area: the DB number is cut off at 16 bits. -/
def Area.region (area : Area) : Region := regionOf (acode area) (bits (adb area) % 65536)

theorem itemAt_region (wl c : Int32) (area : Area) (off : Int32) :
    (itemAt wl c area off).region = area.region := rfl

/-- An item read back in front of the others. -/
theorem plcItems_cons (wl c : Int32) (area : Area) (off : Int32) (n : Nat) (rest : List UInt8) :
    plcItems (n + 1) (itemParams wl c area off 0 ++ rest) = itemAt wl c area off :: plcItems n rest := by
  have ha : ((off <<< (3 : Int32)) ||| (0 : Int32)) = off <<< (3 : Int32) := Int32.or_zero
  have haddr : (tb (((off <<< 3) >>> 16) &&& 0xFF)).toNat * 65536 +
      u16 (tb (((off <<< 3) >>> 8) &&& 0xFF)) (tb ((off <<< 3) &&& 0xFF)) = bits off * 8 % 2 ^ 24 := by
    have h8 := hi8_eq (off <<< 3)
    have h0 := lo8_eq (off <<< 3)
    rw [hi8] at h8
    rw [lo8] at h0
    rw [h8, h0, tb_shift16, bits_shiftLeft_three, u16_ofNat, UInt8.toNat_ofNat']
    omega
  simp only [itemParams, ha]
  show PlcItem.mk _ (u16 (hi8 c) (lo8 c)) (u16 (hi8 (adb area)) (lo8 (adb area))) _
    (_ * 65536 + u16 _ _) :: plcItems n rest = _
  rw [haddr, u16_hi8_lo8, u16_hi8_lo8]
  rfl

theorem plcItems_itemParams (wl c : Int32) (area : Area) (off : Int32) :
    plcItems 1 (itemParams wl c area off 0) = [itemAt wl c area off] := by
  have h := plcItems_cons wl c area off 0 []
  rw [List.append_nil] at h
  exact h

theorem itemAt_byteOff (wl c : Int32) (area : Area) (off : Int32) :
    (itemAt wl c area off).byteOff = bits off % 2 ^ 21 := by
  show bits off * 8 % 2 ^ 24 / 8 = _
  omega

theorem itemAt_dataLen (c : Int32) (area : Area) (off : Int32) :
    (itemAt wlByte c area off).dataLen = bits c % 65536 := by
  show bits c % 65536 * (if tb wlByte = 0x01 ∨ tb wlByte = 0x02 ∨ tb wlByte = 0x03 then 1 else _) = _
  rw [if_pos (by decide), Nat.mul_one]

/-- **What the PLC reads for the client**: the bytes of the item the frame names. -/
theorem plcServe_readFrame (m : Mem) (area : Area) (off c refn : Int32) :
    plcServe m (readFrame area off c refn) =
      some (buildReadResp (window (m area.region) (bits off % 2 ^ 21) (bits c % 65536))
        (bits refn % 65536), m) := by
  rw [plcServe, readFrame, parseS7Request_packet _ (Nat.le_of_ble_eq_true rfl)]
  show some (buildReadResp ((plcItems 1 (itemParams wlByte c area off 0)).flatMap _) _, m) = _
  rw [plcItems_itemParams, List.flatMap_cons, List.flatMap_nil, List.append_nil, itemAt_byteOff,
    itemAt_dataLen, itemAt_region]

/-- **What the PLC writes for the client**: the bytes of the frame, at the item the frame names. -/
theorem plcServe_writeFrame (m : Mem) (area : Area) (off refn : Int32) {chunk : List UInt8}
    (h : chunk.length ≤ 929) :
    plcServe m (writeFrame area off chunk refn) =
      some (buildWriteResp (bits refn % 65536), m.store area.region (bits off % 2 ^ 21) chunk) := by
  have hlen : (itemAt wlByte (Int32.ofNat chunk.length) area off).dataLen = chunk.length := by
    rw [itemAt_dataLen, bits_ofNat]
    omega
  rw [plcServe, writeFrame, parseS7Request_packet _ (by
    simp only [List.length_append, length_itemParams, List.length_cons, List.length_nil]
    omega)]
  show some (buildWriteResp _, storeItems m ([0x00, 0x04, _, _] ++ chunk)
    (plcItems 1 (itemParams wlByte (Int32.ofNat chunk.length) area off 0))) = _
  rw [plcItems_itemParams]
  show some (buildWriteResp _, m.store _ (itemAt wlByte (Int32.ofNat chunk.length) area off).byteOff
    (chunk.take (itemAt wlByte (Int32.ofNat chunk.length) area off).dataLen)) = _
  rw [itemAt_byteOff, hlen, List.take_length]
  rfl

/-- The ranges a frame names, as the PLC reads them: region, offset and number of bytes. -/
def asked (frame : Frame) : List (Region × Nat × Nat) :=
  ((parseS7Request frame).elim [] Request.items).map fun it => (it.region, it.byteOff, it.dataLen)

theorem asked_readFrame (area : Area) (off c refn : Int32) :
    asked (readFrame area off c refn) = [(area.region, bits off % 2 ^ 21, bits c % 65536)] := by
  rw [asked, readFrame, parseS7Request_packet _ (Nat.le_of_ble_eq_true rfl)]
  show (plcItems 1 (itemParams wlByte c area off 0)).map _ = _
  rw [plcItems_itemParams, List.map_singleton, itemAt_byteOff, itemAt_dataLen, itemAt_region]

theorem asked_writeFrame (area : Area) (off refn : Int32) {chunk : List UInt8}
    (h : chunk.length ≤ 929) :
    asked (writeFrame area off chunk refn) =
      [(area.region, bits off % 2 ^ 21, chunk.length)] := by
  rw [asked, writeFrame, parseS7Request_packet _ (by
    simp only [List.length_append, length_itemParams, List.length_cons, List.length_nil]
    omega)]
  show (plcItems 1 (itemParams wlByte (Int32.ofNat chunk.length) area off 0)).map _ = _
  rw [plcItems_itemParams, List.map_singleton, itemAt_byteOff, itemAt_dataLen, itemAt_region,
    bits_ofNat]
  congr 3
  omega

end Decode

/-! ## 5. The PLC's replies, as the client reads them -/

/-- A read reply whose header is found is taken whole. -/
theorem parseResponse_of_header {data : List UInt8} {refn : Nat}
    (h : findS7 (buildReadResp data refn) = some 7) :
    parseResponse (buildReadResp data refn) = .ok [data] := by
  rw [parseResponse_ok_iff]
  refine ⟨7, ⟨h, ⟨0x03, rfl, by decide⟩, ?_, rfl⟩, rfl⟩
  show 25 ≤ (_ ++ data).length
  rw [List.length_append]
  exact Nat.le_add_right 25 _

/-- **A read reply is taken whole**, whatever its payload looks like. -/
theorem parseResponse_buildReadResp {data : List UInt8} (h : data.length < 12775) (refn : Nat) :
    parseResponse (buildReadResp data refn) = .ok [data] := by
  have hhi : UInt8.ofNat ((4 + 3 + 10 + 4 + (4 + data.length)) / 256) ≠ pid := by
    intro e
    have := congrArg UInt8.toNat e
    rw [UInt8.toNat_ofNat', show pid.toNat = 50 from rfl] at this
    omega
  exact parseResponse_of_header (findS7_frame hhi (by decide))

/-- The client's check of a write reply sees the return code. -/
theorem writeReply_writeResp (rc : UInt8) (refn : Nat) :
    writeReply (writeResp rc refn) = .ok () ↔ rc = 0xFF := by
  have hf : findS7 (writeResp rc refn) = some 7 := findS7_frame (by decide) (by decide)
  rw [writeReply_ok_iff]
  constructor
  · rintro ⟨s7, h₁, h₂⟩
    cases hf.symm.trans h₁
    exact Option.some.inj h₂
  · rintro rfl
    exact ⟨7, hf, rfl⟩

/-! ## 6. Areas by name -/

/-- `Names area r`: the area the caller gives is the region `r` -- for a data block, if its
    number is one. -/
inductive Names : Area → Region → Prop where
  | db {n : Int32} (h₀ : 0 ≤ n.toInt) (h₁ : n.toInt < 65536) : Names (.dataBlock n) (.db n.toInt.toNat)
  | inputs : Names .processInputs .inputs
  | outputs : Names .processOutputs .outputs
  | flags : Names .flags .flags

/-- The PLC finds the region the caller named. -/
theorem Names.region {area : Area} {r : Region} (h : Names area r) : area.region = r := by
  cases h with
  | @db n h₀ h₁ =>
    show Region.db (bits n % 65536) = _
    rw [bits_of_nonneg h₀, Nat.mod_eq_of_lt (by omega)]
  | inputs => rfl
  | outputs => rfl
  | flags => rfl

end MoonS7
