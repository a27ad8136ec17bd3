import MoonS7.Client.Accesses
import MoonS7.Client.Setup
import MoonS7.Lib.Series
import MoonS7.Plc.Server
import MoonS7.Protocol.ConnectionRequest
import MoonS7.Transport.Peers

/-!
# The client on the simulator

The client and the repository's own simulator, from `connect` on: what each operation of the public
API comes to there, with the blocks as the simulator keeps them (`ClientOp.simEffect`).

Main result: `conversation_simulated` -- where each write is taken by one `recv` of the simulator, a
client connects with a PDU size of 480, and any list of operations then returns what they come to on
the blocks, one after the other, and leaves the blocks they leave.
-/

namespace MoonS7

open Interaction Port Ranges

/-! ## 1. Ranges of the blocks -/

/-- The blocks once `r` is accessed. -/
def touched (d : DbMemory) : Region → DbMemory
  | .db k => ensureDb d k 256
  | _ => d

/-- What a read of a range returns: the part of it inside of the block, or zeros. -/
def simBytes (d : DbMemory) (r : Region) (off n : Nat) : List UInt8 :=
  match r with
  | .db k => slice ((touched d r).bytes k) off n
  | _ => List.replicate n 0

/-- A write to a range: what is inside of the block is stored. -/
def simWrite (d : DbMemory) (r : Region) (off : Nat) (bs : List UInt8) : DbMemory :=
  match r with
  | .db k => Function.update (touched d r) k (some (clip ((touched d r).bytes k) off bs))
  | _ => d

/-- A data block, or an area of zeros that takes no writes. -/
theorem block_or_zeros (r : Region) : (∃ k, r = .db k) ∨ ∀ d, touched d r = d ∧ ∀ off,
    (∀ n, simBytes d r off n = List.replicate n 0) ∧ ∀ bs, simWrite d r off bs = d := by
  cases r with
  | db k => exact Or.inl ⟨k, rfl⟩
  | inputs => exact Or.inr fun _ => ⟨rfl, fun _ => ⟨fun _ => rfl, fun _ => rfl⟩⟩
  | outputs => exact Or.inr fun _ => ⟨rfl, fun _ => ⟨fun _ => rfl, fun _ => rfl⟩⟩
  | flags => exact Or.inr fun _ => ⟨rfl, fun _ => ⟨fun _ => rfl, fun _ => rfl⟩⟩
  | other area => exact Or.inr fun _ => ⟨rfl, fun _ => ⟨fun _ => rfl, fun _ => rfl⟩⟩

section Blocks

variable (d : DbMemory) (r : Region) (off : Nat)

theorem touched_idem : touched (touched d r) r = touched d r := by
  rcases block_or_zeros r with ⟨k, rfl⟩ | hz
  · exact ensureDb_idem d k 256
  · exact (hz _).1

theorem simBytes_touched (n : Nat) : simBytes (touched d r) r off n = simBytes d r off n := by
  rcases block_or_zeros r with ⟨k, rfl⟩ | hz
  · show slice ((touched (touched d (.db k)) (.db k)).bytes k) off n = _
    rw [touched_idem]
    rfl
  · rw [(hz d).1]

theorem simBytes_zero : simBytes d r off 0 = [] := by
  rcases block_or_zeros r with ⟨k, rfl⟩ | hz
  · exact slice_zero _ _
  · rw [((hz d).2 off).1, List.replicate_zero]

theorem simBytes_add (a b : Nat) :
    simBytes d r off (a + b) = simBytes d r off a ++ simBytes d r (off + a) b := by
  rcases block_or_zeros r with ⟨k, rfl⟩ | hz
  · exact slice_add _ _ _ _
  · rw [((hz d).2 off).1, ((hz d).2 off).1, ((hz d).2 (off + a)).1, List.replicate_add]

theorem length_simBytes_le (n : Nat) : (simBytes d r off n).length ≤ n := by
  rcases block_or_zeros r with ⟨k, rfl⟩ | hz
  · rw [simBytes, length_slice]
    exact Nat.min_le_left _ _
  · rw [((hz d).2 off).1, List.length_replicate]

theorem simWrite_append (a b : List UInt8) :
    simWrite d r off (a ++ b) = simWrite (simWrite d r off a) r (off + a.length) b := by
  rcases block_or_zeros r with ⟨k, rfl⟩ | hz
  · have hsome : simWrite d (.db k) off a k = some (clip ((touched d (.db k)).bytes k) off a) :=
      Function.update_self ..
    have htouched : touched (simWrite d (.db k) off a) (.db k) = simWrite d (.db k) off a :=
      ensureDb_of_some 256 hsome
    have hbytes : (simWrite d (.db k) off a).bytes k = clip ((touched d (.db k)).bytes k) off a := by
      rw [DbMemory.bytes, hsome]
      rfl
    show _ = Function.update (touched (simWrite d (.db k) off a) (.db k)) k
      (some (clip ((touched (simWrite d (.db k) off a) (.db k)).bytes k) (off + a.length) b))
    rw [htouched, hbytes, ← clip_append]
    exact (Function.update_idem ..).symm
  · rw [((hz d).2 off).2, ((hz d).2 off).2, ((hz d).2 _).2]

theorem simReadItem_eq (it : PlcItem) :
    simReadItem d it = (simBytes d it.region it.byteOff it.dataLen, touched d it.region) := by
  unfold simReadItem PlcItem.region regionOf
  by_cases harea : it.area = 0x84
  · rw [if_pos harea, if_pos harea]
    rfl
  · rw [if_neg harea, if_neg harea]
    repeat' split
    all_goals rfl

theorem simWriteItem_eq (it : PlcItem) (wdata : List UInt8) :
    simWriteItem d it wdata = simWrite d it.region it.byteOff wdata := by
  unfold simWriteItem PlcItem.region regionOf
  by_cases harea : it.area = 0x84
  · rw [if_pos harea, if_pos harea]
    simp only [storeLoop_eq]
    rfl
  · rw [if_neg harea, if_neg harea]
    repeat' split
    all_goals rfl

end Blocks

/-! ## 2. Requests of the client -/

section Requests

variable (d : DbMemory) (area : Area) (off refn : Int32)

/-- A read or a write of one item. -/
theorem handleSimRequest_job (mt : UInt8) (n : Nat) (it data : List UInt8) :
    handleSimRequest d ⟨mt, n, [pr, 1] ++ it, data⟩ =
      some (buildReadResp (simReadItems d (plcItems 1 it)).1 n, (simReadItems d (plcItems 1 it)).2) ∧
    handleSimRequest d ⟨mt, n, [pw, 1] ++ it, data⟩ =
      some (buildWriteResp n, simWriteItems d data (plcItems 1 it)) := by
  constructor
  · show (if isUserdata (pr :: 1 :: it) = true then _ else _) = _
    rw [if_neg fun h => absurd (isUserdata_head h) (by decide)]
    rfl
  · show (if isUserdata (pw :: 1 :: it) = true then _ else _) = _
    rw [if_neg fun h => absurd (isUserdata_head h) (by decide)]
    rfl

theorem handleClient_readFrame (c : Int32) :
    handleClient .ready d (readFrame area off c refn) =
      (some (buildReadResp (simBytes d area.region (bits off % 2 ^ 21) (bits c % 65536))
        (bits refn % 65536)), .ready, touched d area.region) := by
  rw [readFrame, handleClient_ready (parseS7Request_packet _ (Nat.le_of_ble_eq_true rfl)),
    (handleSimRequest_job d _ _ _ _).1, plcItems_itemParams]
  simp only [simReadItems, simReadItem_eq, List.append_nil]
  rw [itemAt_byteOff, itemAt_dataLen, itemAt_region]
  rfl

theorem handleClient_writeFrame {chunk : List UInt8} (h : chunk.length ≤ 929) :
    handleClient .ready d (writeFrame area off chunk refn) =
      (some (buildWriteResp (bits refn % 65536)), .ready,
        simWrite d area.region (bits off % 2 ^ 21) chunk) := by
  have hlen : (itemAt wlByte (Int32.ofNat chunk.length) area off).dataLen = chunk.length := by
    rw [itemAt_dataLen, bits_ofNat]
    omega
  rw [writeFrame, handleClient_ready (parseS7Request_packet _ (by
    simp only [List.length_append, length_itemParams, List.length_cons, List.length_nil]
    omega)), (handleSimRequest_job d _ _ _ _).2, plcItems_itemParams]
  simp only [simWriteItems]
  rw [if_pos (by
    rw [List.length_append]
    exact Nat.le_add_right 4 _), simWriteItem_eq, itemAt_byteOff, hlen, itemAt_region]
  show (some _, Phase.ready, simWrite d area.region _ (chunk.take chunk.length)) = _
  rw [List.take_length]

end Requests

/-- The jobs that start and stop the CPU are not served. -/
theorem handleClient_ctrl (d : DbMemory) (refn : Int32) :
    ∀ q ∈ [buildPlcStartPdu refn, buildPlcStopPdu refn, buildPlcRestartPdu refn],
      handleClient .ready d q = (some (dummyResp (bits refn % 65536)), .ready, d) := by
  intro q hq
  simp only [List.mem_cons, List.not_mem_nil, or_false] at hq
  rcases hq with rfl | rfl | rfl
  · rw [buildPlcStartPdu, handleClient_ready (parseS7Request_service refn (by decide) _)]
    rfl
  · rw [buildPlcStopPdu, handleClient_ready (parseS7Request_service refn (by decide) _)]
    rfl
  · rw [buildPlcRestartPdu, handleClient_ready (parseS7Request_service refn (by decide) _)]
    rfl

theorem handleClient_status (d : DbMemory) (refn : Int32) :
    handleClient .ready d (buildPlcStatusPdu refn) =
      (some (buildPlcStatusResp (bits refn % 65536) 0x08), .ready, d) := by
  rw [buildPlcStatusPdu, handleClient_ready (parseS7Request_service refn (by decide) _)]
  rfl

theorem handleClient_szl (d : DbMemory) (refn index : Int32) {id : Int32} (hid : hi8 id ≠ 0x04) :
    handleClient .ready d (buildSzlFirstPdu refn id index) =
      (some (buildSzlResp (bits ((refn + 1) &&& 0xFFFF) % 65536)), .ready, d) := by
  rw [buildSzlFirstPdu, handleClient_ready (parseS7Request_service _ (by decide) _)]
  show (if isStatus _ = true then _ else _ : Option (Frame × DbMemory)).elim _ _ = _
  rw [if_neg]
  · rfl
  · show ¬ (hi8 id == 0x04 && lo8 id == 0x24) = true
    rw [Bool.and_eq_true, beq_iff_eq]
    exact fun h => hid h.1

/-- A request for the second part of a list is not served. -/
theorem handleClient_szlNext (d : DbMemory) (refn seq : Int32) :
    handleClient .ready d (buildSzlNextPdu refn seq) =
      (some (dummyResp (bits ((refn + 1) &&& 0xFFFF) % 65536)), .ready, d) := by
  rw [buildSzlNextPdu, handleClient_ready (parseS7Request_service _ (by decide) _)]
  rfl

/-! ## 3. Replies of the simulator -/

def simText (cs : List Char) : Text := cs.map fun c => Int32.ofNat c.toNat

/-- The CPU information the simulator gives. -/
def simCpuInfo : CpuInfo where
  moduleTypeName := simText mt
  serialNumber := simText sn
  asName := simText asn
  copyright := simText cp
  moduleName := simText mn

/-- What the client makes of the same list when it is asked for the CP's: letters of `asn`. -/
def simCpInfo : CPInfo where
  maxPduLength := 0x4D4F
  maxConnections := 0x4F4E
  maxMpiRate := 0x4249
  maxBusRate := 0x4153

theorem parsePlcCtrlResp_dummy (refn : Nat) {startCmp : UInt8} (h : startCmp ≠ 0x00) (alreadyCmp : UInt8) :
    parsePlcCtrlResp (dummyResp refn) startCmp alreadyCmp = err (.plcError 0 "PLC ctrl failed") := by
  show (if (0x00 : UInt8) ≠ startCmp then _ else _) = _
  rw [if_pos h.symm]
  rfl

theorem parsePlcStatus_resp (refn : Nat) : parsePlcStatus (buildPlcStatusResp refn 0x08) = .ok .run := by
  rw [parsePlcStatus, if_neg (by rw [buildPlcStatusResp, length_patched]; decide)]
  rfl

theorem parseSzlFirst_resp (refn : Nat) :
    parseSzlFirst (buildSzlResp refn) = .ok ⟨4, 1, szlPayload⟩ := by
  have hlen : (buildSzlResp refn).length = 246 := by
    rw [buildSzlResp, szlHeader, szlPayload, List.length_append, length_patched, length_patched]
  have hpay : (buildSzlResp refn).drop 41 = szlPayload := by
    rw [buildSzlResp]
    exact List.drop_left' (length_patched 41 _)
  have h37 : byteAt (buildSzlResp refn) 37 = .ok 0x00 := byteAt_ok rfl
  have h38 : byteAt (buildSzlResp refn) 38 = .ok 0x02 := byteAt_ok rfl
  have h39 : byteAt (buildSzlResp refn) 39 = .ok 0x00 := byteAt_ok rfl
  have h40 : byteAt (buildSzlResp refn) 40 = .ok 0x01 := byteAt_ok rfl
  rw [parseSzlFirst, if_neg (by rw [hlen]; decide), hpay, h37, h38, h39, h40]
  simp only [ok_bind, show be16 0x00 0x02 * 2 = 4 from by decide, show be16 0x00 0x01 = 1 from by decide]

theorem parseCpuInfo_payload : parseCpuInfo szlPayload = .ok simCpuInfo := by
  have hlen : szlPayload.length = 205 := length_patched _ _
  rw [parseCpuInfo, if_neg (by rw [hlen]; decide), strSlice_eq szlPayload 32 (by omega),
    strSlice_eq szlPayload 24 (by omega), strSlice_eq szlPayload 24 (by omega),
    strSlice_eq szlPayload 26 (by omega), strSlice_eq szlPayload 24 (by omega)]
  rfl

theorem parseCpInfo_payload : parseCpInfo szlPayload = .ok simCpInfo := by
  have hlen : szlPayload.length = 205 := length_patched _ _
  rw [parseCpInfo, if_neg (by rw [hlen]; decide)]
  rfl

/-! ## 4. What the operations come to -/

/-- What an access comes to on the blocks: a read that finds nothing fails, a write never does. -/
def Access.simEffect {β : Type} : Access β → DbMemory → S7Result β × DbMemory
  | .reads area start size dec, d =>
    let b := simBytes d area.region start.toInt.toNat size.toInt.toNat
    (if b.length = 0 then err (.itemNotFound "No data") else dec b, touched d area.region)
  | .writes area start data res, d =>
    (.ok res, if data.length = 0 then d else simWrite d area.region start.toInt.toNat data)

/-- The calls of the public API, those on data in a range that a frame can name. -/
inductive ClientOp (takes : Int32 → Bool) where
  | data (d : DataOp takes)
  | plcStart
  | plcStop
  | plcRestart
  | plcStatus
  | cpuInfo
  | cpInfo

namespace ClientOp

variable {takes : Int32 → Bool}

@[reducible] def op : ClientOp takes → Operation
  | .data d => d.op
  | .plcStart => .plcStart
  | .plcStop => .plcStop
  | .plcRestart => .plcRestart
  | .plcStatus => .plcStatus
  | .cpuInfo => .cpuInfo
  | .cpInfo => .cpInfo

@[reducible] def Result (o : ClientOp takes) : Type := o.op.Result

def prog (cl : S7Client) (o : ClientOp takes) : Client o.Result := o.op.prog takes cl

/-- The simulator runs, and does not start or stop. -/
def simEffect : (o : ClientOp takes) → DbMemory → S7Result o.Result × DbMemory
  | .data a, d => a.access.simEffect d
  | .plcStart, d | .plcStop, d | .plcRestart, d => (err (.plcError 0 "PLC ctrl failed"), d)
  | .plcStatus, d => (.ok .run, d)
  | .cpuInfo, d => (.ok simCpuInfo, d)
  | .cpInfo, d => (.ok simCpInfo, d)

end ClientOp

/-- The simulator as a server of one connection; the blocks are there for all. -/
def simulator : Service (Phase × DbMemory) where
  accept s := (.cotp, s.2)
  serve s q := handleClient s.1 s.2 q
  closed s := s.1 = .closed
  hangUp s := (.closed, s.2)

theorem run_simExchange {d d' : DbMemory} {q resp : Frame}
    (h : handleClient .ready d q = (some resp, .ready, d')) :
    run simulator.line (exchange Stop.err q : Client Frame).run ⟨(.ready, d), []⟩ =
      (.ok resp, ⟨(.ready, d'), []⟩) := run_service_exchange rfl h

section Loops

variable (cl : S7Client) {area : Area} {r : Region} (ha : Names area r) {start : Int32}
  (h₀ : 0 ≤ start.toInt)

include ha h₀

/-- Reads of the pieces of a range, joined, are the read of the range. -/
theorem run_simReads {s n : Nat} {l : List (Nat × Nat)} (ht : Tiles s n l) (hl : ∀ p ∈ l, p.2 ≤ 937)
    (hr : start.toInt + (s + n) ≤ 2 ^ 21) (d : DbMemory) :
    ∃ bs, run simulator.line (session Stop.err readCheck (l.map (readReq cl area start)) :
        Client (List (List UInt8))).run ⟨(.ready, d), []⟩ =
      (.ok bs, ⟨(.ready, if n = 0 then d else touched d r), []⟩) ∧
      bs.flatten = simBytes d r (start.toInt.toNat + s) n := by
  induction ht generalizing d with
  | nil s => exact ⟨[], rfl, (simBytes_zero d r _).symm⟩
  | @cons s c n l hc ht ih =>
    have hp := hl (s, c) List.mem_cons_self
    have hn : bits (Int32.ofNat c) % 65536 = c := by
      rw [bits_ofNat]
      omega
    have hserve := handleClient_readFrame d area (start + Int32.ofNat s) cl.pduRef (Int32.ofNat c)
    rw [hn, bits_start_add h₀ (by omega), ha.region] at hserve
    have hcheck : readCheck (buildReadResp (simBytes d r (start.toInt.toNat + s) c)
        (bits cl.pduRef % 65536)) = .ok (simBytes d r (start.toInt.toNat + s) c) := by
      have hlen := length_simBytes_le d r (start.toInt.toNat + s) c
      rw [readCheck, parseResponse_buildReadResp (by omega)]
      rfl
    obtain ⟨bs, hrun, hbs⟩ := ih (fun q hq => hl q (List.mem_cons_of_mem _ hq)) (by omega) (touched d r)
    refine ⟨simBytes d r (start.toInt.toNat + s) c :: bs, ?_, ?_⟩
    · rw [List.map_cons, readReq, run_session_cons (run_simExchange hserve) hcheck, hrun,
        touched_idem, ite_self, if_neg (show c + n ≠ 0 by omega)]
      rfl
    · rw [List.flatten_cons, hbs, simBytes_touched, simBytes_add, Nat.add_assoc]

/-- Writes of the pieces of a range, one after the other, are the write of the range. -/
theorem run_simWrites {data : List UInt8} {s n : Nat} {l : List (Nat × Nat)} (ht : Tiles s n l)
    (hl : ∀ p ∈ l, p.2 ≤ 929) (hn : s + n ≤ data.length) (hr : start.toInt + data.length ≤ 2 ^ 21)
    (d : DbMemory) :
    ∃ us, run simulator.line (session Stop.err writeReply (l.map (writeReq cl area start data)) :
        Client (List Unit)).run ⟨(.ready, d), []⟩ =
      (.ok us, ⟨(.ready, if n = 0 then d else
        simWrite d r (start.toInt.toNat + s) ((data.drop s).take n)), []⟩) := by
  induction ht generalizing d with
  | nil s => exact ⟨[], rfl⟩
  | @cons s c n l hc ht ih =>
    have hp := hl (s, c) List.mem_cons_self
    have hlen : ((data.drop s).take c).length = c := by
      rw [List.length_take, List.length_drop]
      omega
    have hserve := handleClient_writeFrame d area (start + Int32.ofNat s) cl.pduRef
      (Nat.le_trans (Nat.le_of_eq hlen) hp)
    rw [bits_start_add h₀ (by omega), ha.region] at hserve
    have hcheck := (writeReply_writeResp 0xFF (bits cl.pduRef % 65536)).mpr rfl
    obtain ⟨us, hrun⟩ := ih (fun q hq => hl q (List.mem_cons_of_mem _ hq)) (by omega)
      (simWrite d r (start.toInt.toNat + s) ((data.drop s).take c))
    refine ⟨() :: us, ?_⟩
    rw [List.map_cons, writeReq, if_pos hp, run_session_cons (run_simExchange hserve) hcheck,
      hrun, if_neg (show c + n ≠ 0 by omega)]
    by_cases h0 : n = 0
    · rw [if_pos h0, h0]
      rfl
    · rw [if_neg h0, List.take_add, List.drop_drop, simWrite_append, hlen, Nat.add_assoc]
      rfl

end Loops

/-- A program that begins with a request that leaves the blocks alone. -/
theorem run_simRequest {β : Type} {d : DbMemory} {q resp : Frame} (k : Frame → Client β)
    (h : handleClient .ready d q = (some resp, .ready, d)) :
    run simulator.line (send Stop.err q >>= fun _ => receive Stop.err >>= k : Client β).run
        ⟨(.ready, d), []⟩ = run simulator.line (k resp).run ⟨(.ready, d), []⟩ := by
  rw [send_receive_bind, run_op_ok _ (run_simExchange h)]

section Operations

variable {cl : S7Client} (hc : cl.connected = true)

include hc

/-- **An access on the simulator.** -/
theorem run_simAccess (hpdu : cl.pduSize.toInt ≤ 960) {β : Type} {a : Access β} (ha : a.InRange)
    (d : DbMemory) : run simulator.line (a.prog cl).run ⟨(.ready, d), []⟩ =
      ((a.simEffect d).1, ⟨(.ready, (a.simEffect d).2), []⟩) := by
  cases ha with
  | @reads area r start size dec ha h₀ h₁ hr =>
    have hl : ∀ p ∈ cuts (maxChunk cl.pduSize 23) 0 size.toInt.toNat, p.2 ≤ 937 := fun p hp =>
      chunk_le hpdu (by decide) hp
    obtain ⟨bs, hrun, hbs⟩ := run_simReads cl ha h₀ (tiles_cuts _ 0 size.toInt.toNat) hl (by omega) d
    rw [if_neg (by omega)] at hrun
    rw [Access.prog, Access.simEffect, ha.region, chunkedRead_eq hc, readReqs, bind_assoc,
      run_op_ok _ hrun, hbs, Nat.add_zero]
    by_cases h0 : (simBytes d r start.toInt.toNat size.toInt.toNat).length = 0
    · simp only [if_pos h0]
      rfl
    · simp only [if_neg h0]
      rfl
  | @writes area r start data res ha h₀ hr =>
    have hl : ∀ p ∈ cuts (maxChunk cl.pduSize 35) 0 data.length, p.2 ≤ 929 := fun p hp =>
      Nat.le_trans (chunk_le hpdu (by decide) hp) (by decide)
    obtain ⟨us, hrun⟩ := run_simWrites cl ha h₀ (tiles_cuts _ 0 data.length) hl (by omega) hr d
    rw [List.drop_zero, List.take_length, Nat.add_zero] at hrun
    rw [Access.prog, Access.simEffect, ha.region, chunkedWrite_eq hc, writeReqs, bind_assoc,
      run_op_ok _ hrun]
    rfl

theorem run_simCtrl {d : DbMemory} {q : Frame} {n : Nat}
    (h : handleClient .ready d q = (some (dummyResp n), .ready, d)) {startCmp : UInt8}
    (hs : startCmp ≠ 0x00) (alreadyCmp : UInt8) :
    run simulator.line (doCtrl cl q startCmp alreadyCmp).run ⟨(.ready, d), []⟩ =
      (err (.plcError 0 "PLC ctrl failed"), ⟨(.ready, d), []⟩) := by
  rw [doCtrl, if_neg (by rw [hc]; decide), run_simRequest _ h, parsePlcCtrlResp_dummy n hs]
  rfl

/-- **An operation on the simulator** comes to its effect on the blocks. -/
theorem run_simOp (hpdu : cl.pduSize.toInt ≤ 960) {takes : Int32 → Bool} (o : ClientOp takes)
    (d : DbMemory) : run simulator.line (o.prog cl).run ⟨(.ready, d), []⟩ =
      ((o.simEffect d).1, ⟨(.ready, (o.simEffect d).2), []⟩) := by
  have hcl : ¬ cl.connected = false := by rw [hc]; decide
  cases o with
  | data a =>
    show run simulator.line (a.prog cl).run _ = _
    rw [a.prog_eq hc]
    exact run_simAccess hc hpdu a.inRange d
  | plcStart => exact run_simCtrl hc (handleClient_ctrl d cl.pduRef _ (by simp)) (by decide) 0x02
  | plcStop => exact run_simCtrl hc (handleClient_ctrl d cl.pduRef _ (by simp)) (by decide) 0x07
  | plcRestart => exact run_simCtrl hc (handleClient_ctrl d cl.pduRef _ (by simp)) (by decide) 0x02
  | plcStatus =>
    show run simulator.line cl.plcStatus.run _ = _
    rw [S7Client.plcStatus, if_neg hcl, run_simRequest _ (handleClient_status d cl.pduRef),
      parsePlcStatus_resp]
    rfl
  | cpuInfo =>
    have hlen : ¬ szlPayload.length < 205 := by rw [szlPayload, length_patched]; decide
    show run simulator.line (szlRead cl 0x001C 0x000 205).run _ = _
    rw [szlRead, if_neg hcl, run_simRequest _ (handleClient_szl d cl.pduRef 0x000 (by decide)),
      parseSzlFirst_resp, ofResult_ok_bind, if_neg hlen, parseCpuInfo_payload]
    rfl
  | cpInfo =>
    show run simulator.line (szlReadCp cl 0x0131 0x000).run _ = _
    rw [szlReadCp, if_neg hcl, run_simRequest _ (handleClient_szl d cl.pduRef 0x000 (by decide)),
      parseSzlFirst_resp, ofResult_ok_bind, parseCpInfo_payload]
    rfl

end Operations

/-! ## 5. On the socket -/

/-- A thread that is ready replies to each request of a client with a frame, and stays ready. -/
theorem framed_simulator {cl : S7Client} (hpdu : cl.pduSize.toInt ≤ 960) :
    simulator.Framed (fun s => s.1 = .ready) (ClientFrame cl) := by
  have hall : ∀ d q, ClientFrame cl q → ∃ f d', handleClient .ready d q = (some f, .ready, d') ∧
      f.length < 65536 := by
    intro d q hq
    cases hq with
    | @read area off c h =>
      have hm := maxChunk_le hpdu (show 23 ≤ 720 by decide)
      have hb := length_simBytes_le d area.region (bits off % 2 ^ 21) (bits (Int32.ofNat c) % 65536)
      rw [bits_ofNat] at hb
      refine ⟨_, _, handleClient_readFrame d area off cl.pduRef _, ?_⟩
      rw [bits_ofNat, buildReadResp, List.length_append]
      show 25 + _ < 65536
      omega
    | write area off h => exact ⟨_, _, handleClient_writeFrame d area off cl.pduRef h, Nat.le_of_ble_eq_true rfl⟩
    | start => exact ⟨_, _, handleClient_ctrl d cl.pduRef _ (by simp), Nat.le_of_ble_eq_true rfl⟩
    | stop => exact ⟨_, _, handleClient_ctrl d cl.pduRef _ (by simp), Nat.le_of_ble_eq_true rfl⟩
    | restart => exact ⟨_, _, handleClient_ctrl d cl.pduRef _ (by simp), Nat.le_of_ble_eq_true rfl⟩
    | status =>
      refine ⟨_, _, handleClient_status d cl.pduRef, ?_⟩
      rw [buildPlcStatusResp, length_patched]
      decide
    | szlCpu =>
      refine ⟨_, _, handleClient_szl d cl.pduRef 0x000 (by decide), ?_⟩
      rw [buildSzlResp, szlHeader, szlPayload, List.length_append, length_patched, length_patched]
      decide
    | szlCp =>
      refine ⟨_, _, handleClient_szl d cl.pduRef 0x000 (by decide), ?_⟩
      rw [buildSzlResp, szlHeader, szlPayload, List.length_append, length_patched, length_patched]
      decide
    | szlNext => exact ⟨_, _, handleClient_szlNext d cl.pduRef cl.pduRef, Nat.le_of_ble_eq_true rfl⟩
  refine ⟨?_, ?_⟩
  · rintro ⟨_, d⟩ q f rfl hq hf
    obtain ⟨g, d', hg, hlen⟩ := hall d q hq
    have hf : (handleClient .ready d q).1 = some f := hf
    rw [hg] at hf
    cases hf
    have hturn := handleClient_turn .ready d q
    rw [hg] at hturn
    exact (hturn.answers (by decide)).framed hlen
  · rintro ⟨_, d⟩ q rfl hq
    obtain ⟨g, d', hg, -⟩ := hall d q hq
    show (handleClient .ready d q).2.1 = .ready
    rw [hg]

/-- A thread confirms any connection request of a client. -/
theorem handleClient_cotpCr (d : DbMemory) (lsap rsap : List UInt8) :
    handleClient .cotp d (buildCotpCr lsap rsap) = (some (buildCotpCc 0x0000 0x0001), .setup, d) := by
  have hlen : 7 ≤ (buildCotpCr lsap rsap).length := by
    rw [length_buildCotpCr]
    omega
  unfold handleClient
  rw [if_neg (show ¬ (buildCotpCr lsap rsap).isEmpty = true from nofun)]
  exact if_pos ⟨hlen, rfl, rfl⟩

theorem handleClient_setupPdu (d : DbMemory) :
    handleClient .setup d (buildSetupPdu 1 1 1) = (some (buildSetupResp 0 480), .ready, d) := by
  have hq : simParse (buildSetupPdu 1 1 1) = .request ⟨0x01, 0, [0xF0, 0, 0, 8, 0, 8, 0x03, 0xC0], []⟩ :=
    simParse_request_iff.mpr (by decide)
  unfold handleClient
  rw [if_neg (show ¬ (buildSetupPdu 1 1 1).isEmpty = true from nofun)]
  simp only [hq]
  rfl

/-- **Connecting** to the simulator. -/
theorem run_connect_simulator {cl : S7Client} (hc : cl.connected = false) (ht : cl.tcp.connected = false)
    (s : Peer (Phase × DbMemory)) :
    run simulator.socket cl.connect.run s =
      (.ok (.ok { tcp := cl.tcp.opened ⟨0⟩ 480, connected := true, pduRef := 3, pduSize := 480 }),
        ⟨(.ready, s.state.2), []⟩) := by
  obtain ⟨⟨state, d⟩, unread⟩ := s
  have hcc : TpktFrame (buildCotpCc 0x0000 0x0001) := tpktFrame_short 22 rfl rfl
  have hst : TpktFrame (buildSetupResp 0 480) := tpktFrame_short 28 rfl rfl
  obtain ⟨tr₁, h₁, hp₁⟩ := simulator.path_frame hcc ⟨0⟩ (.setup, d) []
  obtain ⟨tr₂, h₂, hp₂⟩ := simulator.path_frame hst ⟨0⟩ (.ready, d) []
  refine exec_run_iff.mp (exec_iff_path.mpr ⟨_, follows_connect_ok_iff.mpr ⟨hc, ht, ⟨0⟩, _, _, 480, _, rfl,
    ⟨tr₁, tr₂, h₁, h₂, rfl⟩, ⟨1024, by decide⟩, by decide, rfl⟩, ?_⟩)
  have hcr : simulator.socket (.write ⟨0⟩ (buildCotpCr cl.tcp.localTsap cl.tcp.remoteTsap))
      ⟨(.cotp, d), []⟩ = (.value (), ⟨(.setup, d), buildCotpCc 0x0000 0x0001 ++ []⟩) := by
    show (_, Peer.mk (handleClient .cotp d _).2 ([] ++ (handleClient .cotp d _).1.getD [])) = _
    rw [handleClient_cotpCr]
    rfl
  have hsetup : simulator.socket (.write ⟨0⟩ (buildSetupPdu 1 1 1)) ⟨(.setup, d), []⟩ =
      (.value (), ⟨(.ready, d), buildSetupResp 0 480 ++ []⟩) := by
    show (_, Peer.mk (handleClient .setup d _).2 ([] ++ (handleClient .setup d _).1.getD [])) = _
    rw [handleClient_setupPdu]
    rfl
  exact .cons rfl (.cons hcr (path_append_iff.mpr ⟨_, hp₁, .cons hsetup hp₂⟩))

/-- **The client on the simulator**: it connects, the two agree on a PDU size of 480, and whatever
    operations are made then, one after the other, each returns what it comes to on the blocks and
    leaves the blocks it leaves, with nothing left to read. Each write is taken by one `recv` of
    `handle_client` (`Service.socket`). -/
theorem conversation_simulated {cl : S7Client} (hc : cl.connected = false)
    (ht : cl.tcp.connected = false) (s : Peer (Phase × DbMemory)) :
    ∃ cl' : S7Client, cl'.pduSize = 480 ∧
      run simulator.socket cl.connect.run s = (.ok (.ok cl'), ⟨(.ready, s.state.2), []⟩) ∧
      ∀ (takes : Int32 → Bool) (ops : List (ClientOp takes)) (d : DbMemory),
        run simulator.socket (cl'.onSocket (series (ClientOp.prog cl') ops)).run ⟨(.ready, d), []⟩ =
          (.ok (.ok (effects ClientOp.simEffect ops d).1),
            ⟨(.ready, (effects ClientOp.simEffect ops d).2), []⟩) := by
  refine ⟨_, rfl, run_connect_simulator hc ht s, fun takes ops d => ?_⟩
  generalize hcl : ({ tcp := cl.tcp.opened ⟨0⟩ 480, connected := true, pduRef := 3, pduSize := 480 } :
    S7Client) = cl'
  have hcon : cl'.connected = true := by rw [← hcl]
  have hpdu : cl'.pduSize.toInt ≤ 960 := by
    rw [← hcl]
    exact (by decide : (480 : Int32).toInt ≤ 960)
  have ho : cl'.tcp.Open ⟨0⟩ := by rw [← hcl]; exact ⟨rfl, rfl⟩
  have hasks : Asks (Requests (ClientFrame cl')) (series (ClientOp.prog cl') ops : Client _).run :=
    asks_series fun o _ => asks_operation cl' takes o.op
  have hstep : ∀ o ∈ ops, ∀ (t : Line (Phase × DbMemory)) d, t = ⟨(.ready, d), []⟩ →
      ∃ t', run simulator.line (ClientOp.prog cl' o).run t = ((o.simEffect d).1, t') ∧
        t' = ⟨(.ready, (o.simEffect d).2), []⟩ := by
    rintro o - t d rfl
    exact ⟨_, run_simOp hcon hpdu o d, rfl⟩
  obtain ⟨t', hrun, rfl⟩ := run_series hstep (s := ⟨(.ready, d), []⟩) rfl
  obtain ⟨s', hs, rfl, -⟩ := run_onService (framed_simulator hpdu) ho hasks
    (t := ⟨(.ready, d), []⟩) ⟨rfl, nofun, rfl⟩
  rw [hrun] at hs
  exact hs

/-- Two bytes at the end of a block, of which it has room for one. -/
def writeLast : ClientOp fun _ => true :=
  .data ⟨.agWrite 1 3 [5, 6], _, rfl, .writes (.db (by decide) (by decide)) (by decide) (by decide)⟩

def readLast : ClientOp fun _ => true :=
  .data ⟨.agRead 1 2 4, _, rfl,
    .reads (.db (by decide) (by decide)) (by decide) (by decide) (by decide)⟩

/-- A write over the end of a block is taken, and the read that follows is short. -/
theorem conversation_simulated_last : ∃ cl' : S7Client, cl'.pduSize = 480 ∧
    run simulator.socket S7Client.new.connect.run ⟨(.closed, fourBytes), []⟩ =
      (.ok (.ok cl'), ⟨(.ready, fourBytes), []⟩) ∧
    (run simulator.socket (cl'.onSocket (series (ClientOp.prog cl') [writeLast, readLast])).run
      ⟨(.ready, fourBytes), []⟩).1 =
        .ok (.ok [⟨writeLast, .ok ()⟩, ⟨readLast, .ok ([3, 5] : List UInt8)⟩]) := by
  obtain ⟨cl', hpdu, hconnect, hops⟩ :=
    @conversation_simulated S7Client.new rfl rfl ⟨(.closed, fourBytes), []⟩
  exact ⟨cl', hpdu, hconnect, by rw [hops]; rfl⟩

end MoonS7
