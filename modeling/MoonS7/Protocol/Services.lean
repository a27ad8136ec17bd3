import MoonS7.Protocol.Replies

/-!
# Services of the CPU (`protocol/s7comm.mbt`, 488-794)

Starting, stopping and asking for the state of the CPU, and the two system status lists
(SZL) that `cpu_info` and `cp_info` read. The requests are fixed telegrams but for the PDU reference
and the list's number; the replies are read at fixed places.

Main results: no parser aborts, whatever it is given (`parsePlcCtrlResp_total` and the others). The
length each tests first is beyond every place it reads.
-/

namespace MoonS7

/-! ## 1. Requests -/

/-- What the telegrams share: TPKT, COTP and S7 header, each length below 256. -/
def servicePdu (total mt : UInt8) (refn : Int32) (plen dlen : UInt8) (rest : List UInt8) : Frame :=
  [0x03, 0x00, 0x00, total, 0x02, 0xF0, 0x80, pid, mt, 0x00, 0x00, hi8 refn, lo8 refn,
    0x00, plen, 0x00, dlen] ++ rest

/-- `"P_PROGRAM"`. -/
def programName : List UInt8 := [0x50, 0x5F, 0x50, 0x52, 0x4F, 0x47, 0x52, 0x41, 0x4D]

def buildPlcStartPdu (refn : Int32) : Frame :=
  servicePdu 0x27 0x01 refn 0x16 0x00 ([0x28, 0x00, 0x00, 0x00, 0x00, 0x00, 0x00, 0xFD, 0x00, 0x02,
    0x43, 0x20, 0x09] ++ programName)

def buildPlcStopPdu (refn : Int32) : Frame :=
  servicePdu 0x21 0x01 refn 0x10 0x00 ([0x29, 0x00, 0x00, 0x00, 0x00, 0x00, 0x09] ++ programName)

def buildPlcRestartPdu (refn : Int32) : Frame :=
  servicePdu 0x25 0x01 refn 0x14 0x00 ([0x28, 0x00, 0x00, 0x00, 0x00, 0x00, 0x00, 0xFD, 0x00, 0x00,
    0x09] ++ programName)

def buildPlcStatusPdu (refn : Int32) : Frame :=
  servicePdu 0x21 0x07 refn 0x08 0x08 [0x00, 0x01, 0x12, 0x04, 0x11, 0x44, 0x01, 0x00, 0xFF, 0x09,
    0x00, 0x04, 0x04, 0x24, 0x00, 0x00]

def buildSzlFirstPdu (refn id index : Int32) : Frame :=
  servicePdu 0x21 0x07 ((refn + 1) &&& 0xFFFF) 0x08 0x08 [0x00, 0x01, 0x12, 0x04, 0x11, 0x44, 0x01,
    0x00, 0xFF, 0x09, 0x00, 0x04, hi8 id, lo8 id, hi8 index, lo8 index]

def buildSzlNextPdu (refn seq : Int32) : Frame :=
  servicePdu 0x21 0x07 ((refn + 1) &&& 0xFFFF) 0x0C 0x04 [0x00, 0x01, 0x12, 0x08, 0x12, 0x44, 0x01,
    tb seq, 0x00, 0x00, 0x00, 0x00, 0x0A, 0x00, 0x00, 0x00]

/-- A telegram says its own length. -/
def SaysLength (f : Frame) : Prop := f[2]? = some 0 ∧ f[3]?.map UInt8.toNat = some f.length

/-- **Every telegram says its own length.** -/
theorem service_lengths (refn id index seq : Int32) :
    ∀ f ∈ [buildPlcStartPdu refn, buildPlcStopPdu refn, buildPlcRestartPdu refn,
      buildPlcStatusPdu refn, buildSzlFirstPdu refn id index, buildSzlNextPdu refn seq],
      SaysLength f := by
  intro f hf
  simp only [List.mem_cons, List.not_mem_nil, or_false] at hf
  rcases hf with rfl | rfl | rfl | rfl | rfl | rfl <;> exact ⟨rfl, rfl⟩

/-! ## 2. Replies to control and status requests -/

def parsePlcCtrlResp (data : List UInt8) (startCmp alreadyCmp : UInt8) : S7Result Unit :=
  if data.length < 19 then err (.invalidPdu "Resp too short")
  else do
    let fn ← byteAt data 17
    if fn ≠ startCmp then err (.plcError (toInt fn) "PLC ctrl failed")
    else do
      let sub ← byteAt data 18
      if sub = alreadyCmp then err .jobPending else .ok ()

inductive CpuStatus where
  | unknown
  | stop
  | run
  deriving DecidableEq

def parsePlcStatus (data : List UInt8) : S7Result CpuStatus :=
  if data.length < 45 then err (.invalidPdu "Status too short")
  else do
    let st ← byteAt data 44
    if st = 0x08 then .ok .run else if st = 0x07 then .ok .stop else .ok .unknown

/-! ## 3. System status lists -/

/-- A MoonBit string, as its characters' codes. -/
abbrev Text : Type := List Int32

structure SzlData where
  headerLen : Int32
  dataCount : Int32
  data : List UInt8

def parseSzlFirst (data : List UInt8) : S7Result SzlData :=
  if data.length < 42 then err (.invalidPdu "SZL too short")
  else do
    let hlen := be16 (← byteAt data 37) (← byteAt data 38)
    let dcount := be16 (← byteAt data 39) (← byteAt data 40)
    .ok { headerLen := hlen * 2, dataCount := dcount, data := data.drop 41 }

/-- The loop of `str_slice`, with `n` places left. -/
def strSliceLoop (data : List UInt8) : Nat → Nat → Text → S7Result Text
  | 0, _, sb => .ok sb
  | n + 1, i, sb => do
    let b ← byteAt data i
    if b = 0x00 then .ok sb else strSliceLoop data n (i + 1) (sb ++ [toInt b])

def strSlice (data : List UInt8) (start maxlen : Nat) : S7Result Text :=
  let stop := if start + maxlen < data.length then start + maxlen else data.length
  strSliceLoop data (stop - start) start []

structure CpuInfo where
  moduleTypeName : Text
  serialNumber : Text
  asName : Text
  copyright : Text
  moduleName : Text

structure CPInfo where
  maxPduLength : Int32
  maxConnections : Int32
  maxMpiRate : Int32
  maxBusRate : Int32

def parseCpuInfo (data : List UInt8) : S7Result CpuInfo :=
  if data.length < 205 then err (.invalidPdu "CPU info too short")
  else do
    let moduleTypeName ← strSlice data 172 32
    let serialNumber ← strSlice data 138 24
    let asName ← strSlice data 2 24
    let copyright ← strSlice data 104 26
    let moduleName ← strSlice data 36 24
    .ok { moduleTypeName, serialNumber, asName, copyright, moduleName }

def parseCpInfo (data : List UInt8) : S7Result CPInfo :=
  if data.length < 14 then err (.invalidPdu "CP info too short")
  else do
    let maxPduLength := be16 (← byteAt data 2) (← byteAt data 3)
    let maxConnections := be16 (← byteAt data 4) (← byteAt data 5)
    let maxMpiRate := be16 (← byteAt data 6) (← byteAt data 7)
    let maxBusRate := be16 (← byteAt data 10) (← byteAt data 11)
    .ok { maxPduLength, maxConnections, maxMpiRate, maxBusRate }

/-! ## 4. The parsers do not abort -/

section Total

variable (data : List UInt8)

/-- A read at a place that the length test has covered. -/
theorem byteAt_bind_total {α : Type} {i : Nat} {f : UInt8 → S7Result α} (h : i < data.length)
    (hf : ∀ b, f b ≠ .error .abort) : (byteAt data i >>= f) ≠ .error .abort := by
  obtain ⟨b, -, hb⟩ := byteAt_of_lt h
  rw [hb, ok_bind]
  exact hf b

theorem parsePlcCtrlResp_total (startCmp alreadyCmp : UInt8) :
    parsePlcCtrlResp data startCmp alreadyCmp ≠ .error .abort := by
  unfold parsePlcCtrlResp
  by_cases hlen : data.length < 19
  · rw [if_pos hlen]
    nofun
  · rw [if_neg hlen]
    refine byteAt_bind_total data (by omega) fun fn => ?_
    by_cases hfn : fn ≠ startCmp
    · rw [if_pos hfn]
      nofun
    · rw [if_neg hfn]
      refine byteAt_bind_total data (by omega) fun sub => ?_
      split <;> nofun

theorem parsePlcStatus_total : parsePlcStatus data ≠ .error .abort := by
  unfold parsePlcStatus
  by_cases hlen : data.length < 45
  · rw [if_pos hlen]
    nofun
  · rw [if_neg hlen]
    refine byteAt_bind_total data (by omega) fun st => ?_
    split
    · nofun
    · split <;> nofun

theorem parseSzlFirst_total : parseSzlFirst data ≠ .error .abort := by
  unfold parseSzlFirst
  by_cases hlen : data.length < 42
  · rw [if_pos hlen]
    nofun
  · rw [if_neg hlen]
    refine byteAt_bind_total data (by omega) fun _ => byteAt_bind_total data (by omega) fun _ => ?_
    refine byteAt_bind_total data (by omega) fun _ => byteAt_bind_total data (by omega) fun _ => ?_
    nofun

/-- The loop stops at a zero byte or at its end, which is inside the data. -/
theorem strSliceLoop_eq (n i : Nat) (sb : Text) (h : i + n ≤ data.length) :
    strSliceLoop data n i sb =
      .ok (sb ++ (((data.drop i).take n).takeWhile (· ≠ 0x00)).map toInt) := by
  induction n generalizing i sb with
  | zero => simp [strSliceLoop]
  | succ n ih =>
    have hi : i < data.length := by omega
    have hd : data.drop i = data[i] :: data.drop (i + 1) := List.drop_eq_getElem_cons hi
    have hb : byteAt data i = .ok data[i] := byteAt_ok (List.getElem?_eq_getElem hi)
    rw [strSliceLoop, hb, ok_bind, hd, List.take_succ_cons]
    by_cases h0 : data[i] = 0x00
    · rw [if_pos h0, List.takeWhile_cons_of_neg (by simpa using h0), List.map_nil, List.append_nil]
    · rw [if_neg h0, List.takeWhile_cons_of_pos (by simpa using h0), ih (i + 1) _ (by omega),
        List.map_cons, List.append_assoc]
      rfl

/-- **A field of a list** is its bytes up to the first zero, as far as the data goes. -/
theorem strSlice_eq {start : Nat} (maxlen : Nat) (h : start ≤ data.length) :
    strSlice data start maxlen =
      .ok ((((data.drop start).take maxlen).takeWhile (· ≠ 0x00)).map toInt) := by
  unfold strSlice
  by_cases hlt : start + maxlen < data.length
  · rw [if_pos hlt, strSliceLoop_eq data _ _ _ (by omega), Nat.add_sub_cancel_left, List.nil_append]
  · have htake : (data.drop start).take (data.length - start) = (data.drop start).take maxlen := by
      rw [List.take_of_length_le (by rw [List.length_drop]),
        List.take_of_length_le (by rw [List.length_drop]; omega)]
    rw [if_neg hlt, strSliceLoop_eq data _ _ _ (by omega), List.nil_append, htake]

theorem parseCpuInfo_total : parseCpuInfo data ≠ .error .abort := by
  unfold parseCpuInfo
  by_cases hlen : data.length < 205
  · rw [if_pos hlen]
    nofun
  · rw [if_neg hlen, strSlice_eq data 32 (by omega), strSlice_eq data 24 (by omega),
      strSlice_eq data 24 (by omega), strSlice_eq data 26 (by omega), strSlice_eq data 24 (by omega)]
    nofun

theorem parseCpInfo_total : parseCpInfo data ≠ .error .abort := by
  unfold parseCpInfo
  by_cases hlen : data.length < 14
  · rw [if_pos hlen]
    nofun
  · rw [if_neg hlen]
    refine byteAt_bind_total data (by omega) fun _ => byteAt_bind_total data (by omega) fun _ => ?_
    refine byteAt_bind_total data (by omega) fun _ => byteAt_bind_total data (by omega) fun _ => ?_
    refine byteAt_bind_total data (by omega) fun _ => byteAt_bind_total data (by omega) fun _ => ?_
    refine byteAt_bind_total data (by omega) fun _ => byteAt_bind_total data (by omega) fun _ => ?_
    nofun

end Total

end MoonS7
