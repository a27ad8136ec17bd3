import MoonS7.Client.Client
import MoonS7.Protocol.Strings

/-!
# The operations of a client (`client/client.mbt`, 62-335 and 452-548)

The operations on STRING fields and the services of the CPU, and the list of all operations of the
public API, `Operation`, each with its program. What `connect` and `disconnect` do is not an
operation here: they work on the socket, the others over a connection.

Main result: `Operation.prog_not_connected` -- a client that is not connected does nothing but
return the error, in every operation.
-/

namespace MoonS7

open Interaction Port

def S7Client.isConnected (self : S7Client) : Bool := self.connected

/-! ## 1. STRING fields -/

def S7Client.agReadString (takes : Int32 → Bool) (self : S7Client) (db start maxLen : Int32) :
    Client Text :=
  if self.connected = false then ofResult (err .notConnected)
  else do
    let size := maxLen + 2
    let data ← chunkedRead self (.db db) start size
    ofResult (decodeS7String takes data)

def S7Client.agWriteString (self : S7Client) (db start maxLen : Int32) (value : Text) :
    Client (List UInt8) :=
  if self.connected = false then ofResult (err .notConnected)
  else do
    let field := StringField.new db start maxLen value
    let bytes := field.toBytes
    chunkedWrite self (.db db) start bytes
    return bytes

/-- A client that is not connected finds that out in `chunked_read` too. -/
theorem agReadString_eq {takes : Int32 → Bool} {cl : S7Client} (db start maxLen : Int32) :
    cl.agReadString takes db start maxLen =
      chunkedRead cl (.db db) start (maxLen + 2) >>= fun data => ofResult (decodeS7String takes data) := by
  unfold S7Client.agReadString
  by_cases hc : cl.connected = false
  · rw [if_pos hc, chunkedRead_not_connected hc]
    rfl
  · rw [if_neg hc]

theorem agWriteString_eq {cl : S7Client} (db start maxLen : Int32) (value : Text) :
    cl.agWriteString db start maxLen value =
      chunkedWrite cl (.db db) start (StringField.new db start maxLen value).toBytes >>=
        fun _ => ofResult (.ok (StringField.new db start maxLen value).toBytes) := by
  unfold S7Client.agWriteString
  by_cases hc : cl.connected = false
  · rw [if_pos hc, chunkedWrite_not_connected hc]
    rfl
  · rw [if_neg hc]
    rfl

/-! ## 2. Services of the CPU -/

def doCtrl (cl : S7Client) (pdu : Frame) (startCmp alreadyCmp : UInt8) : Client Unit :=
  if cl.connected = false then ofResult (err .notConnected)
  else do
    send .err pdu
    let resp ← receive .err
    ofResult (parsePlcCtrlResp resp startCmp alreadyCmp)

def S7Client.plcStart (self : S7Client) : Client Unit :=
  doCtrl self (buildPlcStartPdu self.pduRef) 0x28 0x02

def S7Client.plcStop (self : S7Client) : Client Unit :=
  doCtrl self (buildPlcStopPdu self.pduRef) 0x29 0x07

def S7Client.plcRestart (self : S7Client) : Client Unit :=
  doCtrl self (buildPlcRestartPdu self.pduRef) 0x28 0x02

def S7Client.plcStatus (self : S7Client) : Client CpuStatus :=
  if self.connected = false then ofResult (err .notConnected)
  else do
    send .err (buildPlcStatusPdu self.pduRef)
    let resp ← receive .err
    ofResult (parsePlcStatus resp)

/-- `min` are the bytes a CPU information has: a shorter list is taken for the first of two parts. -/
def szlRead (cl : S7Client) (id index : Int32) (min : Nat) : Client CpuInfo :=
  if cl.connected = false then ofResult (err .notConnected)
  else do
    send .err (buildSzlFirstPdu cl.pduRef id index)
    let resp ← receive .err
    let szl ← ofResult (parseSzlFirst resp)
    if szl.data.length < min then do
      send .err (buildSzlNextPdu cl.pduRef cl.pduRef)
      let resp2 ← receive .err
      let szl2 ← ofResult (parseSzlFirst resp2)
      ofResult (parseCpuInfo (szl.data ++ szl2.data))
    else ofResult (parseCpuInfo szl.data)

def szlReadCp (cl : S7Client) (id index : Int32) : Client CPInfo :=
  if cl.connected = false then ofResult (err .notConnected)
  else do
    send .err (buildSzlFirstPdu cl.pduRef id index)
    let resp ← receive .err
    let szl ← ofResult (parseSzlFirst resp)
    ofResult (parseCpInfo szl.data)

def S7Client.cpuInfo (self : S7Client) : Client CpuInfo := szlRead self 0x001C 0x000 205

def S7Client.cpInfo (self : S7Client) : Client CPInfo := szlReadCp self 0x0131 0x000

/-! ## 3. The public API -/

/-- A call of the public API on a connection, with its arguments. -/
inductive Operation where
  | agRead (db start size : Int32)
  | agWrite (db start : Int32) (data : List UInt8)
  | agReadString (db start maxLen : Int32)
  | agWriteString (db start maxLen : Int32) (value : Text)
  | agReadInt (db start : Int32)
  | agWriteInt (db start value : Int32)
  | agReadWord (db start : Int32)
  | agWriteWord (db start value : Int32)
  | agReadDInt (db start : Int32)
  | agWriteDInt (db start value : Int32)
  | agReadDWord (db start : Int32)
  | agWriteDWord (db start : Int32) (value : Int64)
  | ebRead (start size : Int32)
  | ebWrite (start : Int32) (data : List UInt8)
  | abRead (start size : Int32)
  | abWrite (start : Int32) (data : List UInt8)
  | mbRead (start size : Int32)
  | mbWrite (start : Int32) (data : List UInt8)
  | plcStart
  | plcStop
  | plcRestart
  | plcStatus
  | cpuInfo
  | cpInfo

@[reducible] def Operation.Result : Operation → Type
  | .agRead .. | .agWriteString .. | .ebRead .. | .abRead .. | .mbRead .. => List UInt8
  | .agReadString .. => Text
  | .agReadInt .. | .agReadWord .. | .agReadDInt .. => Int32
  | .agReadDWord .. => Int64
  | .plcStatus => CpuStatus
  | .cpuInfo => CpuInfo
  | .cpInfo => CPInfo
  | _ => Unit

/-- The program of a call on the client `cl`. -/
def Operation.prog (takes : Int32 → Bool) (cl : S7Client) : (o : Operation) → Client o.Result
  | .agRead db start size => cl.agRead db start size
  | .agWrite db start data => cl.agWrite db start data
  | .agReadString db start maxLen => cl.agReadString takes db start maxLen
  | .agWriteString db start maxLen value => cl.agWriteString db start maxLen value
  | .agReadInt db start => cl.agReadInt db start
  | .agWriteInt db start value => cl.agWriteInt db start value
  | .agReadWord db start => cl.agReadWord db start
  | .agWriteWord db start value => cl.agWriteWord db start value
  | .agReadDInt db start => cl.agReadDInt db start
  | .agWriteDInt db start value => cl.agWriteDInt db start value
  | .agReadDWord db start => cl.agReadDWord db start
  | .agWriteDWord db start value => cl.agWriteDWord db start value
  | .ebRead start size => cl.ebRead start size
  | .ebWrite start data => cl.ebWrite start data
  | .abRead start size => cl.abRead start size
  | .abWrite start data => cl.abWrite start data
  | .mbRead start size => cl.mbRead start size
  | .mbWrite start data => cl.mbWrite start data
  | .plcStart => cl.plcStart
  | .plcStop => cl.plcStop
  | .plcRestart => cl.plcRestart
  | .plcStatus => cl.plcStatus
  | .cpuInfo => cl.cpuInfo
  | .cpInfo => cl.cpInfo

/-! ## 4. Without a connection -/

section NotConnected

variable {cl : S7Client} {start : Int32}

theorem ValueRead.not_connected {area : Area} {size : Int32} {α : Type}
    {dec : List UInt8 → S7Result α} {p : Client α} (h : ValueRead cl start area size dec p)
    (hc : cl.connected = false) : p = ofResult (err .notConnected) := by
  rw [h.eq, chunkedRead_not_connected hc]
  rfl

theorem ValueWrite.not_connected {area : Area} {data : List UInt8} {p : Client Unit}
    (h : ValueWrite cl start area data p) (hc : cl.connected = false) :
    p = ofResult (err .notConnected) := by
  rw [h.eq, chunkedWrite_not_connected hc]

/-- **A client that is not connected** returns the error from every operation, without a call. -/
theorem Operation.prog_not_connected (takes : Int32 → Bool) (hc : cl.connected = false)
    (o : Operation) : o.prog takes cl = ofResult (err .notConnected) := by
  cases o with
  | agRead db start size => exact (ValueRead.bytes (.ag db)).not_connected hc
  | agWrite db start data => exact (ValueWrite.bytes (.ag db)).not_connected hc
  | agReadString db start maxLen => exact if_pos hc
  | agWriteString db start maxLen value => exact if_pos hc
  | agReadInt db start => exact (ValueRead.int db).not_connected hc
  | agWriteInt db start value => exact (ValueWrite.int db value).not_connected hc
  | agReadWord db start => exact (ValueRead.word db).not_connected hc
  | agWriteWord db start value => exact (ValueWrite.word db value).not_connected hc
  | agReadDInt db start => exact (ValueRead.dint db).not_connected hc
  | agWriteDInt db start value => exact (ValueWrite.dint db value).not_connected hc
  | agReadDWord db start => exact (ValueRead.dword db).not_connected hc
  | agWriteDWord db start value => exact (ValueWrite.dword db value).not_connected hc
  | ebRead start size => exact (ValueRead.bytes .eb).not_connected hc
  | ebWrite start data => exact (ValueWrite.bytes .eb).not_connected hc
  | abRead start size => exact (ValueRead.bytes .ab).not_connected hc
  | abWrite start data => exact (ValueWrite.bytes .ab).not_connected hc
  | mbRead start size => exact (ValueRead.bytes .mb).not_connected hc
  | mbWrite start data => exact (ValueWrite.bytes .mb).not_connected hc
  | plcStart => exact if_pos hc
  | plcStop => exact if_pos hc
  | plcRestart => exact if_pos hc
  | plcStatus => exact if_pos hc
  | cpuInfo => exact if_pos hc
  | cpInfo => exact if_pos hc

end NotConnected

end MoonS7
