import MoonS7.Client.Operations
import MoonS7.Plc.Simulator

/-!
# Operations as accesses to a memory

What the operations on data are for: each reads the bytes of one range of the PLC's memory and makes
a result of them, or stores bytes in one (`Access`). `Access.effect` is what it comes to on a memory,
with no frames, chunks or replies.

Main result: `Operation.prog_eq` -- every such operation is one of the two loops, with what it makes
of the bytes.
-/

namespace MoonS7

open Interaction Ranges

/-! ## 1. Accesses -/

inductive Access (β : Type) where
  | reads (area : Area) (start size : Int32) (dec : List UInt8 → S7Result β)
  | writes (area : Area) (start : Int32) (data : List UInt8) (res : β)

namespace Access

variable {β : Type}

/-- The loop that makes the access. -/
def prog (cl : S7Client) : Access β → Client β
  | .reads area start size dec => chunkedRead cl area start size >>= fun b => ofResult (dec b)
  | .writes area start data res => chunkedWrite cl area start data >>= fun _ => ofResult (.ok res)

def effect : Access β → Mem → S7Result β × Mem
  | .reads area start size dec, m => (dec (window (m area.region) start.toInt.toNat size.toInt.toNat), m)
  | .writes area start data res, m => (.ok res, m.store area.region start.toInt.toNat data)

/-- The range it is about: region, offset and number of bytes. -/
def range : Access β → Region × Nat × Nat
  | .reads area start size _ => (area.region, start.toInt.toNat, size.toInt.toNat)
  | .writes area start data _ => (area.region, start.toInt.toNat, data.length)

/-- The bytes it stores. -/
def stored : Access β → List UInt8
  | .reads .. => []
  | .writes _ _ data _ => data

/-- A range that the fields of a frame can name; there is something to read. -/
inductive InRange : Access β → Prop where
  | reads {area : Area} {r : Region} {start size : Int32} {dec : List UInt8 → S7Result β}
      (ha : Names area r) (h₀ : 0 ≤ start.toInt) (h₁ : 1 ≤ size.toInt)
      (hr : start.toInt + size.toInt ≤ 2 ^ 21) : InRange (.reads area start size dec)
  | writes {area : Area} {r : Region} {start : Int32} {data : List UInt8} {res : β}
      (ha : Names area r) (h₀ : 0 ≤ start.toInt) (hr : start.toInt + data.length ≤ 2 ^ 21) :
      InRange (.writes area start data res)

/-- Outside its range an access changes nothing, and inside it no more than what it stores. -/
theorem effect_mem (a : Access β) (m : Mem) :
    (a.effect m).2 = m.store a.range.1 a.range.2.1 a.stored := by
  cases a with
  | reads area start size dec => exact (Mem.store_nil m _ _).symm
  | writes area start data res => rfl

end Access

/-! ## 2. The operations -/

/-- The access an operation makes, if it is one on data. -/
def Operation.access (takes : Int32 → Bool) : (o : Operation) → Option (Access o.Result)
  | .agRead db start size => some (.reads (.db db) start size .ok)
  | .agWrite db start data => some (.writes (.db db) start data ())
  | .agReadString db start maxLen =>
    some (.reads (.db db) start (maxLen + 2) (decodeS7String takes))
  | .agWriteString db start maxLen value =>
    some (.writes (.db db) start (StringField.new db start maxLen value).toBytes
      (StringField.new db start maxLen value).toBytes)
  | .agReadInt db start => some (.reads (.db db) start 2 intValue)
  | .agWriteInt db start value => some (.writes (.db db) start (intBytes value) ())
  | .agReadWord db start => some (.reads (.db db) start 2 wordValue)
  | .agWriteWord db start value => some (.writes (.db db) start (wordBytes value) ())
  | .agReadDInt db start =>
    some (.reads (.db db) start 4 fun b => (DIntField.new db start b).map DIntField.value)
  | .agWriteDInt db start value => some (.writes (.db db) start (dintToBytes value) ())
  | .agReadDWord db start =>
    some (.reads (.db db) start 4 fun b => (DWordField.new db start b).map DWordField.value)
  | .agWriteDWord db start value => some (.writes (.db db) start (dwordToBytes value) ())
  | .ebRead start size => some (.reads .inputs start size .ok)
  | .ebWrite start data => some (.writes .inputs start data ())
  | .abRead start size => some (.reads .outputs start size .ok)
  | .abWrite start data => some (.writes .outputs start data ())
  | .mbRead start size => some (.reads .flags start size .ok)
  | .mbWrite start data => some (.writes .flags start data ())
  | .plcStart | .plcStop | .plcRestart | .plcStatus | .cpuInfo | .cpInfo => none

section Programs

variable {cl : S7Client} {start : Int32} {area : Area}

theorem ByteRead.access_eq {size : Int32} {p : Client (List UInt8)}
    (h : ByteRead cl start size area p) :
    p = (Access.reads area start size .ok : Access (List UInt8)).prog cl :=
  (ValueRead.bytes h).eq

theorem ByteWrite.access_eq {data : List UInt8} {p : Client Unit}
    (h : ByteWrite cl start data area p) : p = (Access.writes area start data ()).prog cl :=
  h.eq.trans (bind_pure _).symm

theorem ValueWrite.access_eq {data : List UInt8} {p : Client Unit}
    (h : ValueWrite cl start area data p) : p = (Access.writes area start data ()).prog cl :=
  h.eq.trans (bind_pure _).symm

/-- **Every operation on data is one of the two loops.** -/
theorem Operation.prog_eq {takes : Int32 → Bool} (hc : cl.connected = true) {o : Operation}
    {a : Access o.Result} (h : o.access takes = some a) : o.prog takes cl = a.prog cl := by
  cases o with
  | agRead db start size => cases h; exact (ByteRead.ag db).access_eq
  | agWrite db start data => cases h; exact (ByteWrite.ag db).access_eq
  | agReadString db start maxLen => cases h; exact if_neg (by rw [hc]; decide)
  | agWriteString db start maxLen value => cases h; exact if_neg (by rw [hc]; decide)
  | agReadInt db start => cases h; exact (ValueRead.int db).eq
  | agWriteInt db start value => cases h; exact (ValueWrite.int db value).access_eq
  | agReadWord db start => cases h; exact (ValueRead.word db).eq
  | agWriteWord db start value => cases h; exact (ValueWrite.word db value).access_eq
  | agReadDInt db start => cases h; exact (ValueRead.dint db).eq
  | agWriteDInt db start value => cases h; exact (ValueWrite.dint db value).access_eq
  | agReadDWord db start => cases h; exact (ValueRead.dword db).eq
  | agWriteDWord db start value => cases h; exact (ValueWrite.dword db value).access_eq
  | ebRead start size => cases h; exact ByteRead.eb.access_eq
  | ebWrite start data => cases h; exact ByteWrite.eb.access_eq
  | abRead start size => cases h; exact ByteRead.ab.access_eq
  | abWrite start data => cases h; exact ByteWrite.ab.access_eq
  | mbRead start size => cases h; exact ByteRead.mb.access_eq
  | mbWrite start data => cases h; exact ByteWrite.mb.access_eq
  | plcStart => cases h
  | plcStop => cases h
  | plcRestart => cases h
  | plcStatus => cases h
  | cpuInfo => cases h
  | cpInfo => cases h

end Programs

/-- An operation on data, in a range that a frame can name. -/
structure DataOp (takes : Int32 → Bool) where
  op : Operation
  access : Access op.Result
  eq : op.access takes = some access
  inRange : access.InRange

namespace DataOp

variable {takes : Int32 → Bool}

@[reducible] def Result (d : DataOp takes) : Type := d.op.Result

def prog (cl : S7Client) (d : DataOp takes) : Client d.Result := d.op.prog takes cl

def effect (d : DataOp takes) (m : Mem) : S7Result d.Result × Mem := d.access.effect m

theorem prog_eq {cl : S7Client} (hc : cl.connected = true) (d : DataOp takes) :
    d.prog cl = d.access.prog cl :=
  Operation.prog_eq hc d.eq

end DataOp

end MoonS7
