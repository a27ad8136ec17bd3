import MoonS7.Core

/-!
# Data types, areas and items (`protocol/types.mbt`, `protocol/constant.mbt`, `protocol/items.mbt`)

What a request can ask for: a data type with its word length, an area of the PLC, and the items
of a read or a write. The constructors of the items are the source's; a word length that is not
one of the `WL_*` constants can only come in through `withWordLen`.
-/

namespace MoonS7

/-! ## 1. Word lengths and data types -/

def wlBit : Int32 := 0x01
def wlByte : Int32 := 0x02
def wlChar : Int32 := 0x03
def wlWord : Int32 := 0x04
def wlInt : Int32 := 0x05
def wlDWord : Int32 := 0x06
def wlDInt : Int32 := 0x07
def wlReal : Int32 := 0x08
def wlCounter : Int32 := 0x1C
def wlTimer : Int32 := 0x1D

inductive DataType where
  | bool
  | byte
  | word
  | dWord
  | int
  | dInt
  | real
  | s5Time
  | time
  | date
  | timeOfDay
  | string
  | byteArray (n : Int32)
  | char
  | counter
  | timer
  | iecTimer
  | dateAndTime
  deriving DecidableEq

/-- Bytes per element; `0` for a word length that is none of the constants. -/
def dataSizeByte (wordLen : Int32) : Nat :=
  if wordLen = wlBit then 1
  else if wordLen = wlByte then 1
  else if wordLen = wlChar then 1
  else if wordLen = wlWord then 2
  else if wordLen = wlInt then 2
  else if wordLen = wlCounter then 2
  else if wordLen = wlTimer then 2
  else if wordLen = wlDWord then 4
  else if wordLen = wlDInt then 4
  else if wordLen = wlReal then 4
  else 0

def dtToWordLen : DataType → Int32
  | .bool => wlBit
  | .byte | .char | .string | .byteArray _ => wlByte
  | .word | .counter | .s5Time => wlWord
  | .int => wlInt
  | .dWord | .time | .timeOfDay | .date => wlDWord
  | .dInt => wlDInt
  | .real => wlReal
  | .timer => wlTimer
  | .iecTimer | .dateAndTime => wlDWord

/-! ## 2. Areas -/

inductive Area where
  | processInputs
  | processOutputs
  | flags
  | dataBlock (n : Int32)
  | systemInfo
  | timer
  | counter
  | vendor (n : Int32)
  deriving DecidableEq

def Area.inputs : Area := .processInputs
def Area.outputs : Area := .processOutputs
def Area.db (n : Int32) : Area := .dataBlock n

/-! ## 3. Items -/

structure ReadItem where
  area : Area
  byteOffset : Int32
  bitOffset : Int32
  count : Int32
  dataType : DataType
  wordLen : Int32

structure WriteItem where
  area : Area
  byteOffset : Int32
  bitOffset : Int32
  dataType : DataType
  data : List UInt8
  wordLen : Int32

def ReadItem.withWordLen (area : Area) (off : Int32) (dt : DataType) (wl : Int32) : ReadItem :=
  let cnt := match dt with
    | .byteArray n => n
    | _ => 1
  { area, byteOffset := off, bitOffset := 0, count := cnt, dataType := dt, wordLen := wl }

def ReadItem.new (area : Area) (off : Int32) (dt : DataType) : ReadItem :=
  ReadItem.withWordLen area off dt (dtToWordLen dt)

def WriteItem.withWordLen (area : Area) (off : Int32) (dt : DataType) (d : List UInt8)
    (wl : Int32) : WriteItem :=
  { area, byteOffset := off, bitOffset := 0, dataType := dt, data := d, wordLen := wl }

def WriteItem.new (area : Area) (off : Int32) (dt : DataType) (d : List UInt8) : WriteItem :=
  WriteItem.withWordLen area off dt d (dtToWordLen dt)

def WriteItem.db (n off : Int32) (dt : DataType) (d : List UInt8) : WriteItem :=
  WriteItem.new (.dataBlock n) off dt d

def WriteItem.flag (off : Int32) (dt : DataType) (d : List UInt8) : WriteItem :=
  WriteItem.new .flags off dt d

end MoonS7
