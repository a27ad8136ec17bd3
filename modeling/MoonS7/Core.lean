import Mathlib.Tactic.Common

/-!
# Errors and results (`core/error.mbt`)

`S7Error` has the errors the modelled functions return, with their texts. A call of the library
can also end without any result, when an array index is out of bounds or an integer is divided by
zero: `Stop` keeps the two endings apart, so that "returns an error" and "aborts" are different
statements.
-/

namespace MoonS7

inductive S7Error where
  | connectionFailed (m : String)
  | connectionTimeout
  | connectionClosed
  | invalidPdu (m : String)
  | plcError (c : Int32) (m : String)
  | timeout (m : String)
  | transportError (m : String)
  | itemNotFound (m : String)
  | notConnected
  | alreadyConnected
  | jobPending
  deriving DecidableEq

/-- How a call ends when it does not return `Ok`: with an `S7Error` the caller sees, or with the
    program aborted. -/
inductive Stop where
  | err (e : S7Error)
  | abort
  deriving DecidableEq

abbrev S7Result (α : Type) : Type := Except Stop α

/-- `Err(e)`. -/
abbrev err {α : Type} (e : S7Error) : S7Result α := .error (.err e)

@[simp] theorem ok_bind {α β : Type} (a : α) (f : α → S7Result β) :
    ((Except.ok a : S7Result α) >>= f) = f a := rfl

/-- `data[i]`, which aborts past the end of the array. -/
def byteAt (data : List UInt8) (i : Nat) : S7Result UInt8 :=
  match data[i]? with
  | some b => .ok b
  | none => .error .abort

theorem byteAt_ok {data : List UInt8} {i : Nat} {b : UInt8} (h : data[i]? = some b) :
    byteAt data i = .ok b := by
  rw [byteAt, h]

/-- Inside the array there is a byte to read. -/
theorem byteAt_of_lt {data : List UInt8} {i : Nat} (h : i < data.length) :
    ∃ b, data[i]? = some b ∧ byteAt data i = .ok b :=
  ⟨data[i], List.getElem?_eq_getElem h, byteAt_ok (List.getElem?_eq_getElem h)⟩

end MoonS7
