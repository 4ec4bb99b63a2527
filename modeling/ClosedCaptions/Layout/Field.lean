import ClosedCaptions.Bits.Reader
import ClosedCaptions.Bits.Writer

/-!
# Fields

The named bit fields that records are made of, each with one rule for reading and one for
writing. Numbers on the wire have at most 32 bits.
-/

namespace ClosedCaptions

inductive Field where
  /-- One bit. -/
  | flag (name : String)
  /-- A number that must be `expected`. -/
  | fixed (name : String) (width expected : Nat)
  /-- A number of `width` bits, kept in a type of `storage` bits. -/
  | unsigned (name : String) (width storage : Nat)
  deriving DecidableEq, Repr

namespace Field

/-- The largest number of `width` bits, for numbers of at most 32 bits. -/
def maxValue (width : Nat) : Nat :=
  Nat.pow 2 (min width 32) - 1

def name : Field → String
  | flag name | fixed name _ _ | unsigned name _ _ => name

def width : Field → Nat
  | flag _ => 1
  | fixed _ width _ | unsigned _ width _ => width

/-- The bits of the field alone, before they are checked. -/
def readRaw : Field → Procedure Reader Nat
  | flag _ => do
    let bit ← Reader.bit
    return bit.toNat
  | fixed _ width _ | unsigned _ width _ => Reader.take width 32

/-- Why a number that was read is not a value of the field. -/
def refusal? : Field → Nat → Option Error
  | flag _, _ => none
  | fixed name _ expected, value =>
    if value = expected then none else some (.fixedMismatch name value expected)
  | unsigned name width storage, value =>
    if value < Nat.pow 2 storage then none else some (.outOfRange name value (maxValue width))

def read (field : Field) : Procedure Reader Nat := do
  let value ← field.readRaw
  match field.refusal? value with
  | some error => Procedure.fail error
  | none =>
    Procedure.log (.field field.name value)
    return value

/-- Write a number that has room and fits, or say which field it was. -/
def put (name : String) (width value : Nat) : Procedure Writer Unit := do
  let w ← Procedure.get
  if w.available < width then
    Procedure.fail (.outOfSpace name width w.available)
  else
    Writer.put width 32 value
    Procedure.log (.field name value)

def putInRange (name : String) (width value : Nat) : Procedure Writer Unit :=
  if maxValue width < value then
    Procedure.fail (.outOfRange name value (maxValue width))
  else
    put name width value

/-- Write the value of a field; a fixed field has its own. -/
def write : Field → Nat → Procedure Writer Unit
  | flag name, value => put name 1 value
  | fixed name width expected, _ => putInRange name width expected
  | unsigned name width _, value => putInRange name width value

/-- Read fields in turn up to the first failure. A fixed field yields no value. -/
def readAll : List Field → Procedure Reader (List (Option Nat) × Option Error)
  | [] => return ([], none)
  | field :: fields => do
    match ← field.read.attempt with
    | .error error => return ([], some error)
    | .ok value =>
      let shown :=
        match field with
        | fixed .. => none
        | _ => some value
      let (values, failure) ← readAll fields
      return (shown :: values, failure)

/-- Write fields in turn up to the first failure. -/
def writeAll : List (Field × Nat) → Procedure Writer Unit
  | [] => return
  | (field, value) :: fields => do
    field.write value
    writeAll fields

end Field

end ClosedCaptions
