import ClosedCaptions.Layout.Field

/-!
# Layouts

A record describes its bits once, as the sequence of its fields with the values they hold now.
`Layout.read` takes each value from the bits instead and so builds a new record; `Layout.write`
puts the held values. A union is the only place where the two part: what was read decides the
alternative when reading, and the held alternative decides when writing.
-/

namespace ClosedCaptions

inductive Layout (α : Type) : Type where
  | done (value : α)
  | note (entry : Entry) (next : Layout α)
  | field (field : Field) (value : Nat) (next : Nat → Layout α)
  | union (tag : Field) (value : Nat) (fresh : Nat → Layout α) (held : Layout α)

namespace Layout

variable {α β : Type}

protected def bind (f : α → Layout β) : Layout α → Layout β
  | done value => f value
  | note entry next => note entry (next.bind f)
  | field fld value next => field fld value fun v ↦ (next v).bind f
  | union tag value fresh held => union tag value (fun v ↦ (fresh v).bind f) (held.bind f)

instance : Monad Layout where
  pure := done
  bind l f := l.bind f

def flag (name : String) (value : Bool) : Layout Bool :=
  field (.flag name) value.toNat fun v ↦ done (v != 0)

def fixed (width : Nat) (name : String) (expected : Nat) : Layout Unit :=
  field (.fixed name width expected) expected fun _ ↦ done ()

def uint8 (width : Nat) (name : String) (value : UInt8) : Layout UInt8 :=
  field (.unsigned name width 8) value.toNat fun v ↦ done (UInt8.ofNat v)

def uint16 (width : Nat) (name : String) (value : UInt16) : Layout UInt16 :=
  field (.unsigned name width 16) value.toNat fun v ↦ done (UInt16.ofNat v)

def uint32 (width : Nat) (name : String) (value : UInt32) : Layout UInt32 :=
  field (.unsigned name width 32) value.toNat fun v ↦ done (UInt32.ofNat v)

/-- The layouts of several records in a row. -/
def sequence : List (Layout α) → Layout (List α)
  | [] => pure []
  | l :: ls => do
    let value ← l
    let values ← sequence ls
    return value :: values

def read : Layout α → Procedure Reader α
  | done value => pure value
  | note entry next => do
    Procedure.log entry
    next.read
  | field fld _ next => do
    let value ← fld.read
    (next value).read
  | union tag _ fresh _ => do
    let value ← tag.read
    (fresh value).read

def write : Layout α → Procedure Writer α
  | done value => pure value
  | note entry next => do
    Procedure.log entry
    next.write
  | field fld value next => do
    fld.write value
    (next value).write
  | union tag value _ held => do
    tag.write value
    held.write

end Layout

end ClosedCaptions
