import ClosedCaptions.Bits.Basic
import ClosedCaptions.Procedure

/-!
# Bit writer

A cursor that overwrites the front of a buffer of fixed capacity. A write is checked before any
bit is stored, so a failed one changes nothing, and a byte reaches the buffer only when all its
bits are written.
-/

namespace ClosedCaptions

structure Writer where
  buffer : List UInt8
  /-- The bits written, the latest first. -/
  written : List Bool
  position : Nat
  /-- The capacity in bits. -/
  capacity : Nat
  position_eq : position = written.length
  deriving DecidableEq

namespace Writer

/-- A writer with a capacity of `size` bytes. -/
def withCapacity (buffer : List UInt8) (size : Nat) : Writer :=
  ⟨buffer, [], 0, 8 * size, rfl⟩

def ofBuffer (buffer : List UInt8) : Writer :=
  withCapacity buffer buffer.length

def available (w : Writer) : Nat :=
  w.capacity - w.position

def byteAligned (w : Writer) : Bool :=
  w.position % 8 == 0

def append (w : Writer) (bits : List Bool) : Writer :=
  { w with
    written := bits.reverse ++ w.written
    position := bits.length + w.position
    position_eq := by simp [w.position_eq] }

/-- The buffer as it stands: the complete bytes written, then what was there before. -/
def contents (w : Writer) : List UInt8 :=
  let bytes := Bits.toBytes w.written.reverse
  bytes ++ w.buffer.drop bytes.length

/-- Write a number as `count` bits, from a type of `typeWidth` bits. -/
def put (count typeWidth value : Nat) : Procedure Writer Unit := do
  let w ← Procedure.get
  if w.available < count then
    Procedure.fail (.noRoom count w.position w.capacity)
  else if typeWidth < count then
    Procedure.fail .writeTooWide
  else if Nat.pow 2 count ≤ value then
    Procedure.fail .valueTooWide
  else
    Procedure.modify (·.append (Bits.ofNat count value))

def bit (value : Bool) : Procedure Writer Unit :=
  put 1 1 value.toNat

end Writer

/-- Run a writing procedure over a buffer, and leave the buffer as far as it was written. -/
def Procedure.overwriting {α : Type} (p : Procedure Writer α) : Procedure (List UInt8) α :=
  .focus Writer.ofBuffer (fun w _ ↦ w.contents) p

end ClosedCaptions
