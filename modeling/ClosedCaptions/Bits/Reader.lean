import ClosedCaptions.Bits.Basic
import ClosedCaptions.Procedure

/-!
# Bit reader

A cursor over the bits of a byte string. The declared length bounds what may be skipped; what
may be read is bounded by the bits that are there.
-/

namespace ClosedCaptions

structure Reader where
  /-- The bits not read yet. -/
  remaining : List Bool
  position : Nat
  /-- The declared length in bits. -/
  length : Nat
  deriving DecidableEq, Repr

namespace Reader

/-- A reader with a declared length of `size` bytes. -/
def withLength (bytes : List UInt8) (size : Nat) : Reader :=
  ⟨Bits.ofBytes bytes, 0, 8 * size⟩

def ofBytes (bytes : List UInt8) : Reader :=
  withLength bytes bytes.length

def available (r : Reader) : Nat :=
  r.length - r.position

def advance (r : Reader) (count : Nat) : Reader :=
  { r with remaining := r.remaining.drop count, position := r.position + count }

/-- Where a failed read of `count` bits reports that the bits ran out: at the end of the data
when whole bytes were still wanted past the current byte and no bits beside them, and otherwise
at the last position before the end that lies as deep in its byte as the reader does. -/
def exhaustedAt (r : Reader) (count : Nat) : Nat :=
  let total := r.position + r.remaining.length
  let inByte := (8 - r.position % 8) % 8
  if inByte + 8 ≤ count ∧ (count - inByte) % 8 = 0 then total else total - inByte

def bit : Procedure Reader Bool := do
  let r ← Procedure.get
  match r.remaining with
  | [] => Procedure.fail .endOfData
  | bit :: _ =>
    Procedure.modify (·.advance 1)
    return bit

/-- An unsigned number of `count` bits, for a type of `typeWidth` bits. -/
def take (count typeWidth : Nat) : Procedure Reader Nat := do
  if typeWidth < count then
    Procedure.fail .readTooWide
  else
    let r ← Procedure.get
    if Bits.atLeast count r.remaining then
      Procedure.modify (·.advance count)
      return Bits.toNat (r.remaining.take count)
    else
      Procedure.fail (.bitsOutOfBounds count (r.exhaustedAt count))

def skip (count : Nat) : Procedure Reader Unit := do
  let r ← Procedure.get
  if r.available < count then
    Procedure.fail .skipOutOfBounds
  else
    Procedure.modify (·.advance count)

end Reader

end ClosedCaptions
