import ClosedCaptions.Procedure

/-!
# Chunked input

An input is read in chunks of a chosen size. Small chunks come out of a block buffer and are cut
short where a block ends; chunks of a block or more bypass the buffer.
-/

namespace ClosedCaptions.Chunks

/-- The size of a buffered block. -/
def blockSize : Nat := 8192

/-- Cut into pieces of `size`, the last one possibly shorter, at most `fuel` of them. `pieces`
holds the pieces so far, last first. -/
def cutFrom (pieces : List (List UInt8)) (size : Nat) : Nat → List UInt8 → List (List UInt8)
  | 0, _ => pieces.reverse
  | fuel + 1, bytes =>
    if bytes.isEmpty then pieces.reverse
    else cutFrom (bytes.take size :: pieces) size fuel (bytes.drop size)

/-- Cut into pieces of `size`; nothing can be cut into pieces of no bytes. -/
def cut (size : Nat) (bytes : List UInt8) : List (List UInt8) :=
  if size = 0 then [] else cutFrom [] size bytes.length bytes

/-- The chunks that reading with buffers of `size` bytes yields. -/
def read (size : Nat) (bytes : List UInt8) : List (List UInt8) :=
  if blockSize ≤ size then cut size bytes else (cut blockSize bytes).flatMap (cut size)

/-- Hand chunks to a consumer until it asks to stop or fails. -/
def feed {σ : Type} (consume : List UInt8 → Procedure σ Bool) (chunks : List (List UInt8)) :
    Procedure σ Unit := do
  let _ ← Procedure.fold (fun more chunk ↦ if more then consume chunk else return false) true chunks

/-- The chunk size of the commands. -/
def commandSize : Nat := 65536

end ClosedCaptions.Chunks
