import ClosedCaptions.Stream.Chunks

/-!
# Block writers

What is written to a file is collected and put into it in blocks, one after the other. A writer
keeps its own place in the file, so that two writers on one file write over each other.
-/

namespace ClosedCaptions

structure BlockWriter where
  /-- Where the next block goes. -/
  position : Nat
  /-- What is not in the file yet, the latest piece first. -/
  waiting : List (List UInt8)
  /-- The number of bytes that wait. -/
  size : Nat
  deriving DecidableEq, Repr

namespace BlockWriter

def start : BlockWriter :=
  ⟨0, [], 0⟩

/-- Write over the bytes of a file from a position on. -/
def overwrite (position : Nat) (bytes file : List UInt8) : List UInt8 :=
  file.take position ++ (bytes ++ file.drop (position + bytes.length))

/-- Put bytes into the file. -/
def put (bytes : List UInt8) (w : BlockWriter) (file : List UInt8) :
    BlockWriter × List UInt8 :=
  ({ w with position := w.position + bytes.length }, overwrite w.position bytes file)

/-- Put what waits into the file. -/
def flush (w : BlockWriter) (file : List UInt8) : BlockWriter × List UInt8 :=
  { w with waiting := [], size := 0 }.put w.waiting.reverse.flatten file

/-- Write a piece. It waits if a block has room for it, and a piece of a block or more never
waits. What waited goes first if the piece does not fit behind it. -/
def write (piece : List UInt8) (w : BlockWriter) (file : List UInt8) :
    BlockWriter × List UInt8 :=
  let (w, file) := if Chunks.blockSize < w.size + piece.length then w.flush file else (w, file)
  if Chunks.blockSize ≤ piece.length then w.put piece file
  else ({ w with waiting := piece :: w.waiting, size := w.size + piece.length }, file)

end BlockWriter

end ClosedCaptions
