import ClosedCaptions.Procedure
import ClosedCaptions.Stream.StreamUnit

/-!
# Unit splitter

Splits a stream into units as its bytes arrive. A unit ends where the next `00 00 01` begins, so
it is released once that has arrived or the stream is known to be complete. Every push and the
final `finish` is answered by one `insufficient` when nothing more can be released.
-/

namespace ClosedCaptions

/-- The bytes that open a unit stand at the front. -/
def opensUnit : List UInt8 → Bool
  | 0 :: 0 :: 1 :: _ => true
  | _ => false

/-- The index of the first `00 00 01`, counted from `index`. -/
def findUnitFrom (index : Nat) : List UInt8 → Option Nat
  | [] => none
  | byte :: bytes =>
    if opensUnit (byte :: bytes) then some index else findUnitFrom (index + 1) bytes

/-- The index of the first `00 00 01`. -/
def findUnit (bytes : List UInt8) : Option Nat :=
  findUnitFrom 0 bytes

structure Splitter where
  buffer : List UInt8
  /-- Pushes and finishes not yet answered by `insufficient`. -/
  pending : Nat
  finished : Bool
  /-- Units released so far. -/
  released : Nat
  deriving DecidableEq, Repr

namespace Splitter

def empty : Splitter :=
  ⟨[], 0, false, 0⟩

def push (s : Splitter) (bytes : List UInt8) : Splitter :=
  { s with buffer := s.buffer ++ bytes, pending := s.pending + 1 }

def finish (s : Splitter) : Splitter :=
  { s with finished := true, pending := s.pending + 1 }

/-- What a request for the next unit yields. -/
inductive Item where
  | unit (unit : StreamUnit)
  | insufficient
  | exhausted
  deriving DecidableEq, Repr

structure Step where
  item : Item
  splitter : Splitter
  log : List Entry

/-- Keep a buffer and answer that it does not suffice. -/
def insufficient (s : Splitter) (buffer : List UInt8) (log : List Entry) : Step :=
  ⟨.insufficient, { s with buffer := buffer, pending := s.pending - 1 }, log⟩

/-- What may still be the beginning of `00 00 01`: the last two bytes, while more may come. -/
def tail (s : Splitter) : List UInt8 :=
  s.buffer.drop (s.buffer.length - if s.finished then 0 else 2)

/-- Where the unit at the front of the bytes ends, if that is known. -/
def unitEnd? (s : Splitter) (bytes : List UInt8) : Option Nat :=
  match findUnitFrom 4 (bytes.drop 4) with
  | some stop => some stop
  | none => if s.finished then some bytes.length else none

/-- Release the unit at the front of the bytes. -/
def release (s : Splitter) (bytes : List UInt8) (log : List Entry) : Step :=
  match bytes, s.unitEnd? bytes with
  | _ :: _ :: _ :: startCode :: _, some stop =>
    ⟨.unit ⟨startCode, (bytes.take stop).drop 4⟩,
      { s with buffer := bytes.drop stop, released := s.released + 1 }, log⟩
  | _, _ => s.insufficient bytes log

def next (s : Splitter) : Step :=
  if s.pending = 0 then ⟨.exhausted, s, []⟩
  else
    match findUnit s.buffer with
    | none => s.insufficient s.tail []
    | some 0 => s.release s.buffer []
    | some offset => s.release (s.buffer.drop offset) [.skipped offset]

/-- Units released in a row. -/
structure Drained where
  units : List StreamUnit
  splitter : Splitter
  log : List Entry

/-- Request units until one is not released, at most `fuel` times. `units` holds the units so
far, last first. -/
def drainFrom (units : List StreamUnit) (log : List Entry) : Nat → Splitter → Drained
  | 0, s => ⟨units.reverse, s, log⟩
  | fuel + 1, s =>
    let step := s.next
    let log := log ++ step.log
    match step.item with
    | .unit unit => drainFrom (unit :: units) log fuel step.splitter
    | _ => ⟨units.reverse, step.splitter, log⟩

/-- Request units until one is not released. Every unit takes four bytes at least, so the
buffer bounds their number. -/
def drain (s : Splitter) : Drained :=
  drainFrom [] [] (s.buffer.length + 1) s

/-- Request items until there is nothing left to answer, at most `fuel` times. -/
def exhaustFrom (items : List Item) (log : List Entry) : Nat →
    Splitter → List Item × Splitter × List Entry
  | 0, s => (items.reverse, s, log)
  | fuel + 1, s =>
    let step := s.next
    let log := log ++ step.log
    match step.item with
    | .exhausted => (items.reverse, step.splitter, log)
    | item => exhaustFrom (item :: items) log fuel step.splitter

/-- Every item up to the end: each one takes either bytes or a pending answer. -/
def exhaust (s : Splitter) : List Item × Splitter × List Entry :=
  exhaustFrom [] [] (s.buffer.length + s.pending + 1) s

/-- Push one chunk and add what it releases. -/
def feed (d : Drained) (chunk : List UInt8) : Drained :=
  let more := (d.splitter.push chunk).drain
  ⟨d.units ++ more.units, more.splitter, d.log ++ more.log⟩

/-- The units of a whole stream that arrives in chunks. -/
def splitChunks (chunks : List (List UInt8)) : Drained :=
  let fed := chunks.foldl feed ⟨[], empty, []⟩
  let last := fed.splitter.finish.drain
  ⟨fed.units ++ last.units, last.splitter, fed.log ++ last.log⟩

/-- Hand the units that are released to `f`, up to the first failure or until one is not released,
at most `fuel` times. -/
def deliverFrom {σ : Type} (f : StreamUnit → Procedure σ Unit) :
    Nat → Splitter → Procedure σ Splitter
  | 0, s => return s
  | fuel + 1, s => do
    let step := s.next
    Procedure.each Procedure.log step.log
    match step.item with
    | .unit unit =>
      f unit
      deliverFrom f fuel step.splitter
    | _ => return step.splitter

/-- Hand the units that are released to `f` until one is not released. -/
def deliver {σ : Type} (f : StreamUnit → Procedure σ Unit) (s : Splitter) :
    Procedure σ Splitter :=
  deliverFrom f (s.buffer.length + 1) s

end Splitter

/-- A splitter that is fed chunk by chunk, and the number of bytes it was fed. -/
structure Feeding where
  splitter : Splitter
  size : Nat

/-- Take one more chunk and hand over what it releases. -/
def Feeding.feed {σ : Type} (f : StreamUnit → Procedure σ Unit) (fed : Feeding)
    (chunk : List UInt8) : Procedure σ Feeding := do
  let splitter ← (fed.splitter.push chunk).deliver f
  return ⟨splitter, fed.size + chunk.length⟩

/-- Run a procedure on every unit of a stream as its chunks arrive, and return the length of the
stream. -/
def forEachUnit {σ : Type} (chunks : List (List UInt8)) (f : StreamUnit → Procedure σ Unit) :
    Procedure σ Nat := do
  let fed ← Procedure.fold (Feeding.feed f) ⟨.empty, 0⟩ chunks
  let splitter ← fed.splitter.finish.deliver f
  Procedure.log (.inputRead splitter.released fed.size)
  return fed.size

end ClosedCaptions
