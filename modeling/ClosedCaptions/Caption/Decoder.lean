import ClosedCaptions.Caption.Context
import ClosedCaptions.Caption.Pair

/-!
# Caption decoder

Turns the packets of caption blocks into cues. In real time a cue is emitted when its screen is
reaped, without a duration. In batch mode it is held back until the next reap, or the end, tells
how long it lasted.
-/

namespace ClosedCaptions

structure Decoder where
  context : Context
  realTime : Bool
  /-- The text of the cue held back. -/
  held : Option String
  /-- The time of the last reap in batch mode. -/
  heldTime : Int64

namespace Decoder

def initial : Decoder :=
  ⟨.initial, false, none, 0⟩

def setRealTime (d : Decoder) (realTime : Bool) : Decoder :=
  { d with realTime := realTime }

def setFailLevel (d : Decoder) (level : Severity) : Decoder :=
  { d with context := { d.context with failLevel := level } }

def flush (d : Decoder) : Decoder :=
  { d with context := d.context.flush }

/-- The cue held back, ending at a given time. -/
def heldCue? (d : Decoder) (time : Int64) : Option Cue :=
  d.held.map fun text ↦ ⟨text, d.heldTime, some (time - d.heldTime)⟩

/-- Give up the cue held back, ending at a given time. -/
def finish (d : Decoder) (time : Int64) : Option Cue × Decoder :=
  (d.heldCue? time, { d with held := none })

/-- Turn a reaped screen into a cue, or hold it back and give up the one before. -/
def emit (time : Int64) (d : Decoder) : Option Cue × Decoder :=
  let context := { d.context with reaped := false }
  if d.realTime then
    (some ⟨context.buffer, time, none⟩, { d with context := context })
  else
    (d.heldCue? time, { d with context := context, held := some context.buffer, heldTime := time })

/-- Decode one packet. Only the first field of line 21 is decoded. -/
def decodeTriple (time : Int64) (triple : Triple) : Procedure Decoder (Option Cue) := do
  match triple.check with
  | (some problem, _) =>
    Procedure.log (.pairSkipped (triple.marker, triple.first, triple.second) problem)
    return none
  | (none, pair) =>
    if pair.type = 1 then
      return none
    else
      Procedure.focus Decoder.context (fun c d ↦ { d with context := c })
        (Context.processPair pair.first pair.second)
      let d ← Procedure.get
      if d.context.reaped then
        let (cue, d) := emit time d
        Procedure.modify fun _ ↦ d
        return cue
      else
        return none

def decodeTriples (time : Int64) (triples : List Triple) : Procedure Decoder (List Cue) :=
  Procedure.gather (fun triple ↦ Option.toList <$> decodeTriple time triple) triples

/-- Decode packets stamped with a time. Bytes that make no whole packet are ignored. -/
def decode (bytes : List UInt8) (time : Int64) : Procedure Decoder (List Cue) := do
  let (triples, extra) := Triple.split bytes
  if extra ≠ 0 then
    Procedure.log (.trailingBytes extra)
  decodeTriples time triples

end Decoder

end ClosedCaptions
