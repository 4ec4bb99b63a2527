import ClosedCaptions.Caption.Cue
import ClosedCaptions.Timestamp

/-!
# SubRip output

Numbered entries of a time line and text lines. A cue without a duration waits for the next cue
or the end of the stream; a cue without text takes no number.
-/

namespace ClosedCaptions

structure SubRip where
  /-- The entries written. -/
  entries : Nat
  pending : Option Cue
  output : String
  deriving DecidableEq, Repr

namespace SubRip

def empty : SubRip :=
  ⟨0, none, ""⟩

def timeLine (start stop : Int64) : String :=
  let start := Timestamp.display (Timestamp.milliseconds start) ','
  let stop := Timestamp.display (Timestamp.milliseconds stop) ','
  s!"{start} --> {stop}"

/-- One entry: its number, its time line, its text lines and a blank line. -/
def block (number : Nat) (cue : Cue) (stop : Int64) : String :=
  String.join ((toString number :: timeLine cue.start stop :: cue.lines ++ [""]).map (· ++ "\n"))

/-- Write a cue that ends at `stop`. -/
def write (s : SubRip) (cue : Cue) (stop : Int64) : SubRip :=
  if cue.isEmpty then s
  else
    { s with
      entries := s.entries + 1
      output := s.output ++ block (s.entries + 1) cue stop }

/-- Write the cue that waits, ending at `time`. -/
def close (s : SubRip) (time : Int64) : SubRip :=
  match s.pending with
  | some cue => { s with pending := none }.write cue time
  | none => s

def push (s : SubRip) (cue : Cue) : SubRip :=
  let s := s.close cue.start
  match cue.endTime with
  | some stop => s.write cue stop
  | none => { s with pending := some cue }

def finish (s : SubRip) (time : Int64) : SubRip :=
  s.close time

end SubRip

end ClosedCaptions
