/-!
# Cues

A caption event: its text, when it starts, and how long it lasts. A cue without a duration
lasts until the next one. Inside the text the mark `\N` breaks lines.
-/

namespace ClosedCaptions

/-- A line break inside cue text. -/
def lineBreak : List Char := ['\\', 'N']

structure Cue where
  text : String
  start : Int64
  duration : Option Int64
  deriving DecidableEq, Repr

namespace Cue

def endTime (cue : Cue) : Option Int64 :=
  cue.duration.map (cue.start + ·)

def isEmpty (cue : Cue) : Bool :=
  cue.text.isEmpty

/-- Cut at every line break, leftmost first; `line` is the current line so far, reversed. -/
def splitLines (line : List Char) : List Char → List (List Char)
  | '\\' :: 'N' :: rest => line.reverse :: splitLines [] rest
  | c :: rest => splitLines (c :: line) rest
  | [] => [line.reverse]

def lines (cue : Cue) : List String :=
  (splitLines [] cue.text.toList).map String.ofList

def display (cue : Cue) : String :=
  match cue.endTime with
  | some stop => s!"[{cue.start} -> {stop}] " ++ cue.text
  | none => s!"[{cue.start} -> ...] " ++ cue.text

end Cue

end ClosedCaptions
