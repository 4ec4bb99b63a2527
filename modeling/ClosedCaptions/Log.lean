import ClosedCaptions.Error
import ClosedCaptions.Caption.Cue

/-!
# Log entries

What an operation reports beside its result. Entries are data; `Entry.severity` and
`Entry.text` say how they are shown. A problem that was tolerated rather than returned is an
entry of its own kind, so that a run without problems can be recognised from its log.
-/

namespace ClosedCaptions

open Numeral

/-- From the most severe to the most detailed. -/
inductive Severity where
  | error
  | warn
  | info
  | debug
  | trace
  deriving DecidableEq, Repr

namespace Severity

def rank : Severity → Nat
  | error => 1
  | warn => 2
  | info => 3
  | debug => 4
  | trace => 5

/-- The first severity is at least as severe as the second. -/
instance : LE Severity where
  le a b := a.rank ≤ b.rank

instance (a b : Severity) : Decidable (a ≤ b) :=
  inferInstanceAs (Decidable (a.rank ≤ b.rank))

end Severity

inductive Entry where
  -- Records
  | field (name : String) (value : Nat)
  | userDataRead (used total : Nat)
  | unknownIdentifier (identifier : UInt32)
  | unknownTypeCode (code : UInt8)
  | badSideDataLength (length : Nat)
  | oversizedSideData (count : Nat)
  -- Units
  | skipped (count : Nat)
  | captionsRemoved (size : Nat)
  | captionsExtracted (size : Nat)
  | missingExtension
  | sequenceRewritten (aspect rate n d : Nat)
  -- Captions
  | carriageReturn
  | endOfCaption
  | characters (first second : UInt8)
  | unknownCommand (first second : UInt8)
  | invalidRow
  | trailingBytes (count : Nat)
  | pairSkipped (unit : UInt8 × UInt8 × UInt8) (cause : Error)
  -- Commands
  | readingInput
  | inputRead (units size : Nat)
  | analyzing (name : String)
  | frameRate (num den : Nat)
  | picture (index : Nat) (coding : Char)
  | cue (event : Cue)
  | captionsWritten (entries pictures : Nat) (time : String)
  | sideDataUnused
  | headersRewritten (count : Nat)
  | captionsPassed
  | unitsRemoved (count : Nat)
  | packetsExtracted (count size : Nat)
  -- A problem that did not stop the operation
  | tolerated (problem : Error)
  deriving DecidableEq, Repr

namespace Entry

def severity : Entry → Severity
  | badSideDataLength _ | oversizedSideData _ => .error
  | unknownIdentifier _ | unknownTypeCode _ | missingExtension | sideDataUnused | tolerated _ =>
    .warn
  | analyzing _ | frameRate .. | captionsWritten .. | headersRewritten _ | captionsPassed
  | unitsRemoved _ | packetsExtracted .. => .info
  | unknownCommand .. | invalidRow | trailingBytes _ | readingInput | inputRead .. => .debug
  | field .. | userDataRead .. | skipped _ | captionsRemoved _ | captionsExtracted _
  | sequenceRewritten .. | carriageReturn | endOfCaption | characters .. | pairSkipped ..
  | picture .. | cue _ => .trace

/-- Each byte stands for the character of the same number. -/
def charOfByte (byte : UInt8) : Char :=
  Char.ofNat byte.toNat

def text : Entry → String
  | field name value => column 32 name ++ s!" = {value}"
  | userDataRead used total => s!"Read A53 user data: {used} of {total} bits"
  | unknownIdentifier identifier =>
    "Unknown registered user data found: identifier 0x" ++ hexLower 8 identifier.toNat
  | unknownTypeCode code =>
    "Unknown ATSC user data found: type code 0x" ++ hexLower 2 code.toNat
  | badSideDataLength length => (Error.invalidLength length).message ++ "."
  | oversizedSideData count => (Error.tooManyPackets count).message ++ "."
  | skipped count => s!"Skipping {count} bytes before start code"
  | captionsRemoved size => s!"A53 CC remove: {size} bytes"
  | captionsExtracted size => s!"A53 CC extract: {size} bytes"
  | missingExtension =>
    "Stream contains a sequence header but not a sequence extension: maybe it's actually MPEG-1?"
  | sequenceRewritten aspect rate n d =>
    s!"Sequence rewrite: aspect_ratio_information {aspect} frame_rate_code {rate} ext {n}/{d}"
  | carriageReturn => "carriage return"
  | endOfCaption => "end of caption"
  | characters first second =>
    let shown :=
      if second = 0 then [charOfByte first] else [charOfByte first, ',', charOfByte second]
    "(" ++ String.ofList shown ++ ")"
  | unknownCommand first second =>
    "Unknown command 0x" ++ hexLower 2 first.toNat ++ " 0x" ++ hexLower 2 second.toNat
  | invalidRow => "Invalid pac index encountered"
  | trailingBytes count => s!"Ignoring {count} trailing bytes of cc data"
  | pairSkipped (a, b, c) cause =>
    "Skipping cc data [" ++ hexUpper 2 a.toNat ++ ", " ++ hexUpper 2 b.toNat ++ ", " ++
      hexUpper 2 c.toNat ++ "]: " ++ cause.message
  | readingInput => "Reading from stdin"
  | inputRead units size => s!"{units} units in {size} bytes"
  | analyzing name => s!"Analyzing MPEG-2 stream: {name}"
  | frameRate num den => s!"Frame rate from sequence header: {num}/{den}"
  | picture index coding => s!"Picture {index} (" ++ String.ofList [coding] ++ ")"
  | cue event => event.display
  | captionsWritten entries pictures time =>
    s!"Wrote {entries} captions from {pictures} pictures ({time})"
  | sideDataUnused => "--side-data is only written with --a53-cc extract"
  | headersRewritten count => s!"Rewrote {count} sequence headers"
  | captionsPassed => "Captions passed through unchanged"
  | unitsRemoved count => s!"Removed {count} caption units"
  | packetsExtracted count size => s!"Extracted {count} caption packets ({size} bytes)"
  | tolerated problem => problem.message

end Entry

end ClosedCaptions
