import ClosedCaptions.CommandLine.Ratio
import ClosedCaptions.Decimal.Notation
import ClosedCaptions.Filter.Captions

/-!
# Parameters of the command line

What can be given on the command line, the word each parameter is named by and the type of its
value. Parameters whose value is of type `Unit` are flags.
-/

namespace ClosedCaptions

/-- Why a command line is not carried out. -/
inductive Refusal where
  -- Help was asked for
  | help
  | version
  | nothingGiven
  -- The command line is wrong
  | missingOperation
  | unknownOperation
  | unknownArgument
  | missingArgument
  | repeatedArgument
  | unexpectedValue
  | invalidValue
  | badValue (cause : ValueError)
  deriving DecidableEq, Repr

inductive LogFormat where
  | plain
  | json
  deriving DecidableEq, Repr

inductive Parameter where
  | logLevel
  | strict
  | logFormat
  | progress
  | input
  | dump
  | output
  | realTime
  | frameRate
  | captions
  | sideData
  | aspectRatio
  | codedRate
  deriving DecidableEq, Repr

namespace Parameter

/-- Without a log level, `off`, nothing is logged. -/
@[reducible]
def Value : Parameter → Type
  | strict | progress | dump | realTime => Unit
  | logLevel => Option Severity
  | logFormat => LogFormat
  | input | output | sideData => String
  | frameRate => Float
  | captions => CaptionAction
  | aspectRatio | codedRate => Nat × Nat

/-- The name after the two dashes. The input is given by its place alone. -/
def word? : Parameter → Option String
  | logLevel => some "loglevel"
  | strict => some "strict"
  | logFormat => some "log-format"
  | progress => some "progress"
  | input => none
  | dump => some "dump"
  | output => some "output"
  | realTime => some "real-time"
  | frameRate => some "fps"
  | captions => some "a53-cc"
  | sideData => some "side-data"
  | aspectRatio => some "aspect-ratio"
  | codedRate => some "frame-rate"

def isFlag : Parameter → Bool
  | strict | progress | dump | realTime => true
  | _ => false

/-- One of a few words. -/
def readChoice {α : Type} (choices : List (String × α)) (text : String) : Except Refusal α :=
  match choices.lookup text with
  | some a => .ok a
  | none => .error .invalidValue

def readName (text : String) : Except Refusal String :=
  if text.isEmpty then .error .invalidValue else .ok text

def readRatio (text : String) : Except Refusal (Nat × Nat) :=
  (Ratio.read text).mapError .badValue

def readDecimal (text : String) : Except Refusal Float :=
  match Decimal.parse? text with
  | some x => .ok x
  | none => .error (.badValue (if text.isEmpty then .emptyDecimal else .invalidDecimal))

def logLevels : List (String × Option Severity) :=
  [("off", none), ("error", some .error), ("warn", some .warn), ("info", some .info),
    ("debug", some .debug), ("trace", some .trace)]

def logFormats : List (String × LogFormat) :=
  [("plain", .plain), ("json", .json)]

def captionActions : List (String × CaptionAction) :=
  [("pass", .pass), ("remove", .remove), ("extract", .extract)]

/-- The value that a text stands for; that of a flag does not depend on it. -/
def read : (p : Parameter) → String → Except Refusal p.Value
  | strict, _ | progress, _ | dump, _ | realTime, _ => .ok ()
  | logLevel, text => readChoice logLevels text
  | logFormat, text => readChoice logFormats text
  | input, text | output, text | sideData, text => readName text
  | frameRate, text => readDecimal text
  | captions, text => readChoice captionActions text
  | aspectRatio, text | codedRate, text => readRatio text

end Parameter

/-- A parameter with its value. -/
structure Given where
  parameter : Parameter
  value : parameter.Value

namespace Given

def has (p : Parameter) (gs : List Given) : Bool :=
  gs.any (·.parameter == p)

/-- The value of a parameter, if it was given. -/
def find? (p : Parameter) : List Given → Option p.Value
  | [] => none
  | g :: gs => if h : g.parameter = p then some (h ▸ g.value) else find? p gs

end Given

end ClosedCaptions
