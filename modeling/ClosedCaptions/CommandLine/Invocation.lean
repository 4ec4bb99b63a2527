import ClosedCaptions.CommandLine.Parameter

/-!
# Invocations

What a command line asks for.
-/

namespace ClosedCaptions

inductive Operation where
  | info
  | decode
  | filter
  deriving DecidableEq, Repr

namespace Operation

def ofWord? : String → Option Operation
  | "info" => some info
  | "decode" => some decode
  | "filter" => some filter
  | _ => none

/-- The parameters of an operation that are given by name. -/
def options : Operation → List Parameter
  | info => [.dump]
  | decode => [.output, .realTime, .frameRate]
  | filter => [.output, .captions, .sideData, .aspectRatio, .codedRate]

end Operation

/-- Describe a stream. -/
structure InfoRequest where
  input : String
  /-- Also print every record. -/
  dump : Bool
  deriving DecidableEq, Repr

/-- Decode the captions of a stream into SubRip text. -/
structure DecodeRequest where
  input : String
  /-- The terminal when there is none. -/
  output : Option String
  realTime : Bool
  /-- Takes the place of the frame rate of the stream. -/
  frameRate : Option Float

/-- Copy a stream with its captions and its sequence headers changed. -/
structure FilterRequest where
  input : String
  output : String
  captions : CaptionAction
  sideData : Option String
  aspectRatio : Option (Nat × Nat)
  frameRate : Option (Nat × Nat)
  deriving DecidableEq, Repr

inductive Request where
  | info (request : InfoRequest)
  | decode (request : DecodeRequest)
  | filter (request : FilterRequest)

/-- An operation with the settings that all operations share. -/
structure Invocation where
  logLevel : Option Severity
  logFormat : LogFormat
  strict : Bool
  request : Request

namespace Invocation

/-- The severity from which on problems are fatal. -/
def failLevel (i : Invocation) : Severity :=
  if i.strict then .warn else .error

end Invocation

namespace Request

def orMissing {α : Type} (value : Option α) : Except Refusal α :=
  match value with
  | some a => .ok a
  | none => .error .missingArgument

/-- The request for an operation. The input and the output of a filter have to be given. -/
def ofGiven (gs : List Given) : Operation → Except Refusal Request
  | .info => do
    let input ← orMissing (Given.find? .input gs)
    return .info ⟨input, Given.has .dump gs⟩
  | .decode => do
    let input ← orMissing (Given.find? .input gs)
    return .decode ⟨input, Given.find? .output gs, Given.has .realTime gs,
      Given.find? .frameRate gs⟩
  | .filter => do
    let input ← orMissing (Given.find? .input gs)
    let output ← orMissing (Given.find? .output gs)
    return .filter ⟨input, output, (Given.find? .captions gs).getD .pass,
      Given.find? .sideData gs, Given.find? .aspectRatio gs, Given.find? .codedRate gs⟩

end Request

/-- The parameters that every operation has. They may also stand in front of the operation. -/
def sharedOptions : List Parameter :=
  [.logLevel, .strict, .logFormat, .progress]

def Invocation.ofGiven (gs : List Given) (request : Request) : Invocation :=
  ⟨(Given.find? .logLevel gs).getD (some .info), (Given.find? .logFormat gs).getD .plain,
    Given.has .strict gs, request⟩

end ClosedCaptions
