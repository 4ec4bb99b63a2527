import ClosedCaptions.CommandLine.Invocation

/-!
# Grammar of the command line

Words are read from left to right. Two dashes name a parameter, whose value follows an equals
sign or is the next word; two dashes alone make every word after them a plain one. A value that
stands in a word of its own is checked when the word after it has been recognised, so that an
unknown parameter is reported before a wrong value in front of it.
-/

namespace ClosedCaptions

namespace CommandLine

/-- The form of a word. -/
inductive Word where
  | dashes
  | long (name : String) (value : Option String)
  /-- One dash; only the first letter counts. -/
  | short (letter : Char)
  | plain
  deriving DecidableEq, Repr

namespace Word

/-- A name, and a value after the first equals sign. -/
def ofName (cs : List Char) : Word :=
  let name := String.ofList (cs.takeWhile (· != '='))
  match cs.dropWhile (· != '=') with
  | [] => long name none
  | _ :: value => long name (some (String.ofList value))

def ofString (text : String) : Word :=
  match text.toList with
  | ['-', '-'] => dashes
  | '-' :: '-' :: cs => ofName cs
  | '-' :: c :: _ => short c
  | _ => plain

end Word

/-- What a name stands for. -/
inductive Named where
  | parameter (p : Parameter)
  | help
  | version
  deriving DecidableEq, Repr

/-- Where a word stands: after an operation, or in front of it. -/
abbrev Place := Option Operation

namespace Place

def options : Place → List Parameter
  | some operation => sharedOptions ++ operation.options
  | none => sharedOptions

def named? (place : Place) (name : String) : Option Named :=
  if name = "help" then some .help
  else if name = "version" ∧ place = none then some .version
  else (place.options.find? (·.word? == some name)).map .parameter

def lettered? (place : Place) (letter : Char) : Option Named :=
  if letter = 'h' then some .help
  else if letter = 'V' ∧ place = none then some .version
  else none

end Place

/-- The words read so far at one place. -/
structure Reading where
  given : List Given
  /-- The parameter whose value is not checked yet, or not yet read. -/
  pending : Option (Parameter × Option String)
  /-- Two dashes alone were read. -/
  plainOnly : Bool

namespace Reading

def start : Reading :=
  ⟨[], none, false⟩

/-- The next word is the value of this parameter. -/
def waiting? (r : Reading) : Option Parameter :=
  match r.pending with
  | some (p, none) => if r.plainOnly then none else some p
  | _ => none

/-- No parameter can be given twice. -/
def accept (r : Reading) (p : Parameter) (text : String) : Except Refusal Reading :=
  if Given.has p r.given then .error .repeatedArgument
  else do
    let value ← p.read text
    return { r with given := r.given ++ [⟨p, value⟩] }

/-- Check the value that was left unchecked. -/
def settle (r : Reading) : Except Refusal Reading :=
  match r.pending with
  | none => .ok r
  | some (_, none) => .error .invalidValue
  | some (p, some text) => { r with pending := none }.accept p text

/-- A name, with the value attached to it. -/
def readNamed (r : Reading) (named : Option Named) (value : Option String) :
    Except Refusal Reading :=
  match named, value with
  | none, _ => .error .unknownArgument
  | some (.parameter p), none => do
    let r ← r.settle
    if p.isFlag then r.accept p "" else return { r with pending := some (p, none) }
  | some (.parameter p), some text => do
    if p.isFlag then .error .unexpectedValue
    else
      let r ← r.settle
      r.accept p text
  | some .help, none => do
    let _ ← r.settle
    .error .help
  | some .version, none => do
    let _ ← r.settle
    .error .version
  | some _, some _ => .error .unexpectedValue

def hasInput (r : Reading) : Bool :=
  Given.has .input r.given || r.pending.any (·.1 == .input)

/-- A word that is neither a name nor the value of one. After an operation it is the input. In
front of one it is out of place: an operation if it comes after two dashes, and no operation
otherwise. -/
def readPlain (r : Reading) (place : Place) (text : String) : Except Refusal Reading :=
  match place with
  | some _ =>
    if r.hasInput then .error .unknownArgument
    else do
      let r ← r.settle
      return { r with pending := some (.input, some text) }
  | none =>
    let isOperation := (Operation.ofWord? text).isSome || text == "help"
    .error (if r.plainOnly && isOperation then .unknownArgument else .unknownOperation)

/-- A word that names no operation. -/
def readWord (r : Reading) (place : Place) (text : String) : Except Refusal Reading :=
  if r.plainOnly then r.readPlain place text
  else
    match Word.ofString text with
    | .dashes => .ok { r with plainOnly := true }
    | .long name value => r.readNamed (place.named? name) value
    | .short letter => r.readNamed (place.lettered? letter) none
    | .plain =>
      match r.waiting? with
      | some p => .ok { r with pending := some (p, some text) }
      | none => r.readPlain place text

end Reading

/-- The words after an operation. -/
def readOperation (operation : Operation) (words : List String) :
    Except Refusal (Request × List Given) := do
  let r ← words.foldlM (·.readWord (some operation)) Reading.start
  let r ← r.settle
  let request ← Request.ofGiven r.given operation
  return (request, r.given)

/-- The words after a request for help: at most one operation to be explained. -/
def refuseHelp : List String → Refusal
  | [] => .help
  | [word] => if (Operation.ofWord? word).isSome || word == "help" then .help else .unknownOperation
  | _ => .unknownOperation

/-- The words in front of an operation. What is given after the operation takes precedence. -/
def readFrom (r : Reading) : List String → Except Refusal Invocation
  | [] => do
    let r ← r.settle
    .error (if r.given.isEmpty then .nothingGiven else .missingOperation)
  | word :: words =>
    let free := !r.plainOnly && r.waiting?.isNone
    match Operation.ofWord? word, free with
    | some operation, true => do
      let (request, inner) ← readOperation operation words
      let outer ← r.settle
      return Invocation.ofGiven (inner ++ outer.given) request
    | _, _ =>
      if word = "help" && free then .error (refuseHelp words)
      else do
        let r ← r.readWord none word
        readFrom r words

/-- What the words after the name of the program ask for. -/
def parse (words : List String) : Except Refusal Invocation :=
  readFrom .start words

end CommandLine

end ClosedCaptions
