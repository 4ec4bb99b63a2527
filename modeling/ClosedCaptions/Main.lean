import ClosedCaptions.Command.Run
import ClosedCaptions.CommandLine.Grammar

/-!
# The program

Reads the input and the names in the command line, carries the command out on a workspace and
writes back what it made.
-/

open ClosedCaptions

namespace ClosedCaptions.Terminal

def usageLines : List String :=
  ["Usage: closed-captions [--loglevel LEVEL] [--log-format FORMAT] [--strict] COMMAND",
    "",
    "Commands:",
    "  info INPUT [--dump]",
    "  decode INPUT [--output PATH] [--real-time] [--fps FPS]",
    "  filter INPUT --output PATH [--a53-cc pass|remove|extract] [--side-data PATH]",
    "         [--aspect-ratio NUM:DEN] [--frame-rate NUM/DEN]",
    "",
    "INPUT is an MPEG-2 video elementary stream, or - for the standard input."]

def usage : String :=
  String.join (usageLines.map (· ++ "\n"))

def version : String := "closed-captions 1.0.0\n"

/-- What a refused command line is answered with. -/
def explain : Refusal → String
  | .help | .nothingGiven => usage
  | .version => version
  | .missingOperation => "error: a command is missing\n"
  | .unknownOperation => "error: unknown command\n"
  | .unknownArgument => "error: unknown argument\n"
  | .missingArgument => "error: a required argument is missing\n"
  | .repeatedArgument => "error: an argument is given twice\n"
  | .unexpectedValue => "error: a flag takes no value\n"
  | .invalidValue => "error: a value is missing or not one of the possible values\n"
  | .badValue cause => "error: " ++ cause.message ++ "\n"

def severityName : Severity → String
  | .error => "ERROR"
  | .warn => "WARN"
  | .info => "INFO"
  | .debug => "DEBUG"
  | .trace => "TRACE"

/-- Characters inside a quoted text. -/
def escape (c : Char) : String :=
  if c = '"' then "\\\""
  else if c = '\\' then "\\\\"
  else if c.toNat < 0x20 then "\\u" ++ Numeral.hexLower 4 c.toNat
  else String.singleton c

def quote (text : String) : String :=
  "\"" ++ String.join (text.toList.map escape) ++ "\""

def logLine (format : LogFormat) (e : Entry) : String :=
  match format with
  | .plain => "[" ++ severityName e.severity ++ "] " ++ e.text
  | .json =>
    let level := quote (severityName e.severity)
    "\x7b\"lvl\":" ++ level ++ ",\"msg\":" ++ quote e.text ++ "\x7d"

def isLogged (level : Option Severity) (e : Entry) : Bool :=
  level.any fun most ↦ e.severity ≤ most

def inputName : Request → String
  | .info request => request.input
  | .decode request => request.input
  | .filter request => request.input

/-- The names of the files that a request may make. -/
def outputNames : Request → List String
  | .info _ => []
  | .decode request => request.output.toList
  | .filter request => request.output :: request.sideDataName?.toList

def bytesOf (content : ByteArray) : List UInt8 :=
  content.data.toList

/-- The files that an input leads to or through. -/
def readInput (name : String) : IO (List (String × List UInt8)) := do
  let mut files := []
  for path in FileName.paths name do
    try
      files := files ++ [(path, bytesOf (← IO.FS.readBinFile path))]
    catch _ =>
      continue
  return files

def readStandardInput : IO (List UInt8) := do
  let stdin ← IO.getStdin
  let mut content := ByteArray.empty
  repeat
    let chunk ← stdin.read (USize.ofNat Chunks.commandSize)
    if chunk.isEmpty then break
    content := content ++ chunk
  return bytesOf content

def isFolder (path : String) : IO Bool := do
  try
    let _ ← IO.FS.realPath (path ++ "/.")
    return true
  catch _ =>
    return false

/-- The part of the file system that a request can see. -/
def workspace (request : Request) : IO Workspace := do
  let name := inputName request
  let folders ← ((name :: outputNames request).flatMap FileName.paths).filterM isFolder
  if name = FileName.standard then
    return ⟨[], folders, ← readStandardInput, ""⟩
  else
    return ⟨← readInput name, folders, [], ""⟩

/-- Write the files that are new or have changed. -/
def writeFiles (before after : Workspace) : IO Unit := do
  for (name, bytes) in after.files do
    if before.content? name ≠ some bytes then
      IO.FS.writeBinFile name ⟨bytes.toArray⟩

def carryOut (invocation : Invocation) : IO UInt32 := do
  let before ← workspace invocation.request
  let done := invocation.run.run before
  for e in done.log do
    if isLogged invocation.logLevel e then IO.eprintln (logLine invocation.logFormat e)
  writeFiles before done.state
  IO.print done.state.standardOutput
  match done.result with
  | .ok () => return 0
  | .error e =>
    IO.eprintln ("Error: " ++ e.message)
    return 1

end ClosedCaptions.Terminal

open ClosedCaptions.Terminal in
def main (words : List String) : IO UInt32 := do
  match CommandLine.parse words with
  | .ok invocation => carryOut invocation
  | .error .help =>
    IO.print usage
    return 0
  | .error .version =>
    IO.print version
    return 0
  | .error refusal =>
    IO.eprint (explain refusal)
    return 2
