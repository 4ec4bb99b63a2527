import ClosedCaptions.Procedure

/-!
# Workspace

The files, the standard input and the standard output that a command works with. A name leads to
a file through folders. Its empty parts and the part `.` lead nowhere, so that several names can
stand for one file, and the part `..` leads to the folder above, which is always there.
-/

namespace ClosedCaptions

namespace FileName

/-- The name that stands for the standard input. -/
def standard : String := "-"

/-- The parts between slashes. -/
def parts : List Char → List (List Char)
  | [] => [[]]
  | c :: cs =>
    if c = '/' then [] :: parts cs
    else
      match parts cs with
      | [] => [[c]]
      | p :: ps => (c :: p) :: ps

/-- The parts that are not empty: all but the last one stand for folders. -/
def steps (name : String) : List String :=
  ((parts name.toList).filter fun p ↦ p ≠ []).map String.ofList

/-- The folder that the first step starts from, and what the text of every path begins with. -/
def root (name : String) : String :=
  if name.toList.head? = some '/' then "/" else ""

/-- The name says that its last step stands for a folder. -/
def endsInSlash (name : String) : Bool :=
  name.toList.getLast? = some '/'

/-- The most bytes of a step. -/
def longestStep : Nat := 255

/-- The most bytes of a name. -/
def longestName : Nat := 4095

/-- The paths of the folders that lead to a file, and of the file itself. -/
def pathsFrom (folder : String) : List String → List String
  | [] => []
  | step :: steps =>
    if step = "." then pathsFrom folder steps
    else (folder ++ step) :: pathsFrom (folder ++ step ++ "/") steps

def paths (name : String) : List String :=
  pathsFrom (root name) (steps name)

end FileName

/-- Files and folders are known by their paths: the steps of their names that lead somewhere. -/
structure Workspace where
  files : List (String × List UInt8)
  /-- The folders beside the current one. -/
  folders : List String
  standardInput : List UInt8
  standardOutput : String
  deriving DecidableEq, Repr

namespace Workspace

def content? (w : Workspace) (name : String) : Option (List UInt8) :=
  w.files.lookup name

def hasFile (w : Workspace) (path : String) : Bool :=
  (w.content? path).isSome

def hasFolder (w : Workspace) (path : String) : Bool :=
  w.folders.contains path

/-- The folder that a step from a folder leads to, as the beginning of the paths in it. -/
def enter (w : Workspace) (folder step : String) : Except Error String :=
  if step = "." then .ok folder
  else if step = ".." then .ok (folder ++ "../")
  else if FileName.longestStep < step.utf8ByteSize then .error .nameTooLong
  else if w.hasFolder (folder ++ step) then .ok (folder ++ step ++ "/")
  else if w.hasFile (folder ++ step) then .error .notFolder
  else .error .notFound

/-- The folder before the last one of some steps, and this last step, which is not followed. -/
def follow (w : Workspace) (folder : String) : List String → Except Error (String × String)
  | [] => .error .isFolder
  | [step] => .ok (folder, step)
  | step :: next :: steps => do
    let inner ← w.enter folder step
    w.follow inner (next :: steps)

/-- The folder that a name leads to, and its last step. -/
def locate (w : Workspace) (name : String) : Except Error (String × String) :=
  if name = "" then .error .notFound
  else if name.toList.contains '\x00' then .error .nulInName
  else if FileName.longestName < name.utf8ByteSize then .error .nameTooLong
  else w.follow (FileName.root name) (FileName.steps name)

/-- The path of a file at the end of a step that need not lead to anything. -/
def arrive (w : Workspace) (folder step : String) : Except Error String :=
  if step = "." || step = ".." then .error .isFolder
  else if FileName.longestStep < step.utf8ByteSize then .error .nameTooLong
  else if w.hasFolder (folder ++ step) then .error .isFolder
  else .ok (folder ++ step)

/-- The path of a file to be read. -/
def locateInput (w : Workspace) (name : String) : Except Error String := do
  let (folder, step) ← w.locate name
  let path ← w.arrive folder step
  if !w.hasFile path then .error .notFound
  else if FileName.endsInSlash name then .error .notFolder
  else .ok path

/-- The path of a file to be made, whose last step is only looked at if a file can be meant. -/
def locateOutput (w : Workspace) (name : String) : Except Error String := do
  let (folder, step) ← w.locate name
  if FileName.endsInSlash name then .error .isFolder else w.arrive folder step

/-- Give a file a new content. -/
def store (path : String) (bytes : List UInt8) (w : Workspace) : Workspace :=
  { w with files := w.files.filter (·.1 != path) ++ [(path, bytes)] }

def print (text : String) (w : Workspace) : Workspace :=
  { w with standardOutput := w.standardOutput ++ text }

/-- Make a file, or empty it, and return its path. -/
def create (name : String) : Procedure Workspace String := do
  let w ← Procedure.get
  match w.locateOutput name with
  | .ok path =>
    Procedure.modify (store path [])
    return path
  | .error problem => Procedure.fail problem

/-- The content of an input. A folder can be opened, and fails only when it is read. -/
def openInput (name : String) : Procedure Workspace (List UInt8) := do
  let w ← Procedure.get
  if name = FileName.standard then
    Procedure.log .readingInput
    return w.standardInput
  else
    match w.locateInput name with
    | .error .isFolder => Procedure.fail .isFolder
    | .error problem => Procedure.fail (.cannotOpen name problem)
    | .ok path => return (w.content? path).getD []

end Workspace

end ClosedCaptions
