import ClosedCaptions.CommandLine.Invocation
import ClosedCaptions.Document.Yaml
import ClosedCaptions.Report
import ClosedCaptions.Stream.Chunks
import ClosedCaptions.Stream.Splitter
import ClosedCaptions.Workspace

/-!
# Describing a stream

Counts the pictures and the user data of a stream, and takes the picture size and the frame rate
from its first sequence header that can be parsed.
-/

namespace ClosedCaptions

structure Inspection where
  failLevel : Severity
  summary : StreamSummary
  /-- One record for each user data unit that could be decoded, the latest first. -/
  records : List UserDataRecord
  deriving DecidableEq, Repr

namespace Inspection

def start (failLevel : Severity) : Inspection :=
  ⟨failLevel, .empty, []⟩

/-- A sequence header was parsed. -/
def hasHeader (i : Inspection) : Bool :=
  i.summary.width.isSome

def setHeader (h : SequenceHeader) (i : Inspection) : Inspection :=
  { i with summary := i.summary.setSequenceHeader h }

def addPicture (i : Inspection) : Inspection :=
  { i with summary := { i.summary with pictures := i.summary.pictures + 1 } }

/-- The number of the latest picture. User data in front of all pictures counts to the first. -/
def picture (i : Inspection) : Nat :=
  i.summary.pictures - 1

def addRecord (data : UserData) (i : Inspection) : Inspection :=
  let record := UserDataRecord.ofUserData i.picture data
  { i with summary := i.summary.count record, records := record :: i.records }

def addUndecodable (i : Inspection) : Inspection :=
  { i with summary := { i.summary with undecodable := i.summary.undecodable + 1 } }

def readHeader (bytes : List UInt8) : Procedure Inspection Unit := do
  match ← (SequenceHeader.read bytes).attempt with
  | .ok h => Procedure.modify (setHeader h)
  | .error cause =>
    let i ← Procedure.get
    Procedure.tolerate i.failLevel (.badSequenceHeader cause)

def readUserData (bytes : List UInt8) : Procedure Inspection Unit := do
  match ← (UserData.read bytes).attempt with
  | .ok data => Procedure.modify (addRecord data)
  | .error cause =>
    Procedure.modify addUndecodable
    let i ← Procedure.get
    Procedure.tolerate i.failLevel (.badUserDataAt i.picture cause)

def readUnit (unit : StreamUnit) : Procedure Inspection Unit := do
  let i ← Procedure.get
  if unit.isSequenceHeader && !i.hasHeader then readHeader unit.data
  else if unit.isPicture then Procedure.modify addPicture
  else if unit.isUserData then readUserData unit.data

/-- The records, if they are wanted, and the totals. -/
def display (i : Inspection) (dump : Bool) (size : Nat) : String :=
  let records := Document.list (i.records.reverse.map UserDataRecord.document)
  (if dump then Yaml.render records else "") ++ i.summary.display size

end Inspection

namespace InfoRequest

def run (request : InfoRequest) (failLevel : Severity) : Procedure Workspace Unit := do
  Procedure.log (.analyzing request.input)
  let bytes ← Workspace.openInput request.input
  let text ← Procedure.locally (Inspection.start failLevel) do
    let size ← forEachUnit (Chunks.read Chunks.commandSize bytes) Inspection.readUnit
    let i ← Procedure.get
    return i.display request.dump size
  Procedure.modify (·.print text)

end InfoRequest

end ClosedCaptions
