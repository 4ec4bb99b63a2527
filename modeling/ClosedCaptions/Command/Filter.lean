import ClosedCaptions.CommandLine.Invocation
import ClosedCaptions.Filter.Sequence
import ClosedCaptions.Stream.BlockWriter
import ClosedCaptions.Stream.Fragment
import ClosedCaptions.Stream.Splitter
import ClosedCaptions.Workspace

/-!
# Filtering a stream

A stream is filtered one fragment at a time. The output takes what is left of each fragment, and
the side data what was extracted from it.
-/

namespace ClosedCaptions

/-- What became of a fragment. -/
structure Filtered where
  output : List UInt8
  sideData : List UInt8
  deriving DecidableEq, Repr

structure Filtering where
  captions : CaptionFilter
  sequence : SequenceFilter
  /-- The fragments done, the latest first. -/
  done : List Filtered
  /-- The bytes of side data so far. -/
  sideDataBytes : Nat
  deriving DecidableEq, Repr

namespace Filtering

def start (request : FilterRequest) (failLevel : Severity) : Filtering :=
  ⟨.new request.captions failLevel, .new request.aspectRatio request.frameRate, [], 0⟩

def output (f : Filtering) : List UInt8 :=
  f.done.reverse.flatMap Filtered.output

def sideData (f : Filtering) : List UInt8 :=
  f.done.reverse.flatMap Filtered.sideData

/-- The units of a fragment with the sequence headers rewritten. -/
def rewrite (units : List StreamUnit) : Procedure Filtering (List StreamUnit) :=
  .focus (fun f ↦ (⟨f.sequence, units⟩ : SequenceFilter.Rewriting))
    (fun r f ↦ { f with sequence := r.filter }) do
      let _ ← SequenceFilter.Rewriting.rewrite
      let r ← Procedure.get
      return r.units

def filterFragment (units : List StreamUnit) : Procedure Filtering Unit := do
  let units ← rewrite units
  let (units, sideData) ← Procedure.focus captions (fun c f ↦ { f with captions := c })
    (CaptionFilter.apply units)
  let extracted := sideData.getD []
  Procedure.modify fun f ↦
    { f with
      done := ⟨StreamUnit.encodeAll units, extracted⟩ :: f.done
      sideDataBytes := f.sideDataBytes + extracted.length }

/-- Filter a stream. Its last fragment is complete only when all of it was read. -/
def filterStream (bytes : List UInt8) : Procedure Filtering Unit := do
  let split := Splitter.splitChunks (Chunks.read Chunks.commandSize bytes)
  let fragments := Fragment.split split.units
  Procedure.each Procedure.log split.log
  Procedure.each filterFragment fragments.dropLast
  Procedure.log (.inputRead split.splitter.released bytes.length)
  Procedure.each filterFragment fragments.getLast?.toList

/-- What is said about the work done. -/
def report (f : Filtering) : List Entry :=
  let headers := if f.sequence.isActive then [.headersRewritten f.sequence.rewritten] else []
  headers ++
    match f.captions.action with
    | .pass => [.captionsPassed]
    | .remove => [.unitsRemoved f.captions.unitsRemoved]
    | .extract => [.packetsExtracted f.captions.packetsExtracted f.sideDataBytes]

/-! ## One file for both -/

/-- Two writers on one file. -/
structure Shared where
  output : BlockWriter
  sideData : BlockWriter
  file : List UInt8
  deriving DecidableEq, Repr

def Shared.write (s : Shared) (f : Filtered) : Shared :=
  let (sideData, file) := s.sideData.write f.sideData s.file
  let (output, file) := s.output.write f.output file
  ⟨output, sideData, file⟩

/-- What two writers leave of an empty file. -/
def sharedFile (f : Filtering) : List UInt8 :=
  let s := f.done.reverse.foldl Shared.write ⟨.start, .start, []⟩
  let (_, file) := s.output.flush s.file
  (s.sideData.flush file).2

/-- Write the output, and the side data if it has a file. -/
def deliver (outputPath : String) (sideDataPath : Option String) (f : Filtering)
    (w : Workspace) : Workspace :=
  match sideDataPath with
  | none => w.store outputPath f.output
  | some path =>
    if path = outputPath then w.store outputPath f.sharedFile
    else (w.store outputPath f.output).store path f.sideData

end Filtering

namespace FilterRequest

/-- The name of the file that receives side data. -/
def sideDataName? (request : FilterRequest) : Option String :=
  if request.captions = .extract then request.sideData else none

def createSideData (request : FilterRequest) : Procedure Workspace (Option String) :=
  match request.sideDataName? with
  | some name => some <$> Workspace.create name
  | none => return none

/-- The fragments done so far are written even when filtering fails. -/
def run (request : FilterRequest) (failLevel : Severity) : Procedure Workspace Unit := do
  if request.sideData.isSome && request.captions ≠ .extract then
    Procedure.log .sideDataUnused
  if request.output = FileName.standard then
    Procedure.fail .streamToTerminal
  let sideDataPath ← request.createSideData
  let outputPath ← Workspace.create request.output
  let bytes ← Workspace.openInput request.input
  Procedure.focus (fun _ ↦ Filtering.start request failLevel)
    (Filtering.deliver outputPath sideDataPath) do
      Filtering.filterStream bytes
      let f ← Procedure.get
      Procedure.each Procedure.log f.report

end FilterRequest

end ClosedCaptions
