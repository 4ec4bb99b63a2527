import ClosedCaptions.Caption.Decoder
import ClosedCaptions.CommandLine.Invocation
import ClosedCaptions.Decimal.Shortest
import ClosedCaptions.Sequence.Header
import ClosedCaptions.SideData
import ClosedCaptions.Stream.Chunks
import ClosedCaptions.Stream.DisplayOrder
import ClosedCaptions.Stream.Splitter
import ClosedCaptions.SubRip
import ClosedCaptions.Workspace

/-!
# Decoding a stream

The captions of a stream are handed to a consumer in display order, each with the time of its
picture; here the consumer is a decoder that writes SubRip text. How a time follows from the
place of a picture and the frame rate is left open.
-/

namespace ClosedCaptions

/-- The presentation of the captions of a stream to a consumer with state `σ`. -/
structure Presentation (σ : Type) where
  failLevel : Severity
  frameRate : Option Float
  order : DisplayOrder
  consumer : σ

namespace Presentation

variable {σ : Type}

def start (failLevel : Severity) (frameRate : Option Float) (consumer : σ) : Presentation σ :=
  ⟨failLevel, frameRate, .start, consumer⟩

/-- The frame rate of a stream that does not tell. -/
def defaultRate : Float :=
  30000 / 1001

def rate (p : Presentation σ) : Float :=
  p.frameRate.getD defaultRate

def modifyOrder (f : DisplayOrder → DisplayOrder) : Procedure (Presentation σ) Unit :=
  Procedure.modify fun p ↦ { p with order := f p.order }

/-- A problem, which is fatal or not by the level of the presentation. -/
def tolerate (problem : Error) : Procedure (Presentation σ) Unit := do
  let p ← Procedure.get
  Procedure.tolerate p.failLevel problem

def readHeader (bytes : List UInt8) : Procedure (Presentation σ) Unit := do
  match ← (SequenceHeader.read bytes).attempt with
  | .ok h =>
    if let some (num, den) := h.frameRate? then
      Procedure.log (.frameRate num den)
      Procedure.modify fun p ↦ { p with frameRate := some (num.toFloat / den.toFloat) }
  | .error cause => tolerate (.badSequenceHeader cause)

def readPicture (bytes : List UInt8) : Procedure (Presentation σ) Unit := do
  match ← (PictureHeader.read bytes).attempt with
  | .ok h =>
    modifyOrder (·.addPicture h)
    let p ← Procedure.get
    Procedure.log (.picture p.order.current h.codingChar)
  | .error cause => tolerate (.badPictureHeader cause)

def readUserData (bytes : List UInt8) : Procedure (Presentation σ) Unit := do
  match ← (UserData.read bytes).attempt with
  | .ok data =>
    if data.ccData?.isSome then
      let packets ← Procedure.locally [] do
        SideData.append data
        Procedure.get
      modifyOrder (·.attach packets)
  | .error cause => tolerate (.badUserData cause)

variable (ticks : Nat → Float → Int64) (consume : List UInt8 → Int64 → Procedure σ Unit)

/-- Hand out what waits. -/
def flush : Procedure (Presentation σ) Unit := do
  let p ← Procedure.get
  modifyOrder DisplayOrder.clear
  Procedure.each
    (fun (place, packets) ↦
      Procedure.focus consumer (fun c p ↦ { p with consumer := c })
        (consume packets (ticks place p.rate)))
    p.order.due

def beginGroup : Procedure (Presentation σ) Unit := do
  flush ticks consume
  modifyOrder DisplayOrder.newGroup

/-- The first frame rate stays. -/
def readUnit (unit : StreamUnit) : Procedure (Presentation σ) Unit := do
  if unit.isSequenceHeader then
    beginGroup ticks consume
    let p ← Procedure.get
    if p.frameRate.isNone then readHeader unit.data
  else if unit.isGroup || unit.isSequenceEnd then beginGroup ticks consume
  else if unit.isPicture then readPicture unit.data
  else if unit.isUserData then readUserData unit.data

/-- Present a whole stream, and return the time at which it ends. -/
def present (bytes : List UInt8) : Procedure (Presentation σ) Int64 := do
  let _ ← forEachUnit (Chunks.read Chunks.commandSize bytes) (readUnit ticks consume)
  flush ticks consume
  let p ← Procedure.get
  return ticks p.order.pictures p.rate

end Presentation

/-- A decoder whose cues become SubRip text. -/
structure CaptionWriter where
  decoder : Decoder
  output : SubRip

namespace CaptionWriter

def start (failLevel : Severity) (realTime : Bool) : CaptionWriter :=
  ⟨(Decoder.initial.setRealTime realTime).setFailLevel failLevel, .empty⟩

def push (cue : Cue) (w : CaptionWriter) : CaptionWriter :=
  { w with output := w.output.push cue }

/-- Decode packets. When that fails, the cues in front of the failure are lost. -/
def consume (packets : List UInt8) (time : Int64) : Procedure CaptionWriter Unit := do
  let cues ← Procedure.focus decoder (fun d w ↦ { w with decoder := d })
    (Decoder.decode packets time)
  Procedure.each
    (fun cue ↦ do
      Procedure.log (.cue cue)
      Procedure.modify (push cue))
    cues

/-- Write what is held back, ending at a given time. -/
def finish (time : Int64) (w : CaptionWriter) : CaptionWriter :=
  let (cue, decoder) := w.decoder.finish time
  let output := cue.elim w.output w.output.push
  ⟨decoder, output.finish time⟩

/-- Write the captions of a whole stream, and tell how many there were. -/
def writeStream (ticks : Nat → Float → Int64) (bytes : List UInt8) :
    Procedure (Presentation CaptionWriter) Unit := do
  let stop ← Presentation.present ticks consume bytes
  Procedure.modify fun p ↦ { p with consumer := p.consumer.finish stop }
  let p ← Procedure.get
  Procedure.log (.captionsWritten p.consumer.output.entries p.order.pictures
    (Timestamp.display (Timestamp.milliseconds stop) '.'))

end CaptionWriter

namespace DecodeRequest

/-- A frame rate is a positive number. -/
def checkRate (request : DecodeRequest) : Procedure Workspace Unit := do
  if let some rate := request.frameRate then
    if !(rate.isFinite && 0 < rate) then
      Procedure.fail (.invalidFrameRate (Decimal.display rate))

def createOutput (request : DecodeRequest) : Procedure Workspace (Option String) :=
  match request.output with
  | some name => some <$> Workspace.create name
  | none => return none

/-- Write the text to a file, or print it if there is none. -/
def deliver (path : Option String) (text : String) (w : Workspace) : Workspace :=
  match path with
  | some path => w.store path text.toUTF8.toList
  | none => w.print text

/-- The text written so far is kept when decoding fails. -/
def run (ticks : Nat → Float → Int64) (request : DecodeRequest) (failLevel : Severity) :
    Procedure Workspace Unit := do
  request.checkRate
  let path ← request.createOutput
  let bytes ← Workspace.openInput request.input
  let start := Presentation.start failLevel request.frameRate
    (CaptionWriter.start failLevel request.realTime)
  Procedure.focus (fun _ ↦ start)
    (fun p ↦ deliver path p.consumer.output.output) (CaptionWriter.writeStream ticks bytes)

end DecodeRequest

end ClosedCaptions
