import ClosedCaptions.Proofs.Decode.Request

/-!
# Decoded entries

The cues of a stream are what its decoder gives out, and at the end the one that it holds back. The
text that decoding writes is the entries of these cues, whether or not decoding succeeds.
-/

namespace ClosedCaptions

open Procedure StreamUnit SubRip

/-- A decoder and the cues that it has given out. -/
structure CueRecorder where
  decoder : Decoder
  cues : List Cue

namespace CueRecorder

def start (failLevel : Severity) (realTime : Bool) : CueRecorder :=
  ⟨(Decoder.initial.setRealTime realTime).setFailLevel failLevel, []⟩

def consume (packets : List UInt8) (time : Int64) : Procedure CueRecorder Unit := do
  let cues ← focus decoder (fun d r ↦ { r with decoder := d }) (Decoder.decode packets time)
  Procedure.modify fun r ↦ { r with cues := r.cues ++ cues }

/-- All cues of a stream that ends at a given time. -/
def finish (stop : Int64) (r : CueRecorder) : List Cue :=
  r.cues ++ (r.decoder.heldCue? stop).toList

/-- What the writer has written are the cues that were recorded. -/
structure Records (r : CueRecorder) (w : CaptionWriter) : Prop where
  decoder_eq : w.decoder = r.decoder
  output_eq : w.output = empty.pushAll r.cues

variable {r : CueRecorder} {w : CaptionWriter}

theorem start_records (failLevel : Severity) (realTime : Bool) :
    Records (start failLevel realTime) (CaptionWriter.start failLevel realTime) :=
  ⟨rfl, rfl⟩

theorem Records.related_consume (h : Records r w) (packets : List UInt8) (time : Int64) :
    Related (Keeps Records) Records (consume packets time) (CaptionWriter.consume packets time)
      r w := by
  have hrecord := effect_focus decoder (fun d r ↦ { r with decoder := d })
    (Decoder.decode packets time) r
  have hwrite := effect_focus CaptionWriter.decoder (fun d w ↦ { w with decoder := d })
    (Decoder.decode packets time) w
  rw [h.decoder_eq] at hwrite
  unfold Related consume CaptionWriter.consume
  rcases hdecode : (Decoder.decode packets time).effect r.decoder with ⟨e | cues, d⟩ <;>
    rw [hdecode] at hrecord hwrite
  · rw [effect_bind_error hrecord, effect_bind_error hwrite]
    exact ⟨rfl, rfl, h.output_eq⟩
  · rw [effect_bind_ok hrecord, effect_bind_ok hwrite, CaptionWriter.effect_each_push, h.output_eq,
      ← pushAll_append]
    exact ⟨rfl, rfl, rfl⟩

/-- The end of a stream ends the cues that are open. -/
theorem Records.finish (h : Records r w) (stop : Int64) :
    Wrote (shown (some stop) (r.finish stop)) (w.finish stop).output := by
  have houtput : (w.finish stop).output = (empty.pushAll (r.finish stop)).close stop := by
    unfold CaptionWriter.finish Decoder.finish CueRecorder.finish
    rw [h.decoder_eq, h.output_eq, pushAll_append]
    cases r.decoder.heldCue? stop <;> rfl
  rw [houtput]
  exact ((pushed_pushAll _).close stop).1

end CueRecorder

namespace DecodeRequest

/-- A stream, presented to a decoder whose cues are kept. -/
def record (request : DecodeRequest) (ticks : Nat → Float → Int64) (failLevel : Severity)
    (bytes : List UInt8) : Except Error Int64 × Presentation CueRecorder :=
  (Presentation.present ticks CueRecorder.consume bytes).effect
    (Presentation.start failLevel request.frameRate (CueRecorder.start failLevel request.realTime))

/-- The cues of a stream with their ends. Where decoding fails, these are the cues in front of the
failure, and the last one has no end if nothing behind it tells. -/
def cues (request : DecodeRequest) (ticks : Nat → Float → Int64) (failLevel : Severity)
    (bytes : List UInt8) : List (Cue × Int64) :=
  match request.record ticks failLevel bytes with
  | (.ok stop, p) => shown (some stop) (p.consumer.finish stop)
  | (.error _, p) => shown none p.consumer.cues

variable {request : DecodeRequest} {w w' : Workspace} {path : Option String} {bytes : List UInt8}

/-- Recording and writing end alike, and what was written is the entries of the recorded cues. -/
theorem effect_writeStream (request : DecodeRequest) (ticks : Nat → Float → Int64)
    (failLevel : Severity) (bytes : List UInt8) :
    let written := (CaptionWriter.writeStream ticks bytes).effect (Presentation.start failLevel
      request.frameRate (CaptionWriter.start failLevel request.realTime))
    written.1 = (request.record ticks failLevel bytes).1.map (fun _ ↦ ()) ∧
      Wrote (request.cues ticks failLevel bytes) written.2.consumer.output := by
  intro written
  have hstart : Presentation.Same CueRecorder.Records
      (Presentation.start failLevel request.frameRate (.start failLevel request.realTime))
      (Presentation.start failLevel request.frameRate (.start failLevel request.realTime)) :=
    ⟨rfl, rfl, rfl, CueRecorder.start_records failLevel request.realTime⟩
  have hpresent := hstart.related_present ticks
    (fun packets time _ _ h ↦ h.related_consume packets time) (fun _ _ h ↦ h) bytes
  obtain ⟨stop, p, _, q, hrecord, hwrite, rfl, hsame⟩ | ⟨e, p, q, hrecord, hwrite, hsame⟩ :=
    hpresent.cases
  · have hwritten : written = _ := CaptionWriter.effect_writeStream hwrite
    rw [cues, record, hrecord, hwritten]
    exact ⟨rfl, hsame.consumer.finish stop⟩
  · have hwritten : written = (.error e, q) := effect_bind_error hwrite
    rw [cues, record, hrecord, hwritten]
    refine ⟨rfl, ?_⟩
    rw [hsame.consumer.output_eq]
    exact (pushed_pushAll p.consumer.cues).wrote

/-- The text that is delivered is the entries of the cues. -/
theorem effect_run_of_openFiles (ticks : Nat → Float → Int64)
    (hopen : request.openFiles.effect w = (.ok (path, bytes), w')) (failLevel : Severity) :
    (request.run ticks failLevel).effect w =
      ((request.record ticks failLevel bytes).1.map fun _ ↦ (),
        deliver path
          (String.join ((numbered (request.cues ticks failLevel bytes)).map Block.text)) w') := by
  obtain ⟨hresult, hwrote⟩ := request.effect_writeStream ticks failLevel bytes
  rw [run_eq, effect_bind_ok hopen, effect_focus]
  exact Prod.ext hresult (congrArg (fun text ↦ deliver path text w') hwrote.output_eq)

/-- A stream that is decoded to its end leaves no cue out. -/
theorem map_fst_cues_of_ok {ticks : Nat → Float → Int64} {failLevel : Severity} {stop : Int64}
    {p : Presentation CueRecorder} (h : request.record ticks failLevel bytes = (.ok stop, p)) :
    (request.cues ticks failLevel bytes).map Prod.fst = p.consumer.finish stop := by
  rw [cues, h]
  exact map_fst_shown_some stop _

theorem map_fst_cues_of_error {ticks : Nat → Float → Int64} {failLevel : Severity} {e : Error}
    {p : Presentation CueRecorder} (h : request.record ticks failLevel bytes = (.error e, p)) :
    (request.cues ticks failLevel bytes).map Prod.fst ++ (waiting? p.consumer.cues).toList =
      p.consumer.cues := by
  rw [cues, h]
  exact map_fst_shown_none _

/-- Decoding writes one block for each cue with text, in order and numbered from one. The lines of a
block, with line breaks between, are the text of its cue. The text of all blocks is read back as
these blocks exactly when no line in them is empty or has a line feed in it. A cue is missing only
if nothing tells its end because decoding has failed. -/
theorem writes_blocks (ticks : Nat → Float → Int64)
    (hopen : request.openFiles.effect w = (.ok (path, bytes), w')) (failLevel : Severity) :
    let recorded := request.record ticks failLevel bytes
    let cues := request.cues ticks failLevel bytes
    let blocks := numbered cues
    let text := String.join (blocks.map Block.text)
    (request.run ticks failLevel).effect w =
        (recorded.1.map fun _ ↦ (), deliver path text w') ∧
      (∀ stop, recorded.1 = .ok stop → cues.map Prod.fst = recorded.2.consumer.finish stop) ∧
      (∀ e, recorded.1 = .error e → cues.map Prod.fst ++
        (waiting? recorded.2.consumer.cues).toList = recorded.2.consumer.cues) ∧
      blocks.map Block.number = List.range' 1 blocks.length ∧
      (blocks.map fun b ↦ lineBreak.intercalate (b.lines.map String.toList)) =
        ((cues.map Prod.fst).filter fun cue ↦ !cue.isEmpty).map (fun cue ↦ cue.text.toList) ∧
      (parse text = some blocks ↔ ∀ b ∈ blocks, b.Readable) := by
  intro recorded cues blocks text
  refine ⟨effect_run_of_openFiles ticks hopen failLevel, ?_, ?_, map_number_numbered cues,
    map_intercalate_numbered cues, parse_text_iff regular_of_mem_numbered⟩
  · exact fun stop hstop ↦ map_fst_cues_of_ok (Prod.ext hstop rfl)
  · exact fun e he ↦ map_fst_cues_of_error (Prod.ext he rfl)

/-- A caption of two rows in a stream of one picture. -/
theorem writes_block_of_two_rows :
    let bytes := encodeAll [⟨0xB8, []⟩, ⟨0x00, [0x00, 0x0F, 0xFF, 0xF8]⟩,
      ⟨0xB2, [0x47, 0x41, 0x39, 0x34, 0x03, 0x46, 0xFF, 0xFC, 0x94, 0x20, 0xFC, 0x91, 0x40,
        0xFC, 0xC8, 0xE9, 0xFC, 0x91, 0xE0, 0xFC, 0xD9, 0xEF, 0xFC, 0x94, 0x2F, 0xFF]⟩]
    let w : Workspace := ⟨[("in", bytes)], [], [], ""⟩
    let request : DecodeRequest := ⟨"in", none, false, none⟩
    let ticks (place : Nat) (_ : Float) : Int64 := 3000 * .ofNat place
    let text := "1\n00:00:00,000 --> 00:00:00,033\nHi\nYo\n\n"
    request.openFiles.effect w = (.ok (none, bytes), w) ∧
      (request.run ticks .error).effect w = (.ok (), w.print text) ∧
      parse text = some [⟨1, "00:00:00,000", "00:00:00,033", ["Hi", "Yo"]⟩] := by
  intro bytes w request ticks text
  have hopen : request.openFiles.effect w = (.ok (none, bytes), w) := by decide +kernel
  have hblocks : numbered (request.cues ticks .error bytes) =
      [⟨1, "00:00:00,000", "00:00:00,033", ["Hi", "Yo"]⟩] := by
    decide +kernel
  have hresult : (request.record ticks .error bytes).1.map (fun _ ↦ ()) = .ok () := by
    decide +kernel
  obtain ⟨hrun, -, -, -, -, hparse⟩ := writes_blocks ticks hopen .error
  rw [hblocks] at hrun hparse
  rw [hresult] at hrun
  exact ⟨hopen, hrun, hparse.mpr (by decide)⟩

/-- A row of spaces is an empty line in its block, where a reader takes the row behind it for the
number of the next one. -/
theorem blank_row_ends_block :
    let bytes : List UInt8 := [
      0x00, 0x00, 0x01, 0xB3, 0x2D, 0x01, 0xE0, 0x24, 0xFF, 0xFF, 0xE3, 0x80,
      0x00, 0x00, 0x01, 0xB5, 0x14, 0x82, 0x00, 0x01, 0x00, 0x00,
      0x00, 0x00, 0x01, 0xB8, 0x00, 0x08, 0x00, 0x40, 0x00,
      0x00, 0x00, 0x01, 0x00, 0x00, 0x0F, 0xFF, 0xFF,
      0x00, 0x00, 0x01, 0xB2, 0x47, 0x41, 0x39, 0x34, 0x03, 0x48, 0xFF,
      0xFC, 0x94, 0x20, 0xFC, 0x91, 0x40, 0xFC, 0xC8, 0xE9, 0xFC, 0x91, 0xE0, 0xFC, 0x20, 0x80,
      0xFC, 0x92, 0x40, 0xFC, 0xD9, 0xEF, 0xFC, 0x94, 0x2F, 0xFF,
      0x00, 0x00, 0x01, 0xB7]
    let w : Workspace := ⟨[("in.m2v", bytes)], [], [], ""⟩
    let request : DecodeRequest := ⟨"in.m2v", some "out.srt", false, none⟩
    (request.cues Timestamp.ofFrame .error bytes).map (fun p ↦ p.1.text) = ["Hi\\N\\NYo"] ∧
      ∃ text, (request.run Timestamp.ofFrame .error).effect w =
        (.ok (), deliver (some "out.srt") text (w.store "out.srt" [])) ∧ parse text = none := by
  intro bytes w request
  have hopen : request.openFiles.effect w =
      (.ok (some "out.srt", bytes), w.store "out.srt" []) := by
    decide +kernel
  have hresult : (request.record Timestamp.ofFrame .error bytes).1.map (fun _ ↦ ()) = .ok () := by
    decide +kernel
  have hlines : (numbered (request.cues Timestamp.ofFrame .error bytes)).map Block.lines =
      [["Hi", "", "Yo"]] := by
    decide +kernel
  obtain ⟨b, hblocks, hb⟩ := List.map_eq_singleton_iff.mp hlines
  have hregular : b.Regular :=
    regular_of_mem_numbered b (hblocks ▸ List.mem_singleton_self b)
  have hparse : parse b.text = none := by
    have hgap : b.lines = ["Hi"] ++ "" :: ["Yo"] := hb
    rw [parse_text_of_gap hregular hgap (by decide) (by decide) (by decide)]
    rfl
  have hrun := effect_run_of_openFiles Timestamp.ofFrame hopen .error
  rw [hresult, hblocks, List.map_singleton, String.join_cons, String.join_nil,
    String.append_empty] at hrun
  exact ⟨by decide +kernel, b.text, hrun, hparse⟩

end DecodeRequest

end ClosedCaptions
