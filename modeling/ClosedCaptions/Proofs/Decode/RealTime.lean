import ClosedCaptions.Proofs.Caption.Batch
import ClosedCaptions.Proofs.Decode.Presentation
import ClosedCaptions.Proofs.SubRip.Entries

/-!
# Real time against batch

In real time a cue waits in the output for the next one to end it. In batch mode it waits in the
decoder. Either way it is written when the next cue, or the end, is known, so both write the same
text.
-/

namespace ClosedCaptions

open Procedure

namespace SubRip

/-- The same entries have been written. -/
structure SameText (s s' : SubRip) : Prop where
  entries_eq : s.entries = s'.entries
  output_eq : s.output = s'.output

/-- An entry does not depend on the duration of its cue. -/
theorem SameText.write {s s' : SubRip} (h : SameText s s') {cue cue' : Cue}
    (htext : cue.text = cue'.text) (hstart : cue.start = cue'.start) (stop : Int64) :
    SameText (s.write cue stop) (s'.write cue' stop) := by
  have hblock (number : Nat) : block number cue stop = block number cue' stop := by
    unfold block Cue.lines
    rw [htext, hstart]
  unfold SubRip.write Cue.isEmpty
  rw [htext]
  split
  · exact h
  · refine ⟨?_, ?_⟩
    · exact congrArg (· + 1) h.entries_eq
    · simp only [h.entries_eq, h.output_eq, hblock]

end SubRip

namespace CaptionWriter

/-- The cue that is open waits in the output of the live writer and in the decoder of the batch
writer. -/
structure InStep (live batch : CaptionWriter) : Prop where
  text : live.output.SameText batch.output
  context_eq : live.decoder.context = batch.decoder.context
  live_realTime : live.decoder.realTime = true
  batch_realTime : batch.decoder.realTime = false
  live_held : live.decoder.held = none
  batch_pending : batch.output.pending = none
  open_eq : live.output.pending =
    batch.decoder.held.map fun text ↦ ⟨text, batch.decoder.heldTime, none⟩

variable {live batch : CaptionWriter}

/-- Both ways to end the open cue write the same entry. -/
theorem InStep.close (h : InStep live batch) (time : Int64) :
    (live.output.close time).SameText
        (batch.output.pushAll (batch.decoder.heldCue? time).toList) ∧
      (batch.output.pushAll (batch.decoder.heldCue? time).toList).pending = none := by
  have hopen := h.open_eq
  unfold Decoder.heldCue?
  cases hheld : batch.decoder.held with
  | none =>
    rw [hheld] at hopen
    rw [SubRip.close_of_none hopen]
    exact ⟨h.text, h.batch_pending⟩
  | some text =>
    rw [hheld] at hopen
    have hstop : Cue.endTime ⟨text, batch.decoder.heldTime,
        some (time - batch.decoder.heldTime)⟩ = some time :=
      Cue.endTime_endingAt ⟨text, batch.decoder.heldTime, none⟩ time
    have hpush := SubRip.push_of_endTime h.batch_pending hstop
    have hlive : { live.output with pending := none }.SameText batch.output :=
      ⟨h.text.entries_eq, h.text.output_eq⟩
    rw [SubRip.close_of_some hopen]
    simp only [Option.map_some, Option.toList_some, SubRip.pushAll, List.foldl_cons,
      List.foldl_nil, hpush]
    refine ⟨hlive.write rfl rfl time, ?_⟩
    rw [SubRip.pending_write]
    exact h.batch_pending

/-- A reaped screen keeps the writers in step. -/
theorem InStep.emit (h : InStep live batch) (time : Int64) :
    InStep
      ⟨(live.decoder.emit time).2, live.output.pushAll (live.decoder.emit time).1.toList⟩
      ⟨(batch.decoder.emit time).2, batch.output.pushAll (batch.decoder.emit time).1.toList⟩ := by
  obtain ⟨hclose, hpending⟩ := h.close time
  unfold Decoder.emit
  simp only [h.live_realTime, h.batch_realTime]
  exact {
    text := ⟨hclose.entries_eq, hclose.output_eq⟩
    context_eq := congrArg (fun c : Context ↦ { c with reaped := false }) h.context_eq
    live_realTime := rfl
    batch_realTime := rfl
    live_held := h.live_held
    batch_pending := hpending
    open_eq := congrArg (fun c : Context ↦ some (Cue.mk c.buffer time none)) h.context_eq }

/-- The writers are in step once these cues are written. -/
def Advances (live batch : CaptionWriter) (cues : List Cue) (d : Decoder) (cues' : List Cue)
    (d' : Decoder) : Prop :=
  InStep ⟨d, live.output.pushAll cues⟩ ⟨d', batch.output.pushAll cues'⟩

theorem lasting_advances (live batch : CaptionWriter) :
    Decoder.Lasting (Advances live batch) where
  context_eq h := h.context_eq
  put h _ := { h with context_eq := rfl }
  emit := by
    intro cues d cues' d' h time
    unfold Advances
    rw [SubRip.pushAll_append, SubRip.pushAll_append]
    exact h.emit time

theorem effect_each_push (cues : List Cue) (w : CaptionWriter) :
    (each (fun cue ↦ do
      Procedure.log (.cue cue)
      Procedure.modify (push cue)) cues).effect w =
      (.ok (), { w with output := w.output.pushAll cues }) := by
  induction cues generalizing w with
  | nil => rfl
  | cons cue cues ih =>
    have hpush : (do
        Procedure.log (.cue cue)
        Procedure.modify (push cue) : Procedure CaptionWriter Unit).effect w =
        (.ok (), push cue w) := effect_log_bind _ _ _
    rw [each_cons, effect_bind_ok hpush, ih]
    rfl

/-- A failure loses the cues in front of it, which are others in the two modes, but none of those
was written yet. -/
theorem InStep.related_consume (h : InStep live batch) (packets : List UInt8) (time : Int64) :
    Related (Keeps InStep) (fun w w' ↦ w.output.SameText w'.output) (consume packets time)
      (consume packets time) live batch := by
  have hstart : Advances live batch [] live.decoder [] batch.decoder := h
  have hdecode : Related (Advances live batch) (fun _ _ ↦ True)
      (Decoder.decode packets time) (Decoder.decode packets time) live.decoder batch.decoder :=
    (lasting_advances live batch).related_decode hstart packets time
  have hfocus : Related
      (fun cues w cues' w' ↦ InStep { w with output := w.output.pushAll cues }
        { w' with output := w'.output.pushAll cues' })
      (fun w w' ↦ w.output.SameText w'.output)
      (focus decoder (fun d w ↦ { w with decoder := d }) (Decoder.decode packets time))
      (focus decoder (fun d w ↦ { w with decoder := d }) (Decoder.decode packets time))
      live batch := by
    apply related_focus
    exact hdecode.mono (fun _ _ _ _ hstep ↦ hstep) fun _ _ _ ↦ h.text
  unfold consume
  apply related_bind hfocus
  intro cues w cues' w' hstep
  unfold Related
  rw [effect_each_push, effect_each_push]
  exact ⟨rfl, hstep⟩

/-- The open cue is written at the end. -/
theorem InStep.finish (h : InStep live batch) (time : Int64) :
    (live.finish time).output.SameText (batch.finish time).output := by
  obtain ⟨hclose, hpending⟩ := h.close time
  have hlive : (live.finish time).output = live.output.close time := by
    unfold CaptionWriter.finish Decoder.finish Decoder.heldCue?
    rw [h.live_held]
    rfl
  have hbatch : (batch.finish time).output =
      batch.output.pushAll (batch.decoder.heldCue? time).toList := by
    unfold CaptionWriter.finish Decoder.finish
    cases hcue : batch.decoder.heldCue? time with
    | none => exact SubRip.close_of_none h.batch_pending time
    | some cue =>
      rw [hcue] at hpending
      exact SubRip.close_of_none hpending time
  rw [hlive, hbatch]
  exact hclose

/-- The writers of the two modes start in step. -/
theorem start_inStep (failLevel : Severity) :
    InStep (start failLevel true) (start failLevel false) where
  text := ⟨rfl, rfl⟩
  context_eq := rfl
  live_realTime := rfl
  batch_realTime := rfl
  live_held := rfl
  batch_pending := rfl
  open_eq := rfl

theorem related_writeStream (ticks : Nat → Float → Int64) (failLevel : Severity)
    (frameRate : Option Float) (bytes : List UInt8) :
    Related (Keeps (Presentation.Same fun w w' ↦ w.output.SameText w'.output))
      (Presentation.Same fun w w' ↦ w.output.SameText w'.output)
      (writeStream ticks bytes) (writeStream ticks bytes)
      (Presentation.start failLevel frameRate (start failLevel true))
      (Presentation.start failLevel frameRate (start failLevel false)) := by
  have hstart : Presentation.Same InStep
      (Presentation.start failLevel frameRate (start failLevel true))
      (Presentation.start failLevel frameRate (start failLevel false)) :=
    ⟨rfl, rfl, rfl, start_inStep failLevel⟩
  have hpresent := hstart.related_present ticks
    (fun packets time _ _ h ↦ h.related_consume packets time) (fun _ _ h ↦ h.text) bytes
  unfold writeStream
  apply related_bind hpresent
  intro stop p stop' q hpresented
  obtain ⟨rfl, hsame⟩ := hpresented
  apply related_modify_bind
  apply related_get_bind
  exact ⟨rfl, { hsame with consumer := hsame.consumer.finish stop }⟩

end CaptionWriter

namespace DecodeRequest

/-- Decoding in real time and decoding in batch mode succeed or fail alike, write the same text and
count the same entries, whatever the time of a picture is. -/
theorem realTime_agrees_with_batch (ticks : Nat → Float → Int64) (request : DecodeRequest)
    (failLevel : Severity) :
    (∀ workspace, ({ request with realTime := true }.run ticks failLevel).effect workspace =
      ({ request with realTime := false }.run ticks failLevel).effect workspace) ∧
    ∀ bytes,
      let live := (CaptionWriter.writeStream ticks bytes).effect
        (Presentation.start failLevel request.frameRate (CaptionWriter.start failLevel true))
      let batch := (CaptionWriter.writeStream ticks bytes).effect
        (Presentation.start failLevel request.frameRate (CaptionWriter.start failLevel false))
      live.1 = batch.1 ∧ live.2.consumer.output.output = batch.2.consumer.output.output ∧
        live.2.consumer.output.entries = batch.2.consumer.output.entries := by
  have hstream (bytes : List UInt8) := (CaptionWriter.related_writeStream ticks failLevel
    request.frameRate bytes).result_eq
  constructor
  · intro workspace
    unfold run
    apply effect_bind_congr
    · rfl
    intro _ w
    apply effect_bind_congr
    · rfl
    intro path w'
    apply effect_bind_congr
    · rfl
    intro bytes w''
    obtain ⟨hresult, hsame⟩ := hstream bytes
    have hdelivered := congrArg (fun text ↦ deliver path text w'') hsame.consumer.output_eq
    rw [effect_focus, effect_focus]
    exact Prod.ext hresult hdelivered
  · intro bytes
    obtain ⟨hresult, hsame⟩ := hstream bytes
    exact ⟨hresult, hsame.consumer.output_eq, hsame.consumer.entries_eq⟩

end DecodeRequest

end ClosedCaptions
