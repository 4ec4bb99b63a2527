import ClosedCaptions.Proofs.Decode.Display
import ClosedCaptions.Proofs.Decode.RealTime
import ClosedCaptions.Proofs.Stream.Encoding

/-!
# Requests to decode

A request opens its files, presents the stream that it reads to a writer and delivers what was
written. Where problems are tolerated the writer never fails, so a stream of well-arranged groups is
decoded caption by caption in display order, to the last group.
-/

namespace ClosedCaptions

open Procedure StreamUnit Presentation

namespace CaptionWriter

/-- Where warnings are not fatal, a writer takes all packets. -/
theorem ensures_consume (packets : List UInt8) (time : Int64) :
    Ensures (fun w ↦ w.decoder.WellFormedAt .error) (consume packets time)
      (fun _ w ↦ w.decoder.WellFormedAt .error) fun _ ↦ False := by
  intro w hw
  obtain ⟨cues, d, hdecode, hd⟩ :=
    (Decoder.ensures_decode packets time).exists_ok Decoder.not_fails_error hw
  have hfocus := effect_focus decoder (fun d w ↦ { w with decoder := d })
    (Decoder.decode packets time) w
  rw [hdecode] at hfocus
  rw [consume, effect_bind_ok hfocus, effect_each_push]
  exact hd.1

theorem wellFormed_start (realTime : Bool) : (start .error realTime).decoder.WellFormedAt .error :=
  ⟨Decoder.wellFormed_initial.context, Decoder.wellFormed_initial.held⟩

theorem exists_effect_give (ticks : Nat → Float → Int64) (shown : List Caption) (realTime : Bool) :
    ∃ writer, (each (Caption.give ticks consume) shown).effect (start .error realTime) =
      (.ok (), writer) := by
  have hgive (caption : Caption) : Ensures (fun w ↦ w.decoder.WellFormedAt .error)
      (caption.give ticks consume) (fun _ w ↦ w.decoder.WellFormedAt .error) fun _ ↦ False :=
    ensures_consume caption.packets (ticks caption.place caption.rate)
  obtain ⟨_, writer, heffect, _⟩ := (ensures_each hgive shown).exists_ok (fun _ ↦ not_false)
    (wellFormed_start realTime)
  exact ⟨writer, heffect⟩

/-- What is still open is written when the stream ends. -/
theorem effect_writeStream {ticks : Nat → Float → Int64} {bytes : List UInt8}
    {p q : Presentation CaptionWriter} {stop : Int64}
    (h : (present ticks consume bytes).effect p = (.ok stop, q)) :
    (writeStream ticks bytes).effect p =
      (.ok (), { q with consumer := q.consumer.finish stop }) := by
  rw [writeStream, effect_bind_ok h, effect_modify_bind, effect_get_bind, effect_log]

end CaptionWriter

namespace DecodeRequest

/-- Check the frame rate, make the output and read the input. -/
def openFiles (request : DecodeRequest) : Procedure Workspace (Option String × List UInt8) := do
  request.checkRate
  let path ← request.createOutput
  let bytes ← Workspace.openInput request.input
  return (path, bytes)

theorem run_eq (ticks : Nat → Float → Int64) (request : DecodeRequest) (failLevel : Severity) :
    request.run ticks failLevel = request.openFiles >>= fun (path, bytes) ↦
      focus (fun _ ↦ Presentation.start failLevel request.frameRate
          (CaptionWriter.start failLevel request.realTime))
        (fun p ↦ deliver path p.consumer.output.output)
        (CaptionWriter.writeStream ticks bytes) := by
  rw [run, openFiles]
  simp only [bind_assoc, pure_bind]

variable {request : DecodeRequest} {w w' : Workspace} {path : Option String} {bytes : List UInt8}

/-- Where problems are tolerated and every group of the stream is well arranged, a presentation
makes the same calls whatever the consumer is: one for each caption unit, with its packets and the
time of its picture, in display order. Decoding makes these calls and succeeds. Any function may
tell the time of a place. -/
theorem decodes_in_display_order (ticks : Nat → Float → Int64)
    (hopen : request.openFiles.effect w = (.ok (path, bytes), w'))
    (harranged : ∀ group ∈ groups (unitSplit bytes), Arranged group) :
    let units := unitSplit bytes
    let stop := ticks (units.countP isPicture) (rateBehind request.frameRate units)
    ∃ shown writer,
      InOrder shown (captionsFrom request.frameRate [] units) ∧
      (∀ {σ : Type} (consume : List UInt8 → Int64 → Procedure σ Unit) (consumer : σ),
        let given := (each (Caption.give ticks consume) shown).effect consumer
        let presented := (present ticks consume bytes).effect
          (Presentation.start .error request.frameRate consumer)
        presented.1 = given.1.map (fun _ ↦ stop) ∧ presented.2.consumer = given.2) ∧
      (each (Caption.give ticks CaptionWriter.consume) shown).effect
        (CaptionWriter.start .error request.realTime) = (.ok (), writer) ∧
      (request.run ticks .error).effect w =
        (.ok (), deliver path (writer.finish stop).output.output w') := by
  intro units stop
  obtain ⟨shown, horder, hrun⟩ := related_present request.frameRate bytes harranged
  obtain ⟨writer, hwriter⟩ := CaptionWriter.exists_effect_give ticks shown request.realTime
  refine ⟨shown, writer, horder, ?_, hwriter, ?_⟩
  · intro σ consume consumer given presented
    have hrelated : Match _ _ presented given := hrun ticks consume consumer
    rcases hpresented : presented with ⟨e | found, q⟩ <;>
      rcases hgiven : given with ⟨e' | _, c⟩ <;> rw [hpresented, hgiven] at hrelated
    · exact ⟨congrArg Except.error hrelated.1, hrelated.2⟩
    · exact hrelated.elim
    · exact hrelated.elim
    · exact ⟨congrArg Except.ok hrelated.2, hrelated.1⟩
  · have hrelated := hrun ticks CaptionWriter.consume (CaptionWriter.start .error request.realTime)
    unfold Related at hrelated
    rw [hwriter] at hrelated
    rcases hpresent : (present ticks CaptionWriter.consume bytes).effect (Presentation.start .error
      request.frameRate (CaptionWriter.start .error request.realTime)) with ⟨e | found, q⟩ <;>
      rw [hpresent] at hrelated
    · exact hrelated.elim
    · obtain ⟨rfl, rfl⟩ := hrelated
      rw [run_eq, effect_bind_ok hopen, effect_focus, CaptionWriter.effect_writeStream hpresent]

/-- Pictures 0, 2 and 1 of a group, and a second group. -/
theorem decodes_reordered_pictures :
    let picture (fields : UInt8) : StreamUnit := ⟨0x00, [0x00, fields, 0xFF, 0xF8]⟩
    let captions (first second : UInt8) : StreamUnit :=
      ⟨0xB2, [0x47, 0x41, 0x39, 0x34, 0x03, 0x41, 0xFF, 0xFC, first, second, 0xFF]⟩
    let border : StreamUnit := ⟨0xB8, []⟩
    let units := [border, picture 0x0F, captions 0x94 0x20, picture 0x97, captions 0x94 0x2F,
      picture 0x5F, captions 0xC8 0xE9, border, picture 0x0F, captions 0x94 0x2C]
    let bytes := encodeAll units
    let w : Workspace := ⟨[("in", bytes)], [], [], ""⟩
    let request : DecodeRequest := ⟨"in", none, false, none⟩
    let ticks (place : Nat) (_ : Float) : Int64 := 90000 * .ofNat place
    let keys : List (Nat × List UInt8) := [(0, [0xFC, 0x94, 0x20]), (1, [0xFC, 0xC8, 0xE9]),
      (2, [0xFC, 0x94, 0x2F]), (3, [0xFC, 0x94, 0x2C])]
    request.openFiles.effect w = (.ok (none, bytes), w) ∧
      (∀ group ∈ groups (unitSplit bytes), Arranged group) ∧
      (∃ shown, InOrder shown (captionsFrom none [] units) ∧
        shown.map (fun caption ↦ (caption.place, caption.packets)) = keys) ∧
      (request.run ticks .error).effect w =
        (.ok (), w.print "1\n00:00:02,000 --> 00:00:04,000\nHi\n\n") := by
  intro picture captions border units bytes w request ticks keys
  have hopen : request.openFiles.effect w = (.ok (none, bytes), w) := by decide +kernel
  have hunits : unitSplit bytes = units := unitSplit_encodeAll (by decide)
  have harranged : ∀ group ∈ groups (unitSplit bytes), Arranged group := by
    have hgroups : groups units = [[], [picture 0x0F, captions 0x94 0x20, picture 0x97,
        captions 0x94 0x2F, picture 0x5F, captions 0xC8 0xE9],
        [picture 0x0F, captions 0x94 0x2C]] := by
      decide
    rw [hunits, hgroups]
    intro group hgroup
    simp only [List.mem_cons, List.not_mem_nil, or_false] at hgroup
    rcases hgroup with rfl | rfl | rfl
    · exact ⟨by decide, by decide⟩
    · exact ⟨by decide +kernel, by decide +kernel⟩
    · exact ⟨by decide +kernel, by decide +kernel⟩
  obtain ⟨shown, writer, horder, -, hwriter, hrun⟩ :=
    decodes_in_display_order ticks hopen harranged
  rw [hunits] at horder hrun
  let sent : List (Nat × List UInt8) := [(0, [0xFC, 0x94, 0x20]), (2, [0xFC, 0x94, 0x2F]),
    (1, [0xFC, 0xC8, 0xE9]), (3, [0xFC, 0x94, 0x2C])]
  have hsent : (captionsFrom none [] units).map (fun caption ↦ (caption.place, caption.packets)) =
      sent := by
    decide +kernel
  have hshown : shown.map (fun caption ↦ (caption.place, caption.packets)) = keys := by
    have hperm := horder.perm.map fun caption ↦ (caption.place, caption.packets)
    rw [hsent] at hperm
    have hsorted : (shown.map fun caption ↦ (caption.place, caption.packets)).Pairwise
        fun a b ↦ a.1 ≤ b.1 := List.pairwise_map.mpr horder.sorted
    have hdistinct : ∀ a ∈ sent, ∀ b ∈ keys, a.1 ≤ b.1 → b.1 ≤ a.1 → a = b := by decide
    exact List.Perm.eq_of_pairwise (fun a b ha hb ↦ hdistinct a (hperm.mem_iff.mp ha) b hb) hsorted
      (by decide) (hperm.trans (by decide))
  have hgiven : each (fun key : Nat × List UInt8 ↦
      CaptionWriter.consume key.2 (90000 * .ofNat key.1)) keys =
      each (Caption.give ticks CaptionWriter.consume) shown := by
    rw [← hshown, each_map]
    rfl
  have hdecoded : (each (fun key : Nat × List UInt8 ↦
      CaptionWriter.consume key.2 (90000 * .ofNat key.1)) keys).effect
      (CaptionWriter.start .error false) = (.ok (), writer) := by
    rw [hgiven]
    exact hwriter
  have hfinished : (((each (fun key : Nat × List UInt8 ↦
      CaptionWriter.consume key.2 (90000 * .ofNat key.1)) keys).effect
      (CaptionWriter.start .error false)).2.finish 360000).output.output =
        "1\n00:00:02,000 --> 00:00:04,000\nHi\n\n" := by
    decide +kernel
  refine ⟨hopen, harranged, ⟨shown, horder, hshown⟩, ?_⟩
  rw [hdecoded] at hfinished
  rw [hrun]
  exact congrArg (fun text ↦ (Except.ok (), w.print text)) hfinished

end DecodeRequest

end ClosedCaptions
