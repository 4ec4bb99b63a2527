import ClosedCaptions.Caption.Decoder
import ClosedCaptions.Proofs.Caption.Context

/-!
# Reachable decoders

What holds of a decoder after any operations on a fresh one, decoding that failed included: its
context is well formed, nothing is looked up out of bounds, decoding fails only when warnings are
fatal, and all cue text is a few short lines.
-/

namespace ClosedCaptions.Decoder

open Procedure

/-- The context is well formed, and so is the text held back. -/
structure WellFormedAt (level : Severity) (d : Decoder) : Prop where
  context : d.context.WellFormedAt level
  held : ∀ text ∈ d.held, IsCueText text

theorem wellFormed_initial : WellFormedAt .error initial where
  context := { Context.wellFormed_initial with failLevel_eq := rfl }
  held text h := by simp [initial] at h

variable {d : Decoder} {level : Severity}

namespace WellFormedAt

theorem heldCue? (h : d.WellFormedAt level) (time : Int64) :
    ∀ cue ∈ d.heldCue? time, IsCueText cue.text := by
  intro cue hcue
  obtain ⟨text, htext, rfl⟩ := Option.map_eq_some_iff.mp hcue
  exact h.held text htext

theorem emit (h : d.WellFormedAt level) (time : Int64) :
    (d.emit time).2.WellFormedAt level ∧ ∀ cue ∈ (d.emit time).1, IsCueText cue.text := by
  have hcontext : Context.WellFormedAt level { d.context with reaped := false } :=
    { h.context with }
  unfold Decoder.emit
  dsimp only
  split
  · refine ⟨⟨hcontext, h.held⟩, ?_⟩
    rintro _ ⟨⟩
    exact h.context.buffer
  · refine ⟨⟨hcontext, ?_⟩, h.heldCue? time⟩
    rintro _ ⟨⟩
    exact h.context.buffer

end WellFormedAt

/-- The cues given out are short lines, and the decoder stays well formed. -/
def Emits (level : Severity) (cues : List Cue) (d : Decoder) : Prop :=
  d.WellFormedAt level ∧ ∀ cue ∈ cues, IsCueText cue.text

/-- The decoder stays well formed where a warning is fatal. -/
def Fails (level : Severity) (d : Decoder) : Prop :=
  d.WellFormedAt level ∧ Severity.warn ≤ level

/-- Nothing fails where warnings are not fatal. -/
theorem not_fails_error (d : Decoder) : ¬ Fails .error d :=
  fun h ↦ absurd h.2 (by decide)

theorem WellFormedAt.emits_nil (h : d.WellFormedAt level) : Emits level [] d :=
  ⟨h, fun _ hcue ↦ absurd hcue List.not_mem_nil⟩

theorem ensures_processPair (first second : UInt8) :
    Ensures (WellFormedAt level)
      (focus context (fun c d ↦ { d with context := c }) (Context.processPair first second))
      (fun _ ↦ WellFormedAt level) (Fails level) := by
  have hpair : Context.Maintains level (Context.processPair first second) :=
    Context.maintains_processPair first second
  apply ensures_focus
  intro d hd
  refine Ensures.mono hpair ?_ ?_ ?_
  · rintro _ rfl
    exact hd.context
  · exact fun _ c hc ↦ ⟨hc, hd.held⟩
  · exact fun c hc ↦ ⟨⟨hc.1, hd.held⟩, hc.2⟩

/-- Decoding one packet. -/
theorem ensures_decodeTriple (time : Int64) (triple : Triple) :
    Ensures (WellFormedAt level) (decodeTriple time triple) (fun cue ↦ Emits level cue.toList)
      (Fails level) := by
  unfold decodeTriple
  split
  · apply ensures_log_bind
    exact ensures_pure fun d hd ↦ hd.emits_nil
  split
  · exact ensures_pure fun d hd ↦ hd.emits_nil
  apply (ensures_processPair _ _).bind
  intro _
  apply ensures_get_bind
  intro d hd
  split
  · obtain ⟨hd', hcue⟩ := hd.emit time
    rw [effect_modify_bind, effect_pure]
    refine ⟨hd', ?_⟩
    intro c hc
    exact hcue c (Option.mem_toList.mp hc)
  · exact hd.emits_nil

/-- Decoding packets. -/
theorem ensures_decodeTriples (time : Int64) (triples : List Triple) :
    Ensures (WellFormedAt level) (decodeTriples time triples) (Emits level) (Fails level) :=
  ensures_gather (fun triple ↦ (ensures_decodeTriple time triple).map) triples

theorem ensures_decode (bytes : List UInt8) (time : Int64) :
    Ensures (WellFormedAt level) (decode bytes time) (Emits level) (Fails level) := by
  unfold decode
  dsimp only
  split
  · apply ensures_log_bind
    exact ensures_decodeTriples time _
  · exact ensures_decodeTriples time _

/-! ## Sequences of operations -/

/-- What a caller can do with a decoder. -/
inductive Operation where
  | decode (bytes : List UInt8) (time : Int64)
  | flush
  | finish (time : Int64)
  | setRealTime (realTime : Bool)
  | setFailLevel (level : Severity)

/-- What an operation leaves, also where it fails. -/
def Operation.apply (d : Decoder) : Operation → Decoder
  | decode bytes time => ((Decoder.decode bytes time).run d).state
  | flush => d.flush
  | finish time => (d.finish time).2
  | setRealTime realTime => d.setRealTime realTime
  | setFailLevel level => d.setFailLevel level

/-- A fresh decoder after operations. -/
def after (operations : List Operation) : Decoder :=
  operations.foldl Operation.apply initial

theorem WellFormedAt.apply (h : d.WellFormedAt level) (operation : Operation) :
    ∃ level, (operation.apply d).WellFormedAt level := by
  cases operation with
  | decode bytes time =>
    have hpost := ensures_decode bytes time d h
    have hstate := hpost.state (fun _ _ hd ↦ hd.1) fun _ hd ↦ hd.1
    exact ⟨level, hstate⟩
  | flush => exact ⟨level, h.context.flush, h.held⟩
  | finish time =>
    exact ⟨level, h.context, fun text htext ↦ by simp [Operation.apply, finish] at htext⟩
  | setRealTime realTime => exact ⟨level, h.context, h.held⟩
  | setFailLevel level' => exact ⟨level', { h.context with failLevel_eq := rfl }, h.held⟩

theorem wellFormed_after (operations : List Operation) :
    (after operations).WellFormedAt (after operations).context.failLevel := by
  have hfold : ∀ (operations : List Operation) (d : Decoder) (level : Severity),
      d.WellFormedAt level → ∃ level, (operations.foldl Operation.apply d).WellFormedAt level := by
    intro operations
    induction operations with
    | nil => exact fun d level h ↦ ⟨level, h⟩
    | cons operation operations ih =>
      intro d level h
      obtain ⟨level', h'⟩ := h.apply operation
      exact ih _ level' h'
  obtain ⟨level, h⟩ := hfold operations initial .error wellFormed_initial
  have hlevel : (after operations).context.failLevel = level := h.context.failLevel_eq
  rw [hlevel]
  exact h

/-- What a caller may rely on. Lookups are in bounds at every packet of what is decoded next. -/
structure Sound (d : Decoder) : Prop where
  active_le : d.context.active.val ≤ 1
  cursorRow_le : d.context.cursorRow.val ≤ 14
  wellFormed : d.context.WellFormed
  inBounds : ∀ time triples, ((decodeTriples time triples).effect d).2.context.InBounds
  decode_ok : d.context.failLevel = .error →
    ∀ bytes time, ∃ cues, ((decode bytes time).run d).result = .ok cues
  decode_text : ∀ bytes time cues, ((decode bytes time).run d).result = .ok cues →
    ∀ cue ∈ cues, IsCueText cue.text
  finish_text : ∀ time, ∀ cue ∈ (d.finish time).1, IsCueText cue.text

theorem WellFormedAt.decode_ok (h : d.WellFormedAt .error) (bytes : List UInt8) (time : Int64) :
    ∃ cues, ((decode bytes time).run d).result = .ok cues := by
  obtain ⟨cues, d', heffect, _⟩ := (ensures_decode bytes time).exists_ok not_fails_error h
  exact ⟨cues, congrArg Prod.fst heffect⟩

theorem WellFormedAt.decode_text (h : d.WellFormedAt level) {bytes : List UInt8} {time : Int64}
    {cues : List Cue} (hcues : ((decode bytes time).run d).result = .ok cues) :
    ∀ cue ∈ cues, IsCueText cue.text := by
  have hpost := ensures_decode bytes time d h
  have heffect : (decode bytes time).effect d =
      (.ok cues, ((decode bytes time).run d).state) := Prod.ext hcues rfl
  rw [heffect] at hpost
  exact hpost.2

/-- Whatever was done with a fresh decoder, failed decoding included, it is sound. -/
theorem sound_after (operations : List Operation) : (after operations).Sound := by
  have h := wellFormed_after operations
  exact {
    active_le := Nat.le_of_lt_succ (after operations).context.active.isLt
    cursorRow_le := Nat.le_of_lt_succ (after operations).context.cursorRow.isLt
    wellFormed := h.context.toWellFormed
    inBounds := fun _ _ ↦ Context.inBounds _
    decode_ok := fun hlevel bytes time ↦ (hlevel ▸ h).decode_ok bytes time
    decode_text := fun _ _ _ hcues ↦ h.decode_text hcues
    finish_text := h.heldCue? }

end ClosedCaptions.Decoder
