import ClosedCaptions.Caption.Decoder
import ClosedCaptions.Proofs.Strict.Tightening

/-!
# Strict decoding of captions

The only problem that a caption decoder tolerates is a character past the end of a row. A decoder
that is strict decodes like a lenient one up to the first such character.
-/

namespace ClosedCaptions

open Procedure

namespace Context

/-- The first context is the strict form of the second one, which is lenient. -/
def Strict (c d : Context) : Prop :=
  d.failLevel = .error ∧ c = { d with failLevel := .warn }

/-- A change that has nothing to do with the level. -/
theorem tight_change {f : Context → Context}
    (hf : ∀ d level, f { d with failLevel := level } = { f d with failLevel := level }) :
    Tight Strict (modify f) :=
  tight_modify_of_commutes (fun _ ↦ rfl) (fun _ _ ↦ rfl) fun level d ↦ hf d level

theorem tight_remember (first second : UInt8) : Tight Strict (remember first second) :=
  tight_change fun _ _ ↦ rfl

theorem tight_writeChar (char : UInt8) : Tight Strict (writeChar char) := by
  rintro _ d ⟨hlevel, rfl⟩
  unfold writeChar
  apply tightens_get_bind
  unfold Screen.write
  dsimp only
  by_cases hcell : d.cursorColumn < screenColumns ∨ d.cursorColumn = screenColumns ∧ char = 0
  · rw [if_pos hcell, if_pos hcell]
    apply tightens_modify_bind
    exact tightens_pure true ⟨hlevel, rfl⟩
  · rw [if_neg hcell, if_neg hcell, hlevel]
    exact tightens_bind (tightens_tolerate _ _) fun _ _ _ ↦ tightens_pure false

theorem tight_putChar (char : UInt8) : Tight Strict (putChar char) := by
  apply (tight_writeChar char).bind
  intro written
  split
  · exact tight_change fun _ _ ↦ rfl
  · exact tight_pure ()

theorem tight_putSpaces (count : Nat) : Tight Strict (putSpaces count) := by
  induction count with
  | zero => exact tight_pure ()
  | succ count ih => exact (tight_putChar 0x20).bind fun _ ↦ ih

theorem tight_endRow : Tight Strict endRow :=
  (tight_writeChar 0).bind fun _ ↦ tight_pure ()

theorem tight_applyPreamble (row : Option (Fin screenRows)) (style : Style) :
    Tight Strict (applyPreamble row style) := by
  match row with
  | none => exact tight_log rfl
  | some row => exact (tight_change fun _ _ ↦ rfl).bind fun _ ↦ tight_putSpaces _

theorem tight_applyMidRow (style : Style) : Tight Strict (applyMidRow style) :=
  (tight_change fun _ _ ↦ rfl).bind fun _ ↦ (tight_change fun _ _ ↦ rfl).bind fun _ ↦
    tight_putChar 0x20

theorem tight_applyCharacters (first second : UInt8) :
    Tight Strict (applyCharacters first second) := by
  have hfinish : Tight Strict (do
      endRow
      modify fun c ↦ { c with previous := (0, 0) }
      log (.characters first second)) :=
    tight_endRow.bind fun _ ↦ (tight_change fun _ _ ↦ rfl).bind fun _ ↦ tight_log rfl
  apply (tight_change fun _ _ ↦ rfl).bind
  intro _
  apply (tight_putChar first).bind
  intro _
  split
  · exact (tight_putChar second).bind fun _ ↦ hfinish
  · exact hfinish

theorem rollUp_setLevel (d : Context) (level : Severity) :
    rollUp { d with failLevel := level } = { d.rollUp with failLevel := level } := by
  unfold rollUp
  by_cases hmode : d.mode = .text
  · rw [if_pos hmode, if_pos hmode]
  · rw [if_neg hmode, if_neg hmode]
    rfl

theorem tight_applyControl (control : Control) : Tight Strict (applyControl control) := by
  cases control with
  | resumeLoading | rollUp | resumeDirect | resumeText | eraseDisplayed | eraseHidden =>
    exact tight_change fun _ _ ↦ rfl
  | deleteToEndOfRow => exact tight_endRow
  | endOfCaption => exact (tight_log rfl).bind fun _ ↦ tight_change fun _ _ ↦ rfl
  | carriageReturn =>
    apply (tight_log rfl).bind
    intro _
    apply tight_change
    intro d level
    exact congrArg (fun c ↦ { c with cursorColumn := 0 }) (rollUp_setLevel d.reap level)

theorem tight_apply (first second : UInt8) (code : Code) :
    Tight Strict (apply first second code) := by
  have hremember := tight_remember first second
  cases code with
  | preamble row style => exact (tight_applyPreamble row style).bind fun _ ↦ hremember
  | midRow style => exact (tight_applyMidRow style).bind fun _ ↦ hremember
  | control control => exact (tight_applyControl control).bind fun _ ↦ hremember
  | tabOffset => exact hremember
  | characters a b => exact tight_applyCharacters a b
  | unknown a b => exact (tight_log rfl).bind fun _ ↦ tight_remember a b

theorem tight_processPair (first second : UInt8) : Tight Strict (processPair first second) := by
  rintro _ d ⟨hlevel, rfl⟩
  apply tightens_get_bind
  dsimp only
  split
  · exact tightens_pure () ⟨hlevel, rfl⟩
  · exact tight_apply first second _ _ d ⟨hlevel, rfl⟩

end Context

namespace Decoder

/-- The first decoder is the strict form of the second one, which is lenient. -/
def Strict (d e : Decoder) : Prop :=
  e.context.failLevel = .error ∧ d = { e with context := { e.context with failLevel := .warn } }

variable {d e : Decoder}

theorem Strict.reaped_eq (h : Strict d e) : d.context.reaped = e.context.reaped := by
  rw [h.2]

theorem Strict.emit (h : Strict d e) (time : Int64) :
    (emit time d).1 = (emit time e).1 ∧ Strict (emit time d).2 (emit time e).2 := by
  obtain ⟨hlevel, rfl⟩ := h
  unfold Decoder.emit
  by_cases hlive : e.realTime
  · rw [if_pos hlive, if_pos hlive]
    exact ⟨rfl, hlevel, rfl⟩
  · rw [if_neg hlive, if_neg hlive]
    exact ⟨rfl, hlevel, rfl⟩

theorem Strict.finish (h : Strict d e) (time : Int64) :
    (d.finish time).1 = (e.finish time).1 ∧ Strict (d.finish time).2 (e.finish time).2 := by
  obtain ⟨hlevel, rfl⟩ := h
  exact ⟨rfl, hlevel, rfl⟩

theorem tight_decodeTriple (time : Int64) (triple : Triple) :
    Tight Strict (decodeTriple time triple) := by
  have hpair (first second : UInt8) :
      Tight Strict (focus Decoder.context (fun c d ↦ { d with context := c })
        (Context.processPair first second)) := by
    apply (Context.tight_processPair first second).focus
    · rintro _ e ⟨hlevel, rfl⟩
      exact ⟨hlevel, rfl⟩
    · rintro _ e _ c ⟨_, rfl⟩ ⟨hlevel, rfl⟩
      exact ⟨hlevel, rfl⟩
  unfold decodeTriple
  split
  · exact (tight_log rfl).bind fun _ ↦ tight_pure _
  split
  · exact tight_pure _
  apply (hpair _ _).bind
  intro _ d e hstrict
  have hemit := hstrict.emit time
  apply tightens_get_bind
  rw [hstrict.reaped_eq]
  split
  · generalize emit time d = strict, emit time e = lenient at hemit
    obtain ⟨cue, d'⟩ := strict
    obtain ⟨cue', e'⟩ := lenient
    obtain ⟨rfl, hkept⟩ := hemit
    exact tightens_modify_bind (tightens_pure _ hkept)
  · exact tightens_pure _ hstrict

theorem tight_decode (bytes : List UInt8) (time : Int64) : Tight Strict (decode bytes time) := by
  unfold decode
  rcases Triple.split bytes with ⟨triples, extra⟩
  have hpackets : Tight Strict (decodeTriples time triples) :=
    tight_gather (fun triple ↦ (tight_decodeTriple time triple).map _) _
  dsimp only
  split
  · exact (tight_log rfl).bind fun _ ↦ hpackets
  · exact hpackets

end Decoder

end ClosedCaptions
