import ClosedCaptions.Proofs.Caption.Standing
import ClosedCaptions.Proofs.Caption.Typing

/-!
# Placing a line

A preamble code puts the cursor in a row, behind an indent, and the line sent after it is then the
text of that row. All other rows of the screen stay as they are, and so does the other screen.
-/

namespace ClosedCaptions.Context

open Procedure

variable {c start : Context} {line text : List UInt8} {first second : UInt8}
  {pair : UInt8 × UInt8} {control : Control} {row : Fin screenRows} {style : Style}

/-! ## Preambles -/

/-- The context once a preamble code placed the cursor. -/
def placed (c : Context) (row : Fin screenRows) (style : Style) (pair : UInt8 × UInt8) : Context :=
  { c with
    cursorRow := row
    color := style.color
    font := style.font
    cursorColumn := 0
    previous := pair }

/-- The cells in front of the text. -/
def indentation (style : Style) : List UInt8 :=
  List.replicate style.indent 0x20

theorem length_indentation_le
    (hcode : Code.ofPair pair.1 pair.2 = .preamble (some row) style) :
    (indentation style).length ≤ screenColumns := by
  obtain ⟨-, hstyle⟩ := Code.eq_of_ofPair_eq_preamble hcode
  rw [indentation, List.length_replicate, hstyle]
  exact Nat.le_of_lt (Style.indent_ofIndex_lt _)

theorem ensures_preamble (hlevel : c.failLevel = .error)
    (hcode : Code.ofPair pair.1 pair.2 = .preamble (some row) style) (hnew : pair ≠ c.previous) :
    Ensures (· = c) (processPair pair.1 pair.2)
      (fun _ ↦ Typed (c.placed row style pair) (indentation style)) fun _ ↦ False := by
  have hplaced : (c.placed row style c.previous).failLevel = .error := hlevel
  have hspaces : Ensures (Typed (c.placed row style c.previous) []) (putSpaces style.indent)
      (fun _ ↦ Typed (c.placed row style c.previous)
        (([] ++ indentation style).take screenColumns)) fun _ ↦ False :=
    ensures_putSpaces hplaced style.indent
  rw [List.nil_append, List.take_of_length_le (length_indentation_le hcode)] at hspaces
  have hremember : Ensures (Typed (c.placed row style c.previous) (indentation style))
      (remember pair.1 pair.2) (fun _ ↦ Typed (c.placed row style pair) (indentation style))
      fun _ ↦ False :=
    ensures_modify fun d hd ↦ hd.previous pair
  rintro _ rfl
  rw [effect_processPair_of_ne hnew, hcode, apply, applyPreamble, bind_assoc, effect_modify_bind]
  exact (hspaces.bind fun _ ↦ hremember) _ (typed_nil rfl)

/-- A preamble code and a line after it. -/
theorem reaps_line (hlevel : c.failLevel = .error) (hreaped : c.reaped = false)
    (hcode : Code.ofPair pair.1 pair.2 = .preamble (some row) style) (hnew : pair ≠ c.previous)
    (hne : text ≠ []) (htext : ∀ byte ∈ text, IsPrintable byte) :
    Reaps (· = c) (pair :: textPairs text) []
      (Ended (c.placed row style pair).opened
        ((indentation style ++ text).take screenColumns)) := by
  have hfirst : pair.1 < 0x20 := by
    obtain ⟨hpreamble, -⟩ := Code.eq_of_ofPair_eq_preamble hcode
    exact Code.lt_of_isPreamble hpreamble
  have hpreamble :
      Reaps (· = c) [pair] [] (Typed (c.placed row style pair) (indentation style)) := by
    apply reaps_nothing
    refine (ensures_preamble hlevel hcode hnew).mono (fun _ h ↦ h) ?_ fun _ h ↦ h
    intro _ d hd
    exact ⟨hd.reaped_eq.trans hreaped, hd⟩
  have hplaced : (c.placed row style pair).failLevel = .error := hlevel
  have hline : Reaps (Typed (c.placed row style pair) (indentation style)) (textPairs text) []
      (Ended (c.placed row style pair).opened ((indentation style ++ text).take screenColumns)) :=
    reaps_textPairs hplaced hreaped hfirst hne htext
  exact hpreamble.append hline

/-! ## The screens afterwards -/

namespace Ended

variable (h : Ended start.opened line c)
include h

theorem screen_eq (i : Fin 2) :
    c.screen i = if i = start.writing then
      ((start.screen i).markUsed start.cursorRow).setRow start.cursorRow c.cursorLine
    else start.screen i := by
  have hopened : start.opened.screen i = if i = start.writing then
      (start.screen start.writing).markUsed start.cursorRow else start.screen i :=
    screen_modifyScreen start start.writing i fun s ↦ s.markUsed start.cursorRow
  have htyped := screen_typed start.opened c.cursorLine line.length i
  rw [← h.eq_typed, hopened] at htyped
  rw [htyped]
  change (if i = start.writing then _ else _) = _
  split
  · next hi => rw [hi]; rfl
  · rfl

/-- The row of the cursor is in use. -/
theorem isUsed_writing (r : Nat) :
    (c.screen start.writing).isUsed r =
      ((start.screen start.writing).isUsed r || decide (r = start.cursorRow.val)) := by
  rw [h.screen_eq, if_pos rfl, Screen.isUsed_setRow, Screen.isUsed_markUsed _ start.cursorRow.isLt]

/-- The row of the cursor reads as the line, and other rows read as before. -/
theorem rowText_writing (r : Nat) :
    (c.screen start.writing).rowText r =
      if r = start.cursorRow then line else (start.screen start.writing).rowText r := by
  rw [h.screen_eq, if_pos rfl, Screen.rowText, Screen.row_setRow _ start.cursorRow.isLt]
  split
  · exact Row.text_of_prefix h.nul_not_mem h.ended_prefix
  · rw [Screen.row_markUsed, Screen.rowText]

end Ended

end ClosedCaptions.Context
