import ClosedCaptions.Proofs.Caption.Context

/-!
# Writing

Everything but a control code moves the cursor, sets the style and writes to one screen. Whatever
looks at none of these stays as it is, also where writing fails half way. Only what succeeds counts
as the previous command, or clears it.
-/

namespace ClosedCaptions

/-- What counts as the previous command once a pair of this code was applied. -/
def Code.remembered (first second : UInt8) : Code → UInt8 × UInt8
  | .characters _ _ => (0, 0)
  | .unknown first second => (first, second)
  | .preamble _ _ | .midRow _ | .control _ | .tabOffset => (first, second)

/-- What is remembered of anything but a control code is no control code. -/
theorem Code.ofPair_remembered_ne_control {code : Code} {first second : UInt8}
    (hcode : ofPair first second = code) (hcontrol : ∀ control, code ≠ .control control)
    (control : Control) :
    ofPair (code.remembered first second).1 (code.remembered first second).2 ≠
      .control control := by
  have hsame : ofPair first second ≠ .control control := hcode ▸ hcontrol control
  cases code with
  | characters first second => exact fun h ↦ nomatch h
  | unknown first' second' =>
    obtain ⟨rfl, rfl⟩ := eq_of_ofPair_eq_unknown hcode
    exact hsame
  | preamble | midRow | control | tabOffset => exact hsame

namespace Context

open Procedure

variable {ν : Type} {view : Context → ν}

/-- The view shows neither the cursor nor the style, and nothing of the screen that is written
to. -/
structure IgnoresWriting (view : Context → ν) : Prop where
  cursor : ∀ c row column color font, view { c with
    cursorRow := row, cursorColumn := column, color := color, font := font } = view c
  screen : ∀ c f, view (c.modifyScreen c.writing f) = view c

namespace IgnoresWriting

theorem preserves_writeChar (h : IgnoresWriting view) (char : UInt8) :
    Preserves view (writeChar char) := by
  intro before
  unfold writeChar
  apply ensures_get_bind
  intro c hc
  split
  · rw [effect_modify_bind, effect_pure]
    exact (h.screen c _).trans hc
  · unfold tolerate
    split
    · exact hc
    · exact hc

theorem preserves_putChar (h : IgnoresWriting view) (char : UInt8) :
    Preserves view (putChar char) := by
  unfold putChar
  apply (h.preserves_writeChar char).bind
  intro written
  split
  · exact preserves_modify fun c ↦ h.cursor c _ _ _ _
  · exact preserves_pure ()

theorem preserves_putSpaces (h : IgnoresWriting view) (count : Nat) :
    Preserves view (putSpaces count) := by
  induction count with
  | zero => exact preserves_pure ()
  | succ count ih => exact (h.preserves_putChar 0x20).bind fun _ ↦ ih

theorem preserves_endRow (h : IgnoresWriting view) : Preserves view endRow :=
  (h.preserves_writeChar 0).bind fun _ ↦ preserves_pure ()

theorem preserves_markCursorRow (h : IgnoresWriting view) :
    Preserves view (modify markCursorRow) :=
  preserves_modify fun c ↦ h.screen c _

theorem preserves_applyPreamble (h : IgnoresWriting view) (row : Option (Fin screenRows))
    (style : Style) : Preserves view (applyPreamble row style) := by
  unfold applyPreamble
  match row with
  | none => exact preserves_log _
  | some row =>
    apply preserves_modify_bind
    · exact fun c ↦ h.cursor c _ _ _ _
    · exact h.preserves_putSpaces _

theorem preserves_applyMidRow (h : IgnoresWriting view) (style : Style) :
    Preserves view (applyMidRow style) := by
  unfold applyMidRow
  apply preserves_modify_bind
  · exact fun c ↦ h.cursor c _ _ _ _
  apply h.preserves_markCursorRow.bind
  intro _
  exact h.preserves_putChar 0x20

/-! ## Codes -/

/-- What is written and then remembered. -/
theorem ensures_bind_previous {p : Procedure Context Unit} (hp : Preserves view p)
    (pair : UInt8 × UInt8) (before : ν) :
    Ensures (fun c ↦ view c = before) (p >>= fun _ ↦ modify fun c ↦ { c with previous := pair })
      (fun _ c ↦ ∃ d, view d = before ∧ c = { d with previous := pair })
      fun c ↦ view c = before :=
  (hp before).bind fun _ ↦ ensures_modify fun d hd ↦ ⟨d, hd, rfl⟩

theorem ensures_finishCharacters (h : IgnoresWriting view) (first second : UInt8) (before : ν) :
    Ensures (fun c ↦ view c = before) (finishCharacters first second)
      (fun _ c ↦ ∃ d, view d = before ∧ c = { d with previous := (0, 0) })
      fun c ↦ view c = before := by
  have hended := ensures_bind_previous h.preserves_endRow (0, 0) before
  unfold finishCharacters
  rw [← bind_assoc]
  exact hended.bind fun _ ↦ ensures_log fun _ hc ↦ hc

theorem ensures_applyCharacters (h : IgnoresWriting view) (first second : UInt8) (before : ν) :
    Ensures (fun c ↦ view c = before) (applyCharacters first second)
      (fun _ c ↦ ∃ d, view d = before ∧ c = { d with previous := (0, 0) })
      fun c ↦ view c = before := by
  have hfinish := h.ensures_finishCharacters first second before
  rw [applyCharacters_eq]
  apply (h.preserves_markCursorRow before).bind
  intro _
  apply (h.preserves_putChar first before).bind
  intro _
  split
  · exact (h.preserves_putChar second before).bind fun _ ↦ hfinish
  · exact hfinish

/-- Everything but a control code writes, and then sets the previous command. -/
theorem ensures_apply (h : IgnoresWriting view) (first second : UInt8) {code : Code}
    (hcode : ∀ control, code ≠ .control control) (before : ν) :
    Ensures (fun c ↦ view c = before) (apply first second code)
      (fun _ c ↦ ∃ d, view d = before ∧ c = { d with previous := code.remembered first second })
      fun c ↦ view c = before := by
  cases code with
  | preamble row style =>
    exact ensures_bind_previous (h.preserves_applyPreamble row style) (first, second) before
  | midRow style =>
    exact ensures_bind_previous (h.preserves_applyMidRow style) (first, second) before
  | control control => exact absurd rfl (hcode control)
  | tabOffset => exact ensures_modify fun d hd ↦ ⟨d, hd, rfl⟩
  | characters first second => exact h.ensures_applyCharacters first second before
  | unknown first second =>
    have hlog : Preserves view (log (.unknownCommand first second)) := preserves_log _
    exact ensures_bind_previous hlog (first, second) before

/-- A pair that is applied is a control code, or writes and then sets the previous command. -/
theorem ensures_apply_ofPair (h : IgnoresWriting view) {before : Context} {first second : UInt8}
    {Q E : Context → Prop}
    (hwritten : (∀ control, Code.ofPair first second ≠ .control control) →
      ∀ d, view d = view before →
        E d ∧ Q { d with previous := (Code.ofPair first second).remembered first second })
    (hcontrol : ∀ control, Code.ofPair first second = .control control →
      Ensures (· = before) (applyControl control)
        (fun _ d ↦ Q { d with previous := (first, second) }) E) :
    Ensures (· = before) (apply first second (Code.ofPair first second)) (fun _ ↦ Q) E := by
  rintro c rfl
  by_cases hcode : ∀ control, Code.ofPair first second ≠ .control control
  · refine (h.ensures_apply first second hcode (view c)).mono (fun _ hd ↦ hd) ?_ ?_ c rfl
    · rintro _ _ ⟨d, hd, rfl⟩
      exact (hwritten hcode d hd).2
    · exact fun d hd ↦ (hwritten hcode d hd).1
  · obtain ⟨control, hcode⟩ := not_forall_not.mp hcode
    have happly := (hcontrol control hcode).bind fun _ ↦
      ensures_modify (f := fun d ↦ { d with previous := (first, second) })
        (Q := fun _ ↦ Q) fun _ hd ↦ hd
    rw [hcode]
    exact happly c rfl

end IgnoresWriting

end Context

end ClosedCaptions
