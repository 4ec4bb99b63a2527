import ClosedCaptions.Caption.Context
import ClosedCaptions.Proofs.Caption.Context
import ClosedCaptions.Proofs.Related

/-!
# Contexts alike

Two contexts that differ in the cells of their screens alone, cell by cell in some relation that
holds of equal cells. No byte pair looks into a cell, other than to reap a screen, so whatever is
sent to both leaves them alike.
-/

namespace ClosedCaptions

/-- Cell by cell in the relation. -/
def Row.Alike (R : Cell → Cell → Prop) (a b : Row) : Prop :=
  ∀ i (h : i < screenColumns + 1), R a[i] b[i]

variable {R : Cell → Cell → Prop}

namespace Row.Alike

theorem refl (hR : ∀ cell, R cell cell) (row : Row) : Row.Alike R row row :=
  fun _ _ ↦ hR _

theorem set {a b : Row} (h : Row.Alike R a b) (column : Nat) {x y : Cell} (hcell : R x y) :
    Row.Alike R (a.setIfInBounds column x) (b.setIfInBounds column y) := by
  intro i hi
  rw [Vector.getElem_setIfInBounds, Vector.getElem_setIfInBounds]
  split
  · exact hcell
  · exact h i hi

end Row.Alike

/-- The same rows are in use, and all rows are alike. -/
structure Screen.Alike (R : Cell → Cell → Prop) (s t : Screen) : Prop where
  used_eq : s.used = t.used
  rows : ∀ r (h : r < screenRows), Row.Alike R s.rows[r] t.rows[r]

namespace Screen.Alike

variable {s t : Screen}

theorem row (hR : ∀ cell, R cell cell) (h : s.Alike R t) (r : Nat) :
    Row.Alike R (s.row r) (t.row r) := by
  unfold Screen.row
  by_cases hr : r < screenRows
  · rw [Vector.getElem?_eq_getElem hr, Vector.getElem?_eq_getElem hr]
    exact h.rows r hr
  · have hle := Nat.le_of_not_lt hr
    rw [Vector.getElem?_eq_none hle, Vector.getElem?_eq_none hle]
    exact Row.Alike.refl hR _

theorem isUsed_eq (h : s.Alike R t) (r : Nat) : s.isUsed r = t.isUsed r := by
  rw [isUsed, isUsed, h.used_eq]

theorem usedRows_eq (h : s.Alike R t) : s.usedRows = t.usedRows := by
  have hused : s.isUsed = t.isUsed := funext h.isUsed_eq
  rw [usedRows, usedRows, hused]

theorem setRow (h : s.Alike R t) (r : Nat) {a b : Row} (hrow : Row.Alike R a b) :
    (s.setRow r a).Alike R (t.setRow r b) where
  used_eq := h.used_eq
  rows i hi := by
    unfold Screen.setRow
    dsimp only
    rw [Vector.getElem_setIfInBounds, Vector.getElem_setIfInBounds]
    split
    · exact hrow
    · exact h.rows i hi

theorem markUsed (h : s.Alike R t) (r : Nat) : (s.markUsed r).Alike R (t.markUsed r) := by
  unfold Screen.markUsed
  split
  · exact ⟨congrArg (RowSet.insert · r) h.used_eq, h.rows⟩
  · exact h

theorem markUnused (h : s.Alike R t) (r : Nat) : (s.markUnused r).Alike R (t.markUnused r) := by
  unfold Screen.markUnused
  split
  · exact ⟨congrArg (RowSet.erase · r) h.used_eq, h.rows⟩
  · exact h

theorem clear (h : s.Alike R t) : s.clear.Alike R t.clear :=
  ⟨rfl, h.rows⟩

theorem pullUp (hR : ∀ cell, R cell cell) (h : s.Alike R t) (r : Nat) :
    (s.pullUp r).Alike R (t.pullUp r) := by
  have hcopied : (s.copyRow (r + 1) r).Alike R (t.copyRow (r + 1) r) :=
    h.setRow r (h.row hR (r + 1))
  unfold Screen.pullUp
  dsimp only
  rw [hcopied.isUsed_eq]
  split
  · exact hcopied.markUsed r
  · exact hcopied

theorem foldl {f : Screen → Nat → Screen}
    (hf : ∀ s t r, s.Alike R t → (f s r).Alike R (f t r)) (h : s.Alike R t) (rows : List Nat) :
    (rows.foldl f s).Alike R (rows.foldl f t) := by
  induction rows generalizing s t with
  | nil => exact h
  | cons r rows ih => exact ih (hf s t r h)

theorem rollUp (hR : ∀ cell, R cell cell) (h : s.Alike R t) (bottom depth : Nat) :
    (s.rollUp bottom depth).Alike R (t.rollUp bottom depth) := by
  have hcleared := h.foldl (fun _ _ r h ↦ h.markUnused r)
    (List.range (bottom - (window bottom depth).length))
  unfold Screen.rollUp
  dsimp only
  rw [hcleared.used_eq]
  apply markUnused
  split
  · exact hcleared
  · exact hcleared.foldl (fun _ _ r h ↦ h.pullUp hR r) _

end Screen.Alike

namespace Context

open Procedure

/-- The contexts differ in the cells of their screens, which are alike, and in what was reaped. -/
def Alike (R : Cell → Cell → Prop) (c d : Context) : Prop :=
  ∃ screens buffer, d = { c with screens := screens, buffer := buffer } ∧
    ∀ i, (c.screen i).Alike R (d.screen i)

variable {c d : Context} {α β : Type}

theorem Alike.screen (h : c.Alike R d) (i : Fin 2) : (c.screen i).Alike R (d.screen i) := by
  obtain ⟨screens, buffer, rfl, hscreens⟩ := h
  exact hscreens i

theorem Alike.modifyScreen (h : c.Alike R d) (i : Fin 2) {f g : Screen → Screen}
    (hf : (f (c.screen i)).Alike R (g (d.screen i))) :
    (c.modifyScreen i f).Alike R (d.modifyScreen i g) := by
  obtain ⟨screens, buffer, rfl, hscreens⟩ := h
  refine ⟨screens.set i (g screens[i]), buffer, rfl, ?_⟩
  intro j
  rw [screen_modifyScreen, screen_modifyScreen]
  split
  · exact hf
  · exact hscreens j

theorem Alike.markCursorRow (h : c.Alike R d) : c.markCursorRow.Alike R d.markCursorRow := by
  obtain ⟨screens, buffer, rfl, hscreens⟩ := h
  have hscreen := (hscreens c.writing).markUsed c.cursorRow
  exact Alike.modifyScreen ⟨screens, buffer, rfl, hscreens⟩ c.writing hscreen

theorem Alike.rollUp (hR : ∀ cell, R cell cell) (h : c.Alike R d) : c.rollUp.Alike R d.rollUp := by
  obtain ⟨screens, buffer, rfl, hscreens⟩ := h
  unfold Context.rollUp
  dsimp only
  split
  · exact ⟨screens, buffer, rfl, hscreens⟩
  · exact Alike.modifyScreen ⟨screens, buffer, rfl, hscreens⟩ c.writing
      ((hscreens c.writing).rollUp hR _ _)

theorem Alike.reap (h : c.Alike R d) : c.reap.Alike R d.reap := by
  obtain ⟨screens, buffer, rfl, hscreens⟩ := h
  exact ⟨screens, _, rfl, hscreens⟩

/-- A change that has nothing to do with the screens. -/
theorem Alike.change {f : Context → Context} (h : c.Alike R d)
    (hf : ∀ c screens buffer, f { c with screens := screens, buffer := buffer } =
      { f c with screens := screens, buffer := buffer }) : (f c).Alike R (f d) := by
  obtain ⟨screens, buffer, rfl, hscreens⟩ := h
  have hkept : f c = { f c with screens := c.screens, buffer := c.buffer } :=
    hf c c.screens c.buffer
  have hsame : (f c).screens = c.screens := by rw [hkept]
  refine ⟨screens, buffer, hf c screens buffer, ?_⟩
  intro i
  have hscreen : (f c).screen i = c.screen i := by
    rw [Context.screen, hsame]
    rfl
  rw [hscreen, hf c screens buffer]
  exact hscreens i

/-! ## Rules -/

/-- From contexts alike the procedure goes the same way, and leaves contexts alike. -/
def Parametric (R : Cell → Cell → Prop) (p : Procedure Context α) : Prop :=
  ∀ c d, c.Alike R d → Related (Keeps (Alike R)) (Alike R) p p c d

theorem parametric_pure (a : α) : Parametric R (pure a) :=
  fun _ _ h ↦ related_pure ⟨rfl, h⟩

theorem parametric_log (entry : Entry) : Parametric R (log entry) :=
  fun _ _ h ↦ related_modify (f := id) (g := id) ⟨rfl, h⟩

theorem parametric_modify {f : Context → Context}
    (h : ∀ c d, c.Alike R d → (f c).Alike R (f d)) : Parametric R (modify f) :=
  fun c d hcd ↦ related_modify ⟨rfl, h c d hcd⟩

theorem parametric_change {f : Context → Context}
    (hf : ∀ c screens buffer, f { c with screens := screens, buffer := buffer } =
      { f c with screens := screens, buffer := buffer }) : Parametric R (modify f) :=
  parametric_modify fun _ _ h ↦ h.change hf

theorem Parametric.bind {p : Procedure Context α} {f : α → Procedure Context β}
    (hp : Parametric R p) (hf : ∀ a, Parametric R (f a)) : Parametric R (p >>= f) := by
  intro c d h
  apply related_bind (hp c d h)
  rintro a c' _ d' ⟨rfl, hkept⟩
  exact hf a c' d' hkept

theorem parametric_remember (first second : UInt8) : Parametric R (remember first second) :=
  parametric_change fun _ _ _ ↦ rfl

/-! ## Pairs -/

variable (hR : ∀ cell, R cell cell)
include hR

theorem parametric_writeChar (char : UInt8) : Parametric R (writeChar char) := by
  intro c d h
  obtain ⟨screens, buffer, rfl, hscreens⟩ := h
  have halike : c.Alike R { c with screens := screens, buffer := buffer } :=
    ⟨screens, buffer, rfl, hscreens⟩
  unfold writeChar
  apply related_get_bind
  unfold Screen.write
  dsimp only
  by_cases hcell : c.cursorColumn < screenColumns ∨ c.cursorColumn = screenColumns ∧ char = 0
  · rw [if_pos hcell, if_pos hcell]
    have hrow := ((hscreens c.writing).row hR c.cursorRow).set c.cursorColumn
      (hR ⟨char, c.color, c.font⟩)
    apply related_modify_bind
    exact related_pure ⟨rfl, halike.modifyScreen c.writing ((hscreens c.writing).setRow _ hrow)⟩
  · rw [if_neg hcell, if_neg hcell]
    dsimp only
    unfold tolerate
    split
    · exact related_fail _ halike
    · exact related_pure ⟨rfl, halike⟩

theorem parametric_putChar (char : UInt8) : Parametric R (putChar char) := by
  unfold putChar
  apply (parametric_writeChar hR char).bind
  intro written
  split
  · exact parametric_change fun _ _ _ ↦ rfl
  · exact parametric_pure ()

theorem parametric_putSpaces (count : Nat) : Parametric R (putSpaces count) := by
  induction count with
  | zero => exact parametric_pure ()
  | succ count ih => exact (parametric_putChar hR 0x20).bind fun _ ↦ ih

theorem parametric_endRow : Parametric R endRow :=
  (parametric_writeChar hR 0).bind fun _ ↦ parametric_pure ()

theorem parametric_applyPreamble (row : Option (Fin screenRows)) (style : Style) :
    Parametric R (applyPreamble row style) := by
  unfold applyPreamble
  match row with
  | none => exact parametric_log _
  | some row =>
    apply Parametric.bind
    · exact parametric_change fun _ _ _ ↦ rfl
    · exact fun _ ↦ parametric_putSpaces hR _

theorem parametric_applyMidRow (style : Style) : Parametric R (applyMidRow style) := by
  unfold applyMidRow
  apply Parametric.bind
  · exact parametric_change fun _ _ _ ↦ rfl
  intro _
  apply (parametric_modify fun c d h ↦ h.markCursorRow).bind
  exact fun _ ↦ parametric_putChar hR 0x20

theorem parametric_finishCharacters (first second : UInt8) :
    Parametric R (finishCharacters first second) := by
  apply (parametric_endRow hR).bind
  intro _
  apply Parametric.bind
  · exact parametric_change fun _ _ _ ↦ rfl
  · exact fun _ ↦ parametric_log _

theorem parametric_applyCharacters (first second : UInt8) :
    Parametric R (applyCharacters first second) := by
  have hfinish := parametric_finishCharacters hR first second
  rw [applyCharacters_eq]
  apply (parametric_modify fun c d h ↦ h.markCursorRow).bind
  intro _
  apply (parametric_putChar hR first).bind
  intro _
  split
  · exact (parametric_putChar hR second).bind fun _ ↦ hfinish
  · exact hfinish

theorem parametric_applyControl (control : Control) : Parametric R (applyControl control) := by
  cases control with
  | resumeLoading | rollUp | resumeDirect | resumeText => exact parametric_change fun _ _ _ ↦ rfl
  | deleteToEndOfRow => exact parametric_endRow hR
  | eraseDisplayed =>
    apply parametric_modify
    rintro c _ ⟨screens, buffer, rfl, hscreens⟩
    exact Alike.modifyScreen ⟨screens, buffer, rfl, hscreens⟩ c.active (hscreens c.active).clear
  | eraseHidden =>
    apply parametric_modify
    rintro c _ ⟨screens, buffer, rfl, hscreens⟩
    exact Alike.modifyScreen ⟨screens, buffer, rfl, hscreens⟩ c.hidden (hscreens c.hidden).clear
  | carriageReturn =>
    apply (parametric_log _).bind
    intro _
    apply parametric_modify
    intro c d h
    exact (h.reap.rollUp hR).change (f := fun c ↦ { c with cursorColumn := 0 }) fun _ _ _ ↦ rfl
  | endOfCaption =>
    apply (parametric_log _).bind
    intro _
    apply parametric_modify
    intro c d h
    exact (h.change (f := fun c ↦ { c with active := c.hidden, cursorColumn := 0 })
      fun _ _ _ ↦ rfl).reap

/-- Whatever a pair asks for, contexts alike stay alike, and fail alike. -/
theorem parametric_processPair (first second : UInt8) :
    Parametric R (processPair first second) := by
  rintro c _ ⟨screens, buffer, rfl, hscreens⟩
  have halike : c.Alike R { c with screens := screens, buffer := buffer } :=
    ⟨screens, buffer, rfl, hscreens⟩
  have happly (code : Code) : Parametric R (apply first second code) := by
    cases code with
    | preamble row style =>
      exact (parametric_applyPreamble hR row style).bind fun _ ↦ parametric_remember first second
    | midRow style =>
      exact (parametric_applyMidRow hR style).bind fun _ ↦ parametric_remember first second
    | control control =>
      exact (parametric_applyControl hR control).bind fun _ ↦ parametric_remember first second
    | tabOffset => exact parametric_remember first second
    | characters first second => exact parametric_applyCharacters hR first second
    | unknown first second =>
      exact (parametric_log _).bind fun _ ↦ parametric_remember first second
  unfold processPair
  apply related_get_bind
  dsimp only
  split
  · exact related_pure ⟨rfl, halike⟩
  · exact happly _ c _ halike

end Context

end ClosedCaptions
