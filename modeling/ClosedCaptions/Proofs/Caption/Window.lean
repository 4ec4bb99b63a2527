import ClosedCaptions.Proofs.Caption.DoubleBuffer
import ClosedCaptions.Proofs.Caption.Scroll
import Mathlib.Data.List.Perm.Subperm

/-!
# The roll-up window

What a scroll leaves on the writing screen. In the window each row takes the cells of the row below
and comes into use with it, but a row in use stays in use even if the row below was not, and so does
the row right above the window. The window therefore scrolls as a whole, with nothing else left
above it, exactly when that row is unused and the used rows of the window reach down to the cursor
without a gap.
-/

namespace ClosedCaptions

namespace Screen

/-- The rows of the window that are above the row `bottom`. -/
def AboveBottom (bottom depth r : Nat) : Prop :=
  bottom < r + min (bottom + 1) depth ∧ r < bottom

/-- Each row of the window above the row `bottom` takes the row below it, with its use, and the rows
above the window and the row `bottom` go out of use. -/
structure Scrolls (s t : Screen) (bottom depth : Nat) : Prop where
  isUsed_above : ∀ r, r + min (bottom + 1) depth ≤ bottom → t.isUsed r = false
  isUsed_window : ∀ r, AboveBottom bottom depth r → t.isUsed r = s.isUsed (r + 1)
  row_window : ∀ r, AboveBottom bottom depth r → t.isUsed r = true → t.row r = s.row (r + 1)
  isUsed_bottom : t.isUsed bottom = false
  isUsed_below : ∀ r, bottom < r → t.isUsed r = s.isUsed r
  row_below : ∀ r, bottom < r → t.row r = s.row r

/-- The row right above the window is unused, and above the row `bottom` each row in use has one
below it. -/
structure Gapless (s : Screen) (bottom depth : Nat) : Prop where
  isUsed_edge : ∀ r, r + min (bottom + 1) depth = bottom → s.isUsed r = false
  isUsed_next : ∀ r, AboveBottom bottom depth r → s.isUsed r = true → s.isUsed (r + 1) = true

/-- What a scroll leaves: no row but the row `bottom` goes out of use in the window, and neither
does the row right above it. -/
structure ScrollsInUse (s t : Screen) (bottom depth : Nat) : Prop where
  isUsed_above : ∀ r, r + min (bottom + 1) depth < bottom → t.isUsed r = false
  isUsed_edge : ∀ r, r + min (bottom + 1) depth = bottom → t.isUsed r = s.isUsed r
  row_edge : ∀ r, r + min (bottom + 1) depth = bottom → t.row r = s.row r
  isUsed_window : ∀ r, AboveBottom bottom depth r → t.isUsed r = (s.isUsed r || s.isUsed (r + 1))
  row_window : ∀ r, AboveBottom bottom depth r → t.isUsed r = true → t.row r = s.row (r + 1)
  isUsed_bottom : t.isUsed bottom = false
  isUsed_below : ∀ r, bottom < r → t.isUsed r = s.isUsed r
  row_below : ∀ r, bottom < r → t.row r = s.row r

variable {s t : Screen} {bottom depth : Nat}

theorem row_rollUp_of_not_mem {r : Nat} (hbottom : bottom < screenRows)
    (hr : r ∉ window bottom depth) : (s.rollUp bottom depth).row r = s.row r := by
  rw [rollUp_eq, row_markUnused]
  by_cases hused : (s.unusedAbove bottom depth).used = 0
  · rw [pulledUp, if_pos hused, row_unusedAbove]
  · rw [row_pulledUp _ hbottom hused, if_neg hr, row_unusedAbove]

theorem scrollsInUse_rollUp (s : Screen) (hbottom : bottom < screenRows) (hdepth : 1 ≤ depth) :
    s.ScrollsInUse (s.rollUp bottom depth) bottom depth := by
  have hused (r : Nat) : (s.rollUp bottom depth).isUsed r = true ↔ _ := s.isUsed_rollUp hbottom r
  constructor
  · intro r hr
    rw [Bool.eq_false_iff, ne_eq, hused]
    grind
  · intro r hr
    rw [Bool.eq_iff_iff, hused]
    grind
  · intro r hr
    apply row_rollUp_of_not_mem hbottom
    rw [mem_window]
    omega
  · intro r ⟨habove, hr⟩
    rw [Bool.eq_iff_iff, hused, Bool.or_eq_true]
    grind
  · intro r ⟨habove, hr⟩ hin
    have hwindow : r ∈ window bottom depth := mem_window.mpr ⟨habove, Nat.le_of_lt hr⟩
    rw [s.row_rollUp hbottom hin, if_pos hwindow]
  · rw [Bool.eq_false_iff, ne_eq, hused]
    simp
  · intro r hr
    rw [Bool.eq_iff_iff, hused]
    grind
  · intro r hr
    apply row_rollUp_of_not_mem hbottom
    rw [mem_window]
    omega

/-- The window scrolls as a whole exactly when nothing in it or right above it is left behind. -/
theorem ScrollsInUse.scrolls_iff (h : s.ScrollsInUse t bottom depth) :
    s.Scrolls t bottom depth ↔ s.Gapless bottom depth := by
  constructor
  · intro hscrolls
    constructor
    · intro r hr
      rw [← h.isUsed_edge r hr]
      exact hscrolls.isUsed_above r (Nat.le_of_eq hr)
    · intro r hr hin
      rw [← hscrolls.isUsed_window r hr, h.isUsed_window r hr, hin, Bool.true_or]
  · intro hgapless
    constructor
    · intro r hr
      rcases Nat.lt_or_eq_of_le hr with hlt | heq
      · exact h.isUsed_above r hlt
      · rw [h.isUsed_edge r heq]
        exact hgapless.isUsed_edge r heq
    · intro r hr
      rw [h.isUsed_window r hr, Bool.or_eq_right_iff_imp]
      exact hgapless.isUsed_next r hr
    · exact h.row_window
    · exact h.isUsed_bottom
    · exact h.isUsed_below
    · exact h.row_below

/-- The rows in use down to the row `bottom`. -/
def usedDownTo (s : Screen) (bottom : Nat) : List Nat :=
  s.usedRows.filter (· ≤ bottom)

theorem length_usedDownTo_le (top : Nat) {count : Nat}
    (h : ∀ r ≤ bottom, s.isUsed r = true → top ≤ r ∧ r < top + count) :
    (s.usedDownTo bottom).length ≤ count := by
  have hnodup : (s.usedDownTo bottom).Nodup :=
    (s.pairwise_usedRows.imp Nat.ne_of_lt).filter _
  have hsubset : s.usedDownTo bottom ⊆ List.range' top count := by
    intro r hr
    obtain ⟨hused, hle⟩ := List.mem_filter.mp hr
    rw [List.mem_range'_1]
    exact h r (of_decide_eq_true hle) (s.mem_usedRows.mp hused)
  have hlength := (hnodup.subperm hsubset).length_le
  rwa [List.length_range'] at hlength

/-- A row more than the window has room for is left at most, and none if the row above the window
was unused. -/
theorem ScrollsInUse.length_usedDownTo_le (h : s.ScrollsInUse t bottom depth) :
    (t.usedDownTo bottom).length ≤ depth ∧
      ((∀ r, r + min (bottom + 1) depth = bottom → s.isUsed r = false) →
        (t.usedDownTo bottom).length ≤ depth - 1) := by
  have hlow {r : Nat} (hr : r ≤ bottom) (hin : t.isUsed r = true) :
      bottom ≤ r + min (bottom + 1) depth ∧ r < bottom := by
    constructor
    · by_contra hlt
      rw [h.isUsed_above r (Nat.not_le.mp hlt)] at hin
      contradiction
    · apply Nat.lt_of_le_of_ne hr
      rintro rfl
      rw [h.isUsed_bottom] at hin
      contradiction
  constructor
  · apply Screen.length_usedDownTo_le (bottom - depth)
    intro r hr hin
    have hrow := hlow hr hin
    omega
  · intro hedge
    apply Screen.length_usedDownTo_le (bottom - (depth - 1))
    intro r hr hin
    have hrow := hlow hr hin
    have hne : r + min (bottom + 1) depth ≠ bottom := by
      intro heq
      rw [h.isUsed_edge r heq, hedge r heq] at hin
      contradiction
    omega

end Screen

namespace Context

open Screen

/-- A scroll outside text mode changes the writing screen alone, and there the rows down to the
cursor. The rows above the window go out of use but for the one right above it, a row of the window
takes the row below and is in use if either of the two was, and the row of the cursor goes out of
use. So the window scrolls as a whole exactly when the row above it is unused and its used rows have
no gap. No more rows than its depth stay on display, and one less if the row above it is unused. -/
theorem rollUp_scrollsInUse (c : Context) (hmode : c.mode ≠ .text) (hdepth : 1 ≤ c.rollup) :
    let s := c.screen c.writing
    let t := c.rollUp.screen c.writing
    s.ScrollsInUse t c.cursorRow c.rollup ∧
      (s.Scrolls t c.cursorRow c.rollup ↔ s.Gapless c.cursorRow c.rollup) ∧
      c.rollUp = { c with screens := c.rollUp.screens } ∧
      c.rollUp.screen c.spare = c.screen c.spare ∧
      (t.usedDownTo c.cursorRow).length ≤ c.rollup ∧
      ((∀ r, r + min (c.cursorRow.val + 1) c.rollup = c.cursorRow.val → s.isUsed r = false) →
        (t.usedDownTo c.cursorRow).length ≤ c.rollup - 1) := by
  intro s t
  have ht : t = s.rollUp c.cursorRow c.rollup := by
    change c.rollUp.screen c.writing = _
    rw [Context.rollUp, if_neg hmode, screen_modifyScreen, if_pos rfl]
  have hscrolls : s.ScrollsInUse t c.cursorRow c.rollup := by
    rw [ht]
    exact s.scrollsInUse_rollUp c.cursorRow.isLt hdepth
  obtain ⟨hlength, hedge⟩ := hscrolls.length_usedDownTo_le
  exact ⟨hscrolls, hscrolls.scrolls_iff, rollUp_eq c, screen_rollUp_spare c, hlength, hedge⟩

/-- Three rows of one letter each, in a window of two rows. -/
def threeLetters : Context :=
  initial.afterPairs [(0x14, 0x29), (0x11, 0x40), (0x41, 0), (0x11, 0x60), (0x42, 0), (0x12, 0x40),
    (0x43, 0), (0x14, 0x25)]

/-- The last letter moves up, and the first one stays above it. -/
theorem rollUp_threeLetters :
    threeLetters.mode ≠ .text ∧ 1 ≤ threeLetters.rollup ∧
      (threeLetters.rollUp.screen 0).row 1 = (threeLetters.screen 0).row 2 ∧
      (threeLetters.screen 0).rowText 2 = [0x43] ∧
      (threeLetters.rollUp.screen 0).isUsed 0 = true := by
  have hmode : threeLetters.mode ≠ .text := by decide +kernel
  have hdepth : 1 ≤ threeLetters.rollup := by decide +kernel
  obtain ⟨hscrolls, -⟩ := rollUp_scrollsInUse threeLetters hmode hdepth
  have hwriting : threeLetters.writing = 0 := by decide +kernel
  have hrow : threeLetters.cursorRow = 2 := by decide +kernel
  have hrollup : threeLetters.rollup = 2 := by decide +kernel
  rw [hwriting, hrow, hrollup] at hscrolls
  refine ⟨hmode, hdepth, ?_, by decide +kernel, ?_⟩
  · apply hscrolls.row_window 1 ⟨by decide, by decide⟩
    decide +kernel
  · rw [hscrolls.isUsed_edge 0 (by decide)]
    decide +kernel

/-- The row above the window stays on display. -/
theorem row_above_window_stays :
    ¬ ∀ c : Context, c.mode ≠ .text → 1 ≤ c.rollup →
      (c.screen c.writing).Scrolls (c.rollUp.screen c.writing) c.cursorRow c.rollup := by
  intro h
  have hscrolls := h threeLetters (by decide +kernel) (by decide +kernel)
  have habove := hscrolls.isUsed_above 0 (by decide +kernel)
  revert habove
  decide +kernel

end Context

end ClosedCaptions
