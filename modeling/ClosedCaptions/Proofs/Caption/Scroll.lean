import ClosedCaptions.Caption.Context
import ClosedCaptions.Proofs.Caption.Rows
import Mathlib.Data.List.DropRight

/-!
# Scrolling

What scrolling leaves in each row. The rows are copied in place from the top of the window to its
bottom, so each takes the row below it as that was before the scroll. A block of lines that ends in
the bottom row of the window moves up by one row, and loses its first line if it fills the window.
-/

namespace ClosedCaptions.Screen

variable (s : Screen) {r bottom depth : Nat}

/-! ## Rows one after the other -/

theorem isUsed_foldl_markUnused (rows : List Nat) (i : Nat) :
    (rows.foldl markUnused s).isUsed i = (s.isUsed i && decide (i ∉ rows)) := by
  induction rows generalizing s with
  | nil => simp
  | cons r rows ih =>
    rw [List.foldl_cons, ih, isUsed_markUnused, Bool.and_assoc]
    simp [not_or]

theorem row_foldl_markUnused (rows : List Nat) (i : Nat) :
    (rows.foldl markUnused s).row i = s.row i := by
  induction rows generalizing s with
  | nil => rfl
  | cons r rows ih => rw [List.foldl_cons, ih, row_markUnused]

theorem row_pullUp (hr : r < screenRows) (i : Nat) :
    (s.pullUp r).row i = if i = r then s.row (r + 1) else s.row i := by
  unfold pullUp
  dsimp only
  split
  · rw [row_markUsed, copyRow, row_setRow _ hr]
  · rw [copyRow, row_setRow _ hr]

/-- A row in use stays in use, whatever it takes. -/
theorem isUsed_pullUp (hr : r < screenRows) (i : Nat) :
    (s.pullUp r).isUsed i = (s.isUsed i || (decide (i = r) && s.isUsed (r + 1))) := by
  unfold pullUp
  dsimp only
  have hcopied (i : Nat) : (s.copyRow (r + 1) r).isUsed i = s.isUsed i := rfl
  split
  · next hbelow =>
    rw [hcopied] at hbelow
    rw [isUsed_markUsed _ hr, hcopied, hbelow, Bool.and_true]
  · next hbelow =>
    rw [hcopied] at hbelow
    rw [hcopied, Bool.eq_false_iff.mpr hbelow, Bool.and_false, Bool.or_false]

/-- Rows pulled up from the top of a block on take the rows below as they were. -/
theorem row_foldl_pullUp (top : Nat) {count : Nat} (h : top + count ≤ screenRows) (i : Nat) :
    ((List.range' top count).foldl pullUp s).row i =
      if i ∈ List.range' top count then s.row (i + 1) else s.row i := by
  induction count generalizing i with
  | zero => rfl
  | succ count ih =>
    have hlast : top + count < screenRows := by omega
    have hbelow : top + count + 1 ∉ List.range' top count := by
      rw [List.mem_range'_1]
      omega
    rw [List.range'_1_concat, List.foldl_concat, row_pullUp _ hlast, ih (Nat.le_of_lt hlast),
      ih (Nat.le_of_lt hlast), if_neg hbelow]
    by_cases hi : i = top + count
    · simp [hi]
    · simp [hi]

theorem isUsed_foldl_pullUp (top : Nat) {count : Nat} (h : top + count ≤ screenRows) (i : Nat) :
    ((List.range' top count).foldl pullUp s).isUsed i =
      (s.isUsed i || (decide (i ∈ List.range' top count) && s.isUsed (i + 1))) := by
  induction count generalizing i with
  | zero => simp
  | succ count ih =>
    have hlast : top + count < screenRows := by omega
    have hbelow : top + count + 1 ∉ List.range' top count := by
      rw [List.mem_range'_1]
      omega
    rw [List.range'_1_concat, List.foldl_concat, isUsed_pullUp _ hlast, ih (Nat.le_of_lt hlast),
      ih (Nat.le_of_lt hlast), decide_eq_false hbelow, Bool.false_and, Bool.or_false]
    by_cases hi : i = top + count
    · simp [hi]
    · simp [hi]

/-! ## The window -/

theorem window_eq_range' (bottom depth : Nat) :
    window bottom depth =
      List.range' (bottom + 1 - min (bottom + 1) depth) (min (bottom + 1) depth) := by
  unfold window
  dsimp only
  rw [List.range'_eq_map_range]
  apply List.map_congr_left
  intro i hi
  rw [List.mem_range] at hi
  omega

theorem mem_window {i : Nat} :
    i ∈ window bottom depth ↔ bottom < i + min (bottom + 1) depth ∧ i ≤ bottom := by
  rw [window_eq_range', List.mem_range'_1]
  omega

/-- The screen once the rows above the window are out of use. -/
def unusedAbove (s : Screen) (bottom depth : Nat) : Screen :=
  (List.range (bottom - min (bottom + 1) depth)).foldl markUnused s

theorem isUsed_unusedAbove (i : Nat) : (s.unusedAbove bottom depth).isUsed i = true ↔
    s.isUsed i = true ∧ bottom ≤ i + min (bottom + 1) depth := by
  rw [unusedAbove, isUsed_foldl_markUnused, Bool.and_eq_true, decide_eq_true_iff, List.mem_range]
  have hle : ¬ i < bottom - min (bottom + 1) depth ↔ bottom ≤ i + min (bottom + 1) depth := by omega
  rw [hle]

theorem row_unusedAbove (i : Nat) : (s.unusedAbove bottom depth).row i = s.row i :=
  s.row_foldl_markUnused _ i

theorem isUsed_eq_false_of_used (h : s.used = 0) (i : Nat) : s.isUsed i = false := by
  simp [isUsed, RowSet.contains, h]

/-- The screen once the rows of the window took the rows below. Nothing moves where no row is in
use. -/
def pulledUp (s : Screen) (bottom depth : Nat) : Screen :=
  if s.used = 0 then s else (window bottom depth).foldl pullUp s

theorem isUsed_pulledUp (hbottom : bottom < screenRows) (i : Nat) :
    (s.pulledUp bottom depth).isUsed i = true ↔
      s.isUsed i = true ∨ i ∈ window bottom depth ∧ s.isUsed (i + 1) = true := by
  unfold pulledUp
  split
  · next hempty => simp [isUsed_eq_false_of_used s hempty]
  · rw [window_eq_range', isUsed_foldl_pullUp _ _ (by omega), Bool.or_eq_true, Bool.and_eq_true,
      decide_eq_true_iff]

theorem row_pulledUp (hbottom : bottom < screenRows) (hused : s.used ≠ 0) (i : Nat) :
    (s.pulledUp bottom depth).row i =
      if i ∈ window bottom depth then s.row (i + 1) else s.row i := by
  rw [pulledUp, if_neg hused, window_eq_range', row_foldl_pullUp _ _ (by omega)]

theorem rollUp_eq (bottom depth : Nat) :
    s.rollUp bottom depth =
      ((s.unusedAbove bottom depth).pulledUp bottom depth).markUnused bottom := by
  unfold unusedAbove
  rw [← length_window]
  rfl

/-- The row `bottom` goes out of use. The rows above it down from the one above the window keep
their use, and those in the window come into use with the row below. -/
theorem isUsed_rollUp (hbottom : bottom < screenRows) (i : Nat) :
    (s.rollUp bottom depth).isUsed i = true ↔ i ≠ bottom ∧
      (s.isUsed i = true ∧ bottom ≤ i + min (bottom + 1) depth ∨
        s.isUsed (i + 1) = true ∧ bottom < i + min (bottom + 1) depth ∧ i < bottom) := by
  rw [rollUp_eq, isUsed_markUnused, Bool.and_eq_true, Bool.not_eq_true', decide_eq_false_iff_not,
    isUsed_pulledUp _ hbottom, isUsed_unusedAbove, isUsed_unusedAbove, mem_window]
  grind

/-- The rows of the window took the rows below, if there is any row in use. -/
theorem row_rollUp (hbottom : bottom < screenRows) {i : Nat}
    (hused : (s.rollUp bottom depth).isUsed i = true) :
    (s.rollUp bottom depth).row i =
      if i ∈ window bottom depth then s.row (i + 1) else s.row i := by
  have hany : (s.unusedAbove bottom depth).used ≠ 0 := by
    intro hempty
    have hnone := isUsed_eq_false_of_used _ hempty
    rw [rollUp_eq, isUsed_markUnused, Bool.and_eq_true, isUsed_pulledUp _ hbottom] at hused
    simp [hnone] at hused
  rw [rollUp_eq, row_markUnused, row_pulledUp _ hbottom hany, row_unusedAbove, row_unusedAbove]

/-! ## Blocks of lines -/

/-- The used rows are a block from `top` on, with these texts. -/
structure Shows (s : Screen) (top : Nat) (texts : List (List UInt8)) : Prop where
  isUsed : ∀ i, s.isUsed i = true ↔ top ≤ i ∧ i < top + texts.length
  rowText : ∀ i (h : i < texts.length), s.rowText (top + i) = texts[i]

variable {s} {top : Nat} {texts : List (List UInt8)}

/-- The text of a block. -/
theorem Shows.screenText_eq (h : s.Shows top texts) :
    Context.screenText s =
      String.ofList (lineBreak.intercalate (texts.map Context.trimmedText)) := by
  have hused : s.usedRows = List.range' top texts.length := by
    apply usedRows_eq _ List.pairwise_lt_range'
    intro i
    rw [h.isUsed, List.mem_range'_1]
  have htexts : (List.range' top texts.length).map s.rowText = texts := by
    apply List.ext_getElem
    · simp
    · intro i hi hi'
      simp [h.rowText i hi']
  have hlines : s.usedRows.map (fun r ↦ Context.trimmedText (s.rowText r)) =
      texts.map Context.trimmedText := by
    rw [hused, ← htexts, List.map_map, htexts]
    rfl
  rw [Context.screenText, hlines]

theorem shows_nil (h : ∀ i, s.isUsed i = false) (top : Nat) : s.Shows top [] where
  isUsed i := by simp [h i]
  rowText i hi := absurd hi (Nat.not_lt_zero i)

/-- A line in the row below a block joins it. -/
theorem Shows.concat (h : s.Shows (bottom - texts.length) texts) (hle : texts.length ≤ bottom)
    {t : Screen} {line : List UInt8}
    (hused : ∀ i, t.isUsed i = (s.isUsed i || decide (i = bottom)))
    (htext : ∀ i, t.rowText i = if i = bottom then line else s.rowText i) :
    t.Shows (bottom + 1 - (texts ++ [line]).length) (texts ++ [line]) := by
  have hlength : (texts ++ [line]).length = texts.length + 1 := by simp
  have htop : bottom + 1 - (texts ++ [line]).length = bottom - texts.length := by omega
  rw [htop]
  constructor
  · intro i
    rw [hused, Bool.or_eq_true, h.isUsed, decide_eq_true_iff, hlength]
    omega
  · intro i hi
    rw [htext]
    by_cases hlast : i = texts.length
    · have hrow : bottom - texts.length + i = bottom := by omega
      rw [if_pos hrow]
      simp [hlast]
    · have hlt : i < texts.length := by omega
      have hrow : bottom - texts.length + i ≠ bottom := by omega
      rw [if_neg hrow, h.rowText i hlt, List.getElem_append_left hlt]

/-- A block that ends in the bottom row moves up, and loses the line that does not fit. -/
theorem Shows.rollUp (h : s.Shows (bottom + 1 - texts.length) texts) (hbottom : bottom < screenRows)
    (hne : texts ≠ []) (hfit : texts.length ≤ min (bottom + 1) depth) :
    (s.rollUp bottom depth).Shows (bottom - (texts.rtake (min (bottom + 1) depth - 1)).length)
      (texts.rtake (min (bottom + 1) depth - 1)) := by
  have hpositive := List.length_pos_iff.mpr hne
  obtain ⟨dropped, hdropped⟩ : ∃ dropped, dropped = texts.length - (min (bottom + 1) depth - 1) :=
    ⟨_, rfl⟩
  have hrest : texts.rtake (min (bottom + 1) depth - 1) = texts.drop dropped := by
    rw [hdropped, List.rtake]
  have hused : ∀ i, (s.rollUp bottom depth).isUsed i = true ↔
      bottom - (texts.drop dropped).length ≤ i ∧
        i < bottom - (texts.drop dropped).length + (texts.drop dropped).length := by
    intro i
    rw [s.isUsed_rollUp hbottom, h.isUsed, h.isUsed, List.length_drop]
    omega
  rw [hrest]
  refine ⟨hused, ?_⟩
  intro i hi
  have hrow := s.row_rollUp hbottom ((hused _).mpr ⟨Nat.le_add_right _ i, Nat.add_lt_add_left hi _⟩)
  rw [List.length_drop] at hi
  have hwindow : bottom - (texts.length - dropped) + i ∈ window bottom depth := by
    rw [mem_window]
    omega
  have hbelow : bottom - (texts.length - dropped) + i + 1 =
      bottom + 1 - texts.length + (dropped + i) := by
    omega
  rw [Screen.rowText, hrow, List.length_drop, if_pos hwindow, hbelow, List.getElem_drop]
  exact h.rowText (dropped + i) (by omega)

end ClosedCaptions.Screen
