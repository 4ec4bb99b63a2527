import ClosedCaptions.Proofs.Caption.Screen
import Mathlib.Data.List.Infix

/-!
# Rows of a screen

Every operation on a screen told row by row: which rows it leaves in use, and which cells each row
then has. A row whose cells begin with some characters and a NUL reads as those characters.
-/

namespace ClosedCaptions

/-! ## Sets of rows -/

namespace RowSet

theorem getLsbD_bit {row : Nat} (hrow : row < 16) (r : Nat) :
    (bit row).getLsbD r = decide (r = row) := by
  unfold bit
  rw [BitVec.getLsbD_shiftLeft, BitVec.getLsbD_one]
  by_cases h : r = row
  · subst h
    simp [hrow]
  · have hne : r < row ∨ r - row ≠ 0 := by omega
    rcases hne with hlt | hpos
    · simp [h, hlt]
    · simp [h, hpos]

theorem contains_insert (rows : RowSet) {row : Nat} (hrow : row < 16) (r : Nat) :
    (rows.insert row).contains r = (rows.contains r || decide (r = row)) := by
  unfold contains insert
  rw [BitVec.getLsbD_or, getLsbD_bit hrow]

theorem contains_erase (rows : RowSet) {row : Nat} (hrow : row < 16) (r : Nat) :
    (rows.erase row).contains r = (rows.contains r && !decide (r = row)) := by
  unfold contains erase
  rw [BitVec.getLsbD_and, BitVec.getLsbD_not, getLsbD_bit hrow]
  by_cases hr : r < 16
  · simp [hr]
  · have hnone : rows.getLsbD r = false := BitVec.getLsbD_of_ge rows r (Nat.le_of_not_lt hr)
    simp [hnone]

end RowSet

/-! ## Characters of a row -/

namespace Row

variable {row : Row} {line : List UInt8}

@[simp]
theorem length_chars (row : Row) : row.chars.length = screenColumns + 1 := by
  simp [chars]

@[simp]
theorem chars_setIfInBounds (row : Row) (column : Nat) (cell : Cell) :
    Row.chars (row.setIfInBounds column cell) = row.chars.set column cell.char := by
  simp [chars, List.map_set]

/-- A character written behind the first ones. -/
theorem prefix_set {α : Type} {xs ys : List α} (h : xs <+: ys) (hlt : xs.length < ys.length)
    (a : α) : xs ++ [a] <+: ys.set xs.length a := by
  obtain ⟨rest, rfl⟩ := h
  cases rest with
  | nil => simp at hlt
  | cons b rest =>
    rw [List.set_append_right _ _ (Nat.le_refl _), Nat.sub_self, List.set_cons_zero]
    exact ⟨rest, by simp⟩

/-- The text ends at the first NUL. -/
theorem text_of_prefix (hline : 0 ∉ line) (h : line ++ [0] <+: row.chars) : row.text = line := by
  obtain ⟨rest, hrest⟩ := h
  have hpositive : ∀ byte ∈ line, (byte ≠ 0 : Bool) = true := by
    intro byte hbyte
    have hne : byte ≠ 0 := fun hzero ↦ hline (hzero ▸ hbyte)
    simp [hne]
  rw [text, ← hrest, List.append_assoc, List.takeWhile_append_of_pos hpositive]
  simp

end Row

/-! ## Operations on screens -/

namespace Screen

variable (s : Screen) {r : Nat}

theorem row_setRow (hr : r < screenRows) (row : Row) (i : Nat) :
    (s.setRow r row).row i = if i = r then row else s.row i := by
  unfold Screen.row setRow
  dsimp only
  by_cases hi : i < screenRows
  · rw [Vector.getElem?_eq_getElem hi, Vector.getElem?_eq_getElem hi,
      Vector.getElem_setIfInBounds]
    by_cases h : i = r
    · simp [h]
    · rw [if_neg h, if_neg fun heq ↦ h heq.symm]
  · have hne : i ≠ r := by omega
    have hle := Nat.le_of_not_lt hi
    rw [Vector.getElem?_eq_none hle, Vector.getElem?_eq_none hle, if_neg hne]

theorem row_eq_getElem (hr : r < screenRows) : s.row r = s.rows[r] := by
  unfold Screen.row
  rw [Vector.getElem?_eq_getElem hr]
  rfl

theorem isUsed_eq_false (hr : screenRows ≤ r) : s.isUsed r = false := by
  simp [isUsed, Nat.not_lt.mpr hr]

@[simp]
theorem isUsed_setRow (row : Row) (i : Nat) : (s.setRow r row).isUsed i = s.isUsed i := rfl

theorem isUsed_markUsed (hr : r < screenRows) (i : Nat) :
    (s.markUsed r).isUsed i = (s.isUsed i || decide (i = r)) := by
  have hbit : r < 16 := Nat.lt_trans hr (by decide)
  unfold markUsed isUsed
  rw [if_pos hr]
  dsimp only
  rw [RowSet.contains_insert _ hbit]
  by_cases h : i = r
  · simp [h, hr]
  · simp [h]

theorem isUsed_markUnused (i : Nat) :
    (s.markUnused r).isUsed i = (s.isUsed i && !decide (i = r)) := by
  unfold markUnused isUsed
  split
  · next hr =>
    have hbit : r < 16 := Nat.lt_trans hr (by decide)
    dsimp only
    rw [RowSet.contains_erase _ hbit, Bool.and_assoc]
  · next hr =>
    by_cases h : i = r
    · simp [h, hr]
    · simp [h]

@[simp]
theorem isUsed_clear (i : Nat) : s.clear.isUsed i = false := by
  simp [clear, isUsed, RowSet.contains]

@[simp]
theorem row_markUsed (i : Nat) : (s.markUsed r).row i = s.row i := by
  unfold markUsed
  split <;> rfl

@[simp]
theorem row_markUnused (i : Nat) : (s.markUnused r).row i = s.row i := by
  unfold markUnused
  split <;> rfl

theorem mem_usedRows {i : Nat} : i ∈ s.usedRows ↔ s.isUsed i = true := by
  rw [usedRows, List.mem_filter, List.mem_range]
  constructor
  · exact And.right
  · intro h
    refine ⟨?_, h⟩
    by_contra hi
    rw [s.isUsed_eq_false (Nat.le_of_not_lt hi)] at h
    contradiction

/-- The used rows are told apart and in order. -/
theorem pairwise_usedRows : s.usedRows.Pairwise (· < ·) :=
  List.pairwise_lt_range.filter _

/-- Any list of the rows in use, from the top, is the list of used rows. -/
theorem usedRows_eq {rows : List Nat} (hsorted : rows.Pairwise (· < ·))
    (hmem : ∀ i, i ∈ rows ↔ s.isUsed i = true) : s.usedRows = rows := by
  have hperm : s.usedRows.Perm rows := by
    rw [List.perm_ext_iff_of_nodup (s.pairwise_usedRows.imp Nat.ne_of_lt)
      (hsorted.imp Nat.ne_of_lt)]
    intro i
    rw [s.mem_usedRows, hmem]
  exact hperm.eq_of_pairwise (fun _ _ _ _ hle hge ↦ absurd hge (Nat.lt_asymm hle))
    s.pairwise_usedRows hsorted

end Screen

end ClosedCaptions
