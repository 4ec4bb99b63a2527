import ClosedCaptions.Caption.Screen
import Mathlib.Algebra.Group.Nat.Defs
import Mathlib.Data.List.TakeWhile

/-!
# Well-formed screens

Only numbers of rows that exist are in the set of used rows, and the last cell of every row holds
the NUL that ends its text. Every operation keeps this, so no row has more text than it has columns.
-/

namespace ClosedCaptions

namespace RowSet

/-- Bit 15 stands for no row. -/
theorem toNat_lt_iff {rows : RowSet} : rows.toNat < 2 ^ screenRows ↔ rows.getLsbD 15 = false := by
  have hmsb : rows.msb = rows.getLsbD 15 := BitVec.msb_eq_getLsbD_last rows
  rw [← hmsb, BitVec.msb_eq_decide, decide_eq_false_iff_not, Nat.not_le]

theorem toNat_insert_lt {rows : RowSet} (h : rows.toNat < 2 ^ screenRows) {row : Nat}
    (hrow : row < screenRows) : (rows.insert row).toNat < 2 ^ screenRows := by
  rw [toNat_lt_iff] at h ⊢
  have hbit : (bit row).getLsbD 15 = false := by
    unfold bit
    rw [BitVec.getLsbD_shiftLeft, BitVec.getLsbD_one]
    simp only [screenRows] at hrow
    simp
    omega
  rw [insert, BitVec.getLsbD_or, h, hbit]
  rfl

theorem toNat_erase_lt {rows : RowSet} (h : rows.toNat < 2 ^ screenRows) (row : Nat) :
    (rows.erase row).toNat < 2 ^ screenRows := by
  rw [toNat_lt_iff] at h ⊢
  rw [erase, BitVec.getLsbD_and, h]
  rfl

end RowSet

namespace Row

/-- The cell after the last column holds NUL. -/
def Terminated (row : Row) : Prop :=
  row[screenColumns].char = 0

theorem terminated_blank : blank.Terminated := by
  unfold Terminated blank
  rw [Vector.getElem_replicate]
  rfl

theorem Terminated.set {row : Row} (h : row.Terminated) {column : Nat} {cell : Cell}
    (hcell : column < screenColumns ∨ (column = screenColumns ∧ cell.char = 0)) :
    Terminated (row.setIfInBounds column cell) := by
  unfold Terminated at h ⊢
  rw [Vector.getElem_setIfInBounds]
  split
  · next heq =>
    rcases hcell with hlt | ⟨-, hchar⟩
    · omega
    · exact hchar
  · exact h

theorem length_takeWhile_le {α : Type} {p : α → Bool} {l : List α} {n : Nat} {a : α}
    (ha : l[n]? = some a) (hp : p a = false) : (l.takeWhile p).length ≤ n := by
  induction l generalizing n with
  | nil => simp at ha
  | cons b l ih =>
    rw [List.takeWhile_cons]
    split
    · next hb =>
      match n with
      | 0 =>
        obtain rfl : b = a := Option.some.inj ha
        rw [hp] at hb
        contradiction
      | n + 1 => exact Nat.succ_le_succ (ih ha)
    · exact Nat.zero_le n

theorem Terminated.length_text_le {row : Row} (h : row.Terminated) :
    row.text.length ≤ screenColumns := by
  have hlast : row.chars[screenColumns]? = some 0 := by
    have hcell : row.toList[screenColumns]? = some row[screenColumns] := by simp
    rw [chars, List.getElem?_map, hcell]
    exact congrArg some h
  exact length_takeWhile_le hlast rfl

theorem ne_zero_of_mem_text {row : Row} {byte : UInt8} (h : byte ∈ row.text) : byte ≠ 0 := by
  simpa using List.mem_takeWhile_imp h

end Row

namespace Screen

structure WellFormed (s : Screen) : Prop where
  used_lt : s.used.toNat < 2 ^ screenRows
  terminated : ∀ r (h : r < screenRows), (s.rows[r]).Terminated

theorem wellFormed_blank : blank.WellFormed where
  used_lt := by decide
  terminated r h := by
    unfold blank
    rw [Vector.getElem_replicate]
    exact Row.terminated_blank

variable {s : Screen}

namespace WellFormed

/-- A row below the last one reads as blank, so it is terminated too. -/
theorem row (h : s.WellFormed) (r : Nat) : (s.row r).Terminated := by
  unfold Screen.row
  by_cases hr : r < screenRows
  · rw [Vector.getElem?_eq_getElem hr]
    exact h.terminated r hr
  · rw [Vector.getElem?_eq_none (Nat.le_of_not_lt hr)]
    exact Row.terminated_blank

theorem setRow (h : s.WellFormed) (r : Nat) {row : Row} (hrow : row.Terminated) :
    (s.setRow r row).WellFormed where
  used_lt := h.used_lt
  terminated i hi := by
    unfold Screen.setRow
    dsimp only
    rw [Vector.getElem_setIfInBounds]
    split
    · exact hrow
    · exact h.terminated i hi

theorem markUsed (h : s.WellFormed) (r : Nat) : (s.markUsed r).WellFormed := by
  unfold Screen.markUsed
  split
  · next hr => exact { h with used_lt := RowSet.toNat_insert_lt h.used_lt hr }
  · exact h

theorem markUnused (h : s.WellFormed) (r : Nat) : (s.markUnused r).WellFormed := by
  unfold Screen.markUnused
  split
  · exact { h with used_lt := RowSet.toNat_erase_lt h.used_lt r }
  · exact h

theorem clear (h : s.WellFormed) : s.clear.WellFormed where
  used_lt := Nat.two_pow_pos screenRows
  terminated := h.terminated

theorem write (h : s.WellFormed) {r column : Nat} {cell : Cell} {written : Screen}
    (hwrite : s.write r column cell = .ok written) : written.WellFormed := by
  unfold Screen.write at hwrite
  split at hwrite
  · next hcell =>
    obtain rfl := Except.ok.inj hwrite
    exact h.setRow r ((h.row r).set hcell)
  · contradiction

theorem pullUp (h : s.WellFormed) (r : Nat) : (s.pullUp r).WellFormed := by
  have hcopied : (s.copyRow (r + 1) r).WellFormed := h.setRow r (h.row (r + 1))
  unfold Screen.pullUp
  dsimp only
  split
  · exact hcopied.markUsed r
  · exact hcopied

theorem foldl {f : Screen → Nat → Screen} (hf : ∀ t r, t.WellFormed → (f t r).WellFormed)
    (h : s.WellFormed) (rows : List Nat) : (rows.foldl f s).WellFormed := by
  induction rows generalizing s with
  | nil => exact h
  | cons r rows ih => exact ih (hf s r h)

theorem rollUp (h : s.WellFormed) (bottom depth : Nat) : (s.rollUp bottom depth).WellFormed := by
  have hcleared (rows : List Nat) : (rows.foldl Screen.markUnused s).WellFormed :=
    h.foldl (fun _ r ht ↦ ht.markUnused r) rows
  unfold Screen.rollUp
  apply markUnused
  split
  · exact hcleared _
  · exact (hcleared _).foldl (fun _ r ht ↦ ht.pullUp r) _

theorem length_rowText_le (h : s.WellFormed) (r : Nat) : (s.rowText r).length ≤ screenColumns :=
  (h.row r).length_text_le

end WellFormed

/-! ## Where cells are looked up -/

/-- A cell is written in one of the 33 columns. -/
theorem column_lt_of_write {r column : Nat} {cell : Cell} {written : Screen}
    (h : s.write r column cell = .ok written) : column < screenColumns + 1 := by
  unfold write at h
  split at h
  · next hcell => omega
  · contradiction

theorem lt_of_mem_usedRows {r : Nat} (h : r ∈ s.usedRows) : r < screenRows :=
  List.mem_range.mp (List.mem_filter.mp h).1

theorem length_usedRows_le (s : Screen) : s.usedRows.length ≤ screenRows := by
  have hle := List.length_filter_le s.isUsed (List.range screenRows)
  rwa [List.length_range] at hle

theorem length_window (bottom depth : Nat) :
    (window bottom depth).length = min (bottom + 1) depth := by
  simp [window]

theorem le_of_mem_window {bottom depth r : Nat} (h : r ∈ window bottom depth) : r ≤ bottom := by
  obtain ⟨i, hi, rfl⟩ := List.mem_map.mp h
  rw [List.mem_range] at hi
  omega

end Screen

end ClosedCaptions
