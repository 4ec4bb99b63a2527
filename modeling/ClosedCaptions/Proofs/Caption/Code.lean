import ClosedCaptions.Caption.Code

/-!
# Ranges of caption codes

What the ranges of the two bytes say about the numbers that are looked up with them. Every preamble
code addresses a row, and every command has a first byte below the characters.
-/

namespace ClosedCaptions

namespace Code

variable {first second : UInt8}

theorem isPreamble_iff : isPreamble first second = true ↔
    (first.toNat = 0x10 ∧ 0x40 ≤ second.toNat ∧ second.toNat ≤ 0x5f) ∨
      (0x11 ≤ first.toNat ∧ first.toNat ≤ 0x17 ∧ 0x40 ≤ second.toNat ∧ second.toNat ≤ 0x7f) := by
  simp [isPreamble, UInt8.le_iff_toNat_le, ← UInt8.toNat_inj, and_assoc]

theorem isMidRow_iff : isMidRow first second = true ↔
    (first.toNat = 0x11 ∧ 0x20 ≤ second.toNat ∧ second.toNat ≤ 0x2f) ∨
      (first.toNat = 0x17 ∧ 0x2e ≤ second.toNat ∧ second.toNat ≤ 0x2f) := by
  simp [isMidRow, UInt8.le_iff_toNat_le, ← UInt8.toNat_inj, and_assoc]

theorem isControl_iff : isControl first = true ↔
    first.toNat = 0x14 ∨ first.toNat = 0x15 ∨ first.toNat = 0x1c := by
  simp [isControl, ← UInt8.toNat_inj, or_assoc]

theorem isTabOffset_iff : isTabOffset first second = true ↔
    (first.toNat = 0x17 ∨ first.toNat = 0x1f) ∧ 0x21 ≤ second.toNat ∧ second.toNat ≤ 0x23 := by
  simp [isTabOffset, UInt8.le_iff_toNat_le, ← UInt8.toNat_inj, and_assoc]

/-! Commands stand below the characters. -/

theorem lt_of_isPreamble (h : isPreamble first second = true) : first < 0x20 := by
  have hranges := isPreamble_iff.mp h
  have hlt : first.toNat < 32 := by omega
  exact UInt8.lt_iff_toNat_lt.mpr hlt

theorem lt_of_isMidRow (h : isMidRow first second = true) : first < 0x20 := by
  have hranges := isMidRow_iff.mp h
  have hlt : first.toNat < 32 := by omega
  exact UInt8.lt_iff_toNat_lt.mpr hlt

theorem lt_of_isControl (h : isControl first = true) : first < 0x20 := by
  have hranges := isControl_iff.mp h
  have hlt : first.toNat < 32 := by omega
  exact UInt8.lt_iff_toNat_lt.mpr hlt

theorem lt_of_isTabOffset (h : isTabOffset first second = true) : first < 0x20 := by
  have hranges := isTabOffset_iff.mp h
  have hlt : first.toNat < 32 := by omega
  exact UInt8.lt_iff_toNat_lt.mpr hlt

/-- Bytes from the characters on are characters. -/
theorem ofPair_of_le (h : 0x20 ≤ first) (second : UInt8) :
    ofPair first second = characters first second := by
  have hnot : ¬ first < 0x20 := UInt8.not_lt.mpr h
  unfold ofPair
  rw [if_neg fun hpreamble ↦ hnot (lt_of_isPreamble hpreamble),
    if_neg fun hmidRow ↦ hnot (lt_of_isMidRow hmidRow),
    if_neg fun hcontrol ↦ hnot (lt_of_isControl hcontrol),
    if_neg fun htab ↦ hnot (lt_of_isTabOffset htab), if_pos h]

/-- The style of a preamble code is one of the table. -/
theorem eq_of_ofPair_eq_preamble {row : Option (Fin screenRows)} {style : Style}
    (h : ofPair first second = preamble row style) :
    isPreamble first second = true ∧ style = Style.ofIndex (second.toNat % 32) := by
  unfold ofPair at h
  split at h
  · next hpreamble =>
    obtain ⟨-, rfl⟩ := Code.preamble.inj h
    exact ⟨hpreamble, rfl⟩
  split at h
  · contradiction
  split at h
  · split at h <;> contradiction
  split at h
  · contradiction
  split at h <;> contradiction

/-- An unknown code is told by its own pair. -/
theorem eq_of_ofPair_eq_unknown {first' second' : UInt8}
    (h : ofPair first second = unknown first' second') : first' = first ∧ second' = second := by
  unfold ofPair at h
  split at h
  · contradiction
  split at h
  · contradiction
  split at h
  · split at h
    · contradiction
    · obtain ⟨rfl, rfl⟩ := Code.unknown.inj h
      exact ⟨rfl, rfl⟩
  split at h
  · contradiction
  split at h
  · contradiction
  · obtain ⟨rfl, rfl⟩ := Code.unknown.inj h
    exact ⟨rfl, rfl⟩

/-- Characters begin where commands end. -/
theorem le_of_ofPair_eq_characters {first' second' : UInt8}
    (h : ofPair first second = characters first' second') : 0x20 ≤ first := by
  unfold ofPair at h
  split at h
  · contradiction
  split at h
  · contradiction
  split at h
  · split at h <;> contradiction
  split at h
  · contradiction
  split at h
  · assumption
  · contradiction

end Code

/-- Every indent leaves room in the row. -/
theorem Style.indent_ofIndex_lt (index : Nat) : (Style.ofIndex index).indent < screenColumns := by
  have htable : ∀ style ∈ Style.table, style.indent < screenColumns := by decide
  unfold ofIndex
  cases hstyle : Style.table[index]? with
  | none => decide
  | some style => exact htable style (List.mem_of_getElem? hstyle)

/-- Every number of the list but the unused one is a row of the screen. -/
theorem preambleRows_spec {index : Nat} (h : index < preambleRows.length) (hused : index ≠ 1) :
    1 ≤ preambleRows[index] ∧ preambleRows[index] ≤ screenRows := by
  revert hused
  revert index
  decide

theorem preambleIndex_lt (first second : UInt8) :
    preambleIndex first second < preambleRows.length := by
  have hlength : preambleRows.length = 16 := rfl
  unfold preambleIndex
  omega

/-- No preamble code is sorted to the unused number. -/
theorem preambleIndex_ne_one {first second : UInt8} (h : Code.isPreamble first second = true) :
    preambleIndex first second ≠ 1 := by
  rw [Code.isPreamble_iff] at h
  unfold preambleIndex
  omega

theorem preambleRow?_eq_some {first second : UInt8} (h : Code.isPreamble first second = true) :
    ∃ row : Fin screenRows, preambleRows[preambleIndex first second]? = some (row.val + 1 : Int) ∧
      preambleRow? first second = some row := by
  have hlt := preambleIndex_lt first second
  obtain ⟨hlow, hhigh⟩ := preambleRows_spec hlt (preambleIndex_ne_one h)
  unfold preambleRow?
  rw [List.getElem?_eq_getElem hlt]
  have hrow : preambleRows[preambleIndex first second].toNat - 1 < screenRows := by omega
  have hpositive : 0 < preambleRows[preambleIndex first second] := by omega
  have hnumber : preambleRows[preambleIndex first second] =
      ((preambleRows[preambleIndex first second].toNat - 1 : Nat) + 1 : Int) := by omega
  exact ⟨⟨_, hrow⟩, congrArg some hnumber, by simp [hrow, hpositive]⟩

/-- A preamble code has a row. -/
theorem Code.ofPair_ne_preamble_none (first second : UInt8) (style : Style) :
    ofPair first second ≠ preamble none style := by
  unfold ofPair
  split
  · next h =>
    obtain ⟨row, -, hrow⟩ := preambleRow?_eq_some h
    simp [hrow]
  · split
    · simp
    · split
      · split <;> simp
      · split
        · simp
        · split <;> simp

theorem Control.range_of_ofByte? {byte : UInt8} {control : Control}
    (h : Control.ofByte? byte = some control) : 0x20 ≤ byte.toNat ∧ byte.toNat ≤ 0x2f := by
  unfold ofByte? at h
  split at h <;> simp_all

/-- Control codes are told by a first byte of three and a second byte of the list. -/
theorem Code.ofPair_eq_control_iff {first second : UInt8} {control : Control} :
    ofPair first second = .control control ↔
      isControl first = true ∧ Control.ofByte? second = some control := by
  constructor
  · intro h
    unfold ofPair at h
    split at h
    · contradiction
    split at h
    · contradiction
    split at h
    · next hcontrol =>
      split at h
      · next found hfound =>
        obtain rfl : found = control := Code.control.inj h
        exact ⟨hcontrol, hfound⟩
      · contradiction
    split at h
    · contradiction
    split at h <;> contradiction
  · rintro ⟨hcontrol, hbyte⟩
    have hranges := isControl_iff.mp hcontrol
    have hbounds := Control.range_of_ofByte? hbyte
    have hpreamble : ¬ isPreamble first second = true := by
      rw [isPreamble_iff]
      omega
    have hmidRow : ¬ isMidRow first second = true := by
      rw [isMidRow_iff]
      omega
    unfold ofPair
    rw [if_neg hpreamble, if_neg hmidRow, if_pos hcontrol, hbyte]

theorem Control.depth_of_ofByte? {byte : UInt8} {depth : Nat}
    (h : Control.ofByte? byte = some (.rollUp depth)) : depth ∈ [2, 3, 4] := by
  unfold ofByte? at h
  split at h <;> simp_all

end ClosedCaptions
