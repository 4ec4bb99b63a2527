import ClosedCaptions.Caption.Context
import ClosedCaptions.Proofs.Caption.Screen

/-!
# Cue text

The text of a cue is a few lines with marks between them, no more lines than a screen has rows and
none of them longer than a row.
-/

namespace ClosedCaptions

/-- The character NUL. -/
def nul : Char :=
  Char.ofNat 0

/-- A line of cue text: at most a row of characters, no space in front, and no NUL. -/
structure IsCueLine (line : List Char) : Prop where
  length_le : line.length ≤ screenColumns
  head_ne : line.head? ≠ some ' '
  nul_not_mem : nul ∉ line

/-- At most 15 lines with line breaks between them, and no NUL. -/
structure IsCueText (text : String) : Prop where
  lines : ∃ lines : List (List Char), lines.length ≤ screenRows ∧
    (∀ line ∈ lines, IsCueLine line) ∧ text = String.ofList (lineBreak.intercalate lines)
  nul_not_mem : nul ∉ text.toList

theorem mem_intercalate {α : Type} {separator : List α} {lists : List (List α)} {a : α}
    (h : a ∈ separator.intercalate lists) : a ∈ separator ∨ ∃ list ∈ lists, a ∈ list := by
  induction lists with
  | nil => simp at h
  | cons list lists ih =>
    match lists with
    | [] =>
      rw [List.intercalate_singleton] at h
      exact .inr ⟨list, List.mem_singleton_self list, h⟩
    | next :: lists =>
      rw [List.intercalate_cons_cons, List.mem_append, List.mem_append] at h
      rcases h with (h | h) | h
      · exact .inr ⟨list, List.mem_cons_self, h⟩
      · exact .inl h
      · rcases ih h with hseparator | ⟨other, hother, ha⟩
        · exact .inl hseparator
        · exact .inr ⟨other, List.mem_cons_of_mem list hother, ha⟩

/-- Lines make up a text. -/
theorem isCueText_intercalate {lines : List (List Char)} (hlength : lines.length ≤ screenRows)
    (hlines : ∀ line ∈ lines, IsCueLine line) :
    IsCueText (String.ofList (lineBreak.intercalate lines)) where
  lines := ⟨lines, hlength, hlines, rfl⟩
  nul_not_mem := by
    rw [String.toList_ofList]
    intro h
    rcases mem_intercalate h with hbreak | ⟨line, hline, hnul⟩
    · exact absurd hbreak (by decide)
    · exact (hlines line hline).nul_not_mem hnul

theorem isCueText_empty : IsCueText "" :=
  isCueText_intercalate (Nat.zero_le _) fun _ h ↦ absurd h List.not_mem_nil

/-! ## The text of a screen -/

theorem Entry.toNat_charOfByte (byte : UInt8) : (Entry.charOfByte byte).toNat = byte.toNat := by
  have hvalid : byte.toNat.isValidChar := .inl (Nat.lt_trans byte.toNat_lt (by decide))
  unfold charOfByte Char.ofNat
  rw [dif_pos hvalid]
  rfl

theorem Entry.charOfByte_injective {a b : UInt8} (h : charOfByte a = charOfByte b) : a = b := by
  apply UInt8.toNat_inj.mp
  rw [← toNat_charOfByte, ← toNat_charOfByte, h]

namespace Context

theorem isCueLine_trimmedText {text : List UInt8} (hlength : text.length ≤ screenColumns)
    (hzero : ∀ byte ∈ text, byte ≠ 0) : IsCueLine (trimmedText text) where
  length_le := by
    rw [trimmedText, List.length_map]
    exact Nat.le_trans (List.dropWhile_sublist _).length_le hlength
  head_ne := by
    have hhead := List.head?_dropWhile_not (· = 0x20) text
    rw [trimmedText, List.head?_map]
    intro h
    obtain ⟨byte, hbyte, hchar⟩ := Option.map_eq_some_iff.mp h
    rw [hbyte] at hhead
    have hspace : byte = 0x20 := Entry.charOfByte_injective hchar
    simp [hspace] at hhead
  nul_not_mem := by
    rw [trimmedText]
    intro h
    obtain ⟨byte, hbyte, hchar⟩ := List.mem_map.mp h
    have hnul : byte = 0 := Entry.charOfByte_injective hchar
    exact hzero byte ((List.dropWhile_sublist _).subset hbyte) hnul

theorem isCueText_screenText {s : Screen} (h : s.WellFormed) : IsCueText (screenText s) := by
  apply isCueText_intercalate
  · rw [List.length_map]
    exact s.length_usedRows_le
  · intro line hline
    obtain ⟨r, -, rfl⟩ := List.mem_map.mp hline
    exact isCueLine_trimmedText (h.length_rowText_le r) fun _ hbyte ↦
      Row.ne_zero_of_mem_text hbyte

end Context

end ClosedCaptions
