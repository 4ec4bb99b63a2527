import ClosedCaptions.Proofs.Caption.Decoder
import ClosedCaptions.Proofs.Caption.Lines
import ClosedCaptions.Proofs.Caption.Packet
import ClosedCaptions.Proofs.Caption.Text

/-!
# The lines of reaped screens

A cue with the text of a reaped screen has one line for each used row exactly when no used row has
the characters of a line break in it. Nothing sets these apart from the line breaks between the
rows, so a row that has them is cut there.
-/

namespace ClosedCaptions.Context

/-- The characters of a line break as they stand in a row. -/
def breakBytes : List UInt8 := [0x5C, 0x4E]

theorem map_breakBytes : breakBytes.map Entry.charOfByte = lineBreak := by decide

/-- Leading spaces do not hide a line break. -/
theorem breakBytes_infix_dropWhile {text : List UInt8} :
    breakBytes <:+: text.dropWhile (· = 0x20) ↔ breakBytes <:+: text := by
  constructor
  · exact fun h ↦ h.trans (List.dropWhile_suffix _).isInfix
  · rintro ⟨front, back, rfl⟩
    rw [List.append_assoc, List.dropWhile_append]
    split
    · exact (List.prefix_append breakBytes back).isInfix
    · exact ⟨front.dropWhile (· = 0x20), back, List.append_assoc _ _ _⟩

theorem lineBreak_infix_trimmedText {text : List UInt8} :
    lineBreak <:+: trimmedText text ↔ breakBytes <:+: text := by
  rw [← breakBytes_infix_dropWhile, trimmedText, ← map_breakBytes]
  constructor
  · intro h
    obtain ⟨bytes, hbytes, hchars⟩ := List.infix_map_iff.mp h
    have hinjective : Function.Injective Entry.charOfByte :=
      fun _ _ ↦ Entry.charOfByte_injective
    rwa [List.map_injective_iff.mpr hinjective hchars]
  · exact fun h ↦ h.map Entry.charOfByte

/-- The texts of the used rows from the top, each without its leading spaces. -/
def rowLines (s : Screen) : List String :=
  s.usedRows.map fun r ↦ String.ofList (trimmedText (s.rowText r))

theorem intercalate_rowLines (s : Screen) :
    lineBreak.intercalate ((rowLines s).map String.toList) = (screenText s).toList := by
  simp [rowLines, screenText, Function.comp_def]

/-- A cue with the text of a reaped screen has the lines of each used row in turn. This is one line
for each of them exactly when none has the characters of a line break in it. -/
theorem lines_of_reap (c : Context) (cue : Cue) (hused : (c.screen c.active).usedRows ≠ [])
    (hcue : cue.text = c.reap.buffer) :
    cue.lines = (rowLines (c.screen c.active)).flatMap
        (fun text ↦ { cue with text := text }.lines) ∧
      (cue.lines = rowLines (c.screen c.active) ↔
        ∀ r ∈ (c.screen c.active).usedRows, ¬ breakBytes <:+: (c.screen c.active).rowText r) := by
  have hne : rowLines (c.screen c.active) ≠ [] := mt List.map_eq_nil_iff.mp hused
  have htext : lineBreak.intercalate ((rowLines (c.screen c.active)).map String.toList) =
      cue.text.toList := by
    rw [hcue, intercalate_rowLines]
    rfl
  refine ⟨Cue.lines_of_intercalate hne htext, ?_⟩
  rw [Cue.lines_eq_iff, and_iff_right hne, and_iff_right htext, rowLines, List.forall_mem_map]
  simp only [String.toList_ofList, lineBreak_infix_trimmedText]

/-- Pairs that are decoded in one go. -/
def sent (pairs : List (UInt8 × UInt8)) : List Decoder.Operation :=
  [.decode ((pairs.map Triple.ofPair).flatMap Triple.bytes) 0]

/-- A row that ends in a backslash, above a row of a space and a letter. -/
theorem lines_of_reap_backslash :
    let c := (Decoder.after (sent [(0x14, 0x20), (0x11, 0x40), (0x61, 0x5C), (0x12, 0x40),
      (0x20, 0x4E), (0x14, 0x2F)])).context
    (c.screen c.active).usedRows ≠ [] ∧
      (⟨c.reap.buffer, 0, none⟩ : Cue).lines = ["a\\", "N"] := by
  intro c
  have hused : (c.screen c.active).usedRows = [0, 2] := by decide +kernel
  have hne : (c.screen c.active).usedRows ≠ [] := by
    rw [hused]
    exact List.cons_ne_nil _ _
  have hbreaks : ∀ r ∈ (c.screen c.active).usedRows,
      ¬ breakBytes <:+: (c.screen c.active).rowText r := by
    rw [hused]
    decide +kernel
  have hrows : rowLines (c.screen c.active) = ["a\\", "N"] := by decide +kernel
  rw [← hrows]
  exact ⟨hne, (lines_of_reap c ⟨c.reap.buffer, 0, none⟩ hne rfl).2.mpr hbreaks⟩

/-- A row that has the characters of a line break is cut in two. -/
theorem row_with_break_is_cut :
    ¬ ∀ (operations : List Decoder.Operation) (cue : Cue),
      let c := (Decoder.after operations).context
      (c.screen c.active).usedRows ≠ [] → cue.text = c.reap.buffer →
        cue.lines = rowLines (c.screen c.active) := by
  intro h
  let operations := sent [(0x14, 0x20), (0x11, 0x40), (0x61, 0x5C), (0x4E, 0x62), (0x14, 0x2F)]
  let c := (Decoder.after operations).context
  have hlines := h operations ⟨c.reap.buffer, 0, none⟩ (by decide +kernel) rfl
  have hcut : (⟨c.reap.buffer, 0, none⟩ : Cue).lines = ["a", "b"] := by decide +kernel
  have hrow : rowLines (c.screen c.active) = ["a\\Nb"] := by decide +kernel
  have habsurd : ["a", "b"] = ["a\\Nb"] := hcut.symm.trans (hlines.trans hrow)
  exact absurd habsurd (by decide)

end ClosedCaptions.Context
