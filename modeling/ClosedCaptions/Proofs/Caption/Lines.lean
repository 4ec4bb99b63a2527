import ClosedCaptions.Caption.Cue
import Mathlib.Data.List.Basic

/-!
# The lines of a cue

Cutting a text at its line breaks yields pieces without line breaks, and these with line breaks
between are the text again. Line breaks do not overlap, so no other pieces do that: pieces that are
put together with line breaks are the lines exactly when none of them has a line break of its own.
-/

namespace ClosedCaptions.Cue

/-! ## Cutting at line breaks -/

theorem splitLines_ne_nil (line chars : List Char) : splitLines line chars ≠ [] := by
  fun_induction splitLines line chars with
  | case1 => exact List.cons_ne_nil _ _
  | case2 line c rest _ ih => exact ih
  | case3 => exact List.cons_ne_nil _ _

theorem intercalate_splitLines (line chars : List Char) :
    lineBreak.intercalate (splitLines line chars) = line.reverse ++ chars := by
  fun_induction splitLines line chars with
  | case1 line rest ih =>
    rw [List.intercalate_cons_of_ne_nil (splitLines_ne_nil [] rest), ih, List.append_assoc]
    rfl
  | case2 line c rest _ ih =>
    rw [ih, List.reverse_cons, List.append_assoc, List.singleton_append]
  | case3 line => rw [List.intercalate_singleton, List.append_nil]

theorem splitLines_cons {c : Char} {rest : List Char} (h : ¬ (c = '\\' ∧ rest.head? = some 'N'))
    (line : List Char) : splitLines line (c :: rest) = splitLines (c :: line) rest := by
  rw [splitLines.eq_2]
  rintro more rfl rfl
  exact h ⟨rfl, rfl⟩

/-- A line break is found wherever it stands. -/
theorem splitLines_append (line front back : List Char) :
    splitLines line (front ++ lineBreak ++ back) =
      splitLines line front ++ splitLines [] back := by
  fun_induction splitLines line front with
  | case1 line rest ih =>
    change line.reverse :: splitLines [] (rest ++ lineBreak ++ back) = _
    rw [ih, List.cons_append]
  | case2 line c rest hbreak ih =>
    have hnone : ¬ (c = '\\' ∧ (rest ++ lineBreak ++ back).head? = some 'N') := by
      rintro ⟨hc, hnext⟩
      cases rest with
      | nil => cases hnext
      | cons next rest =>
        obtain rfl : next = 'N' := Option.some.inj hnext
        exact hbreak rest hc rfl
    rw [List.cons_append, List.cons_append, splitLines_cons hnone, ih]
  | case3 line => rfl

theorem splitLines_of_not_infix {chars : List Char} (h : ¬ lineBreak <:+: chars)
    (line : List Char) : splitLines line chars = [line.reverse ++ chars] := by
  fun_induction splitLines line chars with
  | case1 line rest _ => exact absurd (List.prefix_append lineBreak rest).isInfix h
  | case2 line c rest _ ih =>
    rw [ih fun hrest ↦ h (hrest.trans (List.suffix_cons c rest).isInfix), List.reverse_cons,
      List.append_assoc, List.singleton_append]
  | case3 line => rw [List.append_nil]

/-- A text is a line of its own when it has no line break. -/
theorem splitLines_eq_singleton_iff {chars : List Char} :
    splitLines [] chars = [chars] ↔ ¬ lineBreak <:+: chars := by
  constructor
  · rintro hsplit ⟨front, back, rfl⟩
    have hlength := congrArg List.length (splitLines_append [] front back)
    have hfront := List.length_pos_of_ne_nil (splitLines_ne_nil [] front)
    have hback := List.length_pos_of_ne_nil (splitLines_ne_nil [] back)
    rw [hsplit, List.length_append, List.length_singleton] at hlength
    omega
  · exact fun h ↦ splitLines_of_not_infix h []

/-- No piece has a line break in it. -/
theorem not_infix_of_mem_splitLines {line chars piece : List Char}
    (hline : ¬ lineBreak <:+: line.reverse)
    (hnext : line.head? = some '\\' → chars.head? ≠ some 'N') (h : piece ∈ splitLines line chars) :
    ¬ lineBreak <:+: piece := by
  fun_induction splitLines line chars with
  | case1 line rest ih =>
    rcases List.mem_cons.mp h with rfl | h
    · exact hline
    · exact ih (by decide) (by simp) h
  | case2 line c rest hbreak ih =>
    refine ih ?_ ?_ h
    · rw [List.reverse_cons, List.infix_concat_iff]
      rintro (⟨front, hlast⟩ | hinner)
      · have hsplit : (front ++ ['\\']) ++ ['N'] = line.reverse ++ [c] := by
          rw [List.append_assoc]
          exact hlast
        obtain ⟨hfront, hlast⟩ := List.append_inj' hsplit rfl
        have hhead : line.head? = some '\\' := by
          rw [← List.getLast?_reverse, ← hfront, List.getLast?_concat]
        exact hnext hhead (congrArg List.head? hlast.symm)
      · exact hline hinner
    · intro hc hrest
      obtain ⟨more, rfl⟩ := List.head?_eq_some_iff.mp hrest
      exact hbreak more (Option.some.inj hc) rfl
  | case3 line => exact (List.mem_singleton.mp h) ▸ hline

theorem not_infix_of_mem {chars piece : List Char} (h : piece ∈ splitLines [] chars) :
    ¬ lineBreak <:+: piece :=
  not_infix_of_mem_splitLines (by decide) (by simp) h

/-- Texts with line breaks between are cut into the pieces of each of them. -/
theorem splitLines_intercalate {texts : List (List Char)} (h : texts ≠ []) :
    splitLines [] (lineBreak.intercalate texts) = texts.flatMap (splitLines []) := by
  induction texts with
  | nil => exact absurd rfl h
  | cons first texts ih =>
    cases texts with
    | nil => simp
    | cons second texts =>
      rw [List.intercalate_cons_of_ne_nil (List.cons_ne_nil _ _), splitLines_append,
        ih (List.cons_ne_nil _ _), ← List.flatMap_cons]

/-- Texts are cut into themselves just when none of them has a line break. -/
theorem flatMap_splitLines_eq_iff {texts : List (List Char)} :
    texts.flatMap (splitLines []) = texts ↔ ∀ text ∈ texts, ¬ lineBreak <:+: text := by
  constructor
  · intro h text htext
    rw [← h] at htext
    obtain ⟨_, _, hpiece⟩ := List.mem_flatMap.mp htext
    exact not_infix_of_mem hpiece
  · intro h
    calc
      texts.flatMap (splitLines []) = texts.flatMap fun text ↦ [text] :=
        List.flatMap_congr fun text htext ↦ splitLines_eq_singleton_iff.mpr (h text htext)
      _ = texts := List.flatMap_singleton' texts

/-! ## Lines of cues -/

theorem map_toList_lines (cue : Cue) :
    cue.lines.map String.toList = splitLines [] cue.text.toList := by
  simp [lines, Function.comp_def]

/-- The lines of a cue, with line breaks between, are its text. -/
theorem intercalate_lines (cue : Cue) :
    lineBreak.intercalate (cue.lines.map String.toList) = cue.text.toList := by
  rw [map_toList_lines, intercalate_splitLines]
  rfl

theorem lines_ne_nil (cue : Cue) : cue.lines ≠ [] := by
  rw [lines, ne_eq, List.map_eq_nil_iff]
  exact splitLines_ne_nil _ _

/-- Texts with line breaks between have the lines of each of them. -/
theorem lines_of_intercalate {cue : Cue} {texts : List String} (h : texts ≠ [])
    (htext : lineBreak.intercalate (texts.map String.toList) = cue.text.toList) :
    cue.lines = texts.flatMap fun text ↦ { cue with text := text }.lines := by
  rw [lines, ← htext, splitLines_intercalate (mt List.map_eq_nil_iff.mp h), List.map_flatMap,
    List.flatMap_map]
  rfl

/-- Pieces that make up the text of a cue are its lines when none of them has a line break. -/
theorem lines_eq_iff {cue : Cue} {pieces : List String} :
    cue.lines = pieces ↔ pieces ≠ [] ∧
      lineBreak.intercalate (pieces.map String.toList) = cue.text.toList ∧
        ∀ piece ∈ pieces, ¬ lineBreak <:+: piece.toList := by
  constructor
  · rintro rfl
    refine ⟨cue.lines_ne_nil, cue.intercalate_lines, fun piece hpiece ↦ ?_⟩
    have hmem : piece.toList ∈ splitLines [] cue.text.toList := by
      rw [← map_toList_lines]
      exact List.mem_map_of_mem hpiece
    exact not_infix_of_mem hmem
  · intro ⟨hne, htext, hpieces⟩
    have hbreaks : ∀ text ∈ pieces.map String.toList, ¬ lineBreak <:+: text :=
      List.forall_mem_map.mpr hpieces
    have hlines : cue.lines.map String.toList = pieces.map String.toList := by
      rw [map_toList_lines, ← htext, splitLines_intercalate (mt List.map_eq_nil_iff.mp hne),
        flatMap_splitLines_eq_iff.mpr hbreaks]
    exact List.map_injective_iff.mpr (fun _ _ ↦ String.toList_injective) hlines

end ClosedCaptions.Cue
