import ClosedCaptions.Proofs.Caption.Context
import ClosedCaptions.Proofs.Caption.Reaping
import ClosedCaptions.Proofs.Caption.Rows

/-!
# Typing a line

What a line of text does where overflow is tolerated. Its characters go one after the other into the
row of the cursor, behind what the row begins with, as far as there are columns, and every pair ends
the row behind its characters. Nothing but that row and the cursor changes.
-/

namespace ClosedCaptions

/-! ## One row changed -/

theorem Screen.setRow_row (s : Screen) {r : Nat} (hr : r < screenRows) :
    s.setRow r (s.row r) = s := by
  have hrows : s.rows.setIfInBounds r s.rows[r] = s.rows := by
    ext i hi
    rw [Vector.getElem_setIfInBounds]
    split
    · next h => simp [h]
    · rfl
  rw [setRow, s.row_eq_getElem hr, hrows]

theorem Screen.setRow_setRow (s : Screen) (r : Nat) (a b : Row) :
    (s.setRow r a).setRow r b = s.setRow r b := by
  unfold setRow
  congr 1
  ext i hi
  simp only [Vector.getElem_setIfInBounds]
  split <;> rfl

/-! ## Characters -/

/-- A character of seven bits. -/
def IsPrintable (byte : UInt8) : Prop :=
  0x20 ≤ byte ∧ byte ≤ 0x7F

instance (byte : UInt8) : Decidable (IsPrintable byte) :=
  inferInstanceAs (Decidable (_ ∧ _))

theorem isPrintable_of_all {text : List UInt8} (h : text.all (IsPrintable ·) = true) :
    ∀ byte ∈ text, IsPrintable byte := by
  simpa using h

theorem IsPrintable.ne_zero {byte : UInt8} (h : IsPrintable byte) : byte ≠ 0 := by
  rintro rfl
  exact absurd h.1 (by decide)

namespace Context

open Procedure

variable {c start : Context} {row : Row} {line : List UInt8}

/-- The row of the cursor on the screen that is written to. -/
def cursorLine (c : Context) : Row :=
  (c.screen c.writing).row c.cursorRow

/-- The context with another row at the cursor, and the cursor in another column. -/
def typed (c : Context) (row : Row) (column : Nat) : Context :=
  { c.modifyScreen c.writing (fun s ↦ s.setRow c.cursorRow row) with cursorColumn := column }

theorem modifyScreen_modifyScreen (c : Context) (i : Fin 2) (f g : Screen → Screen) :
    (c.modifyScreen i f).modifyScreen i g = c.modifyScreen i fun s ↦ g (f s) := by
  unfold modifyScreen screen
  simp

theorem modifyScreen_self (c : Context) (i : Fin 2) {f : Screen → Screen}
    (h : f (c.screen i) = c.screen i) : c.modifyScreen i f = c := by
  unfold modifyScreen
  rw [h]
  simp [screen]

theorem screen_typed (c : Context) (row : Row) (column : Nat) (i : Fin 2) :
    (c.typed row column).screen i =
      if i = c.writing then (c.screen i).setRow c.cursorRow row else c.screen i := by
  have hscreen := screen_modifyScreen c c.writing i fun s ↦ s.setRow c.cursorRow row
  refine Eq.trans hscreen ?_
  split
  · next h => rw [h]
  · rfl

theorem typed_cursorLine (c : Context) : c.typed c.cursorLine c.cursorColumn = c := by
  have hscreen := Screen.setRow_row (c.screen c.writing) c.cursorRow.isLt
  rw [typed, modifyScreen_self c c.writing hscreen]

theorem typed_typed (c : Context) (a b : Row) (m n : Nat) :
    (c.typed a m).typed b n = c.typed b n := by
  have htwice := modifyScreen_modifyScreen c c.writing (fun s ↦ s.setRow c.cursorRow a)
    fun s ↦ s.setRow c.cursorRow b
  simp only [Screen.setRow_setRow] at htwice
  rw [typed.eq_def c b, ← htwice]
  rfl

@[simp]
theorem cursorLine_typed (c : Context) (row : Row) (column : Nat) :
    (c.typed row column).cursorLine = row := by
  change ((c.typed row column).screen c.writing).row c.cursorRow = row
  rw [screen_typed, if_pos rfl, Screen.row_setRow _ c.cursorRow.isLt, if_pos rfl]

/-! ## Behind the line -/

/-- The context `c` is `start` but for the row of the cursor, which begins with `line`, and the
cursor, which stands behind it. -/
structure Typed (start : Context) (line : List UInt8) (c : Context) : Prop where
  length_le : line.length ≤ screenColumns
  nul_not_mem : 0 ∉ line
  line_prefix : line <+: c.cursorLine.chars
  eq_typed : c = start.typed c.cursorLine line.length

/-- The row of the cursor also ends behind the line. -/
structure Ended (start : Context) (line : List UInt8) (c : Context) : Prop
    extends Typed start line c where
  ended_prefix : line ++ [0] <+: c.cursorLine.chars

theorem typed_of_prefix (hlength : line.length ≤ screenColumns) (hnul : 0 ∉ line)
    (hstarts : line <+: row.chars) : Typed start line (start.typed row line.length) where
  length_le := hlength
  nul_not_mem := hnul
  line_prefix := by rwa [cursorLine_typed]
  eq_typed := by rw [cursorLine_typed]

theorem typed_nil (h : c.cursorColumn = 0) : Typed c [] c where
  length_le := Nat.zero_le _
  nul_not_mem := List.not_mem_nil
  line_prefix := List.nil_prefix
  eq_typed := by
    have hself := c.typed_cursorLine
    rw [h] at hself
    exact hself.symm

theorem effect_writeChar (c : Context) {char : UInt8}
    (h : c.cursorColumn < screenColumns ∨ c.cursorColumn = screenColumns ∧ char = 0) :
    (writeChar char).effect c = (.ok true, c.typed
      (c.cursorLine.setIfInBounds c.cursorColumn ⟨char, c.color, c.font⟩) c.cursorColumn) := by
  unfold writeChar
  rw [effect_get_bind]
  unfold Screen.write
  rw [if_pos h]
  rfl

/-- A character that does not fit is dropped where that is tolerated. -/
theorem effect_writeChar_full (hlevel : c.failLevel = .error) {char : UInt8}
    (h : ¬ (c.cursorColumn < screenColumns ∨ c.cursorColumn = screenColumns ∧ char = 0)) :
    (writeChar char).effect c = (.ok false, c) := by
  unfold writeChar
  rw [effect_get_bind]
  unfold Screen.write
  rw [if_neg h]
  dsimp only
  rw [hlevel, tolerate_error, effect_log_bind, effect_pure]

namespace Typed

theorem cursorColumn_eq (h : Typed start line c) : c.cursorColumn = line.length := by
  rw [h.eq_typed]
  rfl

theorem failLevel_eq (h : Typed start line c) : c.failLevel = start.failLevel := by
  rw [h.eq_typed]
  rfl

theorem previous_eq (h : Typed start line c) : c.previous = start.previous := by
  rw [h.eq_typed]
  rfl

theorem reaped_eq (h : Typed start line c) : c.reaped = start.reaped := by
  rw [h.eq_typed]
  rfl

theorem mode_eq (h : Typed start line c) : c.mode = start.mode := by
  rw [h.eq_typed]
  rfl

theorem active_eq (h : Typed start line c) : c.active = start.active := by
  rw [h.eq_typed]
  rfl

theorem rollup_eq (h : Typed start line c) : c.rollup = start.rollup := by
  rw [h.eq_typed]
  rfl

theorem cursorRow_eq (h : Typed start line c) : c.cursorRow = start.cursorRow := by
  rw [h.eq_typed]
  rfl

theorem isUsed_eq (h : Typed start line c) (i : Fin 2) (r : Nat) :
    (c.screen i).isUsed r = (start.screen i).isUsed r := by
  rw [h.eq_typed, screen_typed]
  split <;> rfl

/-- A cell written behind the line. -/
theorem write (h : Typed start line c) (cell : Cell) (column : Nat) :
    c.typed (c.cursorLine.setIfInBounds c.cursorColumn cell) column =
        start.typed (c.cursorLine.setIfInBounds line.length cell) column ∧
      line ++ [cell.char] <+: Row.chars (c.cursorLine.setIfInBounds line.length cell) := by
  have hlt : line.length < c.cursorLine.chars.length := by
    rw [Row.length_chars]
    exact Nat.lt_succ_of_le h.length_le
  constructor
  · rw [h.cursorColumn_eq]
    calc
      c.typed (c.cursorLine.setIfInBounds line.length cell) column
          = (start.typed c.cursorLine line.length).typed
            (c.cursorLine.setIfInBounds line.length cell) column := by
        rw [← h.eq_typed]
      _ = _ := typed_typed start _ _ _ _
  · rw [Row.chars_setIfInBounds]
    exact Row.prefix_set h.line_prefix hlt cell.char

theorem ensures_putChar (hlevel : start.failLevel = .error) {char : UInt8} (hchar : char ≠ 0) :
    Ensures (Typed start line) (putChar char)
      (fun _ ↦ Typed start ((line ++ [char]).take screenColumns)) fun _ ↦ False := by
  intro c hc
  unfold putChar
  by_cases hlt : line.length < screenColumns
  · have hfits : c.cursorColumn < screenColumns ∨ c.cursorColumn = screenColumns ∧ char = 0 :=
      .inl (hc.cursorColumn_eq ▸ hlt)
    have hlength : (line ++ [char]).length ≤ screenColumns := by
      rw [List.length_append, List.length_singleton]
      exact hlt
    have hnul : 0 ∉ line ++ [char] := by
      simp [hc.nul_not_mem, hchar.symm]
    have hcolumn : c.cursorColumn + 1 = (line ++ [char]).length := by
      rw [hc.cursorColumn_eq, List.length_append, List.length_singleton]
    obtain ⟨htyped, hstarts⟩ := hc.write ⟨char, c.color, c.font⟩ (c.cursorColumn + 1)
    rw [effect_bind_ok (effect_writeChar c hfits), if_pos rfl, effect_modify,
      List.take_of_length_le hlength]
    change Typed start (line ++ [char]) (c.typed _ (c.cursorColumn + 1))
    rw [htyped, hcolumn]
    exact typed_of_prefix hlength hnul hstarts
  · have hline : (line ++ [char]).take screenColumns = line := by
      rw [List.take_append_of_le_length (Nat.le_of_not_lt hlt), List.take_of_length_le hc.length_le]
    have hfull :
        ¬ (c.cursorColumn < screenColumns ∨ c.cursorColumn = screenColumns ∧ char = 0) := by
      rw [hc.cursorColumn_eq]
      rintro (h | ⟨-, h⟩)
      · exact hlt h
      · exact hchar h
    rw [effect_bind_ok (effect_writeChar_full (hc.failLevel_eq.trans hlevel) hfull), hline]
    exact hc

theorem ensures_endRow : Ensures (Typed start line) endRow (fun _ ↦ Ended start line)
    fun _ ↦ False := by
  intro c hc
  have hfits :
      c.cursorColumn < screenColumns ∨ c.cursorColumn = screenColumns ∧ (0 : UInt8) = 0 := by
    rw [hc.cursorColumn_eq]
    rcases Nat.lt_or_eq_of_le hc.length_le with hlt | heq
    · exact .inl hlt
    · exact .inr ⟨heq, rfl⟩
  obtain ⟨htyped, hstarts⟩ := hc.write ⟨0, c.color, c.font⟩ c.cursorColumn
  have hline : Typed start line (start.typed _ line.length) :=
    typed_of_prefix hc.length_le hc.nul_not_mem ((List.prefix_append line [0]).trans hstarts)
  unfold endRow
  rw [effect_bind_ok (effect_writeChar c hfits), effect_pure, htyped, hc.cursorColumn_eq]
  exact ⟨hline, by rwa [cursorLine_typed]⟩

end Typed

theorem take_append_take {α : Type} (n : Nat) (xs ys : List α) :
    (xs.take n ++ ys).take n = (xs ++ ys).take n := by
  rcases Nat.le_total xs.length n with h | h
  · rw [List.take_of_length_le h]
  · have hlength : (xs.take n).length = n := by rw [List.length_take, Nat.min_eq_left h]
    rw [List.take_left' hlength, List.take_append_of_le_length h]

theorem ensures_putSpaces (hlevel : start.failLevel = .error) (count : Nat) :
    Ensures (Typed start line) (putSpaces count)
      (fun _ ↦ Typed start ((line ++ List.replicate count 0x20).take screenColumns))
      fun _ ↦ False := by
  induction count generalizing line with
  | zero =>
    apply ensures_pure
    intro c hc
    rwa [List.replicate_zero, List.append_nil, List.take_of_length_le hc.length_le]
  | succ count ih =>
    apply (Typed.ensures_putChar hlevel (by decide)).bind
    intro _
    refine Ensures.mono ih (fun _ h ↦ h) ?_ fun _ h ↦ h
    intro _ c hc
    rwa [take_append_take, List.append_assoc, List.singleton_append] at hc

/-! ## Pairs of characters -/

/-- The context once characters were sent: the row of the cursor is in use, and no command counts as
the previous one. -/
def opened (c : Context) : Context :=
  { c.markCursorRow with previous := (0, 0) }

theorem markCursorRow_typed (c : Context) (row : Row) (column : Nat) :
    (c.typed row column).markCursorRow = c.markCursorRow.typed row column := by
  have hmark := modifyScreen_modifyScreen c c.writing (fun s ↦ s.setRow c.cursorRow row)
    fun s ↦ s.markUsed c.cursorRow
  have hset := modifyScreen_modifyScreen c c.writing (fun s ↦ s.markUsed c.cursorRow)
    fun s ↦ s.setRow c.cursorRow row
  have hcomm (s : Screen) : (s.setRow c.cursorRow row).markUsed c.cursorRow =
      (s.markUsed c.cursorRow).setRow c.cursorRow row := by
    unfold Screen.markUsed
    split <;> rfl
  simp only [hcomm] at hmark
  have heq := congrArg (fun c : Context ↦ { c with cursorColumn := column }) (hmark.trans hset.symm)
  exact heq

theorem markUsed_markUsed (s : Screen) (r : Nat) : (s.markUsed r).markUsed r = s.markUsed r := by
  unfold Screen.markUsed RowSet.insert
  split
  · simp [BitVec.or_assoc]
  · rfl

theorem opened_opened (c : Context) : c.opened.opened = c.opened := by
  have htwice := modifyScreen_modifyScreen c c.writing (fun s ↦ s.markUsed c.cursorRow)
    fun s ↦ s.markUsed c.cursorRow
  simp only [markUsed_markUsed] at htwice
  exact congrArg (fun c : Context ↦ { c with previous := (0, 0) }) htwice

/-- The characters of a pair: the second byte is one unless it is zero. -/
def pairCharacters (pair : UInt8 × UInt8) : List UInt8 :=
  if pair.2 = 0 then [pair.1] else [pair.1, pair.2]

theorem Typed.markCursorRow (h : Typed start line c) :
    Typed start.markCursorRow line c.markCursorRow := by
  have hc : c.markCursorRow = start.markCursorRow.typed c.cursorLine line.length := by
    rw [← markCursorRow_typed, ← h.eq_typed]
  rw [hc]
  exact typed_of_prefix h.length_le h.nul_not_mem h.line_prefix

theorem Typed.previous (h : Typed start line c) (pair : UInt8 × UInt8) :
    Typed { start with previous := pair } line { c with previous := pair } where
  length_le := h.length_le
  nul_not_mem := h.nul_not_mem
  line_prefix := h.line_prefix
  eq_typed := congrArg (fun c : Context ↦ { c with previous := pair }) h.eq_typed

theorem Ended.opened (h : Ended start.markCursorRow line c) :
    Ended start.opened line { c with previous := (0, 0) } where
  toTyped := h.toTyped.previous (0, 0)
  ended_prefix := h.ended_prefix

theorem ensures_finishCharacters (first second : UInt8) :
    Ensures (Typed start.markCursorRow line) (finishCharacters first second)
      (fun _ ↦ Ended start.opened line) fun _ ↦ False := by
  have hprevious : Ensures (Ended start.markCursorRow line)
      (modify fun c ↦ { c with previous := (0, 0) }) (fun _ ↦ Ended start.opened line)
      fun _ ↦ False :=
    ensures_modify fun c hc ↦ hc.opened
  apply Typed.ensures_endRow.bind
  intro _
  exact hprevious.bind fun _ ↦ ensures_log fun _ hc ↦ hc

theorem ensures_applyCharacters (hlevel : start.failLevel = .error) {first second : UInt8}
    (hfirst : first ≠ 0) :
    Ensures (Typed start line) (applyCharacters first second)
      (fun _ ↦ Ended start.opened ((line ++ pairCharacters (first, second)).take screenColumns))
      fun _ ↦ False := by
  have hmark : start.markCursorRow.failLevel = .error := hlevel
  have hopen : Ensures (Typed start line) (modify Context.markCursorRow)
      (fun _ ↦ Typed start.markCursorRow line) fun _ ↦ False :=
    ensures_modify fun c hc ↦ hc.markCursorRow
  rw [applyCharacters_eq]
  apply hopen.bind
  intro _
  apply (Typed.ensures_putChar hmark hfirst).bind
  intro _
  split
  · next hsecond =>
    have hchars : pairCharacters (first, second) = [first] ++ [second] := if_neg hsecond
    apply (Typed.ensures_putChar hmark hsecond).bind
    intro _
    rw [take_append_take, List.append_assoc, hchars]
    exact ensures_finishCharacters first second
  · next hsecond =>
    have hchars : pairCharacters (first, second) = [first] := if_pos (not_not.mp hsecond)
    rw [hchars]
    exact ensures_finishCharacters first second

/-- A pair of characters, which no earlier command makes redundant. -/
theorem ensures_characters (hlevel : start.failLevel = .error) (hprevious : start.previous.1 < 0x20)
    {pair : UInt8 × UInt8} (hfirst : 0x20 ≤ pair.1) :
    Ensures (Typed start line) (processPair pair.1 pair.2)
      (fun _ ↦ Ended start.opened ((line ++ pairCharacters pair).take screenColumns))
      fun _ ↦ False := by
  have hne : pair.1 ≠ 0 := by
    intro hzero
    rw [hzero] at hfirst
    exact absurd hfirst (by decide)
  unfold processPair
  apply ensures_get_bind
  intro c hc
  have hnew : ¬ (pair.1, pair.2) = c.previous := by
    intro heq
    rw [hc.previous_eq] at heq
    rw [← heq] at hprevious
    exact UInt8.not_lt.mpr hfirst hprevious
  rw [if_neg hnew, Code.ofPair_of_le hfirst]
  exact ensures_applyCharacters hlevel hne c hc

/-! ## Lines of text -/

/-- A text as byte pairs, filled up with zero. -/
def textPairs : List UInt8 → List (UInt8 × UInt8)
  | [] => []
  | [first] => [(first, 0)]
  | first :: second :: rest => (first, second) :: textPairs rest

theorem reaps_characters (hlevel : start.failLevel = .error) (hreaped : start.reaped = false)
    (hprevious : start.previous.1 < 0x20) {pair : UInt8 × UInt8} (hfirst : 0x20 ≤ pair.1) :
    Reaps (Typed start line) [pair] []
      (Ended start.opened ((line ++ pairCharacters pair).take screenColumns)) := by
  apply reaps_nothing
  refine Ensures.mono (ensures_characters hlevel hprevious hfirst) (fun _ hc ↦ hc) ?_ fun _ hc ↦ hc
  intro _ c hc
  exact ⟨hc.reaped_eq.trans hreaped, hc⟩

/-- A line sent as pairs goes behind what the row of the cursor begins with. -/
theorem reaps_textPairs (hlevel : start.failLevel = .error) (hreaped : start.reaped = false)
    (hprevious : start.previous.1 < 0x20) {text : List UInt8} (hne : text ≠ [])
    (htext : ∀ byte ∈ text, IsPrintable byte) :
    Reaps (Typed start line) (textPairs text) []
      (Ended start.opened ((line ++ text).take screenColumns)) := by
  induction text using textPairs.induct generalizing start line with
  | case1 => exact absurd rfl hne
  | case2 first =>
    exact reaps_characters hlevel hreaped hprevious (htext first (List.mem_singleton_self first)).1
  | case3 first second rest ih =>
    have hfirst := htext first (by simp)
    have hsecond : second ≠ 0 := (htext second (by simp)).ne_zero
    have hrest : ∀ byte ∈ rest, IsPrintable byte := fun byte hbyte ↦ htext byte (by simp [hbyte])
    have hchars : pairCharacters (first, second) = [first, second] := if_neg hsecond
    have hpair : Reaps (Typed start line) [(first, second)] [] (Ended start.opened
        ((line ++ pairCharacters (first, second)).take screenColumns)) :=
      reaps_characters hlevel hreaped hprevious hfirst.1
    rw [hchars] at hpair
    by_cases hnil : rest = []
    · rw [hnil]
      exact hpair
    · -- The rest goes on from a row that is in use already.
      have hzero : (0 : UInt8) < 0x20 := by decide
      have hmore : Reaps (Typed start.opened ((line ++ [first, second]).take screenColumns))
          (textPairs rest) [] (Ended start.opened.opened
            (((line ++ [first, second]).take screenColumns ++ rest).take screenColumns)) :=
        ih hlevel hreaped hzero hnil hrest
      rw [opened_opened, take_append_take, List.append_assoc] at hmore
      exact hpair.append (hmore.mono (fun _ hc ↦ hc.toTyped) fun _ hc ↦ hc)

end Context

end ClosedCaptions
