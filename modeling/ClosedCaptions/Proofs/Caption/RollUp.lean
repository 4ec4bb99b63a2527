import ClosedCaptions.Proofs.Caption.Placing
import ClosedCaptions.Proofs.Caption.Scroll

/-!
# Roll-up captions

Each carriage return gives out the last lines that were sent, as many as the window has rows, and
makes room for the next one. The lines before stand right above the row of the cursor, so they are
the only rows in use, and none is left from before the screen was erased.
-/

namespace ClosedCaptions

/-- The rows of a roll-up window at a row: its depth, cut off at the top of the screen. -/
def windowRows (depth : Nat) (row : Fin screenRows) : Nat :=
  min (row.val + 1) depth

/-- What is on the screen once a line was sent: the last lines, without leading spaces. -/
def rolledText (depth : Nat) (row : Fin screenRows) (lines : List (List UInt8)) : String :=
  String.ofList (lineBreak.intercalate
    ((lines.rtake (windowRows depth row)).map Context.trimmedText))

namespace Context

open Procedure

/-- Roll-up mode with a window of this depth at this row. -/
structure Rolling (depth : Nat) (row : Fin screenRows) (c : Context) : Prop where
  failLevel : c.failLevel = .error
  mode : c.mode = .rollUp
  rollup : c.rollup = depth
  cursorRow : c.cursorRow = row

/-- A line can be sent below these texts. -/
structure Ready (depth : Nat) (row : Fin screenRows) (texts : List (List UInt8)) (c : Context) :
    Prop extends Rolling depth row c where
  reaped : c.reaped = false
  cursorColumn : c.cursorColumn = 0
  previous_lt : c.previous.1 < 0x20
  shows : (c.screen c.active).Shows (row - texts.length) texts

/-- The last of these texts was just sent. -/
structure Filled (depth : Nat) (row : Fin screenRows) (texts : List (List UInt8)) (c : Context) :
    Prop extends Rolling depth row c where
  reaped : c.reaped = false
  previous : c.previous = (0, 0)
  shows : (c.screen c.active).Shows (row + 1 - texts.length) texts

variable {depth : Nat} {row : Fin screenRows} {texts : List (List UInt8)} {c : Context}

theorem Rolling.writing_eq (h : Rolling depth row c) : c.writing = c.active := by
  unfold writing
  rw [h.mode]

theorem Ready.reaps_text (hroom : texts.length ≤ row) {text : List UInt8} (hne : text ≠ [])
    (hlength : text.length ≤ screenColumns) (htext : ∀ byte ∈ text, IsPrintable byte) :
    Reaps (Ready depth row texts) (textPairs text) [] (Filled depth row (texts ++ [text])) := by
  intro c hc
  have hline : Reaps (Typed c []) (textPairs text) []
      (Ended c.opened (([] ++ text).take screenColumns)) :=
    reaps_textPairs hc.failLevel hc.reaped hc.previous_lt hne htext
  rw [List.nil_append, List.take_of_length_le hlength] at hline
  refine hline.mono (fun _ h ↦ h) ?_ c (typed_nil hc.cursorColumn)
  intro d hd
  have hactive : d.active = c.writing := hd.active_eq.trans hc.writing_eq.symm
  have hshows :
      (d.screen d.active).Shows (row + 1 - (texts ++ [text]).length) (texts ++ [text]) := by
    apply hc.shows.concat hroom
    · intro r
      rw [hactive, hd.isUsed_writing, hc.writing_eq, hc.cursorRow]
    · intro r
      rw [hactive, hd.rowText_writing, hc.writing_eq, hc.cursorRow]
  exact {
    failLevel := hd.failLevel_eq.trans hc.failLevel
    mode := hd.mode_eq.trans hc.mode
    rollup := hd.rollup_eq.trans hc.rollup
    cursorRow := hd.cursorRow_eq.trans hc.cursorRow
    reaped := hd.reaped_eq.trans hc.reaped
    previous := hd.previous_eq
    shows := hshows }

/-- In roll-up mode the displayed screen scrolls. -/
theorem Rolling.rollUp_eq (h : Rolling depth row c) :
    c.rollUp = c.modifyScreen c.active fun s ↦ s.rollUp row depth := by
  have hmode : c.mode ≠ .text := by
    rw [h.mode]
    decide
  rw [Context.rollUp, if_neg hmode, h.writing_eq, h.cursorRow, h.rollup]

theorem Filled.reaps_carriageReturn (hne : texts ≠ [])
    (hfit : texts.length ≤ windowRows depth row) :
    Reaps (Filled depth row texts) [(0x14, 0x2d)]
      [String.ofList (lineBreak.intercalate (texts.map trimmedText))]
      (Ready depth row (texts.rtake (windowRows depth row - 1))) := by
  have hcode : Code.ofPair 0x14 0x2d = .control .carriageReturn := by decide
  have hlt : (0x14 : UInt8) < 0x20 := by decide
  apply Context.reaps_text
  intro c hc
  have hnew : ((0x14, 0x2d) : UInt8 × UInt8) ≠ c.previous := by
    rw [hc.previous]
    decide
  have hreap : Rolling depth row c.reap := { hc.toRolling with }
  have happly : (applyControl .carriageReturn).effect c =
      (.ok (), { c.reap.rollUp with cursorColumn := 0 }) := rfl
  rw [hreap.rollUp_eq] at happly
  have hscreen : (c.reap.modifyScreen c.active fun s ↦ s.rollUp row depth).screen c.active =
      (c.screen c.active).rollUp row depth := by
    rw [screen_modifyScreen, if_pos rfl]
    rfl
  have hshows := hc.shows.rollUp row.isLt hne hfit
  rw [← hscreen] at hshows
  rw [effect_processPair_control hcode hnew happly]
  refine ⟨rfl, hc.shows.screenText_eq, ?_⟩
  exact {
    failLevel := hc.failLevel
    mode := hc.mode
    rollup := hc.rollup
    cursorRow := hc.cursorRow
    reaped := rfl
    cursorColumn := rfl
    previous_lt := hlt
    shows := hshows }

/-! ## Lines one after the other -/

/-- A line that fills at most one row. -/
structure IsRowText (text : List UInt8) : Prop where
  ne_nil : text ≠ []
  length_le : text.length ≤ screenColumns
  printable : ∀ byte ∈ text, IsPrintable byte

/-- The pairs of a line, and the carriage return after it. -/
def rolledPairs (text : List UInt8) : List (UInt8 × UInt8) :=
  textPairs text ++ [(0x14, 0x2d)]

variable {done lines : List (List UInt8)} {text : List UInt8}

theorem length_rtake_le {α : Type} (n : Nat) (xs : List α) : (xs.rtake n).length ≤ n := by
  rw [List.rtake, List.length_drop]
  omega

theorem rtake_rtake {α : Type} {m n : Nat} (h : m ≤ n) (xs : List α) :
    (xs.rtake n).rtake m = xs.rtake m := by
  unfold List.rtake
  rw [List.drop_drop, List.length_drop]
  congr 1
  omega

theorem windowRows_pos (hdepth : 0 < depth) : 0 < windowRows depth row := by
  unfold windowRows
  omega

theorem windowRows_le : windowRows depth row ≤ row + 1 :=
  Nat.min_le_left _ _

/-- The last lines, once one more was sent. -/
theorem rtake_concat (hdepth : 0 < depth) (done : List (List UInt8)) (text : List UInt8) :
    (done ++ [text]).rtake (windowRows depth row) =
      done.rtake (windowRows depth row - 1) ++ [text] := by
  have hsucc : windowRows depth row = windowRows depth row - 1 + 1 :=
    (Nat.sub_add_cancel (windowRows_pos hdepth)).symm
  rw [hsucc, List.rtake_concat_succ, Nat.add_sub_cancel]

theorem reaps_rolledText (hdepth : 0 < depth) (htext : IsRowText text) :
    Reaps (Ready depth row (done.rtake (windowRows depth row - 1))) (textPairs text) []
      (Filled depth row ((done ++ [text]).rtake (windowRows depth row))) := by
  have hroom : (done.rtake (windowRows depth row - 1)).length ≤ row := by
    have hlength := length_rtake_le (windowRows depth row - 1) done
    have hrows : windowRows depth row ≤ row + 1 := windowRows_le
    omega
  rw [rtake_concat hdepth]
  exact Ready.reaps_text hroom htext.ne_nil htext.length_le htext.printable

theorem reaps_rolledReturn (hdepth : 0 < depth) :
    Reaps (Filled depth row ((done ++ [text]).rtake (windowRows depth row))) [(0x14, 0x2d)]
      [rolledText depth row (done ++ [text])]
      (Ready depth row ((done ++ [text]).rtake (windowRows depth row - 1))) := by
  have hne : (done ++ [text]).rtake (windowRows depth row) ≠ [] := by
    rw [rtake_concat hdepth]
    simp
  have hreturn := Filled.reaps_carriageReturn hne (length_rtake_le _ _)
  rwa [rtake_rtake (Nat.sub_le _ _)] at hreturn

/-- Every line is given out by the carriage return after it, below the lines before. -/
theorem reaps_rolledPairs (hdepth : 0 < depth) (hlines : ∀ text ∈ lines, IsRowText text) :
    Reaps (Ready depth row (done.rtake (windowRows depth row - 1))) (lines.flatMap rolledPairs)
      ((List.range lines.length).map fun j ↦ rolledText depth row (done ++ lines.take (j + 1)))
      (Ready depth row ((done ++ lines).rtake (windowRows depth row - 1))) := by
  induction lines generalizing done with
  | nil =>
    rw [List.append_nil]
    exact reaps_nil fun _ h ↦ h
  | cons text lines ih =>
    have hassoc : done ++ text :: lines = (done ++ [text]) ++ lines := by simp
    have htexts : ((List.range (text :: lines).length).map fun j ↦
          rolledText depth row (done ++ (text :: lines).take (j + 1))) =
        [rolledText depth row (done ++ [text])] ++ (List.range lines.length).map fun j ↦
          rolledText depth row ((done ++ [text]) ++ lines.take (j + 1)) := by
      simp [List.range_succ_eq_map, Function.comp_def]
    have hline : Reaps (Ready depth row (done.rtake (windowRows depth row - 1)))
        (rolledPairs text) [rolledText depth row (done ++ [text])]
        (Ready depth row ((done ++ [text]).rtake (windowRows depth row - 1))) :=
      (reaps_rolledText hdepth (hlines text List.mem_cons_self)).append (reaps_rolledReturn hdepth)
    have hrest := hline.append (ih fun text htext ↦ hlines text (List.mem_cons_of_mem _ htext))
    rw [hassoc, htexts]
    exact hrest

/-! ## From any context -/

/-- The pairs that begin roll-up captions: the command with its depth, the erasure of the screen and
the preamble code. -/
def rollUpPairs (depth : Nat) (preamble : UInt8 × UInt8) : List (UInt8 × UInt8) :=
  [(0x14, UInt8.ofNat (0x23 + depth)), (0x14, 0x2c), preamble]

theorem ofPair_rollUp (hdepth : depth ∈ [2, 3, 4]) :
    Code.ofPair 0x14 (UInt8.ofNat (0x23 + depth)) = .control (.rollUp depth) := by
  revert hdepth
  revert depth
  decide

/-- The window has this depth afterwards also where the command is a repetition. -/
theorem effect_rollUp (h : c.Remembers (fun _ ↦ True)) (hdepth : depth ∈ [2, 3, 4]) :
    (processPair 0x14 (UInt8.ofNat (0x23 + depth))).effect c =
      (.ok (), { c with
        rollup := depth
        mode := .rollUp
        previous := (0x14, UInt8.ofNat (0x23 + depth)) }) := by
  have hsame (hforce : c.mode = .rollUp ∧ c.rollup = depth) :
      { c with rollup := depth, mode := .rollUp } = c := by
    rw [← hforce.1, ← hforce.2]
  exact effect_processPair_remembers (ofPair_rollUp hdepth) (S := fun _ ↦ True) trivial h rfl hsame

variable {preamble : UInt8 × UInt8} {style : Style}

/-- After the preamble code no row of the displayed screen is in use. -/
theorem reaps_rollUpPairs (hlevel : c.failLevel = .error) (hreaped : c.reaped = false)
    (h : c.Remembers (fun _ ↦ True)) (hdepth : depth ∈ [2, 3, 4])
    (hcode : Code.ofPair preamble.1 preamble.2 = .preamble (some row) style)
    (hindent : style.indent = 0) :
    Reaps (· = c) (rollUpPairs depth preamble) [] (Ready depth row []) := by
  let rolling : Context := { c with
    rollup := depth
    mode := .rollUp
    previous := (0x14, UInt8.ofNat (0x23 + depth)) }
  let erased : Context :=
    { rolling.modifyScreen c.active Screen.clear with previous := (0x14, 0x2c) }
  have herase : Code.ofPair 0x14 0x2c = .control .eraseDisplayed := by decide
  have hrolling : Reaps (· = c) [(0x14, UInt8.ofNat (0x23 + depth))] [] (· = rolling) := by
    apply reaps_nothing
    rintro _ rfl
    rw [effect_rollUp h hdepth]
    exact ⟨hreaped, rfl⟩
  have herased : Reaps (· = rolling) [(0x14, 0x2c)] [] (· = erased) := by
    have hnew : ((0x14, 0x2c) : UInt8 × UInt8) ≠ (0x14, UInt8.ofNat (0x23 + depth)) := by
      intro heq
      have hbyte : UInt8.ofNat (0x23 + depth) = 0x2c := (congrArg Prod.snd heq).symm
      have hrollUp := ofPair_rollUp hdepth
      rw [hbyte, herase] at hrollUp
      exact absurd (Code.control.inj hrollUp) nofun
    apply reaps_nothing
    intro d hd
    rw [hd, effect_processPair_control herase hnew rfl]
    exact ⟨hreaped, rfl⟩
  have hscreen : erased.screen c.active = (c.screen c.active).clear := by
    have hmodify := screen_modifyScreen rolling c.active c.active Screen.clear
    rwa [if_pos rfl] at hmodify
  have hplaced : Reaps (· = erased) [preamble] [] (Ready depth row []) := by
    have hnew : preamble ≠ (0x14, 0x2c) := by
      rintro rfl
      exact absurd (herase.symm.trans hcode) nofun
    have hnone : indentation style = [] := by rw [indentation, hindent, List.replicate_zero]
    apply reaps_nothing
    refine (ensures_preamble (c := erased) hlevel hcode hnew).mono (fun _ h ↦ h) ?_ fun _ h ↦ h
    intro _ d hd
    rw [hnone] at hd
    have hunused (r : Nat) : (d.screen d.active).isUsed r = false := by
      rw [hd.active_eq, hd.isUsed_eq]
      exact (congrArg (Screen.isUsed · r) hscreen).trans (Screen.isUsed_clear _ r)
    refine ⟨hd.reaped_eq.trans hreaped, ?_⟩
    exact {
      failLevel := hd.failLevel_eq.trans hlevel
      mode := hd.mode_eq
      rollup := hd.rollup_eq
      cursorRow := hd.cursorRow_eq
      reaped := hd.reaped_eq.trans hreaped
      cursorColumn := hd.cursorColumn_eq
      previous_lt := by
        rw [hd.previous_eq]
        exact Code.lt_of_isPreamble (Code.eq_of_ofPair_eq_preamble hcode).1
      shows := Screen.shows_nil hunused _ }
  exact hrolling.append (herased.append hplaced)

/-- Whatever was decoded before, the carriage return after each line gives out the last lines.
Nothing else is given out. -/
theorem rollUp_captions {operations : List Decoder.Operation} (hflush : .flush ∉ operations)
    (hlevel : (Decoder.after operations).context.failLevel = .error) (hdepth : depth ∈ [2, 3, 4])
    (hcode : Code.ofPair preamble.1 preamble.2 = .preamble (some row) style)
    (hindent : style.indent = 0) (hlines : ∀ text ∈ lines, IsRowText text) {j : Nat}
    (hj : j < lines.length) :
    ∃ before next,
      (reapPairs (rollUpPairs depth preamble ++ (lines.take j).flatMap rolledPairs ++
          textPairs lines[j])).effect (Decoder.after operations).context =
        (.ok ((List.range j).map fun i ↦ rolledText depth row (lines.take (i + 1))), before) ∧
      (reapPairs [(0x14, 0x2d)]).effect before =
        (.ok [rolledText depth row (lines.take (j + 1))], next) := by
  obtain ⟨hremembers, hreaped⟩ := Decoder.remembers_after_of_not_flush hflush
  have hpositive : 0 < depth := by
    simp only [List.mem_cons, List.not_mem_nil, or_false] at hdepth
    omega
  have htake : lines.take j ++ [lines[j]] = lines.take (j + 1) :=
    (List.take_succ_eq_append_getElem hj).symm
  have htexts : ((List.range (lines.take j).length).map fun i ↦
        rolledText depth row ([] ++ (lines.take j).take (i + 1))) =
      (List.range j).map fun i ↦ rolledText depth row (lines.take (i + 1)) := by
    rw [List.length_take, Nat.min_eq_left (Nat.le_of_lt hj)]
    apply List.map_congr_left
    intro i hi
    rw [List.nil_append, List.take_take, Nat.min_eq_left (List.mem_range.mp hi)]
  have hstart := reaps_rollUpPairs hlevel hreaped hremembers hdepth hcode hindent
  have hsent : Reaps (Ready depth row (List.rtake [] (windowRows depth row - 1)))
      ((lines.take j).flatMap rolledPairs)
      ((List.range (lines.take j).length).map fun i ↦
        rolledText depth row ([] ++ (lines.take j).take (i + 1)))
      (Ready depth row (([] ++ lines.take j).rtake (windowRows depth row - 1))) :=
    reaps_rolledPairs hpositive fun text htext ↦ hlines text (List.mem_of_mem_take htext)
  rw [htexts, List.rtake_nil, List.nil_append] at hsent
  have hline : Reaps (Ready depth row ((lines.take j).rtake (windowRows depth row - 1)))
      (textPairs lines[j]) []
      (Filled depth row ((lines.take (j + 1)).rtake (windowRows depth row))) := by
    rw [← htake]
    exact reaps_rolledText hpositive (hlines lines[j] (List.getElem_mem hj))
  have hreturn : Reaps (Filled depth row ((lines.take (j + 1)).rtake (windowRows depth row)))
      [(0x14, 0x2d)] [rolledText depth row (lines.take (j + 1))]
      (Ready depth row ((lines.take (j + 1)).rtake (windowRows depth row - 1))) := by
    rw [← htake]
    exact reaps_rolledReturn hpositive
  obtain ⟨before, heffect, hfilled⟩ := ((hstart.append hsent).append hline).effect_eq rfl
  obtain ⟨next, hnext, -⟩ := hreturn.effect_eq hfilled
  rw [List.append_nil] at heffect
  exact ⟨before, next, heffect, hnext⟩

/-- The third of three lines in a window of two rows, over a stale character. -/
theorem rollUp_third_line :
    ∃ before next,
      (reapPairs (rollUpPairs 2 (0x14, 0x70) ++ [[0x41], [0x42]].flatMap rolledPairs ++
          textPairs [0x20, 0x43])).effect
          (Decoder.after [.decode [0xFC, 0x58, 0x80] 0]).context = (.ok ["A", "A\\NB"], before) ∧
      (reapPairs [(0x14, 0x2d)]).effect before = (.ok ["B\\NC"], next) := by
  have htext (text : List UInt8) (h : text ∈ [[0x41], [0x42], [0x20, 0x43]]) : IsRowText text := by
    simp only [List.mem_cons, List.not_mem_nil, or_false] at h
    rcases h with rfl | rfl | rfl <;> exact ⟨by decide, by decide, isPrintable_of_all rfl⟩
  have hnone : Decoder.Operation.flush ∉ [.decode [0xFC, 0x58, 0x80] 0] := by simp
  have hcode : Code.ofPair 0x14 0x70 = .preamble (some 14) ⟨.white, .regular, 0⟩ := by decide
  have hthird : 2 < [[0x41], [0x42], [0x20, 0x43]].length := by decide
  exact @rollUp_captions 2 14 _ (0x14, 0x70) _ _ hnone rfl (by decide) hcode rfl htext _ hthird

end Context

end ClosedCaptions
