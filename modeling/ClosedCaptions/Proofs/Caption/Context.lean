import ClosedCaptions.Proofs.Caption.Code
import ClosedCaptions.Proofs.Caption.Text
import ClosedCaptions.Proofs.Ensures

/-!
# Well-formed contexts

What holds of a context whatever byte pairs it has seen. Each command keeps it, also where it fails
half way, and nothing fails unless problems of severity `warn` are fatal.
-/

namespace ClosedCaptions.Context

open Procedure

structure WellFormed (c : Context) : Prop where
  cursorColumn_le : c.cursorColumn ≤ screenColumns
  rollup_mem : c.rollup ∈ [0, 2, 3, 4]
  screens : ∀ i, (c.screen i).WellFormed
  previous_lt : c.previous.1 < 0x20
  buffer : IsCueText c.buffer

/-- A well-formed context with this level of fatal problems. -/
structure WellFormedAt (level : Severity) (c : Context) : Prop extends WellFormed c where
  failLevel_eq : c.failLevel = level

/-- Successes and failures leave a well-formed context, and failures need warnings to be fatal. -/
def Maintains {α : Type} (level : Severity) (p : Procedure Context α) : Prop :=
  Ensures (WellFormedAt level) p (fun _ ↦ WellFormedAt level)
    fun c ↦ WellFormedAt level c ∧ Severity.warn ≤ level

theorem wellFormed_initial : initial.WellFormed where
  cursorColumn_le := Nat.zero_le _
  rollup_mem := by decide
  screens i := by
    unfold screen initial
    dsimp only
    rw [Fin.getElem_fin, Vector.getElem_replicate]
    exact Screen.wellFormed_blank
  previous_lt := by decide
  buffer := isCueText_empty

variable {c : Context} {level : Severity} {α β : Type}

theorem screen_modifyScreen (c : Context) (i j : Fin 2) (f : Screen → Screen) :
    (c.modifyScreen i f).screen j = if j = i then f (c.screen i) else c.screen j := by
  unfold modifyScreen screen
  dsimp only
  rw [Fin.getElem_fin, Fin.getElem_fin, Fin.getElem_fin, Vector.getElem_set]
  split
  · next h => rw [if_pos (Fin.ext h.symm)]
  · next h => rw [if_neg fun hji ↦ h (congrArg Fin.val hji).symm]

/-- Scrolling changes a screen and nothing else. -/
theorem rollUp_eq (c : Context) : c.rollUp = { c with screens := c.rollUp.screens } := by
  unfold Context.rollUp
  split <;> rfl

theorem screen_flush (c : Context) (i : Fin 2) : c.flush.screen i = (c.screen i).clear := by
  unfold screen Context.flush
  dsimp only
  rw [Fin.getElem_fin, Fin.getElem_fin, Vector.getElem_map]

namespace WellFormedAt

theorem modifyScreen (h : c.WellFormedAt level) (i : Fin 2) {f : Screen → Screen}
    (hf : ∀ s, s.WellFormed → (f s).WellFormed) : (c.modifyScreen i f).WellFormedAt level :=
  { h with
    screens := by
      intro j
      rw [screen_modifyScreen]
      split
      · exact hf _ (h.screens i)
      · exact h.screens j }

theorem markCursorRow (h : c.WellFormedAt level) : c.markCursorRow.WellFormedAt level :=
  h.modifyScreen _ fun _ hs ↦ hs.markUsed _

theorem reap (h : c.WellFormedAt level) : c.reap.WellFormedAt level :=
  { h with buffer := isCueText_screenText (h.screens c.active) }

theorem rollUp (h : c.WellFormedAt level) : c.rollUp.WellFormedAt level := by
  unfold Context.rollUp
  split
  · exact h
  · exact h.modifyScreen _ fun _ hs ↦ hs.rollUp _ _

theorem flush (h : c.WellFormedAt level) : c.flush.WellFormedAt level :=
  { h with
    screens := by
      intro i
      rw [screen_flush]
      exact (h.screens i).clear
    buffer := isCueText_empty }

theorem column (h : c.WellFormedAt level) {column : Nat} (hcolumn : column ≤ screenColumns) :
    WellFormedAt level { c with cursorColumn := column } :=
  { h with cursorColumn_le := hcolumn }

end WellFormedAt

/-! ## Rules -/

theorem maintains_pure (a : α) : Maintains level (pure a) :=
  ensures_pure fun _ h ↦ h

theorem maintains_log (entry : Entry) : Maintains level (log entry) :=
  ensures_log fun _ h ↦ h

theorem maintains_modify {f : Context → Context}
    (h : ∀ c, c.WellFormedAt level → (f c).WellFormedAt level) : Maintains level (modify f) :=
  ensures_modify h

theorem Maintains.bind {p : Procedure Context α} {f : α → Procedure Context β}
    (hp : Maintains level p) (hf : ∀ a, Maintains level (f a)) : Maintains level (p >>= f) :=
  Ensures.bind hp hf

/-! ## Characters -/

/-- What is written is NUL or stands in one of the 32 columns of text. -/
theorem ensures_writeChar (char : UInt8) :
    Ensures (WellFormedAt level) (writeChar char)
      (fun written c ↦ c.WellFormedAt level ∧
        (written = true → char = 0 ∨ c.cursorColumn < screenColumns))
      fun c ↦ c.WellFormedAt level ∧ Severity.warn ≤ level := by
  unfold writeChar
  apply ensures_get_bind
  intro c hc
  split
  · next written hwrite =>
    have hscreen : ∀ s : Screen, s.WellFormed → written.WellFormed := fun _ _ ↦
      (hc.screens _).write hwrite
    rw [effect_modify_bind, effect_pure]
    refine ⟨hc.modifyScreen _ hscreen, ?_⟩
    intro _
    unfold Screen.write at hwrite
    split at hwrite
    · next hcell =>
      rcases hcell with hlt | ⟨-, hchar⟩
      · exact .inr hlt
      · exact .inl hchar
    · contradiction
  · next problem hwrite =>
    unfold tolerate
    rw [hc.failLevel_eq]
    split
    · next hlevel =>
      rw [effect_fail_bind]
      exact ⟨hc, hlevel⟩
    · rw [effect_log_bind, effect_pure]
      exact ⟨hc, fun h ↦ absurd h Bool.false_ne_true⟩

theorem maintains_putChar {char : UInt8} (hchar : char ≠ 0) : Maintains level (putChar char) := by
  unfold putChar
  apply (ensures_writeChar char).bind
  intro written
  split
  · next hwritten =>
    apply ensures_modify
    intro c hc
    rcases hc.2 hwritten with hzero | hlt
    · exact absurd hzero hchar
    · exact hc.1.column hlt
  · exact ensures_pure fun _ hc ↦ hc.1

theorem maintains_putSpaces (count : Nat) : Maintains level (putSpaces count) := by
  induction count with
  | zero => exact maintains_pure ()
  | succ count ih => exact (maintains_putChar (by decide)).bind fun _ ↦ ih

theorem maintains_endRow : Maintains level endRow := by
  unfold endRow
  apply (ensures_writeChar 0).bind
  intro _
  exact ensures_pure fun _ hc ↦ hc.1

/-- What comes after the characters of a pair. -/
def finishCharacters (first second : UInt8) : Procedure Context Unit := do
  endRow
  modify fun c ↦ { c with previous := (0, 0) }
  log (.characters first second)

theorem applyCharacters_eq (first second : UInt8) :
    applyCharacters first second = (do
      modify markCursorRow
      putChar first
      if second ≠ 0 then
        putChar second
      finishCharacters first second) := rfl

theorem maintains_finishCharacters (first second : UInt8) :
    Maintains level (finishCharacters first second) := by
  apply maintains_endRow.bind
  intro _
  apply Maintains.bind
  · apply maintains_modify
    intro c hc
    have hzero : (0 : UInt8) < 0x20 := by decide
    exact { hc with previous_lt := hzero }
  · intro _
    exact maintains_log _

theorem maintains_applyCharacters {first : UInt8} (hfirst : 0x20 ≤ first) (second : UInt8) :
    Maintains level (applyCharacters first second) := by
  have hne : first ≠ 0 := by
    rintro rfl
    exact absurd hfirst (by decide)
  have hfinish : Maintains level (finishCharacters first second) :=
    maintains_finishCharacters first second
  rw [applyCharacters_eq]
  apply (maintains_modify fun c hc ↦ hc.markCursorRow).bind
  intro _
  apply (maintains_putChar hne).bind
  intro _
  split
  · next hsecond => exact (maintains_putChar hsecond).bind fun _ ↦ hfinish
  · exact hfinish

/-! ## Commands -/

theorem maintains_applyPreamble (row : Option (Fin screenRows)) (style : Style) :
    Maintains level (applyPreamble row style) := by
  unfold applyPreamble
  match row with
  | none => exact maintains_log _
  | some row =>
    apply Maintains.bind
    · apply maintains_modify
      intro c hc
      exact { hc with cursorColumn_le := Nat.zero_le _ }
    · intro _
      exact maintains_putSpaces _

theorem maintains_applyMidRow (style : Style) : Maintains level (applyMidRow style) := by
  unfold applyMidRow
  apply Maintains.bind
  · apply maintains_modify
    intro c hc
    exact { hc with }
  intro _
  apply (maintains_modify fun c hc ↦ hc.markCursorRow).bind
  intro _
  exact maintains_putChar (by decide)

theorem maintains_applyControl {control : Control}
    (hdepth : ∀ depth, control = .rollUp depth → depth ∈ [2, 3, 4]) :
    Maintains level (applyControl control) := by
  cases control with
  | resumeLoading | resumeDirect | resumeText =>
    exact maintains_modify fun c hc ↦ { hc with }
  | deleteToEndOfRow => exact maintains_endRow
  | rollUp depth =>
    apply maintains_modify
    intro c hc
    exact { hc with rollup_mem := List.mem_cons_of_mem 0 (hdepth depth rfl) }
  | eraseDisplayed | eraseHidden =>
    exact maintains_modify fun c hc ↦ hc.modifyScreen _ fun _ hs ↦ hs.clear
  | carriageReturn =>
    apply (maintains_log _).bind
    intro _
    exact maintains_modify fun c hc ↦ hc.reap.rollUp.column (Nat.zero_le _)
  | endOfCaption =>
    apply (maintains_log _).bind
    intro _
    apply maintains_modify
    intro c hc
    apply WellFormedAt.reap
    exact { hc with cursorColumn_le := Nat.zero_le _ }

theorem maintains_remember {first : UInt8} (h : first < 0x20) (second : UInt8) :
    Maintains level (remember first second) :=
  maintains_modify fun _ hc ↦ { hc with previous_lt := h }

theorem maintains_apply (first second : UInt8) :
    Maintains level (apply first second (Code.ofPair first second)) := by
  unfold Code.ofPair
  split
  · next hpreamble =>
    have hfirst := Code.lt_of_isPreamble hpreamble
    exact (maintains_applyPreamble _ _).bind fun _ ↦ maintains_remember hfirst second
  split
  · next hmidRow =>
    have hfirst := Code.lt_of_isMidRow hmidRow
    exact (maintains_applyMidRow _).bind fun _ ↦ maintains_remember hfirst second
  split
  · next hcontrol =>
    have hfirst := Code.lt_of_isControl hcontrol
    split
    · next control hbyte =>
      have hdepth : ∀ depth, control = .rollUp depth → depth ∈ [2, 3, 4] := by
        rintro depth rfl
        exact Control.depth_of_ofByte? hbyte
      exact (maintains_applyControl hdepth).bind fun _ ↦ maintains_remember hfirst second
    · exact (maintains_log _).bind fun _ ↦ maintains_remember hfirst second
  split
  · next htab =>
    have hfirst := Code.lt_of_isTabOffset htab
    exact maintains_remember hfirst second
  split
  · next hcharacters => exact maintains_applyCharacters hcharacters second
  · next hother =>
    exact (maintains_log _).bind fun _ ↦ maintains_remember (UInt8.not_le.mp hother) second

/-- Every byte pair, whatever its code. -/
theorem maintains_processPair (first second : UInt8) :
    Maintains level (processPair first second) := by
  unfold processPair
  apply ensures_get_bind
  intro c hc
  split
  · exact hc
  · exact maintains_apply first second c hc

/-! ## Pairs -/

variable {first second : UInt8}

/-- A repetition is ignored. -/
theorem effect_processPair_of_eq (h : (first, second) = c.previous) :
    (processPair first second).effect c = (.ok (), c) := by
  unfold processPair
  rw [effect_get_bind, if_pos h, effect_pure]

/-- A pair that is no repetition is applied. -/
theorem effect_processPair_of_ne (h : (first, second) ≠ c.previous) :
    (processPair first second).effect c =
      (apply first second (Code.ofPair first second)).effect c := by
  unfold processPair
  rw [effect_get_bind, if_neg h]

/-- A pair is ignored as a repetition, or it is applied. -/
theorem ensures_processPair_of_apply {before : Context} {Q E : Context → Prop}
    (hrepeated : (first, second) = before.previous → Q before)
    (hnew : (first, second) ≠ before.previous →
      Ensures (· = before) (apply first second (Code.ofPair first second)) (fun _ ↦ Q) E) :
    Ensures (· = before) (processPair first second) (fun _ ↦ Q) E := by
  rintro c rfl
  by_cases hsame : (first, second) = c.previous
  · rw [effect_processPair_of_eq hsame]
    exact hrepeated hsame
  · rw [effect_processPair_of_ne hsame]
    exact hnew hsame c rfl

theorem effect_processPair_control {control : Control} {d : Context}
    (hcode : Code.ofPair first second = .control control)
    (hnew : (first, second) ≠ c.previous)
    (happly : (applyControl control).effect c = (.ok (), d)) :
    (processPair first second).effect c = (.ok (), { d with previous := (first, second) }) := by
  rw [effect_processPair_of_ne hnew, hcode, apply, effect_bind_ok happly]
  rfl

/-- What a pair leaves, also where it fails. -/
def afterPair (c : Context) (pair : UInt8 × UInt8) : Context :=
  ((processPair pair.1 pair.2).run c).state

def afterPairs (c : Context) (pairs : List (UInt8 × UInt8)) : Context :=
  pairs.foldl afterPair c

/-! ## Lookups -/

/-- Whatever is looked up for a byte pair, to scroll or to reap is there. The types of the cursor
row and of the active screen never cut a number off: a preamble code addresses the row that its
table gives, and the hidden screen is the other one. -/
structure InBounds (c : Context) : Prop where
  preamble : ∀ first second, Code.isPreamble first second = true →
    (∃ row : Fin screenRows, preambleRows[preambleIndex first second]? = some (row.val + 1 : Int) ∧
      preambleRow? first second = some row) ∧ second.toNat % 32 < Style.table.length
  valid_row : ∀ first second style, Code.ofPair first second ≠ .preamble none style
  midRow : ∀ first second, Code.isMidRow first second = true →
    0x20 ≤ second.toNat ∧ second.toNat - 0x20 < Style.table.length
  screens : c.active.val < 2 ∧ c.hidden.val = c.active.val ^^^ 1 ∧ c.writing.val < 2
  cell : ∀ (s written : Screen) (column : Nat) (cell : Cell),
    s.write c.cursorRow column cell = .ok written →
      c.cursorRow.val < screenRows ∧ column < screenColumns + 1
  window : (Screen.window c.cursorRow c.rollup).length ≤ c.cursorRow.val + 1 ∧
    ∀ r ∈ Screen.window c.cursorRow c.rollup, r < screenRows
  reaped : ∀ r ∈ (c.screen c.active).usedRows, r < screenRows

theorem inBounds (c : Context) : c.InBounds where
  preamble first second h := ⟨preambleRow?_eq_some h, Nat.mod_lt _ (by decide)⟩
  valid_row := Code.ofPair_ne_preamble_none
  midRow first second h := by
    have hranges := Code.isMidRow_iff.mp h
    have hlength : Style.table.length = 32 := rfl
    omega
  screens := by
    refine ⟨c.active.isLt, ?_, c.writing.isLt⟩
    unfold hidden
    generalize c.active = active
    revert active
    decide
  cell s written column cell h := ⟨c.cursorRow.isLt, Screen.column_lt_of_write h⟩
  window := by
    refine ⟨?_, ?_⟩
    · rw [Screen.length_window]
      exact Nat.min_le_left _ _
    · intro r hr
      exact Nat.lt_of_le_of_lt (Screen.le_of_mem_window hr) c.cursorRow.isLt
  reaped r hr := Screen.lt_of_mem_usedRows hr

end ClosedCaptions.Context
