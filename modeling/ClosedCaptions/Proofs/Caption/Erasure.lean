import ClosedCaptions.Proofs.Caption.Alike
import ClosedCaptions.Proofs.Caption.Rows
import ClosedCaptions.Proofs.Caption.Writing
import Mathlib.Algebra.Order.BigOperators.Group.List
import Mathlib.Algebra.Order.Ring.Nat
import Mathlib.Data.List.Forall2

/-!
# Erased text

Rows are erased by taking them out of use, so their cells stay. They show again when something
brings such a row back into use without ending it: a mid-row code, characters in a later column, a
scroll. Whether they do depends on the pairs alone, and not on what was erased. Two runs tell: one
over rows filled with NUL, and one over rows filled with a visible character.
-/

namespace ClosedCaptions

/-! ## Cells that were filled -/

/-- The second cell stands in the place of the first one, which is its equal or was filled. -/
def Cell.Filled (filler : UInt8) (a b : Cell) : Prop :=
  a = b ∨ a.char = filler

theorem Cell.Filled.refl (filler : UInt8) (cell : Cell) : cell.Filled filler cell :=
  .inl rfl

namespace Row

variable {visible : UInt8} {as bs cs : List Cell}

/-- The characters of cells up to the first NUL. -/
def textOf (cells : List Cell) : List UInt8 :=
  (cells.map Cell.char).takeWhile (· ≠ 0)

theorem textOf_cons_of_eq {cell : Cell} (h : cell.char = 0) (cells : List Cell) :
    textOf (cell :: cells) = [] := by
  simp [textOf, h]

theorem textOf_cons_of_ne {cell : Cell} (h : cell.char ≠ 0) (cells : List Cell) :
    textOf (cell :: cells) = cell.char :: textOf cells := by
  simp [textOf, h]

/-- Cells filled with NUL end the text where visible ones go on. -/
theorem textOf_of_filled (hvisible : visible ≠ 0)
    (h : List.Forall₂ (fun a b ↦ a.Filled 0 b ∧ b.Filled visible a) as bs) :
    textOf as = textOf bs ∨ ∃ rest, textOf bs = textOf as ++ visible :: rest := by
  induction h with
  | nil => exact .inl rfl
  | @cons a b as bs hcell _ ih =>
    by_cases ha : a.char = 0
    · rw [textOf_cons_of_eq ha]
      rcases hcell.2 with rfl | hb
      · exact .inl (textOf_cons_of_eq ha bs).symm
      · refine .inr ⟨textOf bs, ?_⟩
        rw [textOf_cons_of_ne (hb ▸ hvisible), hb, List.nil_append]
    · obtain rfl : a = b := hcell.1.resolve_right ha
      rw [textOf_cons_of_ne ha, textOf_cons_of_ne ha]
      rcases ih with heq | ⟨rest, hrest⟩
      · exact .inl (congrArg _ heq)
      · exact .inr ⟨rest, by rw [hrest, List.cons_append]⟩

/-- Where both fillings read alike, no filled cell is read, so any other filling reads so too. -/
theorem textOf_eq_of_filled (hvisible : visible ≠ 0) (hblank : List.Forall₂ (Cell.Filled 0) as cs)
    (hfull : List.Forall₂ (Cell.Filled visible) bs cs) (heq : textOf as = textOf bs) :
    textOf cs = textOf as := by
  induction hblank generalizing bs with
  | nil => rfl
  | @cons a c as cs ha _ ih =>
    obtain ⟨b, bs, hb, hbs, rfl⟩ := List.forall₂_cons_right_iff.mp hfull
    by_cases hzero : a.char = 0
    · have hbzero : b.char = 0 := by
        by_contra hne
        rw [textOf_cons_of_eq hzero, textOf_cons_of_ne hne] at heq
        contradiction
      have hbc : b = c := hb.resolve_right fun hchar ↦ hvisible (hchar ▸ hbzero)
      rw [textOf_cons_of_eq hzero, textOf_cons_of_eq (hbc ▸ hbzero)]
    · obtain rfl : a = c := ha.resolve_right hzero
      have hbne : b.char ≠ 0 := by
        intro hbzero
        rw [textOf_cons_of_ne hzero, textOf_cons_of_eq hbzero] at heq
        contradiction
      rw [textOf_cons_of_ne hzero, textOf_cons_of_ne hbne] at heq
      rw [textOf_cons_of_ne hzero, textOf_cons_of_ne hzero, ih hbs (List.cons.inj heq).2]

theorem Alike.forall₂ {R : Cell → Cell → Prop} {a b : Row} (h : Row.Alike R a b) :
    List.Forall₂ R a.toList b.toList := by
  rw [List.forall₂_iff_get]
  refine ⟨by simp, ?_⟩
  intro i hi _
  simpa using h i (by simpa using hi)

end Row

/-! ## Lengths of joined lines -/

theorem length_intercalate {α : Type} (separator : List α) (lists : List (List α)) :
    (separator.intercalate lists).length =
      (lists.map List.length).sum + (lists.length - 1) * separator.length := by
  induction lists with
  | nil => simp
  | cons list lists ih =>
    match lists with
    | [] => simp
    | next :: lists =>
      rw [List.intercalate_cons_cons, List.length_append, List.length_append, ih]
      simp only [List.map_cons, List.sum_cons, List.length_cons, Nat.add_sub_cancel, Nat.succ_mul]
      omega

/-- Lines that are joined to the same text, each at most as long as its counterpart, are all as long
as their counterparts. -/
theorem length_eq_of_intercalate_eq {α ι : Type} {separator : List α} {is : List ι}
    {f g : ι → List α} (hle : ∀ i ∈ is, (f i).length ≤ (g i).length)
    (heq : separator.intercalate (is.map f) = separator.intercalate (is.map g)) :
    ∀ i ∈ is, (f i).length = (g i).length := by
  have hsum : (is.map fun i ↦ (f i).length).sum = (is.map fun i ↦ (g i).length).sum := by
    have hlength := congrArg List.length heq
    rw [length_intercalate, length_intercalate, List.length_map, List.length_map, List.map_map,
      List.map_map] at hlength
    exact Nat.add_right_cancel hlength
  intro i hi
  by_contra hne
  exact absurd hsum (Nat.ne_of_lt (List.sum_lt_sum _ _ hle ⟨i, hi, lt_of_le_of_ne (hle i hi) hne⟩))

namespace Screen

variable {visible : UInt8} {s t u : Screen}

theorem length_trimmedText_lt {text rest : List UInt8} (hspace : visible ≠ 0x20) :
    (Context.trimmedText text).length <
      (Context.trimmedText (text ++ visible :: rest)).length := by
  unfold Context.trimmedText
  rw [List.length_map, List.length_map, List.dropWhile_append]
  split
  · next hempty =>
    rw [List.isEmpty_iff.mp hempty, List.dropWhile_cons_of_neg (by simpa using hspace)]
    simp
  · simp

/-- A row filled with visible characters reads the same or is longer. -/
theorem rowText_of_filled (hvisible : visible ≠ 0) (hst : s.Alike (Cell.Filled 0) t)
    (hts : t.Alike (Cell.Filled visible) s) (r : Nat) :
    s.rowText r = t.rowText r ∨ ∃ rest, t.rowText r = s.rowText r ++ visible :: rest := by
  have hrow := hst.row (Cell.Filled.refl 0) r
  have hrow' := hts.row (Cell.Filled.refl visible) r
  have hboth : Row.Alike (fun a b ↦ a.Filled 0 b ∧ b.Filled visible a) (s.row r) (t.row r) :=
    fun i hi ↦ ⟨hrow i hi, hrow' i hi⟩
  exact Row.textOf_of_filled hvisible hboth.forall₂

/-- Where the two fillings give the same text, they read alike in every row, and so does any other
filling. -/
theorem screenText_eq_of_filled (hvisible : visible ≠ 0) (hspace : visible ≠ 0x20)
    (hst : s.Alike (Cell.Filled 0) t) (hts : t.Alike (Cell.Filled visible) s)
    (hsu : s.Alike (Cell.Filled 0) u) (htu : t.Alike (Cell.Filled visible) u)
    (heq : Context.screenText s = Context.screenText t) :
    Context.screenText u = Context.screenText s := by
  have hrows := rowText_of_filled hvisible hst hts
  have hle : ∀ r ∈ s.usedRows, (Context.trimmedText (s.rowText r)).length ≤
      (Context.trimmedText (t.rowText r)).length := by
    intro r _
    rcases hrows r with hsame | ⟨rest, hlonger⟩
    · rw [hsame]
    · rw [hlonger]
      exact Nat.le_of_lt (length_trimmedText_lt hspace)
  have hjoined := String.ofList_inj.mp heq
  rw [← hst.usedRows_eq] at hjoined
  have hsame : ∀ r ∈ s.usedRows, u.rowText r = s.rowText r := by
    intro r hr
    have hlength := length_eq_of_intercalate_eq hle hjoined r hr
    have htext : s.rowText r = t.rowText r := by
      refine (hrows r).resolve_right ?_
      rintro ⟨rest, hlonger⟩
      rw [hlonger] at hlength
      exact absurd hlength (Nat.ne_of_lt (length_trimmedText_lt hspace))
    exact Row.textOf_eq_of_filled hvisible (hsu.row (Cell.Filled.refl 0) r).forall₂
      (htu.row (Cell.Filled.refl visible) r).forall₂ htext
  have hlines : u.usedRows.map (fun r ↦ Context.trimmedText (u.rowText r)) =
      s.usedRows.map fun r ↦ Context.trimmedText (s.rowText r) := by
    rw [← hsu.usedRows_eq]
    exact List.map_congr_left fun r hr ↦ congrArg _ (hsame r hr)
  rw [Context.screenText, hlines, Context.screenText]

end Screen

/-! ## What is reaped -/

namespace Context

open Procedure

theorem ignoresWriting_buffer : IgnoresWriting buffer where
  cursor _ _ _ _ _ := rfl
  screen _ _ := rfl

/-- The screen that a control code reaps. -/
def reapedBy (c : Context) : Control → Option (Fin 2)
  | .carriageReturn => some c.active
  | .endOfCaption => some c.hidden
  | _ => none

/-- The screen that a pair reaps. -/
def reapedScreen? (c : Context) (pair : UInt8 × UInt8) : Option (Fin 2) :=
  if pair = c.previous then none
  else
    match Code.ofPair pair.1 pair.2 with
    | .control control => c.reapedBy control
    | _ => none

/-- The text after a pair: that of the screen it reaps, if any. -/
def textAfter (c : Context) (reaped : Option (Fin 2)) : String :=
  match reaped with
  | some i => screenText (c.screen i)
  | none => c.buffer

theorem buffer_rollUp (c : Context) : c.rollUp.buffer = c.buffer := by
  rw [rollUp_eq]

theorem ensures_applyControl_buffer (before : Context) (control : Control) :
    Ensures (· = before) (applyControl control)
      (fun _ c ↦ c.buffer = before.textAfter (before.reapedBy control))
      fun c ↦ c.buffer = before.textAfter (before.reapedBy control) := by
  cases control with
  | resumeLoading | rollUp | resumeDirect | resumeText | eraseDisplayed | eraseHidden =>
    rintro _ rfl
    rfl
  | deleteToEndOfRow =>
    rintro _ rfl
    exact ignoresWriting_buffer.preserves_endRow _ _ rfl
  | carriageReturn =>
    rintro c rfl
    rw [applyControl, effect_log_bind, effect_modify]
    exact buffer_rollUp c.reap
  | endOfCaption =>
    rintro c rfl
    rfl

theorem ensures_processPair_buffer (before : Context) (pair : UInt8 × UInt8) :
    Ensures (· = before) (processPair pair.1 pair.2)
      (fun _ c ↦ c.buffer = before.textAfter (before.reapedScreen? pair))
      fun c ↦ c.buffer = before.textAfter (before.reapedScreen? pair) := by
  apply ensures_processPair_of_apply
  · intro hrepeated
    rw [reapedScreen?, if_pos hrepeated]
    rfl
  intro hnew
  rw [reapedScreen?, if_neg hnew]
  apply ignoresWriting_buffer.ensures_apply_ofPair
  · intro hcontrol d hd
    have hnone : (match Code.ofPair pair.1 pair.2 with
        | .control control => before.reapedBy control
        | _ => none) = none := by
      split
      · next control hcode => exact absurd hcode (hcontrol control)
      · rfl
    rw [hnone]
    exact ⟨hd, hd⟩
  · intro control hcode
    rw [hcode]
    exact ensures_applyControl_buffer before control

/-! ## Runs -/

theorem buffer_afterPair (c : Context) (pair : UInt8 × UInt8) :
    (c.afterPair pair).buffer = c.textAfter (c.reapedScreen? pair) :=
  (ensures_processPair_buffer c pair c rfl).state (fun _ _ h ↦ h) fun _ h ↦ h

/-- What the outside sees of a context: whether a screen was reaped, and the text. -/
def shown (c : Context) : Bool × String :=
  (c.reaped, c.buffer)

/-- The contexts differ in the cells of rows that are not in use, and in nothing else. -/
structure SameInUse (c d : Context) : Prop where
  eq : d = { c with screens := d.screens }
  used_eq : ∀ i, (d.screen i).used = (c.screen i).used
  row_eq : ∀ i r, (c.screen i).isUsed r = true → (d.screen i).row r = (c.screen i).row r

end Context

/-- The screen with one cell all over the rows that are not in use. -/
def Screen.fillErased (cell : Cell) (s : Screen) : Screen :=
  { s with rows := Vector.ofFn fun r ↦ if s.isUsed r then s.rows[r] else Vector.replicate _ cell }

namespace Context

def fillErased (cell : Cell) (c : Context) : Context :=
  { c with screens := c.screens.map (Screen.fillErased cell) }

/-- A cell that shows where it is read. -/
def visibleCell : Cell :=
  ⟨0x78, .white, .regular⟩

variable {c d : Context} {pair : UInt8 × UInt8}

theorem screen_fillErased (cell : Cell) (c : Context) (i : Fin 2) :
    (c.fillErased cell).screen i = (c.screen i).fillErased cell :=
  Vector.getElem_map _ i.isLt

theorem SameInUse.refl (c : Context) : c.SameInUse c :=
  ⟨rfl, fun _ ↦ rfl, fun _ _ _ ↦ rfl⟩

theorem sameInUse_fillErased (cell : Cell) (c : Context) : c.SameInUse (c.fillErased cell) where
  eq := rfl
  used_eq i := by rw [screen_fillErased, Screen.fillErased]
  row_eq i r hused := by
    have hr : r < screenRows := by
      by_contra hr
      rw [Screen.isUsed_eq_false _ (Nat.le_of_not_lt hr)] at hused
      contradiction
    rw [screen_fillErased, Screen.row_eq_getElem _ hr, Screen.row_eq_getElem _ hr]
    simp [Screen.fillErased, hused]

/-- What has other cells in erased rows has them in the place of a filling. -/
theorem SameInUse.alike_fillErased (h : c.SameInUse d) (cell : Cell) :
    (c.fillErased cell).Alike (Cell.Filled cell.char) d := by
  refine ⟨d.screens, c.buffer, h.eq, ?_⟩
  intro i
  rw [screen_fillErased]
  refine ⟨(h.used_eq i).symm, ?_⟩
  intro r hr column hcolumn
  unfold Screen.fillErased
  dsimp only
  rw [Vector.getElem_ofFn]
  split
  · next hused =>
    have hrow := h.row_eq i r hused
    rw [Screen.row_eq_getElem _ hr, Screen.row_eq_getElem _ hr] at hrow
    exact .inl (congrArg (fun row : Row ↦ row[column]) hrow.symm)
  · rw [Vector.getElem_replicate]
    exact .inr rfl

/-! ## Runs of contexts alike -/

theorem Alike.afterPair {R : Cell → Cell → Prop} (hR : ∀ cell, R cell cell) (h : c.Alike R d)
    (pair : UInt8 × UInt8) : (c.afterPair pair).Alike R (d.afterPair pair) :=
  (parametric_processPair hR pair.1 pair.2 c d h).result_eq.2

theorem Alike.afterPairs {R : Cell → Cell → Prop} (hR : ∀ cell, R cell cell) (h : c.Alike R d)
    (pairs : List (UInt8 × UInt8)) : (c.afterPairs pairs).Alike R (d.afterPairs pairs) := by
  induction pairs generalizing c d with
  | nil => exact h
  | cons pair pairs ih => exact ih (h.afterPair hR pair)

theorem Alike.reaped_eq {R : Cell → Cell → Prop} (h : c.Alike R d) : d.reaped = c.reaped := by
  obtain ⟨screens, buffer, rfl, -⟩ := h
  rfl

theorem Alike.reapedScreen?_eq {R : Cell → Cell → Prop} (h : c.Alike R d) (pair : UInt8 × UInt8) :
    d.reapedScreen? pair = c.reapedScreen? pair := by
  obtain ⟨screens, buffer, rfl, -⟩ := h
  rfl

theorem afterPairs_concat (c : Context) (pairs : List (UInt8 × UInt8)) (pair : UInt8 × UInt8) :
    c.afterPairs (pairs ++ [pair]) = (c.afterPairs pairs).afterPair pair :=
  List.foldl_concat _ _ _ _

/-- One pair: where two fillings then show the same, so does what stands in the place of both. -/
theorem shown_afterPair_eq {visible : UInt8} (hvisible : visible ≠ 0) (hspace : visible ≠ 0x20)
    {a b : Context} (hab : a.Alike (Cell.Filled 0) b) (hba : b.Alike (Cell.Filled visible) a)
    (had : a.Alike (Cell.Filled 0) d) (hbd : b.Alike (Cell.Filled visible) d)
    (hsame : d.shown = a.shown) (hnext : (a.afterPair pair).shown = (b.afterPair pair).shown) :
    (d.afterPair pair).shown = (a.afterPair pair).shown := by
  have hreaped := (had.afterPair (Cell.Filled.refl 0) pair).reaped_eq
  have hbuffer := congrArg Prod.snd hnext
  simp only [shown, buffer_afterPair, hab.reapedScreen?_eq] at hbuffer
  refine Prod.ext hreaped ?_
  simp only [shown, buffer_afterPair, had.reapedScreen?_eq]
  generalize a.reapedScreen? pair = reaped at hbuffer
  cases reaped with
  | none => exact congrArg Prod.snd hsame
  | some i =>
    exact Screen.screenText_eq_of_filled hvisible hspace (hab.screen i) (hba.screen i)
      (had.screen i) (hbd.screen i) hbuffer

/-- Where two fillings show the same after each pair, so does whatever else the erased rows hold. -/
theorem SameInUse.shown_eq {pairs : List (UInt8 × UInt8)}
    (hfilled : ∀ n, ((c.fillErased .blank).afterPairs (pairs.take n)).shown =
      ((c.fillErased visibleCell).afterPairs (pairs.take n)).shown) (hd : c.SameInUse d) (n : Nat) :
    (d.afterPairs (pairs.take n)).shown =
      ((c.fillErased .blank).afterPairs (pairs.take n)).shown := by
  have hblank {d : Context} (hd : c.SameInUse d) :=
    (hd.alike_fillErased .blank).afterPairs (Cell.Filled.refl 0)
  have hvisible {d : Context} (hd : c.SameInUse d) :=
    (hd.alike_fillErased visibleCell).afterPairs (Cell.Filled.refl 0x78)
  induction n with
  | zero =>
    have hstart := congrArg shown hd.eq
    exact hstart
  | succ n ih =>
    cases hpair : pairs[n]? with
    | none =>
      have htake : pairs.take (n + 1) = pairs.take n := by
        rw [List.take_add_one, hpair, Option.toList_none, List.append_nil]
      rw [htake, ih]
    | some pair =>
      have htake : pairs.take (n + 1) = pairs.take n ++ [pair] := by
        rw [List.take_add_one, hpair, Option.toList_some]
      have hnext := hfilled (n + 1)
      rw [htake, afterPairs_concat, afterPairs_concat] at hnext ⊢
      exact shown_afterPair_eq (by decide) (by decide) (hblank (sameInUse_fillErased _ c) _)
        (hvisible (sameInUse_fillErased _ c) _) (hblank hd _) (hvisible hd _) ih hnext

/-- Two runs tell whether anything that was erased can be seen: no other filling of the erased rows
shows in any of the pairs if and only if NUL and a visible character look the same. -/
theorem erased_unobservable_iff (c : Context) (pairs : List (UInt8 × UInt8)) :
    (∀ d, c.SameInUse d → ∀ n,
      (d.afterPairs (pairs.take n)).shown = (c.afterPairs (pairs.take n)).shown) ↔
      ∀ n, ((c.fillErased .blank).afterPairs (pairs.take n)).shown =
        ((c.fillErased visibleCell).afterPairs (pairs.take n)).shown := by
  constructor
  · intro hsame n
    exact (hsame _ (sameInUse_fillErased _ c) n).trans (hsame _ (sameInUse_fillErased _ c) n).symm
  · intro hfilled d hd n
    exact (hd.shown_eq hfilled n).trans ((SameInUse.refl c).shown_eq hfilled n).symm

/-- Erased text can be seen. Two letters are displayed and erased, and a mid-row code at the start
of their row brings the second one back. -/
theorem erased_text_returns :
    ¬ ∀ c d : Context, c.SameInUse d → ∀ (pairs : List (UInt8 × UInt8)) (n : Nat),
      (d.afterPairs (pairs.take n)).shown = (c.afterPairs (pairs.take n)).shown := by
  intro h
  let erased := initial.afterPairs [(0x14, 0x29), (0x11, 0x40), (0x48, 0x65), (0x14, 0x2c)]
  have hshown := h erased _ (sameInUse_fillErased .blank erased)
    [(0x11, 0x40), (0x11, 0x20), (0x14, 0x2d)] 3
  revert hshown
  decide +kernel

end Context

end ClosedCaptions
