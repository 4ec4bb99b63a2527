import ClosedCaptions.Proofs.Caption.Packet
import ClosedCaptions.Proofs.Caption.Standing

/-!
# Double buffering

One of the two screens is written to, and the other one is spare. Whatever a pair does, and also
where it fails, the cells of the spare screen stay. Its rows go out of use when the pair erases that
screen, and not otherwise. In pop-on mode the spare screen is the one that is displayed.
-/

namespace ClosedCaptions

/-- The code erases what is displayed, puts the hidden screen in its place or leaves pop-on mode. -/
def Code.changesDisplay : Code → Bool
  | .control .eraseDisplayed | .control .endOfCaption | .control (.rollUp _)
  | .control .resumeDirect | .control .resumeText => true
  | _ => false

namespace Context

open Procedure

/-- The pair asks to erase the spare screen. -/
def Erases (c : Context) (pair : UInt8 × UInt8) : Prop :=
  Code.ofPair pair.1 pair.2 = .control .eraseDisplayed ∧ c.spare = c.active ∨
    Code.ofPair pair.1 pair.2 = .control .eraseHidden ∧ c.spare = c.hidden

instance (c : Context) (pair : UInt8 × UInt8) : Decidable (c.Erases pair) :=
  inferInstanceAs (Decidable (_ ∨ _))

/-- If the previous command erased the spare screen, no row of it came into use since. -/
def StaysErased (c : Context) : Prop :=
  c.Erases c.previous → (c.screen c.spare).used = 0

/-- The part of a context that tells the spare screen. -/
structure Backdrop where
  mode : Mode
  active : Fin 2
  previous : UInt8 × UInt8
  screen : Screen

def backdrop (c : Context) : Backdrop :=
  ⟨c.mode, c.active, c.previous, c.screen c.spare⟩

variable {c d : Context} {pair : UInt8 × UInt8} {first second : UInt8}

theorem other_ne (i : Fin 2) : 1 - i ≠ i := by
  revert i
  decide

theorem other_other (i : Fin 2) : 1 - (1 - i) = i := by
  revert i
  decide

theorem hidden_ne_active (c : Context) : c.hidden ≠ c.active :=
  other_ne c.active

theorem spare_ne_writing (c : Context) : c.spare ≠ c.writing :=
  other_ne c.writing

theorem spare_of_popOn (h : c.mode = .popOn) : c.spare = c.active := by
  unfold spare writing hidden
  rw [h]
  exact other_other c.active

theorem spare_congr (hmode : d.mode = c.mode) (hactive : d.active = c.active) :
    d.spare = c.spare := by
  unfold spare writing hidden
  rw [hmode, hactive]

theorem ignoresWriting_backdrop : IgnoresWriting backdrop where
  cursor _ _ _ _ _ := rfl
  screen c f := by
    have hspare : (c.modifyScreen c.writing f).screen c.spare = c.screen c.spare := by
      rw [screen_modifyScreen, if_neg c.spare_ne_writing]
    exact congrArg (Backdrop.mk c.mode c.active c.previous) hspare

theorem spare_eq_of_backdrop_eq (h : d.backdrop = c.backdrop) : d.spare = c.spare :=
  spare_congr (congrArg Backdrop.mode h) (congrArg Backdrop.active h)

theorem screen_eq_of_backdrop_eq (h : d.backdrop = c.backdrop) :
    d.screen c.spare = c.screen c.spare := by
  have hscreen : d.screen d.spare = c.screen c.spare := congrArg Backdrop.screen h
  rwa [spare_eq_of_backdrop_eq h] at hscreen

theorem StaysErased.congr (h : c.StaysErased) (heq : d.backdrop = c.backdrop) : d.StaysErased := by
  have hactive : d.active = c.active := congrArg Backdrop.active heq
  have hprevious : d.previous = c.previous := congrArg Backdrop.previous heq
  have hspare := spare_eq_of_backdrop_eq heq
  unfold StaysErased Erases hidden at h ⊢
  rwa [hactive, hprevious, hspare, screen_eq_of_backdrop_eq heq]

/-! ## Commands -/

/-- The screen that a control code erases. -/
def erasedBy (c : Context) : Control → Option (Fin 2)
  | .eraseDisplayed => some c.active
  | .eraseHidden => some c.hidden
  | _ => none

theorem erases_iff_of_control {control : Control}
    (hcode : Code.ofPair pair.1 pair.2 = .control control) :
    c.Erases pair ↔ c.erasedBy control = some c.spare := by
  unfold Erases
  rw [hcode]
  cases control <;> simp [erasedBy, eq_comm]

theorem not_erases_of_ne_control (h : ∀ control, Code.ofPair pair.1 pair.2 ≠ .control control) :
    ¬ c.Erases pair := by
  rintro (⟨hcode, -⟩ | ⟨hcode, -⟩)
  · exact h _ hcode
  · exact h _ hcode

theorem screen_rollUp_spare (c : Context) : c.rollUp.screen c.spare = c.screen c.spare := by
  unfold Context.rollUp
  split
  · rfl
  · rw [screen_modifyScreen, if_neg c.spare_ne_writing]

theorem screen_clear_spare (c : Context) (i : Fin 2) :
    (c.modifyScreen i Screen.clear).screen c.spare =
      if some i = some c.spare then (c.screen c.spare).clear else c.screen c.spare := by
  rw [screen_modifyScreen]
  by_cases hi : c.spare = i
  · rw [if_pos hi, if_pos (congrArg some hi.symm), hi]
  · rw [if_neg hi, if_neg fun h ↦ hi (Option.some.inj h).symm]

/-- What is left of the screens once a code was applied. -/
structure Spares (before : Context) (code : Code) (erases : Prop) [Decidable erases]
    (c : Context) : Prop where
  screen_eq : c.screen before.spare =
    if erases then (before.screen before.spare).clear else before.screen before.spare
  keepsDisplay : before.mode = .popOn → code.changesDisplay = false →
    c.mode = .popOn ∧ c.active = before.active

theorem spares_of_backdrop_eq {code : Code} {erases : Prop} [Decidable erases]
    (h : d.backdrop = c.backdrop) (herases : ¬ erases) : c.Spares code erases d where
  screen_eq := by
    rw [if_neg herases]
    exact screen_eq_of_backdrop_eq h
  keepsDisplay hmode _ := ⟨(congrArg Backdrop.mode h).trans hmode, congrArg Backdrop.active h⟩

/-- A command erases the screen that it asks to erase, and leaves the spare one alone otherwise. -/
theorem ensures_applyControl_spares (before : Context) (control : Control) :
    Ensures (· = before) (applyControl control)
      (fun _ c ↦ before.Spares (.control control) (before.erasedBy control = some before.spare) c ∧
        ∀ i, c.erasedBy control = some i → (c.screen i).used = 0)
      fun c ↦ before.Spares (.control control) (before.erasedBy control = some before.spare) c ∧
        c.backdrop = before.backdrop := by
  cases control with
  | resumeLoading =>
    apply ensures_modify
    rintro c rfl
    exact ⟨⟨rfl, fun _ _ ↦ ⟨rfl, rfl⟩⟩, nofun⟩
  | rollUp | resumeDirect | resumeText =>
    apply ensures_modify
    rintro c rfl
    exact ⟨⟨rfl, fun _ ↦ nofun⟩, nofun⟩
  | deleteToEndOfRow =>
    refine (ignoresWriting_backdrop.preserves_endRow before.backdrop).mono ?_ ?_ ?_
    · rintro _ rfl
      rfl
    · exact fun _ c hc ↦ ⟨spares_of_backdrop_eq hc nofun, nofun⟩
    · exact fun c hc ↦ ⟨spares_of_backdrop_eq hc nofun, hc⟩
  | eraseDisplayed | eraseHidden =>
    apply ensures_modify
    rintro c rfl
    refine ⟨⟨screen_clear_spare c _, fun hmode _ ↦ ⟨hmode, rfl⟩⟩, ?_⟩
    rintro _ ⟨⟩
    have hcleared (i : Fin 2) : ((c.modifyScreen i Screen.clear).screen i).used = 0 := by
      rw [screen_modifyScreen, if_pos rfl]
      rfl
    exact hcleared _
  | carriageReturn =>
    apply ensures_log_bind
    apply ensures_modify
    rintro c rfl
    refine ⟨⟨screen_rollUp_spare c.reap, fun hmode _ ↦ ?_⟩, nofun⟩
    rw [rollUp_eq]
    exact ⟨hmode, rfl⟩
  | endOfCaption =>
    apply ensures_log_bind
    apply ensures_modify
    rintro c rfl
    exact ⟨⟨rfl, fun _ ↦ nofun⟩, nofun⟩

/-! ## Pairs -/

/-- What a pair leaves of the screens, with the rows of the spare screen still out of use if they
were. -/
structure SparesAfter (before : Context) (pair : UInt8 × UInt8) (c : Context) : Prop
    extends before.Spares (Code.ofPair pair.1 pair.2) (before.Erases pair) c where
  staysErased : before.StaysErased → c.StaysErased

/-- A pair that is no repetition spares the screen that is not written to, also where it fails. -/
theorem ensures_apply_spares (before : Context) (pair : UInt8 × UInt8) :
    Ensures (· = before) (apply pair.1 pair.2 (Code.ofPair pair.1 pair.2))
      (fun _ ↦ before.SparesAfter pair) (before.SparesAfter pair) := by
  apply ignoresWriting_backdrop.ensures_apply_ofPair
  · intro hcontrol d hd
    have hspares : before.Spares (Code.ofPair pair.1 pair.2) (before.Erases pair) d :=
      spares_of_backdrop_eq hd (not_erases_of_ne_control hcontrol)
    refine ⟨⟨hspares, fun h ↦ h.congr hd⟩, ⟨hspares.screen_eq, hspares.keepsDisplay⟩,
      fun _ herases ↦ absurd herases ?_⟩
    exact not_erases_of_ne_control (Code.ofPair_remembered_ne_control rfl hcontrol)
  · intro control hcode
    have hspares {d : Context} (hd : before.Spares (.control control)
        (before.erasedBy control = some before.spare) d) :
        before.Spares (Code.ofPair pair.1 pair.2) (before.Erases pair) d := by
      rw [hcode]
      refine ⟨?_, hd.keepsDisplay⟩
      rw [if_congr (erases_iff_of_control hcode) rfl rfl]
      exact hd.screen_eq
    refine (ensures_applyControl_spares before control).mono (fun _ h ↦ h) ?_ ?_
    · rintro _ d ⟨hd, hused⟩
      refine ⟨⟨(hspares hd).screen_eq, (hspares hd).keepsDisplay⟩, fun _ herases ↦ ?_⟩
      exact hused _ ((erases_iff_of_control hcode).mp herases)
    · exact fun d hd ↦ ⟨hspares hd.1, fun h ↦ h.congr hd.2⟩

/-- A pair, repeated or not, spares the screen that is not written to. -/
theorem ensures_processPair_spares {before : Context} (hbefore : before.StaysErased)
    (pair : UInt8 × UInt8) :
    Ensures (· = before) (processPair pair.1 pair.2) (fun _ ↦ before.SparesAfter pair)
      (before.SparesAfter pair) := by
  apply ensures_processPair_of_apply
  · intro hrepeated
    refine ⟨⟨?_, fun hmode _ ↦ ⟨hmode, rfl⟩⟩, fun h ↦ h⟩
    split
    · next herases =>
      -- The screen was erased by the pair that is repeated.
      have hused := hbefore (hrepeated ▸ herases)
      unfold Screen.clear
      rw [← hused]
    · rfl
  · exact fun _ ↦ ensures_apply_spares before pair

/-- The mode, and the screen that is displayed. -/
def display (c : Context) : Mode × Fin 2 × Screen :=
  (c.mode, c.active, c.screen c.active)

/-- In pop-on mode the displayed screen is the spare one, so it stays unless it is erased, another
one takes its place or the mode changes. -/
theorem display_afterPair (hmode : c.mode = .popOn)
    (hpair : (Code.ofPair pair.1 pair.2).changesDisplay = false) :
    (c.afterPair pair).display = c.display := by
  have hdisplay : Ensures (· = c) (processPair pair.1 pair.2) (fun _ d ↦ d.display = c.display)
      fun d ↦ d.display = c.display := by
    have hspared (d : Context) (hd : c.SparesAfter pair d) : d.display = c.display := by
      have herases : ¬ c.Erases pair := by
        rintro (⟨hcode, -⟩ | ⟨-, hhidden⟩)
        · rw [hcode] at hpair
          contradiction
        · exact c.hidden_ne_active (hhidden.symm.trans (spare_of_popOn hmode))
      obtain ⟨hmode', hactive⟩ := hd.keepsDisplay hmode hpair
      have hscreen := hd.screen_eq
      rw [if_neg herases, spare_of_popOn hmode] at hscreen
      rw [display, display, hmode', hactive, hscreen, hmode]
    apply ensures_processPair_of_apply
    · exact fun _ ↦ rfl
    · exact fun _ ↦ (ensures_apply_spares c pair).mono (fun _ h ↦ h) (fun _ ↦ hspared) hspared
  exact (hdisplay c rfl).state (fun _ _ h ↦ h) fun _ h ↦ h

theorem display_afterPairs (hmode : c.mode = .popOn) {pairs : List (UInt8 × UInt8)}
    (hpairs : ∀ pair ∈ pairs, (Code.ofPair pair.1 pair.2).changesDisplay = false) :
    (c.afterPairs pairs).display = c.display := by
  induction pairs generalizing c with
  | nil => rfl
  | cons pair pairs ih =>
    rw [List.forall_mem_cons] at hpairs
    have hfirst := display_afterPair hmode hpairs.1
    have hmode' : (c.afterPair pair).mode = .popOn := (congrArg Prod.fst hfirst).trans hmode
    exact (ih hmode' hpairs.2).trans hfirst

end Context

/-! ## Decoders -/

namespace Decoder

open Context

theorem staysErased_after (operations : List Operation) :
    (after operations).context.StaysErased := by
  have hpair : KeptByPairs StaysErased := by
    intro c hc first second
    exact (ensures_processPair_spares hc (first, second)).mono (fun _ h ↦ h)
      (fun _ _ h ↦ h.staysErased hc) fun _ h ↦ h.staysErased hc
  have hinitial : Context.initial.StaysErased := fun herases ↦ absurd herases (by decide)
  refine invariant_after hinitial hpair (fun _ _ hc ↦ hc) operations ?_
  intro _ c _ _
  rw [screen_flush]
  rfl

/-- Whatever was decoded and flushed, a pair leaves the cells of the screen that is not written to,
and takes its rows out of use if it asks to erase that screen. It does so also where it fails or is
ignored as a repetition. In pop-on mode the displayed screen stays until a pair erases it, ends a
caption or goes to another mode. -/
theorem afterPair_spares_screen (operations : List Operation) (pair : UInt8 × UInt8) :
    (let c := (after operations).context
      let d := c.afterPair pair
      (d.screen c.spare).rows = (c.screen c.spare).rows ∧
        (d.screen c.spare).used = if c.Erases pair then 0 else (c.screen c.spare).used) ∧
    ∀ (c : Context) (pairs : List (UInt8 × UInt8)), c.mode = .popOn →
      (∀ pair ∈ pairs, (Code.ofPair pair.1 pair.2).changesDisplay = false) →
      let d := c.afterPairs pairs
      d.mode = .popOn ∧ d.active = c.active ∧ d.screen d.active = c.screen c.active := by
  refine ⟨?_, ?_⟩
  · intro c d
    have hc : c.StaysErased := staysErased_after operations
    have hspares : c.SparesAfter pair d :=
      (ensures_processPair_spares hc pair c rfl).state (fun _ _ h ↦ h) fun _ h ↦ h
    rw [hspares.screen_eq]
    split
    · exact ⟨rfl, rfl⟩
    · exact ⟨rfl, rfl⟩
  · intro c pairs hmode hpairs d
    have hdisplay : d.display = c.display := display_afterPairs hmode hpairs
    obtain ⟨hmode', hshown⟩ := Prod.mk.inj hdisplay
    obtain ⟨hactive, hscreen⟩ := Prod.mk.inj hshown
    exact ⟨hmode'.trans hmode, hactive, hscreen⟩

/-- A caption on display stays while the next one is written, and is erased by the command to. -/
theorem displayed_caption_stays :
    let c := (after [.decode ([Triple.ofPair (0x14, 0x20), Triple.ofPair (0x48, 0x69),
      Triple.ofPair (0x14, 0x2f)].flatMap Triple.bytes) 0]).context
    let pairs : List (UInt8 × UInt8) :=
      [(0x14, 0x2e), (0x14, 0x20), (0x11, 0x40), (0x59, 0x6f), (0x11, 0x20), (0x14, 0x2d)]
    let d := c.afterPairs pairs
    let erased := c.afterPair (0x14, 0x2c)
    c.mode = .popOn ∧
      (∀ pair ∈ pairs, (Code.ofPair pair.1 pair.2).changesDisplay = false) ∧
      screenText (d.screen d.active) = "Hi" ∧
      (erased.screen c.spare).rows = (c.screen c.spare).rows ∧
      (c.screen c.spare).used ≠ 0 ∧ (erased.screen c.spare).used = 0 := by
  intro c pairs d erased
  obtain ⟨⟨hrows, hused⟩, hdisplay⟩ := afterPair_spares_screen
    [.decode ([Triple.ofPair (0x14, 0x20), Triple.ofPair (0x48, 0x69),
      Triple.ofPair (0x14, 0x2f)].flatMap Triple.bytes) 0] (0x14, 0x2c)
  have hmode : c.mode = .popOn := by decide +kernel
  have hall : pairs.all (fun pair ↦ !(Code.ofPair pair.1 pair.2).changesDisplay) = true := by decide
  have hpairs : ∀ pair ∈ pairs, (Code.ofPair pair.1 pair.2).changesDisplay = false := by
    simpa using hall
  obtain ⟨-, -, hscreen⟩ := hdisplay c pairs hmode hpairs
  have htext : screenText (c.screen c.active) = "Hi" := by decide +kernel
  have hshown : (c.screen c.spare).used ≠ 0 := by decide +kernel
  have herases : c.Erases (0x14, 0x2c) := by decide +kernel
  exact ⟨hmode, hpairs, (congrArg screenText hscreen).trans htext, hrows, hshown,
    hused.trans (if_pos herases)⟩

end Decoder

end ClosedCaptions
