import ClosedCaptions.Proofs.Caption.Packet
import ClosedCaptions.Proofs.Caption.Standing
import Mathlib.Data.List.Induction

/-!
# Selecting a mode

A command that selects a mode is ignored when it is repeated. The mode it asks for is then in force,
unless the screens were flushed in between: flushing goes back to pop-on mode and leaves the command
as the previous one, so sending the command again has no effect. The depth of the window is not lost
that way.
-/

namespace ClosedCaptions

/-- The mode that a command of this second byte selects. -/
def Mode.ofByte? (second : UInt8) : Option Mode :=
  match second.toNat with
  | 0x20 => some .popOn
  | 0x25 | 0x26 | 0x27 => some .rollUp
  | 0x29 => some .paintOn
  | 0x2b => some .text
  | _ => none

/-- The depth of the window that a command of this second byte sets in roll-up mode. -/
def windowDepth (second : UInt8) : Nat :=
  second.toNat - 0x23

/-- The pair is a command that selects the mode. -/
structure Selects (pair : UInt8 × UInt8) (mode : Mode) : Prop where
  first_mem : pair.1 ∈ [0x14, 0x15, 0x1c]
  mode_eq : Mode.ofByte? pair.2 = some mode

namespace Context

open Procedure

variable {c d : Context} {pair : UInt8 × UInt8} {mode : Mode} {control : Control}

/-- The context with a mode, and in roll-up mode with the depth that the byte asks for. -/
def selecting (c : Context) (mode : Mode) (second : UInt8) : Context :=
  { c with mode := mode, rollup := if mode = .rollUp then windowDepth second else c.rollup }

/-- The control code of a second byte that selects a mode. -/
structure IsSelection (control : Control) (mode : Mode) (second : UInt8) : Prop where
  mode_of_inForce : ∀ c : Context, c.InForce control → c.mode = mode
  eq_rollUp : mode = .rollUp → control = .rollUp (windowDepth second)
  effect_eq : ∀ c, (applyControl control).effect c = (.ok (), c.selecting mode second)

theorem exists_isSelection {second : UInt8} (h : Mode.ofByte? second = some mode) :
    ∃ control, Control.ofByte? second = some control ∧ IsSelection control mode second := by
  unfold Mode.ofByte? at h
  unfold Control.ofByte?
  have hpopOn : IsSelection .resumeLoading .popOn second := ⟨fun _ h ↦ h, nofun, fun _ ↦ rfl⟩
  have hpaintOn : IsSelection .resumeDirect .paintOn second := ⟨fun _ h ↦ h, nofun, fun _ ↦ rfl⟩
  have htext : IsSelection .resumeText .text second := ⟨fun _ h ↦ h, nofun, fun _ ↦ rfl⟩
  have hrollUp (depth : Nat) (hdepth : depth = windowDepth second) :
      IsSelection (.rollUp depth) .rollUp second := by
    subst hdepth
    exact ⟨fun _ h ↦ h.1, fun _ ↦ rfl, fun _ ↦ rfl⟩
  split at h <;> cases h
  · next hbyte => exact ⟨_, by simp only [hbyte], hpopOn⟩
  · next hbyte => exact ⟨_, by simp only [hbyte], hrollUp 2 (by rw [windowDepth, hbyte])⟩
  · next hbyte => exact ⟨_, by simp only [hbyte], hrollUp 3 (by rw [windowDepth, hbyte])⟩
  · next hbyte => exact ⟨_, by simp only [hbyte], hrollUp 4 (by rw [windowDepth, hbyte])⟩
  · next hbyte => exact ⟨_, by simp only [hbyte], hpaintOn⟩
  · next hbyte => exact ⟨_, by simp only [hbyte], htext⟩

/-- A pair that selects a mode is a control code that does. -/
theorem exists_control_of_selects (h : Selects pair mode) :
    ∃ control, Code.ofPair pair.1 pair.2 = .control control ∧ IsSelection control mode pair.2 := by
  obtain ⟨control, hbyte, hselection⟩ := exists_isSelection h.mode_eq
  have hfirst : Code.isControl pair.1 = true := by
    have hmem := h.first_mem
    simp only [List.mem_cons, List.not_mem_nil, or_false] at hmem
    rcases hmem with heq | heq | heq <;> rw [heq] <;> rfl
  exact ⟨control, Code.ofPair_eq_control_iff.mpr ⟨hfirst, hbyte⟩, hselection⟩

/-- A pair that selects a mode succeeds, and takes effect unless it is a repetition. -/
theorem effect_processPair_of_selects (h : Selects pair mode) (c : Context) :
    (processPair pair.1 pair.2).effect c =
      (.ok (), if pair = c.previous then c
        else { c.selecting mode pair.2 with previous := pair }) := by
  by_cases hrepeated : pair = c.previous
  · rw [if_pos hrepeated]
    exact effect_processPair_of_eq hrepeated
  · obtain ⟨control, hcode, hselection⟩ := exists_control_of_selects h
    rw [if_neg hrepeated]
    exact effect_processPair_control hcode hrepeated (hselection.effect_eq c)

/-! ## What a repetition finds -/

/-- The settings that commands make, with the previous command. -/
structure Settings where
  mode : Mode
  rollup : Nat
  previous : UInt8 × UInt8

def settings (c : Context) : Settings :=
  ⟨c.mode, c.rollup, c.previous⟩

theorem settings_eq_of_standing_eq (h : d.standing = c.standing) : d.settings = c.settings :=
  congrArg (fun s : Standing ↦ (⟨s.mode, s.rollup, s.previous⟩ : Settings)) h

/-- If the previous command set the depth of the window, it is still set. -/
def KeepsDepth (c : Context) : Prop :=
  ∀ depth, Code.ofPair c.previous.1 c.previous.2 = .control (.rollUp depth) → c.rollup = depth

theorem KeepsDepth.congr (h : c.KeepsDepth) (heq : d.settings = c.settings) : d.KeepsDepth := by
  have hrollup : d.rollup = c.rollup := congrArg Settings.rollup heq
  have hprevious : d.previous = c.previous := congrArg Settings.previous heq
  intro depth hcode
  rw [hrollup]
  exact h depth (hprevious ▸ hcode)

theorem Remembers.keepsDepth (h : c.Remembers fun _ ↦ True) : c.KeepsDepth :=
  fun depth hcode ↦ (h (.rollUp depth) trivial hcode).2

end Context

namespace Decoder

open Context

variable {operations : List Operation} {pair : UInt8 × UInt8} {mode : Mode}

/-- Pairs leave the settings as they are until one of them leaves a previous command in force. -/
theorem keptByPairs_settings (P : Settings → Prop) :
    KeptByPairs fun c ↦ c.Remembers (fun _ ↦ True) ∨ P c.settings := by
  intro c hc first second
  apply ensures_processPair_of_apply
  · exact fun _ ↦ hc
  · rintro -
    have happly := ensures_apply_remembers (S := fun _ ↦ True) c first second
    refine happly.mono (fun _ h ↦ h) (fun _ _ hd ↦ .inl hd) ?_
    intro d hd
    exact hc.imp (fun hc ↦ hc.congr hd) fun hc ↦ settings_eq_of_standing_eq hd ▸ hc

theorem keepsDepth_after (operations : List Operation) :
    (after operations).context.KeepsDepth := by
  have hpair : KeptByPairs KeepsDepth := by
    intro c hc first second
    have hkept := keptByPairs_settings (· = c.settings) c (.inr rfl) first second
    have hdepth (d : Context) (hd : d.Remembers (fun _ ↦ True) ∨ d.settings = c.settings) :
        d.KeepsDepth := by
      rcases hd with hd | hd
      · exact hd.keepsDepth
      · exact hc.congr hd
    exact hkept.mono (fun _ h ↦ h) (fun _ _ hd ↦ hdepth _ hd) hdepth
  have hinitial : Context.initial.KeepsDepth := (remembers_of_previous_eq_zero rfl).keepsDepth
  exact invariant_after hinitial hpair (fun _ _ hc ↦ hc) operations fun _ _ hc ↦ hc

/-- The screens were flushed while the previous command was in force, and the settings are still
those that flushing left. -/
structure FlushedSince (operations before rest : List Operation) : Prop where
  eq : operations = before ++ .flush :: rest
  remembers : (after before).context.Remembers fun _ ↦ True
  settings_eq : (after operations).context.settings = (after before).context.flush.settings

theorem after_concat (operations : List Operation) (operation : Operation) :
    after (operations ++ [operation]) = operation.apply (after operations) :=
  List.foldl_concat _ _ _ _

theorem FlushedSince.concat {before rest : List Operation} (h : FlushedSince operations before rest)
    {operation : Operation}
    (hsettings : (operation.apply (after operations)).context.settings =
      (after operations).context.settings) :
    FlushedSince (operations ++ [operation]) before (rest ++ [operation]) where
  eq := by rw [h.eq, List.append_assoc, List.cons_append]
  remembers := h.remembers
  settings_eq := by rw [after_concat, hsettings, h.settings_eq]

/-- The previous command is in force, or was when the screens were flushed. -/
theorem remembers_or_flushedSince (operations : List Operation) :
    (after operations).context.Remembers (fun _ ↦ True) ∨
      ∃ before rest, FlushedSince operations before rest := by
  induction operations using List.reverseRecOn with
  | nil => exact .inl (remembers_of_previous_eq_zero rfl)
  | append_singleton operations operation ih =>
    cases operation with
    | decode bytes time =>
      have hpost := ensures_decode_context (keptByPairs_settings fun settings ↦
        settings = (after operations).context.settings ∧
          ∃ before rest, FlushedSince operations before rest) bytes time (after operations)
        (ih.imp_right fun hflushed ↦ ⟨rfl, hflushed⟩)
      rw [after_concat]
      refine (hpost.state (fun _ _ h ↦ h) fun _ h ↦ h).imp_right ?_
      rintro ⟨hsettings, before, rest, hflushed⟩
      exact ⟨before, _, hflushed.concat hsettings⟩
    | flush =>
      rcases ih with hin | ⟨before, rest, hflushed⟩
      · exact .inr ⟨operations, [], rfl, hin, by rw [after_concat]; rfl⟩
      · refine .inr ⟨before, _, hflushed.concat ?_⟩
        have hflush : (after operations).flush.context.settings =
            { (after operations).context.settings with mode := .popOn } := rfl
        rw [Operation.apply, hflush, hflushed.settings_eq]
        rfl
    | finish time | setRealTime realTime | setFailLevel level =>
      rcases ih with hin | ⟨before, rest, hflushed⟩
      · rw [after_concat]
        exact .inl hin
      · exact .inr ⟨before, _, hflushed.concat rfl⟩

/-- The depth that a repeated command asks for is set, flushed or not. -/
theorem rollup_of_repeated (operations : List Operation) (h : Selects pair .rollUp)
    (hrepeated : pair = (after operations).context.previous) :
    (after operations).context.rollup = windowDepth pair.2 := by
  obtain ⟨control, hcode, hselection⟩ := exists_control_of_selects h
  have hdepth := hselection.eq_rollUp rfl ▸ hrepeated ▸ hcode
  exact keepsDepth_after operations _ hdepth

/-- The mode that a repeated command asks for is set, or it was when the screens were flushed. -/
theorem mode_of_repeated (operations : List Operation) (h : Selects pair mode)
    (hrepeated : pair = (after operations).context.previous) :
    (after operations).context.mode = mode ∨ (after operations).context.mode = .popOn ∧
      ∃ before rest, operations = before ++ .flush :: rest ∧
        (after before).context.previous = pair ∧ (after before).context.mode = mode := by
  obtain ⟨control, hcode, hselection⟩ := exists_control_of_selects h
  have hforce {c : Context} (hprevious : c.previous = pair) (hc : c.Remembers fun _ ↦ True) :
      c.mode = mode :=
    hselection.mode_of_inForce c (hc control trivial (hprevious ▸ hcode))
  rcases remembers_or_flushedSince operations with hin | ⟨before, rest, hflushed⟩
  · exact .inl (hforce hrepeated.symm hin)
  · have hpopOn : (after operations).context.mode = .popOn :=
      congrArg Settings.mode hflushed.settings_eq
    have hprevious : (after before).context.previous = pair :=
      (congrArg Settings.previous hflushed.settings_eq).symm.trans hrepeated.symm
    exact .inr ⟨hpopOn, before, rest, hflushed.eq, hprevious,
      hforce hprevious hflushed.remembers⟩

/-- A command that selects a mode never fails, and the depth of the window is as it asks for. The
mode is, too, unless the command is a repetition of one that was in force when the screens were
flushed: the mode is then still pop-on mode. -/
theorem afterPair_of_selects (operations : List Operation) (h : Selects pair mode) :
    let c := (after operations).context
    let d := c.afterPair pair
    ((Context.processPair pair.1 pair.2).run c).result = .ok () ∧
      (mode = .rollUp → d.rollup = windowDepth pair.2) ∧
      (d.mode = mode ↔ ¬ (pair = c.previous ∧ c.mode = .popOn ∧ mode ≠ .popOn)) ∧
      (d.mode ≠ mode → ∃ before rest, operations = before ++ .flush :: rest ∧
        (after before).context.previous = pair ∧ (after before).context.mode = mode) := by
  intro c d
  have heffect := effect_processPair_of_selects h c
  have hd : d = if pair = c.previous then c
      else { c.selecting mode pair.2 with previous := pair } :=
    congrArg Prod.snd heffect
  refine ⟨congrArg Prod.fst heffect, ?_⟩
  by_cases hrepeated : pair = c.previous
  · rw [hd, if_pos hrepeated]
    have hmode := mode_of_repeated operations h hrepeated
    refine ⟨?_, ⟨?_, ?_⟩, fun hlost ↦ (hmode.resolve_left hlost).2⟩
    · rintro rfl
      exact rollup_of_repeated operations h hrepeated
    · rintro rfl ⟨-, hpopOn, hne⟩
      exact hne hpopOn
    · intro hnot
      by_contra hlost
      obtain ⟨hpopOn, -⟩ := hmode.resolve_left hlost
      exact hnot ⟨hrepeated, hpopOn, fun hsame ↦ hlost (hpopOn.trans hsame.symm)⟩
  · rw [hd, if_neg hrepeated]
    refine ⟨fun hmode ↦ if_pos hmode, ?_, fun hlost ↦ absurd rfl hlost⟩
    exact ⟨fun _ hlost ↦ hrepeated hlost.1, fun _ ↦ rfl⟩

/-- A roll-up command of three rows, repeated with and without a seek in between. -/
theorem afterPair_rollUp_flushed :
    Selects (0x14, 0x26) .rollUp ∧
      ((after [.decode (Triple.ofPair (0x14, 0x26)).bytes 0]).context.afterPair
        (0x14, 0x26)).mode = .rollUp ∧
      ((after [.decode (Triple.ofPair (0x14, 0x26)).bytes 0, .flush]).context.afterPair
        (0x14, 0x26)).rollup = 3 ∧
      ((after [.decode (Triple.ofPair (0x14, 0x26)).bytes 0, .flush]).context.afterPair
        (0x14, 0x26)).mode = .popOn := by
  have hselects : Selects (0x14, 0x26) .rollUp := ⟨by decide, by decide⟩
  obtain ⟨-, -, hkept, -⟩ :=
    afterPair_of_selects [.decode (Triple.ofPair (0x14, 0x26)).bytes 0] hselects
  obtain ⟨-, hdepth, -, -⟩ :=
    afterPair_of_selects [.decode (Triple.ofPair (0x14, 0x26)).bytes 0, .flush] hselects
  refine ⟨hselects, hkept.mpr ?_, hdepth rfl, by decide +kernel⟩
  decide +kernel

/-- The mode that a flushed roll-up command asks for again is lost. -/
theorem flushed_rollUp_is_lost :
    ¬ ∀ (operations : List Operation) (pair : UInt8 × UInt8) (mode : Mode), Selects pair mode →
      ((after operations).context.afterPair pair).mode = mode := by
  intro h
  have hlost := h [.decode (Triple.ofPair (0x14, 0x25)).bytes 0, .flush] (0x14, 0x25) .rollUp
    ⟨by decide, by decide⟩
  revert hlost
  decide +kernel

end Decoder

end ClosedCaptions
