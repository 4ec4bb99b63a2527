import ClosedCaptions.Proofs.Caption.Decoder
import ClosedCaptions.Proofs.Caption.Writing

/-!
# Commands in force

A repeated command is ignored, so what it asked for has to hold already. The mode and the depth of
the window stay as the previous command set them, over failures too: what fails half way has only
written. Flushing goes back to pop-on mode and forgets no command, so after it this is
certain of one command alone.
-/

namespace ClosedCaptions

namespace Context

open Procedure

/-- What a command sets stands as it says. Other commands set nothing that lasts. -/
def InForce (c : Context) : Control → Prop
  | .resumeLoading => c.mode = .popOn
  | .rollUp depth => c.mode = .rollUp ∧ c.rollup = depth
  | .resumeDirect => c.mode = .paintOn
  | .resumeText => c.mode = .text
  | .deleteToEndOfRow | .eraseDisplayed | .carriageReturn | .eraseHidden | .endOfCaption => True

/-- If the previous command is one of `S`, it is still in force. -/
def Remembers (S : Control → Prop) (c : Context) : Prop :=
  ∀ control, S control → Code.ofPair c.previous.1 c.previous.2 = .control control →
    c.InForce control

/-- The part of a context that writing leaves alone. -/
structure Standing where
  mode : Mode
  rollup : Nat
  previous : UInt8 × UInt8
  reaped : Bool
  buffer : String

def standing (c : Context) : Standing :=
  ⟨c.mode, c.rollup, c.previous, c.reaped, c.buffer⟩

variable {S : Control → Prop} {c d : Context} {first second : UInt8}

theorem Remembers.congr (h : c.Remembers S) (heq : d.standing = c.standing) : d.Remembers S := by
  have hmode : d.mode = c.mode := congrArg Standing.mode heq
  have hrollup : d.rollup = c.rollup := congrArg Standing.rollup heq
  have hprevious : d.previous = c.previous := congrArg Standing.previous heq
  intro control hS hcode
  rw [hprevious] at hcode
  have hforce := h control hS hcode
  unfold InForce at hforce ⊢
  rwa [hmode, hrollup]

theorem remembers_of_ne_control
    (h : ∀ control, Code.ofPair c.previous.1 c.previous.2 ≠ .control control) : c.Remembers S :=
  fun control _ hcode ↦ absurd hcode (h control)

/-- No command counts as the previous one. -/
theorem remembers_of_previous_eq_zero (h : c.previous = (0, 0)) : c.Remembers S := by
  apply remembers_of_ne_control
  have hunknown : Code.ofPair 0 0 = .unknown 0 0 := by decide
  rw [h, hunknown]
  exact fun _ ↦ nofun

/-! ## Commands -/

theorem ignoresWriting_standing : IgnoresWriting standing where
  cursor _ _ _ _ _ := rfl
  screen _ _ := rfl

/-- A command is in force once it was applied. -/
theorem ensures_applyControl (before : Standing) (control : Control) :
    Ensures (fun c ↦ c.standing = before) (applyControl control) (fun _ c ↦ c.InForce control)
      fun c ↦ c.standing = before := by
  cases control with
  | resumeLoading | resumeDirect | resumeText => exact ensures_modify fun _ _ ↦ rfl
  | rollUp depth => exact ensures_modify fun _ _ ↦ ⟨rfl, rfl⟩
  | deleteToEndOfRow =>
    exact (ignoresWriting_standing.preserves_endRow before).mono (fun _ h ↦ h)
      (fun _ _ _ ↦ trivial) fun _ h ↦ h
  | eraseDisplayed | eraseHidden => exact ensures_modify fun _ _ ↦ trivial
  | carriageReturn | endOfCaption => exact ensures_log_bind (ensures_modify fun _ _ ↦ trivial)

/-- A pair that is no repetition leaves a previous command in force, and one that fails leaves the
standing part alone. -/
theorem ensures_apply_remembers (before : Context) (first second : UInt8) :
    Ensures (· = before) (apply first second (Code.ofPair first second)) (fun _ ↦ Remembers S)
      fun c ↦ c.standing = before.standing := by
  apply ignoresWriting_standing.ensures_apply_ofPair
  · intro hcontrol d hd
    exact ⟨hd, remembers_of_ne_control (Code.ofPair_remembered_ne_control rfl hcontrol)⟩
  · intro control hcode
    refine (ensures_applyControl before.standing control).mono ?_ ?_ fun _ h ↦ h
    · rintro _ rfl
      rfl
    · intro _ d hforce control' _ hcode'
      obtain rfl : control = control' := Code.control.inj (hcode.symm.trans hcode')
      exact hforce

/-- A pair that is applied leaves a previous command in force, and one that fails leaves the
standing part alone. -/
theorem ensures_processPair_remembers (before : Context) (hbefore : before.Remembers S)
    (first second : UInt8) :
    Ensures (· = before) (processPair first second) (fun _ ↦ Remembers S)
      fun c ↦ c.standing = before.standing :=
  ensures_processPair_of_apply (fun _ ↦ hbefore) fun _ ↦ ensures_apply_remembers before first second

/-- A command that changes nothing where it is in force has its effect also when it is repeated. -/
theorem effect_processPair_remembers {control : Control}
    (hcode : Code.ofPair first second = .control control) (hS : S control) (h : c.Remembers S)
    (happly : (applyControl control).effect c = (.ok (), d)) (hforce : c.InForce control → d = c) :
    (processPair first second).effect c = (.ok (), { d with previous := (first, second) }) := by
  by_cases hnew : (first, second) = c.previous
  · have hd : d = c := hforce (h control hS (hnew ▸ hcode))
    rw [effect_processPair_of_eq hnew, hd, hnew]
  · exact effect_processPair_control hcode hnew happly

end Context

/-! ## Invariants of decoding -/

namespace Decoder

open Procedure

/-- What every pair keeps, where the mark of a reaped screen is unset after each. -/
def KeptByPairs (I : Context → Prop) : Prop :=
  ∀ before, I before → ∀ first second, Ensures (· = before) (Context.processPair first second)
    (fun _ c ↦ I { c with reaped := false }) I

variable {I : Context → Prop} {d : Decoder}

theorem ensures_decodeTriple_context (hpair : KeptByPairs I) (time : Int64) (triple : Triple) :
    Ensures (fun d ↦ I d.context) (decodeTriple time triple) (fun _ d ↦ I d.context)
      fun d ↦ I d.context := by
  have hfocus (first second : UInt8) : Ensures (fun d : Decoder ↦ I d.context)
      (focus context (fun c d ↦ { d with context := c }) (Context.processPair first second))
      (fun _ d ↦ I { d.context with reaped := false }) fun d ↦ I d.context :=
    ensures_focus fun d hd ↦ hpair d.context hd first second
  unfold decodeTriple
  split
  · exact ensures_log_bind (ensures_pure fun _ hd ↦ hd)
  split
  · exact ensures_pure fun _ hd ↦ hd
  apply (hfocus _ _).bind
  intro _
  apply ensures_get_bind
  intro d hd
  split
  · rw [effect_modify_bind, effect_pure]
    unfold emit
    dsimp only
    split
    · exact hd
    · exact hd
  · next hreaped =>
    have hsame : { d.context with reaped := false } = d.context := by
      rw [← Bool.eq_false_iff.mpr hreaped]
    rwa [hsame] at hd

theorem ensures_decode_context (hpair : KeptByPairs I) (bytes : List UInt8) (time : Int64) :
    Ensures (fun d ↦ I d.context) (decode bytes time) (fun _ d ↦ I d.context)
      fun d ↦ I d.context := by
  have htriple (triple : Triple) : Ensures (fun d ↦ I d.context)
      (Option.toList <$> decodeTriple time triple)
      (fun found d ↦ I d.context ∧ ∀ cue ∈ found, True) fun d ↦ I d.context :=
    Ensures.map ((ensures_decodeTriple_context hpair time triple).mono (fun _ h ↦ h)
      (fun _ _ h ↦ ⟨h, fun _ _ ↦ trivial⟩) fun _ h ↦ h)
  have htriples (triples : List Triple) : Ensures (fun d ↦ I d.context)
      (decodeTriples time triples) (fun _ d ↦ I d.context) fun d ↦ I d.context :=
    (ensures_gather htriple triples).mono (fun _ h ↦ h) (fun _ _ h ↦ h.1) fun _ h ↦ h
  unfold decode
  dsimp only
  split
  · exact ensures_log_bind (htriples _)
  · exact htriples _

/-- An invariant of pairs, of the caller's settings and of flushing, where there is any, holds of
the context after any operations. -/
theorem invariant_after (hinitial : I .initial) (hpair : KeptByPairs I)
    (hlevel : ∀ c level, I c → I { c with failLevel := level }) (operations : List Operation)
    (hflush : .flush ∈ operations → ∀ c, I c → I c.flush) : I (after operations).context := by
  have hstep (d : Decoder) (hd : I d.context) (operation : Operation)
      (hmem : operation ∈ operations) : I (operation.apply d).context := by
    cases operation with
    | decode bytes time =>
      have hpost := ensures_decode_context hpair bytes time d hd
      exact hpost.state (fun _ _ h ↦ h) fun _ h ↦ h
    | flush => exact hflush hmem _ hd
    | finish time => exact hd
    | setRealTime realTime => exact hd
    | setFailLevel level => exact hlevel _ level hd
  exact List.foldlRecOn operations Operation.apply hinitial hstep

/-! ## What a caller finds -/

/-- Repeating to resume caption loading asks for nothing new, flushed or not. -/
theorem remembers_resumeLoading_after (operations : List Operation) :
    (after operations).context.Remembers (· = .resumeLoading) := by
  have hpair : KeptByPairs (Context.Remembers (· = .resumeLoading)) := by
    intro before hbefore first second
    refine (Context.ensures_processPair_remembers before hbefore first second).mono
      (fun _ h ↦ h) ?_ ?_
    · exact fun _ c hc ↦ hc
    · exact fun c hc ↦ hbefore.congr hc
  apply invariant_after (Context.remembers_of_previous_eq_zero rfl) hpair
  · exact fun c level hc ↦ hc
  · rintro - c - control rfl -
    exact rfl

/-- Where nothing was flushed, no command asks for anything new when it is repeated, and no screen
waits to be given out. -/
theorem remembers_after_of_not_flush {operations : List Operation} (h : .flush ∉ operations) :
    (after operations).context.Remembers (fun _ ↦ True) ∧
      (after operations).context.reaped = false := by
  have hpair : KeptByPairs fun c ↦ c.Remembers (fun _ ↦ True) ∧ c.reaped = false := by
    intro before hbefore first second
    refine (Context.ensures_processPair_remembers before hbefore.1 first second).mono
      (fun _ h ↦ h) ?_ ?_
    · exact fun _ c hc ↦ ⟨hc, rfl⟩
    · intro c hc
      have hreaped : c.reaped = before.reaped := congrArg Context.Standing.reaped hc
      exact ⟨hbefore.1.congr hc, hreaped.trans hbefore.2⟩
  apply invariant_after ⟨Context.remembers_of_previous_eq_zero rfl, rfl⟩ hpair
  · exact fun c level hc ↦ hc
  · exact fun hflush ↦ absurd hflush h

end Decoder

end ClosedCaptions
