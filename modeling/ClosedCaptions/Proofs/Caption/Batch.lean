import ClosedCaptions.Proofs.Caption.Calls
import Mathlib.Data.List.Chain

/-!
# Batch mode against real time

In real time every screen that is reaped is given out at once as a cue without a duration. In batch
mode it waits until the next one, or the end, tells how long it lasted. So batch mode gives the same
cues in the same order, each lasting until the next one starts.
-/

namespace ClosedCaptions

open Procedure

namespace Cue

/-- The cue, lasting until a time. -/
def endingAt (stop : Int64) (cue : Cue) : Cue :=
  { cue with duration := some (stop - cue.start) }

/-- The cues, each lasting until the next one starts, and the last one until `stop`. -/
def ended (stop : Int64) : List Cue → List Cue
  | [] => []
  | cue :: later => cue.endingAt ((later.head?.map start).getD stop) :: ended stop later

theorem ended_concat (cues : List Cue) (cue : Cue) (stop : Int64) :
    ended stop (cues ++ [cue]) = ended cue.start cues ++ [cue.endingAt stop] := by
  induction cues with
  | nil => rfl
  | cons first later ih =>
    have hnext : ((later ++ [cue]).head?.map start).getD stop =
        (later.head?.map start).getD cue.start := by
      cases later <;> rfl
    rw [List.cons_append, ended, ended, hnext, ih, List.cons_append]

theorem endTime_endingAt (cue : Cue) (stop : Int64) : (cue.endingAt stop).endTime = some stop := by
  have hstop : cue.start + (stop - cue.start) = stop := by
    rw [Int64.add_comm, Int64.sub_add_cancel]
  exact congrArg some hstop

/-- No time is left between cues. -/
theorem isChain_ended (stop : Int64) (cues : List Cue) :
    (ended stop cues).IsChain fun cue next ↦ cue.endTime = some next.start := by
  induction cues with
  | nil => exact List.isChain_nil
  | cons cue later ih =>
    cases later with
    | nil => exact List.isChain_singleton _
    | cons next later =>
      exact List.isChain_cons_cons.mpr ⟨endTime_endingAt cue next.start, ih⟩

end Cue

namespace Decoder

/-! ## What is reaped -/

/-- The texts that a call reaps, with its time. -/
def Call.reap : Call → Procedure Context (List (String × Int64))
  | decode bytes time => List.map (·, time) <$> Context.reapPairs (acceptedPairs bytes)
  | flush => do
    modify Context.flush
    return []

/-- The texts that calls reap, in turn. -/
def reapCalls (calls : List Call) : Procedure Context (List (String × Int64)) :=
  gather Call.reap calls

variable {d : Decoder}

theorem effect_run_realTime (h : d.realTime = true) (call : Call) :
    call.run.effect d =
      ((call.reap.effect d.context).1.map (List.map fun screen ↦ cueAt screen.2 screen.1),
        { d with context := (call.reap.effect d.context).2 }) := by
  cases call with
  | decode bytes time =>
    rw [Call.run, Call.reap, effect_decode, effect_gather_decodePair_realTime h, effect_map]
    rcases (Context.reapPairs (acceptedPairs bytes)).effect d.context with ⟨e | texts, c⟩
    · rfl
    · simp [Except.map, Function.comp_def]
  | flush => rfl

/-- In real time calls give every text that they reap. -/
theorem effect_answers_realTime (h : d.realTime = true) (calls : List Call) :
    (List.flatten <$> answers calls).effect d =
      (((reapCalls calls).effect d.context).1.map (List.map fun screen ↦ cueAt screen.2 screen.1),
        { d with context := ((reapCalls calls).effect d.context).2 }) := by
  have hstep : ∀ d : Decoder, d.realTime = true → ∀ call, (Call.run call).effect d =
      (List.map (fun screen ↦ cueAt screen.2 screen.1) <$>
        focus context (fun c d ↦ { d with context := c }) (Call.reap call)).effect d :=
    fun _ hd call ↦ effect_run_realTime hd call
  rw [flatten_answers]
  exact effect_gather_focus hstep (fun _ _ hd ↦ hd) (fun _ ↦ rfl) (fun _ _ ↦ rfl)
    (fun _ _ _ ↦ rfl) calls h

/-! ## What waits -/

/-- Batch mode has given the cues of real time, but for the last one, which waits. -/
structure Awaits (cues : List Cue) (live : Decoder) (cues' : List Cue) (batch : Decoder) :
    Prop where
  context_eq : live.context = batch.context
  live_realTime : live.realTime = true
  batch_realTime : batch.realTime = false
  live_held : live.held = none
  ended_eq : ∀ stop, cues' ++ (batch.heldCue? stop).toList = Cue.ended stop cues

theorem emit_batch (h : d.realTime = false) (time : Int64) :
    d.emit time = (d.heldCue? time, { d with
      context := { d.context with reaped := false }
      held := some d.context.buffer
      heldTime := time }) := by
  rw [emit, h]
  rfl

theorem lasting_awaits : Lasting Awaits where
  context_eq h := h.context_eq
  put h c := { h with context_eq := rfl }
  emit := by
    intro cues live cues' batch h time
    rw [emit_realTime h.live_realTime, emit_batch h.batch_realTime, h.context_eq]
    exact {
      context_eq := rfl
      live_realTime := h.live_realTime
      batch_realTime := h.batch_realTime
      live_held := h.live_held
      -- The time of the new screen ends the cue that waits.
      ended_eq := fun stop ↦ by
        rw [h.ended_eq time]
        exact (Cue.ended_concat cues (cueAt time batch.context.buffer) stop).symm }

theorem awaits_initial : Awaits [] (initial.setRealTime true) [] initial where
  context_eq := rfl
  live_realTime := rfl
  batch_realTime := rfl
  live_held := rfl
  ended_eq _ := rfl

/-- Whatever a fresh decoder is called to do, each screen that is reaped becomes one cue. In real
time this cue starts at once and has no duration. In batch mode it lasts until the next one starts,
and the last one until the decoder is finished. Both modes leave the same context. -/
theorem batch_ends_cues_of_realTime (calls : List Call) (stop : Int64) :
    ∃ screens c found live found' batch,
      (reapCalls calls).effect .initial = (.ok screens, c) ∧
      (answers calls).effect (initial.setRealTime true) = (.ok found, live) ∧
      found.flatten = screens.map (fun screen ↦ cueAt screen.2 screen.1) ∧
      (live.finish stop).1 = none ∧ (live.finish stop).2.context = c ∧
      (answers calls).effect initial = (.ok found', batch) ∧
      found'.flatten ++ (batch.finish stop).1.toList = Cue.ended stop found.flatten ∧
      (∀ later, ((batch.finish stop).2.finish later).1 = none) ∧
      (batch.finish stop).2.context = c ∧
      (found'.flatten ++ (batch.finish stop).1.toList).IsChain fun cue next ↦
        cue.endTime = some next.start := by
  have hlive : (initial.setRealTime true).WellFormedAt .error :=
    ⟨wellFormed_initial.context, wellFormed_initial.held⟩
  obtain ⟨found, live, hfound⟩ := hlive.answers_ok calls
  obtain ⟨found', batch, hfound'⟩ := wellFormed_initial.answers_ok calls
  have hawaits : Awaits found.flatten live found'.flatten batch := by
    have hrelated := lasting_awaits.related_answers awaits_initial calls
    unfold Related at hrelated
    rwa [hfound, hfound'] at hrelated
  have hreaped : (Except.ok found.flatten, live) =
      (((reapCalls calls).effect .initial).1.map
          (List.map fun screen ↦ cueAt screen.2 screen.1),
        { initial.setRealTime true with context := ((reapCalls calls).effect .initial).2 }) := by
    have hflatten : (List.flatten <$> answers calls).effect (initial.setRealTime true) =
        (.ok found.flatten, live) := by
      rw [effect_map, hfound]
      rfl
    rw [← hflatten]
    exact effect_answers_realTime rfl calls
  rcases hscreens : (reapCalls calls).effect .initial with ⟨e | screens, c⟩ <;>
    rw [hscreens] at hreaped
  · cases congrArg Prod.fst hreaped
  · have hcontext : live.context = c := congrArg (·.2.context) hreaped
    have hfinish : (live.finish stop).1 = none := by
      rw [finish, heldCue?, hawaits.live_held]
      rfl
    have hended := hawaits.ended_eq stop
    refine ⟨screens, c, found, live, found', batch, rfl, hfound,
      Except.ok.inj (congrArg Prod.fst hreaped), hfinish, hcontext, hfound', hended,
      fun _ ↦ rfl, hawaits.context_eq.symm.trans hcontext, ?_⟩
    rw [finish, hended]
    exact Cue.isChain_ended stop found.flatten

end Decoder

end ClosedCaptions
