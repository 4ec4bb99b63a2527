import ClosedCaptions.Proofs.Caption.Decoder
import ClosedCaptions.Proofs.Caption.Packet
import ClosedCaptions.Proofs.Related

/-!
# Calls of a decoder

What a caller gets for one call after the other, up to the first that fails: a list of cues for each
of them. Two decoders with the same context apply the same pairs, so what relates them needs a look
only where a screen becomes a cue.
-/

namespace ClosedCaptions.Decoder

open Procedure

/-- What a caller does with a decoder on the way through a stream. -/
inductive Call where
  | decode (bytes : List UInt8) (time : Int64)
  | flush

/-- The cues that a call gives. -/
def Call.run : Call → Procedure Decoder (List Cue)
  | decode bytes time => Decoder.decode bytes time
  | flush => do
    modify Decoder.flush
    return []

/-- The cues that each of the calls gives. -/
def answers (calls : List Call) : Procedure Decoder (List (List Cue)) :=
  gather (fun call ↦ ([·]) <$> call.run) calls

@[simp]
theorem answers_nil : answers [] = pure [] := rfl

theorem answers_cons (call : Call) (calls : List Call) :
    answers (call :: calls) = call.run >>= fun cues ↦ (cues :: ·) <$> answers calls := by
  rw [answers, gather_cons, bind_map_left]
  rfl

/-- The cues of all calls. -/
theorem flatten_answers (calls : List Call) :
    List.flatten <$> answers calls = gather Call.run calls := by
  induction calls with
  | nil => rfl
  | cons call calls ih =>
    rw [answers_cons, gather_cons, map_bind, ← ih]
    congr 1
    funext cues
    rw [Functor.map_map, Functor.map_map]
    rfl

variable {d d' : Decoder} {level : Severity}

theorem ensures_answers (calls : List Call) :
    Ensures (WellFormedAt level) (answers calls) (fun _ ↦ WellFormedAt level) (Fails level) := by
  induction calls with
  | nil => exact ensures_pure fun _ hd ↦ hd
  | cons call calls ih =>
    have hcall : Ensures (WellFormedAt level) call.run (fun _ ↦ WellFormedAt level)
        (Fails level) := by
      cases call with
      | decode bytes time =>
        exact (ensures_decode bytes time).mono (fun _ hd ↦ hd) (fun _ _ h ↦ h.1) fun _ h ↦ h
      | flush =>
        intro d hd
        exact ⟨hd.context.flush, hd.held⟩
    rw [answers_cons]
    apply hcall.bind
    intro _
    apply Ensures.map
    exact ih

/-- Where warnings are not fatal, no call fails. -/
theorem WellFormedAt.answers_ok (h : d.WellFormedAt .error) (calls : List Call) :
    ∃ found e, (answers calls).effect d = (.ok found, e) := by
  obtain ⟨found, e, heffect, _⟩ := (ensures_answers calls).exists_ok not_fails_error h
  exact ⟨found, e, heffect⟩

theorem effect_flush_run (d : Decoder) : (Call.run .flush).effect d = (.ok [], d.flush) := rfl

@[simp]
theorem context_emit (time : Int64) (d : Decoder) :
    (d.emit time).2.context = { d.context with reaped := false } := by
  unfold emit
  dsimp only
  split <;> rfl

/-! ## Two decoders side by side -/

/-- A relation of two decoders, and of the cues that they have given, which lasts while both apply
the same pairs. -/
structure Lasting (R : List Cue → Decoder → List Cue → Decoder → Prop) : Prop where
  context_eq : ∀ {cues d cues' d'}, R cues d cues' d' → d.context = d'.context
  put : ∀ {cues d cues' d'}, R cues d cues' d' → ∀ c,
    R cues { d with context := c } cues' { d' with context := c }
  emit : ∀ {cues d cues' d'}, R cues d cues' d' → ∀ time,
    R (cues ++ (d.emit time).1.toList) (d.emit time).2
      (cues' ++ (d'.emit time).1.toList) (d'.emit time).2

namespace Lasting

variable {R : List Cue → Decoder → List Cue → Decoder → Prop} {cues cues' : List Cue}

theorem related_decodePair (h : Lasting R) (hd : R cues d cues' d') (time : Int64)
    (pair : UInt8 × UInt8) :
    Related (fun more e more' e' ↦ R (cues ++ more) e (cues' ++ more') e') (fun _ _ ↦ True)
      (decodePair time pair) (decodePair time pair) d d' := by
  unfold Related
  rw [decodePair, effect_applying, effect_applying, h.context_eq hd]
  rcases (Context.processPair pair.1 pair.2).effect d'.context with ⟨e | _, c⟩
  · exact ⟨rfl, trivial⟩
  · have hput := h.put hd c
    dsimp only
    split
    · exact h.emit hput time
    · simpa only [Match, List.append_nil] using hput

theorem related_gather (h : Lasting R) (hd : R cues d cues' d') (time : Int64)
    (pairs : List (UInt8 × UInt8)) :
    Related (fun more e more' e' ↦ R (cues ++ more) e (cues' ++ more') e') (fun _ _ ↦ True)
      (gather (decodePair time) pairs) (gather (decodePair time) pairs) d d' := by
  induction pairs generalizing cues d cues' d' with
  | nil =>
    rw [gather_nil]
    apply related_pure
    rwa [List.append_nil, List.append_nil]
  | cons pair pairs ih =>
    rw [gather_cons]
    apply related_bind (h.related_decodePair hd time pair)
    intro more e more' e' he
    apply related_map
    refine (ih he).mono ?_ fun _ _ _ ↦ trivial
    intro _ _ _ _ hrest
    rwa [← List.append_assoc, ← List.append_assoc]

theorem related_decode (h : Lasting R) (hd : R cues d cues' d') (bytes : List UInt8)
    (time : Int64) :
    Related (fun more e more' e' ↦ R (cues ++ more) e (cues' ++ more') e') (fun _ _ ↦ True)
      (decode bytes time) (decode bytes time) d d' :=
  related_congr (effect_decode bytes time d) (effect_decode bytes time d')
    (h.related_gather hd time _)

theorem related_answers (h : Lasting R) (hd : R cues d cues' d') (calls : List Call) :
    Related (fun found e found' e' ↦ R (cues ++ found.flatten) e (cues' ++ found'.flatten) e')
      (fun _ _ ↦ True) (answers calls) (answers calls) d d' := by
  induction calls generalizing cues d cues' d' with
  | nil =>
    rw [answers_nil]
    apply related_pure
    rwa [List.flatten_nil, List.append_nil, List.append_nil]
  | cons call calls ih =>
    have hcall : Related (fun more e more' e' ↦ R (cues ++ more) e (cues' ++ more') e')
        (fun _ _ ↦ True) call.run call.run d d' := by
      cases call with
      | decode bytes time => exact h.related_decode hd bytes time
      | flush =>
        have hsame : d'.flush = { d' with context := d.context.flush } := by
          rw [h.context_eq hd]
          rfl
        have hflushed : R cues d.flush cues' d'.flush := by
          rw [hsame]
          exact h.put hd d.context.flush
        unfold Related
        rw [effect_flush_run, effect_flush_run]
        simpa only [Match, List.append_nil] using hflushed
    rw [answers_cons]
    apply related_bind hcall
    intro more e more' e' he
    apply related_map
    refine (ih he).mono ?_ fun _ _ _ ↦ trivial
    intro found _ found' _ hrest
    rwa [List.flatten_cons, List.flatten_cons, ← List.append_assoc, ← List.append_assoc]

end Lasting

end ClosedCaptions.Decoder
