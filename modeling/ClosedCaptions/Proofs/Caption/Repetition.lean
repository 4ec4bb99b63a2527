import ClosedCaptions.Proofs.Caption.Calls

/-!
# Repeated commands

A command may be sent several times to be safe. Copies of the command that was accepted last give
nothing and change nothing, however many there are and whatever was skipped on the way, also at the
head of a later call. Characters are never taken for such a copy.
-/

namespace ClosedCaptions

namespace Context

open Procedure

variable {first second : UInt8}

theorem ensures_bind_remember (p : Procedure Context Unit) (first second : UInt8) :
    Ensures (fun _ ↦ True) (p >>= fun _ ↦ remember first second)
      (fun _ c ↦ c.previous = (first, second)) fun _ ↦ True := by
  have hp : Ensures (fun _ ↦ True) p (fun _ _ ↦ True) fun _ ↦ True :=
    ensures_of_forall (fun _ _ ↦ trivial) fun _ ↦ trivial
  apply hp.bind
  intro _
  exact ensures_modify fun _ _ ↦ rfl

/-- A command that was applied, or was ignored as a copy, is the previous one. -/
theorem ensures_processPair_previous (h : first < 0x20) (second : UInt8) :
    Ensures (fun _ ↦ True) (processPair first second) (fun _ c ↦ c.previous = (first, second))
      fun _ ↦ True := by
  unfold processPair
  apply ensures_get_bind
  intro c _
  split
  · next hcopy => exact hcopy.symm
  cases hcode : Code.ofPair first second with
  | preamble row style => exact ensures_bind_remember (applyPreamble row style) _ _ c trivial
  | midRow style => exact ensures_bind_remember (applyMidRow style) _ _ c trivial
  | control control => exact ensures_bind_remember (applyControl control) _ _ c trivial
  | tabOffset => exact rfl
  | characters first' second' =>
    exact absurd h (UInt8.not_lt.mpr (Code.le_of_ofPair_eq_characters hcode))
  | unknown first' second' =>
    obtain ⟨rfl, rfl⟩ := Code.eq_of_ofPair_eq_unknown hcode
    exact rfl

end Context

namespace Decoder

open Procedure

/-- Packets with copies of commands put in, after `previous` was the last pair accepted, if any; at
the end it is `last`. A copy holds the pair that was accepted last, and this is a command. -/
inductive Repeated : Option (UInt8 × UInt8) → List Triple → List Triple →
    Option (UInt8 × UInt8) → Prop
  | nil {previous : Option (UInt8 × UInt8)} : Repeated previous [] [] previous
  | keep {packet : Triple} {previous last : Option (UInt8 × UInt8)} {packets more : List Triple}
      (rest : Repeated (packet.pair?.or previous) packets more last) :
      Repeated previous (packet :: packets) (packet :: more) last
  | copy {packet : Triple} {pair : UInt8 × UInt8} {last : Option (UInt8 × UInt8)}
      {packets more : List Triple} (same : packet.pair? = some pair) (command : pair.1 < 0x20)
      (rest : Repeated (some pair) packets more last) :
      Repeated (some pair) packets (packet :: more) last

/-- Calls with copies of commands put in. The command may stand in an earlier call than the copy,
but not in front of a flush. -/
inductive RepeatedCalls : Option (UInt8 × UInt8) → List Call → List Call → Prop
  | nil {previous : Option (UInt8 × UInt8)} : RepeatedCalls previous [] []
  | decode {previous last : Option (UInt8 × UInt8)} {bytes more : List UInt8} {time : Int64}
      {calls calls' : List Call}
      (packets : Repeated previous (Triple.split bytes).1 (Triple.split more).1 last)
      (rest : RepeatedCalls last calls calls') :
      RepeatedCalls previous (.decode bytes time :: calls) (.decode more time :: calls')
  | flush {previous : Option (UInt8 × UInt8)} {calls calls' : List Call}
      (rest : RepeatedCalls none calls calls') :
      RepeatedCalls previous (.flush :: calls) (.flush :: calls')

/-- If the last pair that was accepted is a command, it is remembered, and its screen was given
out. -/
def Settled (previous : Option (UInt8 × UInt8)) (d : Decoder) : Prop :=
  ∀ pair ∈ previous, pair.1 < 0x20 → d.context.previous = pair ∧ d.context.reaped = false

variable {d : Decoder} {previous last : Option (UInt8 × UInt8)} {pair : UInt8 × UInt8}

theorem settled_none (d : Decoder) : Settled none d :=
  fun _ h ↦ nomatch h

/-- What was remembered is ignored. -/
theorem effect_decodePair_of_settled (h : Settled (some pair) d) (hcommand : pair.1 < 0x20)
    (time : Int64) : (decodePair time pair).effect d = (.ok [], d) := by
  obtain ⟨hprevious, hreaped⟩ := h pair rfl hcommand
  have hignored : (Context.processPair pair.1 pair.2).effect d.context = (.ok (), d.context) :=
    Context.effect_processPair_of_eq hprevious.symm
  rw [decodePair, effect_applying, hignored]
  simp [hreaped]

/-- A pair is settled once it was applied. -/
theorem ensures_decodePair_settled (time : Int64) (pair : UInt8 × UInt8) :
    Ensures (fun _ ↦ True) (decodePair time pair) (fun _ ↦ Settled (some pair)) fun _ ↦ True := by
  by_cases hcommand : pair.1 < 0x20
  · intro d _
    have hpair := Context.ensures_processPair_previous hcommand pair.2 d.context trivial
    rw [decodePair, effect_applying]
    rcases hprocess : (Context.processPair pair.1 pair.2).effect d.context with ⟨e | _, c⟩ <;>
      rw [hprocess] at hpair
    · trivial
    · dsimp only
      split
      · rintro _ ⟨⟩ _
        rw [context_emit]
        exact ⟨hpair, rfl⟩
      · next hreaped =>
        rintro _ ⟨⟩ _
        exact ⟨hpair, Bool.eq_false_iff.mpr hreaped⟩
  · apply ensures_of_forall
    · rintro _ d _ ⟨⟩ h
      exact absurd h hcommand
    · exact fun _ ↦ trivial

theorem ensures_decodeTriple_settled (time : Int64) (packet : Triple) :
    Ensures (Settled previous) (Option.toList <$> decodeTriple time packet)
      (fun _ ↦ Settled (packet.pair?.or previous)) fun _ ↦ True := by
  cases hpair : packet.pair? with
  | none =>
    intro d hd
    rw [effect_map, effect_decodeTriple_of_none hpair]
    exact hd
  | some pair =>
    rw [decodeTriple_of_some hpair]
    exact (ensures_decodePair_settled time pair).mono (fun _ _ ↦ trivial) (fun _ _ h ↦ h)
      fun _ h ↦ h

/-- Packets settle the pair that they end with. -/
theorem Repeated.ensures_decodeTriples {packets more : List Triple}
    (h : Repeated previous packets more last) (time : Int64) :
    Ensures (Settled previous) (decodeTriples time packets) (fun _ ↦ Settled last)
      fun _ ↦ True := by
  unfold decodeTriples
  induction h with
  | nil => exact ensures_pure fun _ hd ↦ hd
  | keep rest ih =>
    rw [gather_cons]
    apply (ensures_decodeTriple_settled time _).bind
    intro _
    apply Ensures.map
    exact ih
  | copy same command rest ih => exact ih

theorem Repeated.effect_eq {packets more : List Triple} (h : Repeated previous packets more last)
    (time : Int64) (hd : Settled previous d) :
    (decodeTriples time more).effect d = (decodeTriples time packets).effect d := by
  unfold decodeTriples
  induction h generalizing d with
  | nil => rfl
  | @keep packet previous last packets more rest ih =>
    have hsettled := ensures_decodeTriple_settled time packet d hd
    rw [gather_cons, gather_cons]
    rcases heffect : (Option.toList <$> decodeTriple time packet).effect d with ⟨_ | found, t⟩ <;>
      rw [heffect] at hsettled
    · rw [effect_bind_error heffect, effect_bind_error heffect]
    · rw [effect_bind_ok heffect, effect_bind_ok heffect, effect_map, effect_map, ih hsettled]
  | @copy packet pair last packets more same command rest ih =>
    have hignored : (Option.toList <$> decodeTriple time packet).effect d = (.ok [], d) := by
      rw [decodeTriple_of_some same, effect_decodePair_of_settled hd command]
    rw [gather_cons, effect_bind_ok hignored, effect_map, ih hd]
    rcases (gather (fun packet ↦ Option.toList <$> decodeTriple time packet) packets).effect d
      with ⟨_ | _, _⟩
    · rfl
    · rfl

/-- Calls with copies put in give the same, and leave the same decoder. -/
theorem RepeatedCalls.effect_eq {calls calls' : List Call} (h : RepeatedCalls previous calls calls')
    (hd : Settled previous d) : (answers calls').effect d = (answers calls).effect d := by
  induction h generalizing d with
  | nil => rfl
  | @decode previous last bytes more time calls calls' packets rest ih =>
    have hsame : (Call.run (.decode more time)).effect d =
        (Call.run (.decode bytes time)).effect d := by
      rw [Call.run, Call.run, effect_decode_eq, effect_decode_eq, packets.effect_eq time hd]
    have hsettled := packets.ensures_decodeTriples time d hd
    rw [← effect_decode_eq] at hsettled
    rw [answers_cons, answers_cons]
    rcases heffect : (Call.run (.decode bytes time)).effect d with ⟨_ | cues, t⟩
    · rw [effect_bind_error (hsame.trans heffect), effect_bind_error heffect]
    · have ht : Settled last t := by
        rw [Call.run] at heffect
        rwa [heffect] at hsettled
      rw [effect_bind_ok (hsame.trans heffect), effect_bind_ok heffect, effect_map, effect_map,
        ih ht]
  | flush rest ih =>
    rw [answers_cons, answers_cons, effect_bind_ok (effect_flush_run d),
      effect_bind_ok (effect_flush_run d), effect_map, effect_map, ih (settled_none _)]

/-- Whatever was done with a fresh decoder: copies of commands are ignored, and every pair of
characters that is accepted is written. -/
theorem ignores_only_copies_of_commands (operations : List Operation) :
    (∀ calls calls', RepeatedCalls none calls calls' →
      (answers calls').effect (after operations) = (answers calls).effect (after operations)) ∧
    ∀ (packet : Triple) (first second : UInt8) (time : Int64), packet.pair? = some (first, second) →
      0x20 ≤ first → (Option.toList <$> decodeTriple time packet).effect (after operations) =
        (applying time (Context.applyCharacters first second)).effect (after operations) := by
  refine ⟨fun calls calls' h ↦ h.effect_eq (settled_none _), ?_⟩
  intro packet first second time hpair hfirst
  have hprevious : (after operations).context.previous.1 < 0x20 :=
    (wellFormed_after operations).context.previous_lt
  have hnew : ¬ (first, second) = (after operations).context.previous := by
    intro heq
    rw [← heq] at hprevious
    exact UInt8.not_lt.mpr hfirst hprevious
  have hwritten : (Context.processPair first second).effect (after operations).context =
      (Context.applyCharacters first second).effect (after operations).context := by
    rw [Context.processPair, effect_get_bind, if_neg hnew, Code.ofPair_of_le hfirst]
    rfl
  rw [decodeTriple_of_some hpair, decodePair, effect_applying, effect_applying, hwritten]

/-- Copies behind padding and at the head of the next call, and a pair of characters. -/
theorem ignores_copies_of_two_commands :
    let load := Triple.ofPair (0x14, 0x20)
    let letters := Triple.ofPair (0x48, 0x69)
    let display := Triple.ofPair (0x14, 0x2F)
    let padding := Triple.ofPair (0, 0)
    let calls : List Call := [.decode ([load, padding, letters, display].flatMap Triple.bytes) 0,
      .decode ([letters].flatMap Triple.bytes) 5]
    let calls' : List Call :=
      [.decode ([load, load, padding, load, letters, display].flatMap Triple.bytes) 0,
        .decode ([display, letters].flatMap Triple.bytes) 5]
    let live := after [.setRealTime true]
    RepeatedCalls none calls calls' ∧
      ((answers calls).effect live).1.toOption = some [[⟨"Hi", 0, none⟩], []] ∧
      (answers calls').effect live = (answers calls).effect live ∧
      letters.pair? = some (0x48, 0x69) ∧ (0x20 : UInt8) ≤ 0x48 ∧
      (Option.toList <$> decodeTriple 9 letters).effect live =
        (applying 9 (Context.applyCharacters 0x48 0x69)).effect live := by
  intro load letters display padding calls calls' live
  have hload : load.pair? = some (0x14, 0x20) := by decide
  have hpadding : padding.pair? = none := by decide
  have hletters : letters.pair? = some (0x48, 0x69) := by decide
  have hdisplay : display.pair? = some (0x14, 0x2F) := by decide
  have hfirst : Repeated none [load, padding, letters, display]
      [load, load, padding, load, letters, display] (some (0x14, 0x2F)) := by
    apply Repeated.keep
    rw [hload]
    apply Repeated.copy hload (by decide)
    apply Repeated.keep
    rw [hpadding]
    apply Repeated.copy hload (by decide)
    apply Repeated.keep
    apply Repeated.keep
    rw [hdisplay]
    exact .nil
  have hsecond : Repeated (some (0x14, 0x2F)) [letters] [display, letters]
      (letters.pair?.or (some (0x14, 0x2F))) :=
    .copy hdisplay (by decide) (.keep .nil)
  have hrepeated : RepeatedCalls none calls calls' := by
    apply RepeatedCalls.decode
    · rw [Triple.split_flatMap_bytes, Triple.split_flatMap_bytes]
      exact hfirst
    · apply RepeatedCalls.decode
      · rw [Triple.split_flatMap_bytes, Triple.split_flatMap_bytes]
        exact hsecond
      · exact .nil
  obtain ⟨hcopies, hcharacters⟩ := ignores_only_copies_of_commands [.setRealTime true]
  refine ⟨hrepeated, ?_, hcopies _ _ hrepeated, hletters, by decide,
    hcharacters letters 0x48 0x69 9 hletters (by decide)⟩
  decide +kernel

end Decoder

end ClosedCaptions
