import ClosedCaptions.Command.Filter
import ClosedCaptions.Proofs.Filter.Sequence
import ClosedCaptions.Proofs.Related
import ClosedCaptions.Proofs.Stream.Coverage
import ClosedCaptions.Proofs.Stream.Splitter

/-!
# Filtered streams

A filter that passes or extracts captions keeps every unit of a stream. What it does to a fragment
is to rewrite the sequence headers, hand over the units and note what was taken out of them, so that
passing and extracting leave the same output, and without options the stream itself.
-/

namespace ClosedCaptions

open Procedure

namespace Filtering

variable {start f g : Filtering} {units : List StreamUnit}

/-- The filtering once a fragment was kept. -/
def took (units : List StreamUnit) (f : Filtering) : Filtering :=
  { f with
    captions := f.captions.counted (f.captions.action.takenCount units)
    done := ⟨StreamUnit.encodeAll units, f.captions.action.taken units⟩ :: f.done
    sideDataBytes := f.sideDataBytes + (f.captions.action.taken units).length }

theorem output_took (units : List StreamUnit) (f : Filtering) :
    (f.took units).output = f.output ++ StreamUnit.encodeAll units := by
  simp [took, output]

theorem sideData_took (units : List StreamUnit) (f : Filtering) :
    (f.took units).sideData = f.sideData ++ f.captions.action.taken units := by
  simp [took, sideData]

/-! ## Fragments -/

theorem effect_rewrite (units : List StreamUnit) (f : Filtering) :
    (rewrite units).effect f =
      ((f.sequence.rewriteUnits units).1,
        { f with sequence := (f.sequence.rewriteUnits units).2 }) := by
  rw [rewrite, effect_focus, SequenceFilter.rewriteUnits]
  rcases h : SequenceFilter.Rewriting.rewrite.effect ⟨f.sequence, units⟩ with ⟨_ | changed, r⟩
  · rw [effect_bind_error h]
    rfl
  · rw [effect_bind_ok h]
    rfl

/-- Only the sequence headers decide whether a fragment fails. -/
theorem effect_filterFragment (h : f.captions.KeepsUnits) (units : List StreamUnit) :
    (filterFragment units).effect f =
      match f.sequence.rewriteUnits units with
      | (.ok kept, s) => (.ok (), took kept { f with sequence := s })
      | (.error e, s) => (.error e, { f with sequence := s }) := by
  have hrewrite := effect_rewrite units f
  rw [filterFragment]
  rcases hunits : f.sequence.rewriteUnits units with ⟨e | kept, s⟩ <;> rw [hunits] at hrewrite
  · exact effect_bind_error hrewrite
  · obtain ⟨sideData, happly, hsideData⟩ := h.effect_apply kept
    have hfocus : (focus captions (fun c f ↦ { f with captions := c })
        (CaptionFilter.apply kept)).effect { f with sequence := s } =
        (.ok (kept, sideData), { f with
          sequence := s
          captions := f.captions.counted (f.captions.action.takenCount kept) }) := by
      rw [effect_focus, happly]
    rw [effect_bind_ok hrewrite, effect_bind_ok hfocus, effect_modify, hsideData]
    rfl

/-- The fragments of a stream are filtered in turn. -/
theorem effect_filterStream (bytes : List UInt8) (f : Filtering) :
    (filterStream bytes).effect f =
      (each filterFragment (Fragment.split (unitSplit bytes))).effect f := by
  have hunits : (Splitter.splitChunks (Chunks.read Chunks.commandSize bytes)).units =
      unitSplit bytes := by
    rw [Splitter.units_splitChunks, Chunks.flatten_read (by decide)]
  have hfragments (fragments : List (List StreamUnit)) :
      fragments.dropLast ++ fragments.getLast?.toList = fragments := by
    rcases List.eq_nil_or_concat fragments with rfl | ⟨front, last, rfl⟩
    · rfl
    · simp
  rw [filterStream, effect_bind_ok (effect_each_log _ _), hunits]
  conv_rhs => rw [← hfragments (Fragment.split (unitSplit bytes)), each_append]
  apply effect_bind_congr
  · rfl
  · intro _ t
    exact effect_log_bind _ _ _

/-! ## The bytes of side data -/

/-- The bytes that were counted are those of the side data. -/
def CountsBytes (f : Filtering) : Prop :=
  f.sideDataBytes = f.sideData.length

/-- A fragment is counted when it is done, and what fails before is not counted. -/
theorem ensures_filterFragment_countsBytes (units : List StreamUnit) :
    Ensures CountsBytes (filterFragment units) (fun _ ↦ CountsBytes) CountsBytes := by
  have hrewrite : Ensures CountsBytes (rewrite units) (fun _ ↦ CountsBytes) CountsBytes :=
    ensures_focus fun _ hf ↦ ensures_of_forall (fun _ _ ↦ hf) fun _ ↦ hf
  apply hrewrite.bind
  intro kept
  have happly : Ensures CountsBytes (focus captions (fun c f ↦ { f with captions := c })
      (CaptionFilter.apply kept)) (fun _ ↦ CountsBytes) CountsBytes :=
    ensures_focus fun _ hf ↦ ensures_of_forall (fun _ _ ↦ hf) fun _ ↦ hf
  apply happly.bind
  intro (kept, extracted)
  apply ensures_modify
  intro f hf
  rw [CountsBytes, sideData] at hf ⊢
  simp [hf]

theorem countsBytes_filterStream (h : start.CountsBytes) (bytes : List UInt8) :
    ((filterStream bytes).effect start).2.CountsBytes := by
  rw [effect_filterStream]
  exact (ensures_each ensures_filterFragment_countsBytes _ start h).state (fun _ _ hf ↦ hf)
    fun _ hf ↦ hf

/-! ## What a run takes out and hands over -/

/-- The side data has three bytes for each packet that was counted. -/
def Counts (f : Filtering) : Prop :=
  f.sideData.length = SideData.packetSize * f.captions.packetsExtracted

/-- The filtering has gone from its start through some units. -/
structure Took (start : Filtering) (units : List StreamUnit) (f : Filtering) : Prop where
  keeps : f.captions.KeepsUnits
  action_eq : f.captions.action = start.captions.action
  sideData_eq : f.sideData = start.captions.action.taken units
  counts : f.Counts
  unchanged : start.sequence.isActive = false →
    f.sequence.isActive = false ∧ f.output = StreamUnit.encodeAll units

/-- The filtering has failed, which takes a sequence filter at work. -/
structure Failed (start f : Filtering) : Prop where
  counts : f.Counts
  active : start.sequence.isActive = true

theorem ensures_filterFragment (start : Filtering) (units more : List StreamUnit) :
    Ensures (Took start units) (filterFragment more) (fun _ ↦ Took start (units ++ more))
      (Failed start) := by
  intro f h
  rw [effect_filterFragment h.keeps]
  rcases hrewrite : f.sequence.rewriteUnits more with ⟨e | kept, s⟩
  · refine ⟨h.counts, ?_⟩
    by_contra hinactive
    obtain ⟨hidle, _⟩ := h.unchanged (Bool.eq_false_of_not_eq_true hinactive)
    rw [SequenceFilter.rewriteUnits_of_inactive hidle] at hrewrite
    cases congrArg Prod.fst hrewrite
  · have hcaptions := SequenceFilter.captionBytes_of_rewriteUnits (congrArg Prod.fst hrewrite)
    have htaken : start.captions.action.taken kept = start.captions.action.taken more := by
      rw [CaptionAction.taken, CaptionAction.taken, hcaptions]
    constructor
    · exact ⟨h.keeps.action_ne, h.keeps.failLevel_eq⟩
    · exact h.action_eq
    · rw [sideData_took]
      change f.sideData ++ f.captions.action.taken kept = _
      rw [h.sideData_eq, h.action_eq, htaken, CaptionAction.taken_append]
    · rw [Counts, sideData_took, List.length_append, CaptionAction.length_taken]
      change f.sideData.length + _ = _
      rw [h.counts, ← Nat.mul_add]
      rfl
    · intro hinactive
      obtain ⟨hidle, houtput⟩ := h.unchanged hinactive
      rw [SequenceFilter.rewriteUnits_of_inactive hidle] at hrewrite
      obtain ⟨hkept, rfl⟩ := Prod.mk.inj hrewrite
      obtain rfl := Except.ok.inj hkept
      refine ⟨hidle, ?_⟩
      rw [output_took]
      change f.output ++ _ = _
      rw [houtput, StreamUnit.encodeAll, StreamUnit.encodeAll, StreamUnit.encodeAll,
        List.flatMap_append]

theorem ensures_each_filterFragment (start : Filtering) (units : List StreamUnit)
    (fragments : List (List StreamUnit)) :
    Ensures (Took start units) (each filterFragment fragments)
      (fun _ ↦ Took start (units ++ fragments.flatten)) (Failed start) := by
  induction fragments generalizing units with
  | nil =>
    apply ensures_pure
    intro f h
    rwa [List.flatten_nil, List.append_nil]
  | cons fragment fragments ih =>
    rw [each_cons, List.flatten_cons, ← List.append_assoc]
    exact (ensures_filterFragment start units fragment).bind fun _ ↦ ih _

/-- A stream ends with all its units taken, or with a failure of the sequence filter. -/
theorem post_filterStream (h : Took start [] start) (bytes : List UInt8) :
    Post (fun _ ↦ Took start (unitSplit bytes)) (Failed start)
      ((filterStream bytes).effect start) := by
  have hrun := ensures_each_filterFragment start [] (Fragment.split (unitSplit bytes)) start h
  rwa [List.nil_append, Fragment.flatten_split, ← effect_filterStream] at hrun

/-- Without options a stream ends with all its units taken. -/
theorem ok_of_inactive {result : Except Error Unit} {f : Filtering}
    (h : Post (fun _ : Unit ↦ Took start units) (Failed start) (result, f))
    (hinactive : start.sequence.isActive = false) : result = .ok () ∧ Took start units f := by
  rcases result with e | _
  · have hactive : start.sequence.isActive = true := Failed.active h
    rw [hinactive] at hactive
    contradiction
  · exact ⟨rfl, h⟩

/-! ## Two filterings of one stream -/

/-- Both keep all units and have left the same output. -/
structure SameOutput (f g : Filtering) : Prop where
  left : f.captions.KeepsUnits
  right : g.captions.KeepsUnits
  sequence_eq : f.sequence = g.sequence
  output_eq : f.output = g.output

theorem related_filterFragment (units : List StreamUnit) (f g : Filtering) (h : SameOutput f g) :
    Related (Keeps SameOutput) SameOutput (filterFragment units) (filterFragment units) f g := by
  unfold Related
  rw [effect_filterFragment h.left, effect_filterFragment h.right, h.sequence_eq]
  rcases g.sequence.rewriteUnits units with ⟨e | kept, s⟩
  · exact ⟨rfl, h.left, h.right, rfl, h.output_eq⟩
  · refine ⟨rfl, ⟨h.left.action_ne, h.left.failLevel_eq⟩,
      ⟨h.right.action_ne, h.right.failLevel_eq⟩, rfl, ?_⟩
    rw [output_took, output_took]
    exact congrArg (· ++ StreamUnit.encodeAll kept) h.output_eq

/-- What becomes of the output does not depend on whether captions are passed or extracted. -/
theorem SameOutput.filterStream (h : SameOutput f g) (bytes : List UInt8) :
    ((filterStream bytes).effect f).1 = ((filterStream bytes).effect g).1 ∧
      SameOutput ((filterStream bytes).effect f).2 ((filterStream bytes).effect g).2 := by
  rw [effect_filterStream, effect_filterStream]
  exact (related_each related_filterFragment _ h).result_eq

end Filtering

end ClosedCaptions
