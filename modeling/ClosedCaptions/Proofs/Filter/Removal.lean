import ClosedCaptions.Proofs.Filter.Request
import ClosedCaptions.Proofs.Stream.Encoding
import ClosedCaptions.Proofs.Stream.Segments

/-!
# Removed captions

A filter that removes captions drops the first caption unit of each fragment and counts it. Without
options it writes all other units again in their order, and these are the units of its output.
-/

namespace ClosedCaptions

open Procedure

namespace StreamUnit

/-- The units of a fragment without the first caption unit. -/
def withoutCaptions (fragment : List StreamUnit) : List StreamUnit :=
  fragment.eraseP hasCaptions

/-- The number of units that go from a fragment. -/
def removedCount (fragment : List StreamUnit) : Nat :=
  if fragment.any hasCaptions then 1 else 0

theorem removedCount_add_length (fragment : List StreamUnit) :
    removedCount fragment + (withoutCaptions fragment).length = fragment.length := by
  rw [removedCount, withoutCaptions, List.length_eraseP]
  split
  · next hany =>
    obtain ⟨unit, hunit, _⟩ := List.any_eq_true.mp hany
    have hpos : 0 < fragment.length := List.length_pos_of_mem hunit
    omega
  · omega

end StreamUnit

open StreamUnit

namespace CaptionFilter

variable {c : CaptionFilter}

/-- The filter after more units were removed. -/
def removed (count : Nat) (c : CaptionFilter) : CaptionFilter :=
  { c with unitsRemoved := c.unitsRemoved + count }

/-- Behind the first caption unit everything stays. -/
theorem fold_keepUnit_of_dropped (kept units : List StreamUnit) :
    fold keepUnit (kept, true) units = pure (units.reverse ++ kept, true) := by
  induction units generalizing kept with
  | nil => rfl
  | cons unit units ih =>
    have hunit : keepUnit (kept, true) unit = pure (unit :: kept, true) := rfl
    rw [fold_cons, hunit, pure_bind, ih, List.reverse_cons, List.append_assoc,
      List.singleton_append]

theorem effect_fold_keepUnit (hlevel : c.failLevel = .error) (kept units : List StreamUnit) :
    (fold keepUnit (kept, false) units).effect c =
      (.ok ((withoutCaptions units).reverse ++ kept, units.any hasCaptions),
        c.removed (removedCount units)) := by
  induction units generalizing kept with
  | nil => rfl
  | cons unit units ih =>
    have hcaptions := effect_captions? hlevel unit
    rw [fold_cons]
    cases hunit : unit.ccData? with
    | none =>
      have hnot : unit.hasCaptions = false := by rw [hasCaptions, hunit, Option.isSome_none]
      have hkeep : (keepUnit (kept, false) unit).effect c =
          (.ok (unit :: kept, false), c) := by
        rw [keepUnit, if_neg Bool.false_ne_true, effect_bind_ok hcaptions, hunit]
        rfl
      rw [effect_bind_ok hkeep, ih]
      simp [withoutCaptions, removedCount, hnot]
    | some found =>
      have hhas : unit.hasCaptions = true := by rw [hasCaptions, hunit, Option.isSome_some]
      have hkeep : (keepUnit (kept, false) unit).effect c =
          (.ok (kept, true), c.removed 1) := by
        rw [keepUnit, if_neg Bool.false_ne_true, effect_bind_ok hcaptions, hunit]
        rfl
      rw [effect_bind_ok hkeep, fold_keepUnit_of_dropped]
      simp [withoutCaptions, removedCount, hhas]

theorem effect_remove (hlevel : c.failLevel = .error) (units : List StreamUnit) :
    (remove units).effect c = (.ok (withoutCaptions units), c.removed (removedCount units)) := by
  rw [remove, effect_map, effect_fold_keepUnit hlevel]
  simp [Except.map]

theorem effect_apply_remove (haction : c.action = .remove) (hlevel : c.failLevel = .error)
    (units : List StreamUnit) :
    (apply units).effect c =
      (.ok (withoutCaptions units, none), c.removed (removedCount units)) := by
  rw [apply, effect_get_bind, haction]
  exact effect_bind_ok (effect_remove hlevel units)

end CaptionFilter

namespace Filtering

/-- The filtering has gone from its start through some fragments, and a caption unit was removed
from each that had one. -/
structure Removed (fragments : List (List StreamUnit)) (f : Filtering) : Prop where
  action_eq : f.captions.action = .remove
  failLevel_eq : f.captions.failLevel = .error
  idle : f.sequence.isActive = false
  output_eq : f.output = encodeAll (fragments.flatMap withoutCaptions)
  count_eq : f.captions.unitsRemoved + (fragments.flatMap withoutCaptions).length =
    fragments.flatten.length

variable {fragments : List (List StreamUnit)}

theorem ensures_filterFragment_removed (fragment : List StreamUnit) :
    Ensures (Removed fragments) (filterFragment fragment)
      (fun _ ↦ Removed (fragments ++ [fragment])) fun _ ↦ False := by
  intro f h
  have hrewrite : (rewrite fragment).effect f = (.ok fragment, f) := by
    rw [effect_rewrite, SequenceFilter.rewriteUnits_of_inactive h.idle]
  have happly : (focus captions (fun c f ↦ { f with captions := c })
      (CaptionFilter.apply fragment)).effect f = (.ok (withoutCaptions fragment, none),
        { f with captions := f.captions.removed (removedCount fragment) }) := by
    rw [effect_focus, CaptionFilter.effect_apply_remove h.action_eq h.failLevel_eq]
  rw [filterFragment, effect_bind_ok hrewrite, effect_bind_ok happly, effect_modify]
  refine ⟨h.action_eq, h.failLevel_eq, h.idle, ?_, ?_⟩
  · have houtput := h.output_eq
    simp only [output, encodeAll] at houtput ⊢
    simp [houtput]
  · have hcount := h.count_eq
    have hfragment := removedCount_add_length fragment
    simp only [CaptionFilter.removed, List.flatMap_append, List.flatMap_singleton,
      List.flatten_append, List.flatten_singleton, List.length_append]
    omega

theorem ensures_each_removed (more : List (List StreamUnit)) :
    Ensures (Removed fragments) (each filterFragment more)
      (fun _ ↦ Removed (fragments ++ more)) fun _ ↦ False := by
  induction more generalizing fragments with
  | nil =>
    apply ensures_pure
    intro f h
    rwa [List.append_nil]
  | cons fragment more ih =>
    rw [each_cons, ← List.singleton_append, ← List.append_assoc]
    exact (ensures_filterFragment_removed fragment).bind fun _ ↦ ih

/-- A stream ends with a caption unit removed from each fragment that had one. -/
theorem removed_filterStream {start : Filtering} (h : Removed [] start) (bytes : List UInt8) :
    ∃ f, (filterStream bytes).effect start = (.ok (), f) ∧
      Removed (Fragment.split (unitSplit bytes)) f := by
  obtain ⟨_, f, heffect, hremoved⟩ := (ensures_each_removed
    (Fragment.split (unitSplit bytes))).exists_ok (fun _ ↦ not_false) h
  rw [← effect_filterStream] at heffect
  exact ⟨f, heffect, hremoved⟩

end Filtering

namespace FilterRequest

variable {request : FilterRequest} {opened : Opened} {w w' : Workspace}

/-- Only extracting has a file for side data. -/
theorem sideDataPath_eq_none (haction : request.captions ≠ .extract)
    (hopen : request.openFiles.effect w = (.ok opened, w')) : opened.sideDataPath = none := by
  have hcreate : request.createSideData = pure none := by
    rw [createSideData, sideDataName?, if_neg haction]
  have hrest (w : Workspace) (h : (request.createSideData >>= fun sideDataPath ↦
      Workspace.create request.output >>= fun outputPath ↦
      Workspace.openInput request.input >>= fun input ↦
      pure (Opened.mk sideDataPath outputPath input)).effect w = (.ok opened, w')) :
      opened.sideDataPath = none := by
    rw [hcreate, pure_bind] at h
    obtain ⟨path, u, _, h⟩ := effect_bind_eq_ok_iff.mp h
    obtain ⟨input, v, _, h⟩ := effect_bind_eq_ok_iff.mp h
    rw [← Except.ok.inj (congrArg Prod.fst h)]
  rw [openFiles] at hopen
  split at hopen <;> split at hopen
  · rw [effect_log_bind, effect_fail_bind] at hopen
    cases hopen
  · rw [effect_log_bind] at hopen
    exact hrest w hopen
  · rw [effect_fail_bind] at hopen
    cases hopen
  · exact hrest w hopen

/-- Where problems are tolerated and no options are set, removing captions succeeds. The stream
falls into fragments in one way, and the output is its units in order, without the first caption
unit of each fragment. These are also the units of the output, and the units that are missing are
counted. -/
theorem remove_drops_first_captions (logLevel : Option Severity) (logFormat : LogFormat)
    (hremove : request.captions = .remove) (hratio : request.aspectRatio = none)
    (hrate : request.frameRate = none) (hopen : request.openFiles.effect w = (.ok opened, w')) :
    ∃ fragments f,
      (∀ pieces, Fragment.Segments (unitSplit opened.input) pieces ↔ pieces = fragments) ∧
      (∀ fragment ∈ fragments, (fragment.filter StreamUnit.isPicture).length ≤ 1) ∧
      (Filtering.filterStream opened.input).effect (.start request .error) = (.ok (), f) ∧
      (Invocation.mk logLevel logFormat false (.filter request)).run.effect w =
        (.ok (), f.deliver opened.outputPath none w') ∧
      (f.deliver opened.outputPath none w').content? opened.outputPath = some f.output ∧
      f.output = encodeAll (fragments.flatMap withoutCaptions) ∧
      unitSplit f.output = fragments.flatMap withoutCaptions ∧
      f.captions.unitsRemoved + (fragments.flatMap withoutCaptions).length =
        (unitSplit opened.input).length ∧
      f.report = [.unitsRemoved f.captions.unitsRemoved] := by
  have hstart : Filtering.Removed [] (.start request .error) :=
    ⟨hremove, rfl, inactive_start hratio hrate, rfl, rfl⟩
  obtain ⟨f, hfilter, hremoved⟩ := Filtering.removed_filterStream hstart opened.input
  have hsegments : Fragment.Segments (unitSplit opened.input)
      (Fragment.split (unitSplit opened.input)) := Fragment.split_eq_iff.mp rfl
  have hpath : opened.sideDataPath = none := sideDataPath_eq_none (by simp [hremove]) hopen
  have hrun := effect_run hopen .error hfilter
  rw [hpath] at hrun
  refine ⟨_, f, fun pieces ↦ ?_, ?_, hfilter, hrun,
    (Filtering.content?_deliver (by simp) f w').1, hremoved.output_eq, ?_, ?_, ?_⟩
  · rw [← Fragment.split_eq_iff, eq_comm]
  · exact fun fragment hfragment ↦ (hsegments.whole fragment hfragment).pictures_le
  · rw [hremoved.output_eq]
    apply unitSplit_encodeAll
    intro unit hunit
    obtain ⟨fragment, hfragment, hmem⟩ := List.mem_flatMap.mp hunit
    have hinput : unit ∈ unitSplit opened.input := by
      rw [← hsegments.flatten_eq]
      exact List.mem_flatten_of_mem hfragment (List.mem_of_mem_eraseP hmem)
    exact startFree_of_mem_unitSplit hinput
  · rw [hremoved.count_eq, hsegments.flatten_eq]
  · rw [Filtering.report, hremoved.idle, hremoved.action_eq]
    rfl

/-- Two fragments, the second opened by a group and with captions in front of its picture. -/
theorem remove_from_two_fragments :
    let picture : StreamUnit := ⟨0x00, [0x00, 0x0F, 0xFF, 0xF8]⟩
    let group : StreamUnit := ⟨0xB8, []⟩
    let captions : StreamUnit :=
      ⟨0xB2, [0x47, 0x41, 0x39, 0x34, 0x03, 0x41, 0xFF, 0xFC, 0x94, 0x20, 0xFF]⟩
    let bytes := encodeAll [picture, captions, captions, group, captions, picture]
    let w : Workspace := ⟨[("in", bytes)], [], [], ""⟩
    let request : FilterRequest := ⟨"in", "out", .remove, none, none, none⟩
    let removed := (Invocation.mk none .plain false (.filter request)).run.effect w
    request.openFiles.effect w = (.ok ⟨none, "out", bytes⟩, w.store "out" []) ∧
      removed.1 = .ok () ∧
      removed.2.content? "out" = some (encodeAll [picture, captions, group, picture]) := by
  intro picture group captions bytes w request removed
  have hopen : request.openFiles.effect w =
      (.ok ⟨none, "out", bytes⟩, w.store "out" []) := by decide +kernel
  obtain ⟨fragments, f, hsegments, -, -, hrun, hfile, houtput, -, -, -⟩ :=
    remove_drops_first_captions none .plain (rfl : request.captions = .remove) rfl rfl hopen
  have hunits : unitSplit bytes = [picture, captions, captions, group, captions, picture] :=
    unitSplit_encodeAll (by decide)
  have hfragments : [[picture, captions, captions], [group, captions, picture]] = fragments := by
    rw [← hsegments, hunits, ← Fragment.split_eq_iff]
    decide
  have hkept : fragments.flatMap withoutCaptions = [picture, captions, group, picture] := by
    rw [← hfragments]
    decide +kernel
  rw [hkept] at houtput
  refine ⟨hopen, congrArg Prod.fst hrun, ?_⟩
  rw [← houtput, ← hfile]
  exact congrArg (·.2.content? "out") hrun

end FilterRequest

end ClosedCaptions
