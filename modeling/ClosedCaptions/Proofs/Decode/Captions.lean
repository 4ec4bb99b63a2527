import ClosedCaptions.Command.Decode
import ClosedCaptions.Proofs.Stream.Groups

/-!
# Captions of a stream

The captions of a stream, each with the place of its picture among all pictures of the stream and
with the frame rate that is known there, in the order in which they come. In a well-arranged group
all of them have places of that group and one rate, so sorting the groups one by one sorts them all.
-/

namespace ClosedCaptions

open Procedure StreamUnit

/-- The frame rate that a sequence header tells, if it can be decoded. -/
def StreamUnit.frameRate? (unit : StreamUnit) : Option Float :=
  if unit.isSequenceHeader then
    match ((SequenceHeader.read unit.data).effect ()).1 with
    | .ok header => header.frameRate?.map fun (num, den) ↦ num.toFloat / den.toFloat
    | .error _ => none
  else none

namespace Presentation

/-- What a caption unit hands to a consumer. -/
structure Caption where
  /-- The place of its picture in the display order of the stream. -/
  place : Nat
  /-- The frame rate at which this place becomes a time. -/
  rate : Float
  packets : List UInt8

/-- The place of the last picture in front: the pictures of all groups before its own, and its place
in its own. -/
def placeBehind (before : List StreamUnit) : Nat :=
  (earlierGroups before).countP isPicture + (latest? (lastGroup before)).getD 0

/-- The frame rate that was asked for or that was told first. -/
def rateBehind (frameRate : Option Float) (before : List StreamUnit) : Float :=
  (frameRate.or (before.findSome? frameRate?)).getD defaultRate

/-- The captions of units that come behind others, in the order of the stream. -/
def captionsFrom (frameRate : Option Float) (before : List StreamUnit) :
    List StreamUnit → List Caption
  | [] => []
  | unit :: units =>
    if unit.hasCaptions then
      ⟨placeBehind before, rateBehind frameRate before, unit.captionBytes⟩ ::
        captionsFrom frameRate (before ++ [unit]) units
    else captionsFrom frameRate (before ++ [unit]) units

/-- The same captions, in the order of their places. Those of one picture keep their order. -/
structure InOrder (shown sent : List Caption) : Prop where
  perm : shown.Perm sent
  sorted : shown.Pairwise fun a b ↦ a.place ≤ b.place
  stable : ∀ place, shown.filter (·.place = place) = sent.filter (·.place = place)

variable {frameRate : Option Float} {before group units : List StreamUnit} {unit : StreamUnit}
  {caption : Caption}

theorem captionsFrom_append (frameRate : Option Float) (before units more : List StreamUnit) :
    captionsFrom frameRate before (units ++ more) =
      captionsFrom frameRate before units ++ captionsFrom frameRate (before ++ units) more := by
  induction units generalizing before with
  | nil => rw [List.append_nil]; rfl
  | cons unit units ih =>
    rw [List.cons_append, captionsFrom, captionsFrom, ih, List.append_assoc,
      List.singleton_append]
    split <;> rfl

theorem captionsFrom_singleton_of_not (h : unit.hasCaptions = false) :
    captionsFrom frameRate before [unit] = [] := by
  rw [captionsFrom, h]
  rfl

/-- A border has no captions. -/
theorem captionsFrom_append_border (frameRate : Option Float) (before group : List StreamUnit)
    {border : StreamUnit} (hborder : border.isBorder = true) (rest : List StreamUnit) :
    captionsFrom frameRate before (group ++ border :: rest) =
      captionsFrom frameRate before group ++
        captionsFrom frameRate (before ++ group ++ [border]) rest := by
  have hnone : border.hasCaptions = false := by
    rw [hasCaptions, ccData?_of_isBorder hborder]
    rfl
  rw [captionsFrom_append, captionsFrom, if_neg (Bool.eq_false_iff.mp hnone)]

theorem exists_of_mem_captionsFrom (h : caption ∈ captionsFrom frameRate before units) :
    ∃ front unit back, units = front ++ unit :: back ∧ unit.hasCaptions = true ∧
      caption.place = placeBehind (before ++ front) ∧
      caption.rate = rateBehind frameRate (before ++ front) := by
  induction units generalizing before with
  | nil => contradiction
  | cons unit units ih =>
    have hlater (hrest : caption ∈ captionsFrom frameRate (before ++ [unit]) units) :
        ∃ front unit' back, unit :: units = front ++ unit' :: back ∧ unit'.hasCaptions = true ∧
          caption.place = placeBehind (before ++ front) ∧
          caption.rate = rateBehind frameRate (before ++ front) := by
      obtain ⟨front, unit', back, rfl, hcaptions, hplace, hrate⟩ := ih hrest
      rw [List.append_assoc, List.singleton_append] at hplace hrate
      exact ⟨unit :: front, unit', back, rfl, hcaptions, hplace, hrate⟩
    rw [captionsFrom] at h
    split at h
    · next hcaptions =>
      rcases List.mem_cons.mp h with rfl | hrest
      · exact ⟨[], unit, units, rfl, hcaptions, by rw [List.append_nil], by rw [List.append_nil]⟩
      · exact hlater hrest
    · exact hlater h

/-! ## Sorting -/

/-- The captions sorted by their places. -/
def sortCaptions (captions : List Caption) : List Caption :=
  captions.mergeSort fun a b ↦ a.place ≤ b.place

theorem mem_sortCaptions {captions : List Caption} :
    caption ∈ sortCaptions captions ↔ caption ∈ captions :=
  List.mem_mergeSort

theorem inOrder_sortCaptions (captions : List Caption) :
    InOrder (sortCaptions captions) captions := by
  have htrans (a b c : Caption) : decide (a.place ≤ b.place) = true →
      decide (b.place ≤ c.place) = true → decide (a.place ≤ c.place) = true := by
    simp only [decide_eq_true_eq]
    exact Nat.le_trans
  have htotal (a b : Caption) : (decide (a.place ≤ b.place) || decide (b.place ≤ a.place)) =
      true := by
    simp only [Bool.or_eq_true, decide_eq_true_eq]
    exact Nat.le_total a.place b.place
  have hperm : (sortCaptions captions).Perm captions := List.mergeSort_perm _ _
  refine ⟨hperm, ?_, ?_⟩
  · have hsorted := List.pairwise_mergeSort htrans htotal captions
    rw [← sortCaptions] at hsorted
    simpa only [decide_eq_true_eq] using hsorted
  · intro place
    -- Captions of one place are in order already, so sorting keeps them as they stand.
    have hequal : (captions.filter (·.place = place)).Pairwise
        fun a b ↦ decide (a.place ≤ b.place) = true := by
      rw [List.pairwise_filter]
      refine List.pairwise_of_forall ?_
      intro a b ha hb
      rw [decide_eq_true_eq] at ha hb ⊢
      rw [ha, hb]
    have hkept : (captions.filter (·.place = place)).Sublist (sortCaptions captions) :=
      List.sublist_mergeSort htrans htotal hequal List.filter_sublist
    have hsublist : (captions.filter (·.place = place)).Sublist
        ((sortCaptions captions).filter (·.place = place)) := by
      have hfiltered := hkept.filter (·.place = place)
      simpa only [List.filter_filter, Bool.and_self] using hfiltered
    exact (hsublist.eq_of_length (hperm.filter _).length_eq.symm).symm

theorem InOrder.append {shown sent shown' sent' : List Caption} (h : InOrder shown sent)
    (h' : InOrder shown' sent') (hplaces : ∀ a ∈ shown, ∀ b ∈ shown', a.place ≤ b.place) :
    InOrder (shown ++ shown') (sent ++ sent') where
  perm := h.perm.append h'.perm
  sorted := List.pairwise_append.mpr ⟨h.sorted, h'.sorted, hplaces⟩
  stable place := by rw [List.filter_append, List.filter_append, h.stable, h'.stable]

/-! ## Places and rates in a group -/

theorem placeBehind_append (hclosed : Closed before) (hgroup : Borderless group) :
    placeBehind (before ++ group) = before.countP isPicture + (latest? group).getD 0 := by
  obtain ⟨hlast, hearlier⟩ := lastGroup_append hclosed hgroup
  rw [placeBehind, hlast, hearlier]

theorem frameRate?_of_not_isBorder (h : unit.isBorder = false) : unit.frameRate? = none := by
  have hheader : unit.isSequenceHeader = false := by
    rw [isBorder, Bool.or_assoc, Bool.or_eq_false_iff] at h
    exact h.1
  rw [frameRate?, hheader]
  rfl

theorem findSome?_frameRate?_append (before : List StreamUnit) (hgroup : Borderless group) :
    (before ++ group).findSome? frameRate? = before.findSome? frameRate? := by
  have hnone : group.findSome? frameRate? = none :=
    List.findSome?_eq_none_iff.mpr fun unit hunit ↦ frameRate?_of_not_isBorder (hgroup unit hunit)
  rw [List.findSome?_append, hnone, Option.or_none]

theorem rateBehind_append (frameRate : Option Float) (before : List StreamUnit)
    (hgroup : Borderless group) : rateBehind frameRate (before ++ group) =
      rateBehind frameRate before := by
  rw [rateBehind, findSome?_frameRate?_append before hgroup, rateBehind]

/-- The captions of a group have places of their group, and one rate. -/
theorem bounds_of_mem_sortCaptions (hclosed : Closed before) (hgroup : Borderless group)
    (harranged : Arranged group)
    (h : caption ∈ sortCaptions (captionsFrom frameRate before group)) :
    before.countP isPicture ≤ caption.place ∧
      caption.place < (before ++ group).countP isPicture ∧
      caption.rate = rateBehind frameRate before := by
  obtain ⟨front, unit, back, rfl, hcaptions, hplace, hrate⟩ :=
    exists_of_mem_captionsFrom (mem_sortCaptions.mp h)
  have hfront : Borderless front := fun unit hunit ↦ hgroup unit (List.mem_append_left _ hunit)
  have hpicture := harranged.any_isPicture hcaptions
  obtain ⟨reference, hlatest, hlt⟩ := harranged.exists_latest (List.subset_append_left _ _) hpicture
  rw [placeBehind_append hclosed hfront, hlatest, Option.getD_some] at hplace
  rw [rateBehind_append _ _ hfront] at hrate
  rw [List.countP_append]
  exact ⟨by omega, by omega, hrate⟩

end Presentation

end ClosedCaptions
