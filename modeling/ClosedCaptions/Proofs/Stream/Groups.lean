import ClosedCaptions.Picture
import ClosedCaptions.Proofs.Filter.SideData
import Mathlib.Data.List.DropRight

/-!
# Groups

A group is what stands between one sequence header, group or sequence end and the next. Its pictures
are coded in another order than they are displayed in. A well-arranged group tells each of their
places once, and has no captions in front of its first picture.
-/

namespace ClosedCaptions

namespace StreamUnit

/-- The unit ends one group and opens the next. -/
def isBorder (unit : StreamUnit) : Bool :=
  unit.isSequenceHeader || unit.isGroup || unit.isSequenceEnd

/-- The place of a picture in its group, if its header can be decoded. -/
def reference? (unit : StreamUnit) : Option Nat :=
  match ((PictureHeader.read unit.data).effect ()).1 with
  | .ok header => some header.temporalReference.toNat
  | .error _ => none

theorem isPicture_of_isBorder {unit : StreamUnit} (h : unit.isBorder = true) :
    unit.isPicture = false := by
  simp only [isBorder, isSequenceHeader, isGroup, isSequenceEnd, Bool.or_eq_true,
    beq_iff_eq] at h
  rcases h with (h | h) | h <;> rw [isPicture, h] <;> decide

theorem ccData?_of_not_isUserData {unit : StreamUnit} (h : unit.isUserData = false) :
    unit.ccData? = none := by
  rw [ccData?, h]
  rfl

theorem ccData?_of_isBorder {unit : StreamUnit} (h : unit.isBorder = true) :
    unit.ccData? = none := by
  apply ccData?_of_not_isUserData
  simp only [isBorder, isSequenceHeader, isGroup, isSequenceEnd, Bool.or_eq_true,
    beq_iff_eq] at h
  rcases h with (h | h) | h <;> rw [isUserData, h] <;> decide

theorem ccData?_of_isPicture {unit : StreamUnit} (h : unit.isPicture = true) :
    unit.ccData? = none :=
  ccData?_of_not_isUserData (isUserData_of_isPicture h)

theorem isPicture_of_hasCaptions {unit : StreamUnit} (h : unit.hasCaptions = true) :
    unit.isPicture = false := by
  by_contra hnot
  rw [hasCaptions, ccData?_of_isPicture (Bool.not_eq_false _ ▸ hnot)] at h
  contradiction

end StreamUnit

open StreamUnit

/-- No unit of the piece is a border. -/
def Borderless (group : List StreamUnit) : Prop :=
  ∀ unit ∈ group, unit.isBorder = false

/-- A group could begin behind these units. -/
def Closed (units : List StreamUnit) : Prop :=
  ∀ unit ∈ units.getLast?, unit.isBorder = true

/-- The runs of units between the borders. -/
def groups (units : List StreamUnit) : List (List StreamUnit) :=
  units.splitOnP isBorder

/-- The units behind the last border. -/
def lastGroup (units : List StreamUnit) : List StreamUnit :=
  units.rtakeWhile fun unit ↦ !unit.isBorder

/-- The units up to the last border. -/
def earlierGroups (units : List StreamUnit) : List StreamUnit :=
  units.rdropWhile fun unit ↦ !unit.isBorder

/-- The place in its group of the last picture of some units. -/
def latest? (group : List StreamUnit) : Option Nat :=
  (group.filter isPicture).getLast?.bind reference?

/-- The headers of the pictures tell all places in the group, each once, and no captions stand in
front of the first picture. -/
structure Arranged (group : List StreamUnit) : Prop where
  references : ((group.filter isPicture).map reference?).Perm
    ((List.range (group.countP isPicture)).map some)
  captions : ∀ unit ∈ group.takeWhile (!·.isPicture), unit.hasCaptions = false

variable {units before group rest : List StreamUnit} {border unit : StreamUnit}

theorem closed_nil : Closed [] := nofun

theorem closed_concat (units : List StreamUnit) (h : border.isBorder = true) :
    Closed (units ++ [border]) := by
  intro unit hunit
  rw [List.getLast?_concat] at hunit
  rwa [← Option.some.inj hunit]

theorem lastGroup_append (hclosed : Closed before) (hgroup : Borderless group) :
    lastGroup (before ++ group) = group ∧ earlierGroups (before ++ group) = before := by
  induction group using List.reverseRecOn with
  | nil =>
    rw [List.append_nil]
    rcases before.eq_nil_or_concat' with rfl | ⟨front, last, rfl⟩
    · exact ⟨rfl, rfl⟩
    · have hlast : last.isBorder = true := hclosed last List.getLast?_concat
      rw [lastGroup, earlierGroups, List.rtakeWhile_concat, List.rdropWhile_concat, hlast]
      exact ⟨rfl, rfl⟩
  | append_singleton group unit ih =>
    have hunit : unit.isBorder = false := hgroup unit (by simp)
    obtain ⟨hlast, hearlier⟩ := ih fun unit h ↦ hgroup unit (by simp [h])
    rw [← List.append_assoc, lastGroup, earlierGroups, List.rtakeWhile_concat,
      List.rdropWhile_concat, hunit, ← lastGroup, ← earlierGroups, hlast, hearlier]
    exact ⟨rfl, rfl⟩

theorem latest?_concat_of_isPicture (h : unit.isPicture = true) (group : List StreamUnit) :
    latest? (group ++ [unit]) = unit.reference? := by
  simp [latest?, h]

theorem latest?_concat_of_not_isPicture (h : unit.isPicture = false) (group : List StreamUnit) :
    latest? (group ++ [unit]) = latest? group := by
  simp [latest?, h]

/-! ## Well-arranged groups -/

theorem groups_of_borderless (h : Borderless group) : groups group = [group] :=
  List.splitOnP_eq_singleton h

theorem groups_append (h : Borderless group) (hborder : border.isBorder = true)
    (rest : List StreamUnit) : groups (group ++ border :: rest) = group :: groups rest :=
  List.splitOnP_append_cons_of_forall_mem h border hborder rest

namespace Arranged

/-- Every picture has a place, which is less than the number of pictures. -/
theorem exists_reference (h : Arranged group) (hunit : unit ∈ group)
    (hpicture : unit.isPicture = true) :
    ∃ reference, unit.reference? = some reference ∧ reference < group.countP isPicture := by
  have hmem : unit.reference? ∈ (List.range (group.countP isPicture)).map some := by
    rw [← h.references.mem_iff]
    exact List.mem_map_of_mem (List.mem_filter.mpr ⟨hunit, hpicture⟩)
  obtain ⟨reference, hlt, heq⟩ := List.mem_map.mp hmem
  exact ⟨reference, heq.symm, List.mem_range.mp hlt⟩

/-- Captions stand behind a picture. -/
theorem any_isPicture {front back : List StreamUnit} (h : Arranged (front ++ unit :: back))
    (hcaptions : unit.hasCaptions = true) : front.any isPicture = true := by
  by_contra hnone
  have hfront : ∀ other ∈ front, (!other.isPicture) = true := by
    intro other hother
    rw [Bool.not_eq_true', Bool.eq_false_iff]
    exact fun hpicture ↦ hnone (List.any_eq_true.mpr ⟨other, hother, hpicture⟩)
  have hnot : unit.hasCaptions = false := by
    apply h.captions
    rw [List.takeWhile_append_of_pos hfront, List.takeWhile_cons_of_pos]
    · simp
    · rw [isPicture_of_hasCaptions hcaptions]
      rfl
  rw [hcaptions] at hnot
  contradiction

/-- Behind a picture, its place is known. -/
theorem exists_latest (h : Arranged group) {front : List StreamUnit} (hfront : front ⊆ group)
    (hpicture : front.any isPicture = true) :
    ∃ reference, latest? front = some reference ∧ reference < group.countP isPicture := by
  have hne : front.filter isPicture ≠ [] := by
    obtain ⟨unit, hunit, hunitPicture⟩ := List.any_eq_true.mp hpicture
    exact List.ne_nil_of_mem (List.mem_filter.mpr ⟨hunit, hunitPicture⟩)
  have hlast := List.mem_filter.mp (List.getLast_mem hne)
  obtain ⟨reference, hreference, hlt⟩ := h.exists_reference (hfront hlast.1) hlast.2
  refine ⟨reference, ?_, hlt⟩
  rw [latest?, List.getLast?_eq_some_getLast hne, Option.bind_some, hreference]

end Arranged

/-- Units are one last group, or a group, a border and units behind it. -/
theorem groups_induction {motive : List StreamUnit → Prop}
    (last : ∀ group, Borderless group → motive group)
    (step : ∀ group border rest, Borderless group → border.isBorder = true → motive rest →
      motive (group ++ border :: rest)) (units : List StreamUnit) : motive units := by
  have hfrom (group : List StreamUnit) (hgroup : Borderless group) : motive (group ++ units) := by
    induction units generalizing group with
    | nil =>
      rw [List.append_nil]
      exact last group hgroup
    | cons unit units ih =>
      cases hunit : unit.isBorder with
      | true => exact step group unit units hgroup hunit (ih [] nofun)
      | false =>
        rw [← List.singleton_append, ← List.append_assoc]
        apply ih
        intro other hother
        rcases List.mem_append.mp hother with hother | hother
        · exact hgroup other hother
        · rwa [List.mem_singleton.mp hother]
  exact hfrom [] nofun

end ClosedCaptions
