import ClosedCaptions.Proofs.Stream.Coverage
import Mathlib.Data.List.Chain

/-!
# The borders of fragments

A stream falls into fragments in one way: they are the pieces, none of them empty, that end wherever
a unit opens a fragment behind a picture of the piece, and nowhere else. So no fragment holds two
pictures.
-/

namespace ClosedCaptions.Fragment

variable {units fragment current : List StreamUnit} {fragments : List (List StreamUnit)}

def hasPicture (units : List StreamUnit) : Bool :=
  units.any StreamUnit.isPicture

/-- No unit opens a fragment behind a picture of the piece. -/
def Whole (fragment : List StreamUnit) : Prop :=
  fragment.Pairwise fun before unit ↦ before.isPicture = true → opens unit = false

/-- The next piece begins with a unit that opens a fragment, and this one holds a picture. -/
def Borders (fragment next : List StreamUnit) : Prop :=
  hasPicture fragment = true ∧ ∃ unit ∈ next.head?, opens unit = true

/-- The pieces are the units, cut where a unit opens a fragment behind a picture. -/
structure Segments (units : List StreamUnit) (fragments : List (List StreamUnit)) : Prop where
  flatten_eq : fragments.flatten = units
  ne_nil : ∀ fragment ∈ fragments, fragment ≠ []
  whole : ∀ fragment ∈ fragments, Whole fragment
  borders : fragments.IsChain Borders

theorem opens_of_isPicture {unit : StreamUnit} (h : unit.isPicture = true) : opens unit = true := by
  simp [opens, h]

/-- A picture opens a fragment behind another one. -/
theorem Whole.pictures_le (h : Whole fragment) :
    (fragment.filter StreamUnit.isPicture).length ≤ 1 := by
  have hfiltered := h.filter StreamUnit.isPicture
  have hpicture : ∀ unit ∈ fragment.filter StreamUnit.isPicture, unit.isPicture = true :=
    fun _ hmem ↦ (List.mem_filter.mp hmem).2
  match hpictures : fragment.filter StreamUnit.isPicture with
  | [] | [_] => simp
  | first :: second :: rest =>
    rw [hpictures] at hfiltered hpicture
    have hclosed : opens second = false :=
      List.rel_of_pairwise_cons hfiltered List.mem_cons_self (hpicture first (by simp))
    rw [opens_of_isPicture (hpicture second (by simp))] at hclosed
    contradiction

theorem whole_concat {unit : StreamUnit} (h : Whole units)
    (hunit : hasPicture units = true → opens unit = false) : Whole (units ++ [unit]) := by
  refine List.pairwise_append.mpr ⟨h, List.pairwise_singleton _ _, ?_⟩
  intro before hbefore last hlast hpicture
  rw [List.mem_singleton.mp hlast]
  exact hunit (List.any_eq_true.mpr ⟨before, hbefore, hpicture⟩)

/-! ## Cutting -/

/-- The fragments done before only stand in front. -/
theorem splitFrom_eq (done : List (List StreamUnit)) (current : List StreamUnit)
    (picture : Bool) (units : List StreamUnit) :
    splitFrom done current picture units = done.reverse ++ splitFrom [] current picture units := by
  induction units generalizing done current picture with
  | nil =>
    rw [splitFrom, splitFrom]
    split <;> simp
  | cons unit units ih =>
    rw [splitFrom, splitFrom]
    split
    · rw [ih, ih [current.reverse]]
      simp
    · rw [ih]

/-- A unit that opens no fragment joins the current one. -/
theorem splitFrom_cons {unit : StreamUnit} (h : hasPicture current = true → opens unit = false)
    (units : List StreamUnit) :
    splitFrom [] current (hasPicture current) (unit :: units) =
      splitFrom [] (unit :: current) (hasPicture (unit :: current)) units := by
  have hstays : ¬ (hasPicture current && opens unit) = true := by
    rw [Bool.and_eq_true]
    intro ⟨hpicture, hopens⟩
    rw [h hpicture] at hopens
    contradiction
  rw [splitFrom, if_neg hstays, hasPicture, hasPicture, List.any_cons, Bool.or_comm]

theorem split_cons (unit : StreamUnit) (units : List StreamUnit) :
    split (unit :: units) = splitFrom [] [unit] (hasPicture [unit]) units := by
  have hnone : hasPicture [] = true → opens unit = false := nofun
  exact splitFrom_cons hnone units

/-- A unit that opens a fragment ends the current one. -/
theorem splitFrom_cons_of_opens {unit : StreamUnit} (hpicture : hasPicture current = true)
    (hopens : opens unit = true) (units : List StreamUnit) :
    splitFrom [] current (hasPicture current) (unit :: units) =
      current.reverse :: split (unit :: units) := by
  have hends : (hasPicture current && opens unit) = true := by simp [hpicture, hopens]
  rw [splitFrom, if_pos hends, splitFrom_eq, split_cons]
  simp [hasPicture]

/-- A whole piece stays together. -/
theorem splitFrom_append {piece : List StreamUnit} (h : Whole (current.reverse ++ piece))
    (units : List StreamUnit) :
    splitFrom [] current (hasPicture current) (piece ++ units) =
      splitFrom [] (piece.reverse ++ current) (hasPicture (piece.reverse ++ current)) units := by
  induction piece generalizing current with
  | nil => rfl
  | cons unit piece ih =>
    have hunit : hasPicture current = true → opens unit = false := by
      intro hpicture
      obtain ⟨before, hbefore, hbeforePicture⟩ := List.any_eq_true.mp hpicture
      exact (List.pairwise_append.mp h).2.2 before (List.mem_reverse.mpr hbefore) unit
        List.mem_cons_self hbeforePicture
    have hrest : Whole ((unit :: current).reverse ++ piece) := by
      rwa [List.reverse_cons, List.append_assoc, List.singleton_append]
    rw [List.cons_append, splitFrom_cons hunit, ih hrest, List.reverse_cons, List.append_assoc,
      List.singleton_append]

/-- A piece in front of a border is a fragment. -/
theorem split_append {rest : List StreamUnit} (hne : fragment ≠ []) (hwhole : Whole fragment)
    (hborder : rest ≠ [] → Borders fragment rest) :
    split (fragment ++ rest) = fragment :: split rest := by
  have hpiece : split (fragment ++ rest) =
      splitFrom [] fragment.reverse (hasPicture fragment.reverse) rest := by
    have hfront : Whole ([].reverse ++ fragment) := hwhole
    have happend := splitFrom_append hfront rest
    rwa [List.append_nil] at happend
  rw [hpiece]
  cases rest with
  | nil => simp [splitFrom, split, hne]
  | cons unit rest =>
    obtain ⟨hpicture, _, hunit, hopens⟩ := hborder (List.cons_ne_nil _ _)
    obtain rfl := Option.some.inj hunit
    have hreverse : hasPicture fragment.reverse = true := by
      rwa [hasPicture, List.any_reverse]
    rw [splitFrom_cons_of_opens hreverse hopens, List.reverse_reverse]

/-! ## The one way to cut -/

theorem Segments.split_eq (h : Segments units fragments) : split units = fragments := by
  obtain ⟨rfl, hne, hwhole, hborders⟩ := h
  induction fragments with
  | nil => rfl
  | cons fragment fragments ih =>
    rw [List.forall_mem_cons] at hne hwhole
    have hborder : fragments.flatten ≠ [] → Borders fragment fragments.flatten := by
      intro hrest
      cases fragments with
      | nil => contradiction
      | cons next fragments =>
        obtain ⟨hpicture, unit, hunit, hopens⟩ := (List.isChain_cons_cons.mp hborders).1
        have hhead : unit ∈ (next :: fragments).flatten.head? := by
          rw [List.flatten_cons, List.head?_append, hunit]
          rfl
        exact ⟨hpicture, unit, hhead, hopens⟩
    rw [List.flatten_cons, split_append hne.1 hwhole.1 hborder, ih hne.2 hwhole.2 hborders.of_cons]

/-- A piece in front of a border joins the fragments behind it. -/
theorem Segments.cons (h : Segments units fragments) (hne : fragment ≠ [])
    (hwhole : Whole fragment) (hborder : Borders fragment units) :
    Segments (fragment ++ units) (fragment :: fragments) where
  flatten_eq := by rw [List.flatten_cons, h.flatten_eq]
  ne_nil := List.forall_mem_cons.mpr ⟨hne, h.ne_nil⟩
  whole := List.forall_mem_cons.mpr ⟨hwhole, h.whole⟩
  borders := by
    rw [List.isChain_cons]
    refine ⟨?_, h.borders⟩
    intro next hnext
    obtain ⟨hpicture, unit, hunit, hopens⟩ := hborder
    refine ⟨hpicture, unit, ?_, hopens⟩
    -- The next piece is not empty, so it begins with the first of the units.
    obtain ⟨rest, rfl⟩ := List.head?_eq_some_iff.mp hnext
    obtain ⟨first, next, rfl⟩ := List.exists_cons_of_ne_nil (h.ne_nil next (by simp))
    rwa [← h.flatten_eq] at hunit

theorem segments_splitFrom (hne : current ≠ []) (hwhole : Whole current.reverse)
    (units : List StreamUnit) :
    Segments (current.reverse ++ units) (splitFrom [] current (hasPicture current) units) := by
  induction units generalizing current with
  | nil =>
    have hlast : splitFrom [] current (hasPicture current) [] = [current.reverse] := by
      simp [splitFrom, hne]
    rw [hlast]
    exact ⟨by simp, by simpa using hne, by simpa using hwhole, List.isChain_singleton _⟩
  | cons unit units ih =>
    have hsingle : Segments (unit :: units) (split (unit :: units)) := by
      rw [split_cons]
      exact ih (List.cons_ne_nil unit []) (List.pairwise_singleton _ _)
    by_cases hopens : hasPicture current = true ∧ opens unit = true
    · rw [splitFrom_cons_of_opens hopens.1 hopens.2]
      refine hsingle.cons (by simpa using hne) hwhole ⟨?_, unit, rfl, hopens.2⟩
      rw [hasPicture, List.any_reverse]
      exact hopens.1
    · have hstays : hasPicture current = true → opens unit = false := fun hpicture ↦
        Bool.eq_false_iff.mpr fun hunit ↦ hopens ⟨hpicture, hunit⟩
      have hnext : Whole (unit :: current).reverse := by
        rw [List.reverse_cons]
        apply whole_concat hwhole
        rwa [hasPicture, List.any_reverse]
      have hrest := ih (List.cons_ne_nil unit current) hnext
      rwa [splitFrom_cons hstays, ← List.singleton_append, ← List.append_assoc,
        ← List.reverse_cons]

/-- The fragments are the only way to cut the units at these borders. -/
theorem split_eq_iff : split units = fragments ↔ Segments units fragments := by
  constructor
  · rintro rfl
    cases units with
    | nil => exact ⟨rfl, nofun, nofun, List.isChain_nil⟩
    | cons unit units =>
      rw [split_cons]
      exact segments_splitFrom (List.cons_ne_nil unit []) (List.pairwise_singleton _ _) units
  · exact Segments.split_eq

end ClosedCaptions.Fragment
