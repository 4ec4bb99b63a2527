import ClosedCaptions.Filter.Sequence
import ClosedCaptions.Proofs.Ensures
import ClosedCaptions.Proofs.Filter.SideData

/-!
# Rewritten sequences

The sequence filter changes a sequence header and a sequence extension and no other unit, so that
the captions of a fragment stay. Without options it changes nothing.
-/

namespace ClosedCaptions

open Procedure

namespace StreamUnit

/-- The start code of a unit and the captions in it. -/
def kindAndCaptions (unit : StreamUnit) : UInt8 × List UInt8 :=
  (unit.startCode, unit.captionBytes)

theorem captionBytes_of_not_isUserData {unit : StreamUnit} (h : unit.isUserData = false) :
    unit.captionBytes = [] := by
  rw [captionBytes, ccData?, h]
  rfl

theorem kindAndCaptions_of_data {unit : StreamUnit} (h : unit.isUserData = false)
    (data : List UInt8) : { unit with data := data }.kindAndCaptions = unit.kindAndCaptions := by
  have hchanged : { unit with data := data }.isUserData = false := h
  simp only [kindAndCaptions, captionBytes_of_not_isUserData h,
    captionBytes_of_not_isUserData hchanged]

theorem flatMap_captionBytes_eq {units kept : List StreamUnit}
    (h : kept.map kindAndCaptions = units.map kindAndCaptions) :
    kept.flatMap captionBytes = units.flatMap captionBytes := by
  have hcaptions := congrArg (List.flatMap Prod.snd) h
  rwa [List.flatMap_map, List.flatMap_map] at hcaptions

end StreamUnit

namespace SequenceFilter

namespace Rewriting

variable {units : List StreamUnit} {index : Nat}

/-- The start codes and the captions are those of these units. -/
def SameCaptions (units : List StreamUnit) (r : Rewriting) : Prop :=
  r.units.map StreamUnit.kindAndCaptions = units.map StreamUnit.kindAndCaptions

/-- Other data for a unit that is no user data changes no captions. -/
theorem SameCaptions.setDataAt {r : Rewriting} (h : SameCaptions units r)
    (hindex : ∀ unit, units[index]? = some unit → unit.isUserData = false) (data : List UInt8) :
    SameCaptions units (setDataAt index data r) := by
  rw [SameCaptions, ← h]
  apply List.ext_getElem?
  intro i
  simp only [Rewriting.setDataAt, List.getElem?_map, List.getElem?_modify]
  split
  · next hi =>
    have hsame := congrArg (·[index]?) h
    simp only [List.getElem?_map] at hsame
    rw [← hi]
    rcases hunit : r.units[index]? with _ | unit
    · rfl
    · rw [hunit] at hsame
      obtain ⟨before, hbefore, hkind⟩ := Option.map_eq_some_iff.mp hsame.symm
      have hcode : before.startCode = unit.startCode := congrArg Prod.fst hkind
      have huser : unit.isUserData = false := by
        rw [StreamUnit.isUserData, ← hcode]
        exact hindex before hbefore
      exact congrArg some (StreamUnit.kindAndCaptions_of_data huser data)
  · simp

theorem ensures_overwriteAt
    (hindex : ∀ unit, units[index]? = some unit → unit.isUserData = false)
    (p : Procedure (List UInt8) Unit) :
    Ensures (SameCaptions units) (overwriteAt index p) (fun _ ↦ SameCaptions units)
      (fun _ ↦ True) := by
  apply ensures_focus
  intro r hr bytes _
  rcases p.effect bytes with ⟨_ | _, data⟩
  · trivial
  · exact hr.setDataAt hindex data

theorem ensures_rewriteAt {header extension : Nat}
    (hheader : ∀ unit, units[header]? = some unit → unit.isUserData = false)
    (hextension : ∀ unit, units[extension]? = some unit → unit.isUserData = false) :
    Ensures (SameCaptions units) (rewriteAt header extension) (fun _ ↦ SameCaptions units)
      (fun _ ↦ True) := by
  unfold rewriteAt
  apply ensures_get_bind
  intro r hr
  have hread {α : Type} (p : Procedure Reader α) (bytes : List UInt8) :
      Ensures (SameCaptions units) (locally (Reader.ofBytes bytes) p : Procedure Rewriting α)
        (fun _ ↦ SameCaptions units) (fun _ ↦ True) :=
    (ensures_locally _ p).mono (fun _ h ↦ h) (fun _ _ h ↦ h) fun _ _ ↦ trivial
  refine (hread _ _).bind (fun h ↦ (hread _ _).bind fun e ↦ ?_) r hr
  apply ensures_log_bind
  apply (ensures_overwriteAt hheader _).bind
  intro _
  apply (ensures_overwriteAt hextension _).bind
  intro _
  exact ensures_modify fun r hr ↦ hr

theorem isUserData_of_findIdx? {test : StreamUnit → Bool} {unit : StreamUnit}
    (htest : ∀ u, test u = true → u.isUserData = false) (h : units.findIdx? test = some index)
    (hunit : units[index]? = some unit) : unit.isUserData = false := by
  obtain ⟨hlt, hfound, _⟩ := List.findIdx?_eq_some_iff_getElem.mp h
  obtain ⟨_, rfl⟩ := List.getElem?_eq_some_iff.mp hunit
  exact htest _ hfound

theorem isUserData_of_isSequenceExtension (unit : StreamUnit)
    (h : unit.isSequenceExtension = true) : unit.isUserData = false := by
  rw [StreamUnit.isSequenceExtension, Bool.and_eq_true, beq_iff_eq] at h
  rw [StreamUnit.isUserData, h.1]
  decide

theorem ensures_rewrite (units : List StreamUnit) :
    Ensures (fun r ↦ r.units = units) rewrite (fun _ ↦ SameCaptions units) (fun _ ↦ True) := by
  unfold rewrite
  apply ensures_get_bind
  intro r hr
  have hsame : SameCaptions units r := congrArg (List.map StreamUnit.kindAndCaptions) hr
  have hpure (changed : Bool) : Ensures (SameCaptions units) (pure changed)
      (fun _ ↦ SameCaptions units) (fun _ ↦ True) := ensures_pure fun _ h ↦ h
  split
  · exact hsame
  · rw [hr]
    split
    · next header extension hheader hextension =>
      have hrewrite := ensures_rewriteAt
        (fun unit ↦ isUserData_of_findIdx?
          (fun _ ↦ StreamUnit.isUserData_of_isSequenceHeader) hheader)
        fun unit ↦ isUserData_of_findIdx? isUserData_of_isSequenceExtension hextension
      exact hrewrite.bind (fun _ ↦ hpure true) r hsame
    · have hwarn : Ensures (SameCaptions units) warnOnce (fun _ ↦ SameCaptions units)
          (fun _ ↦ True) := by
        unfold warnOnce
        apply ensures_get_bind
        intro r hr
        split
        · exact hr
        · exact hr
      exact hwarn.bind (fun _ ↦ hpure false) r hsame
    · exact hsame

end Rewriting

variable {s : SequenceFilter} {units kept : List StreamUnit}

/-- The units of a fragment with the sequence headers rewritten, and the filter afterwards. -/
def rewriteUnits (s : SequenceFilter) (units : List StreamUnit) :
    Except Error (List StreamUnit) × SequenceFilter :=
  let done := Rewriting.rewrite.effect ⟨s, units⟩
  (done.1.map fun _ ↦ done.2.units, done.2.filter)

theorem rewriteUnits_of_inactive (h : s.isActive = false) (units : List StreamUnit) :
    s.rewriteUnits units = (.ok units, s) := by
  have hrewrite : Rewriting.rewrite.effect ⟨s, units⟩ = (.ok false, ⟨s, units⟩) := by
    rw [Rewriting.rewrite, effect_get_bind]
    simp only [h]
    rfl
  rw [rewriteUnits, hrewrite]
  rfl

theorem captionBytes_of_rewriteUnits (h : (s.rewriteUnits units).1 = .ok kept) :
    kept.flatMap StreamUnit.captionBytes = units.flatMap StreamUnit.captionBytes := by
  have hpost := Rewriting.ensures_rewrite units ⟨s, units⟩ rfl
  rw [rewriteUnits] at h
  rcases heffect : Rewriting.rewrite.effect ⟨s, units⟩ with ⟨_ | changed, r⟩ <;>
    rw [heffect] at h hpost
  · cases h
  · obtain rfl : r.units = kept := Except.ok.inj h
    exact StreamUnit.flatMap_captionBytes_eq hpost

end SequenceFilter

end ClosedCaptions
