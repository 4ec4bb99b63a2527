import ClosedCaptions.Proofs.Filter.Recoding

/-!
# Rewritten fragments

A fragment is rewritten by changing one byte of its first sequence header and one byte of its first
sequence extension, or not at all. Both records are read before either is written, and writing back
what was read cannot fail, so no fragment is left half rewritten.
-/

namespace ClosedCaptions

open Procedure

namespace SequenceFilter

/-! ## Units -/

/-- A unit with one byte of its data changed. -/
def editByte (index : Nat) (change : UInt8 → UInt8) (unit : StreamUnit) : StreamUnit :=
  { unit with data := unit.data.modify index change }

/-- The units with the byte changed in the header and in the extension. -/
def recoded (f : SequenceFilter) (header extension : Nat) (units : List StreamUnit) :
    List StreamUnit :=
  (units.modify header (editByte 3 f.headerByte)).modify extension (editByte 5 f.extensionByte)

/-- Where the first header and the first extension are. -/
structure Found (units : List StreamUnit) (header extension : Nat) : Prop where
  header_eq : units.findIdx? StreamUnit.isSequenceHeader = some header
  extension_eq : units.findIdx? StreamUnit.isSequenceExtension = some extension

variable {units : List StreamUnit} {header extension : Nat}

theorem Found.ne (h : Found units header extension) : header ≠ extension := by
  rintro rfl
  obtain ⟨hlt, hheader, _⟩ := List.findIdx?_eq_some_iff_getElem.mp h.header_eq
  obtain ⟨_, hextension, _⟩ := List.findIdx?_eq_some_iff_getElem.mp h.extension_eq
  rw [StreamUnit.isSequenceHeader, beq_iff_eq] at hheader
  rw [StreamUnit.isSequenceExtension, Bool.and_eq_true, beq_iff_eq, hheader] at hextension
  exact absurd hextension.1 (by decide)

theorem Found.unique {header' extension' : Nat} (hfound : Found units header extension)
    (hfound' : Found units header' extension') : header' = header ∧ extension' = extension := by
  have hheader := hfound'.header_eq.symm.trans hfound.header_eq
  have hextension := hfound'.extension_eq.symm.trans hfound.extension_eq
  exact ⟨Option.some.inj hheader, Option.some.inj hextension⟩

/-- What a change leaves of an element it leaves of the list. -/
theorem map_modify_of_eq {α β : Type} {view : α → β} {change : α → α}
    (h : ∀ a, view (change a) = view a) (as : List α) (index : Nat) :
    (as.modify index change).map view = as.map view := by
  induction as generalizing index with
  | nil => rw [List.modify_nil]
  | cons a as ih =>
    cases index with
    | zero => rw [List.modify_zero_cons, List.map_cons, List.map_cons, h]
    | succ index => rw [List.modify_succ_cons, List.map_cons, List.map_cons, ih]

theorem findIdx?_modify {α : Type} {test : α → Bool} {change : α → α}
    (h : ∀ a, test (change a) = test a) (as : List α) (index : Nat) :
    (as.modify index change).findIdx? test = as.findIdx? test := by
  have hmap := congrArg (List.findIdx? id) (map_modify_of_eq h as index)
  rwa [List.findIdx?_map, List.findIdx?_map] at hmap

theorem isSequenceHeader_editByte (index : Nat) (change : UInt8 → UInt8) (unit : StreamUnit) :
    (editByte index change unit).isSequenceHeader = unit.isSequenceHeader := rfl

theorem isSequenceExtension_editByte (index : Nat) (change : UInt8 → UInt8) (unit : StreamUnit) :
    (editByte (index + 1) change unit).isSequenceExtension = unit.isSequenceExtension := by
  obtain ⟨code, data⟩ := unit
  cases data <;> rfl

theorem Found.recoded (h : Found units header extension) (f : SequenceFilter) :
    Found (f.recoded header extension units) header extension := by
  constructor
  · rw [SequenceFilter.recoded, findIdx?_modify (isSequenceHeader_editByte 5 _),
      findIdx?_modify (isSequenceHeader_editByte 3 _)]
    exact h.header_eq
  · rw [SequenceFilter.recoded, findIdx?_modify (isSequenceExtension_editByte 4 _),
      findIdx?_modify (isSequenceExtension_editByte 2 _)]
    exact h.extension_eq

theorem editByte_editByte {index : Nat} {change : UInt8 → UInt8}
    (h : ∀ byte, change (change byte) = change byte) :
    editByte index change ∘ editByte index change = editByte index change := by
  have hchange : change ∘ change = change := funext h
  funext unit
  simp [editByte, List.modify_modify_eq, hchange]

theorem recoded_recoded (f : SequenceFilter) (hne : header ≠ extension) :
    f.recoded header extension (f.recoded header extension units) =
      f.recoded header extension units := by
  rw [recoded, recoded, List.modify_modify_ne _ _ _ hne.symm, List.modify_modify_eq,
    List.modify_modify_eq, editByte_editByte headerByte_headerByte,
    editByte_editByte extensionByte_extensionByte]

/-- Start codes and lengths stay. -/
theorem map_recoded (f : SequenceFilter) :
    (f.recoded header extension units).map (fun unit ↦ (unit.startCode, unit.data.length)) =
      units.map fun unit ↦ (unit.startCode, unit.data.length) := by
  have hedit (index : Nat) (change : UInt8 → UInt8) (unit : StreamUnit) :
      ((editByte index change unit).startCode, (editByte index change unit).data.length) =
        (unit.startCode, unit.data.length) :=
    congrArg (unit.startCode, ·) (List.length_modify change unit.data index)
  rw [recoded, map_modify_of_eq (hedit 5 _), map_modify_of_eq (hedit 3 _)]

/-! ## The rewriting -/

namespace Rewriting

variable {r : Rewriting} {h : SequenceHeader} {e : SequenceExtension}

theorem setDataAt_modify (r : Rewriting) (unit index : Nat) (change : UInt8 → UInt8) :
    setDataAt unit ((r.dataAt unit).modify index change) r =
      { r with units := r.units.modify unit (editByte index change) } := by
  have hunits : (setDataAt unit ((r.dataAt unit).modify index change) r).units =
      r.units.modify unit (editByte index change) := by
    apply List.ext_getElem?
    intro i
    simp only [setDataAt, List.getElem?_modify]
    by_cases hi : unit = i
    · subst hi
      rcases hunit : r.units[unit]? with _ | u
      · rfl
      · simp [dataAt, hunit, editByte]
    · simp [hi]
  exact congrArg (Rewriting.mk r.filter) hunits

theorem dataAt_modify_of_ne {unit other : Nat} (hne : unit ≠ other)
    (change : StreamUnit → StreamUnit) (r : Rewriting) :
    dataAt { r with units := r.units.modify unit change } other = r.dataAt other := by
  rw [dataAt, dataAt, List.getElem?_modify_ne _ _ hne]

theorem dataAt_modify_editByte (unit index : Nat) (change : UInt8 → UInt8) (r : Rewriting) :
    dataAt { r with units := r.units.modify unit (editByte index change) } unit =
      (r.dataAt unit).modify index change := by
  rw [dataAt, dataAt, List.getElem?_modify_eq]
  rcases r.units[unit]? with _ | u
  · exact (List.modify_nil change index).symm
  · rfl

/-- The first header and the first extension can both be read. -/
structure Parses (r : Rewriting) (header extension : Nat) (h : SequenceHeader)
    (e : SequenceExtension) : Prop where
  found : Found r.units header extension
  header_ok : ((SequenceHeader.read (r.dataAt header)).effect r).1 = .ok h
  extension_ok : ((SequenceExtension.read (r.dataAt extension)).effect r).1 = .ok e

/-- The units once they were rewritten, with the fragment counted. -/
def recodedAt (r : Rewriting) (header extension : Nat) : Rewriting :=
  ⟨{ r.filter with rewritten := r.filter.rewritten + 1 },
    r.filter.recoded header extension r.units⟩

theorem effect_overwriteAt {unit index : Nat} {change : UInt8 → UInt8}
    {p : Procedure (List UInt8) Unit}
    (hp : p.effect (r.dataAt unit) = (.ok (), (r.dataAt unit).modify index change)) :
    (overwriteAt unit p).effect r =
      (.ok (), { r with units := r.units.modify unit (editByte index change) }) := by
  rw [overwriteAt, effect_focus, hp, setDataAt_modify]

/-- Records that were read are written without a failure. -/
theorem Parses.effect_rewriteAt (hparses : r.Parses header extension h e) :
    (rewriteAt header extension).effect r = (.ok (), r.recodedAt header extension) := by
  obtain ⟨hfound, hheader, hextension⟩ := hparses
  obtain ⟨hcanonical, hbits⟩ := SequenceHeader.read_eq_ok_iff.mp hheader
  obtain ⟨hcanonical', hbits'⟩ := SequenceExtension.read_eq_ok_iff.mp hextension
  have hwrite := effect_overwriteAt (SequenceHeader.effect_write_modify
    (canonical_applyToHeader hcanonical) (by decide)
    (prefix_headerByte (f := r.filter) hcanonical hbits))
  -- The extension is written over what it held at first: the header is another unit.
  rw [← dataAt_modify_of_ne hfound.ne (editByte 3 r.filter.headerByte) r] at hbits'
  have hwrite' := effect_overwriteAt (SequenceExtension.effect_write_modify
    (canonical_applyToExtension hcanonical') (by decide)
    (prefix_extensionByte (f := r.filter) hcanonical' hbits'))
  have hread : (SequenceHeader.read (r.dataAt header)).effect r = (.ok h, r) :=
    Prod.ext hheader rfl
  have hread' : (SequenceExtension.read (r.dataAt extension)).effect r = (.ok e, r) :=
    Prod.ext hextension rfl
  rw [rewriteAt, effect_get_bind, effect_bind_ok hread, effect_bind_ok hread', effect_log_bind,
    effect_bind_ok hwrite, effect_bind_ok hwrite', effect_modify]
  rfl

theorem Parses.lt_length_header (hparses : r.Parses header extension h e) :
    3 < (r.dataAt header).length :=
  have hbits := (SequenceHeader.read_eq_ok_iff.mp hparses.header_ok).2
  (by decide : 3 < 8).trans_le (SequenceHeader.le_length_of_prefix hbits)

theorem Parses.lt_length_extension (hparses : r.Parses header extension h e) :
    5 < (r.dataAt extension).length :=
  have hbits := (SequenceExtension.read_eq_ok_iff.mp hparses.extension_ok).2
  SequenceExtension.le_length_of_prefix hbits

/-- The records that were written are read again. -/
theorem Parses.recodedAt (hparses : r.Parses header extension h e) :
    (r.recodedAt header extension).Parses header extension (r.filter.applyToHeader h)
      (r.filter.applyToExtension e) := by
  obtain ⟨hfound, hheader, hextension⟩ := hparses
  obtain ⟨hcanonical, hbits⟩ := SequenceHeader.read_eq_ok_iff.mp hheader
  obtain ⟨hcanonical', hbits'⟩ := SequenceExtension.read_eq_ok_iff.mp hextension
  have hdata : (r.recodedAt header extension).dataAt header =
      (r.dataAt header).modify 3 r.filter.headerByte := by
    rw [← dataAt_modify_editByte]
    exact dataAt_modify_of_ne hfound.ne.symm _
      { r with units := r.units.modify header (editByte 3 r.filter.headerByte) }
  have hdata' : (r.recodedAt header extension).dataAt extension =
      (r.dataAt extension).modify 5 r.filter.extensionByte := by
    rw [← dataAt_modify_of_ne hfound.ne (editByte 3 r.filter.headerByte) r]
    exact dataAt_modify_editByte extension 5 r.filter.extensionByte
      { r with units := r.units.modify header (editByte 3 r.filter.headerByte) }
  refine ⟨hfound.recoded r.filter, ?_, ?_⟩
  · rw [SequenceHeader.read_eq_ok_iff, hdata]
    exact ⟨canonical_applyToHeader hcanonical, prefix_headerByte hcanonical hbits⟩
  · rw [SequenceExtension.read_eq_ok_iff, hdata']
    exact ⟨canonical_applyToExtension hcanonical', prefix_extensionByte hcanonical' hbits'⟩

/-- Why a fragment is refused: its header cannot be read, or else its extension. -/
def Refuses (r : Rewriting) (error : Error) : Prop :=
  ∃ header extension, Found r.units header extension ∧
    (((SequenceHeader.read (r.dataAt header)).effect r).1 = .error error ∨
      ∃ h, ((SequenceHeader.read (r.dataAt header)).effect r).1 = .ok h ∧
        ((SequenceExtension.read (r.dataAt extension)).effect r).1 = .error error)

theorem Parses.not_refuses (hparses : r.Parses header extension h e) (error : Error) :
    ¬ r.Refuses error := by
  rintro ⟨header', extension', hfound, hrefuses⟩
  obtain ⟨rfl, rfl⟩ := hparses.found.unique hfound
  rcases hrefuses with hheader | ⟨_, _, hextension⟩
  · rw [hparses.header_ok] at hheader
    cases hheader
  · rw [hparses.extension_ok] at hextension
    cases hextension

theorem rewriteAt_cases (hfound : Found r.units header extension) :
    (∃ h e, r.Parses header extension h e) ∨
      ∃ error, (rewriteAt header extension).effect r = (.error error, r) ∧ r.Refuses error := by
  rcases hheader : ((SequenceHeader.read (r.dataAt header)).effect r).1 with error | h
  · have hread : (SequenceHeader.read (r.dataAt header)).effect r = (.error error, r) :=
      Prod.ext hheader rfl
    refine .inr ⟨error, ?_, header, extension, hfound, .inl hheader⟩
    rw [rewriteAt, effect_get_bind, effect_bind_error hread]
  · have hread : (SequenceHeader.read (r.dataAt header)).effect r = (.ok h, r) :=
      Prod.ext hheader rfl
    rcases hextension : ((SequenceExtension.read (r.dataAt extension)).effect r).1 with error | e
    · have hread' : (SequenceExtension.read (r.dataAt extension)).effect r = (.error error, r) :=
        Prod.ext hextension rfl
      refine .inr ⟨error, ?_, header, extension, hfound, .inr ⟨h, hheader, hextension⟩⟩
      rw [rewriteAt, effect_get_bind, effect_bind_ok hread, effect_bind_error hread']
    · exact .inl ⟨h, e, hfound, hheader, hextension⟩

theorem effect_rewrite_of_found (hactive : r.filter.isActive = true)
    (hfound : Found r.units header extension) :
    rewrite.effect r = ((fun _ ↦ true) <$> rewriteAt header extension).effect r := by
  rw [rewrite, effect_get_bind, hactive, hfound.header_eq, hfound.extension_eq, map_eq_pure_bind]
  rfl

theorem effect_warnOnce (r : Rewriting) :
    warnOnce.effect r = (.ok (), { r with filter := { r.filter with warned := true } }) := by
  obtain ⟨⟨aspectRatio, frameRate, warned, rewritten⟩, units⟩ := r
  cases warned <;> rfl

theorem effect_rewrite_of_not_found
    (hnone : r.filter.isActive = true → ∀ header extension, ¬ Found r.units header extension) :
    ∃ f, rewrite.effect r = (.ok false, { r with filter := f }) := by
  rw [rewrite, effect_get_bind]
  rcases hactive : r.filter.isActive with _ | _
  · exact ⟨r.filter, rfl⟩
  · rcases hheader : r.units.findIdx? StreamUnit.isSequenceHeader with _ | header
    · exact ⟨r.filter, rfl⟩
    · rcases hextension : r.units.findIdx? StreamUnit.isSequenceExtension with _ | extension
      · exact ⟨_, effect_bind_ok (effect_warnOnce r)⟩
      · exact absurd ⟨hheader, hextension⟩ (hnone hactive header extension)

theorem Parses.effect_rewrite (hparses : r.Parses header extension h e)
    (hactive : r.filter.isActive = true) :
    rewrite.effect r = (.ok true, r.recodedAt header extension) := by
  rw [effect_rewrite_of_found hactive hparses.found, effect_map, hparses.effect_rewriteAt]
  rfl

/-- A fragment is rewritten, refused or left alone. -/
theorem rewrite_cases (r : Rewriting) :
    (∃ header extension h e, r.filter.isActive = true ∧ r.Parses header extension h e ∧
        rewrite.effect r = (.ok true, r.recodedAt header extension)) ∨
      (∃ error, r.Refuses error ∧ rewrite.effect r = (.error error, r)) ∨
      ((r.filter.isActive = true → ∀ header extension, ¬ Found r.units header extension) ∧
        ∃ f, rewrite.effect r = (.ok false, { r with filter := f })) := by
  by_cases hnone : r.filter.isActive = true → ∀ header extension, ¬ Found r.units header extension
  · exact .inr (.inr ⟨hnone, effect_rewrite_of_not_found hnone⟩)
  · push Not at hnone
    obtain ⟨hactive, header, extension, hfound⟩ := hnone
    rcases rewriteAt_cases hfound with ⟨h, e, hparses⟩ | ⟨error, heffect, hrefuses⟩
    · exact .inl ⟨header, extension, h, e, hactive, hparses, hparses.effect_rewrite hactive⟩
    · refine .inr (.inl ⟨error, hrefuses, ?_⟩)
      rw [effect_rewrite_of_found hactive hfound, effect_map, heffect]
      rfl

/-- What a rewriting makes of a fragment. -/
structure Atomic (r : Rewriting) (outcome : Except Error Bool × Rewriting) : Prop where
  /-- A fragment that is not rewritten stays as it is. -/
  unchanged : outcome.1 ≠ .ok true → outcome.2.units = r.units
  /-- In a rewritten one a byte of the first header and a byte of the first extension change. -/
  recoded : outcome.1 = .ok true → ∃ header extension, Found r.units header extension ∧
    3 < (r.dataAt header).length ∧ 5 < (r.dataAt extension).length ∧
      outcome.2.units = r.filter.recoded header extension r.units
  /-- The start codes and the lengths stay in any case. -/
  shape : outcome.2.units.map (fun unit ↦ (unit.startCode, unit.data.length)) =
    r.units.map fun unit ↦ (unit.startCode, unit.data.length)
  /-- Only a header or an extension that cannot be read is an error. -/
  error : ∀ error, outcome.1 = .error error → r.Refuses error
  /-- What can be read is written. -/
  ok : r.filter.isActive = true →
    ∀ header extension h e, r.Parses header extension h e → outcome.1 = .ok true
  /-- Rewriting again succeeds and changes nothing. -/
  again : outcome.1 = .ok true →
    (rewrite.effect outcome.2).1 = .ok true ∧ (rewrite.effect outcome.2).2.units = outcome.2.units

/-- Rewriting changes one byte of the first sequence header and one byte of the first sequence
extension, or nothing at all. -/
theorem rewrite_atomic (r : Rewriting) : r.Atomic (rewrite.effect r) := by
  rcases r.rewrite_cases with ⟨header, extension, h, e, hactive, hparses, heffect⟩ |
    ⟨error, hrefuses, heffect⟩ | ⟨hnone, f, heffect⟩
  · have hagain := hparses.recodedAt.effect_rewrite hactive
    rw [heffect]
    exact {
      unchanged := fun hne ↦ absurd rfl hne
      recoded := fun _ ↦ ⟨header, extension, hparses.found, hparses.lt_length_header,
        hparses.lt_length_extension, rfl⟩
      shape := map_recoded r.filter
      error := fun error herror ↦ by cases herror
      ok := fun _ _ _ _ _ _ ↦ rfl
      again := fun _ ↦ by
        rw [hagain]
        exact ⟨rfl, recoded_recoded r.filter hparses.found.ne⟩ }
  · rw [heffect]
    exact {
      unchanged := fun _ ↦ rfl
      recoded := fun hok ↦ by cases hok
      shape := rfl
      error := fun error herror ↦ by cases herror; exact hrefuses
      ok := fun _ _ _ _ _ hparses ↦ absurd hrefuses (hparses.not_refuses error)
      again := fun hok ↦ by cases hok }
  · rw [heffect]
    exact {
      unchanged := fun _ ↦ rfl
      recoded := fun hok ↦ by cases hok
      shape := rfl
      error := fun error herror ↦ by cases herror
      ok := fun hactive header extension _ _ hparses ↦
        absurd hparses.found (hnone hactive header extension)
      again := fun hok ↦ by cases hok }

/-- A display aspect ratio of 16:9, and a frame rate of 12 that is coded as 24 through 2. -/
example : (rewrite.effect ⟨.new (some (16, 9)) (some (12, 1)),
    [⟨0xB3, [0x2D, 0x01, 0xE0, 0x24, 0xFF, 0xFF, 0xE3, 0x80]⟩,
      ⟨0xB5, [0x14, 0x82, 0x00, 0x01, 0x00, 0x80]⟩]⟩).2.units =
    [⟨0xB3, [0x2D, 0x01, 0xE0, 0x32, 0xFF, 0xFF, 0xE3, 0x80]⟩,
      ⟨0xB5, [0x14, 0x82, 0x00, 0x01, 0x00, 0x81]⟩] := by
  decide +kernel

end Rewriting

end SequenceFilter

end ClosedCaptions
