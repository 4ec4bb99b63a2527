import ClosedCaptions.Filter.Captions
import ClosedCaptions.Proofs.UserData.SideData

/-!
# Extracted captions

A caption block that was decoded is always written to side data, as three bytes for each packet in
use. A caption filter that tolerates what cannot be decoded therefore never fails: it keeps every
unit, unless it is to remove captions, and takes out what each unit of user data gives on its own.
-/

namespace ClosedCaptions

open Procedure

namespace StreamUnit

/-- The user data of a unit and its caption block, if the whole payload of a unit of user data
decodes as one. -/
def ccData? (unit : StreamUnit) : Option (UserData × CcData) :=
  if unit.isUserData then
    match ((UserData.read unit.data).effect ()).1 with
    | .ok data => data.ccData?.map (data, ·)
    | .error _ => none
  else none

/-- The unit is a unit of user data whose whole payload decodes as a caption block. -/
def hasCaptions (unit : StreamUnit) : Bool :=
  unit.ccData?.isSome

/-- What appending the caption block of a unit to side data adds. -/
def captionBytes (unit : StreamUnit) : List UInt8 :=
  match unit.ccData? with
  | some (data, _) => ((SideData.append data).effect []).2
  | none => []

/-- The packets in the caption block of a unit. -/
def packetCount (unit : StreamUnit) : Nat :=
  match unit.ccData? with
  | some (_, block) => block.count.toNat
  | none => 0

variable {unit : StreamUnit} {data : UserData} {block : CcData}

theorem isUserData_of_isSequenceHeader (h : unit.isSequenceHeader = true) :
    unit.isUserData = false := by
  rw [isSequenceHeader, beq_iff_eq] at h
  rw [isUserData, h]
  decide

theorem isUserData_of_isPicture (h : unit.isPicture = true) : unit.isUserData = false := by
  rw [isPicture, beq_iff_eq] at h
  rw [isUserData, h]
  decide

theorem ccData?_of_read_eq_error {cause : Error}
    (h : ((UserData.read unit.data).effect ()).1 = .error cause) : unit.ccData? = none := by
  rw [ccData?, h, ite_self]

theorem ccData?_of_read_eq_ok (huser : unit.isUserData = true)
    (h : ((UserData.read unit.data).effect ()).1 = .ok data) :
    unit.ccData? = data.ccData?.map (data, ·) := by
  rw [ccData?, if_pos huser, h]

/-- A unit has captions just when it is a unit of user data that starts with their encoding. -/
theorem ccData?_eq_some_iff :
    unit.ccData? = some (data, block) ↔ unit.isUserData = true ∧ data = .ofCcData block ∧
      block.Canonical ∧ data.bytes <+: unit.data := by
  have hread (d : UserData) : ((UserData.read unit.data).effect ()).1 = .ok d ↔
      d.Canonical ∧ d.bytes <+: unit.data :=
    UserData.read_eq_ok_iff (s := ())
  rw [ccData?]
  split
  · next huser =>
    split
    · next found hfound =>
      have hcanonical := (hread found).mp hfound
      simp only [Option.map_eq_some_iff, Prod.mk.injEq]
      constructor
      · rintro ⟨_, hblock, rfl, rfl⟩
        obtain rfl := UserData.ccData?_eq_some_iff.mp hblock
        exact ⟨huser, rfl, hcanonical⟩
      · intro ⟨_, hdata, hblock, hbytes⟩
        subst hdata
        have hdecodes := (hread (.ofCcData block)).mpr ⟨hblock, hbytes⟩
        obtain rfl := Except.ok.inj (hfound.symm.trans hdecodes)
        exact ⟨block, rfl, rfl, rfl⟩
    · next hfound =>
      refine iff_of_false (by simp) ?_
      rintro ⟨_, rfl, hblock⟩
      have hdecodes := (hread (.ofCcData block)).mpr hblock
      rw [hfound] at hdecodes
      cases hdecodes
  · next huser => exact iff_of_false (by simp) fun h ↦ huser h.1

/-- What is taken out of a unit is the packets of its caption block. -/
theorem captionBytes_eq (h : unit.ccData? = some (data, block)) :
    unit.captionBytes = SideData.packetBytes block.packets := by
  obtain ⟨_, rfl, hblock, _⟩ := ccData?_eq_some_iff.mp h
  have happend := SideData.effect_append hblock []
  rw [captionBytes, h]
  exact congrArg Prod.snd happend

/-- Side data of its own holds the captions of the unit. -/
theorem effect_locally_append {σ : Type} (h : unit.ccData? = some (data, block)) (s : σ) :
    (locally [] (SideData.append data >>= fun _ ↦ Procedure.get)).effect s =
      (.ok unit.captionBytes, s) := by
  have hbytes := captionBytes_eq h
  obtain ⟨_, rfl, hblock, _⟩ := ccData?_eq_some_iff.mp h
  rw [SideData.effect_locally_append hblock, hbytes]

theorem length_captionBytes (unit : StreamUnit) :
    unit.captionBytes.length = SideData.packetSize * unit.packetCount := by
  rcases h : unit.ccData? with _ | ⟨data, block⟩
  · rw [captionBytes, packetCount, h]
    rfl
  · obtain ⟨_, _, hblock, _⟩ := ccData?_eq_some_iff.mp h
    rw [captionBytes_eq h, SideData.length_packetBytes, CcData.length_packets hblock.count_le,
      packetCount, h]

/-- No payload below the least size decodes as captions. -/
theorem ccData?_of_short (h : unit.data.length < CaptionFilter.leastSize) :
    unit.ccData? = none := by
  by_contra hsome
  obtain ⟨⟨data, block⟩, hunit⟩ := Option.ne_none_iff_exists'.mp hsome
  obtain ⟨_, rfl, _, hbytes⟩ := ccData?_eq_some_iff.mp hunit
  have hlength := hbytes.length_le
  simp only [UserData.length_bytes, UserData.ofCcData, UserData.size, AtscData.size,
    CcData.size] at hlength
  rw [CaptionFilter.leastSize] at h
  omega

end StreamUnit

namespace CaptionAction

/-- What the action takes out of some units. -/
def taken (action : CaptionAction) (units : List StreamUnit) : List UInt8 :=
  if action = .extract then units.flatMap StreamUnit.captionBytes else []

/-- The packets that the action takes out of some units. -/
def takenCount (action : CaptionAction) (units : List StreamUnit) : Nat :=
  if action = .extract then (units.map StreamUnit.packetCount).sum else 0

theorem taken_append (action : CaptionAction) (units more : List StreamUnit) :
    action.taken (units ++ more) = action.taken units ++ action.taken more := by
  rw [taken, taken, taken]
  split
  · exact List.flatMap_append
  · rfl

theorem length_taken (action : CaptionAction) (units : List StreamUnit) :
    (action.taken units).length = SideData.packetSize * action.takenCount units := by
  rw [taken, takenCount]
  split
  · induction units with
    | nil => rfl
    | cons unit units ih =>
      rw [List.flatMap_cons, List.length_append, ih, StreamUnit.length_captionBytes,
        List.map_cons, List.sum_cons, Nat.mul_add]
  · rfl

end CaptionAction

namespace CaptionFilter

/-- The filter keeps every unit and never fails. -/
structure KeepsUnits (c : CaptionFilter) : Prop where
  action_ne : c.action ≠ .remove
  failLevel_eq : c.failLevel = .error

variable {c : CaptionFilter}

/-- A unit is decoded as far as it holds captions, and fails only where problems are fatal and its
user data does not decode. -/
theorem effect_captions?_cases (unit : StreamUnit) (c : CaptionFilter) :
    (captions? unit).effect c = (.ok unit.ccData?, c) ∨
      ∃ cause, Severity.warn ≤ c.failLevel ∧ unit.isUserData = true ∧
        ((UserData.read unit.data).effect ()).1 = .error cause ∧
        (captions? unit).effect c = (.error (.unreadableUserData cause), c) := by
  rw [captions?]
  split
  · next hskip =>
    have hnone : unit.ccData? = none := by
      rw [Bool.or_eq_true, Bool.not_eq_true', decide_eq_true_eq] at hskip
      rcases hskip with huser | hshort
      · rw [StreamUnit.ccData?, huser]
        rfl
      · exact StreamUnit.ccData?_of_short hshort
    rw [hnone]
    exact .inl rfl
  · next htry =>
    have huser : unit.isUserData = true := by
      rw [Bool.not_eq_true, Bool.or_eq_false_iff, Bool.not_eq_false'] at htry
      exact htry.1
    have hread : (UserData.read unit.data).attempt.effect c =
        (.ok ((UserData.read unit.data).effect ()).1, c) := rfl
    rw [effect_bind_ok hread]
    rcases hdata : ((UserData.read unit.data).effect ()).1 with cause | data
    · simp only [effect_get_bind]
      by_cases hfatal : Severity.warn ≤ c.failLevel
      · rw [tolerate, if_pos hfatal, effect_fail_bind]
        exact .inr ⟨cause, hfatal, huser, rfl, rfl⟩
      · rw [tolerate, if_neg hfatal, effect_log_bind, effect_pure,
          StreamUnit.ccData?_of_read_eq_error hdata]
        exact .inl rfl
    · rw [StreamUnit.ccData?_of_read_eq_ok huser hdata]
      exact .inl rfl

theorem effect_captions? (hlevel : c.failLevel = .error) (unit : StreamUnit) :
    (captions? unit).effect c = (.ok unit.ccData?, c) := by
  rcases effect_captions?_cases unit c with hcaptions | ⟨_, hfatal, _⟩
  · exact hcaptions
  · rw [hlevel] at hfatal
    exact absurd hfatal (by decide)

/-- The filter after more packets were extracted. -/
def counted (count : Nat) (c : CaptionFilter) : CaptionFilter :=
  { c with packetsExtracted := c.packetsExtracted + count }

/-- What a unit holds is taken out of it. -/
theorem effect_extractUnit {unit : StreamUnit}
    (hcaptions : (captions? unit).effect c = (.ok unit.ccData?, c)) :
    ∃ pieces, (extractUnit unit).effect c = (.ok pieces, c.counted unit.packetCount) ∧
      pieces.flatten = unit.captionBytes := by
  rw [extractUnit, effect_bind_ok hcaptions]
  rcases h : unit.ccData? with _ | ⟨data, block⟩
  · refine ⟨[], ?_, ?_⟩
    · simp [counted, StreamUnit.packetCount, h]
    · simp [StreamUnit.captionBytes, h]
  · refine ⟨[unit.captionBytes], ?_, by simp⟩
    have hpacketCount : unit.packetCount = block.count.toNat := by
      rw [StreamUnit.packetCount, h]
    simp only [effect_log_bind, effect_modify_bind]
    rw [effect_bind_ok (StreamUnit.effect_locally_append h _), hpacketCount]
    rfl

theorem effect_gather_extractUnit (hlevel : c.failLevel = .error) (units : List StreamUnit) :
    ∃ pieces, (gather extractUnit units).effect c =
        (.ok pieces, c.counted (units.map StreamUnit.packetCount).sum) ∧
      pieces.flatten = units.flatMap StreamUnit.captionBytes := by
  induction units generalizing c with
  | nil => exact ⟨[], rfl, rfl⟩
  | cons unit units ih =>
    obtain ⟨front, hfront, hbytes⟩ := effect_extractUnit (effect_captions? hlevel unit)
    obtain ⟨rest, hrest, hall⟩ := ih (c := c.counted unit.packetCount) hlevel
    refine ⟨front ++ rest, ?_, ?_⟩
    · rw [gather_cons, effect_bind_ok hfront, effect_map, hrest]
      simp [counted, Except.map, Nat.add_assoc]
    · rw [List.flatten_append, hbytes, hall, List.flatMap_cons]

/-- Passing and extracting keep the units, and extracting takes out their captions. -/
theorem KeepsUnits.effect_apply (h : c.KeepsUnits) (units : List StreamUnit) :
    ∃ sideData, (apply units).effect c =
        (.ok (units, sideData), c.counted (c.action.takenCount units)) ∧
      sideData.getD [] = c.action.taken units := by
  rw [apply, effect_get_bind, CaptionAction.taken, CaptionAction.takenCount]
  cases haction : c.action with
  | pass => exact ⟨none, rfl, rfl⟩
  | remove => exact absurd haction h.action_ne
  | extract =>
    obtain ⟨pieces, hpieces, hbytes⟩ := effect_gather_extractUnit h.failLevel_eq units
    refine ⟨if pieces.isEmpty then none else some pieces.flatten, ?_, ?_⟩
    · simp only [extract, bind_assoc, pure_bind]
      rw [effect_bind_ok hpieces]
      rfl
    · rw [if_pos rfl, ← hbytes]
      split
      · next hempty =>
        rw [List.isEmpty_iff.mp hempty]
        rfl
      · rfl

end CaptionFilter

end ClosedCaptions
