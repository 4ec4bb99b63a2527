import ClosedCaptions.Proofs.Stream.UnitSplit

/-!
# Encoded units

Units whose data hold no start are split off from their encodings as they were, whatever the start
codes, because an encoding and the one behind it never make up a start between them. The data of the
units of a stream hold no start, so some of those units, encoded again, are the units of what comes
out.
-/

namespace ClosedCaptions

variable {bytes data : List UInt8} {units : List StreamUnit} {p : Nat}

/-- No start stands in the bytes. -/
def StartFree (bytes : List UInt8) : Prop :=
  ∀ i, ¬ StartsAt bytes i

theorem startFree_iff : StartFree bytes ↔ ∀ i < bytes.length, ¬ StartsAt bytes i := by
  refine ⟨fun h i _ ↦ h i, fun h i hstart ↦ h i ?_ hstart⟩
  have hlt := hstart.lt
  omega

instance (bytes : List UInt8) : Decidable (StartFree bytes) :=
  decidable_of_iff' _ startFree_iff

theorem StreamUnit.encodeAll_cons (unit : StreamUnit) (units : List StreamUnit) :
    encodeAll (unit :: units) =
      0 :: 0 :: 1 :: unit.startCode :: (unit.data ++ encodeAll units) := rfl

/-- Data without a start end where the next encoding begins: the bytes of a start that reached over
would have a zero last. -/
theorem nextStart_append_encodeAll (h : StartFree data) (units : List StreamUnit) :
    nextStart (data ++ StreamUnit.encodeAll units) 0 = data.length := by
  cases units with
  | nil =>
    have hnil : data ++ StreamUnit.encodeAll [] = data := List.append_nil data
    rw [hnil]
    exact nextStart_eq_length fun j _ ↦ h j
  | cons unit units =>
    rw [StreamUnit.encodeAll_cons]
    have hat (k : Nat) : (data ++ 0 :: 0 :: 1 :: unit.startCode ::
        (unit.data ++ StreamUnit.encodeAll units))[data.length + k]? =
        (0 :: 0 :: 1 :: unit.startCode :: (unit.data ++ StreamUnit.encodeAll units))[k]? := by
      rw [List.getElem?_append_right (Nat.le_add_right _ _), Nat.add_sub_cancel_left]
    apply nextStart_eq_of_startsAt ⟨hat 0, hat 1, hat 2⟩ (Nat.zero_le _)
    intro j _ hj hstart
    by_cases hinside : j + 2 < data.length
    · exact h j ((startsAt_append hinside).mp hstart)
    · have hthird := hstart.2.2
      obtain hover | hover : j + 2 = data.length + 0 ∨ j + 2 = data.length + 1 := by omega
      · rw [hover, hat] at hthird
        exact absurd (Option.some.inj hthird) (by decide)
      · rw [hover, hat] at hthird
        exact absurd (Option.some.inj hthird) (by decide)

/-- Encoded units are split off as they were. -/
theorem unitSplit_encodeAll (h : ∀ unit ∈ units, StartFree unit.data) :
    unitSplit (StreamUnit.encodeAll units) = units := by
  induction units with
  | nil => exact unitSplit_nil
  | cons unit units ih =>
    rw [List.forall_mem_cons] at h
    have hstart : StartsAt (StreamUnit.encodeAll (unit :: units)) 0 := ⟨rfl, rfl, rfl⟩
    have hcode : (StreamUnit.encodeAll (unit :: units))[3]? = some unit.startCode := rfl
    have hlength : 4 ≤ (StreamUnit.encodeAll (unit :: units)).length :=
      (List.getElem?_eq_some_iff.mp hcode).1
    have hnext : nextStart (StreamUnit.encodeAll (unit :: units)) 4 = 4 + unit.data.length := by
      rw [← nextStart_append_encodeAll h.1 units]
      exact nextStart_drop (i := 0) hlength
    have hdata : ((StreamUnit.encodeAll (unit :: units)).take (4 + unit.data.length)).drop 4 =
        unit.data := by
      rw [← List.take_drop, StreamUnit.encodeAll_cons]
      exact List.take_left
    have hrest : (StreamUnit.encodeAll (unit :: units)).drop (4 + unit.data.length) =
        StreamUnit.encodeAll units := by
      rw [← List.drop_drop, StreamUnit.encodeAll_cons]
      exact List.drop_left
    rw [unitSplit_eq_cons hstart hcode, hnext, hdata, hrest, ih h.2]

theorem startFree_of_mem_unitsFrom {unit : StreamUnit} (h : unit ∈ unitsFrom bytes p) :
    StartFree unit.data := by
  induction p using unitsFrom.induct bytes with
  | case1 p hnone =>
    rw [unitsFrom_eq_nil hnone] at h
    contradiction
  | case2 p startCode hcode ih =>
    rw [unitsFrom_eq_cons hcode, List.mem_cons] at h
    rcases h with rfl | hrest
    · intro i hstart
      have hlt := hstart.lt
      rw [startsAt_drop] at hstart
      rw [List.length_drop, List.length_take] at hlt
      have hinside : p + 4 + i + 2 < (bytes.take (nextStart bytes (p + 4))).length := by
        rw [List.length_take]
        omega
      have hwhole : StartsAt bytes (p + 4 + i) := by
        rw [← List.take_append_drop (nextStart bytes (p + 4)) bytes]
        exact (startsAt_append hinside).mpr hstart
      rcases nextStart_cases bytes (p + 4) with ⟨_, _, hbefore⟩ | ⟨_, hnone⟩
      · exact hbefore _ (by omega) (by omega) hwhole
      · exact hnone _ (by omega) hwhole
    · exact ih hrest

/-- A unit ends at the next start. -/
theorem startFree_of_mem_unitSplit {unit : StreamUnit} (h : unit ∈ unitSplit bytes) :
    StartFree unit.data :=
  startFree_of_mem_unitsFrom h

end ClosedCaptions
