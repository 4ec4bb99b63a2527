import ClosedCaptions.Stream.StreamUnit

/-!
# The units of a whole stream

The split of a byte string into units by positions alone. A unit begins at every index that holds
`00 00 01`, apart from those within the four opening bytes of another one, and lasts up to the next
such index or to the end. Bytes before the first unit belong to none.
-/

namespace ClosedCaptions

/-- The index holds `00 00 01`. -/
def StartsAt (bytes : List UInt8) (i : Nat) : Prop :=
  bytes[i]? = some 0 ∧ bytes[i + 1]? = some 0 ∧ bytes[i + 2]? = some 1

instance (bytes : List UInt8) (i : Nat) : Decidable (StartsAt bytes i) :=
  inferInstanceAs (Decidable (_ ∧ _ ∧ _))

/-- The least index from `i` on that holds `00 00 01`, and the length if there is none. -/
def nextStart (bytes : List UInt8) (i : Nat) : Nat :=
  ((List.range' i (bytes.length - i)).find? fun j ↦ StartsAt bytes j).getD bytes.length

variable {bytes xs ys : List UInt8} {i o p q : Nat}

theorem StartsAt.lt (h : StartsAt bytes i) : i + 2 < bytes.length :=
  (List.getElem?_eq_some_iff.mp h.2.2).1

theorem startsAt_drop : StartsAt (bytes.drop o) i ↔ StartsAt bytes (o + i) := by
  simp only [StartsAt, List.getElem?_drop, Nat.add_assoc]

/-- Whether a unit begins depends on three bytes. -/
theorem startsAt_append (h : i + 2 < xs.length) : StartsAt (xs ++ ys) i ↔ StartsAt xs i := by
  have hfirst : i < xs.length := by omega
  have hsecond : i + 1 < xs.length := by omega
  simp only [StartsAt, List.getElem?_append_left h, List.getElem?_append_left hfirst,
    List.getElem?_append_left hsecond]

/-! ## The next start -/

theorem nextStart_cases (bytes : List UInt8) (i : Nat) :
    (i ≤ nextStart bytes i ∧ StartsAt bytes (nextStart bytes i) ∧
        ∀ j, i ≤ j → j < nextStart bytes i → ¬ StartsAt bytes j) ∨
      nextStart bytes i = bytes.length ∧ ∀ j, i ≤ j → ¬ StartsAt bytes j := by
  rw [nextStart]
  cases h : (List.range' i (bytes.length - i)).find? fun j ↦ StartsAt bytes j with
  | none =>
    rw [List.find?_range'_eq_none] at h
    refine .inr ⟨rfl, ?_⟩
    intro j hj hstart
    have hlt := hstart.lt
    have hnot := h j hj (by omega)
    simp [hstart] at hnot
  | some q =>
    rw [List.find?_range'_eq_some] at h
    obtain ⟨hstart, hmem, hleast⟩ := h
    refine .inl ⟨(List.mem_range'_1.mp hmem).1, of_decide_eq_true hstart, ?_⟩
    intro j hij hj hstart'
    have hnot := hleast j hij hj
    simp [hstart'] at hnot

theorem startsAt_nextStart_or (bytes : List UInt8) (i : Nat) :
    StartsAt bytes (nextStart bytes i) ∨ nextStart bytes i = bytes.length :=
  (nextStart_cases bytes i).imp (fun h ↦ h.2.1) fun h ↦ h.1

theorem nextStart_le_of_startsAt (hq : StartsAt bytes q) (hi : i ≤ q) : nextStart bytes i ≤ q := by
  rcases nextStart_cases bytes i with ⟨-, -, hbefore⟩ | ⟨-, hnone⟩
  · exact Nat.le_of_not_lt fun hlt ↦ hbefore q hi hlt hq
  · exact absurd hq (hnone q hi)

theorem nextStart_eq_of_startsAt (hq : StartsAt bytes q) (hi : i ≤ q)
    (hleast : ∀ j, i ≤ j → j < q → ¬ StartsAt bytes j) : nextStart bytes i = q := by
  rcases nextStart_cases bytes i with ⟨hle, hstart, hbefore⟩ | ⟨-, hnone⟩
  · rcases Nat.lt_trichotomy (nextStart bytes i) q with h | h | h
    · exact absurd hstart (hleast _ hle h)
    · exact h
    · exact absurd hq (hbefore q hi h)
  · exact absurd hq (hnone q hi)

theorem nextStart_eq_length (h : ∀ j, i ≤ j → ¬ StartsAt bytes j) :
    nextStart bytes i = bytes.length := by
  rcases nextStart_cases bytes i with ⟨hle, hstart, -⟩ | ⟨hlength, -⟩
  · exact absurd hstart (h _ hle)
  · exact hlength

theorem le_nextStart (h : i ≤ bytes.length) : i ≤ nextStart bytes i := by
  rcases nextStart_cases bytes i with ⟨hle, -⟩ | ⟨hlength, -⟩
  · exact hle
  · rwa [hlength]

theorem nextStart_le (bytes : List UInt8) (i : Nat) : nextStart bytes i ≤ bytes.length := by
  rcases nextStart_cases bytes i with ⟨-, hstart, -⟩ | ⟨hlength, -⟩
  · have hlt := hstart.lt
    omega
  · exact Nat.le_of_eq hlength

/-- Indices that hold no start may be passed over. -/
theorem nextStart_eq_nextStart (hio : i ≤ o) (h : ∀ j, i ≤ j → j < o → ¬ StartsAt bytes j) :
    nextStart bytes i = nextStart bytes o := by
  rcases nextStart_cases bytes o with ⟨hle, hstart, hbefore⟩ | ⟨hlength, hnone⟩
  · apply nextStart_eq_of_startsAt hstart (Nat.le_trans hio hle)
    intro j hj hlt
    by_cases hjo : j < o
    · exact h j hj hjo
    · exact hbefore j (Nat.le_of_not_lt hjo) hlt
  · rw [hlength]
    apply nextStart_eq_length
    intro j hj
    by_cases hjo : j < o
    · exact h j hj hjo
    · exact hnone j (Nat.le_of_not_lt hjo)

theorem nextStart_nextStart (h : i ≤ bytes.length) :
    nextStart bytes (nextStart bytes i) = nextStart bytes i := by
  refine (nextStart_eq_nextStart (le_nextStart h) ?_).symm
  intro j hj hlt
  rcases nextStart_cases bytes i with ⟨-, -, hbefore⟩ | ⟨-, hnone⟩
  · exact hbefore j hj hlt
  · exact hnone j hj

theorem nextStart_drop (ho : o ≤ bytes.length) :
    nextStart bytes (o + i) = o + nextStart (bytes.drop o) i := by
  rcases nextStart_cases (bytes.drop o) i with ⟨hle, hstart, hbefore⟩ | ⟨hlength, hnone⟩
  · apply nextStart_eq_of_startsAt (startsAt_drop.mp hstart) (by omega)
    intro j hj hlt hstart'
    obtain ⟨k, rfl⟩ := Nat.exists_eq_add_of_le (Nat.le_of_add_right_le hj)
    exact hbefore k (by omega) (by omega) (startsAt_drop.mpr hstart')
  · rw [hlength, List.length_drop, Nat.add_sub_cancel' ho]
    apply nextStart_eq_length
    intro j hj hstart'
    obtain ⟨k, rfl⟩ := Nat.exists_eq_add_of_le (Nat.le_of_add_right_le hj)
    exact hnone k (by omega) (startsAt_drop.mpr hstart')

/-! ## The split -/

/-- The units from the one at index `p` on. A unit needs its start code. -/
def unitsFrom (bytes : List UInt8) (p : Nat) : List StreamUnit :=
  match hcode : bytes[p + 3]? with
  | none => []
  | some startCode =>
    ⟨startCode, (bytes.take (nextStart bytes (p + 4))).drop (p + 4)⟩ ::
      unitsFrom bytes (nextStart bytes (p + 4))
termination_by bytes.length - p
decreasing_by
  have hlt : p + 3 < bytes.length := (List.getElem?_eq_some_iff.mp hcode).1
  have hle : p + 4 ≤ nextStart bytes (p + 4) := le_nextStart (Nat.succ_le_of_lt hlt)
  omega

/-- The units of a stream. -/
def unitSplit (bytes : List UInt8) : List StreamUnit :=
  unitsFrom bytes (nextStart bytes 0)

theorem unitsFrom_eq_nil (h : bytes[p + 3]? = none) : unitsFrom bytes p = [] := by
  rw [unitsFrom]
  split
  · rfl
  · next hcode => simp [hcode] at h

theorem unitsFrom_eq_cons {startCode : UInt8} (h : bytes[p + 3]? = some startCode) :
    unitsFrom bytes p = ⟨startCode, (bytes.take (nextStart bytes (p + 4))).drop (p + 4)⟩ ::
      unitsFrom bytes (nextStart bytes (p + 4)) := by
  rw [unitsFrom]
  split
  · next hcode => simp [hcode] at h
  · next code hcode =>
    obtain rfl : code = startCode := Option.some.inj (hcode.symm.trans h)
    rfl

/-- The units depend on the bytes from the first of them on. -/
theorem unitsFrom_drop (ho : o ≤ bytes.length) (p : Nat) :
    unitsFrom (bytes.drop o) p = unitsFrom bytes (o + p) := by
  induction p using unitsFrom.induct (bytes.drop o) with
  | case1 p hcode =>
    rw [unitsFrom_eq_nil hcode]
    rw [List.getElem?_drop, ← Nat.add_assoc] at hcode
    rw [unitsFrom_eq_nil hcode]
  | case2 p startCode hcode ih =>
    rw [unitsFrom_eq_cons hcode, ih]
    rw [List.getElem?_drop, ← Nat.add_assoc] at hcode
    rw [unitsFrom_eq_cons hcode, Nat.add_assoc, nextStart_drop ho, List.take_drop, List.drop_drop]

theorem unitSplit_eq_nil (h : ∀ j, ¬ StartsAt bytes j) : unitSplit bytes = [] := by
  rw [unitSplit, nextStart_eq_length fun j _ ↦ h j]
  apply unitsFrom_eq_nil
  simp

@[simp]
theorem unitSplit_nil : unitSplit [] = [] :=
  unitSplit_eq_nil (by simp [StartsAt])

/-- Bytes before the first unit may be dropped. -/
theorem unitSplit_drop (ho : o ≤ bytes.length) (h : ∀ j < o, ¬ StartsAt bytes j) :
    unitSplit (bytes.drop o) = unitSplit bytes := by
  calc
    unitSplit (bytes.drop o) = unitsFrom bytes (o + nextStart (bytes.drop o) 0) :=
      unitsFrom_drop ho _
    _ = unitsFrom bytes (nextStart bytes o) := by rw [← nextStart_drop ho, Nat.add_zero]
    _ = unitSplit bytes := by
      rw [unitSplit, nextStart_eq_nextStart (Nat.zero_le o) fun j _ hj ↦ h j hj]

theorem unitSplit_of_startsAt (h : StartsAt bytes 0) : unitSplit bytes = unitsFrom bytes 0 := by
  rw [unitSplit, nextStart_eq_of_startsAt h (Nat.le_refl 0) fun j _ hj ↦ absurd hj j.not_lt_zero]

/-- Three bytes make no unit. -/
theorem unitSplit_of_short (h : StartsAt bytes 0) (hshort : bytes.length ≤ 3) :
    unitSplit bytes = [] := by
  rw [unitSplit_of_startsAt h]
  apply unitsFrom_eq_nil
  simpa using hshort

/-- A unit in front ends where the next one begins. -/
theorem unitSplit_eq_cons {startCode : UInt8} (h : StartsAt bytes 0)
    (hcode : bytes[3]? = some startCode) :
    unitSplit bytes = ⟨startCode, (bytes.take (nextStart bytes 4)).drop 4⟩ ::
      unitSplit (bytes.drop (nextStart bytes 4)) := by
  have hlength : 4 ≤ bytes.length := (List.getElem?_eq_some_iff.mp hcode).1
  have hrest : unitSplit (bytes.drop (nextStart bytes 4)) =
      unitsFrom bytes (nextStart bytes 4) := by
    have hle := nextStart_le bytes 4
    calc
      unitSplit (bytes.drop (nextStart bytes 4))
          = unitsFrom bytes (nextStart bytes 4 + nextStart (bytes.drop (nextStart bytes 4)) 0) :=
        unitsFrom_drop hle _
      _ = unitsFrom bytes (nextStart bytes (nextStart bytes 4)) := by
        rw [← nextStart_drop hle, Nat.add_zero]
      _ = unitsFrom bytes (nextStart bytes 4) := by rw [nextStart_nextStart hlength]
  rw [unitSplit_of_startsAt h, unitsFrom_eq_cons hcode, hrest]

end ClosedCaptions
