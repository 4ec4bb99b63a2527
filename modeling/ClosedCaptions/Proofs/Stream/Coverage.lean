import ClosedCaptions.Proofs.Stream.UnitSplit
import ClosedCaptions.Stream.Chunks
import ClosedCaptions.Stream.Fragment

/-!
# What a stream keeps

Chunks hold all bytes of an input and fragments all units, in order. Units hold all bytes from the
first start on, but for a start in the last three bytes at which a unit would open: it has no start
code.
-/

namespace ClosedCaptions

/-! ## Chunks and fragments -/

namespace Chunks

theorem flatten_cutFrom {size fuel : Nat} {bytes : List UInt8} (hsize : size ≠ 0)
    (hfuel : bytes.length ≤ fuel) (pieces : List (List UInt8)) :
    (cutFrom pieces size fuel bytes).flatten = pieces.reverse.flatten ++ bytes := by
  induction fuel generalizing pieces bytes with
  | zero =>
    obtain rfl : bytes = [] := List.eq_nil_of_length_eq_zero (Nat.le_zero.mp hfuel)
    rw [cutFrom, List.append_nil]
  | succ fuel ih =>
    rw [cutFrom]
    split
    · next hempty => rw [List.isEmpty_iff.mp hempty, List.append_nil]
    · have hrest : (bytes.drop size).length ≤ fuel := by
        simp only [List.length_drop]
        omega
      rw [ih hrest]
      simp

theorem flatten_cut {size : Nat} (hsize : size ≠ 0) (bytes : List UInt8) :
    (cut size bytes).flatten = bytes := by
  rw [cut, if_neg hsize, flatten_cutFrom hsize (Nat.le_refl _)]
  rfl

/-- No byte is lost between chunks. -/
theorem flatten_read {size : Nat} (hsize : size ≠ 0) (bytes : List UInt8) :
    (read size bytes).flatten = bytes := by
  rw [read]
  split
  · exact flatten_cut hsize bytes
  · have hblocks := flatten_cut (by decide : blockSize ≠ 0) bytes
    simp only [List.flatMap_def, List.flatten_flatten, List.map_map, Function.comp_def,
      flatten_cut hsize, List.map_id']
    exact hblocks

end Chunks

namespace Fragment

theorem flatten_splitFrom (done : List (List StreamUnit)) (current : List StreamUnit)
    (hasPicture : Bool) (units : List StreamUnit) :
    (splitFrom done current hasPicture units).flatten =
      done.reverse.flatten ++ (current.reverse ++ units) := by
  induction units generalizing done current hasPicture with
  | nil =>
    rw [splitFrom]
    split
    · next hempty => simp [List.isEmpty_iff.mp hempty]
    · simp
  | cons unit units ih =>
    rw [splitFrom]
    split
    · rw [ih]
      simp
    · rw [ih]
      simp

/-- No unit is lost between fragments. -/
theorem flatten_split (units : List StreamUnit) : (split units).flatten = units :=
  flatten_splitFrom [] [] false units

end Fragment

/-! ## Units -/

/-- A unit would open at the second index when the units are taken from the first one on: each of
them needs a start code, and the next one opens at the first start behind that. -/
inductive OpensFrom (bytes : List UInt8) : Nat → Nat → Prop
  | here {p : Nat} (h : StartsAt bytes p) : OpensFrom bytes p p
  | later {p q : Nat} (hp : StartsAt bytes p) (hcode : p + 3 < bytes.length)
      (h : OpensFrom bytes (nextStart bytes (p + 4)) q) : OpensFrom bytes p q

/-- A unit of the stream would open at the index, whether or not it has a start code. -/
def OpensAt (bytes : List UInt8) (q : Nat) : Prop :=
  OpensFrom bytes (nextStart bytes 0) q

variable {bytes : List UInt8} {p q : Nat}

theorem OpensFrom.startsAt (h : OpensFrom bytes p q) : StartsAt bytes q := by
  induction h with
  | here h => exact h
  | later _ _ _ ih => exact ih

theorem OpensFrom.le (h : OpensFrom bytes p q) : p ≤ q := by
  induction h with
  | here _ => exact Nat.le_refl _
  | @later p q _ hcode _ ih =>
    have hnext : p + 4 ≤ nextStart bytes (p + 4) := le_nextStart hcode
    omega

/-- The start behind a unit with a start code opens another one. -/
theorem OpensFrom.next (h : OpensFrom bytes p q) (hcode : q + 3 < bytes.length)
    (hnext : StartsAt bytes (nextStart bytes (q + 4))) :
    OpensFrom bytes p (nextStart bytes (q + 4)) := by
  induction h with
  | here hp => exact .later hp hcode (.here hnext)
  | later hp hcode' _ ih => exact .later hp hcode' (ih hcode hnext)

theorem OpensFrom.eq_or_next (h : OpensFrom bytes p q) :
    q = p ∨ ∃ r, OpensFrom bytes p r ∧ r + 3 < bytes.length ∧ nextStart bytes (r + 4) = q := by
  induction h with
  | here _ => exact .inl rfl
  | @later p q hp hcode _ ih =>
    right
    rcases ih with rfl | ⟨r, hr, hrcode, hrq⟩
    · exact ⟨p, .here hp, hcode, rfl⟩
    · exact ⟨r, .later hp hcode hr, hrcode, hrq⟩

/-- Past a unit with a start code, what opens is what opens behind it. -/
theorem opensFrom_iff_of_ne (hp : StartsAt bytes p) (hcode : p + 3 < bytes.length) (hne : p ≠ q) :
    OpensFrom bytes p q ↔ OpensFrom bytes (nextStart bytes (p + 4)) q := by
  constructor
  · intro h
    cases h with
    | here _ => exact absurd rfl hne
    | later _ _ h => exact h
  · exact OpensFrom.later hp hcode

/-- A unit with a start code ends at the index, because the bytes of another start stand there. -/
def EndsUnitAt (bytes : List UInt8) (q : Nat) : Prop :=
  StartsAt bytes q ∧
    ∃ p, OpensAt bytes p ∧ p + 3 < bytes.length ∧ nextStart bytes (p + 4) = q

/-- Units open at the first start and where another unit ends. -/
theorem opensAt_iff :
    OpensAt bytes q ↔ StartsAt bytes q ∧ q = nextStart bytes 0 ∨ EndsUnitAt bytes q := by
  constructor
  · intro h
    have hstart : StartsAt bytes q := h.startsAt
    rcases h.eq_or_next with hfirst | hends
    · exact .inl ⟨hstart, hfirst⟩
    · exact .inr ⟨hstart, hends⟩
  · rintro (⟨hstart, rfl⟩ | ⟨hstart, p, hp, hcode, rfl⟩)
    · exact .here hstart
    · exact hp.next hcode hstart

theorem take_drop_append {α : Type} (xs : List α) {l m n : Nat} (hlm : l ≤ m) (hmn : m ≤ n) :
    (xs.take m).drop l ++ (xs.take n).drop m = (xs.take n).drop l := by
  have htake : (xs.take m).drop l = ((xs.take n).drop l).take (m - l) := by
    rw [List.take_drop, List.take_take]
    congr 2
    omega
  have hdrop : (xs.take n).drop m = ((xs.take n).drop l).drop (m - l) := by
    rw [List.drop_drop, Nat.add_sub_cancel' hlm]
  rw [htake, hdrop, List.take_append_drop]

/-- The encoding of a unit is the bytes that it was split off from. -/
theorem encode_of_startsAt {startCode : UInt8} {stop : Nat} (hstart : StartsAt bytes p)
    (hcode : bytes[p + 3]? = some startCode) (hstop : p + 4 ≤ stop) :
    (StreamUnit.mk startCode ((bytes.take stop).drop (p + 4))).encode =
      (bytes.take stop).drop p := by
  have hat (k : Nat) (hk : k < 4) : (bytes.take stop)[p + k]? = bytes[p + k]? :=
    List.getElem?_take_of_lt (by omega)
  have hcons {k : Nat} {byte : UInt8} (hk : k < 4) (hbyte : bytes[p + k]? = some byte) :
      (bytes.take stop).drop (p + k) = byte :: (bytes.take stop).drop (p + k + 1) := by
    rw [← hat k hk] at hbyte
    obtain ⟨hlt, rfl⟩ := List.getElem?_eq_some_iff.mp hbyte
    exact List.drop_eq_getElem_cons hlt
  obtain ⟨hfirst, hsecond, hthird⟩ := hstart
  have hzero := hcons (k := 0) (by decide) hfirst
  rw [Nat.add_zero] at hzero
  rw [hzero, hcons (by decide) hsecond, hcons (by decide) hthird, hcons (by decide) hcode]
  rfl

/-- The units from a start on encode the bytes from there on, without a start in the last three
bytes at which another unit would open. -/
theorem encodeAll_unitsFrom (hp : StartsAt bytes p ∨ p = bytes.length) :
    (OpensFrom bytes p (bytes.length - 3) →
      StreamUnit.encodeAll (unitsFrom bytes p) = (bytes.take (bytes.length - 3)).drop p) ∧
    (¬ OpensFrom bytes p (bytes.length - 3) →
      StreamUnit.encodeAll (unitsFrom bytes p) = bytes.drop p) := by
  induction p using unitsFrom.induct bytes with
  | case1 p hnone =>
    have hlength : bytes.length ≤ p + 3 := List.getElem?_eq_none_iff.mp hnone
    rw [unitsFrom_eq_nil hnone]
    rcases hp with hstart | rfl
    · have hlt := hstart.lt
      obtain rfl : p = bytes.length - 3 := by omega
      refine ⟨fun _ ↦ ?_, fun hnot ↦ absurd (.here hstart) hnot⟩
      simp [StreamUnit.encodeAll]
    · constructor
      · intro hopens
        have hle := hopens.le
        have hlt := hopens.startsAt.lt
        omega
      · intro _
        simp [StreamUnit.encodeAll]
  | case2 p startCode hcode ih =>
    have hlt : p + 3 < bytes.length := (List.getElem?_eq_some_iff.mp hcode).1
    have hstart : StartsAt bytes p := by
      rcases hp with hstart | rfl
      · exact hstart
      · omega
    have hnext : p + 4 ≤ nextStart bytes (p + 4) := le_nextStart (Nat.succ_le_of_lt hlt)
    obtain ⟨hdangling, hwhole⟩ := ih (startsAt_nextStart_or bytes (p + 4))
    have hcons (us : List StreamUnit) (u : StreamUnit) :
        StreamUnit.encodeAll (u :: us) = u.encode ++ StreamUnit.encodeAll us := rfl
    rw [unitsFrom_eq_cons hcode, hcons, encode_of_startsAt hstart hcode hnext,
      opensFrom_iff_of_ne hstart hlt (by omega : p ≠ bytes.length - 3)]
    constructor
    · intro hopens
      rw [hdangling hopens, take_drop_append bytes (by omega) hopens.le]
    · intro hnot
      have happend := take_drop_append bytes (by omega : p ≤ nextStart bytes (p + 4))
        (nextStart_le bytes (p + 4))
      rw [List.take_length] at happend
      rw [hwhole hnot, happend]

/-- The units of a stream encode the stream from its first start on, without a start in the last
three bytes at which another unit would open. -/
theorem encodeAll_unitSplit (bytes : List UInt8) :
    (OpensAt bytes (bytes.length - 3) →
      StreamUnit.encodeAll (unitSplit bytes) =
        (bytes.take (bytes.length - 3)).drop (nextStart bytes 0)) ∧
    (¬ OpensAt bytes (bytes.length - 3) →
      StreamUnit.encodeAll (unitSplit bytes) = bytes.drop (nextStart bytes 0)) :=
  encodeAll_unitsFrom (startsAt_nextStart_or bytes 0)

end ClosedCaptions
