import ClosedCaptions.Proofs.Stream.Coverage
import ClosedCaptions.Proofs.Stream.Encoding
import ClosedCaptions.Proofs.Stream.Splitter

/-!
# Units and their encodings

Splitting and encoding are inverse. Units whose data hold no start come back from their encodings,
and the units of a stream encode it again from its first start on. Only a start at the very end is
lost then, because it has no start code. It is not lost where the opening bytes of a unit reach into
it, because it is read as part of that unit.
-/

namespace ClosedCaptions

/-! ## All items -/

namespace Splitter

variable {s : Splitter}

/-- Requests at the end of a stream give the units that are left, and then answer what is
pending. -/
theorem items_exhaustFrom {fuel : Nat} (hfinished : s.finished = true)
    (hleft : s.pending = 0 → unitSplit s.buffer = []) (hfuel : s.buffer.length + s.pending < fuel)
    (items : List Item) (log : List Entry) :
    (exhaustFrom items log fuel s).1 =
      items.reverse ++ (unitSplit s.buffer).map .unit ++
        List.replicate s.pending .insufficient := by
  induction fuel generalizing s items log with
  | zero => exact absurd hfuel (Nat.not_lt_zero _)
  | succ fuel ih =>
    by_cases hpending : s.pending = 0
    · have hnext : s.next = ⟨.exhausted, s, []⟩ := by rw [next, if_pos hpending]
      rw [exhaustFrom, hnext, hleft hpending, hpending]
      simp
    have hnothing : s.Admits [] := fun _ ↦ rfl
    rcases next_cases hpending with h | ⟨unit, h⟩
    · have hspent := h.spent hfinished
      have hlength := h.length_le
      have hsplit := h.split_eq [] hnothing
      rw [List.append_nil, List.append_nil, hspent] at hsplit
      obtain ⟨pending, hsucc⟩ := Nat.exists_eq_succ_of_ne_zero hpending
      have hpending' : s.next.splitter.pending = pending := by rw [h.pending_eq, hsucc]; rfl
      rw [exhaustFrom, h.item_eq]
      dsimp only
      rw [ih (h.finished_eq.trans hfinished) (fun _ ↦ hspent) (by omega), hspent, hsplit,
        hpending', hsucc, List.replicate_succ]
      simp
    · have hshrinks := h.shrinks
      have hsplit := h.split_eq [] hnothing
      rw [List.append_nil, List.append_nil] at hsplit
      have hpending' : s.next.splitter.pending ≠ 0 := h.pending_eq ▸ hpending
      rw [exhaustFrom, h.item_eq]
      dsimp only
      rw [ih (h.finished_eq.trans hfinished) (fun hzero ↦ absurd hzero hpending')
        (by rw [h.pending_eq]; omega), hsplit, h.pending_eq]
      simp

/-- Everything is given out: the units, and an answer to every push and to the end. -/
theorem items_exhaust (hfinished : s.finished = true) (hpending : s.pending ≠ 0) :
    s.exhaust.1 =
      (unitSplit s.buffer).map .unit ++ List.replicate s.pending .insufficient :=
  items_exhaustFrom hfinished (fun h ↦ absurd h hpending) (Nat.lt_succ_self _) [] []

theorem foldl_push (s : Splitter) (chunks : List (List UInt8)) :
    chunks.foldl push s =
      { s with buffer := s.buffer ++ chunks.flatten, pending := s.pending + chunks.length } := by
  induction chunks generalizing s with
  | nil => simp
  | cons chunk chunks ih =>
    rw [List.foldl_cons, ih]
    simp [push, Nat.add_assoc, Nat.add_comm 1]

end Splitter

/-! ## The last start -/

variable {bytes : List UInt8} {unit : StreamUnit} {units : List StreamUnit} {p q : Nat}

/-- Where the units stand in a row from the index `p` on, the four opening bytes of one of them
reach into the three bytes at `q`. -/
def ReachedFrom (units : List StreamUnit) (p q : Nat) : Prop :=
  ∃ before unit behind, units = before ++ unit :: behind ∧
    p + (StreamUnit.encodeAll before).length < q + 3 ∧
    q < p + (StreamUnit.encodeAll before).length + 4

theorem not_reachedFrom_nil : ¬ ReachedFrom [] p q := by
  rintro ⟨before, unit, behind, heq, -⟩
  simp at heq

theorem reachedFrom_cons : ReachedFrom (unit :: units) p q ↔
    p < q + 3 ∧ q < p + 4 ∨ ReachedFrom units (p + unit.encode.length) q := by
  have hlength (before : List StreamUnit) :
      p + (StreamUnit.encodeAll (unit :: before)).length =
        p + unit.encode.length + (StreamUnit.encodeAll before).length := by
    simp [StreamUnit.encodeAll, Nat.add_assoc]
  constructor
  · rintro ⟨before, found, behind, heq, hlow, hhigh⟩
    cases before with
    | nil => exact .inl ⟨hlow, hhigh⟩
    | cons first before =>
      obtain ⟨rfl, rfl⟩ := List.cons.inj heq
      rw [hlength] at hlow hhigh
      exact .inr ⟨before, found, behind, rfl, hlow, hhigh⟩
  · rintro (⟨hlow, hhigh⟩ | ⟨before, found, behind, rfl, hlow, hhigh⟩)
    · exact ⟨[], unit, units, rfl, hlow, hhigh⟩
    · rw [← hlength] at hlow hhigh
      exact ⟨unit :: before, found, behind, rfl, hlow, hhigh⟩

/-- Whether a unit reaches into the bytes is told along the row. -/
def decideReachedFrom (q : Nat) :
    ∀ (units : List StreamUnit) (p : Nat), Decidable (ReachedFrom units p q)
  | [], _ => isFalse not_reachedFrom_nil
  | unit :: units, p =>
    have := decideReachedFrom q units (p + unit.encode.length)
    decidable_of_iff' _ reachedFrom_cons

instance : Decidable (ReachedFrom units p q) :=
  decideReachedFrom q units p

/-- A start at the end opens another unit unless the one in front of it reaches into it. -/
theorem opensFrom_iff (hp : StartsAt bytes p ∨ p = bytes.length) (hq : StartsAt bytes q)
    (hend : q + 3 = bytes.length) (hle : p ≤ q) :
    OpensFrom bytes p q ↔ ¬ ReachedFrom (unitsFrom bytes p) p q := by
  induction p using unitsFrom.induct bytes with
  | case1 p hnone =>
    have hlength : bytes.length ≤ p + 3 := List.getElem?_eq_none_iff.mp hnone
    obtain rfl : p = q := by omega
    rw [unitsFrom_eq_nil hnone]
    exact iff_of_true (.here hq) not_reachedFrom_nil
  | case2 p startCode hcode ih =>
    have hlt : p + 3 < bytes.length := (List.getElem?_eq_some_iff.mp hcode).1
    have hstart : StartsAt bytes p := hp.resolve_right (by omega)
    have hnext : p + 4 ≤ nextStart bytes (p + 4) := le_nextStart (Nat.succ_le_of_lt hlt)
    have hstop := nextStart_le bytes (p + 4)
    have hencode : p + (StreamUnit.mk startCode
        ((bytes.take (nextStart bytes (p + 4))).drop (p + 4))).encode.length =
          nextStart bytes (p + 4) := by
      rw [encode_of_startsAt hstart hcode hnext, List.length_drop, List.length_take]
      omega
    rw [unitsFrom_eq_cons hcode, reachedFrom_cons, hencode,
      opensFrom_iff_of_ne hstart hlt (by omega : p ≠ q)]
    by_cases hreached : q < p + 4
    · refine iff_of_false ?_ fun hnot ↦ hnot (.inl ⟨by omega, hreached⟩)
      intro hopens
      have hopens := hopens.le
      omega
    · rw [ih (startsAt_nextStart_or bytes (p + 4)) (nextStart_le_of_startsAt hq (by omega))]
      constructor
      · rintro hnot (⟨-, hhigh⟩ | hrest)
        · exact hreached hhigh
        · exact hnot hrest
      · exact fun hnot hrest ↦ hnot (.inr hrest)

/-- The bytes end with a start that none of the units, which stand in a row from the index `p` on,
reaches into. -/
def Dangles (bytes : List UInt8) (units : List StreamUnit) (p : Nat) : Prop :=
  StartsAt bytes (bytes.length - 3) ∧ ¬ ReachedFrom units p (bytes.length - 3)

instance : Decidable (Dangles bytes units p) :=
  inferInstanceAs (Decidable (_ ∧ _))

theorem opensAt_iff_dangles :
    OpensAt bytes (bytes.length - 3) ↔ Dangles bytes (unitSplit bytes) (nextStart bytes 0) := by
  by_cases hstart : StartsAt bytes (bytes.length - 3)
  · have hlt := hstart.lt
    have hopens := opensFrom_iff (startsAt_nextStart_or bytes 0) hstart (by omega)
      (nextStart_le_of_startsAt hstart (Nat.zero_le _))
    exact hopens.trans (and_iff_right hstart).symm
  · exact iff_of_false (fun h ↦ hstart h.startsAt) fun h ↦ hstart h.1

namespace Splitter

/-- However a stream arrives, a caller gets its units once, and an answer to every push and to the
end. Units whose data hold no start are given back from their encodings. No unit of a stream holds a
start, and together they encode it from its first start on, without a start at the very end that no
unit reaches into. -/
theorem units_and_encodings (chunks : List (List UInt8)) :
    let bytes := chunks.flatten
    let units := (splitChunks chunks).units
    let first := nextStart bytes 0
    ((chunks.foldl push empty).finish.exhaust).1 =
        units.map .unit ++ List.replicate (chunks.length + 1) .insufficient ∧
      (∀ encoded, (∀ unit ∈ encoded, StartFree unit.data) →
        bytes = StreamUnit.encodeAll encoded → units = encoded) ∧
      (∀ unit ∈ units, StartFree unit.data) ∧
      (¬ Dangles bytes units first → StreamUnit.encodeAll units = bytes.drop first) ∧
      (Dangles bytes units first →
        StreamUnit.encodeAll units = (bytes.take (bytes.length - 3)).drop first) := by
  intro bytes units first
  have hunits : units = unitSplit bytes := units_splitChunks chunks
  obtain ⟨hdangling, hwhole⟩ := encodeAll_unitSplit bytes
  rw [hunits, ← opensAt_iff_dangles]
  refine ⟨?_, ?_, fun unit hunit ↦ startFree_of_mem_unitSplit hunit, hwhole, hdangling⟩
  · have hpushed : chunks.foldl push empty =
        { empty with buffer := bytes, pending := chunks.length } := by
      rw [foldl_push]
      simp [empty, bytes]
    rw [items_exhaust rfl (Nat.succ_ne_zero _), hpushed]
    rfl
  · rintro encoded hfree hbytes
    rw [hbytes, unitSplit_encodeAll hfree]

/-- Units with the start code `00`, with data that could end or begin a start, and without data,
come back. A start at the end is lost behind one unit, and is part of another one. -/
theorem units_of_encodings_and_last_starts :
    let encoded : List StreamUnit := [⟨0x00, [0x00, 0x01, 0x00, 0x00]⟩, ⟨0x01, []⟩,
      ⟨0xB2, [0x01, 0x00, 0x00, 0x00]⟩]
    let lost : List UInt8 := [0x07, 0x00, 0x00, 0x01, 0xB7, 0x00, 0x00, 0x01]
    let reached : List UInt8 := [0x00, 0x00, 0x01, 0x00, 0x00, 0x01]
    (∀ unit ∈ encoded, StartFree unit.data) ∧
      (splitChunks [StreamUnit.encodeAll encoded]).units = encoded ∧
      (empty.push (StreamUnit.encodeAll encoded)).finish.exhaust.1 =
        encoded.map .unit ++ [.insufficient, .insufficient] ∧
      Dangles lost (splitChunks [lost]).units 1 ∧
      StreamUnit.encodeAll (splitChunks [lost]).units = [0x00, 0x00, 0x01, 0xB7] ∧
      ¬ Dangles reached (splitChunks [reached]).units 0 ∧
      StreamUnit.encodeAll (splitChunks [reached]).units = reached := by
  intro encoded lost reached
  obtain ⟨hitems, hback, -⟩ := units_and_encodings [StreamUnit.encodeAll encoded]
  obtain ⟨-, -, -, -, hlost⟩ := units_and_encodings [lost]
  obtain ⟨-, -, -, hkept, -⟩ := units_and_encodings [reached]
  have hfree : ∀ unit ∈ encoded, StartFree unit.data := by decide
  have hunits := hback encoded hfree rfl
  have hdangles : Dangles lost (splitChunks [lost]).units 1 := by decide
  have hnot : ¬ Dangles reached (splitChunks [reached]).units 0 := by decide
  rw [hunits] at hitems
  exact ⟨hfree, hunits, hitems, hdangles, hlost hdangles, hnot, hkept hnot⟩

end Splitter

end ClosedCaptions
