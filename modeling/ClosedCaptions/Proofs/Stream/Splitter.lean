import ClosedCaptions.Proofs.Stream.UnitSplit
import ClosedCaptions.Stream.Splitter

/-!
# The splitter against the whole stream

Whatever arrives later, the units released so far and the units of the bytes still held make up the
units of all bytes. One request keeps this, and so does a whole run, so the units of a stream do not
depend on how it was cut into chunks.
-/

namespace ClosedCaptions

/-! ## Searching -/

theorem startsAt_zero {bytes : List UInt8} : StartsAt bytes 0 ↔ opensUnit bytes = true := by
  rw [opensUnit.eq_def]
  split
  · simp [StartsAt]
  · next hnot =>
    refine iff_of_false ?_ (by simp)
    rintro ⟨hfirst, hsecond, hthird⟩
    rcases bytes with _ | ⟨a, _ | ⟨b, _ | ⟨c, rest⟩⟩⟩
    · simp at hthird
    · simp at hthird
    · simp at hthird
    · obtain rfl : a = 0 := Option.some.inj hfirst
      obtain rfl : b = 0 := Option.some.inj hsecond
      obtain rfl : c = 1 := Option.some.inj hthird
      exact hnot rest rfl

theorem findUnitFrom_eq_none_iff {bytes : List UInt8} {index : Nat} :
    findUnitFrom index bytes = none ↔ ∀ i, ¬ StartsAt bytes i := by
  induction bytes generalizing index with
  | nil => simp [findUnitFrom, StartsAt]
  | cons byte bytes ih =>
    rw [findUnitFrom]
    split
    · next hopens =>
      refine iff_of_false (by simp) ?_
      intro hnone
      exact hnone 0 (startsAt_zero.mpr hopens)
    · next hopens =>
      rw [ih]
      constructor
      · rintro hnone (_ | i)
        · exact fun hstart ↦ hopens (startsAt_zero.mp hstart)
        · exact hnone i
      · intro hnone i
        exact hnone (i + 1)

theorem findUnitFrom_eq_some {bytes : List UInt8} {index n : Nat}
    (h : findUnitFrom index bytes = some n) :
    ∃ i, n = index + i ∧ StartsAt bytes i ∧ ∀ j < i, ¬ StartsAt bytes j := by
  induction bytes generalizing index with
  | nil => simp [findUnitFrom] at h
  | cons byte bytes ih =>
    rw [findUnitFrom] at h
    split at h
    · next hopens =>
      obtain rfl : index = n := Option.some.inj h
      exact ⟨0, rfl, startsAt_zero.mpr hopens, fun j hj ↦ absurd hj j.not_lt_zero⟩
    · next hopens =>
      obtain ⟨i, rfl, hstart, hleast⟩ := ih h
      refine ⟨i + 1, by omega, hstart, ?_⟩
      rintro (_ | j) hj
      · exact fun hstart ↦ hopens (startsAt_zero.mp hstart)
      · exact hleast j (by omega)

namespace Splitter

variable {s : Splitter} {bytes rest : List UInt8}

/-- What is still to come is known: nothing does after the end. -/
def Admits (s : Splitter) (rest : List UInt8) : Prop :=
  s.finished = true → rest = []

/-- The end of the unit in front, once it is known, is the next start. -/
theorem nextStart_of_unitEnd? {stop : Nat} (hrest : s.Admits rest) (hlength : 4 ≤ bytes.length)
    (h : s.unitEnd? bytes = some stop) :
    nextStart (bytes ++ rest) 4 = stop ∧ 4 ≤ stop ∧ stop ≤ bytes.length := by
  rw [unitEnd?] at h
  split at h
  · next found hfound =>
    obtain rfl : found = stop := Option.some.inj h
    obtain ⟨i, rfl, hstart, hleast⟩ := findUnitFrom_eq_some hfound
    rw [startsAt_drop] at hstart
    have hlt := hstart.lt
    refine ⟨nextStart_eq_of_startsAt ((startsAt_append hlt).mpr hstart) (by omega) ?_, by omega,
      by omega⟩
    intro j hj hlt' hstart'
    obtain ⟨k, rfl⟩ := Nat.exists_eq_add_of_le hj
    rw [startsAt_append (by omega)] at hstart'
    exact hleast k (by omega) (startsAt_drop.mpr hstart')
  · next hnone =>
    split at h
    · next hfinished =>
      obtain rfl : bytes.length = stop := Option.some.inj h
      obtain rfl : rest = [] := hrest hfinished
      rw [List.append_nil]
      refine ⟨nextStart_eq_length ?_, hlength, Nat.le_refl _⟩
      intro j hj hstart
      obtain ⟨k, rfl⟩ := Nat.exists_eq_add_of_le hj
      exact findUnitFrom_eq_none_iff.mp hnone k (startsAt_drop.mpr hstart)
    · contradiction

/-! ## One request -/

/-- The step answers that the bytes do not suffice, and keeps what may still matter. -/
structure Waits (s : Splitter) (step : Step) : Prop where
  item_eq : step.item = .insufficient
  finished_eq : step.splitter.finished = s.finished
  pending_eq : step.splitter.pending = s.pending - 1
  length_le : step.splitter.buffer.length ≤ s.buffer.length
  split_eq : ∀ rest, s.Admits rest →
    unitSplit (s.buffer ++ rest) = unitSplit (step.splitter.buffer ++ rest)
  spent : s.finished = true → unitSplit step.splitter.buffer = []

/-- The step releases the first unit of all bytes, and drops them from the buffer. -/
structure Releases (s : Splitter) (unit : StreamUnit) (step : Step) : Prop where
  item_eq : step.item = .unit unit
  finished_eq : step.splitter.finished = s.finished
  pending_eq : step.splitter.pending = s.pending
  shrinks : step.splitter.buffer.length < s.buffer.length
  split_eq : ∀ rest, s.Admits rest →
    unitSplit (s.buffer ++ rest) = unit :: unitSplit (step.splitter.buffer ++ rest)

/-- Without a start, the bytes that may still open a unit are kept. -/
theorem waits_tail (h : ∀ i, ¬ StartsAt s.buffer i) : s.Waits (s.insufficient s.tail []) where
  item_eq := rfl
  finished_eq := rfl
  pending_eq := rfl
  length_le := (List.drop_sublist _ _).length_le
  split_eq rest hrest := by
    change _ = unitSplit (s.tail ++ rest)
    cases hfinished : s.finished with
    | true =>
      obtain rfl : rest = [] := hrest hfinished
      have htail : s.tail = [] := by simp [tail, hfinished]
      rw [htail, List.append_nil, unitSplit_eq_nil h, List.append_nil, unitSplit_nil]
    | false =>
      have htail : s.tail ++ rest = (s.buffer ++ rest).drop (s.buffer.length - 2) := by
        rw [List.drop_append_of_le_length (by omega)]
        simp [tail, hfinished]
      rw [htail, unitSplit_drop]
      · simp only [List.length_append]
        omega
      · intro j hj
        rw [startsAt_append (by omega)]
        exact h j
  spent hfinished := by
    have htail : s.tail = [] := by simp [tail, hfinished]
    change unitSplit s.tail = []
    rw [htail, unitSplit_nil]

/-- When all bytes are there, only a unit without a start code is not released. -/
theorem length_le_of_finished (hfinished : s.finished = true)
    (h : ∀ a b c startCode more stop, bytes = a :: b :: c :: startCode :: more →
      s.unitEnd? bytes = some stop → False) : bytes.length ≤ 3 := by
  match bytes with
  | [] | [_] | [_, _] | [_, _, _] => simp
  | a :: b :: c :: startCode :: more =>
    have hend : ∃ stop, s.unitEnd? (a :: b :: c :: startCode :: more) = some stop := by
      rw [unitEnd?, if_pos hfinished]
      split
      · next stop _ => exact ⟨stop, rfl⟩
      · exact ⟨_, rfl⟩
    obtain ⟨stop, hstop⟩ := hend
    exact absurd hstop (h a b c startCode more stop rfl)

/-- With a start in front, the unit is released if it is complete. -/
theorem release_cases (hstart : StartsAt bytes 0)
    (hsplit : ∀ rest, unitSplit (s.buffer ++ rest) = unitSplit (bytes ++ rest))
    (hle : bytes.length ≤ s.buffer.length) (log : List Entry) :
    s.Waits (s.release bytes log) ∨ ∃ unit, s.Releases unit (s.release bytes log) := by
  have hlt := hstart.lt
  rw [release.eq_def]
  split
  · next a b c startCode more stop hend =>
    right
    refine ⟨_, rfl, rfl, rfl, ?_, ?_⟩
    · have hnothing : s.Admits [] := fun _ ↦ rfl
      obtain ⟨-, hstop, -⟩ := nextStart_of_unitEnd? hnothing (by simp) hend
      simp only [List.length_drop]
      omega
    · intro rest hrest
      obtain ⟨hnext, -, hstop⟩ := nextStart_of_unitEnd? hrest (by simp) hend
      have hstart' : StartsAt (a :: b :: c :: startCode :: more ++ rest) 0 :=
        (startsAt_append hlt).mpr hstart
      rw [hsplit, unitSplit_eq_cons hstart' rfl, hnext, List.take_append_of_le_length hstop,
        List.drop_append_of_le_length hstop]
  · next hnot =>
    left
    refine ⟨rfl, rfl, rfl, hle, fun rest _ ↦ hsplit rest, ?_⟩
    intro hfinished
    exact unitSplit_of_short hstart (length_le_of_finished hfinished hnot)

/-- A request with an answer pending waits or releases. -/
theorem next_cases (hpending : s.pending ≠ 0) :
    s.Waits s.next ∨ ∃ unit, s.Releases unit s.next := by
  rw [next, if_neg hpending]
  have hdrop (offset : Nat) (hfound : findUnit s.buffer = some offset) (log : List Entry) :
      s.Waits (s.release (s.buffer.drop offset) log) ∨
        ∃ unit, s.Releases unit (s.release (s.buffer.drop offset) log) := by
    obtain ⟨i, hi, hstart, hleast⟩ := findUnitFrom_eq_some hfound
    obtain rfl : offset = i := by omega
    have hlt := hstart.lt
    refine release_cases (startsAt_drop.mpr hstart) ?_ (by simp) log
    intro rest
    rw [← List.drop_append_of_le_length (by omega), unitSplit_drop]
    · simp only [List.length_append]
      omega
    · intro j hj
      rw [startsAt_append (by omega)]
      exact hleast j hj
  split
  · next hnone => exact .inl (waits_tail (findUnitFrom_eq_none_iff.mp hnone))
  · next hfound => exact hdrop 0 hfound []
  · next offset _ hfound => exact hdrop offset hfound _

/-! ## Runs of requests -/

/-- The run releases the first units of all bytes, and keeps what may still matter. -/
structure Drains (s : Splitter) (d : Drained) : Prop where
  finished_eq : d.splitter.finished = s.finished
  split_eq : ∀ rest, s.Admits rest →
    unitSplit (s.buffer ++ rest) = d.units ++ unitSplit (d.splitter.buffer ++ rest)
  spent : s.finished = true → unitSplit d.splitter.buffer = []

/-- What was released before only stands in front. -/
theorem drainFrom_eq (units : List StreamUnit) (log : List Entry) (fuel : Nat) (s : Splitter) :
    drainFrom units log fuel s =
      ⟨units.reverse ++ (drainFrom [] [] fuel s).units, (drainFrom [] [] fuel s).splitter,
        log ++ (drainFrom [] [] fuel s).log⟩ := by
  induction fuel generalizing units log s with
  | zero => simp [drainFrom]
  | succ fuel ih =>
    rw [drainFrom, drainFrom]
    cases s.next.item with
    | unit unit =>
      dsimp only
      rw [ih (unit :: units), ih [unit]]
      simp
    | insufficient | exhausted => simp

theorem drainFrom_drains {fuel : Nat} (hpending : s.pending ≠ 0)
    (hfuel : s.buffer.length < fuel) : s.Drains (drainFrom [] [] fuel s) := by
  induction fuel generalizing s with
  | zero => exact absurd hfuel (Nat.not_lt_zero _)
  | succ fuel ih =>
    rcases next_cases hpending with h | ⟨unit, h⟩
    · have hrun : drainFrom [] [] (fuel + 1) s = ⟨[], s.next.splitter, s.next.log⟩ := by
        rw [drainFrom, h.item_eq]
        rfl
      rw [hrun]
      exact ⟨h.finished_eq, h.split_eq, h.spent⟩
    · have hshrinks := h.shrinks
      have hrest := ih (h.pending_eq ▸ hpending) (by omega)
      rw [drainFrom, h.item_eq]
      dsimp only
      rw [drainFrom_eq]
      refine ⟨hrest.finished_eq.trans h.finished_eq, ?_, fun hfinished ↦
        hrest.spent (h.finished_eq.trans hfinished)⟩
      intro rest hadmits
      have hadmits' : s.next.splitter.Admits rest := fun hfinished ↦
        hadmits (h.finished_eq.symm.trans hfinished)
      rw [h.split_eq rest hadmits, hrest.split_eq rest hadmits']
      rfl

/-- The fuel of a run is enough. -/
theorem drain_drains (hpending : s.pending ≠ 0) : s.Drains s.drain :=
  drainFrom_drains hpending (Nat.lt_succ_self _)

theorem push_drains (s : Splitter) (chunk : List UInt8) :
    (s.push chunk).Drains (s.push chunk).drain :=
  drain_drains (Nat.succ_ne_zero _)

theorem finish_drains (s : Splitter) : s.finish.Drains s.finish.drain :=
  drain_drains (Nat.succ_ne_zero _)

/-! ## Whole streams -/

theorem foldl_feed_eq (d : Drained) (chunks : List (List UInt8)) :
    chunks.foldl feed d =
      ⟨d.units ++ (chunks.foldl feed ⟨[], d.splitter, []⟩).units,
        (chunks.foldl feed ⟨[], d.splitter, []⟩).splitter,
        d.log ++ (chunks.foldl feed ⟨[], d.splitter, []⟩).log⟩ := by
  induction chunks generalizing d with
  | nil => simp
  | cons chunk chunks ih =>
    rw [List.foldl_cons, List.foldl_cons, ih, ih (feed ⟨[], d.splitter, []⟩ chunk)]
    simp [feed]

/-- Chunks fed in turn release the first units of all bytes. -/
theorem foldl_feed_split {s : Splitter} (hfinished : s.finished = false)
    (chunks : List (List UInt8)) (rest : List UInt8) :
    (chunks.foldl feed ⟨[], s, []⟩).splitter.finished = false ∧
      unitSplit (s.buffer ++ (chunks.flatten ++ rest)) =
        (chunks.foldl feed ⟨[], s, []⟩).units ++
          unitSplit ((chunks.foldl feed ⟨[], s, []⟩).splitter.buffer ++ rest) := by
  induction chunks generalizing s with
  | nil => exact ⟨hfinished, rfl⟩
  | cons chunk chunks ih =>
    have hpush := s.push_drains chunk
    have hpushed : (s.push chunk).drain.splitter.finished = false :=
      hpush.finished_eq.trans hfinished
    obtain ⟨hlast, hchunks⟩ := ih hpushed
    have hadmits : (s.push chunk).Admits (chunks.flatten ++ rest) := fun h ↦
      absurd (hfinished.symm.trans h) (by decide)
    have hchunk := hpush.split_eq _ hadmits
    rw [List.foldl_cons, foldl_feed_eq]
    refine ⟨hlast, ?_⟩
    calc
      unitSplit (s.buffer ++ ((chunk :: chunks).flatten ++ rest))
          = unitSplit ((s.push chunk).buffer ++ (chunks.flatten ++ rest)) := by
        simp [push]
      _ = (s.push chunk).drain.units ++
            ((chunks.foldl feed ⟨[], (s.push chunk).drain.splitter, []⟩).units ++
              unitSplit ((chunks.foldl feed ⟨[], (s.push chunk).drain.splitter, []⟩).splitter.buffer
                ++ rest)) := by
        rw [hchunk, hchunks]
      _ = _ := by
        simp [feed]

/-- The units of a stream do not depend on its chunks. -/
theorem units_splitChunks (chunks : List (List UInt8)) :
    (splitChunks chunks).units = unitSplit chunks.flatten := by
  have hchunks := (foldl_feed_split (s := empty) rfl chunks []).2
  have hfinish := (chunks.foldl feed ⟨[], empty, []⟩).splitter.finish_drains
  have hlast := hfinish.split_eq [] fun _ ↦ rfl
  have hspent := hfinish.spent rfl
  simp only [List.append_nil] at hchunks hlast
  rw [hspent, List.append_nil] at hlast
  calc
    (splitChunks chunks).units
        = (chunks.foldl feed ⟨[], empty, []⟩).units ++
            unitSplit (chunks.foldl feed ⟨[], empty, []⟩).splitter.buffer := by
      rw [splitChunks, ← hlast]
      rfl
    _ = unitSplit chunks.flatten := hchunks.symm

end Splitter

end ClosedCaptions
