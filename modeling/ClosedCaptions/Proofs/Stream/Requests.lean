import ClosedCaptions.Proofs.Stream.Splitter
import Mathlib.Data.List.Induction

/-!
# Requests between pushes

A caller may push, request and finish in any order, as long as nothing but requests comes after the
end. From every state that is reached so, requests come to an end: first they give units, then one
`insufficient` for every push and finish that has had none, and no unit comes behind such an answer
until more is pushed or the stream ends. After the end, no unit of the stream has been lost.
-/

namespace ClosedCaptions.Splitter

/-- What a caller may do with a splitter. -/
inductive Call where
  | push (bytes : List UInt8)
  | finish
  | request
  deriving DecidableEq, Repr

/-- A splitter with the answers to all requests so far. -/
structure History where
  splitter : Splitter
  answers : List Item
  deriving DecidableEq, Repr

namespace History

def call (h : History) : Call → History
  | .push bytes => { h with splitter := h.splitter.push bytes }
  | .finish => { h with splitter := h.splitter.finish }
  | .request => ⟨h.splitter.next.splitter, h.answers ++ [h.splitter.next.item]⟩

/-- What calls to a fresh splitter lead to. -/
def after (calls : List Call) : History :=
  calls.foldl call ⟨empty, []⟩

end History

def Item.unit? : Item → Option StreamUnit
  | .unit found => some found
  | .insufficient | .exhausted => none

/-- The units among some answers. -/
def unitsIn (items : List Item) : List StreamUnit :=
  items.filterMap Item.unit?

def Call.bytes : Call → List UInt8
  | .push bytes => bytes
  | .finish | .request => []

/-- All bytes that were pushed. -/
def pushedIn (calls : List Call) : List UInt8 :=
  calls.flatMap Call.bytes

/-- The call is to be answered by one `insufficient`. -/
def Call.isOwed : Call → Bool
  | .push _ | .finish => true
  | .request => false

/-- Nothing but requests comes after the end. -/
def Orderly (calls : List Call) : Prop :=
  calls.Pairwise fun before later ↦ before = .finish → later = .request

instance (calls : List Call) : Decidable (Orderly calls) :=
  inferInstanceAs (Decidable (List.Pairwise _ calls))

/-- So many requests in a row. -/
def requests (count : Nat) : List Call :=
  List.replicate count .request

variable {s t : Splitter} {bytes : List UInt8} {calls : List Call} {items : List Item}

theorem History.after_append (calls more : List Call) :
    History.after (calls ++ more) = more.foldl History.call (History.after calls) :=
  List.foldl_append

@[simp]
theorem unitsIn_append (xs ys : List Item) : unitsIn (xs ++ ys) = unitsIn xs ++ unitsIn ys :=
  List.filterMap_append

@[simp]
theorem unitsIn_map_unit (units : List StreamUnit) : unitsIn (units.map .unit) = units := by
  simp [unitsIn, Item.unit?, Function.comp_def]

@[simp]
theorem unitsIn_replicate_insufficient (count : Nat) :
    unitsIn (List.replicate count .insufficient) = [] := by
  simp [unitsIn, Item.unit?]

@[simp]
theorem pushedIn_append (xs ys : List Call) : pushedIn (xs ++ ys) = pushedIn xs ++ pushedIn ys :=
  List.flatMap_append

@[simp]
theorem pushedIn_requests (count : Nat) : pushedIn (requests count) = [] := by
  simp [pushedIn, requests, Call.bytes]

theorem foldl_requests_succ (count : Nat) (s : Splitter) (items : List Item) :
    (requests (count + 1)).foldl History.call ⟨s, items⟩ =
      (requests count).foldl History.call ⟨s.next.splitter, items ++ [s.next.item]⟩ := by
  rw [requests, List.replicate_succ, List.foldl_cons]
  rfl

theorem Orderly.append_requests (h : Orderly calls) (count : Nat) :
    Orderly (calls ++ requests count) := by
  refine List.pairwise_append.mpr ⟨h, List.pairwise_replicate.mpr (.inr fun _ ↦ rfl), ?_⟩
  exact fun _ _ later hlater _ ↦ List.eq_of_mem_replicate hlater

/-! ## No unit behind an answer that there is none -/

/-- No unit can be given out until more is known. -/
def Stalled (s : Splitter) : Prop :=
  ∀ unit, s.next.item ≠ .unit unit

theorem next_of_pending (h : s.pending = 0) : s.next = ⟨.exhausted, s, []⟩ := by
  rw [next, if_pos h]

theorem stalled_of_pending (h : s.pending = 0) : Stalled s := by
  intro unit
  rw [next_of_pending h]
  exact nofun

theorem stalled_of_insufficient (h : s.next.item = .insufficient) : Stalled s := by
  intro unit
  rw [h]
  exact nofun

theorem stalled_of_not_startsAt (h : ∀ i, ¬ StartsAt s.buffer i) : Stalled s := by
  by_cases hpending : s.pending = 0
  · exact stalled_of_pending hpending
  · have hnone : findUnit s.buffer = none := findUnitFrom_eq_none_iff.mpr h
    intro unit hitem
    rw [next, if_neg hpending, hnone] at hitem
    cases hitem

theorem findUnit_of_startsAt (h : StartsAt bytes 0) : findUnit bytes = some 0 := by
  cases bytes with
  | nil => simp [StartsAt] at h
  | cons byte bytes => rw [findUnit, findUnitFrom, if_pos (startsAt_zero.mp h)]

/-- Which unit is released depends on the bytes and on whether they are all. -/
theorem item_release_congr (h : t.finished = s.finished) (bytes : List UInt8)
    (log log' : List Entry) :
    (t.release bytes log).item = (s.release bytes log').item := by
  have hend : t.unitEnd? bytes = s.unitEnd? bytes := by rw [unitEnd?, unitEnd?, h]
  rw [release.eq_def, release.eq_def, hend]
  split <;> rfl

/-- An answer that there is no unit leaves the bytes from the first start on, and these release no
unit the next time either. -/
theorem stalled_next_release (hstart : StartsAt bytes 0) {log : List Entry}
    (h : ∀ unit, (s.release bytes log).item ≠ .unit unit) :
    Stalled (s.release bytes log).splitter := by
  have hkept : (s.release bytes log).splitter.buffer = bytes ∧
      (s.release bytes log).splitter.finished = s.finished := by
    rw [release.eq_def] at h ⊢
    split at h
    · exact absurd rfl (h _)
    · exact ⟨rfl, rfl⟩
  generalize (s.release bytes log).splitter = t at hkept ⊢
  obtain ⟨rfl, hfinished⟩ := hkept
  intro unit
  by_cases hpending : t.pending = 0
  · exact stalled_of_pending hpending unit
  · rw [next, if_neg hpending, findUnit_of_startsAt hstart]
    change (t.release t.buffer []).item ≠ .unit unit
    rw [item_release_congr hfinished t.buffer [] log]
    exact h unit

/-- No unit comes behind an answer that there is none. -/
theorem Stalled.next (h : Stalled s) : Stalled s.next.splitter := by
  by_cases hpending : s.pending = 0
  · rw [next_of_pending hpending]
    exact h
  rw [Stalled] at h
  rw [Splitter.next, if_neg hpending] at h ⊢
  cases hfound : findUnit s.buffer with
  | none =>
    apply stalled_of_not_startsAt
    intro i hstart
    have hnone := findUnitFrom_eq_none_iff.mp hfound
    exact hnone _ (startsAt_drop.mp hstart)
  | some offset =>
    obtain ⟨i, hi, hstart, -⟩ := findUnitFrom_eq_some hfound
    obtain rfl : offset = i := by omega
    rw [hfound] at h
    cases offset with
    | zero => exact stalled_next_release hstart h
    | succ offset => exact stalled_next_release (startsAt_drop.mpr hstart) h

/-- Requests that find no unit give none. -/
theorem Stalled.unitsIn_eq (h : Stalled s) (items : List Item) (count : Nat) :
    unitsIn ((requests count).foldl History.call ⟨s, items⟩).answers = unitsIn items := by
  induction count generalizing s items with
  | zero => rfl
  | succ count ih =>
    have hnone : unitsIn [s.next.item] = [] := by
      cases hitem : s.next.item with
      | unit unit => exact absurd hitem (h unit)
      | insufficient | exhausted => rfl
    rw [foldl_requests_succ, ih h.next, unitsIn_append, hnone, List.append_nil]

/-! ## Requests to the end -/

/-- Requests give these units and then the answers that are owed, and leave the second splitter,
which owes nothing. They may be made one by one, or up to the end, or up to the first answer that
there is no unit. -/
structure Exhausts (s : Splitter) (units : List StreamUnit) (t : Splitter) : Prop where
  length_le : units.length ≤ s.buffer.length
  pending_eq : t.pending = 0
  requests_eq : ∀ items, (requests (units.length + s.pending)).foldl History.call ⟨s, items⟩ =
    ⟨t, items ++ (units.map .unit ++ List.replicate s.pending .insufficient)⟩
  exhaust_eq : ∀ fuel items log, units.length + s.pending < fuel →
    (exhaustFrom items log fuel s).1 =
      items.reverse ++ (units.map .unit ++ List.replicate s.pending .insufficient)
  drain_eq : ∀ fuel, units.length < fuel → (drainFrom [] [] fuel s).units = units

theorem exhausts_of_pending (h : s.pending = 0) : Exhausts s [] s where
  length_le := Nat.zero_le _
  pending_eq := h
  requests_eq items := by
    rw [h]
    simp [requests]
  exhaust_eq fuel items log hfuel := by
    obtain ⟨fuel, rfl⟩ := Nat.exists_eq_add_one_of_ne_zero (Nat.ne_zero_of_lt hfuel)
    rw [exhaustFrom, next_of_pending h, h]
    simp
  drain_eq fuel hfuel := by
    obtain ⟨fuel, rfl⟩ := Nat.exists_eq_add_one_of_ne_zero (Nat.ne_zero_of_lt hfuel)
    rw [drainFrom, next_of_pending h]
    rfl

/-- One unit more in front. -/
theorem Releases.exhausts {unit : StreamUnit} {units : List StreamUnit}
    (h : s.Releases unit s.next) (hrest : Exhausts s.next.splitter units t) :
    Exhausts s (unit :: units) t where
  length_le := Nat.lt_of_le_of_lt hrest.length_le h.shrinks
  pending_eq := hrest.pending_eq
  requests_eq items := by
    have hcount : (unit :: units).length + s.pending =
        units.length + s.next.splitter.pending + 1 := by
      rw [List.length_cons, h.pending_eq]
      omega
    rw [hcount, foldl_requests_succ, hrest.requests_eq, h.item_eq, h.pending_eq]
    simp
  exhaust_eq fuel items log hfuel := by
    obtain ⟨fuel, rfl⟩ := Nat.exists_eq_add_one_of_ne_zero (Nat.ne_zero_of_lt hfuel)
    rw [List.length_cons] at hfuel
    rw [exhaustFrom, h.item_eq]
    dsimp only
    rw [hrest.exhaust_eq fuel _ _ (by rw [h.pending_eq]; omega), h.pending_eq]
    simp
  drain_eq fuel hfuel := by
    obtain ⟨fuel, rfl⟩ := Nat.exists_eq_add_one_of_ne_zero (Nat.ne_zero_of_lt hfuel)
    rw [drainFrom, h.item_eq]
    dsimp only
    rw [drainFrom_eq, hrest.drain_eq fuel (Nat.lt_of_succ_lt_succ hfuel)]
    rfl

/-- An answer that there is no unit was owed. -/
theorem Waits.pending_eq_add_one (h : s.Waits s.next) (hpending : s.pending ≠ 0) :
    s.pending = s.next.splitter.pending + 1 := by
  rw [h.pending_eq]
  omega

/-- One answer less is owed, and no unit comes behind it. -/
theorem Waits.exhausts (hpending : s.pending ≠ 0) (h : s.Waits s.next)
    (hrest : Exhausts s.next.splitter [] t) : Exhausts s [] t where
  length_le := Nat.zero_le _
  pending_eq := hrest.pending_eq
  requests_eq items := by
    have hrequests := hrest.requests_eq (items ++ [.insufficient])
    rw [List.length_nil, Nat.zero_add] at hrequests
    rw [h.pending_eq_add_one hpending, List.length_nil, Nat.zero_add, foldl_requests_succ,
      h.item_eq, hrequests, List.replicate_succ]
    simp
  exhaust_eq fuel items log hfuel := by
    obtain ⟨fuel, rfl⟩ := Nat.exists_eq_add_one_of_ne_zero (Nat.ne_zero_of_lt hfuel)
    have hsucc := h.pending_eq_add_one hpending
    rw [exhaustFrom, h.item_eq]
    dsimp only
    rw [hrest.exhaust_eq fuel _ _ (by rw [hsucc] at hfuel; omega), hsucc, List.replicate_succ]
    simp
  drain_eq fuel hfuel := by
    obtain ⟨fuel, rfl⟩ := Nat.exists_eq_add_one_of_ne_zero (Nat.ne_zero_of_lt hfuel)
    rw [drainFrom, h.item_eq]
    rfl

/-- A stalled splitter drains to nothing. -/
theorem Stalled.units_drainFrom (h : Stalled s) (fuel : Nat) :
    (drainFrom [] [] fuel s).units = [] := by
  cases fuel with
  | zero => rfl
  | succ fuel =>
    rw [drainFrom]
    cases hitem : s.next.item with
    | unit unit => exact absurd hitem (h unit)
    | insufficient | exhausted => rfl

/-- Requests come to an end: each takes bytes or an answer that is owed. -/
theorem exists_exhausts (s : Splitter) : ∃ units t, Exhausts s units t := by
  induction hsize : s.buffer.length + s.pending using Nat.strongRecOn generalizing s with
  | _ size ih =>
    by_cases hpending : s.pending = 0
    · exact ⟨[], s, exhausts_of_pending hpending⟩
    rcases next_cases hpending with h | ⟨unit, h⟩
    · have hlength := h.length_le
      have hsucc := h.pending_eq_add_one hpending
      obtain ⟨units, t, hrest⟩ := ih _ (by omega) s.next.splitter rfl
      have hstalled := stalled_of_insufficient h.item_eq
      obtain rfl : units = [] := by
        rw [← hrest.drain_eq _ (Nat.lt_succ_self _), hstalled.next.units_drainFrom]
      exact ⟨[], t, h.exhausts hpending hrest⟩
    · have hshrinks := h.shrinks
      have hsame := h.pending_eq
      obtain ⟨units, t, hrest⟩ := ih _ (by omega) s.next.splitter rfl
      exact ⟨unit :: units, t, h.exhausts hrest⟩

/-! ## What was given out -/

/-- The units given out so far and those of the bytes still held are the units of all bytes, and
every push and finish has been answered or is still owed its answer. -/
structure Follows (calls : List Call) (h : History) : Prop where
  owed_eq : h.splitter.pending + h.answers.count .insufficient = calls.countP Call.isOwed
  released_eq : h.splitter.released = (unitsIn h.answers).length
  finished_iff : h.splitter.finished = true ↔ .finish ∈ calls
  split_eq : ∀ rest, h.splitter.Admits rest →
    unitSplit (pushedIn calls ++ rest) =
      unitsIn h.answers ++ unitSplit (h.splitter.buffer ++ rest)
  spent : h.splitter.finished = true → h.splitter.pending = 0 → unitSplit h.splitter.buffer = []

variable {h : History}

theorem Follows.push (hf : Follows calls h) (hopen : .finish ∉ calls) (bytes : List UInt8) :
    Follows (calls ++ [.push bytes]) (h.call (.push bytes)) where
  owed_eq := by
    have howed := hf.owed_eq
    simp only [History.call, Splitter.push, List.countP_append, List.countP_singleton, Call.isOwed,
      if_true]
    omega
  released_eq := hf.released_eq
  finished_iff := by
    simpa [History.call, Splitter.push] using hf.finished_iff
  split_eq rest _ := by
    have hadmits : h.splitter.Admits (bytes ++ rest) := fun hfinished ↦
      absurd (hf.finished_iff.mp hfinished) hopen
    have hsplit := hf.split_eq _ hadmits
    simpa [History.call, Splitter.push, pushedIn, Call.bytes] using hsplit
  spent hfinished := absurd (hf.finished_iff.mp hfinished) hopen

theorem Follows.finish (hf : Follows calls h) : Follows (calls ++ [.finish]) (h.call .finish) where
  owed_eq := by
    have howed := hf.owed_eq
    simp only [History.call, Splitter.finish, List.countP_append, List.countP_singleton,
      Call.isOwed, if_true]
    omega
  released_eq := hf.released_eq
  finished_iff := by simp [History.call, Splitter.finish]
  split_eq rest hrest := by
    obtain rfl : rest = [] := hrest rfl
    have hsplit := hf.split_eq [] fun _ ↦ rfl
    simpa [History.call, Splitter.finish, pushedIn, Call.bytes] using hsplit
  spent _ hpending := absurd hpending (Nat.succ_ne_zero _)

theorem released_next (s : Splitter) :
    s.next.splitter.released = s.released + (unitsIn [s.next.item]).length := by
  have hrelease (bytes : List UInt8) (log : List Entry) :
      (s.release bytes log).splitter.released =
        s.released + (unitsIn [(s.release bytes log).item]).length := by
    rw [release.eq_def]
    split <;> rfl
  rw [next]
  split
  · rfl
  split
  · rfl
  · exact hrelease _ _
  · exact hrelease _ _

/-- What is answered and what is kept make up what there was. -/
structure Answers (s : Splitter) (step : Step) : Prop where
  owed_eq : step.splitter.pending + [step.item].count .insufficient = s.pending
  finished_eq : step.splitter.finished = s.finished
  split_eq : ∀ rest, s.Admits rest →
    unitSplit (s.buffer ++ rest) =
      unitsIn [step.item] ++ unitSplit (step.splitter.buffer ++ rest)
  spent : s.finished = true → (s.pending = 0 → unitSplit s.buffer = []) →
    step.splitter.pending = 0 → unitSplit step.splitter.buffer = []

theorem next_answers (s : Splitter) : s.Answers s.next := by
  by_cases hpending : s.pending = 0
  · rw [next_of_pending hpending]
    exact ⟨rfl, rfl, fun _ _ ↦ rfl, fun _ hspent _ ↦ hspent hpending⟩
  rcases next_cases hpending with h | ⟨unit, h⟩
  · have hsucc := h.pending_eq_add_one hpending
    refine ⟨?_, h.finished_eq, fun rest hrest ↦ ?_, fun hfinished _ _ ↦ h.spent hfinished⟩
    · rw [h.item_eq, hsucc]
      rfl
    · rw [h.item_eq, h.split_eq rest hrest]
      rfl
  · refine ⟨?_, h.finished_eq, fun rest hrest ↦ ?_, fun _ _ hzero ↦ ?_⟩
    · rw [h.item_eq, h.pending_eq]
      rfl
    · rw [h.item_eq, h.split_eq rest hrest]
      rfl
    · exact absurd (h.pending_eq.symm.trans hzero) hpending

theorem Follows.request (hf : Follows calls h) :
    Follows (calls ++ [.request]) (h.call .request) := by
  have hnext := next_answers h.splitter
  refine ⟨?_, ?_, ?_, fun rest hrest ↦ ?_, fun hfinished hzero ↦ ?_⟩
  · have howed := hf.owed_eq
    have hstep := hnext.owed_eq
    simp only [History.call, List.count_append, List.countP_append, List.countP_singleton,
      Call.isOwed, Bool.false_eq_true, if_false]
    omega
  · rw [History.call, released_next, hf.released_eq, unitsIn_append, List.length_append]
  · rw [History.call, hnext.finished_eq, hf.finished_iff]
    simp
  · have hadmits : h.splitter.Admits rest := fun hfinished ↦
      hrest (hnext.finished_eq.trans hfinished)
    have hpushed : pushedIn (calls ++ [.request]) = pushedIn calls := by
      simp [pushedIn, Call.bytes]
    rw [hpushed, hf.split_eq rest hadmits, hnext.split_eq rest hadmits, History.call,
      unitsIn_append, List.append_assoc]
  · have hfinished' : h.splitter.finished = true := hnext.finished_eq.symm.trans hfinished
    exact hnext.spent hfinished' (hf.spent hfinished') hzero

theorem follows_after (horderly : Orderly calls) : Follows calls (History.after calls) := by
  induction calls using List.reverseRecOn with
  | nil =>
    refine ⟨rfl, rfl, by simp [History.after, empty], fun rest _ ↦ rfl, fun hfinished ↦ ?_⟩
    exact absurd hfinished (by simp [History.after, empty])
  | append_singleton calls call ih =>
    obtain ⟨hcalls, -, hlast⟩ := List.pairwise_append.mp horderly
    have hrest := ih hcalls
    rw [History.after_append, List.foldl_cons, List.foldl_nil]
    cases call with
    | push bytes =>
      apply hrest.push
      intro hfinish
      exact nomatch hlast _ hfinish _ List.mem_cons_self rfl
    | finish => exact hrest.finish
    | request => exact hrest.request

/-- Requests that come in any order with pushes, and at last the end, lose no unit. Each push and
the end is owed one answer that there is no unit, and has had it or is still to get it. From each
state, requests give some units, then the answers that are owed, and then nothing. Behind such an
answer, requests give no unit. After the end, the units given out before and those that are left,
whether they are requested up to the end or up to the first answer that there is none, are those of
all bytes. -/
theorem answers_of_orderly_calls (calls : List Call) (horderly : Orderly calls) :
    let past := History.after calls
    let owed := past.splitter.pending
    owed + past.answers.count .insufficient = calls.countP Call.isOwed ∧
      past.splitter.released = (unitsIn past.answers).length ∧
      (past.splitter.next.item = .insufficient →
        past.splitter.next.splitter.pending + 1 = owed ∧
        ∀ count, unitsIn (History.after (calls ++ requests count)).answers =
          unitsIn past.answers) ∧
      ∃ units,
        let last := History.after (calls ++ requests (units.length + owed))
        last.answers = past.answers ++ (units.map .unit ++ List.replicate owed .insufficient) ∧
        last.splitter.next.item = .exhausted ∧
        past.splitter.exhaust.1 = units.map .unit ++ List.replicate owed .insufficient ∧
        past.splitter.drain.units = units ∧
        (.finish ∈ calls → unitsIn past.answers ++ units = unitSplit (pushedIn calls)) := by
  intro past owed
  have hpast : Follows calls past := follows_after horderly
  obtain ⟨units, t, hunits⟩ := exists_exhausts past.splitter
  have hlast : History.after (calls ++ requests (units.length + owed)) =
      ⟨t, past.answers ++ (units.map .unit ++ List.replicate owed .insufficient)⟩ := by
    rw [History.after_append]
    exact hunits.requests_eq past.answers
  refine ⟨hpast.owed_eq, hpast.released_eq, fun hitem ↦ ⟨?_, fun count ↦ ?_⟩, units, ?_⟩
  · have howed := (next_answers past.splitter).owed_eq
    rwa [hitem] at howed
  · rw [History.after_append]
    exact (stalled_of_insufficient hitem).unitsIn_eq past.answers count
  · have hlength := hunits.length_le
    rw [hlast]
    refine ⟨rfl, ?_, ?_, ?_, fun hfinish ↦ ?_⟩
    · exact congrArg Step.item (next_of_pending hunits.pending_eq)
    · exact hunits.exhaust_eq _ [] [] (by omega)
    · exact hunits.drain_eq _ (Nat.lt_succ_of_le hlength)
    · have hall := follows_after (horderly.append_requests (units.length + owed))
      rw [hlast] at hall
      have hfinished : t.finished = true :=
        hall.finished_iff.mpr (List.mem_append_left _ hfinish)
      have hsplit := hall.split_eq [] fun _ ↦ rfl
      simpa [hall.spent hfinished hunits.pending_eq] using hsplit.symm

/-- A start that is cut between two pushes, and a request before the end. -/
theorem answers_across_pushes :
    let calls : List Call := [.push [0xFF, 0, 0], .request, .request,
      .push [1, 0xB3, 0x12, 0, 0, 1], .push [0xB7], .request, .finish]
    let past := History.after calls
    Orderly calls ∧
      past.answers = [.insufficient, .exhausted, .unit ⟨0xB3, [0x12]⟩] ∧
      past.splitter.exhaust.1 =
        [.unit ⟨0xB7, []⟩, .insufficient, .insufficient, .insufficient] ∧
      unitSplit (pushedIn calls) = [⟨0xB3, [0x12]⟩, ⟨0xB7, []⟩] := by
  intro calls past
  have horderly : Orderly calls := by decide
  have hanswers : past.answers = [.insufficient, .exhausted, .unit ⟨0xB3, [0x12]⟩] := by decide
  have hdrain : past.splitter.drain.units = [⟨0xB7, []⟩] := by decide
  obtain ⟨-, -, -, units, -, -, hexhaust, hunits, hall⟩ :=
    answers_of_orderly_calls calls horderly
  obtain rfl : units = [⟨0xB7, []⟩] := hunits.symm.trans hdrain
  refine ⟨horderly, hanswers, hexhaust, ?_⟩
  rw [← hall (by decide), hanswers]
  rfl

end ClosedCaptions.Splitter
