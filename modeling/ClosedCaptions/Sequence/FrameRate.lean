/-!
# Frame rates

A stream codes its frame rate as one of eight table rates, which a sequence extension may scale
by `(n + 1) / (d + 1)`. `CodedRate.nearest` picks the coded rate closest to a given one.
-/

namespace ClosedCaptions

/-- The table rates of `frame_rate_code` 1 to 8. -/
def tableRates : List (Nat × Nat) :=
  [(24000, 1001), (24, 1), (25, 1), (30000, 1001), (30, 1), (50, 1), (60000, 1001), (60, 1)]

def tableRate? (code : Nat) : Option (Nat × Nat) :=
  if code = 0 then none else tableRates[code - 1]?

/-- A frame rate code with the fields of the sequence extension. -/
structure CodedRate where
  code : Nat
  n : Nat
  d : Nat
  deriving DecidableEq, Repr

namespace CodedRate

/-- The rate as numerator and denominator, not reduced. -/
def rate (c : CodedRate) : Nat × Nat :=
  let (num, den) := (tableRate? c.code).getD (0, 1)
  (num * (c.n + 1), den * (c.d + 1))

/-- The table rates alone. -/
def plain : List CodedRate :=
  (List.range 8).map fun i ↦ ⟨i + 1, 0, 0⟩

/-- Every coded rate, by code, then `n`, then `d`. -/
def all : List CodedRate :=
  (List.range 8).flatMap fun i ↦ (List.range 4).flatMap fun n ↦ (List.range 32).map fun d ↦
    ⟨i + 1, n, d⟩

/-- The coded rate is exactly `num / den`. -/
def isExact (num den : Nat) (c : CodedRate) : Bool :=
  c.rate.1 * den == num * c.rate.2

/-- The ratio of the larger of the coded rate and `num / den` to the smaller. -/
def error (num den : Nat) (c : CodedRate) : Nat × Nat :=
  let coded := c.rate.1 * den
  let wanted := num * c.rate.2
  (max coded wanted, min coded wanted)

/-- Take a coded rate if its error is smaller than the best so far; a table rate wins a tie. -/
def closer (num den : Nat) (best : CodedRate × (Nat × Nat)) (c : CodedRate) :
    CodedRate × (Nat × Nat) :=
  let error := c.error num den
  let mine := error.1 * best.2.2
  let other := best.2.1 * error.2
  if mine < other ∨ (mine = other ∧ c.n = 0 ∧ c.d = 0) then (c, error) else best

/-- The coded rate closest to `num / den`: the table rate if there is one, then any exact coded
rate, then the one of least error. Rates that are off by a factor of 2^31 - 1 or more fall back
to 30000/1001. -/
def nearest (num den : Nat) : CodedRate :=
  match plain.find? (isExact num den) with
  | some c => c
  | none =>
    match all.find? (isExact num den) with
    | some c => c
    | none => (all.foldl (closer num den) (⟨4, 0, 0⟩, (0x7FFFFFFF, 1))).1

theorem nearest_eq (num den : Nat) :
    nearest num den = (plain.find? (isExact num den)).getD ((all.find? (isExact num den)).getD
      (all.foldl (closer num den) (⟨4, 0, 0⟩, (0x7FFFFFFF, 1))).1) := by
  -- The choices are opened for any results of the searches, so that none of these is computed.
  have hchoose (table exact : Option CodedRate) (last : CodedRate) :
      (match table with
        | some c => c
        | none =>
          match exact with
          | some c => c
          | none => last) = table.getD (exact.getD last) := by
    cases table with
    | some c => rfl
    | none => cases exact <;> rfl
  exact hchoose _ _ _

end CodedRate

end ClosedCaptions
