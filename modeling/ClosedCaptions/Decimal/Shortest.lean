/-!
# Shortest decimal text of doubles

Prints a double with the fewest digits that read back as the same double, the nearest of those,
and always positionally. The reals that read back as `m * 2^q` form an interval around it, whose
ends belong to it when `m` is even; for one digit, two digits and so on, the two neighbours of
the double on the grid of that many digits are tried.
-/

namespace ClosedCaptions.Decimal

/-- A finite positive double `mantissa * 2^exponent`, and whether it is the first of its binade,
so that the doubles below it lie closer. -/
structure Binary where
  mantissa : Nat
  exponent : Int
  firstOfBinade : Bool

namespace Binary

def ofBits (bits : UInt64) : Binary :=
  let fraction := bits.toNat % Nat.pow 2 52
  let power := bits.toNat / Nat.pow 2 52 % Nat.pow 2 11
  if power = 0 then ⟨fraction, -1074, false⟩
  else ⟨Nat.pow 2 52 + fraction, Int.ofNat power - 1075, fraction = 0 ∧ 1 < power⟩

/-- `value * 2 ^ power` as a fraction. -/
def fraction (value : Nat) (power : Int) : Nat × Nat :=
  if 0 ≤ power then (value * Nat.pow 2 power.toNat, 1) else (value, Nat.pow 2 (-power).toNat)

def value (x : Binary) : Nat × Nat :=
  fraction (4 * x.mantissa) (x.exponent - 2)

/-- The ends of the interval of reals that read back as the double. -/
def interval (x : Binary) : (Nat × Nat) × (Nat × Nat) :=
  let below := if x.firstOfBinade then 1 else 2
  (fraction (4 * x.mantissa - below) (x.exponent - 2),
    fraction (4 * x.mantissa + 2) (x.exponent - 2))

end Binary

/-- A decimal number `digits * 10 ^ power`. -/
structure Scaled where
  digits : Nat
  power : Int
  deriving DecidableEq, Repr

namespace Scaled

def fraction (d : Scaled) : Nat × Nat :=
  if 0 ≤ d.power then (d.digits * Nat.pow 10 d.power.toNat, 1)
  else (d.digits, Nat.pow 10 (-d.power).toNat)

end Scaled

/-- Compare two fractions. -/
def lessEq (a b : Nat × Nat) : Bool :=
  a.1 * b.2 ≤ b.1 * a.2

def less (a b : Nat × Nat) : Bool :=
  a.1 * b.2 < b.1 * a.2

/-- A decimal number reads back as the double. -/
def readsBack (x : Binary) (d : Scaled) : Bool :=
  let (low, high) := x.interval
  if x.mantissa % 2 = 0 then lessEq low d.fraction && lessEq d.fraction high
  else less low d.fraction && less d.fraction high

/-- The largest decimal number on the grid of `10 ^ power` that is not above a fraction. -/
def floorOn (power : Int) (a : Nat × Nat) : Scaled :=
  if 0 ≤ power then ⟨a.1 / (a.2 * Nat.pow 10 power.toNat), power⟩
  else ⟨a.1 * Nat.pow 10 (-power).toNat / a.2, power⟩

/-- The number that reads back among the two neighbours of the double on a grid, the nearer one
if both do, and the upper one on a tie. -/
def neighbour? (x : Binary) (power : Int) : Option Scaled :=
  let down := floorOn power x.value
  let up : Scaled := ⟨down.digits + 1, power⟩
  match readsBack x down, readsBack x up with
  | true, true =>
    let middle := (down.fraction.1 * up.fraction.2 + up.fraction.1 * down.fraction.2,
      2 * down.fraction.2 * up.fraction.2)
    some (if less x.value middle then down else up)
  | true, false => some down
  | false, true => some up
  | false, false => none

/-- The number of decimal places before the point, negative for zeros after it: the least `k`
with the double below `10 ^ k`. Doubles lie below `10 ^ 309` and not below `10 ^ -324`. -/
def places (x : Binary) : Int :=
  let powers : List Int := (List.range 634).map fun i ↦ Int.ofNat i - 324
  (powers.find? fun k ↦ less x.value (Scaled.fraction ⟨1, k⟩)).getD 309

/-- The shortest decimal number that reads back. Seventeen digits always do. -/
def shortest (x : Binary) : Scaled :=
  let places := places x
  let found := (List.range 17).findSome? fun i ↦ neighbour? x (places - Int.ofNat (i + 1))
  let d := found.getD (floorOn (places - 17) x.value)
  if d.digits % 10 = 0 then ⟨d.digits / 10, d.power + 1⟩ else d

/-- Digits with the point in its place, and zeros wherever the notation needs them. -/
def positional (d : Scaled) : String :=
  let digits := Nat.toDigits 10 d.digits
  if 0 ≤ d.power then
    String.ofList (digits ++ List.replicate d.power.toNat '0')
  else
    let after := (-d.power).toNat
    let padded := List.replicate (after + 1 - digits.length) '0' ++ digits
    let whole := padded.take (padded.length - after)
    String.ofList (whole ++ '.' :: padded.drop (padded.length - after))

/-- The text of a double. -/
def display (x : Float) : String :=
  if x.isNaN then "NaN"
  else
    let magnitude :=
      if x.isInf then "inf"
      else if x == 0 then "0"
      else positional (shortest (Binary.ofBits x.abs.toBits))
    if Nat.pow 2 63 ≤ x.toBits.toNat then "-" ++ magnitude else magnitude

end ClosedCaptions.Decimal
