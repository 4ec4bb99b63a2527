/-!
# Decimal notation of doubles

Reads a double from its decimal notation: digits with an optional point, sign and exponent, or
one of the words for infinity and not-a-number, in any case.
-/

namespace ClosedCaptions.Decimal

/-- A magnitude beyond this power of ten overflows, and one below its inverse vanishes. -/
def farPower : Int := 400

/-- The double nearest to `digits * 10 ^ power`. -/
def scale (digits : List Char) (power : Int) : Float :=
  let mantissa := Nat.ofDigitChars 10 digits 0
  let size : Int := (Nat.toDigits 10 mantissa).length + power
  if mantissa = 0 ∨ size < -farPower then 0
  else if farPower < size then 1 / 0
  else Float.ofScientific mantissa (power < 0) power.natAbs

/-- A sign and what follows it. -/
def splitSign : List Char → Bool × List Char
  | '-' :: rest => (true, rest)
  | '+' :: rest => (false, rest)
  | rest => (false, rest)

/-- One or more digits. -/
def digits? (text : List Char) : Option Nat :=
  if text ≠ [] ∧ text.all Char.isDigit then some (Nat.ofDigitChars 10 text 0) else none

/-- What follows the digits: nothing, or an exponent. -/
def exponent? : List Char → Option Int
  | [] => some 0
  | mark :: rest =>
    if mark = 'e' ∨ mark = 'E' then
      let (negative, rest) := splitSign rest
      (digits? rest).map fun n ↦ if negative then -n else n
    else none

/-- A number without a sign: digits, a point, digits, and an exponent, with one digit at least
around the point. -/
def magnitude? (text : List Char) : Option Float :=
  let whole := text.takeWhile Char.isDigit
  let afterWhole := text.dropWhile Char.isDigit
  let (fraction, rest) :=
    match afterWhole with
    | '.' :: rest => (rest.takeWhile Char.isDigit, rest.dropWhile Char.isDigit)
    | rest => ([], rest)
  if whole = [] ∧ fraction = [] then none
  else (exponent? rest).map fun e ↦ scale (whole ++ fraction) (e - fraction.length)

/-- A word for infinity or not-a-number. -/
def word? (text : List Char) : Option Float :=
  let lower := String.ofList (text.map Char.toLower)
  if lower = "inf" ∨ lower = "infinity" then some (1 / 0)
  else if lower = "nan" then some (0 / 0)
  else none

def parse? (text : String) : Option Float :=
  let (negative, rest) := splitSign text.toList
  let value := (word? rest).or (magnitude? rest)
  value.map fun x ↦ if negative then -x else x

end ClosedCaptions.Decimal
