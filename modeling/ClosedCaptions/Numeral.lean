/-!
# Numerals

Hexadecimal and zero-padded decimal numerals, and columns of fixed width, as messages and
reports print them.
-/

namespace ClosedCaptions.Numeral

/-- Fill on the left up to `width` characters; longer text is kept whole. -/
def padLeft (width : Nat) (fill : Char) (text : List Char) : List Char :=
  List.replicate (width - text.length) fill ++ text

/-- Fill with spaces on the right up to `width` characters; longer text is kept whole. -/
def column (width : Nat) (text : String) : String :=
  text ++ String.ofList (List.replicate (width - text.length) ' ')

/-- Decimal digits, at least `width` of them. -/
def decimal (width : Nat) (value : Nat) : String :=
  String.ofList (padLeft width '0' (Nat.toDigits 10 value))

/-- Lower-case hexadecimal digits, at least `width` of them. -/
def hexLower (width : Nat) (value : Nat) : String :=
  String.ofList (padLeft width '0' (Nat.toDigits 16 value))

/-- Upper-case hexadecimal digits, at least `width` of them. -/
def hexUpper (width : Nat) (value : Nat) : String :=
  String.ofList (padLeft width '0' ((Nat.toDigits 16 value).map Char.toUpper))

end ClosedCaptions.Numeral
