/-!
# Ratios and numbers on the command line

A ratio is two positive whole numbers with a colon or a slash between them, or a single one.
-/

namespace ClosedCaptions

/-- Why a text is not the number or the ratio that is wanted. -/
inductive ValueError where
  | emptyWhole
  | invalidDigit
  | tooLarge
  | badTerm (text : String) (cause : ValueError)
  | zeroTerm (text : String)
  | emptyDecimal
  | invalidDecimal
  deriving DecidableEq, Repr

namespace ValueError

def message : ValueError → String
  | emptyWhole => "cannot parse integer from empty string"
  | invalidDigit => "invalid digit found in string"
  | tooLarge => "number too large to fit in target type"
  | badTerm text cause => "invalid ratio '" ++ text ++ "': " ++ cause.message
  | zeroTerm text => "invalid ratio '" ++ text ++ "': terms must be non-zero"
  | emptyDecimal => "cannot parse float from empty string"
  | invalidDecimal => "invalid float literal"

end ValueError

namespace Ratio

/-- The digits of a number of at most `largest`, after those that make `value`. The first
character that is no digit, or that leads beyond `largest`, decides. -/
def readDigits (largest value : Nat) : List Char → Except ValueError Nat
  | [] => .ok value
  | c :: cs =>
    let next := 10 * value + (c.toNat - '0'.toNat)
    if !c.isDigit then .error .invalidDigit
    else if largest < next then .error .tooLarge
    else readDigits largest next cs

/-- A number of at most `largest`, with an optional plus sign. -/
def readWhole (largest : Nat) : List Char → Except ValueError Nat
  | [] => .error .emptyWhole
  | ['+'] => .error .invalidDigit
  | '+' :: cs => readDigits largest 0 cs
  | cs => readDigits largest 0 cs

/-- The characters that take up space and show nothing. -/
def isBlank (c : Char) : Bool :=
  let n := c.toNat
  (0x9 ≤ n && n ≤ 0xd) || n == 0x20 || n == 0x85 || n == 0xa0 || n == 0x1680 ||
    (0x2000 ≤ n && n ≤ 0x200a) || n == 0x2028 || n == 0x2029 || n == 0x202f || n == 0x205f ||
    n == 0x3000

def trim (cs : List Char) : List Char :=
  ((cs.dropWhile isBlank).reverse.dropWhile isBlank).reverse

def isSeparator (c : Char) : Bool :=
  c == ':' || c == '/'

/-- The largest term. -/
def largestTerm : Nat := 0xFFFFFFFF

def readTerm (text : String) (cs : List Char) : Except ValueError Nat :=
  (readWhole largestTerm (trim cs)).mapError (.badTerm text)

/-- The denominator is 1 when there is none. -/
def read (text : String) : Except ValueError (Nat × Nat) := do
  let numerator := text.toList.takeWhile (!isSeparator ·)
  let denominator :=
    match text.toList.dropWhile (!isSeparator ·) with
    | [] => ['1']
    | _ :: cs => cs
  let num ← readTerm text numerator
  let den ← readTerm text denominator
  if num = 0 ∨ den = 0 then .error (.zeroTerm text) else .ok (num, den)

end Ratio

end ClosedCaptions
