import ClosedCaptions.Decimal.Notation
import ClosedCaptions.Document.Basic

/-!
# YAML block style

Prints documents as YAML. A list stands at the column of its key. Text is plain unless it would
read back as something else or break the notation; then it stands in single quotes, and a quote
inside is doubled.
-/

namespace ClosedCaptions.Yaml

/-! ## What plain text reads back as -/

/-- Digits after a zero, with or without a sign, are text and not a number. -/
def isZeroLed (text : List Char) : Bool :=
  match (Decimal.splitSign text).2 with
  | '0' :: c :: rest => (c :: rest).all Char.isDigit
  | _ => false

def isNull (text : String) : Bool :=
  text = "" || text = "null" || text = "Null" || text = "NULL" || text = "~"

def isBool (text : String) : Bool :=
  text = "true" || text = "True" || text = "TRUE" ||
    text = "false" || text = "False" || text = "FALSE"

def isBinaryDigit (c : Char) : Bool :=
  c = '0' || c = '1'

def isOctalDigit (c : Char) : Bool :=
  '0' ≤ c && c ≤ '7'

def isHexDigit (c : Char) : Bool :=
  c.isDigit || ('a' ≤ c && c ≤ 'f') || ('A' ≤ c && c ≤ 'F')

/-- A number in base 2, 8 or 16 with its mark in front. -/
def isBased : List Char → Bool
  | '0' :: mark :: c :: rest =>
    let digits := c :: rest
    (mark = 'x' && digits.all isHexDigit) || (mark = 'o' && digits.all isOctalDigit) ||
      (mark = 'b' && digits.all isBinaryDigit)
  | _ => false

def isInteger (text : List Char) : Bool :=
  let rest := (Decimal.splitSign text).2
  isBased rest || (!isZeroLed text && rest ≠ [] && rest.all Char.isDigit)

/-- One of the words for infinity and not-a-number. -/
def isFloatWord (text : String) : Bool :=
  [".inf", ".Inf", ".INF", "+.inf", "+.Inf", "+.INF", "-.inf", "-.Inf", "-.INF",
    ".nan", ".NaN", ".NAN"].contains text

def isFloat (text : String) : Bool :=
  isFloatWord text ||
    (!isZeroLed text.toList && (Decimal.parse? text).any Float.isFinite)

/-! ## What breaks the notation -/

/-- The character, at the end or before a space, ends a plain word. -/
def endsWord : List Char → Bool
  | [] => true
  | c :: _ => c = ' '

/-- Characters that cannot begin plain text. -/
def isIndicator (c : Char) : Bool :=
  ['#', ',', '[', ']', '\x7b', '\x7d', '&', '*', '!', '|', '>', '\'', '"', '%', '@',
    '\x60'].contains c

/-- The first character makes something else of the text. -/
def breaksAtStart : List Char → Bool
  | '-' :: '-' :: '-' :: _ => true
  | '.' :: '.' :: '.' :: _ => true
  | c :: rest => isIndicator c || ((c = '?' || c = ':' || c = '-') && endsWord rest)
  | [] => true

/-- A colon at the end of a word makes a key of what is before it, and a `#` after a space a
comment of what follows. -/
def breaksInside : List Char → Bool
  | ' ' :: '#' :: _ => true
  | ':' :: rest => endsWord rest || breaksInside rest
  | _ :: rest => breaksInside rest
  | [] => false

/-! ## Printing -/

def needsQuotes (text : String) : Bool :=
  isNull text || isBool text || isInteger text.toList || isZeroLed text.toList || isFloat text ||
    breaksAtStart text.toList || breaksInside text.toList

def quote : List Char → List Char
  | [] => []
  | '\'' :: rest => '\'' :: '\'' :: quote rest
  | c :: rest => c :: quote rest

def scalar (text : String) : String :=
  if needsQuotes text then "'" ++ String.ofList (quote text.toList) ++ "'" else text

/-- A list item: a dash before its first line, and the others indented below it. -/
def item : List String → List String
  | [] => []
  | line :: lines => ("- " ++ line) :: lines.map ("  " ++ ·)

mutual

/-- The lines of a document. -/
def lines : Document → List String
  | .bool value => [toString value]
  | .number value => [toString value]
  | .text value => [scalar value]
  | .list [] => ["[]"]
  | .list (d :: ds) => itemLines (d :: ds)
  | .record fields => fieldLines fields

def itemLines : List Document → List String
  | [] => []
  | d :: ds => item (lines d) ++ itemLines ds

/-- The fields of a record. A list that is not empty, and a record, begin on a new line. -/
def fieldLines : List (String × Document) → List String
  | [] => []
  | (key, d) :: fields =>
    let shown :=
      match d with
      | .list (e :: es) => (key ++ ":") :: itemLines (e :: es)
      | .record inner => (key ++ ":") :: (fieldLines inner).map ("  " ++ ·)
      | d => (lines d).map ((key ++ ": ") ++ ·)
    shown ++ fieldLines fields

end

def render (d : Document) : String :=
  String.join ((lines d).map (· ++ "\n"))

end ClosedCaptions.Yaml
