import ClosedCaptions.Caption.Screen

/-!
# Caption codes

What a byte pair of line 21 asks for. Pairs are sorted by ranges of their two bytes, and the
first range that fits decides.
-/

namespace ClosedCaptions

/-- Color, font and indent of preamble and mid-row codes. -/
structure Style where
  color : Color
  font : Font
  indent : Nat
  deriving DecidableEq, Repr

namespace Style

/-- The styles by the low five bits of the second byte. -/
def table : List Style :=
  [⟨.white, .regular, 0⟩, ⟨.white, .underlined, 0⟩,
    ⟨.green, .regular, 0⟩, ⟨.green, .underlined, 0⟩,
    ⟨.blue, .regular, 0⟩, ⟨.blue, .underlined, 0⟩,
    ⟨.cyan, .regular, 0⟩, ⟨.cyan, .underlined, 0⟩,
    ⟨.red, .regular, 0⟩, ⟨.red, .underlined, 0⟩,
    ⟨.yellow, .regular, 0⟩, ⟨.yellow, .underlined, 0⟩,
    ⟨.magenta, .regular, 0⟩, ⟨.magenta, .underlined, 0⟩,
    ⟨.white, .italics, 0⟩, ⟨.white, .underlinedItalics, 0⟩,
    ⟨.white, .regular, 0⟩, ⟨.white, .underlined, 0⟩,
    ⟨.white, .regular, 4⟩, ⟨.white, .underlined, 4⟩,
    ⟨.white, .regular, 8⟩, ⟨.white, .underlined, 8⟩,
    ⟨.white, .regular, 12⟩, ⟨.white, .underlined, 12⟩,
    ⟨.white, .regular, 16⟩, ⟨.white, .underlined, 16⟩,
    ⟨.white, .regular, 20⟩, ⟨.white, .underlined, 20⟩,
    ⟨.white, .regular, 24⟩, ⟨.white, .underlined, 24⟩,
    ⟨.white, .regular, 28⟩, ⟨.white, .underlined, 28⟩]

def ofIndex (index : Nat) : Style :=
  table[index]?.getD ⟨.white, .regular, 0⟩

end Style

/-- The row numbers, from 1, that preamble codes address, by the low three bits of the first
byte and bit 5 of the second. Number 1 of the list is unused. -/
def preambleRows : List Int :=
  [11, -1, 1, 2, 3, 4, 12, 13, 14, 15, 5, 6, 7, 8, 9, 10]

/-- Where the row of a preamble code stands in the list. -/
def preambleIndex (first second : UInt8) : Nat :=
  2 * (first.toNat % 8) + second.toNat / 32 % 2

/-- The row that a preamble code addresses, counted from 0. -/
def preambleRow? (first second : UInt8) : Option (Fin screenRows) := do
  let number ← preambleRows[preambleIndex first second]?
  if h : number.toNat - 1 < screenRows then
    if 0 < number then some ⟨number.toNat - 1, h⟩ else none
  else none

inductive Control where
  | resumeLoading
  | deleteToEndOfRow
  | rollUp (depth : Nat)
  | resumeDirect
  | resumeText
  | eraseDisplayed
  | carriageReturn
  | eraseHidden
  | endOfCaption
  deriving DecidableEq, Repr

namespace Control

def ofByte? (byte : UInt8) : Option Control :=
  match byte.toNat with
  | 0x20 => some resumeLoading
  | 0x24 => some deleteToEndOfRow
  | 0x25 => some (rollUp 2)
  | 0x26 => some (rollUp 3)
  | 0x27 => some (rollUp 4)
  | 0x29 => some resumeDirect
  | 0x2b => some resumeText
  | 0x2c => some eraseDisplayed
  | 0x2d => some carriageReturn
  | 0x2e => some eraseHidden
  | 0x2f => some endOfCaption
  | _ => none

end Control

inductive Code where
  /-- Place the cursor. -/
  | preamble (row : Option (Fin screenRows)) (style : Style)
  /-- Change the style inside a row. -/
  | midRow (style : Style)
  | control (control : Control)
  | tabOffset
  | characters (first second : UInt8)
  | unknown (first second : UInt8)
  deriving DecidableEq, Repr

namespace Code

def isPreamble (first second : UInt8) : Bool :=
  (first == 0x10 && 0x40 ≤ second && second ≤ 0x5f) ||
    (0x11 ≤ first && first ≤ 0x17 && 0x40 ≤ second && second ≤ 0x7f)

def isMidRow (first second : UInt8) : Bool :=
  (first == 0x11 && 0x20 ≤ second && second ≤ 0x2f) ||
    (first == 0x17 && 0x2e ≤ second && second ≤ 0x2f)

def isControl (first : UInt8) : Bool :=
  first == 0x14 || first == 0x15 || first == 0x1c

def isTabOffset (first second : UInt8) : Bool :=
  (first == 0x17 || first == 0x1f) && 0x21 ≤ second && second ≤ 0x23

def ofPair (first second : UInt8) : Code :=
  if isPreamble first second then
    preamble (preambleRow? first second) (Style.ofIndex (second.toNat % 32))
  else if isMidRow first second then midRow (Style.ofIndex (second.toNat - 0x20))
  else if isControl first then
    match Control.ofByte? second with
    | some c => control c
    | none => unknown first second
  else if isTabOffset first second then tabOffset
  else if 0x20 ≤ first then characters first second
  else unknown first second

end Code

end ClosedCaptions
