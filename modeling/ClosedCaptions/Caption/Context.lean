import ClosedCaptions.Caption.Code
import ClosedCaptions.Procedure

/-!
# Caption context

The state that the byte pairs of one caption service work on: two screens of which one is
displayed, the cursor, the display mode, and the text of the screen that was reaped last.
-/

namespace ClosedCaptions

inductive Mode where
  | popOn
  | paintOn
  | rollUp
  | text
  deriving DecidableEq, Repr

structure Context where
  /-- Problems from this severity on are failures. -/
  failLevel : Severity
  screens : Vector Screen 2
  /-- The screen that is displayed. -/
  active : Fin 2
  cursorRow : Fin screenRows
  cursorColumn : Nat
  color : Color
  font : Font
  /-- The text of the screen reaped last. -/
  buffer : String
  reaped : Bool
  /-- The depth of the roll-up window. -/
  rollup : Nat
  mode : Mode
  /-- The last command, which is ignored when it is repeated. -/
  previous : UInt8 × UInt8

namespace Context

def initial : Context where
  failLevel := .error
  screens := Vector.replicate 2 .blank
  active := 0
  cursorRow := 0
  cursorColumn := 0
  color := .white
  font := .regular
  buffer := ""
  reaped := false
  rollup := 0
  mode := .popOn
  previous := (0, 0)

/-- The screen that is not displayed. -/
def hidden (c : Context) : Fin 2 :=
  1 - c.active

/-- The screen that new text goes to: the hidden one in pop-on mode, the displayed one
otherwise. -/
def writing (c : Context) : Fin 2 :=
  match c.mode with
  | .popOn => c.hidden
  | .paintOn | .rollUp | .text => c.active

/-- The screen that is not written to. -/
def spare (c : Context) : Fin 2 :=
  1 - c.writing

def screen (c : Context) (i : Fin 2) : Screen :=
  c.screens[i]

def modifyScreen (c : Context) (i : Fin 2) (f : Screen → Screen) : Context :=
  { c with screens := c.screens.set i (f (c.screen i)) }

/-- Characters of a row, byte by byte, without the spaces at the front. -/
def trimmedText (text : List UInt8) : List Char :=
  (text.dropWhile (· = 0x20)).map Entry.charOfByte

/-- The text of a screen: its used rows without leading spaces, with line breaks between. -/
def screenText (s : Screen) : String :=
  String.ofList (lineBreak.intercalate (s.usedRows.map fun r ↦ trimmedText (s.rowText r)))

/-- Take the text of the displayed screen. -/
def reap (c : Context) : Context :=
  { c with buffer := screenText (c.screen c.active), reaped := true }

/-- Scroll the writing screen around the cursor. Text mode does not scroll. -/
def rollUp (c : Context) : Context :=
  if c.mode = .text then c
  else c.modifyScreen c.writing fun s ↦ s.rollUp c.cursorRow c.rollup

/-- Empty both screens and go back to pop-on mode. -/
def flush (c : Context) : Context :=
  { c with
    screens := c.screens.map Screen.clear
    buffer := ""
    reaped := true
    mode := .popOn }

def markCursorRow (c : Context) : Context :=
  c.modifyScreen c.writing fun s ↦ s.markUsed c.cursorRow

/-- Write a character at the cursor, and tell whether it was written. -/
def writeChar (char : UInt8) : Procedure Context Bool := do
  let c ← Procedure.get
  match (c.screen c.writing).write c.cursorRow c.cursorColumn ⟨char, c.color, c.font⟩ with
  | .ok screen =>
    Procedure.modify fun c ↦ c.modifyScreen c.writing fun _ ↦ screen
    return true
  | .error problem =>
    Procedure.tolerate c.failLevel problem
    return false

/-- Write a character at the cursor, and move on if it was written. -/
def putChar (char : UInt8) : Procedure Context Unit := do
  if ← writeChar char then
    Procedure.modify fun c ↦ { c with cursorColumn := c.cursorColumn + 1 }

def putSpaces : Nat → Procedure Context Unit
  | 0 => return
  | count + 1 => do
    putChar 0x20
    putSpaces count

/-- End the row at the cursor. -/
def endRow : Procedure Context Unit := do
  let _ ← writeChar 0
  return

/-- Place the cursor in a row, after an indent of spaces. -/
def applyPreamble (row : Option (Fin screenRows)) (style : Style) : Procedure Context Unit := do
  match row with
  | none => Procedure.log .invalidRow
  | some row =>
    Procedure.modify fun c ↦
      { c with cursorRow := row, color := style.color, font := style.font, cursorColumn := 0 }
    putSpaces style.indent

/-- A change of style takes one space on the screen. -/
def applyMidRow (style : Style) : Procedure Context Unit := do
  Procedure.modify fun c ↦ { c with color := style.color, font := style.font }
  Procedure.modify markCursorRow
  putChar 0x20

def applyControl : Control → Procedure Context Unit
  | .resumeLoading => Procedure.modify fun c ↦ { c with mode := .popOn }
  | .deleteToEndOfRow => endRow
  | .rollUp depth => Procedure.modify fun c ↦ { c with rollup := depth, mode := .rollUp }
  | .resumeDirect => Procedure.modify fun c ↦ { c with mode := .paintOn }
  | .resumeText => Procedure.modify fun c ↦ { c with mode := .text }
  | .eraseDisplayed => Procedure.modify fun c ↦ c.modifyScreen c.active Screen.clear
  | .eraseHidden => Procedure.modify fun c ↦ c.modifyScreen c.hidden Screen.clear
  | .carriageReturn => do
    Procedure.log .carriageReturn
    Procedure.modify fun c ↦ { c.reap.rollUp with cursorColumn := 0 }
  | .endOfCaption => do
    Procedure.log .endOfCaption
    Procedure.modify fun c ↦ { c with active := c.hidden, cursorColumn := 0 }.reap

/-- Write one or two characters and end the row after them. Characters may repeat, so no
command counts as the previous one any more. -/
def applyCharacters (first second : UInt8) : Procedure Context Unit := do
  Procedure.modify markCursorRow
  putChar first
  if second ≠ 0 then
    putChar second
  endRow
  Procedure.modify fun c ↦ { c with previous := (0, 0) }
  Procedure.log (.characters first second)

/-- Remember a command, so that its repetition is ignored. -/
def remember (first second : UInt8) : Procedure Context Unit :=
  Procedure.modify fun c ↦ { c with previous := (first, second) }

def apply (first second : UInt8) : Code → Procedure Context Unit
  | .preamble row style => do
    applyPreamble row style
    remember first second
  | .midRow style => do
    applyMidRow style
    remember first second
  | .control control => do
    applyControl control
    remember first second
  | .tabOffset => remember first second
  | .characters first second => applyCharacters first second
  | .unknown first second => do
    Procedure.log (.unknownCommand first second)
    remember first second

/-- Apply one byte pair without parity. -/
def processPair (first second : UInt8) : Procedure Context Unit := do
  let c ← Procedure.get
  if (first, second) = c.previous then
    return
  else
    apply first second (Code.ofPair first second)

end Context

end ClosedCaptions
