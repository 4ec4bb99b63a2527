import ClosedCaptions.Error

/-!
# Caption screen

A grid of 15 rows and 32 columns. Each row has one more cell, for the NUL that ends its text.
A set of row numbers tells the rows in use: a row outside it is not read, but its cells stay as they
are, and are read again when the row comes back into use without being cleared.
-/

namespace ClosedCaptions

inductive Color where
  | white
  | green
  | blue
  | cyan
  | red
  | yellow
  | magenta
  | userDefined
  | black
  | transparent
  deriving DecidableEq, Repr

inductive Font where
  | regular
  | italics
  | underlined
  | underlinedItalics
  deriving DecidableEq, Repr

structure Cell where
  char : UInt8
  color : Color
  font : Font
  deriving DecidableEq, Repr

def Cell.blank : Cell :=
  ⟨0, .white, .regular⟩

abbrev screenRows : Nat := 15

abbrev screenColumns : Nat := 32

/-- The cells of a row, the last one for the terminator. -/
abbrev Row := Vector Cell (screenColumns + 1)

namespace Row

def blank : Row :=
  Vector.replicate _ .blank

def chars (row : Row) : List UInt8 :=
  row.toList.map Cell.char

/-- The characters up to the first NUL. -/
def text (row : Row) : List UInt8 :=
  row.chars.takeWhile (· ≠ 0)

end Row

/-- A set of row numbers. -/
abbrev RowSet := BitVec 16

namespace RowSet

def bit (row : Nat) : RowSet :=
  1#16 <<< row

def contains (rows : RowSet) (row : Nat) : Bool :=
  rows.getLsbD row

def insert (rows : RowSet) (row : Nat) : RowSet :=
  rows ||| bit row

def erase (rows : RowSet) (row : Nat) : RowSet :=
  rows &&& ~~~bit row

end RowSet

structure Screen where
  rows : Vector Row screenRows
  used : RowSet
  deriving DecidableEq

namespace Screen

def blank : Screen :=
  ⟨Vector.replicate _ .blank, 0⟩

/-- A row of the screen; a row below the last one reads as blank. -/
def row (s : Screen) (r : Nat) : Row :=
  s.rows[r]?.getD .blank

def setRow (s : Screen) (r : Nat) (row : Row) : Screen :=
  { s with rows := s.rows.setIfInBounds r row }

def isUsed (s : Screen) (r : Nat) : Bool :=
  r < screenRows && RowSet.contains s.used r

def markUsed (s : Screen) (r : Nat) : Screen :=
  if r < screenRows then { s with used := RowSet.insert s.used r } else s

def markUnused (s : Screen) (r : Nat) : Screen :=
  if r < screenRows then { s with used := RowSet.erase s.used r } else s

/-- Take every row out of use. The cells stay. -/
def clear (s : Screen) : Screen :=
  { s with used := 0 }

/-- Write one cell, if its column is on the screen. The terminator column takes NUL alone. -/
def write (s : Screen) (r column : Nat) (cell : Cell) : Except Error Screen :=
  if column < screenColumns ∨ (column = screenColumns ∧ cell.char = 0) then
    .ok (s.setRow r ((s.row r).setIfInBounds column cell))
  else
    .error (.screenWidthExceeded column)

def rowText (s : Screen) (r : Nat) : List UInt8 :=
  (s.row r).text

def copyRow (s : Screen) (source target : Nat) : Screen :=
  s.setRow target (s.row source)

/-- The rows in use, from the top. -/
def usedRows (s : Screen) : List Nat :=
  (List.range screenRows).filter s.isUsed

/-- Copy the row below, and its use. -/
def pullUp (s : Screen) (r : Nat) : Screen :=
  let copied := s.copyRow (r + 1) r
  if copied.isUsed (r + 1) then copied.markUsed r else copied

/-- The rows of the roll-up window, from the top: the row `bottom` and those above it, `depth` rows
at most, and none of them above the screen. -/
def window (bottom depth : Nat) : List Nat :=
  let kept := min (bottom + 1) depth
  (List.range kept).map fun i ↦ bottom + 1 + i - kept

/-- Scroll the rows of the window up by one: each takes the row below it, with its use. Rows above
the window and the row `bottom` go out of use. -/
def rollUp (s : Screen) (bottom depth : Nat) : Screen :=
  let rows := window bottom depth
  let cleared := (List.range (bottom - rows.length)).foldl markUnused s
  let moved := if cleared.used = 0 then cleared else rows.foldl pullUp cleared
  moved.markUnused bottom

end Screen

end ClosedCaptions
