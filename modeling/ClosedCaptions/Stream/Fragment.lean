import ClosedCaptions.Stream.StreamUnit

/-!
# Fragments

A stream falls into fragments. A fragment holds one picture at most, with the headers in front of
it and what follows it up to the next picture or header.
-/

namespace ClosedCaptions.Fragment

/-- The unit opens a new fragment if the current one holds a picture. -/
def opens (unit : StreamUnit) : Bool :=
  unit.isPicture || unit.isSequenceHeader || unit.isGroup || unit.isSequenceEnd

/-- The fragments of the units, after those in `done`, the latest first, and the units in
`current`, the latest first. `hasPicture` tells whether one of them is a picture. -/
def splitFrom (done : List (List StreamUnit)) (current : List StreamUnit) (hasPicture : Bool) :
    List StreamUnit → List (List StreamUnit)
  | [] => (if current.isEmpty then done else current.reverse :: done).reverse
  | unit :: units =>
    if hasPicture && opens unit then
      splitFrom (current.reverse :: done) [unit] unit.isPicture units
    else
      splitFrom done (unit :: current) (hasPicture || unit.isPicture) units

def split (units : List StreamUnit) : List (List StreamUnit) :=
  splitFrom [] [] false units

end ClosedCaptions.Fragment
