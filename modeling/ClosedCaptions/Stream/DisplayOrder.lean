import ClosedCaptions.Picture

/-!
# Display order

Pictures come in the order in which they are decoded, with their place in the display order of
their group. What is attached to the pictures of a group is kept until the group is complete and
then given out in display order.
-/

namespace ClosedCaptions

structure DisplayOrder where
  /-- The pictures so far. -/
  pictures : Nat
  /-- The place of the first picture of the group. -/
  base : Nat
  /-- The place of the latest picture. -/
  current : Nat
  /-- What the group has so far, the latest first, each with the place of its picture. -/
  waiting : List (Nat × List UInt8)
  deriving DecidableEq, Repr

namespace DisplayOrder

def start : DisplayOrder :=
  ⟨0, 0, 0, []⟩

def addPicture (o : DisplayOrder) (h : PictureHeader) : DisplayOrder :=
  { o with
    pictures := o.pictures + 1
    current := o.base + h.temporalReference.toNat }

def newGroup (o : DisplayOrder) : DisplayOrder :=
  { o with base := o.pictures }

/-- Attach bytes to the latest picture. -/
def attach (o : DisplayOrder) (bytes : List UInt8) : DisplayOrder :=
  { o with waiting := (o.current, bytes) :: o.waiting }

/-- What waits, in display order. What belongs to one picture keeps its order. -/
def due (o : DisplayOrder) : List (Nat × List UInt8) :=
  o.waiting.reverse.mergeSort fun a b ↦ a.1 ≤ b.1

def clear (o : DisplayOrder) : DisplayOrder :=
  { o with waiting := [] }

end DisplayOrder

end ClosedCaptions
