import ClosedCaptions.SideData
import ClosedCaptions.Stream.StreamUnit

/-!
# Caption filter

Passes, removes or extracts the captions in the user data units of a fragment, the units that
belong to one coded picture.
-/

namespace ClosedCaptions

inductive CaptionAction where
  | pass
  | remove
  | extract
  deriving DecidableEq, Repr

structure CaptionFilter where
  action : CaptionAction
  /-- Problems from this severity on are failures. -/
  failLevel : Severity
  unitsRemoved : Nat
  packetsExtracted : Nat
  deriving DecidableEq, Repr

namespace CaptionFilter

def new (action : CaptionAction) (failLevel : Severity) : CaptionFilter :=
  ⟨action, failLevel, 0, 0⟩

/-- The length of an identifier, a type code and a packet count. No shorter unit has captions. -/
def leastSize : Nat := 6

/-- The user data of a unit and its caption block, if the unit is a caption unit. User data that
cannot be decoded is a problem and not a caption unit. -/
def captions? (unit : StreamUnit) : Procedure CaptionFilter (Option (UserData × CcData)) := do
  if !unit.isUserData || unit.data.length < leastSize then
    return none
  else
    match ← (UserData.read unit.data).attempt with
    | .ok data => return data.ccData?.map (data, ·)
    | .error cause =>
      let filter ← Procedure.get
      Procedure.tolerate filter.failLevel (.unreadableUserData cause)
      return none

/-- The units that stay, last first, and whether a caption unit was dropped. -/
abbrev Removal := List StreamUnit × Bool

/-- Keep a unit, unless it is the first caption unit. -/
def keepUnit (r : Removal) (unit : StreamUnit) : Procedure CaptionFilter Removal := do
  if r.2 then
    return (unit :: r.1, true)
  else
    match ← captions? unit with
    | some _ =>
      Procedure.log (.captionsRemoved unit.data.length)
      Procedure.modify fun f ↦ { f with unitsRemoved := f.unitsRemoved + 1 }
      return (r.1, true)
    | none => return (unit :: r.1, false)

/-- Drop the first caption unit. -/
def remove (units : List StreamUnit) : Procedure CaptionFilter (List StreamUnit) :=
  (·.1.reverse) <$> Procedure.fold keepUnit ([], false) units

/-- The packets of a unit as side data, if it is a caption unit. -/
def extractUnit (unit : StreamUnit) : Procedure CaptionFilter (List (List UInt8)) := do
  match ← captions? unit with
  | some (data, block) =>
    Procedure.log (.captionsExtracted unit.data.length)
    Procedure.modify fun f ↦ { f with packetsExtracted := f.packetsExtracted + block.count.toNat }
    let bytes ← Procedure.locally [] do
      SideData.append data
      Procedure.get
    return [bytes]
  | none => return []

/-- The packets of all caption units, if there are any such units. -/
def extract (units : List StreamUnit) : Procedure CaptionFilter (Option (List UInt8)) := do
  let found ← Procedure.gather extractUnit units
  return if found.isEmpty then none else some found.flatten

/-- Apply the action to a fragment: the units that stay, and the side data if any captions were
extracted. -/
def apply (units : List StreamUnit) :
    Procedure CaptionFilter (List StreamUnit × Option (List UInt8)) := do
  let filter ← Procedure.get
  match filter.action with
  | .pass => return (units, none)
  | .remove =>
    let kept ← remove units
    return (kept, none)
  | .extract =>
    let sideData ← extract units
    return (units, sideData)

end CaptionFilter

end ClosedCaptions
