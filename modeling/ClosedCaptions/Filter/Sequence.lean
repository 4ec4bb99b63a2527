import ClosedCaptions.Sequence.AspectRatio
import ClosedCaptions.Sequence.Header
import ClosedCaptions.Stream.StreamUnit

/-!
# Sequence filter

Rewrites the display aspect ratio and the frame rate in the sequence header and the sequence
extension of a fragment, in place.
-/

namespace ClosedCaptions

structure SequenceFilter where
  aspectRatio : Option (Nat × Nat)
  frameRate : Option (Nat × Nat)
  /-- A header without an extension was reported. -/
  warned : Bool
  rewritten : Nat
  deriving DecidableEq, Repr

namespace SequenceFilter

def new (aspectRatio frameRate : Option (Nat × Nat)) : SequenceFilter :=
  ⟨aspectRatio, frameRate, false, 0⟩

def isActive (f : SequenceFilter) : Bool :=
  f.aspectRatio.isSome || f.frameRate.isSome

/-- A ratio without a zero term; others are ignored. -/
def usable? (ratio : Option (Nat × Nat)) : Option (Nat × Nat) :=
  ratio.filter fun (num, den) ↦ num ≠ 0 && den ≠ 0

def codedRate? (f : SequenceFilter) : Option CodedRate :=
  (usable? f.frameRate).map fun (num, den) ↦ CodedRate.nearest num den

def applyToHeader (f : SequenceFilter) (h : SequenceHeader) : SequenceHeader :=
  let h :=
    match usable? f.aspectRatio with
    | some (num, den) => { h with aspectRatio := UInt8.ofNat (aspectRatioCode num den) }
    | none => h
  match f.codedRate? with
  | some rate => { h with frameRateCode := UInt8.ofNat rate.code }
  | none => h

def applyToExtension (f : SequenceFilter) (e : SequenceExtension) : SequenceExtension :=
  match f.codedRate? with
  | some rate => { e with frameRateN := UInt8.ofNat rate.n, frameRateD := UInt8.ofNat rate.d }
  | none => e

/-- A filter at work on the units of a fragment. -/
structure Rewriting where
  filter : SequenceFilter
  units : List StreamUnit
  deriving DecidableEq, Repr

namespace Rewriting

def dataAt (r : Rewriting) (index : Nat) : List UInt8 :=
  (r.units[index]?.map StreamUnit.data).getD []

def setDataAt (index : Nat) (data : List UInt8) (r : Rewriting) : Rewriting :=
  { r with units := r.units.modify index fun unit ↦ { unit with data := data } }

/-- Overwrite the data of one unit. -/
def overwriteAt (index : Nat) (p : Procedure (List UInt8) Unit) : Procedure Rewriting Unit :=
  .focus (·.dataAt index) (setDataAt index) p

/-- Report once that a header has no extension. -/
def warnOnce : Procedure Rewriting Unit := do
  let r ← Procedure.get
  if !r.filter.warned then
    Procedure.log .missingExtension
    Procedure.modify fun r ↦ { r with filter := { r.filter with warned := true } }

/-- Rewrite the first sequence header and the first sequence extension. -/
def rewriteAt (header extension : Nat) : Procedure Rewriting Unit := do
  let r ← Procedure.get
  let h ← SequenceHeader.read (r.dataAt header)
  let e ← SequenceExtension.read (r.dataAt extension)
  let h := r.filter.applyToHeader h
  let e := r.filter.applyToExtension e
  Procedure.log (.sequenceRewritten h.aspectRatio.toNat h.frameRateCode.toNat e.frameRateN.toNat
    e.frameRateD.toNat)
  overwriteAt header h.write
  overwriteAt extension e.write
  Procedure.modify fun r ↦
    { r with filter := { r.filter with rewritten := r.filter.rewritten + 1 } }

/-- Rewrite the fragment, and tell whether it was. A fragment without a header and an extension
is left alone. -/
def rewrite : Procedure Rewriting Bool := do
  let r ← Procedure.get
  if !r.filter.isActive then
    return false
  else
    match r.units.findIdx? StreamUnit.isSequenceHeader,
      r.units.findIdx? StreamUnit.isSequenceExtension with
    | some header, some extension =>
      rewriteAt header extension
      return true
    | some _, none =>
      warnOnce
      return false
    | none, _ => return false

end Rewriting

end SequenceFilter

end ClosedCaptions
