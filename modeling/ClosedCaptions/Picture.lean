import ClosedCaptions.Layout.Basic

/-!
# Picture header

The leading fields of an MPEG-2 picture header. The temporal reference is the place of the
picture in the display order of its group.
-/

namespace ClosedCaptions

structure PictureHeader where
  temporalReference : UInt16
  codingType : UInt8
  vbvDelay : UInt16
  deriving DecidableEq, Repr

namespace PictureHeader

def blank : PictureHeader :=
  ⟨0, 0, 0⟩

def layout (h : PictureHeader) : Layout PictureHeader := do
  let temporalReference ← Layout.uint16 10 "temporal_reference" h.temporalReference
  let codingType ← Layout.uint8 3 "picture_coding_type" h.codingType
  let vbvDelay ← Layout.uint16 16 "vbv_delay" h.vbvDelay
  return ⟨temporalReference, codingType, vbvDelay⟩

/-- Parse what follows the start code. -/
def read {σ : Type} (bytes : List UInt8) : Procedure σ PictureHeader :=
  .locally (Reader.ofBytes bytes) blank.layout.read

def codingChar (h : PictureHeader) : Char :=
  match h.codingType.toNat with
  | 1 => 'I'
  | 2 => 'P'
  | 3 => 'B'
  | _ => '?'

end PictureHeader

end ClosedCaptions
