import ClosedCaptions.Layout.Basic
import ClosedCaptions.Sequence.FrameRate

/-!
# Sequence header

The fixed leading fields of an MPEG-2 sequence header, 62 bits in all. Quantiser matrices may
follow and are left alone.
-/

namespace ClosedCaptions

structure SequenceHeader where
  horizontalSize : UInt16
  verticalSize : UInt16
  aspectRatio : UInt8
  frameRateCode : UInt8
  bitRate : UInt32
  vbvBufferSize : UInt16
  constrained : Bool
  deriving DecidableEq, Repr

namespace SequenceHeader

def blank : SequenceHeader :=
  ⟨0, 0, 0, 0, 0, 0, false⟩

def layout (h : SequenceHeader) : Layout SequenceHeader := do
  let horizontalSize ← Layout.uint16 12 "horizontal_size_value" h.horizontalSize
  let verticalSize ← Layout.uint16 12 "vertical_size_value" h.verticalSize
  let aspectRatio ← Layout.uint8 4 "aspect_ratio_information" h.aspectRatio
  let frameRateCode ← Layout.uint8 4 "frame_rate_code" h.frameRateCode
  let bitRate ← Layout.uint32 18 "bit_rate_value" h.bitRate
  Layout.fixed 1 "marker_bit" 1
  let vbvBufferSize ← Layout.uint16 10 "vbv_buffer_size_value" h.vbvBufferSize
  let constrained ← Layout.flag "constrained_parameters_flag" h.constrained
  return ⟨horizontalSize, verticalSize, aspectRatio, frameRateCode, bitRate, vbvBufferSize,
    constrained⟩

/-- Parse what follows the start code. -/
def read {σ : Type} (bytes : List UInt8) : Procedure σ SequenceHeader :=
  .locally (Reader.ofBytes bytes) blank.layout.read

/-- Overwrite the leading bytes of a payload. -/
def write (h : SequenceHeader) : Procedure (List UInt8) Unit :=
  .overwriting do
    let _ ← h.layout.write
    return

/-- The frame rate of the header alone. -/
def frameRate? (h : SequenceHeader) : Option (Nat × Nat) :=
  tableRate? h.frameRateCode.toNat

end SequenceHeader

end ClosedCaptions
