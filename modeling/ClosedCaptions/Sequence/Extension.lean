import ClosedCaptions.Layout.Basic

/-!
# Sequence extension

The fields that MPEG-2 adds to a sequence header, 48 bits in all.
-/

namespace ClosedCaptions

structure SequenceExtension where
  profileAndLevel : UInt8
  progressive : Bool
  chromaFormat : UInt8
  horizontalSize : UInt8
  verticalSize : UInt8
  bitRate : UInt16
  vbvBufferSize : UInt8
  lowDelay : Bool
  frameRateN : UInt8
  frameRateD : UInt8
  deriving DecidableEq, Repr

namespace SequenceExtension

/-- The identifier that sets a sequence extension apart from other extensions. -/
def identifier : Nat := 1

def blank : SequenceExtension :=
  ⟨0, false, 0, 0, 0, 0, 0, false, 0, 0⟩

def layout (e : SequenceExtension) : Layout SequenceExtension := do
  Layout.fixed 4 "extension_start_code_identifier" identifier
  let profileAndLevel ← Layout.uint8 8 "profile_and_level_indication" e.profileAndLevel
  let progressive ← Layout.flag "progressive_sequence" e.progressive
  let chromaFormat ← Layout.uint8 2 "chroma_format" e.chromaFormat
  let horizontalSize ← Layout.uint8 2 "horizontal_size_extension" e.horizontalSize
  let verticalSize ← Layout.uint8 2 "vertical_size_extension" e.verticalSize
  let bitRate ← Layout.uint16 12 "bit_rate_extension" e.bitRate
  Layout.fixed 1 "marker_bit" 1
  let vbvBufferSize ← Layout.uint8 8 "vbv_buffer_size_extension" e.vbvBufferSize
  let lowDelay ← Layout.flag "low_delay" e.lowDelay
  let frameRateN ← Layout.uint8 2 "frame_rate_extension_n" e.frameRateN
  let frameRateD ← Layout.uint8 5 "frame_rate_extension_d" e.frameRateD
  return ⟨profileAndLevel, progressive, chromaFormat, horizontalSize, verticalSize, bitRate,
    vbvBufferSize, lowDelay, frameRateN, frameRateD⟩

/-- Parse what follows the start code. -/
def read {σ : Type} (bytes : List UInt8) : Procedure σ SequenceExtension :=
  .locally (Reader.ofBytes bytes) blank.layout.read

/-- Overwrite the leading bytes of a payload. -/
def write (e : SequenceExtension) : Procedure (List UInt8) Unit :=
  .overwriting do
    let _ ← e.layout.write
    return

end SequenceExtension

end ClosedCaptions
