import ClosedCaptions.Sequence.Extension

/-!
# Stream units

An MPEG-2 video elementary stream is a sequence of units, each opened by the bytes `00 00 01`
and a start code.
-/

namespace ClosedCaptions

/-- One unit; `data` is what follows the start code. -/
structure StreamUnit where
  startCode : UInt8
  data : List UInt8
  deriving DecidableEq, Repr

namespace StreamUnit

def pictureCode : UInt8 := 0x00
def userDataCode : UInt8 := 0xB2
def sequenceHeaderCode : UInt8 := 0xB3
def extensionCode : UInt8 := 0xB5
def sequenceEndCode : UInt8 := 0xB7
def groupCode : UInt8 := 0xB8

def isPicture (unit : StreamUnit) : Bool :=
  unit.startCode == pictureCode

def isUserData (unit : StreamUnit) : Bool :=
  unit.startCode == userDataCode

def isSequenceHeader (unit : StreamUnit) : Bool :=
  unit.startCode == sequenceHeaderCode

def isGroup (unit : StreamUnit) : Bool :=
  unit.startCode == groupCode

def isSequenceEnd (unit : StreamUnit) : Bool :=
  unit.startCode == sequenceEndCode

/-- An extension whose identifier, the high half of its first byte, is that of a sequence
extension. -/
def isSequenceExtension (unit : StreamUnit) : Bool :=
  unit.startCode == extensionCode &&
    unit.data.head?.any fun byte ↦ byte.toNat / 16 == SequenceExtension.identifier

/-- The bytes of the unit in a stream. -/
def encode (unit : StreamUnit) : List UInt8 :=
  0 :: 0 :: 1 :: unit.startCode :: unit.data

/-- The bytes of several units in a row. -/
def encodeAll (units : List StreamUnit) : List UInt8 :=
  units.flatMap encode

end StreamUnit

end ClosedCaptions
