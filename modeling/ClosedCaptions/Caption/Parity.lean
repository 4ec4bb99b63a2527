/-!
# Odd parity

A line 21 byte has seven data bits, and a top bit that makes the number of set bits odd.
-/

namespace ClosedCaptions.Parity

/-- The number of set bits is odd. -/
def isOdd (byte : UInt8) : Bool :=
  (List.range 8).foldl (fun odd i ↦ odd ^^ byte.toNat.testBit i) false

def strip (byte : UInt8) : UInt8 :=
  byte &&& 0x7F

/-- Set the top bit as the parity of the data bits demands. -/
def encode (byte : UInt8) : UInt8 :=
  if isOdd (strip byte) then strip byte else strip byte ||| 0x80

end ClosedCaptions.Parity
