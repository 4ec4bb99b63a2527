import ClosedCaptions.Caption.Parity
import ClosedCaptions.Error

/-!
# Line 21 byte pairs

The packets of a caption block as the decoder sees them: three bytes, of which the first says
whether the packet counts and what it holds. A pair is checked and freed of its parity bits.
-/

namespace ClosedCaptions

/-- A packet as its three bytes. -/
structure Triple where
  marker : UInt8
  first : UInt8
  second : UInt8
  deriving DecidableEq, Repr

namespace Triple

/-- Stands for a byte that failed its parity check. -/
def solidBlank : UInt8 := 0x7F

def isValid (t : Triple) : Bool :=
  t.marker.toNat.testBit 2

def type (t : Triple) : Nat :=
  t.marker.toNat % 4

def isLine21 (t : Triple) : Bool :=
  t.type == 0 || t.type == 1

/-- Replace the first byte when its parity is wrong; only line 21 pairs have parity. -/
def repair (t : Triple) : Triple :=
  if t.isLine21 && !Parity.isOdd t.first then { t with first := solidBlank } else t

/-- Padding carries no data under one of three markers. -/
def isPadding (t : Triple) : Bool :=
  (t.marker == 0xFA || t.marker == 0xFC || t.marker == 0xFD) &&
    Parity.strip t.first == 0 && Parity.strip t.second == 0

def strip (t : Triple) : Triple :=
  { t with first := Parity.strip t.first, second := Parity.strip t.second }

/-- Check a packet: the reason why it is refused, if it is, and the packet as the check leaves
it. A wrong parity refuses the packet when it is the second byte's, and only replaces the first
byte when it is that one's. -/
def check (t : Triple) : Option Error × Triple :=
  if !t.isValid then (some .invalidPair, t)
  else if t.isLine21 && !Parity.isOdd t.second then (some (.parityFailed t.second), t)
  else
    let t := t.repair
    if t.isPadding || !t.isLine21 then (some (.unsupported t.type), t)
    else (none, t.strip)

/-- The whole triples at the front of the bytes, and how many bytes are left over. -/
def split : List UInt8 → List Triple × Nat
  | a :: b :: c :: rest =>
    let (triples, extra) := split rest
    (⟨a, b, c⟩ :: triples, extra)
  | rest => ([], rest.length)

end Triple

end ClosedCaptions
