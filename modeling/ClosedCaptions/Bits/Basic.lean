/-!
# Bits

Numbers and bytes as lists of bits, most significant bit first.
-/

namespace ClosedCaptions.Bits

/-- The low `width` bits of a number. -/
def ofNat : Nat → Nat → List Bool
  | 0, _ => []
  | width + 1, value => value.testBit width :: ofNat width value

/-- The number that the bits spell. -/
def toNat (bits : List Bool) : Nat :=
  bits.foldl (fun value bit ↦ 2 * value + bit.toNat) 0

def ofBytes (bytes : List UInt8) : List Bool :=
  bytes.flatMap fun byte ↦ ofNat 8 byte.toNat

/-- The complete bytes; up to seven bits at the end may be left over. -/
def toBytes : List Bool → List UInt8
  | a :: b :: c :: d :: e :: f :: g :: h :: rest =>
    UInt8.ofNat (toNat [a, b, c, d, e, f, g, h]) :: toBytes rest
  | _ => []

/-- There are `count` bits at least. -/
def atLeast : Nat → List Bool → Bool
  | 0, _ => true
  | _ + 1, [] => false
  | count + 1, _ :: bits => atLeast count bits

theorem atLeast_eq (count : Nat) (bits : List Bool) :
    atLeast count bits = decide (count ≤ bits.length) := by
  induction count generalizing bits with
  | zero => simp [atLeast]
  | succ count ih => cases bits <;> simp [atLeast, ih]

@[simp]
theorem length_ofNat (width value : Nat) : (ofNat width value).length = width := by
  induction width with
  | zero => rfl
  | succ width ih => simp [ofNat, ih]

@[simp]
theorem length_ofBytes (bytes : List UInt8) : (ofBytes bytes).length = 8 * bytes.length := by
  induction bytes with
  | nil => rfl
  | cons byte bytes ih =>
    simp only [ofBytes, List.flatMap_cons, List.length_append, length_ofNat] at ih ⊢
    simp only [ih, List.length_cons]
    omega

end ClosedCaptions.Bits
