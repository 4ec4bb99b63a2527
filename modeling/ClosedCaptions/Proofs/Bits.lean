import ClosedCaptions.Bits.Basic
import Mathlib.Tactic.Ring

/-!
# Bits of numbers and bytes

A number below `2 ^ width` and its `width` bits determine each other, and so do a byte string and
its bits.
-/

namespace ClosedCaptions.Bits

/-! ## Numbers -/

theorem foldl_value (bits : List Bool) (value : Nat) :
    bits.foldl (fun value bit ↦ 2 * value + bit.toNat) value =
      value * 2 ^ bits.length + toNat bits := by
  induction bits generalizing value with
  | nil => simp [toNat]
  | cons bit bits ih =>
    have hzero : toNat (bit :: bits) = (2 * 0 + bit.toNat) * 2 ^ bits.length + toNat bits :=
      ih (2 * 0 + bit.toNat)
    calc
      (bit :: bits).foldl (fun value bit ↦ 2 * value + bit.toNat) value
          = (2 * value + bit.toNat) * 2 ^ bits.length + toNat bits := ih (2 * value + bit.toNat)
      _ = value * 2 ^ (bits.length + 1) + toNat (bit :: bits) := by
        rw [hzero]
        ring

theorem toNat_cons (bit : Bool) (bits : List Bool) :
    toNat (bit :: bits) = 2 ^ bits.length * bit.toNat + toNat bits := by
  rw [toNat, List.foldl_cons, foldl_value]
  ring

theorem toNat_append (xs ys : List Bool) :
    toNat (xs ++ ys) = toNat xs * 2 ^ ys.length + toNat ys := by
  rw [toNat, List.foldl_append, foldl_value]
  rfl

theorem toNat_lt (bits : List Bool) : toNat bits < 2 ^ bits.length := by
  induction bits with
  | nil => simp [toNat]
  | cons bit bits ih =>
    have hbit : bit.toNat ≤ 1 := Nat.le_of_lt_succ bit.toNat_lt
    calc
      toNat (bit :: bits) = 2 ^ bits.length * bit.toNat + toNat bits := toNat_cons bit bits
      _ < 2 ^ bits.length * bit.toNat + 2 ^ bits.length := Nat.add_lt_add_left ih _
      _ ≤ 2 ^ bits.length * 1 + 2 ^ bits.length :=
        Nat.add_le_add_right (Nat.mul_le_mul_left _ hbit) _
      _ = 2 ^ (bits.length + 1) := by ring

/-- Only the low bits count. -/
theorem ofNat_congr {width u v : Nat} (h : ∀ i < width, u.testBit i = v.testBit i) :
    ofNat width u = ofNat width v := by
  induction width with
  | zero => rfl
  | succ width ih =>
    rw [ofNat, ofNat, h width (Nat.lt_succ_self width), ih fun i hi ↦ h i (Nat.lt_succ_of_lt hi)]

theorem ofNat_mod_two_pow (width value : Nat) :
    ofNat width (value % 2 ^ width) = ofNat width value := by
  apply ofNat_congr
  intro i hi
  rw [Nat.testBit_mod_two_pow, decide_eq_true hi, Bool.true_and]

/-- The high bits of a number and then its low bits. -/
theorem ofNat_add (high low value : Nat) :
    ofNat (high + low) value = ofNat high (value / 2 ^ low) ++ ofNat low value := by
  induction high with
  | zero => rw [Nat.zero_add, ofNat, List.nil_append]
  | succ high ih => rw [Nat.succ_add, ofNat, ofNat, ih, Nat.testBit_div_two_pow, List.cons_append]

theorem ofNat_toNat (bits : List Bool) : ofNat bits.length (toNat bits) = bits := by
  induction bits with
  | nil => rfl
  | cons bit bits ih =>
    have hbit (i : Nat) := Nat.testBit_two_pow_mul_add bit.toNat (toNat_lt bits) i
    have htail : ofNat bits.length (2 ^ bits.length * bit.toNat + toNat bits) = bits := by
      rw [ofNat_congr fun i hi ↦ (hbit i).trans (if_pos hi), ih]
    have hhead : (2 ^ bits.length * bit.toNat + toNat bits).testBit bits.length = bit := by
      rw [hbit, if_neg (Nat.lt_irrefl _), Nat.sub_self]
      cases bit <;> rfl
    rw [List.length_cons, ofNat, toNat_cons, hhead, htail]

theorem toNat_ofNat {width value : Nat} (h : value < 2 ^ width) :
    toNat (ofNat width value) = value := by
  induction width generalizing value with
  | zero =>
    have hzero : value = 0 := by simpa using h
    subst hzero
    rfl
  | succ width ih =>
    have hlow : toNat (ofNat width value) = value % 2 ^ width := by
      rw [← ofNat_mod_two_pow, ih (Nat.mod_lt _ (Nat.two_pow_pos width))]
    have hhigh : (value.testBit width).toNat = value / 2 ^ width := by
      have hlt : value / 2 ^ width < 2 := by
        rw [Nat.div_lt_iff_lt_mul (Nat.two_pow_pos width), Nat.mul_comm, ← Nat.pow_succ]
        exact h
      rw [Nat.testBit_eq_decide_div_mod_eq]
      match value / 2 ^ width, hlt with
      | 0, _ | 1, _ => rfl
    calc
      toNat (ofNat (width + 1) value)
          = 2 ^ width * (value.testBit width).toNat + toNat (ofNat width value) := by
        rw [ofNat, toNat_cons, length_ofNat]
      _ = 2 ^ width * (value / 2 ^ width) + value % 2 ^ width := by rw [hhigh, hlow]
      _ = value := Nat.div_add_mod value (2 ^ width)

/-! ## Bytes -/

theorem ofBytes_cons (byte : UInt8) (bytes : List UInt8) :
    ofBytes (byte :: bytes) = ofNat 8 byte.toNat ++ ofBytes bytes := rfl

@[simp]
theorem ofBytes_append (xs ys : List UInt8) : ofBytes (xs ++ ys) = ofBytes xs ++ ofBytes ys :=
  List.flatMap_append

/-- Eight bits in front make one byte. -/
theorem toBytes_append {bits : List Bool} (h : bits.length = 8) (rest : List Bool) :
    toBytes (bits ++ rest) = UInt8.ofNat (toNat bits) :: toBytes rest := by
  match bits, h with
  | [a, b, c, d, e, f, g, i], _ => rfl

/-- Eight bits are those of one byte. -/
theorem ofNat_byte {bits : List Bool} (h : bits.length = 8) :
    ofNat 8 (UInt8.ofNat (toNat bits)).toNat = bits := by
  have hlt := toNat_lt bits
  have hbits := ofNat_toNat bits
  rw [h] at hlt hbits
  rwa [UInt8.toNat_ofNat_of_lt' hlt]

theorem toBytes_ofBytes_append (bytes : List UInt8) (rest : List Bool) :
    toBytes (ofBytes bytes ++ rest) = bytes ++ toBytes rest := by
  induction bytes with
  | nil => rfl
  | cons byte bytes ih =>
    have hbyte : toNat (ofNat 8 byte.toNat) = byte.toNat := toNat_ofNat byte.toNat_lt
    calc
      toBytes (ofBytes (byte :: bytes) ++ rest)
          = toBytes (ofNat 8 byte.toNat ++ (ofBytes bytes ++ rest)) := by
        rw [ofBytes_cons, List.append_assoc]
      _ = byte :: toBytes (ofBytes bytes ++ rest) := by
        rw [toBytes_append (length_ofNat 8 _), hbyte, UInt8.ofNat_toNat]
      _ = byte :: bytes ++ toBytes rest := by rw [ih, List.cons_append]

theorem toBytes_ofBytes (bytes : List UInt8) : toBytes (ofBytes bytes) = bytes := by
  have hnil : toBytes [] = [] := rfl
  have happend := toBytes_ofBytes_append bytes []
  rwa [List.append_nil, hnil, List.append_nil] at happend

/-- Whole bytes of bits are the bits of those bytes. -/
theorem ofBytes_toBytes {count : Nat} {bits : List Bool} (h : bits.length = 8 * count) :
    ofBytes (toBytes bits) = bits := by
  induction count generalizing bits with
  | zero =>
    have hnil : bits = [] := List.length_eq_zero_iff.mp h
    subst hnil
    rfl
  | succ count ih =>
    have hfront : (bits.take 8).length = 8 := by
      rw [List.length_take]
      omega
    have hback : (bits.drop 8).length = 8 * count := by
      rw [List.length_drop]
      omega
    calc
      ofBytes (toBytes bits) = ofBytes (toBytes (bits.take 8 ++ bits.drop 8)) := by
        rw [List.take_append_drop]
      _ = bits.take 8 ++ bits.drop 8 := by
        rw [toBytes_append hfront, ofBytes_cons, ofNat_byte hfront, ih hback]
      _ = bits := List.take_append_drop 8 bits

/-- Whole bytes of bits in front. -/
theorem toBytes_append_of_length {count : Nat} {bits : List Bool} (h : bits.length = 8 * count)
    (rest : List Bool) : toBytes (bits ++ rest) = toBytes bits ++ toBytes rest := by
  conv_lhs => rw [← ofBytes_toBytes h]
  rw [toBytes_ofBytes_append]

theorem length_toBytes {count : Nat} {bits : List Bool} (h : bits.length = 8 * count) :
    (toBytes bits).length = count := by
  have hlength := congrArg List.length (ofBytes_toBytes h)
  rw [length_ofBytes, h] at hlength
  omega

theorem toBytes_of_short {bits : List Bool} (h : bits.length < 8) : toBytes bits = [] := by
  apply toBytes.eq_2
  rintro a b c d e f g i rest rfl
  simp only [List.length_cons] at h
  omega

/-- The complete bytes are those of the bits that fill them. -/
theorem ofBytes_toBytes_eq_take (bits : List Bool) :
    ofBytes (toBytes bits) = bits.take (8 * (bits.length / 8)) := by
  have hfront : (bits.take (8 * (bits.length / 8))).length = 8 * (bits.length / 8) :=
    List.length_take_of_le (Nat.mul_div_le _ _)
  have hback : (bits.drop (8 * (bits.length / 8))).length < 8 := by
    rw [List.length_drop]
    omega
  have hbytes : toBytes bits = toBytes (bits.take (8 * (bits.length / 8))) := by
    conv_lhs => rw [← List.take_append_drop (8 * (bits.length / 8)) bits]
    rw [toBytes_append_of_length hfront, toBytes_of_short hback, List.append_nil]
  rw [hbytes, ofBytes_toBytes hfront]

theorem length_toBytes_eq (bits : List Bool) : (toBytes bits).length = bits.length / 8 := by
  have hlength := congrArg List.length (ofBytes_toBytes_eq_take bits)
  rw [length_ofBytes, List.length_take] at hlength
  omega

/-- Whole bytes of bits at the front of a byte string are its first bytes. -/
theorem prefix_ofBytes_iff {count : Nat} {bits : List Bool} {bytes : List UInt8}
    (h : bits.length = 8 * count) :
    bits <+: ofBytes bytes ↔ toBytes bits <+: bytes := by
  constructor
  · intro ⟨rest, hrest⟩
    have hbytes := congrArg toBytes hrest
    rw [toBytes_ofBytes, ← ofBytes_toBytes h, toBytes_ofBytes_append] at hbytes
    exact ⟨toBytes rest, hbytes⟩
  · rintro ⟨rest, rfl⟩
    rw [ofBytes_append, ofBytes_toBytes h]
    exact List.prefix_append _ _

/-- Storing the complete bytes of what stands in front already changes nothing. -/
theorem toBytes_append_drop {bits : List Bool} {bytes : List UInt8} (h : bits <+: ofBytes bytes) :
    toBytes bits ++ bytes.drop (bits.length / 8) = bytes := by
  have hfront : ofBytes (toBytes bits) <+: ofBytes bytes := by
    rw [ofBytes_toBytes_eq_take]
    exact (List.take_prefix _ _).trans h
  have hbytes := (prefix_ofBytes_iff (length_ofBytes _)).mp hfront
  rwa [toBytes_ofBytes, List.prefix_iff_eq_append, length_toBytes_eq] at hbytes

/-- One byte among the bits in front may be changed. -/
theorem prefix_ofBytes_modify {count : Nat} {front old new rest : List Bool} {bytes : List UInt8}
    {change : UInt8 → UInt8} (hfront : front.length = 8 * count) (hold : old.length = 8)
    (hnew : new.length = 8) (hchange : change (UInt8.ofNat (toNat old)) = UInt8.ofNat (toNat new))
    (h : front ++ (old ++ rest) <+: ofBytes bytes) :
    front ++ (new ++ rest) <+: ofBytes (bytes.modify count change) := by
  obtain ⟨back, rfl⟩ := (prefix_ofBytes_iff hfront).mp ((List.prefix_append _ _).trans h)
  have hcount := length_toBytes hfront
  rw [ofBytes_append, ofBytes_toBytes hfront, List.prefix_append_right_inj] at h
  cases back with
  | nil =>
    have hlength := h.length_le
    rw [List.length_append, hold] at hlength
    simp [ofBytes] at hlength
  | cons byte back =>
    obtain ⟨more, hmore⟩ := h
    rw [ofBytes_cons, List.append_assoc] at hmore
    obtain ⟨rfl, hrest⟩ := List.append_inj hmore (by rw [hold, length_ofNat])
    rw [toNat_ofNat byte.toNat_lt, UInt8.ofNat_toNat] at hchange
    have hmodify : (toBytes front ++ byte :: back).modify count change =
        toBytes front ++ UInt8.ofNat (toNat new) :: back := by
      rw [List.modify_eq_take_drop, List.take_left' hcount, List.drop_left' hcount,
        List.modifyHead_cons, hchange]
    rw [hmodify, ofBytes_append, ofBytes_toBytes hfront, ofBytes_cons, ofNat_byte hnew, ← hrest]
    exact ⟨more, by simp⟩

end ClosedCaptions.Bits
