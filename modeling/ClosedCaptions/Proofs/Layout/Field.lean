import ClosedCaptions.Layout.Field
import ClosedCaptions.Proofs.Bits
import ClosedCaptions.Proofs.Effect

/-!
# Fields and their bits

A field is read exactly where the bits of a value that it admits stand, and a value that it admits
is written wherever there is room for its bits.
-/

namespace ClosedCaptions

namespace Reader

@[simp]
theorem advance_zero (r : Reader) : r.advance 0 = r := rfl

@[simp]
theorem advance_advance (r : Reader) (m n : Nat) :
    (r.advance m).advance n = r.advance (m + n) := by
  simp only [advance, List.drop_drop, Nat.add_assoc]

@[simp]
theorem remaining_advance (r : Reader) (count : Nat) :
    (r.advance count).remaining = r.remaining.drop count := rfl

theorem effect_bit_eq_ok_iff {r r' : Reader} {b : Bool} :
    bit.effect r = (.ok b, r') ↔ [b] <+: r.remaining ∧ r' = r.advance 1 := by
  rw [bit, Procedure.effect_get_bind]
  cases r.remaining with
  | nil => simp
  | cons head rest =>
    rw [Procedure.effect_modify_bind, Procedure.effect_pure]
    simp [eq_comm]

/-- The bits at the front spell one number of each width. -/
theorem ofNat_prefix_iff {count value : Nat} {bits : List Bool} :
    value < 2 ^ count ∧ Bits.ofNat count value <+: bits ↔
      count ≤ bits.length ∧ value = Bits.toNat (bits.take count) := by
  constructor
  · intro ⟨hvalue, hstart⟩
    have htake := List.prefix_iff_eq_take.mp hstart
    rw [Bits.length_ofNat] at htake
    refine ⟨by simpa using hstart.length_le, ?_⟩
    rw [← htake, Bits.toNat_ofNat hvalue]
  · rintro ⟨hcount, rfl⟩
    have hlength : (bits.take count).length = count := List.length_take_of_le hcount
    have hlt := Bits.toNat_lt (bits.take count)
    have hbits := Bits.ofNat_toNat (bits.take count)
    rw [hlength] at hlt hbits
    refine ⟨hlt, ?_⟩
    rw [hbits]
    exact List.take_prefix count bits

theorem effect_take_eq_ok_iff {r r' : Reader} {count typeWidth value : Nat} :
    (take count typeWidth).effect r = (.ok value, r') ↔
      count ≤ typeWidth ∧ value < 2 ^ count ∧ Bits.ofNat count value <+: r.remaining ∧
        r' = r.advance count := by
  rw [← and_assoc (a := value < 2 ^ count), ofNat_prefix_iff, take]
  by_cases hwide : typeWidth < count
  · simp [hwide]
  · rw [if_neg hwide, Procedure.effect_get_bind, Bits.atLeast_eq]
    by_cases hroom : count ≤ r.remaining.length
    · rw [if_pos (decide_eq_true hroom), Procedure.effect_modify_bind, Procedure.effect_pure]
      simp [Nat.le_of_not_lt hwide, hroom, eq_comm]
    · simp [hroom]

end Reader

namespace Writer

@[simp]
theorem append_nil (w : Writer) : w.append [] = w := by
  simp [append]

@[simp]
theorem append_append (w : Writer) (xs ys : List Bool) :
    (w.append xs).append ys = w.append (xs ++ ys) := by
  simp only [append, List.reverse_append, List.append_assoc, List.length_append, mk.injEq, true_and,
    and_true]
  omega

theorem available_append (w : Writer) (bits : List Bool) :
    (w.append bits).available = w.available - bits.length := by
  simp only [available, append]
  omega

theorem effect_put {w : Writer} {count typeWidth value : Nat} (hroom : count ≤ w.available)
    (hwidth : count ≤ typeWidth) (hvalue : value < 2 ^ count) :
    (put count typeWidth value).effect w = (.ok (), w.append (Bits.ofNat count value)) := by
  have hfits : ¬ Nat.pow 2 count ≤ value := Nat.not_le.mpr hvalue
  rw [put, Procedure.effect_get_bind, if_neg (Nat.not_lt.mpr hroom),
    if_neg (Nat.not_lt.mpr hwidth), if_neg hfits, Procedure.effect_modify]

end Writer

namespace Field

/-- The values of a field that its bits can spell. -/
def Admits : Field → Nat → Prop
  | flag _, value => value < 2
  | fixed _ width expected, value => width ≤ 32 ∧ expected < 2 ^ width ∧ value = expected
  | unsigned _ width storage, value => width ≤ 32 ∧ value < 2 ^ width ∧ value < 2 ^ storage

/-- The bits of a value. -/
def bits (field : Field) (value : Nat) : List Bool :=
  Bits.ofNat field.width value

@[simp]
theorem length_bits (field : Field) (value : Nat) : (field.bits value).length = field.width :=
  Bits.length_ofNat _ _

/-- One bit spells zero or one. -/
theorem ofNat_one_toNat (b : Bool) : Bits.ofNat 1 b.toNat = [b] := by
  cases b <;> rfl

theorem effect_readRaw_eq_ok_iff {field : Field} {r r' : Reader} {value : Nat} :
    field.readRaw.effect r = (.ok value, r') ↔
      field.width ≤ 32 ∧ value < 2 ^ field.width ∧ field.bits value <+: r.remaining ∧
        r' = r.advance field.width := by
  cases field with
  | flag name =>
    simp only [readRaw, Procedure.effect_bind_eq_ok_iff, Reader.effect_bit_eq_ok_iff,
      Procedure.effect_pure, Prod.mk.injEq, Except.ok.injEq, bits, width]
    constructor
    · rintro ⟨b, t, ⟨hstart, rfl⟩, rfl, rfl⟩
      rw [ofNat_one_toNat]
      exact ⟨by decide, b.toNat_lt, hstart, rfl⟩
    · rintro ⟨-, hvalue, hstart, rfl⟩
      match value, hvalue with
      | 0, _ => exact ⟨false, _, ⟨hstart, rfl⟩, rfl, rfl⟩
      | 1, _ => exact ⟨true, _, ⟨hstart, rfl⟩, rfl, rfl⟩
  | fixed | unsigned => exact Reader.effect_take_eq_ok_iff

/-- What passes the checks of a field, out of the numbers of its width. -/
theorem admits_iff {field : Field} {value : Nat} :
    field.Admits value ↔
      field.width ≤ 32 ∧ value < 2 ^ field.width ∧ field.refusal? value = none := by
  cases field with
  | flag => simp [Admits, width, refusal?]
  | fixed =>
    simp only [Admits, width, refusal?, ite_eq_left_iff]
    grind
  | unsigned => simp [Admits, width, refusal?]

theorem effect_read_eq_ok_iff {field : Field} {r r' : Reader} {value : Nat} :
    field.read.effect r = (.ok value, r') ↔
      field.Admits value ∧ field.bits value <+: r.remaining ∧ r' = r.advance field.width := by
  rw [read, Procedure.effect_bind_eq_ok_iff, admits_iff]
  constructor
  · intro ⟨raw, t, hraw, hchecked⟩
    obtain ⟨hwidth, hvalue, hstart, rfl⟩ := effect_readRaw_eq_ok_iff.mp hraw
    cases hrefusal : field.refusal? raw with
    | some error => simp [hrefusal] at hchecked
    | none =>
      simp only [hrefusal, Procedure.effect_log_bind, Procedure.effect_pure, Prod.mk.injEq,
        Except.ok.injEq] at hchecked
      obtain ⟨rfl, rfl⟩ := hchecked
      exact ⟨⟨hwidth, hvalue, hrefusal⟩, hstart, rfl⟩
  · rintro ⟨⟨hwidth, hvalue, hrefusal⟩, hstart, rfl⟩
    refine ⟨value, _, effect_readRaw_eq_ok_iff.mpr ⟨hwidth, hvalue, hstart, rfl⟩, ?_⟩
    simp only [hrefusal, Procedure.effect_log_bind, Procedure.effect_pure]

theorem not_maxValue_lt {width value : Nat} (hwidth : width ≤ 32) (hvalue : value < 2 ^ width) :
    ¬ maxValue width < value := by
  rw [maxValue, Nat.min_eq_left hwidth, Nat.pow_eq]
  omega

theorem effect_put {w : Writer} {name : String} {width value : Nat}
    (hroom : width ≤ w.available) (hwidth : width ≤ 32) (hvalue : value < 2 ^ width) :
    (put name width value).effect w = (.ok (), w.append (Bits.ofNat width value)) := by
  rw [put, Procedure.effect_get_bind, if_neg (Nat.not_lt.mpr hroom),
    Procedure.effect_bind_ok (Writer.effect_put hroom hwidth hvalue), Procedure.effect_log]

theorem effect_write {field : Field} {w : Writer} {value : Nat} (h : field.Admits value)
    (hroom : field.width ≤ w.available) :
    (field.write value).effect w = (.ok (), w.append (field.bits value)) := by
  cases field with
  | flag name => exact effect_put hroom (by decide) h
  | fixed name width expected =>
    obtain ⟨hwidth, hexpected, rfl⟩ := h
    rw [write, putInRange, if_neg (not_maxValue_lt hwidth hexpected)]
    exact effect_put hroom hwidth hexpected
  | unsigned name width storage =>
    obtain ⟨hwidth, hvalue, -⟩ := h
    rw [write, putInRange, if_neg (not_maxValue_lt hwidth hvalue)]
    exact effect_put hroom hwidth hvalue

/-! ## Fields in a row -/

/-- The bits of fields with their values, in turn. -/
def bitsOfAll (fields : List (Field × Nat)) : List Bool :=
  fields.flatMap fun (field, value) ↦ field.bits value

theorem effect_writeAll {fields : List (Field × Nat)} {w : Writer}
    (h : ∀ p ∈ fields, p.1.Admits p.2) (hroom : (bitsOfAll fields).length ≤ w.available) :
    (writeAll fields).effect w = (.ok (), w.append (bitsOfAll fields)) := by
  induction fields generalizing w with
  | nil => simp [writeAll, bitsOfAll]
  | cons p fields ih =>
    obtain ⟨field, value⟩ := p
    have hsplit : bitsOfAll ((field, value) :: fields) = field.bits value ++ bitsOfAll fields := rfl
    rw [hsplit, List.length_append, length_bits] at hroom
    have hhead : (field.write value).effect w = (.ok (), w.append (field.bits value)) :=
      effect_write (h _ List.mem_cons_self) (by omega)
    have hrest : (bitsOfAll fields).length ≤ (w.append (field.bits value)).available := by
      rw [Writer.available_append, length_bits]
      omega
    calc
      (writeAll ((field, value) :: fields)).effect w
          = (writeAll fields).effect (w.append (field.bits value)) := by
        rw [writeAll, Procedure.effect_bind_ok hhead]
      _ = (.ok (), (w.append (field.bits value)).append (bitsOfAll fields)) :=
        ih (fun p hp ↦ h p (List.mem_cons_of_mem _ hp)) hrest
      _ = (.ok (), w.append (bitsOfAll ((field, value) :: fields))) := by
        rw [Writer.append_append, hsplit]

end Field

end ClosedCaptions
