import ClosedCaptions.Proofs.Layout.Field

/-!
# The two engines over fields in a row

Fields in a row send the numbers that they hold, most significant bit first, one after the other.
Writing succeeds exactly when every number has the width of its field and all of them have room, and
leaves their complete bytes in front of what the buffer held. Reading takes the same bits apart
again. It stops at the first fixed field with other bits, or where the bits run out.
-/

namespace ClosedCaptions

/-! ## Single fields -/

theorem Writer.effect_put_eq_ok_iff {w w' : Writer} {count typeWidth value : Nat} :
    (put count typeWidth value).effect w = (.ok (), w') ↔
      count ≤ w.available ∧ count ≤ typeWidth ∧ value < 2 ^ count ∧
        w' = w.append (Bits.ofNat count value) := by
  constructor
  · intro hput
    rw [put, Procedure.effect_get_bind] at hput
    split at hput
    · simp at hput
    split at hput
    · simp at hput
    split at hput
    · simp at hput
    · next hroom hwidth hvalue =>
      rw [Procedure.effect_modify] at hput
      exact ⟨Nat.not_lt.mp hroom, Nat.not_lt.mp hwidth, Nat.not_le.mp hvalue,
        (congrArg Prod.snd hput).symm⟩
  · rintro ⟨hroom, hwidth, hvalue, rfl⟩
    exact effect_put hroom hwidth hvalue

theorem Reader.effect_take_of_short {r : Reader} {count typeWidth : Nat}
    (hwidth : count ≤ typeWidth) (hshort : r.remaining.length < count) :
    (take count typeWidth).effect r =
      (.error (.bitsOutOfBounds count (r.exhaustedAt count)), r) := by
  rw [take, if_neg (Nat.not_lt.mpr hwidth), Procedure.effect_get_bind, Bits.atLeast_eq,
    if_neg (by simpa using hshort), Procedure.effect_fail]

namespace Field

/-- The number that stands in a stream for a value of the field: a fixed field has its own. -/
def sent : Field → Nat → Nat
  | fixed _ _ expected, _ => expected
  | flag _, value | unsigned _ _ _, value => value

theorem maxValue_lt_iff {width value : Nat} (hwidth : width ≤ 32) :
    maxValue width < value ↔ 2 ^ width ≤ value := by
  have hpos := Nat.two_pow_pos width
  rw [maxValue, Nat.min_eq_left hwidth, Nat.pow_eq]
  omega

theorem effect_put_eq_ok_iff {w w' : Writer} {name : String} {width value : Nat} :
    (put name width value).effect w = (.ok (), w') ↔
      width ≤ 32 ∧ value < 2 ^ width ∧ width ≤ w.available ∧
        w' = w.append (Bits.ofNat width value) := by
  constructor
  · intro hput
    rw [put, Procedure.effect_get_bind] at hput
    split at hput
    · simp at hput
    · obtain ⟨_, t, hwritten, hlogged⟩ := Procedure.effect_bind_eq_ok_iff.mp hput
      obtain ⟨hroom, hwidth, hvalue, rfl⟩ := Writer.effect_put_eq_ok_iff.mp hwritten
      exact ⟨hwidth, hvalue, hroom, (congrArg Prod.snd hlogged).symm⟩
  · rintro ⟨hwidth, hvalue, hroom, rfl⟩
    exact effect_put hroom hwidth hvalue

theorem effect_putInRange_eq_ok_iff {w w' : Writer} {name : String} {width value : Nat} :
    (putInRange name width value).effect w = (.ok (), w') ↔
      width ≤ 32 ∧ value < 2 ^ width ∧ width ≤ w.available ∧
        w' = w.append (Bits.ofNat width value) := by
  rw [putInRange, ← @effect_put_eq_ok_iff w w' name]
  split
  · next hrange =>
    refine iff_of_false (by simp) ?_
    rw [effect_put_eq_ok_iff]
    intro hput
    have hvalue : value < 2 ^ width := hput.2.1
    exact Nat.not_le.mpr hvalue ((maxValue_lt_iff hput.1).mp hrange)
  · rfl

/-- A field is written when its number has its width and there is room. -/
theorem effect_write_eq_ok_iff {field : Field} {value : Nat} {w w' : Writer} :
    (field.write value).effect w = (.ok (), w') ↔
      (field.width ≤ 32 ∧ field.sent value < 2 ^ field.width) ∧ field.width ≤ w.available ∧
        w' = w.append (field.bits (field.sent value)) := by
  rw [and_assoc]
  cases field with
  | flag name => exact effect_put_eq_ok_iff
  | fixed name width expected => exact effect_putInRange_eq_ok_iff
  | unsigned name width storage => exact effect_putInRange_eq_ok_iff

/-- How reading the field fails when the bits run out. -/
def exhausted (field : Field) (r : Reader) : Error :=
  match field with
  | flag _ => .endOfData
  | fixed _ width _ | unsigned _ width _ => .bitsOutOfBounds width (r.exhaustedAt width)

variable {field : Field} {r : Reader}

theorem effect_read_of_short (hwidth : field.width ≤ 32)
    (hshort : r.remaining.length < field.width) :
    field.read.effect r = (.error (field.exhausted r), r) := by
  have hraw : field.readRaw.effect r = (.error (field.exhausted r), r) := by
    cases field with
    | flag name =>
      have hnil : r.remaining = [] := List.length_eq_zero_iff.mp (Nat.lt_one_iff.mp hshort)
      rw [readRaw, Reader.bit, bind_assoc, Procedure.effect_get_bind, hnil]
      rfl
    | fixed | unsigned => exact Reader.effect_take_of_short hwidth hshort
  exact Procedure.effect_bind_error hraw

/-- What a fixed field refuses is what it reads. -/
theorem effect_read_of_ne {name : String} {width expected : Nat} (hwidth : width ≤ 32)
    (hroom : width ≤ r.remaining.length) (hne : Bits.toNat (r.remaining.take width) ≠ expected) :
    (fixed name width expected).read.effect r =
      (.error (.fixedMismatch name (Bits.toNat (r.remaining.take width)) expected),
        r.advance width) := by
  have hfront := Reader.ofNat_prefix_iff.mpr ⟨hroom, rfl⟩
  have hraw : (fixed name width expected).readRaw.effect r =
      (.ok (Bits.toNat (r.remaining.take width)), r.advance width) :=
    effect_readRaw_eq_ok_iff.mpr ⟨hwidth, hfront.1, hfront.2, rfl⟩
  rw [read, Procedure.effect_bind_ok hraw, refusal?, if_neg hne, Procedure.effect_fail]

/-! ## Fields in a row -/

/-- The bits that fields send, in turn. -/
def sentBits (fields : List (Field × Nat)) : List Bool :=
  fields.flatMap fun (field, value) ↦ field.bits (field.sent value)

def totalWidth (fields : List (Field × Nat)) : Nat :=
  (fields.map fun p ↦ p.1.width).sum

theorem sentBits_cons (field : Field) (value : Nat) (fields : List (Field × Nat)) :
    sentBits ((field, value) :: fields) = field.bits (field.sent value) ++ sentBits fields :=
  List.flatMap_cons

theorem totalWidth_cons (field : Field) (value : Nat) (fields : List (Field × Nat)) :
    totalWidth ((field, value) :: fields) = field.width + totalWidth fields :=
  List.sum_cons

theorem length_sentBits (fields : List (Field × Nat)) :
    (sentBits fields).length = totalWidth fields := by
  induction fields with
  | nil => rfl
  | cons p fields ih => rw [sentBits_cons, List.length_append, length_bits, ih, totalWidth_cons]

/-- Every number that is sent has the width of its field. -/
def Fit (fields : List (Field × Nat)) : Prop :=
  ∀ p ∈ fields, p.1.sent p.2 < 2 ^ p.1.width

/-- No field is wider than a number can be, and the type that keeps a value holds it. -/
def Holds : Field → Nat → Prop
  | flag _, _ => True
  | fixed _ width _, _ => width ≤ 32
  | unsigned _ width storage, value => width ≤ 32 ∧ value < 2 ^ storage

variable {fields : List (Field × Nat)}

theorem Holds.width_le {value : Nat} (h : field.Holds value) : field.width ≤ 32 := by
  cases field with
  | flag name => exact (by decide : 1 ≤ 32)
  | fixed name width expected => exact h
  | unsigned name width storage => exact h.1

/-- A number that is held and has the width of its field can be read. -/
theorem Holds.admits {value : Nat} (h : field.Holds value)
    (hfits : field.sent value < 2 ^ field.width) : field.Admits (field.sent value) := by
  cases field with
  | flag name => exact hfits
  | fixed name width expected => exact ⟨h, hfits, rfl⟩
  | unsigned name width storage => exact ⟨h.1, hfits, h.2⟩

/-! ### Writing -/

theorem effect_writeAll_eq_ok_iff {w w' : Writer} :
    (writeAll fields).effect w = (.ok (), w') ↔
      (∀ p ∈ fields, p.1.width ≤ 32 ∧ p.1.sent p.2 < 2 ^ p.1.width) ∧
        totalWidth fields ≤ w.available ∧ w' = w.append (sentBits fields) := by
  induction fields generalizing w with
  | nil => simp [writeAll, totalWidth, sentBits, eq_comm]
  | cons p fields ih =>
    obtain ⟨field, value⟩ := p
    rw [writeAll, Procedure.effect_bind_eq_ok_iff, List.forall_mem_cons, totalWidth_cons,
      sentBits_cons]
    constructor
    · intro hall
      obtain ⟨_, t, hfirst, hrest⟩ := hall
      obtain ⟨hfits, hroom, rfl⟩ := effect_write_eq_ok_iff.mp hfirst
      obtain ⟨hfit, hmore, rfl⟩ := ih.mp hrest
      rw [Writer.available_append, length_bits] at hmore
      exact ⟨⟨hfits, hfit⟩, by omega, Writer.append_append _ _ _⟩
    · rintro ⟨⟨hfits, hfit⟩, hroom, rfl⟩
      refine ⟨(), w.append (field.bits (field.sent value)),
        effect_write_eq_ok_iff.mpr ⟨hfits, by omega, rfl⟩, ih.mpr ⟨hfit, ?_, ?_⟩⟩
      · rw [Writer.available_append, length_bits]
        omega
      · rw [Writer.append_append]

/-- What is left of a buffer after bits were written over its front. -/
theorem contents_append (buffer : List UInt8) (bits : List Bool) :
    ((Writer.ofBuffer buffer).append bits).contents =
      Bits.toBytes bits ++ buffer.drop (bits.length / 8) := by
  simp only [Writer.contents, Writer.append, Writer.ofBuffer, Writer.withCapacity, List.append_nil,
    List.reverse_reverse, Bits.length_toBytes_eq]

/-! ### Reading -/

/-- What reading shows of a field: a fixed field has no value. -/
def shown : Field × Nat → Option Nat
  | (fixed .., _) => none
  | (flag _, value) | (unsigned .., value) => some value

theorem shown_sent (field : Field) (value : Nat) :
    (match field with
      | fixed .. => none
      | _ => some (field.sent value)) = shown (field, value) := by
  cases field <;> rfl

/-- Where a field reads its value, the fields after it go on from there. -/
theorem effect_readAll_cons {value : Nat} (h : field.Admits (field.sent value))
    (hfront : field.bits (field.sent value) <+: r.remaining) (later : List Field) :
    (readAll (field :: later)).effect r =
      ((fun found ↦ (shown (field, value) :: found.1, found.2)) <$> readAll later).effect
        (r.advance field.width) := by
  have hread : field.read.attempt.effect r =
      (.ok (.ok (field.sent value)), r.advance field.width) := by
    rw [Procedure.effect_attempt, effect_read_eq_ok_iff.mpr ⟨h, hfront, rfl⟩]
  rw [readAll, Procedure.effect_bind_ok hread, ← shown_sent field value]
  exact congrFun (congrArg Procedure.effect (map_eq_pure_bind _ _).symm) (r.advance field.width)

/-- Where fields read their values, the fields after them go on from there. -/
theorem effect_readAll_append (hholds : ∀ p ∈ fields, p.1.Holds p.2) (hfit : Fit fields)
    (hfront : sentBits fields <+: r.remaining) (later : List Field) :
    (readAll (fields.map Prod.fst ++ later)).effect r =
      ((fun found ↦ (fields.map shown ++ found.1, found.2)) <$> readAll later).effect
        (r.advance (totalWidth fields)) := by
  induction fields generalizing r with
  | nil =>
    rw [List.map_nil, List.map_nil, List.nil_append, totalWidth, List.map_nil, List.sum_nil,
      Reader.advance_zero]
    exact congrArg (Procedure.effect · r) (id_map (readAll later)).symm
  | cons p fields ih =>
    obtain ⟨field, value⟩ := p
    obtain ⟨hfirst, hrest⟩ := List.forall_mem_cons.mp hholds
    obtain ⟨hfits, hfit⟩ := List.forall_mem_cons.mp hfit
    rw [sentBits_cons] at hfront
    have hhead : field.bits (field.sent value) <+: r.remaining :=
      (List.prefix_append _ _).trans hfront
    have htail : sentBits fields <+: (r.advance field.width).remaining := by
      obtain ⟨rest, hremaining⟩ := hfront
      rw [Reader.remaining_advance, ← hremaining, List.append_assoc,
        List.drop_left' (length_bits _ _)]
      exact List.prefix_append _ _
    rw [List.map_cons, List.cons_append, effect_readAll_cons (hfirst.admits hfits) hhead,
      Procedure.effect_map, ih hrest hfit htail, Procedure.effect_map, Procedure.effect_map,
      Reader.advance_advance, totalWidth_cons]
    rcases ((readAll later).effect (r.advance (field.width + totalWidth fields))).1 with e | found
    · rfl
    · rfl

/-- Where a field fails, reading ends with what was read before. -/
theorem effect_readAll_of_error {error : Error} {t : Reader}
    (hholds : ∀ p ∈ fields, p.1.Holds p.2) (hfit : Fit fields)
    (hfront : sentBits fields <+: r.remaining)
    (hfails : field.read.effect (r.advance (totalWidth fields)) = (.error error, t))
    (later : List Field) :
    (readAll (fields.map Prod.fst ++ field :: later)).effect r =
      (.ok (fields.map shown, some error), t) := by
  have hattempt : field.read.attempt.effect (r.advance (totalWidth fields)) =
      (.ok (.error error), t) := by
    rw [Procedure.effect_attempt, hfails]
  rw [effect_readAll_append hholds hfit hfront, Procedure.effect_map, readAll,
    Procedure.effect_bind_ok hattempt, Procedure.effect_pure, Except.map, List.append_nil]

/-! ### Both engines -/

/-- What the two engines do with fields and the values that they hold. -/
structure Engines (fields : List (Field × Nat)) : Prop where
  write_ok_iff : ∀ buffer : List UInt8,
    ((writeAll fields).overwriting.effect buffer).1 = .ok () ↔
      Fit fields ∧ totalWidth fields ≤ 8 * buffer.length
  /-- Every byte that is complete is written, and no byte behind them changes. -/
  written : ∀ buffer left, (writeAll fields).overwriting.effect buffer = (.ok (), left) →
    Bits.ofBytes (left.take (totalWidth fields / 8)) =
        (sentBits fields).take (8 * (totalWidth fields / 8)) ∧
      left.drop (totalWidth fields / 8) = buffer.drop (totalWidth fields / 8)
  read_ok : ∀ bytes, Fit fields → sentBits fields <+: Bits.ofBytes bytes →
    (readAll (fields.map Prod.fst)).effect (.ofBytes bytes) =
      (.ok (fields.map shown, none), (Reader.ofBytes bytes).advance (totalWidth fields))
  /-- The first fixed field with other bits ends reading. -/
  read_mismatch : ∀ bytes before name width expected value after,
    fields = before ++ (fixed name width expected, value) :: after → Fit before →
    sentBits before <+: Bits.ofBytes bytes → totalWidth before + width ≤ 8 * bytes.length →
    let actual := Bits.toNat (((Bits.ofBytes bytes).drop (totalWidth before)).take width)
    actual ≠ expected →
    ((readAll (fields.map Prod.fst)).effect (.ofBytes bytes)).1 =
      .ok (before.map shown, some (.fixedMismatch name actual expected))
  /-- The first field that lacks bits ends reading. -/
  read_exhausted : ∀ bytes before field value after,
    fields = before ++ (field, value) :: after → Fit before →
    sentBits before <+: Bits.ofBytes bytes → 8 * bytes.length < totalWidth before + field.width →
    ((readAll (fields.map Prod.fst)).effect (.ofBytes bytes)).1 =
      .ok (before.map shown,
        some (field.exhausted ((Reader.ofBytes bytes).advance (totalWidth before))))

/-- Fields whose values are held are written exactly when they fit, and then they are read back.
Reading stops with the values in front of a field that is not what it should be. -/
theorem engines_agree (h : ∀ p ∈ fields, p.1.Holds p.2) : Engines fields where
  write_ok_iff buffer := by
    have hcapacity : (Writer.ofBuffer buffer).available = 8 * buffer.length := rfl
    rw [Procedure.overwriting, Procedure.effect_focus, ← hcapacity]
    constructor
    · intro hok
      obtain ⟨hfit, hroom, _⟩ := effect_writeAll_eq_ok_iff.mp (Prod.ext hok rfl)
      exact ⟨fun p hp ↦ (hfit p hp).2, hroom⟩
    · intro ⟨hfit, hroom⟩
      have hwritten := effect_writeAll_eq_ok_iff.mpr
        ⟨fun p hp ↦ ⟨(h p hp).width_le, hfit p hp⟩, hroom, rfl⟩
      exact congrArg Prod.fst hwritten
  written buffer left hwritten := by
    rw [Procedure.overwriting, Procedure.effect_focus] at hwritten
    have hlength : (Bits.toBytes (sentBits fields)).length = totalWidth fields / 8 := by
      rw [Bits.length_toBytes_eq, length_sentBits]
    rcases hrun : (writeAll fields).effect (Writer.ofBuffer buffer) with ⟨result, w⟩
    rw [hrun] at hwritten
    obtain ⟨rfl, hleft⟩ := Prod.mk.inj hwritten
    obtain ⟨_, _, rfl⟩ := effect_writeAll_eq_ok_iff.mp hrun
    rw [contents_append, length_sentBits] at hleft
    rw [← hleft, List.take_left' hlength, List.drop_left' hlength, Bits.ofBytes_toBytes_eq_take,
      length_sentBits]
    exact ⟨rfl, rfl⟩
  read_ok bytes hfit hfront := by
    have hread := effect_readAll_append (r := .ofBytes bytes) h hfit hfront []
    rw [List.append_nil] at hread
    rw [hread, Procedure.effect_map, readAll, Procedure.effect_pure, Except.map, List.append_nil]
  read_mismatch bytes before name width expected value after hfields hfit hfront hroom hne := by
    rw [hfields, List.forall_mem_append, List.forall_mem_cons] at h
    obtain ⟨hbefore, hfixed, _⟩ := h
    have hremaining :
        width ≤ ((Reader.ofBytes bytes).advance (totalWidth before)).remaining.length := by
      rw [Reader.remaining_advance, List.length_drop]
      change width ≤ (Bits.ofBytes bytes).length - totalWidth before
      rw [Bits.length_ofBytes]
      omega
    have hwidth : width ≤ 32 := hfixed
    have hread : (fixed name width expected).read.effect _ = _ :=
      effect_read_of_ne hwidth hremaining hne
    rw [hfields, List.map_append, List.map_cons]
    exact congrArg Prod.fst (effect_readAll_of_error hbefore hfit hfront hread _)
  read_exhausted bytes before field value after hfields hfit hfront hshort := by
    rw [hfields, List.forall_mem_append, List.forall_mem_cons] at h
    obtain ⟨hbefore, hfield, _⟩ := h
    have hremaining : ((Reader.ofBytes bytes).advance (totalWidth before)).remaining.length <
        field.width := by
      have hfits := hfront.length_le
      rw [length_sentBits, Bits.length_ofBytes] at hfits
      rw [Reader.remaining_advance, List.length_drop]
      change (Bits.ofBytes bytes).length - totalWidth before < field.width
      rw [Bits.length_ofBytes]
      omega
    have hread := effect_read_of_short hfield.width_le hremaining
    rw [hfields, List.map_append, List.map_cons, effect_readAll_of_error hbefore hfit hfront hread]

/-- A number across two bytes, and a last byte that stays incomplete. -/
theorem engines_agree_across_bytes :
    let fields : List (Field × Nat) := [(flag "open", 1), (unsigned "high" 12 16, 0xABC),
      (fixed "marker" 3 5, 0), (unsigned "low" 5 8, 0x13)]
    (∀ p ∈ fields, p.1.Holds p.2) ∧
      (writeAll fields).overwriting.effect [0, 0, 0xEE, 0xFF] =
        (.ok (), [0xD5, 0xE5, 0xEE, 0xFF]) ∧
      ((readAll (fields.map Prod.fst)).effect (.ofBytes [0xD5, 0xE5, 0x98])).1 =
        .ok ([some 1, some 0xABC, none, some 0x13], none) ∧
      ((readAll (fields.map Prod.fst)).effect (.ofBytes [0xD5, 0xE6, 0x98])).1 =
        .ok ([some 1, some 0xABC], some (.fixedMismatch "marker" 6 5)) := by
  intro fields
  have hholds : ∀ p ∈ fields, p.1.Holds p.2 := by simp [fields, Holds]
  have hengines := engines_agree hholds
  have hfit : Fit fields := by simp [fields, Fit, sent, width]
  have hbefore : Fit [(flag "open", 1), (unsigned "high" 12 16, 0xABC)] := by
    simp [Fit, sent, width]
  have hread := hengines.read_ok [0xD5, 0xE5, 0x98] hfit (by decide)
  have hmismatch := hengines.read_mismatch [0xD5, 0xE6, 0x98] _ "marker" 3 5 0 _
    rfl hbefore (by decide) (by decide) (by decide)
  exact ⟨hholds, rfl, congrArg Prod.fst hread, hmismatch⟩

end Field

end ClosedCaptions
