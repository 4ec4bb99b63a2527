import ClosedCaptions.Proofs.Layout.Codec
import ClosedCaptions.Proofs.Layout.Engines

/-!
# Where writing stops

Fields are written one after the other, up to the first whose number is too wide for it or that has
no room. A failed field leaves no bits, so what stands in the buffer then is the fields in front of
it, as far as they fill bytes, and behind them what the buffer held before.
-/

namespace ClosedCaptions

namespace Field

/-! ## One field -/

/-- A flag keeps one bit, and no other field is wider than a number can be. -/
def Storable : Field → Nat → Prop
  | flag _, value => value < 2
  | fixed _ width _, _ | unsigned _ width _, _ => width ≤ 32

variable {field : Field} {value : Nat} {w : Writer}

theorem Storable.width_le (h : field.Storable value) : field.width ≤ 32 := by
  cases field with
  | flag name => exact (by decide : 1 ≤ 32)
  | fixed name width expected => exact h
  | unsigned name width storage => exact h

theorem effect_putInRange_of_wide {name : String} {width : Nat} (hwidth : width ≤ 32)
    (hwide : 2 ^ width ≤ value) :
    (putInRange name width value).effect w =
      (.error (.outOfRange name value (maxValue width)), w) := by
  have hover : maxValue width < value := (maxValue_lt_iff hwidth).mpr hwide
  rw [putInRange, if_pos hover, Procedure.effect_fail]

/-- A number that is too wide is refused, whether or not there is room. -/
theorem effect_write_of_wide (h : field.Storable value)
    (hwide : 2 ^ field.width ≤ field.sent value) :
    (field.write value).effect w =
      (.error (.outOfRange field.name (field.sent value) (maxValue field.width)), w) := by
  cases field with
  | flag name => exact absurd h (Nat.not_lt.mpr hwide)
  | fixed name width expected => exact effect_putInRange_of_wide h hwide
  | unsigned name width storage => exact effect_putInRange_of_wide h hwide

theorem effect_put_of_short {name : String} {width : Nat} (hshort : w.available < width) :
    (put name width value).effect w = (.error (.outOfSpace name width w.available), w) := by
  rw [put, Procedure.effect_get_bind, if_pos hshort, Procedure.effect_fail]

theorem effect_putInRange_of_short {name : String} {width : Nat} (hwidth : width ≤ 32)
    (hfits : value < 2 ^ width) (hshort : w.available < width) :
    (putInRange name width value).effect w = (.error (.outOfSpace name width w.available), w) := by
  rw [putInRange, if_neg (not_maxValue_lt hwidth hfits), effect_put_of_short hshort]

/-- A number that fits is refused where there is no room for it. -/
theorem effect_write_of_short (h : field.Storable value)
    (hfits : field.sent value < 2 ^ field.width) (hshort : w.available < field.width) :
    (field.write value).effect w =
      (.error (.outOfSpace field.name field.width w.available), w) := by
  cases field with
  | flag name => exact effect_put_of_short hshort
  | fixed name width expected => exact effect_putInRange_of_short h hfits hshort
  | unsigned name width storage => exact effect_putInRange_of_short h hfits hshort

/-! ## Fields in a row -/

/-- Why a field is not written behind other fields, in a buffer with room for so many bits. -/
inductive Refused (room : Nat) (before : List (Field × Nat)) (field : Field) (value : Nat) :
    Error → Prop
  | range (hwide : 2 ^ field.width ≤ field.sent value) : Refused room before field value
      (.outOfRange field.name (field.sent value) (maxValue field.width))
  | space (hfits : field.sent value < 2 ^ field.width)
      (hshort : room < totalWidth before + field.width) : Refused room before field value
      (.outOfSpace field.name field.width (room - totalWidth before))

/-- A field is written, or refused and nothing is. -/
theorem effect_write_or_refused (h : field.Storable value) (w : Writer) :
    (field.sent value < 2 ^ field.width ∧ field.width ≤ w.available ∧
      (field.write value).effect w = (.ok (), w.append (field.bits (field.sent value)))) ∨
    ∃ cause, Refused w.available [] field value cause ∧
      (field.write value).effect w = (.error cause, w) := by
  by_cases hfits : field.sent value < 2 ^ field.width
  · by_cases hroom : field.width ≤ w.available
    · exact .inl ⟨hfits, hroom,
        effect_write_eq_ok_iff.mpr ⟨⟨h.width_le, hfits⟩, hroom, rfl⟩⟩
    · have hshort : w.available < totalWidth [] + field.width := by
        rw [totalWidth, List.map_nil, List.sum_nil, Nat.zero_add]
        exact Nat.not_le.mp hroom
      exact .inr ⟨_, .space hfits hshort, effect_write_of_short h hfits (Nat.not_le.mp hroom)⟩
  · have hwide : 2 ^ field.width ≤ field.sent value := Nat.not_lt.mp hfits
    exact .inr ⟨_, .range hwide, effect_write_of_wide h hwide⟩

/-- The fields in front of the first that is refused, and why it is. -/
structure StopsAt (fields : List (Field × Nat)) (room : Nat) (before : List (Field × Nat))
    (field : Field) (value : Nat) (after : List (Field × Nat)) (cause : Error) : Prop where
  split : fields = before ++ (field, value) :: after
  fit : Fit before
  room_le : totalWidth before ≤ room
  refused : Refused room before field value cause

theorem fit_nil : Fit [] :=
  fun _ hp ↦ absurd hp List.not_mem_nil

theorem fit_cons {fields : List (Field × Nat)} :
    Fit ((field, value) :: fields) ↔ field.sent value < 2 ^ field.width ∧ Fit fields :=
  List.forall_mem_cons

theorem fit_append {fields more : List (Field × Nat)} :
    Fit (fields ++ more) ↔ Fit fields ∧ Fit more :=
  List.forall_mem_append

theorem Refused.stopsAt {room : Nat} {cause : Error} (h : Refused room [] field value cause)
    (after : List (Field × Nat)) :
    StopsAt ((field, value) :: after) room [] field value after cause :=
  ⟨rfl, fit_nil, Nat.zero_le room, h⟩

/-- Writing stops at the same field when there is one more in front. -/
theorem StopsAt.cons {fields before after : List (Field × Nat)} {first : Field} {held room : Nat}
    {cause : Error} (h : StopsAt fields (room - first.width) before field value after cause)
    (hfits : first.sent held < 2 ^ first.width) (hroom : first.width ≤ room) :
    StopsAt ((first, held) :: fields) room ((first, held) :: before) field value after cause where
  split := by rw [h.split, List.cons_append]
  fit := fit_cons.mpr ⟨hfits, h.fit⟩
  room_le := by
    have hrest := h.room_le
    rw [totalWidth_cons]
    omega
  refused := by
    have hwidth := totalWidth_cons first held before
    cases h.refused with
    | range hwide => exact .range hwide
    | space hvalue hshort =>
      have hleft : room - first.width - totalWidth before =
          room - totalWidth ((first, held) :: before) := by
        rw [hwidth, Nat.sub_sub]
      rw [hleft]
      exact .space hvalue (by omega)

/-- Fields are all written, or those in front of the first that is refused. -/
theorem effect_writeAll_cases {fields : List (Field × Nat)}
    (h : ∀ p ∈ fields, p.1.Storable p.2) (w : Writer) :
    (Fit fields ∧ totalWidth fields ≤ w.available ∧
      (writeAll fields).effect w = (.ok (), w.append (sentBits fields))) ∨
    ∃ before field value after cause,
      StopsAt fields w.available before field value after cause ∧
        (writeAll fields).effect w = (.error cause, w.append (sentBits before)) := by
  induction fields generalizing w with
  | nil => exact .inl ⟨fit_nil, Nat.zero_le _, by simp [writeAll, sentBits]⟩
  | cons first fields ih =>
    obtain ⟨field, value⟩ := first
    have hfield : field.Storable value := h _ List.mem_cons_self
    have hfields := (List.forall_mem_cons.mp h).2
    rcases effect_write_or_refused hfield w with ⟨hfits, hroom, hwrite⟩ | ⟨cause, hrefused, hwrite⟩
    · have havailable : (w.append (field.bits (field.sent value))).available =
          w.available - field.width := by
        rw [Writer.available_append, length_bits]
      have hrest := ih hfields (w.append (field.bits (field.sent value)))
      rw [havailable] at hrest
      rcases hrest with ⟨hfit, htotal, heffect⟩ | ⟨before, last, held, after, cause, hstop, heffect⟩
      · have hwidth := totalWidth_cons field value fields
        refine .inl ⟨fit_cons.mpr ⟨hfits, hfit⟩, by omega, ?_⟩
        rw [writeAll, Procedure.effect_bind_ok hwrite, heffect, Writer.append_append, sentBits_cons]
      · refine .inr ⟨_, last, held, after, cause, hstop.cons hfits hroom, ?_⟩
        rw [writeAll, Procedure.effect_bind_ok hwrite, heffect, Writer.append_append, sentBits_cons]
    · have hstart : w.append (sentBits []) = w := w.append_nil
      refine .inr ⟨[], field, value, fields, cause, hrefused.stopsAt fields, ?_⟩
      rw [writeAll, Procedure.effect_bind_error hwrite, hstart]

/-- What stands in front of a field is the front of all the bits. -/
theorem StopsAt.sentBits_eq_take {fields before after : List (Field × Nat)} {room : Nat}
    {cause : Error} (h : StopsAt fields room before field value after cause) :
    sentBits before = (sentBits fields).take (totalWidth before) := by
  have hsplit : sentBits fields = sentBits before ++ sentBits ((field, value) :: after) := by
    rw [h.split, sentBits, sentBits, sentBits, List.flatMap_append]
  rw [hsplit, List.take_left' (length_sentBits before)]

/-- Numbers that all fit are refused for want of room. -/
theorem StopsAt.space_of_fit {fields before after : List (Field × Nat)} {room : Nat} {cause : Error}
    (h : StopsAt fields room before field value after cause) (hfit : Fit fields) :
    room < totalWidth before + field.width ∧
      cause = .outOfSpace field.name field.width (room - totalWidth before) := by
  rw [h.split, fit_append, fit_cons] at hfit
  cases h.refused with
  | range hwide => exact absurd hfit.2.1 (Nat.not_lt.mpr hwide)
  | space hfits hshort => exact ⟨hshort, rfl⟩

/-- Writing does not stop where everything fits. -/
theorem StopsAt.lt_totalWidth {fields before after : List (Field × Nat)} {room : Nat}
    {cause : Error} (h : StopsAt fields room before field value after cause) (hfit : Fit fields) :
    room < totalWidth fields := by
  have hshort := (h.space_of_fit hfit).1
  have hall : totalWidth fields =
      totalWidth before + (field.width + totalWidth after) := by
    rw [h.split, totalWidth, List.map_append, List.sum_append, ← totalWidth, ← totalWidth,
      totalWidth_cons]
  omega

end Field

/-! ## Layouts -/

namespace Layout

variable {α β γ : Type}

/-- Writing a layout over a buffer stores its fields, all of them or those in front of the first
that is refused. -/
theorem effect_write_cases (l : Layout α) (h : ∀ p ∈ l.fields, p.1.Storable p.2)
    (buffer : List UInt8) :
    (Field.Fit l.fields ∧ Field.totalWidth l.fields ≤ 8 * buffer.length ∧
      l.write.effect (.ofBuffer buffer) =
        (.ok l.held, (Writer.ofBuffer buffer).append (Field.sentBits l.fields))) ∨
    ∃ before field value after cause,
      Field.StopsAt l.fields (8 * buffer.length) before field value after cause ∧
        l.write.effect (.ofBuffer buffer) =
          (.error cause, (Writer.ofBuffer buffer).append (Field.sentBits before)) := by
  have hcapacity : (Writer.ofBuffer buffer).available = 8 * buffer.length := rfl
  rw [effect_write_eq, Procedure.effect_map, ← hcapacity]
  rcases Field.effect_writeAll_cases h (Writer.ofBuffer buffer) with
    ⟨hfit, hroom, heffect⟩ | ⟨before, field, value, after, cause, hstop, heffect⟩
  · rw [heffect]
    exact .inl ⟨hfit, hroom, rfl⟩
  · rw [heffect]
    exact .inr ⟨before, field, value, after, cause, hstop, rfl⟩

/-- The held numbers fit their fields exactly where `P` holds, and then they are sent as these
bits. -/
structure Sends (l : Layout α) (P : Prop) (bits : List Bool) : Prop where
  storable : ∀ p ∈ l.fields, p.1.Storable p.2
  fit_iff : Field.Fit l.fields ↔ P
  sentBits_eq : P → Field.sentBits l.fields = bits

variable {l : Layout α} {P P' Q : Prop} {bits front back : List Bool}

theorem Sends.congr {bits' : List Bool} (h : l.Sends P bits) (hP : P ↔ P')
    (hbits : P' → bits = bits') : l.Sends P' bits' where
  storable := h.storable
  fit_iff := h.fit_iff.trans hP
  sentBits_eq hp := (h.sentBits_eq (hP.mpr hp)).trans (hbits hp)

/-- One part of the fields and then the rest. -/
theorem sends_append {whole : Layout β} {part : Layout γ}
    (hfields : whole.fields = l.fields ++ part.fields) (hl : l.Sends P front)
    (hpart : part.Sends Q back) : whole.Sends (P ∧ Q) (front ++ back) where
  storable := by
    rw [hfields]
    exact List.forall_mem_append.mpr ⟨hl.storable, hpart.storable⟩
  fit_iff := by rw [hfields, Field.fit_append, hl.fit_iff, hpart.fit_iff]
  sentBits_eq := by
    intro h
    rw [hfields, Field.sentBits, List.flatMap_append]
    exact congrArg₂ (· ++ ·) (hl.sentBits_eq h.1) (hpart.sentBits_eq h.2)

theorem Sends.bind {f : α → Layout β} {R : α → Prop} {more : α → List Bool} (hl : l.Sends P front)
    (hf : ∀ a, (f a).Sends (R a) (more a)) :
    (l >>= f).Sends (P ∧ R l.held) (front ++ more l.held) :=
  sends_append (fields_bind l f) hl (hf l.held)

theorem sends_pure (a : α) : (pure a : Layout α).Sends True [] where
  storable _ hp := absurd hp List.not_mem_nil
  fit_iff := iff_of_true Field.fit_nil trivial
  sentBits_eq _ := rfl

theorem sends_note (entry : Entry) (h : l.Sends P bits) : (note entry l).Sends P bits :=
  ⟨h.storable, h.fit_iff, h.sentBits_eq⟩

theorem Sends.map (h : l.Sends P bits) (f : α → β) : (f <$> l).Sends P bits := by
  have hbind : (l >>= fun a ↦ pure (f a)).Sends (P ∧ True) (bits ++ []) :=
    h.bind fun a ↦ sends_pure (f a)
  rw [List.append_nil] at hbind
  exact hbind.congr (iff_of_eq (and_true P)) fun _ ↦ rfl

theorem sends_field {fld : Field} {value : Nat} (hstorable : fld.Storable value) (f : Nat → α) :
    (field fld value fun v ↦ done (f v)).Sends (fld.sent value < 2 ^ fld.width)
      (fld.bits (fld.sent value)) where
  storable := List.forall_mem_singleton.mpr hstorable
  fit_iff := List.forall_mem_singleton
  sentBits_eq _ := List.append_nil _

theorem sends_union {tag : Field} {value : Nat} {fresh : Nat → Layout α}
    (hstorable : tag.Storable value) (h : l.Sends P bits) :
    (union tag value fresh l).Sends (tag.sent value < 2 ^ tag.width ∧ P)
      (tag.bits (tag.sent value) ++ bits) := by
  have htag := sends_field hstorable id
  exact sends_append (l := field tag value fun v ↦ done (id v)) rfl htag h

theorem Sends.ite {l' : Layout α} {bits' : List Bool} (b : Bool) (hl : l.Sends P bits)
    (hl' : l'.Sends P' bits') :
    (if b then l else l').Sends (if b then P else P') (if b then bits else bits') := by
  cases b with
  | false => exact hl'
  | true => exact hl

section Fields

variable {width : Nat} (name : String)

theorem Sends.flag_bind {f : Bool → Layout α} {R : Bool → Prop} {more : Bool → List Bool} (b : Bool)
    (h : ∀ b, (f b).Sends (R b) (more b)) :
    (flag name b >>= f).Sends (R b) ([b] ++ more b) := by
  have hstorable : (Field.flag name).Storable b.toNat := b.toNat_lt
  have hflag : (flag name b).Sends (b.toNat < 2 ^ 1) (Bits.ofNat 1 b.toNat) :=
    sends_field hstorable _
  have hheld : (flag name b).held = b := by cases b <;> rfl
  have hbind := hflag.bind h
  rw [Field.ofNat_one_toNat, hheld] at hbind
  exact hbind.congr (and_iff_right b.toNat_lt) fun _ ↦ rfl

theorem Sends.fixed_bind {expected : Nat} (hwidth : width ≤ 32) (hexpected : expected < 2 ^ width)
    (h : l.Sends P bits) :
    (fixed width name expected >>= fun _ ↦ l).Sends P (Bits.ofNat width expected ++ bits) := by
  have hstorable : (Field.fixed name width expected).Storable expected := hwidth
  have hfixed : (fixed width name expected).Sends (expected < 2 ^ width)
      (Bits.ofNat width expected) := sends_field hstorable _
  exact (hfixed.bind fun _ ↦ h).congr (and_iff_right hexpected) fun _ ↦ rfl

theorem Sends.unsigned_bind {υ : Type} {toNat : υ → Nat} {ofNat : Nat → υ} {storage : Nat}
    {f : υ → Layout α} {R : υ → Prop} {more : υ → List Bool} (hload : ∀ u, ofNat (toNat u) = u)
    (hwidth : width ≤ 32) (u : υ) (h : ∀ u, (f u).Sends (R u) (more u)) :
    (field (.unsigned name width storage) (toNat u) (fun v ↦ done (ofNat v)) >>= f).Sends
      (toNat u < 2 ^ width ∧ R u) (Bits.ofNat width (toNat u) ++ more u) := by
  have hstorable : (Field.unsigned name width storage).Storable (toNat u) := hwidth
  have hheld : (field (.unsigned name width storage) (toNat u) fun v ↦ done (ofNat v)).held = u :=
    hload u
  have hbind := (sends_field hstorable ofNat).bind h
  rwa [hheld] at hbind

theorem Sends.uint8_bind {f : UInt8 → Layout α} {R : UInt8 → Prop} {more : UInt8 → List Bool}
    (hwidth : width ≤ 32) (v : UInt8) (h : ∀ v, (f v).Sends (R v) (more v)) :
    (uint8 width name v >>= f).Sends (v.toNat < 2 ^ width ∧ R v)
      (Bits.ofNat width v.toNat ++ more v) :=
  Sends.unsigned_bind name (fun _ ↦ UInt8.ofNat_toNat) hwidth v h

theorem Sends.uint16_bind {f : UInt16 → Layout α} {R : UInt16 → Prop} {more : UInt16 → List Bool}
    (hwidth : width ≤ 32) (v : UInt16) (h : ∀ v, (f v).Sends (R v) (more v)) :
    (uint16 width name v >>= f).Sends (v.toNat < 2 ^ width ∧ R v)
      (Bits.ofNat width v.toNat ++ more v) :=
  Sends.unsigned_bind name (fun _ ↦ UInt16.ofNat_toNat) hwidth v h

end Fields

/-- Records in a row fit where each of them does. -/
theorem sends_sequence {R : α → Prop} {encode : α → List Bool} {layout : α → Layout β}
    (h : ∀ a, (layout a).Sends (R a) (encode a)) (as : List α) :
    (sequence (as.map layout)).Sends (∀ a ∈ as, R a) (as.flatMap encode) := by
  induction as with
  | nil => exact (sends_pure []).congr (by simp) fun _ ↦ rfl
  | cons a as ih =>
    have hrest (value : β) : (sequence (as.map layout) >>= fun values ↦
        pure (value :: values)).Sends (∀ a ∈ as, R a) (as.flatMap encode) := ih.map (value :: ·)
    exact ((h a).bind hrest).congr List.forall_mem_cons.symm fun _ ↦ rfl

end Layout

end ClosedCaptions
