import ClosedCaptions.Layout.Basic
import ClosedCaptions.Proofs.Layout.Field

/-!
# Layouts as codecs

What a layout says about bits, for each of its two directions. Reading accepts exactly the bits
that the layout spells, and writing puts exactly the bits of the held values. A family of layouts
codes a kind of record when both directions agree with one encoding, whatever values were held
before reading.
-/

namespace ClosedCaptions.Layout

variable {α β : Type}

/-- Reading takes these bits and yields this value. -/
def Reads : Layout α → List Bool → α → Prop
  | done value, bits, a => bits = [] ∧ a = value
  | note _ next, bits, a => next.Reads bits a
  | field fld _ next, bits, a =>
    ∃ value rest, fld.Admits value ∧ (next value).Reads rest a ∧ bits = fld.bits value ++ rest
  | union tag _ fresh _, bits, a =>
    ∃ value rest, tag.Admits value ∧ (fresh value).Reads rest a ∧ bits = tag.bits value ++ rest

/-- Reading takes exactly the encodings of the values in `P`. -/
def Decodes (l : Layout α) (P : α → Prop) (encode : α → List Bool) : Prop :=
  ∀ bits a, l.Reads bits a ↔ P a ∧ bits = encode a

/-- The fields that are written, with the values they hold. -/
def fields : Layout α → List (Field × Nat)
  | done _ => []
  | note _ next => next.fields
  | field fld value next => (fld, value) :: (next value).fields
  | union tag value _ held => (tag, value) :: held.fields

/-- The value that the held fields make up. -/
def held : Layout α → α
  | done value => value
  | note _ next => next.held
  | field _ value next => (next value).held
  | union _ _ _ held => held.held

/-- Writing puts these bits and yields this value. -/
structure Puts (l : Layout α) (bits : List Bool) (a : α) : Prop where
  admits : ∀ p ∈ l.fields, p.1.Admits p.2
  bits_eq : Field.bitsOfAll l.fields = bits
  held_eq : l.held = a

/-! ## The two engines -/

theorem effect_bind_field_read_iff {fld : Field} {next : Nat → Procedure Reader α}
    {spelled : Nat → List Bool → Prop} {a : α} {r r' : Reader}
    (h : ∀ value t, (next value).effect t = (.ok a, r') ↔
      ∃ bits, spelled value bits ∧ bits <+: t.remaining ∧ r' = t.advance bits.length) :
    (fld.read >>= next).effect r = (.ok a, r') ↔
      ∃ bits, (∃ value rest, fld.Admits value ∧ spelled value rest ∧
        bits = fld.bits value ++ rest) ∧ bits <+: r.remaining ∧ r' = r.advance bits.length := by
  rw [Procedure.effect_bind_eq_ok_iff]
  constructor
  · intro ⟨value, t, hread, hnext⟩
    obtain ⟨hadmits, ⟨rest, hrest⟩, rfl⟩ := Field.effect_read_eq_ok_iff.mp hread
    obtain ⟨bits, hspelled, hstart, rfl⟩ := (h value _).mp hnext
    refine ⟨fld.bits value ++ bits, ⟨value, bits, hadmits, hspelled, rfl⟩, ?_, ?_⟩
    · rw [Reader.remaining_advance, ← hrest, List.drop_left' (Field.length_bits _ _)] at hstart
      rw [← hrest]
      exact List.prefix_append_right_inj _ |>.mpr hstart
    · simp
  · rintro ⟨_, ⟨value, rest, hadmits, hspelled, rfl⟩, hstart, rfl⟩
    have hhead : fld.bits value <+: r.remaining := (List.prefix_append _ _).trans hstart
    refine ⟨value, r.advance fld.width, Field.effect_read_eq_ok_iff.mpr ⟨hadmits, hhead, rfl⟩,
      (h value _).mpr ⟨rest, hspelled, ?_, ?_⟩⟩
    · obtain ⟨more, hmore⟩ := hstart
      rw [Reader.remaining_advance, ← hmore, List.append_assoc,
        List.drop_left' (Field.length_bits _ _)]
      exact List.prefix_append _ _
    · simp

/-- The read engine accepts exactly what a layout spells. -/
theorem effect_read_eq_ok_iff {l : Layout α} {r r' : Reader} {a : α} :
    l.read.effect r = (.ok a, r') ↔
      ∃ bits, l.Reads bits a ∧ bits <+: r.remaining ∧ r' = r.advance bits.length := by
  induction l generalizing r with
  | done value =>
    simp only [read, Procedure.effect_pure, Prod.mk.injEq, Except.ok.injEq, Reads]
    constructor
    · rintro ⟨rfl, rfl⟩
      exact ⟨[], ⟨rfl, rfl⟩, List.nil_prefix, rfl⟩
    · rintro ⟨_, ⟨rfl, rfl⟩, -, rfl⟩
      exact ⟨rfl, rfl⟩
  | note entry next ih =>
    rw [read, Procedure.effect_log_bind]
    exact ih
  | field fld value next ih => exact effect_bind_field_read_iff fun value _ ↦ ih value
  | union tag value fresh held ih _ => exact effect_bind_field_read_iff fun value _ ↦ ih value

theorem effect_write_bind_eq {fld : Field} {value : Nat} {rest : Layout α}
    (h : ∀ w, rest.write.effect w =
      ((fun _ ↦ rest.held) <$> Field.writeAll rest.fields).effect w) (w : Writer) :
    (fld.write value >>= fun _ ↦ rest.write).effect w =
      ((fun _ ↦ rest.held) <$> Field.writeAll ((fld, value) :: rest.fields)).effect w := by
  rw [Procedure.effect_map, Field.writeAll, Procedure.effect_bind, Procedure.effect_bind]
  rcases (fld.write value).effect w with ⟨_ | _, t⟩
  · rfl
  · exact h t

/-- Writing a layout is writing its held fields in turn. -/
theorem effect_write_eq (l : Layout α) (w : Writer) :
    l.write.effect w = ((fun _ ↦ l.held) <$> Field.writeAll l.fields).effect w := by
  induction l generalizing w with
  | done value => rfl
  | note entry next ih =>
    rw [write, Procedure.effect_log_bind]
    exact ih w
  | field fld value next ih => exact effect_write_bind_eq (ih value) w
  | union tag value fresh held _ ih => exact effect_write_bind_eq ih w

/-- The write engine puts the held fields where there is room for their bits. -/
theorem effect_write {l : Layout α} {bits : List Bool} {a : α} {w : Writer} (h : l.Puts bits a)
    (hroom : bits.length ≤ w.available) : l.write.effect w = (.ok a, w.append bits) := by
  obtain ⟨hadmits, rfl, rfl⟩ := h
  rw [effect_write_eq, Procedure.effect_map, Field.effect_writeAll hadmits hroom]
  rfl

/-! ## Sequences of layouts -/

theorem reads_bind {l : Layout α} {f : α → Layout β} {bits : List Bool} {b : β} :
    (l >>= f).Reads bits b ↔
      ∃ front back a, l.Reads front a ∧ (f a).Reads back b ∧ bits = front ++ back := by
  change (l.bind f).Reads bits b ↔ _
  induction l generalizing bits with
  | done value => simp [Layout.bind, Reads]
  | note entry next ih => exact ih
  | field fld value next ih | union fld value next held ih _ =>
    simp only [Layout.bind, Reads, ih]
    constructor
    · rintro ⟨v, _, hadmits, ⟨front, back, a, hfront, hback, rfl⟩, rfl⟩
      exact ⟨fld.bits v ++ front, back, a, ⟨v, front, hadmits, hfront, rfl⟩, hback,
        (List.append_assoc _ _ _).symm⟩
    · rintro ⟨_, back, a, ⟨v, rest, hadmits, hfront, rfl⟩, hback, rfl⟩
      exact ⟨v, rest ++ back, hadmits, ⟨rest, back, a, hfront, hback, rfl⟩,
        List.append_assoc _ _ _⟩

/-- Reading a layout in two parts. -/
theorem read_bind (l : Layout α) (f : α → Layout β) :
    (l >>= f).read = l.read >>= fun a ↦ (f a).read := by
  change (l.bind f).read = _
  induction l with
  | done value => exact (pure_bind value fun a ↦ (f a).read).symm
  | note entry next ih =>
    rw [Layout.bind, read, read, ih, bind_assoc]
  | field fld value next ih | union fld value next held ih _ =>
    rw [Layout.bind, read, read, bind_assoc]
    exact congrArg _ (funext ih)

theorem held_bind (l : Layout α) (f : α → Layout β) : (l >>= f).held = (f l.held).held := by
  change (l.bind f).held = _
  induction l with
  | done value => rfl
  | note entry next ih => exact ih
  | field fld value next ih => exact ih value
  | union tag value fresh held _ ih => exact ih

theorem fields_bind (l : Layout α) (f : α → Layout β) :
    (l >>= f).fields = l.fields ++ (f l.held).fields := by
  change (l.bind f).fields = _
  induction l with
  | done value => rfl
  | note entry next ih => exact ih
  | field fld value next ih => exact congrArg _ (ih value)
  | union tag value fresh held _ ih => exact congrArg _ ih

section Decodes

variable {P P' : α → Prop} {Q : α → β → Prop} {encode encode' : α → List Bool}
  {l : Layout α} {f : α → Layout β} {more : α → β → List Bool}

/-- A part and then the rest, where the part can be told from the whole. -/
theorem Decodes.bind (part : β → α) (hl : l.Decodes P encode)
    (hf : ∀ a, P a → (f a).Decodes (Q a) (more a)) (hpart : ∀ a b, P a → Q a b → part b = a) :
    (l >>= f).Decodes (fun b ↦ P (part b) ∧ Q (part b) b)
      fun b ↦ encode (part b) ++ more (part b) b := by
  intro bits b
  rw [reads_bind]
  constructor
  · intro ⟨_, _, a, hfront, hback, hbits⟩
    obtain ⟨ha, rfl⟩ := (hl _ a).mp hfront
    obtain ⟨hb, rfl⟩ := (hf a ha _ b).mp hback
    dsimp only
    rw [hpart a b ha hb]
    exact ⟨⟨ha, hb⟩, hbits⟩
  · intro ⟨⟨ha, hb⟩, hbits⟩
    exact ⟨_, _, part b, (hl _ _).mpr ⟨ha, rfl⟩, (hf _ ha _ b).mpr ⟨hb, rfl⟩, hbits⟩

theorem Decodes.congr (h : l.Decodes P encode) (hP : ∀ a, P a ↔ P' a)
    (hencode : ∀ a, P' a → encode a = encode' a) : l.Decodes P' encode' := by
  intro bits a
  rw [h, hP]
  apply and_congr_right
  intro ha
  rw [hencode a ha]

theorem decodes_pure (value : α) : (pure value : Layout α).Decodes (· = value) fun _ ↦ [] := by
  intro bits a
  exact and_comm

theorem decodes_note (entry : Entry) (h : l.Decodes P encode) : (note entry l).Decodes P encode :=
  h

/-- Reading takes the alternative that the tag in the bits selects. -/
theorem decodes_union {tag : Field} {value : Nat} {fresh : Nat → Layout α} {held : Layout α} :
    (union tag value fresh held).Decodes P encode ↔ (field tag value fresh).Decodes P encode :=
  Iff.rfl

theorem decodes_ite (b : Bool) {l' : Layout α} (hl : l.Decodes P encode)
    (hl' : l'.Decodes P' encode') :
    (if b then l else l').Decodes (fun a ↦ if b then P a else P' a)
      fun a ↦ if b then encode a else encode' a := by
  cases b with
  | false => exact hl'
  | true => exact hl

/-- The read engine yields the values whose encoding stands in front. -/
theorem Decodes.read_eq_ok_iff (h : l.Decodes P encode) {a : α} {r : Reader} :
    (l.read.effect r).1 = .ok a ↔ P a ∧ encode a <+: r.remaining := by
  constructor
  · intro hread
    obtain ⟨bits, hreads, hstart, _⟩ := effect_read_eq_ok_iff.mp (Prod.ext hread rfl)
    obtain ⟨ha, rfl⟩ := (h bits a).mp hreads
    exact ⟨ha, hstart⟩
  · intro ⟨ha, hstart⟩
    have hreads : l.Reads (encode a) a := (h _ a).mpr ⟨ha, rfl⟩
    exact congrArg Prod.fst (effect_read_eq_ok_iff.mpr ⟨encode a, hreads, hstart, rfl⟩)

/-- A value inside a larger one. -/
theorem Decodes.map {wrap : α → β} {R : β → Prop} {encode' : β → List Bool}
    (h : l.Decodes P encode) (hR : ∀ b, R b ↔ ∃ a, P a ∧ b = wrap a)
    (hencode : ∀ a, encode' (wrap a) = encode a) : (wrap <$> l).Decodes R encode' := by
  intro bits b
  change (l >>= fun a ↦ pure (wrap a)).Reads bits b ↔ _
  rw [reads_bind, hR]
  constructor
  · intro ⟨_, _, a, hfront, ⟨hback, hb⟩, hbits⟩
    obtain ⟨ha, rfl⟩ := (h _ a).mp hfront
    rw [hback, List.append_nil] at hbits
    rw [hb, hencode]
    exact ⟨⟨a, ha, rfl⟩, hbits⟩
  · intro ⟨⟨a, ha, hb⟩, hbits⟩
    rw [hb, hencode] at hbits
    exact ⟨bits, [], a, (h _ a).mpr ⟨ha, hbits⟩, ⟨rfl, hb⟩, (List.append_nil bits).symm⟩

end Decodes

theorem Puts.bind {l : Layout α} {f : α → Layout β} {front back : List Bool} {a : α} {b : β}
    (hl : l.Puts front a) (hf : (f a).Puts back b) : (l >>= f).Puts (front ++ back) b := by
  obtain ⟨hadmits, rfl, rfl⟩ := hl
  refine ⟨?_, ?_, ?_⟩
  · rw [fields_bind]
    intro p hp
    rcases List.mem_append.mp hp with hp | hp
    · exact hadmits p hp
    · exact hf.admits p hp
  · rw [fields_bind, Field.bitsOfAll, List.flatMap_append]
    exact congrArg _ hf.bits_eq
  · rw [held_bind, hf.held_eq]

theorem puts_pure (value : α) : (pure value : Layout α).Puts [] value :=
  ⟨fun _ hp ↦ absurd hp List.not_mem_nil, rfl, rfl⟩

theorem puts_note {l : Layout α} {bits : List Bool} {a : α} (entry : Entry) (h : l.Puts bits a) :
    (note entry l).Puts bits a :=
  ⟨h.admits, h.bits_eq, h.held_eq⟩

theorem Puts.bind_pure {l : Layout α} {bits : List Bool} {a : α} (h : l.Puts bits a) (f : α → β) :
    (l >>= fun a ↦ pure (f a)).Puts bits (f a) := by
  have hbind : (l >>= fun a ↦ pure (f a)).Puts (bits ++ []) (f a) := h.bind (puts_pure (f a))
  rwa [List.append_nil] at hbind

theorem Puts.map {l : Layout α} {bits : List Bool} {a : α} (h : l.Puts bits a) (f : α → β) :
    (f <$> l).Puts bits (f a) :=
  h.bind_pure f

/-! ## Single fields -/

theorem reads_field {fld : Field} {value : Nat} {f : Nat → α} {bits : List Bool} {a : α} :
    (field fld value fun v ↦ done (f v)).Reads bits a ↔
      ∃ v, fld.Admits v ∧ a = f v ∧ bits = fld.bits v := by
  simp [Reads]

theorem puts_field {fld : Field} {value : Nat} (h : fld.Admits value) (f : Nat → α) :
    (field fld value fun v ↦ done (f v)).Puts (fld.bits value) (f value) := by
  refine ⟨?_, by simp [fields, Field.bitsOfAll], rfl⟩
  simpa [fields] using h

theorem puts_union {tag : Field} {value : Nat} {fresh : Nat → Layout α} {payload : Layout α}
    {bits : List Bool} {a : α} (htag : tag.Admits value) (hpayload : payload.Puts bits a) :
    (union tag value fresh payload).Puts (tag.bits value ++ bits) a := by
  obtain ⟨hadmits, rfl, rfl⟩ := hpayload
  refine ⟨?_, rfl, rfl⟩
  intro p hp
  rcases List.mem_cons.mp hp with rfl | hp
  · exact htag
  · exact hadmits p hp

theorem decodes_flag (name : String) (value : Bool) :
    (flag name value).Decodes (fun _ ↦ True) fun b ↦ [b] := by
  intro bits b
  rw [flag, reads_field, true_and]
  constructor
  · intro ⟨v, hv, hb, hbits⟩
    rw [hb, hbits]
    match v, hv with
    | 0, _ | 1, _ => rfl
  · intro hbits
    have hvalue : b = (b.toNat != 0) := by cases b <;> rfl
    exact ⟨b.toNat, b.toNat_lt, hvalue, hbits.trans (Field.ofNat_one_toNat b).symm⟩

theorem Decodes.flag_bind {P : Bool → α → Prop} {encode : Bool → α → List Bool}
    {f : Bool → Layout α} (part : α → Bool) (name : String) (value : Bool)
    (h : ∀ b, (f b).Decodes (P b) (encode b)) (hpart : ∀ b a, P b a → part a = b) :
    (flag name value >>= f).Decodes (fun a ↦ P (part a) a)
      fun a ↦ [part a] ++ encode (part a) a := by
  have hflag := decodes_flag name value
  refine (Decodes.bind part hflag (fun b _ ↦ h b) fun b a _ ↦ hpart b a).congr ?_ ?_
  · exact fun a ↦ iff_of_eq (true_and _)
  · exact fun a _ ↦ rfl

theorem puts_flag (name : String) (b : Bool) : (flag name b).Puts [b] b := by
  have hadmits : (Field.flag name).Admits b.toNat := b.toNat_lt
  have hputs := puts_field hadmits fun v ↦ v != 0
  cases b <;> exact hputs

theorem decodes_fixed {width expected : Nat} (name : String) (hwidth : width ≤ 32)
    (hexpected : expected < 2 ^ width) :
    (fixed width name expected).Decodes (fun _ ↦ True) fun _ ↦ Bits.ofNat width expected := by
  intro bits u
  rw [fixed, reads_field]
  simp [Field.Admits, hwidth, hexpected, Field.bits, Field.width]

theorem Decodes.fixed_bind {P : α → Prop} {encode : α → List Bool} {l : Layout α}
    {width expected : Nat} (name : String) (hwidth : width ≤ 32) (hexpected : expected < 2 ^ width)
    (h : l.Decodes P encode) :
    (fixed width name expected >>= fun _ ↦ l).Decodes P
      fun a ↦ Bits.ofNat width expected ++ encode a := by
  have hfixed := decodes_fixed name hwidth hexpected
  refine (Decodes.bind (fun _ ↦ ()) hfixed (fun _ _ ↦ h) fun _ _ _ _ ↦ rfl).congr ?_ ?_
  · exact fun a ↦ iff_of_eq (true_and _)
  · exact fun a _ ↦ rfl

theorem puts_fixed {width expected : Nat} (name : String) (hwidth : width ≤ 32)
    (hexpected : expected < 2 ^ width) :
    (fixed width name expected).Puts (Bits.ofNat width expected) () := by
  have hadmits : (Field.fixed name width expected).Admits expected := ⟨hwidth, hexpected, rfl⟩
  exact puts_field hadmits fun _ ↦ ()

section Unsigned

variable {υ : Type} {toNat : υ → Nat} {ofNat : Nat → υ} {storage : Nat}

theorem decodes_unsigned {width value : Nat} (name : String)
    (hstore : ∀ u, toNat u < 2 ^ storage) (hload : ∀ u, ofNat (toNat u) = u)
    (hback : ∀ v < 2 ^ storage, toNat (ofNat v) = v) (hwidth : width ≤ 32) :
    (field (.unsigned name width storage) value fun v ↦ done (ofNat v)).Decodes
      (fun u ↦ toNat u < 2 ^ width) fun u ↦ Bits.ofNat width (toNat u) := by
  intro bits u
  rw [reads_field]
  constructor
  · intro ⟨v, ⟨_, hv, hs⟩, hu, hbits⟩
    dsimp only
    rw [hu, hback v hs]
    exact ⟨hv, hbits⟩
  · intro ⟨hu, hbits⟩
    exact ⟨toNat u, ⟨hwidth, hu, hstore u⟩, (hload u).symm, hbits⟩

theorem puts_unsigned {width : Nat} (name : String) {u : υ}
    (hstore : ∀ u, toNat u < 2 ^ storage) (hload : ∀ u, ofNat (toNat u) = u)
    (hwidth : width ≤ 32) (hu : toNat u < 2 ^ width) :
    (field (.unsigned name width storage) (toNat u) fun v ↦ done (ofNat v)).Puts
      (Bits.ofNat width (toNat u)) u := by
  have hadmits : (Field.unsigned name width storage).Admits (toNat u) := ⟨hwidth, hu, hstore u⟩
  have hputs := puts_field hadmits ofNat
  rwa [hload] at hputs

end Unsigned

theorem decodes_uint8 {width : Nat} (name : String) (value : UInt8) (hwidth : width ≤ 32) :
    (uint8 width name value).Decodes (fun v ↦ v.toNat < 2 ^ width)
      fun v ↦ Bits.ofNat width v.toNat :=
  decodes_unsigned name UInt8.toNat_lt (fun _ ↦ UInt8.ofNat_toNat)
    (fun _ ↦ UInt8.toNat_ofNat_of_lt') hwidth

theorem puts_uint8 {width : Nat} (name : String) {v : UInt8} (hwidth : width ≤ 32)
    (hv : v.toNat < 2 ^ width) : (uint8 width name v).Puts (Bits.ofNat width v.toNat) v :=
  puts_unsigned name UInt8.toNat_lt (fun _ ↦ UInt8.ofNat_toNat) hwidth hv

theorem decodes_uint16 {width : Nat} (name : String) (value : UInt16) (hwidth : width ≤ 32) :
    (uint16 width name value).Decodes (fun v ↦ v.toNat < 2 ^ width)
      fun v ↦ Bits.ofNat width v.toNat :=
  decodes_unsigned name UInt16.toNat_lt (fun _ ↦ UInt16.ofNat_toNat)
    (fun _ ↦ UInt16.toNat_ofNat_of_lt') hwidth

theorem puts_uint16 {width : Nat} (name : String) {v : UInt16} (hwidth : width ≤ 32)
    (hv : v.toNat < 2 ^ width) : (uint16 width name v).Puts (Bits.ofNat width v.toNat) v :=
  puts_unsigned name UInt16.toNat_lt (fun _ ↦ UInt16.ofNat_toNat) hwidth hv

theorem decodes_uint32 {width : Nat} (name : String) (value : UInt32) (hwidth : width ≤ 32) :
    (uint32 width name value).Decodes (fun v ↦ v.toNat < 2 ^ width)
      fun v ↦ Bits.ofNat width v.toNat :=
  decodes_unsigned name UInt32.toNat_lt (fun _ ↦ UInt32.ofNat_toNat)
    (fun _ ↦ UInt32.toNat_ofNat_of_lt') hwidth

theorem puts_uint32 {width : Nat} (name : String) {v : UInt32} (hwidth : width ≤ 32)
    (hv : v.toNat < 2 ^ width) : (uint32 width name v).Puts (Bits.ofNat width v.toNat) v :=
  puts_unsigned name UInt32.toNat_lt (fun _ ↦ UInt32.ofNat_toNat) hwidth hv

/-! ## Kinds of records -/

/-- Reading takes exactly the encodings of canonical records, whatever record was held before, and
writing a canonical record puts its encoding. -/
structure Codes (layout : α → Layout α) (Canonical : α → Prop) (encode : α → List Bool) :
    Prop where
  decodes : ∀ before, (layout before).Decodes Canonical encode
  puts : ∀ {a}, Canonical a → (layout a).Puts (encode a) a

variable {layout : α → Layout α} {Canonical : α → Prop} {encode : α → List Bool}

/-- The read engine yields the canonical records whose encoding stands in front. -/
theorem Codes.read_eq_ok_iff (h : Codes layout Canonical encode) (before : α) {a : α}
    {r : Reader} :
    ((layout before).read.effect r).1 = .ok a ↔ Canonical a ∧ encode a <+: r.remaining :=
  (h.decodes before).read_eq_ok_iff

theorem Codes.decodes_sequence (h : Codes layout Canonical encode) (before : List α) :
    (sequence (before.map layout)).Decodes
      (fun as ↦ as.length = before.length ∧ ∀ a ∈ as, Canonical a) (·.flatMap encode) := by
  induction before with
  | nil =>
    refine (decodes_pure []).congr ?_ ?_
    · intro as
      constructor
      · intro h
        simp [h]
      · exact fun h ↦ List.length_eq_zero_iff.mp h.1
    · intro as h
      rw [List.length_eq_zero_iff.mp h.1]
      rfl
  | cons held before ih =>
    have hrest (a : α) : (sequence (before.map layout) >>= fun as ↦ pure (a :: as)).Decodes
        (fun as ↦ ∃ tail, (tail.length = before.length ∧ ∀ a ∈ tail, Canonical a) ∧ as = a :: tail)
        (fun as ↦ as.tail.flatMap encode) :=
      Decodes.map ih (fun _ ↦ Iff.rfl) fun _ ↦ rfl
    refine (Decodes.bind (fun as ↦ as.head?.getD held) (h.decodes held) (fun a _ ↦ hrest a)
      ?_).congr ?_ ?_
    · intro a as _ ⟨tail, _, htail⟩
      rw [htail]
      rfl
    · intro as
      cases as with
      | nil => simp
      | cons a as => simp [and_left_comm, and_assoc]
    · intro as has
      obtain ⟨a, tail, rfl⟩ := List.exists_cons_of_length_eq_add_one has.1
      rfl

theorem Codes.puts_sequence (h : Codes layout Canonical encode) {as : List α}
    (has : ∀ a ∈ as, Canonical a) : (sequence (as.map layout)).Puts (as.flatMap encode) as := by
  induction as with
  | nil => exact puts_pure []
  | cons a as ih =>
    have hhead := h.puts (has a List.mem_cons_self)
    have htail := ih fun b hb ↦ has b (List.mem_cons_of_mem _ hb)
    exact Puts.bind hhead (htail.bind_pure (a :: ·))

end ClosedCaptions.Layout
