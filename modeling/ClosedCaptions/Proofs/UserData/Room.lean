import ClosedCaptions.Proofs.Layout.Stopping
import ClosedCaptions.Proofs.UserData.SideData

/-!
# The room that user data takes

User data is in range when every number that it sends has the width of its field. Encoding it
succeeds exactly when it is in range and the buffer has room for all of it, and what a shorter
buffer then holds is the front of the encoding. Data out of range is refused at a field, and a
packet count that is too large in front of the first packet.
-/

namespace ClosedCaptions

open Layout

/-! ## What is sent -/

namespace ActiveFormat

/-- A format that is given takes four bits. -/
def InRange (d : ActiveFormat) : Prop :=
  d.active = true → d.format.toNat ≤ 15

theorem sends_layout (d : ActiveFormat) : d.layout.Sends d.InRange d.bits := by
  have hformat := Sends.fixed_bind "reserved" (by decide : 4 ≤ 32) (by decide : 0xf < 2 ^ 4)
    (Sends.uint8_bind "active_format" (by decide : 4 ≤ 32) d.format
      fun format ↦ sends_pure (mk true format))
  have h := Sends.fixed_bind "zero_bit" (by decide : 1 ≤ 32) (by decide : 0 < 2 ^ 1)
    (Sends.flag_bind "active_format_flag" d.active
      fun active ↦ Sends.fixed_bind "alignment_bits" (by decide : 6 ≤ 32) (by decide : 1 < 2 ^ 6)
        (Sends.ite active hformat (sends_pure blank)))
  apply h.congr
  · simp [InRange, Nat.lt_succ_iff]
  · intro _
    simp [bits]

end ActiveFormat

namespace Bar

/-- The line of a bar that is there takes fourteen bits. -/
def InRange (bar : Bar) : Prop :=
  bar.present = true → bar.line.toNat ≤ 0x3FFF

theorem sends_layout (bar : Bar) (present : Bool) (name : String) :
    (bar.layout present name).Sends (present = true → bar.line.toNat ≤ 0x3FFF)
      (if present then Bits.ofNat 2 3 ++ Bits.ofNat 14 bar.line.toNat else []) := by
  have hline := Sends.fixed_bind "one_bits" (by decide : 2 ≤ 32) (by decide : 3 < 2 ^ 2)
    (Sends.uint16_bind name (by decide : 14 ≤ 32) bar.line fun line ↦ sends_pure (mk true line))
  apply (Sends.ite present hline (sends_pure blank)).congr
  · simp [Nat.lt_succ_iff]
  · intro _
    rw [List.append_nil]

end Bar

namespace BarData

structure InRange (d : BarData) : Prop where
  top : d.top.InRange
  bottom : d.bottom.InRange
  left : d.left.InRange
  right : d.right.InRange

theorem sends_layout (d : BarData) : d.layout.Sends d.InRange d.bits := by
  have h := Sends.flag_bind "top_bar_flag" d.top.present
    fun t ↦ Sends.flag_bind "bottom_bar_flag" d.bottom.present
      fun b ↦ Sends.flag_bind "left_bar_flag" d.left.present
        fun l ↦ Sends.flag_bind "right_bar_flag" d.right.present
          fun r ↦ Sends.fixed_bind "reserved" (by decide : 4 ≤ 32) (by decide : 0xf < 2 ^ 4)
            ((d.top.sends_layout t "line_number_end_of_top_bar").bind
              fun top ↦ (d.bottom.sends_layout b "line_number_end_of_bottom_bar").bind
                fun bottom ↦ (d.left.sends_layout l "line_number_end_of_left_bar").bind
                  fun left ↦ (d.right.sends_layout r "line_number_end_of_right_bar").bind
                    fun right ↦ sends_pure (mk top bottom left right))
  apply h.congr
  · constructor
    · intro ⟨top, bottom, left, right, _⟩
      exact ⟨top, bottom, left, right⟩
    · intro hrange
      exact ⟨hrange.top, hrange.bottom, hrange.left, hrange.right, trivial⟩
  · intro _
    simp [bits, Bar.lineBits]

end BarData

namespace CcPacket

theorem sends_layout (packet : CcPacket) : packet.layout.Sends packet.Canonical packet.bits := by
  have h := Sends.fixed_bind "marker_bits" (by decide : 5 ≤ 32) (by decide : 0x1f < 2 ^ 5)
    (Sends.flag_bind "cc_valid" packet.valid
      fun valid ↦ Sends.uint8_bind "cc_type" (by decide : 2 ≤ 32) packet.type
        fun type ↦ Sends.uint8_bind "cc_data_1" (by decide : 8 ≤ 32) packet.data1
          fun data1 ↦ Sends.uint8_bind "cc_data_2" (by decide : 8 ≤ 32) packet.data2
            fun data2 ↦ sends_pure (mk valid type data1 data2))
  apply h.congr
  · have hdata1 := packet.data1.toNat_lt
    have hdata2 := packet.data2.toNat_lt
    simp [Canonical, hdata1, hdata2, Nat.lt_succ_iff]
  · intro _
    simp [bits]

end CcPacket

namespace CcData

theorem sends_layout (d : CcData) : d.layout.Sends (SideData.Writable d) d.bits := by
  have hpackets (count : UInt8) := sends_sequence CcPacket.sends_layout
    ((List.range count.toNat).map d.slot)
  simp only [List.map_map] at hpackets
  have h := Sends.flag_bind "process_em_data_flag" d.processEmData
    fun em ↦ Sends.flag_bind "process_cc_data_flag" d.processCcData
      fun cc ↦ Sends.flag_bind "additional_data_flag" d.additionalData
        fun more ↦ Sends.uint8_bind "cc_count" (by decide : 5 ≤ 32) d.count
          fun count ↦ Sends.uint8_bind "em_data" (by decide : 8 ≤ 32) d.emData
            fun emData ↦ (hpackets count).bind
              fun packets ↦ Sends.fixed_bind "marker_bits" (by decide : 8 ≤ 32)
                (by decide : 0xff < 2 ^ 8)
                (sends_pure (mk em cc more count emData (slotsOf packets)))
  apply h.congr
  · constructor
    · intro ⟨hcount, _, hslots, _⟩
      have hle : d.count.toNat ≤ maxPackets := Nat.le_of_lt_succ hcount
      rw [map_slot_range hle] at hslots
      exact ⟨hle, hslots⟩
    · intro hwritable
      have hcount : d.count.toNat < 2 ^ 5 := Nat.lt_succ_of_le hwritable.count_le
      refine ⟨hcount, d.emData.toNat_lt, ?_, trivial⟩
      rw [map_slot_range hwritable.count_le]
      exact hwritable.packets
  · intro hwritable
    simp [bits, map_slot_range hwritable.count_le]

end CcData

namespace AtscData

def InRange : AtscData → Prop
  | ccData data => SideData.Writable data
  | barData data => data.InRange
  | unknown _ => True

theorem sends_payload (d : AtscData) : d.payload.Sends d.InRange d.payloadBits := by
  cases d with
  | ccData data => exact data.sends_layout.map ccData
  | barData data => exact data.sends_layout.map barData
  | unknown code => exact sends_note _ (sends_pure (unknown code))

theorem sends_layout (d : AtscData) : d.layout.Sends d.InRange d.bits := by
  have hcode : d.typeCode.toNat < 2 ^ 8 := d.typeCode.toNat_lt
  have hstorable : (Field.unsigned "user_data_type_code" 8 8).Storable d.typeCode.toNat :=
    (by decide : 8 ≤ 32)
  exact (sends_union hstorable d.sends_payload).congr (and_iff_right hcode) fun _ ↦ rfl

end AtscData

namespace UserData

/-- Every number that is sent has the width of its field, and no block has more packets than it
has slots for. -/
def InRange : UserData → Prop
  | atsc data => data.InRange
  | activeFormat data => data.InRange
  | unknown _ => True

theorem sends_payload (d : UserData) : d.payload.Sends d.InRange d.payloadBits := by
  cases d with
  | atsc data => exact data.sends_layout.map atsc
  | activeFormat data => exact data.sends_layout.map activeFormat
  | unknown identifier => exact sends_note _ (sends_pure (unknown identifier))

theorem sends_layout (d : UserData) : d.layout.Sends d.InRange d.bits := by
  have hidentifier : d.identifier.toNat < 2 ^ 32 := d.identifier.toNat_lt
  have hstorable : (Field.unsigned "user_identifier" 32 32).Storable d.identifier.toNat :=
    (by decide : 32 ≤ 32)
  exact (sends_union hstorable d.sends_payload).congr (and_iff_right hidentifier) fun _ ↦ rfl

/-! ## Sizes -/

/-- The bytes of an encoding: a caption block takes three for each packet, bar data two for each
bar that is there. -/
def room : UserData → Nat
  | atsc (.ccData data) => 8 + 3 * data.count.toNat
  | atsc (.barData data) =>
    6 + 2 * [data.top, data.bottom, data.left, data.right].countP Bar.present
  | atsc (.unknown _) => 5
  | activeFormat data => if data.active then 6 else 5
  | unknown _ => 4

theorem InRange.size_eq {d : UserData} (h : d.InRange) : d.size = d.room := by
  match d with
  | atsc (.ccData data) =>
    have hcount := CcData.length_packets (SideData.Writable.count_le h)
    simp only [size, AtscData.size, CcData.size, room, hcount]
    omega
  | atsc (.barData ⟨⟨t, _⟩, ⟨b, _⟩, ⟨l, _⟩, ⟨r, _⟩⟩) =>
    cases t <;> cases b <;> cases l <;> cases r <;> rfl
  | atsc (.unknown code) => rfl
  | activeFormat ⟨active, format⟩ => cases active <;> rfl
  | unknown identifier => rfl

theorem InRange.totalWidth_eq {d : UserData} (h : d.InRange) :
    Field.totalWidth d.layout.fields = 8 * d.room := by
  rw [← Field.length_sentBits, d.sends_layout.sentBits_eq h, length_bits, h.size_eq]

/-! ## Outcomes -/

/-- Writing over a buffer ends at a field that is refused. The bytes that the fields in front of it
fill are stored. -/
structure WriteStops (d : UserData) (buffer : List UInt8) (before : List (Field × Nat))
    (field : Field) (value : Nat) (after : List (Field × Nat)) (cause : Error) : Prop where
  stopsAt : Field.StopsAt d.layout.fields (8 * buffer.length) before field value after cause
  effect : d.write.effect buffer = (.error cause,
    Bits.toBytes (Field.sentBits before) ++ buffer.drop (Field.totalWidth before / 8))

/-- All fields are stored, or those in front of the first that is refused. -/
theorem effect_write_cases (d : UserData) (buffer : List UInt8) :
    (d.InRange ∧ d.room ≤ buffer.length ∧
      d.write.effect buffer = (.ok d.room, d.bytes ++ buffer.drop d.room)) ∨
    ∃ before field value after cause, d.WriteStops buffer before field value after cause := by
  rcases Layout.effect_write_cases d.layout d.sends_layout.storable buffer with
    ⟨hfit, hroom, hlayout⟩ | ⟨before, field, value, after, cause, hstop, hlayout⟩
  · have hrange : d.InRange := d.sends_layout.fit_iff.mp hfit
    rw [hrange.totalWidth_eq] at hroom
    rw [d.sends_layout.sentBits_eq hrange] at hlayout
    refine .inl ⟨hrange, by omega, ?_⟩
    rw [effect_write_of_layout hlayout, hrange.size_eq]
  · refine .inr ⟨before, field, value, after, cause, hstop, ?_⟩
    rw [write, Procedure.overwriting, Procedure.effect_focus,
      Procedure.effect_bind_error hlayout, Field.contents_append, Field.length_sentBits]

/-- What stands in front of the field where writing stops is the front of the encoding. -/
theorem toBytes_sentBits_eq_take {d : UserData} (h : d.InRange) {room : Nat}
    {before after : List (Field × Nat)} {field : Field} {value : Nat} {cause : Error}
    (hstop : Field.StopsAt d.layout.fields room before field value after cause) :
    Bits.toBytes (Field.sentBits before) = d.bytes.take (Field.totalWidth before / 8) := by
  have hbits : Bits.ofBytes d.bytes = d.bits := Bits.ofBytes_toBytes d.length_bits
  have hfront : Field.sentBits before <+: Bits.ofBytes d.bytes := by
    rw [hbits, ← d.sends_layout.sentBits_eq h, hstop.sentBits_eq_take]
    exact List.take_prefix _ _
  have hlength : (Bits.toBytes (Field.sentBits before)).length = Field.totalWidth before / 8 := by
    rw [Bits.length_toBytes_eq, Field.length_sentBits]
  conv_rhs => rw [← Bits.toBytes_append_drop hfront, List.take_left' hlength]

/-- The packet count of a block, in front of its packets. -/
def countField (block : CcData) : Field × Nat :=
  (.unsigned "cc_count" 5 8, block.count.toNat)

/-- With more packets than a block has slots for, writing never gets past the packet count, and so
never to a packet without a slot. -/
theorem countField_mem_of_stopsAt {block : CcData} (hmany : maxPackets < block.count.toNat)
    {room : Nat} {before after : List (Field × Nat)} {field : Field} {value : Nat} {cause : Error}
    (hstop : Field.StopsAt (ofCcData block).layout.fields room before field value after cause) :
    countField block ∈ (field, value) :: after := by
  have hmem : countField block ∈ (ofCcData block).layout.fields := by
    -- the identifier, the type code and three flags stand in front of it
    iterate 5 apply List.mem_cons_of_mem
    exact List.mem_cons_self
  rw [hstop.split, List.mem_append] at hmem
  refine hmem.resolve_left fun hbefore ↦ ?_
  have hfits : block.count.toNat < 2 ^ 5 := hstop.fit _ hbefore
  exact absurd (Nat.le_of_lt_succ hfits) (Nat.not_le.mpr hmany)

/-- How writing over a buffer ends: with the whole encoding at its front, or at the first field that
is out of range or has no room. -/
structure WriteOutcome (d : UserData) (buffer : List UInt8) : Prop where
  ok_iff : (∃ count, (d.write.effect buffer).1 = .ok count) ↔
    d.InRange ∧ d.room ≤ buffer.length
  ok : d.InRange → d.room ≤ buffer.length → d.bytes.length = d.room ∧
    d.write.effect buffer = (.ok d.room, d.bytes ++ buffer.drop d.room)
  outOfSpace : d.InRange → buffer.length < d.room → ∃ before field value after,
    d.WriteStops buffer before field value after (.outOfSpace field.name field.width
      (8 * buffer.length - Field.totalWidth before)) ∧
      (d.write.effect buffer).2 = d.bytes.take (Field.totalWidth before / 8) ++
        buffer.drop (Field.totalWidth before / 8)
  outOfRange : ¬ d.InRange → ∃ before field value after cause,
    d.WriteStops buffer before field value after cause ∧
      ∀ block, d = ofCcData block → maxPackets < block.count.toNat →
        countField block ∈ (field, value) :: after
  aligned : ∀ bits, (d.write.effect buffer).1 ≠ .error (.unalignedOutput bits)

theorem write_outcome (d : UserData) (buffer : List UInt8) : d.WriteOutcome buffer := by
  rcases effect_write_cases d buffer with
    ⟨hrange, hroom, heffect⟩ | ⟨before, field, value, after, cause, hstops⟩
  · have hresult : (d.write.effect buffer).1 = .ok d.room := congrArg Prod.fst heffect
    exact {
      ok_iff := iff_of_true ⟨d.room, hresult⟩ ⟨hrange, hroom⟩
      ok _ _ := ⟨d.length_bytes.trans hrange.size_eq, heffect⟩
      outOfSpace _ hshort := absurd hroom (Nat.not_le.mpr hshort)
      outOfRange hout := absurd hrange hout
      aligned bits h := nomatch hresult.symm.trans h }
  · have hstop := hstops.stopsAt
    have hresult : (d.write.effect buffer).1 = .error cause := congrArg Prod.fst hstops.effect
    have hshort (hrange : d.InRange) : buffer.length < d.room := by
      have htotal := hstop.lt_totalWidth (d.sends_layout.fit_iff.mpr hrange)
      rw [hrange.totalWidth_eq] at htotal
      omega
    exact {
      ok_iff := iff_of_false (fun ⟨_, hok⟩ ↦ nomatch hresult.symm.trans hok)
        fun ⟨hrange, hroom⟩ ↦ absurd hroom (Nat.not_le.mpr (hshort hrange))
      ok hrange hroom := absurd hroom (Nat.not_le.mpr (hshort hrange))
      outOfSpace hrange _ := by
        obtain ⟨_, rfl⟩ := hstop.space_of_fit (d.sends_layout.fit_iff.mpr hrange)
        refine ⟨before, field, value, after, hstops, ?_⟩
        rw [hstops.effect, toBytes_sentBits_eq_take hrange hstop]
      outOfRange _ := ⟨before, field, value, after, cause, hstops,
        fun block hblock hmany ↦ countField_mem_of_stopsAt hmany (hblock ▸ hstop)⟩
      aligned bits h := by
        rw [hresult] at h
        cases h
        cases hstop.refused }

end UserData

end ClosedCaptions
