import ClosedCaptions.Proofs.Layout.Codec
import ClosedCaptions.UserData.Basic

/-!
# The encoding of user data

The bits of every kind of user data, and which records are canonical: those that a decoder can
produce, with every number in the range of its field and every value that is not sent left blank.
Each layout codes the canonical records of its kind.
-/

namespace ClosedCaptions

open Layout

namespace ActiveFormat

/-- The format takes four bits, and is zero when it is not given. -/
def Canonical (d : ActiveFormat) : Prop :=
  if d.active then d.format.toNat ≤ 15 else d.format = 0

instance (d : ActiveFormat) : Decidable d.Canonical :=
  inferInstanceAs (Decidable (if d.active then d.format.toNat ≤ 15 else d.format = 0))

def bits (d : ActiveFormat) : List Bool :=
  Bits.ofNat 1 0 ++ ([d.active] ++ (Bits.ofNat 6 1 ++
    if d.active then Bits.ofNat 4 0xf ++ Bits.ofNat 4 d.format.toNat else []))

theorem codes_layout : Codes layout Canonical bits where
  decodes before := by
    have hformat := Decodes.fixed_bind "reserved" (by decide : 4 ≤ 32) (by decide : 0xf < 2 ^ 4)
      (Decodes.bind format (decodes_uint8 "active_format" before.format (by decide : 4 ≤ 32))
        (fun format _ ↦ decodes_pure (mk true format)) fun _ _ _ hd ↦ congrArg format hd)
    have hgiven (given : Bool) := decodes_ite given hformat (decodes_pure blank)
    have h := Decodes.fixed_bind "zero_bit" (by decide : 1 ≤ 32) (by decide : 0 < 2 ^ 1)
      (Decodes.flag_bind active "active_format_flag" before.active
        (fun given ↦ Decodes.fixed_bind "alignment_bits" (by decide : 6 ≤ 32)
          (by decide : 1 < 2 ^ 6) (hgiven given)) fun given d hd ↦ by
            cases given with
            | false => exact congrArg active hd
            | true => exact congrArg active hd.2)
    refine Decodes.congr h ?_ ?_
    · intro ⟨given, format⟩
      cases given <;> simp [Canonical, blank, Nat.lt_succ_iff]
    · intro d _
      simp [bits]
  puts {d} h := by
    obtain ⟨active, format⟩ := d
    refine Puts.bind (puts_fixed _ (by decide) (by decide)) (Puts.bind (puts_flag _ _)
      (Puts.bind (puts_fixed _ (by decide) (by decide)) ?_))
    cases active with
    | false =>
      obtain rfl : format = 0 := h
      exact puts_pure _
    | true =>
      have hformat : format.toNat < 2 ^ 4 := Nat.lt_succ_of_le h
      exact Puts.bind (puts_fixed _ (by decide) (by decide))
        (Puts.bind_pure (puts_uint8 _ (by decide) hformat) _)

end ActiveFormat

namespace Bar

/-- The line takes fourteen bits, and is zero when there is no bar. -/
def Canonical (bar : Bar) : Prop :=
  if bar.present then bar.line.toNat ≤ 0x3FFF else bar.line = 0

instance (bar : Bar) : Decidable bar.Canonical :=
  inferInstanceAs (Decidable (if bar.present then bar.line.toNat ≤ 0x3FFF else bar.line = 0))

/-- What is sent of a bar after its flag. -/
def lineBits (bar : Bar) : List Bool :=
  if bar.present then Bits.ofNat 2 3 ++ Bits.ofNat 14 bar.line.toNat else []

theorem decodes_layout (before : Bar) (present : Bool) (name : String) :
    (before.layout present name).Decodes (fun bar ↦ bar.present = present ∧ bar.Canonical)
      lineBits := by
  have hline := Decodes.fixed_bind "one_bits" (by decide : 2 ≤ 32) (by decide : 3 < 2 ^ 2)
    (Decodes.bind line (decodes_uint16 name before.line (by decide : 14 ≤ 32))
      (fun line _ ↦ decodes_pure (mk true line)) fun _ _ _ hbar ↦ congrArg line hbar)
  refine Decodes.congr (decodes_ite present hline (decodes_pure blank)) ?_ ?_
  · intro ⟨flag, line⟩
    cases present <;> cases flag <;> simp [Canonical, blank, Nat.lt_succ_iff]
  · intro bar ⟨hpresent, _⟩
    rw [← hpresent, lineBits]
    simp

theorem Canonical.puts {bar : Bar} (h : bar.Canonical) (name : String) :
    (bar.layout bar.present name).Puts bar.lineBits bar := by
  obtain ⟨present, line⟩ := bar
  cases present with
  | false =>
    obtain rfl : line = 0 := h
    exact puts_pure _
  | true =>
    have hline : line.toNat < 2 ^ 14 := Nat.lt_succ_of_le h
    exact Puts.bind (puts_fixed _ (by decide) (by decide))
      (Puts.bind_pure (puts_uint16 _ (by decide) hline) _)

end Bar

namespace BarData

def Canonical (d : BarData) : Prop :=
  d.top.Canonical ∧ d.bottom.Canonical ∧ d.left.Canonical ∧ d.right.Canonical

instance (d : BarData) : Decidable d.Canonical :=
  inferInstanceAs (Decidable (_ ∧ _))

def bits (d : BarData) : List Bool :=
  [d.top.present] ++ ([d.bottom.present] ++ ([d.left.present] ++ ([d.right.present] ++
    (Bits.ofNat 4 0xf ++ (d.top.lineBits ++ (d.bottom.lineBits ++
      (d.left.lineBits ++ d.right.lineBits)))))))

theorem codes_layout : Codes layout Canonical bits where
  decodes before := by
    have hbars (t b l r : Bool) :=
      Decodes.bind top (before.top.decodes_layout t "line_number_end_of_top_bar")
        (fun top _ ↦ Decodes.bind bottom
          (before.bottom.decodes_layout b "line_number_end_of_bottom_bar")
          (fun bottom _ ↦ Decodes.bind left
            (before.left.decodes_layout l "line_number_end_of_left_bar")
            (fun left _ ↦ Decodes.bind right
              (before.right.decodes_layout r "line_number_end_of_right_bar")
              (fun right _ ↦ decodes_pure (mk top bottom left right))
              fun _ _ _ hd ↦ congrArg right hd)
            fun _ _ _ hd ↦ congrArg left hd.2)
          fun _ _ _ hd ↦ congrArg bottom hd.2.2)
        fun _ _ _ hd ↦ congrArg top hd.2.2.2
    have h := Decodes.flag_bind (·.top.present) "top_bar_flag" before.top.present
      (fun t ↦ Decodes.flag_bind (·.bottom.present) "bottom_bar_flag" before.bottom.present
        (fun b ↦ Decodes.flag_bind (·.left.present) "left_bar_flag" before.left.present
          (fun l ↦ Decodes.flag_bind (·.right.present) "right_bar_flag" before.right.present
            (fun r ↦ Decodes.fixed_bind "reserved" (by decide : 4 ≤ 32)
              (by decide : 0xf < 2 ^ 4) (hbars t b l r))
            fun _ _ hd ↦ hd.2.2.2.1.1)
          fun _ _ hd ↦ hd.2.2.1.1)
        fun _ _ hd ↦ hd.2.1.1)
      fun _ _ hd ↦ hd.1.1
    refine Decodes.congr h ?_ ?_
    · intro d
      simp [Canonical]
    · intro d _
      simp [bits]
  puts {d} h := by
    obtain ⟨htop, hbottom, hleft, hright⟩ := h
    exact Puts.bind (puts_flag _ _) (Puts.bind (puts_flag _ _) (Puts.bind (puts_flag _ _)
      (Puts.bind (puts_flag _ _) (Puts.bind (puts_fixed _ (by decide) (by decide))
        (Puts.bind (htop.puts _) (Puts.bind (hbottom.puts _) (Puts.bind (hleft.puts _)
          (Puts.bind_pure (hright.puts _) _))))))))

end BarData

namespace CcPacket

/-- The type takes two bits. -/
def Canonical (packet : CcPacket) : Prop :=
  packet.type.toNat ≤ 3

instance (packet : CcPacket) : Decidable packet.Canonical :=
  inferInstanceAs (Decidable (_ ≤ _))

def bits (packet : CcPacket) : List Bool :=
  Bits.ofNat 5 0x1f ++ ([packet.valid] ++ (Bits.ofNat 2 packet.type.toNat ++
    (Bits.ofNat 8 packet.data1.toNat ++ Bits.ofNat 8 packet.data2.toNat)))

theorem codes_layout : Codes layout Canonical bits where
  decodes before := by
    have h := Decodes.fixed_bind "marker_bits" (by decide : 5 ≤ 32) (by decide : 0x1f < 2 ^ 5)
      (Decodes.flag_bind valid "cc_valid" before.valid
        (fun valid ↦ Decodes.bind type (decodes_uint8 "cc_type" before.type (by decide : 2 ≤ 32))
          (fun type _ ↦ Decodes.bind data1
            (decodes_uint8 "cc_data_1" before.data1 (by decide : 8 ≤ 32))
            (fun data1 _ ↦ Decodes.bind data2
              (decodes_uint8 "cc_data_2" before.data2 (by decide : 8 ≤ 32))
              (fun data2 _ ↦ decodes_pure (mk valid type data1 data2))
              fun _ _ _ hd ↦ congrArg data2 hd)
            fun _ _ _ hd ↦ congrArg data1 hd.2)
          fun _ _ _ hd ↦ congrArg CcPacket.type hd.2.2)
        fun _ _ hd ↦ congrArg valid hd.2.2.2)
    refine Decodes.congr h ?_ ?_
    · intro packet
      have hdata1 := packet.data1.toNat_lt
      have hdata2 := packet.data2.toNat_lt
      simp [Canonical, hdata1, hdata2, Nat.lt_succ_iff]
    · intro packet _
      simp [bits]
  puts {packet} h := by
    have htype : packet.type.toNat < 2 ^ 2 := Nat.lt_succ_of_le h
    exact Puts.bind (puts_fixed _ (by decide) (by decide)) (Puts.bind (puts_flag _ _)
      (Puts.bind (puts_uint8 _ (by decide) htype)
        (Puts.bind (puts_uint8 _ (by decide) packet.data1.toNat_lt)
          (Puts.bind_pure (puts_uint8 _ (by decide) packet.data2.toNat_lt) _))))

end CcPacket

namespace CcData

/-- At most 31 packets are in use, each of them canonical, and the other slots are blank. -/
structure Canonical (d : CcData) : Prop where
  count_le : d.count.toNat ≤ maxPackets
  packets : ∀ packet ∈ d.packets, packet.Canonical
  unused : ∀ i : Fin maxPackets, d.count.toNat ≤ i → d.slots[i] = .blank

instance (d : CcData) : Decidable d.Canonical :=
  decidable_of_iff
    (d.count.toNat ≤ maxPackets ∧ (∀ packet ∈ d.packets, packet.Canonical) ∧
      ∀ i : Fin maxPackets, d.count.toNat ≤ i → d.slots[i] = .blank)
    ⟨fun ⟨hcount, hpackets, hunused⟩ ↦ ⟨hcount, hpackets, hunused⟩,
      fun h ↦ ⟨h.count_le, h.packets, h.unused⟩⟩

def bits (d : CcData) : List Bool :=
  [d.processEmData] ++ ([d.processCcData] ++ ([d.additionalData] ++
    (Bits.ofNat 5 d.count.toNat ++ (Bits.ofNat 8 d.emData.toNat ++
      (d.packets.flatMap CcPacket.bits ++ Bits.ofNat 8 0xff)))))

theorem length_packets {d : CcData} (h : d.count.toNat ≤ maxPackets) :
    d.packets.length = d.count.toNat := by
  simp [packets, h]

theorem map_slot_range {d : CcData} (h : d.count.toNat ≤ maxPackets) :
    (List.range d.count.toNat).map d.slot = d.packets := by
  apply List.ext_getElem
  · simp [length_packets h]
  · intro i hi _
    have hslot : i < maxPackets := by
      simp only [List.length_map, List.length_range] at hi
      omega
    simp [packets, slot, hslot]

theorem getElem?_packets (d : CcData) (i : Fin maxPackets) :
    d.packets[i.val]? = if i < d.count.toNat then some d.slots[i] else none := by
  simp [packets, List.getElem?_take]

/-- A block whose unused slots are blank is made up by its packets in use. -/
theorem slots_eq_slotsOf_packets_iff {d : CcData} :
    d.slots = slotsOf d.packets ↔
      ∀ i : Fin maxPackets, d.count.toNat ≤ i → d.slots[i] = .blank := by
  constructor
  · intro h i hi
    have hnone : d.packets[i.val]? = none := by
      rw [getElem?_packets, if_neg (Nat.not_lt.mpr hi)]
    rw [h]
    simp [slotsOf, hnone]
  · intro h
    ext i hi
    rw [slotsOf, Vector.getElem_ofFn, getElem?_packets d ⟨i, hi⟩]
    split
    · rfl
    · next hcount => exact h ⟨i, hi⟩ (Nat.not_lt.mp hcount)

theorem take_slotsOf {packets : List CcPacket} (h : packets.length ≤ maxPackets) :
    (slotsOf packets).toList.take packets.length = packets := by
  apply List.ext_getElem
  · simp [h]
  · intro i hi hi'
    simp [slotsOf, hi']

/-- A canonical block in the order of its fields. -/
theorem canonical_iff {d : CcData} :
    d.Canonical ↔ d.count.toNat < 2 ^ 5 ∧ d.emData.toNat < 2 ^ 8 ∧
      (d.packets.length = d.count.toNat ∧ ∀ packet ∈ d.packets, packet.Canonical) ∧
      d = ⟨d.processEmData, d.processCcData, d.additionalData, d.count, d.emData,
        slotsOf d.packets⟩ := by
  constructor
  · intro h
    have hslots := slots_eq_slotsOf_packets_iff.mpr h.unused
    refine ⟨Nat.lt_succ_of_le h.count_le, d.emData.toNat_lt,
      ⟨length_packets h.count_le, h.packets⟩, ?_⟩
    rw [← hslots]
  · intro ⟨hcount, _, ⟨_, hpackets⟩, hd⟩
    have hslots := congrArg slots hd
    exact ⟨Nat.le_of_lt_succ hcount, hpackets, slots_eq_slotsOf_packets_iff.mp hslots⟩

theorem decodes_packets (before : CcData) (count : Nat) :
    (Layout.sequence ((List.range count).map fun i ↦ (before.slot i).layout)).Decodes
      (fun packets ↦ packets.length = count ∧ ∀ packet ∈ packets, packet.Canonical)
      (·.flatMap CcPacket.bits) := by
  have h := CcPacket.codes_layout.decodes_sequence ((List.range count).map before.slot)
  rw [List.map_map, List.length_map, List.length_range] at h
  exact h

/-- The packets in use are those that were read. -/
theorem packets_mk_slotsOf {count : UInt8} {packets : List CcPacket}
    (hcount : count.toNat < 2 ^ 5) (hlength : packets.length = count.toNat)
    (em cc more : Bool) (emData : UInt8) :
    (mk em cc more count emData (slotsOf packets)).packets = packets := by
  have hle : packets.length ≤ maxPackets := hlength ▸ Nat.le_of_lt_succ hcount
  rw [CcData.packets, ← hlength]
  exact take_slotsOf hle

theorem codes_layout : Codes layout Canonical bits where
  decodes before := by
    have hpackets (em cc more : Bool) (count emData : UInt8) (hcount : count.toNat < 2 ^ 5) :=
      Decodes.bind CcData.packets (decodes_packets before count.toNat)
        (fun packets _ ↦ Decodes.fixed_bind "marker_bits" (by decide : 8 ≤ 32)
          (by decide : 0xff < 2 ^ 8)
          (decodes_pure (mk em cc more count emData (slotsOf packets))))
        fun packets d h hd ↦ by
          rw [hd]
          exact packets_mk_slotsOf hcount h.1 em cc more emData
    have h := Decodes.flag_bind processEmData "process_em_data_flag" before.processEmData
      (fun em ↦ Decodes.flag_bind processCcData "process_cc_data_flag" before.processCcData
        (fun cc ↦ Decodes.flag_bind additionalData "additional_data_flag" before.additionalData
          (fun more ↦ Decodes.bind count
            (decodes_uint8 "cc_count" before.count (by decide : 5 ≤ 32))
            (fun count hcount ↦ Decodes.bind emData
              (decodes_uint8 "em_data" before.emData (by decide : 8 ≤ 32))
              (fun emData _ ↦ hpackets em cc more count emData hcount)
              fun _ _ _ hd ↦ congrArg emData hd.2)
            fun _ _ _ hd ↦ congrArg count hd.2.2)
          fun _ _ hd ↦ congrArg additionalData hd.2.2.2)
        fun _ _ hd ↦ congrArg processCcData hd.2.2.2)
      fun _ _ hd ↦ congrArg processEmData hd.2.2.2
    refine Decodes.congr h ?_ ?_
    · exact fun d ↦ canonical_iff.symm
    · intro d _
      simp [bits]
  puts {d} h := by
    have hcount : d.count.toNat < 2 ^ 5 := Nat.lt_succ_of_le h.count_le
    have hpackets :
        (Layout.sequence ((List.range d.count.toNat).map fun i ↦ (d.slot i).layout)).Puts
          (d.packets.flatMap CcPacket.bits) d.packets := by
      have hsequence := CcPacket.codes_layout.puts_sequence h.packets
      rwa [← map_slot_range h.count_le, List.map_map, map_slot_range h.count_le] at hsequence
    have hputs : d.layout.Puts d.bits { d with slots := slotsOf d.packets } :=
      Puts.bind (puts_flag _ _) (Puts.bind (puts_flag _ _) (Puts.bind (puts_flag _ _)
        (Puts.bind (puts_uint8 _ (by decide) hcount)
          (Puts.bind (puts_uint8 _ (by decide) d.emData.toNat_lt)
            (Puts.bind hpackets
              (Puts.bind_pure (puts_fixed _ (by decide) (by decide)) _))))))
    rwa [← slots_eq_slotsOf_packets_iff.mpr h.unused] at hputs

end CcData

namespace AtscData

/-- A type code that is kept as unknown is none of the known ones. -/
def Canonical : AtscData → Prop
  | ccData data => data.Canonical
  | barData data => data.Canonical
  | unknown code => code ≠ 3 ∧ code ≠ 6

instance : (d : AtscData) → Decidable d.Canonical
  | ccData data => inferInstanceAs (Decidable data.Canonical)
  | barData data => inferInstanceAs (Decidable data.Canonical)
  | unknown _ => inferInstanceAs (Decidable (_ ∧ _))

def payloadBits : AtscData → List Bool
  | ccData data => data.bits
  | barData data => data.bits
  | unknown _ => []

def bits (d : AtscData) : List Bool :=
  Bits.ofNat 8 d.typeCode.toNat ++ d.payloadBits

theorem decodes_payload_ofTypeCode (code : UInt8) :
    (ofTypeCode code).payload.Decodes (fun d ↦ d.typeCode = code ∧ d.Canonical) payloadBits := by
  by_cases hcc : code = 3
  · subst hcc
    have hpayload : (ofTypeCode 3).payload = ccData <$> CcData.layout .blank := rfl
    rw [hpayload]
    refine Decodes.map (CcData.codes_layout.decodes .blank) ?_ fun _ ↦ rfl
    intro d
    cases d with
    | ccData data => simp [typeCode, Canonical]
    | barData data => simp [typeCode]
    | unknown code => simp +contextual [typeCode, Canonical]
  by_cases hbar : code = 6
  · subst hbar
    have hpayload : (ofTypeCode 6).payload = barData <$> BarData.layout .blank := rfl
    rw [hpayload]
    refine Decodes.map (BarData.codes_layout.decodes .blank) ?_ fun _ ↦ rfl
    intro d
    cases d with
    | ccData data => simp [typeCode]
    | barData data => simp [typeCode, Canonical]
    | unknown code => simp +contextual [typeCode, Canonical]
  · have hpayload : (ofTypeCode code).payload =
        .note (.unknownTypeCode code) (.done (unknown code)) := by
      rw [ofTypeCode, if_neg hcc, if_neg hbar, payload]
    rw [hpayload]
    refine Decodes.congr (decodes_note _ (decodes_pure (unknown code))) ?_ ?_
    · intro d
      cases d with
      | ccData data => simp [typeCode, Ne.symm hcc]
      | barData data => simp [typeCode, Ne.symm hbar]
      | unknown other =>
        simp only [typeCode, Canonical, unknown.injEq]
        constructor
        · intro hcode
          rw [hcode]
          exact ⟨rfl, hcc, hbar⟩
        · exact And.left
    · rintro d ⟨hcode, _⟩
      cases d with
      | ccData data => exact absurd hcode.symm hcc
      | barData data => exact absurd hcode.symm hbar
      | unknown other => rfl

theorem Canonical.puts_payload {d : AtscData} (h : d.Canonical) :
    d.payload.Puts d.payloadBits d := by
  cases d with
  | ccData data => exact (CcData.codes_layout.puts h).map ccData
  | barData data => exact (BarData.codes_layout.puts h).map barData
  | unknown code => exact puts_note _ (puts_pure _)

theorem admits_typeCode (code : UInt8) :
    (Field.unsigned "user_data_type_code" 8 8).Admits code.toNat :=
  ⟨by decide, code.toNat_lt, code.toNat_lt⟩

theorem codes_layout : Codes layout Canonical bits where
  decodes before := by
    have h := Decodes.bind typeCode
      (decodes_uint8 "user_data_type_code" before.typeCode (by decide : 8 ≤ 32))
      (fun code _ ↦ decodes_payload_ofTypeCode code) fun _ _ _ hd ↦ hd.1
    refine Decodes.congr (decodes_union.mpr h) ?_ ?_
    · intro d
      have hcode := d.typeCode.toNat_lt
      simp [hcode]
    · intro d _
      rfl
  puts {d} h := puts_union (admits_typeCode d.typeCode) h.puts_payload

end AtscData

namespace UserData

/-- An identifier that is kept as unknown is none of the known ones. -/
def Canonical : UserData → Prop
  | atsc data => data.Canonical
  | activeFormat data => data.Canonical
  | unknown identifier => identifier ≠ atscIdentifier ∧ identifier ≠ activeFormatIdentifier

instance : (d : UserData) → Decidable d.Canonical
  | atsc data => inferInstanceAs (Decidable data.Canonical)
  | activeFormat data => inferInstanceAs (Decidable data.Canonical)
  | unknown _ => inferInstanceAs (Decidable (_ ∧ _))

def payloadBits : UserData → List Bool
  | atsc data => data.bits
  | activeFormat data => data.bits
  | unknown _ => []

def bits (d : UserData) : List Bool :=
  Bits.ofNat 32 d.identifier.toNat ++ d.payloadBits

theorem decodes_payload_ofIdentifier (identifier : UInt32) :
    (ofIdentifier identifier).payload.Decodes
      (fun d ↦ d.identifier = identifier ∧ d.Canonical) payloadBits := by
  by_cases hatsc : identifier = atscIdentifier
  · subst hatsc
    have hpayload : (ofIdentifier atscIdentifier).payload =
        atsc <$> AtscData.layout (.unknown 0) := rfl
    rw [hpayload]
    refine Decodes.map (AtscData.codes_layout.decodes (.unknown 0)) ?_ fun _ ↦ rfl
    intro d
    cases d with
    | atsc data => simp [UserData.identifier, Canonical]
    | activeFormat data =>
      simp [UserData.identifier, atscIdentifier, activeFormatIdentifier]
    | unknown other => simp +contextual [UserData.identifier, Canonical]
  by_cases hactive : identifier = activeFormatIdentifier
  · subst hactive
    have hpayload : (ofIdentifier activeFormatIdentifier).payload =
        activeFormat <$> ActiveFormat.layout .blank := rfl
    rw [hpayload]
    refine Decodes.map (ActiveFormat.codes_layout.decodes .blank) ?_ fun _ ↦ rfl
    intro d
    cases d with
    | atsc data => simp [UserData.identifier, atscIdentifier, activeFormatIdentifier]
    | activeFormat data => simp [UserData.identifier, Canonical]
    | unknown other => simp +contextual [UserData.identifier, Canonical]
  · have hpayload : (ofIdentifier identifier).payload =
        .note (.unknownIdentifier identifier) (.done (unknown identifier)) := by
      rw [ofIdentifier, if_neg hatsc, if_neg hactive, payload]
    rw [hpayload]
    refine Decodes.congr (decodes_note _ (decodes_pure (unknown identifier))) ?_ ?_
    · intro d
      cases d with
      | atsc data => simp [UserData.identifier, Ne.symm hatsc]
      | activeFormat data => simp [UserData.identifier, Ne.symm hactive]
      | unknown other =>
        simp only [UserData.identifier, Canonical, unknown.injEq]
        constructor
        · intro hidentifier
          rw [hidentifier]
          exact ⟨rfl, hatsc, hactive⟩
        · exact And.left
    · rintro d ⟨hidentifier, _⟩
      cases d with
      | atsc data => exact absurd hidentifier.symm hatsc
      | activeFormat data => exact absurd hidentifier.symm hactive
      | unknown other => rfl

theorem Canonical.puts_payload {d : UserData} (h : d.Canonical) :
    d.payload.Puts d.payloadBits d := by
  cases d with
  | atsc data => exact (AtscData.codes_layout.puts h).map atsc
  | activeFormat data => exact (ActiveFormat.codes_layout.puts h).map activeFormat
  | unknown identifier => exact puts_note _ (puts_pure _)

theorem admits_identifier (identifier : UInt32) :
    (Field.unsigned "user_identifier" 32 32).Admits identifier.toNat :=
  ⟨by decide, identifier.toNat_lt, identifier.toNat_lt⟩

theorem codes_layout : Codes layout Canonical bits where
  decodes before := by
    have h := Decodes.bind identifier
      (decodes_uint32 "user_identifier" before.identifier (by decide : 32 ≤ 32))
      (fun identifier _ ↦ decodes_payload_ofIdentifier identifier) fun _ _ _ hd ↦ hd.1
    refine Decodes.congr (decodes_union.mpr h) ?_ ?_
    · intro d
      have hidentifier := d.identifier.toNat_lt
      simp [hidentifier]
    · intro d _
      rfl
  puts {d} h := puts_union (admits_identifier d.identifier) h.puts_payload

end UserData

end ClosedCaptions
