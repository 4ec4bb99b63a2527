import ClosedCaptions.Proofs.Layout.Engines
import ClosedCaptions.Proofs.UserData.RoundTrip
import ClosedCaptions.SideData
import Mathlib.Data.List.Basic

/-!
# The side data of captions

Side data is read when it falls into packets of three bytes, at most 31 of them, and the first byte
of each has its marker bits. Appending what was read gives the same bytes back. A caption block is
appended when its packets can be written, with three bytes for each, and otherwise the side data is
emptied; what holds no captions is refused and changes nothing.
-/

namespace ClosedCaptions

open Procedure

theorem UserData.ccData?_eq_some_iff {data : UserData} {block : CcData} :
    data.ccData? = some block ↔ data = .ofCcData block := by
  match data with
  | .atsc (.ccData _) => simp [UserData.ccData?, UserData.ofCcData]
  | .atsc (.barData _) | .atsc (.unknown _) | .activeFormat _ | .unknown _ =>
    simp [UserData.ccData?, UserData.ofCcData]

/-! ## Packets as bytes -/

namespace CcPacket

/-- The least byte that has the marker bits of a packet. -/
def leastMarker : UInt8 := 0xF8

/-- The byte in front of the two data bytes. -/
def marker (packet : CcPacket) : UInt8 :=
  leastMarker + (if packet.valid then 4 else 0) + packet.type

def bytes (packet : CcPacket) : List UInt8 :=
  [packet.marker, packet.data1, packet.data2]

variable {packet : CcPacket}

theorem bits_eq_ofBytes (h : packet.Canonical) : packet.bits = Bits.ofBytes packet.bytes := by
  obtain ⟨valid, type, data1, data2⟩ := packet
  have hmarkers : ∀ (valid : Bool) (type : Fin 4),
      Bits.ofNat 5 0x1f ++ ([valid] ++ Bits.ofNat 2 type) =
        Bits.ofNat 8 (leastMarker + (if valid then 4 else 0) + UInt8.ofNat type).toNat := by
    decide
  have hmarker := hmarkers valid ⟨type.toNat, Nat.lt_succ_of_le h⟩
  simp only [UInt8.ofNat_toNat] at hmarker
  simp only [bits, bytes, marker, Bits.ofBytes, List.flatMap_cons, List.flatMap_nil,
    List.append_nil, ← hmarker, List.append_assoc]

theorem leastMarker_le_marker (h : packet.Canonical) : leastMarker ≤ packet.marker := by
  obtain ⟨valid, type, data1, data2⟩ := packet
  have htype : type.toNat ≤ 3 := h
  cases valid <;> simp [marker, leastMarker, UInt8.le_iff_toNat_le] <;> omega

/-- Every byte with the marker bits belongs to a packet. -/
theorem exists_bytes_eq {first : UInt8} (h : leastMarker ≤ first) (second third : UInt8) :
    ∃ packet : CcPacket, packet.Canonical ∧ packet.bytes = [first, second, third] := by
  have hmarker : ∀ low : Fin 8, ∃ (valid : Bool) (type : Fin 4),
      leastMarker + (if valid then 4 else 0) + UInt8.ofNat type = UInt8.ofNat (0xF8 + low) := by
    decide
  have hfirst : 0xF8 ≤ first.toNat := UInt8.le_iff_toNat_le.mp h
  have hlt := first.toNat_lt
  obtain ⟨valid, type, hsum⟩ := hmarker ⟨first.toNat - 0xF8, by omega⟩
  have hback : UInt8.ofNat (0xF8 + (first.toNat - 0xF8)) = first := by
    rw [Nat.add_sub_cancel' hfirst, UInt8.ofNat_toNat]
  refine ⟨⟨valid, UInt8.ofNat type, second, third⟩, ?_, ?_⟩
  · change (UInt8.ofNat type).toNat ≤ 3
    rw [UInt8.toNat_ofNat_of_lt' (type.isLt.trans (by decide))]
    exact Nat.le_of_lt_succ type.isLt
  · rw [bytes, marker, hsum, hback]

/-- Only a packet whose type takes two bits is written. -/
theorem canonical_of_effect_write {stored : CcPacket} {w w' : Writer}
    (h : packet.layout.write.effect w = (.ok stored, w')) : packet.Canonical := by
  rw [Layout.effect_write_eq, effect_map] at h
  rcases hall : (Field.writeAll packet.layout.fields).effect w with ⟨_ | _, t⟩ <;> rw [hall] at h
  · cases h
  · obtain ⟨hfit, _⟩ := Field.effect_writeAll_eq_ok_iff.mp hall
    have htype : (Field.unsigned "cc_type" 2 8, packet.type.toNat) ∈ packet.layout.fields :=
      .tail _ (.tail _ (.head _))
    exact Nat.le_of_lt_succ (hfit _ htype).2

end CcPacket

namespace SideData

variable {packets : List CcPacket} {block : CcData} {bytes : List UInt8}

/-- Packets as side data. -/
def packetBytes (packets : List CcPacket) : List UInt8 :=
  Bits.toBytes (packets.flatMap CcPacket.bits)

theorem length_flatMap_bits (packets : List CcPacket) :
    (packets.flatMap CcPacket.bits).length = 8 * (packetSize * packets.length) := by
  rw [CcPacket.length_flatMap_bits, packetSize]
  omega

theorem length_packetBytes (packets : List CcPacket) :
    (packetBytes packets).length = packetSize * packets.length :=
  Bits.length_toBytes (length_flatMap_bits packets)

theorem packetBytes_eq_flatMap (h : ∀ packet ∈ packets, packet.Canonical) :
    packetBytes packets = packets.flatMap CcPacket.bytes := by
  have hbits : packets.flatMap CcPacket.bits = Bits.ofBytes (packets.flatMap CcPacket.bytes) := by
    rw [Bits.ofBytes, List.flatMap_assoc]
    exact List.flatMap_congr fun packet hpacket ↦ CcPacket.bits_eq_ofBytes (h packet hpacket)
  rw [packetBytes, hbits, Bits.toBytes_ofBytes]

/-- The bytes are a number of packets, with the marker bits in front of each. -/
structure Marked (bytes : List UInt8) (count : Nat) : Prop where
  length_eq : bytes.length = packetSize * count
  leastMarker_le : ∀ i byte, bytes[packetSize * i]? = some byte → CcPacket.leastMarker ≤ byte

theorem marked_iff {count : Nat} : Marked bytes count ↔
    ∃ packets : List CcPacket, packets.length = count ∧ (∀ packet ∈ packets, packet.Canonical) ∧
      packets.flatMap CcPacket.bytes = bytes := by
  constructor
  · intro ⟨hlength, hmarker⟩
    induction count generalizing bytes with
    | zero => exact ⟨[], rfl, by simp, (List.length_eq_zero_iff.mp hlength).symm⟩
    | succ count ih =>
      rw [packetSize] at hlength
      match bytes, hlength with
      | first :: second :: third :: rest, hlength =>
        have hrest : rest.length = packetSize * count := by
          simp only [List.length_cons] at hlength
          rw [packetSize]
          omega
        have hmarkers (i : Nat) (byte : UInt8) (hbyte : rest[packetSize * i]? = some byte) :
            CcPacket.leastMarker ≤ byte :=
          hmarker (i + 1) byte hbyte
        obtain ⟨packet, hpacket, hthree⟩ :=
          CcPacket.exists_bytes_eq (hmarker 0 first rfl) second third
        obtain ⟨packets, hcount, hcanonical, rfl⟩ := ih hrest hmarkers
        refine ⟨packet :: packets, by rw [List.length_cons, hcount], ?_, ?_⟩
        · exact List.forall_mem_cons.mpr ⟨hpacket, hcanonical⟩
        · rw [List.flatMap_cons, hthree]
          rfl
  · rintro ⟨packets, rfl, hcanonical, rfl⟩
    refine ⟨?_, ?_⟩
    · rw [← packetBytes_eq_flatMap hcanonical, length_packetBytes]
    · induction packets with
      | nil => simp
      | cons packet packets ih =>
        obtain ⟨hpacket, hrest⟩ := List.forall_mem_cons.mp hcanonical
        rintro (_ | i) byte hbyte
        · obtain rfl : packet.marker = byte := Option.some.inj hbyte
          exact CcPacket.leastMarker_le_marker hpacket
        · exact ih hrest i byte hbyte

/-! ## Reading -/

/-- Reading packets is reading a sequence of their layouts. -/
theorem readPackets_eq (count : Nat) :
    readPackets count =
      (Layout.sequence ((List.replicate count CcPacket.blank).map CcPacket.layout)).read := by
  induction count with
  | zero => rfl
  | succ count ih =>
    rw [List.replicate_succ, List.map_cons, Layout.sequence, Layout.read_bind, readPackets, ih]
    congr 1
    funext packet
    rw [Layout.read_bind]
    rfl

theorem effect_readPackets_eq_ok_iff {count : Nat} {r : Reader} :
    ((readPackets count).effect r).1 = .ok packets ↔
      (packets.length = count ∧ ∀ packet ∈ packets, packet.Canonical) ∧
        packets.flatMap CcPacket.bits <+: r.remaining := by
  have hdecodes := CcPacket.codes_layout.decodes_sequence (List.replicate count .blank)
  rw [List.length_replicate] at hdecodes
  rw [readPackets_eq, hdecodes.read_eq_ok_iff]

theorem length_eq_of_packetBytes {count : Nat} (hcount : bytes.length = packetSize * count)
    (h : packetBytes packets = bytes) : packets.length = count := by
  rw [← h, length_packetBytes] at hcount
  exact Nat.eq_of_mul_eq_mul_left (by decide) hcount

/-- As many packets are read as the bytes have room for if these are the bytes of the packets. -/
theorem effect_readPackets_ofBytes {count : Nat} (hcount : bytes.length = packetSize * count) :
    ((readPackets count).effect (.ofBytes bytes)).1 = .ok packets ↔
      (∀ packet ∈ packets, packet.Canonical) ∧ packetBytes packets = bytes := by
  have hremaining : (Reader.ofBytes bytes).remaining = Bits.ofBytes bytes := rfl
  rw [effect_readPackets_eq_ok_iff, hremaining,
    Bits.prefix_ofBytes_iff (length_flatMap_bits packets), ← packetBytes]
  constructor
  · intro ⟨⟨hlength, hcanonical⟩, hstart⟩
    refine ⟨hcanonical, hstart.eq_of_length ?_⟩
    rw [length_packetBytes, hcount, hlength]
  · intro ⟨hcanonical, hbytes⟩
    exact ⟨⟨length_eq_of_packetBytes hcount hbytes, hcanonical⟩, hbytes ▸ List.prefix_rfl⟩

/-- Side data is accepted when it is the bytes of packets that fit into a block. -/
theorem effect_read_eq_ok_iff {σ : Type} {s : σ} {data : UserData} :
    ((read bytes).effect s).1 = .ok data ↔
      ∃ packets : List CcPacket, packets.length ≤ maxPackets ∧
        (∀ packet ∈ packets, packet.Canonical) ∧ packetBytes packets = bytes ∧
        data = .ofCcData (.ofPackets packets) := by
  rw [read]
  split
  · next hlength =>
    refine iff_of_false (by simp) ?_
    rintro ⟨packets, _, _, rfl, _⟩
    rw [length_packetBytes, Nat.mul_mod_right] at hlength
    exact hlength rfl
  · next hlength =>
    obtain ⟨count, hcount⟩ : packetSize ∣ bytes.length :=
      Nat.dvd_of_mod_eq_zero (not_not.mp hlength)
    dsimp only
    rw [hcount, Nat.mul_div_cancel_left count (by decide : 0 < packetSize)]
    split
    · next hmany =>
      refine iff_of_false (by simp) ?_
      rintro ⟨packets, hfew, _, hbytes, _⟩
      rw [length_eq_of_packetBytes hcount hbytes] at hfew
      exact Nat.not_le.mpr hmany hfew
    · next hfew =>
      rw [effect_bind, effect_locally]
      rcases hread : ((readPackets count).effect (Reader.ofBytes bytes)).1 with cause | found
      · refine iff_of_false (by simp) ?_
        rintro ⟨packets, _, hcanonical, hbytes, _⟩
        rw [(effect_readPackets_ofBytes hcount).mpr ⟨hcanonical, hbytes⟩] at hread
        cases hread
      · obtain ⟨hcanonical, hbytes⟩ := (effect_readPackets_ofBytes hcount).mp hread
        have hlength : found.length ≤ maxPackets :=
          (length_eq_of_packetBytes hcount hbytes).trans_le (Nat.not_lt.mp hfew)
        constructor
        · intro hdata
          exact ⟨found, hlength, hcanonical, hbytes, (Except.ok.inj hdata).symm⟩
        · rintro ⟨packets, _, hcanonical', hbytes', rfl⟩
          rw [(effect_readPackets_ofBytes hcount).mpr ⟨hcanonical', hbytes'⟩] at hread
          rw [Except.ok.inj hread]
          rfl

/-! ## Appending -/

theorem effect_writePackets {w : Writer} (h : ∀ packet ∈ packets, packet.Canonical)
    (hroom : 24 * packets.length ≤ w.available) :
    (writePackets packets).effect w = (.ok (), w.append (packets.flatMap CcPacket.bits)) := by
  induction packets generalizing w with
  | nil => rw [List.flatMap_nil, Writer.append_nil]; rfl
  | cons packet packets ih =>
    rw [List.forall_mem_cons] at h
    rw [List.length_cons] at hroom
    have hpacket : packet.layout.write.effect w = (.ok packet, w.append packet.bits) :=
      Layout.effect_write (CcPacket.codes_layout.puts h.1) (by rw [CcPacket.length_bits]; omega)
    have hrest : 24 * packets.length ≤ (w.append packet.bits).available := by
      rw [Writer.available_append, CcPacket.length_bits]
      omega
    rw [writePackets, effect_bind_ok hpacket, ih h.2 hrest, Writer.append_append,
      List.flatMap_cons]

/-- Writing goes on to the last packet only when the type of each takes two bits. -/
theorem canonical_of_effect_writePackets {w w' : Writer}
    (h : (writePackets packets).effect w = (.ok (), w')) :
    ∀ packet ∈ packets, packet.Canonical := by
  induction packets generalizing w with
  | nil => simp
  | cons packet packets ih =>
    obtain ⟨stored, t, hpacket, hrest⟩ := effect_bind_eq_ok_iff.mp h
    exact List.forall_mem_cons.mpr ⟨CcPacket.canonical_of_effect_write hpacket, ih hrest⟩

theorem effect_appendPackets (h : ∀ packet ∈ packets, packet.Canonical) (out : List UInt8) :
    (appendPackets packets).effect out = (.ok (), out ++ packetBytes packets) := by
  have hroom : 24 * packets.length ≤
      (Writer.ofBuffer (List.replicate (packetSize * packets.length) 0)).available := by
    simp only [Writer.available, Writer.ofBuffer, Writer.withCapacity, List.length_replicate,
      packetSize]
    omega
  have hcontents :
      ((Writer.ofBuffer (List.replicate (packetSize * packets.length) 0)).append
        (packets.flatMap CcPacket.bits)).contents = packetBytes packets := by
    simp only [Writer.contents, Writer.append, Writer.ofBuffer, Writer.withCapacity,
      List.append_nil, List.reverse_reverse, ← packetBytes.eq_def, length_packetBytes]
    simp
  rw [appendPackets]
  apply effect_onFailure_ok
  rw [effect_focus, effect_writePackets h hroom]
  simp only [hcontents]

/-- A packet that cannot be written empties the side data, whatever was written before it. -/
theorem effect_appendPackets_of_not (h : ¬ ∀ packet ∈ packets, packet.Canonical)
    (out : List UInt8) : ∃ cause, (appendPackets packets).effect out = (.error cause, []) := by
  rcases hwritten : (writePackets packets).effect
      (Writer.ofBuffer (List.replicate (packetSize * packets.length) 0)) with ⟨cause | _, w⟩
  · refine ⟨cause, ?_⟩
    rw [appendPackets]
    apply effect_onFailure_error
    rw [effect_focus, hwritten]
  · exact absurd (canonical_of_effect_writePackets hwritten) h

/-- The packets of a block can be written: no more of them than side data takes, and each of a type
of two bits. -/
structure Writable (block : CcData) : Prop where
  count_le : block.count.toNat ≤ maxPackets
  packets : ∀ packet ∈ block.packets, packet.type.toNat ≤ 3

theorem effect_append_of_writable (h : Writable block) (out : List UInt8) :
    (append (.ofCcData block)).effect out = (.ok (), out ++ packetBytes block.packets) := by
  have hcount : ¬ maxPackets < block.count.toNat := Nat.not_lt.mpr h.count_le
  rw [append, UserData.ccData?_eq_some_iff.mpr rfl]
  dsimp only
  rw [if_neg hcount]
  exact effect_appendPackets h.packets out

/-- A canonical caption block has no more packets than side data takes. -/
theorem effect_append (h : block.Canonical) (out : List UInt8) :
    (append (.ofCcData block)).effect out = (.ok (), out ++ packetBytes block.packets) :=
  effect_append_of_writable ⟨h.count_le, h.packets⟩ out

/-- Side data of its own holds the packets of the block. -/
theorem effect_locally_append {σ : Type} (h : block.Canonical) (s : σ) :
    (locally [] (append (.ofCcData block) >>= fun _ ↦ Procedure.get)).effect s =
      (.ok (packetBytes block.packets), s) := by
  rw [effect_locally, effect_bind_ok (effect_append h []), effect_get, List.nil_append]

theorem effect_append_of_not_writable (h : ¬ Writable block) (out : List UInt8) :
    ∃ cause, (append (.ofCcData block)).effect out = (.error cause, []) := by
  rw [append, UserData.ccData?_eq_some_iff.mpr rfl]
  dsimp only
  split
  · exact ⟨_, by rw [effect_log_bind, effect_modify_bind, effect_fail]⟩
  · next hcount =>
    have hpackets : ¬ ∀ packet ∈ block.packets, packet.Canonical :=
      fun hpackets ↦ h ⟨Nat.not_lt.mp hcount, hpackets⟩
    exact effect_appendPackets_of_not hpackets out

/-! ## Both directions -/

theorem packets_ofPackets (h : packets.length ≤ maxPackets) :
    (CcData.ofPackets packets).packets = packets := by
  have hcount : (UInt8.ofNat packets.length).toNat = packets.length :=
    UInt8.toNat_ofNat_of_lt' (h.trans_lt (by decide))
  rw [CcData.ofPackets, CcData.packets, List.take_of_length_le h, hcount]
  exact CcData.take_slotsOf h

/-- A block that is read can be written. -/
theorem writable_ofPackets (hcount : packets.length ≤ maxPackets)
    (h : ∀ packet ∈ packets, packet.Canonical) : Writable (.ofPackets packets) where
  count_le := by
    have htoNat : (CcData.ofPackets packets).count.toNat = packets.length := by
      rw [CcData.ofPackets, List.take_of_length_le hcount]
      exact UInt8.toNat_ofNat_of_lt' (hcount.trans_lt (by decide))
    exact htoNat.trans_le hcount
  packets := by
    rw [packets_ofPackets hcount]
    exact h

/-- Side data is read when it is at most 31 packets with their marker bits, and appending what was
read gives its bytes back. What holds no captions cannot be appended and changes nothing. A caption
block is appended when its packets can be written, three bytes for each, and these are read as the
same packets; no other block can be appended, and side data is then left empty. -/
theorem read_and_append {σ : Type} (s : σ) :
    (∀ bytes, (∃ data, ((read bytes).effect s).1 = .ok data) ↔
      ∃ count ≤ maxPackets, Marked bytes count) ∧
    (∀ bytes data, ((read bytes).effect s).1 = .ok data →
      (∃ slots, data =
        .ofCcData ⟨false, true, false, UInt8.ofNat (bytes.length / packetSize), 0, slots⟩) ∧
        ∀ out, (append data).effect out = (.ok (), out ++ bytes)) ∧
    (∀ data out, data.ccData? = none → (append data).effect out = (.error .notCcData, out)) ∧
    (∀ block out, Writable block →
      ∃ added found, (append (.ofCcData block)).effect out = (.ok (), out ++ added) ∧
        added.length = packetSize * block.count.toNat ∧
        ((read added).effect s).1 = .ok (.ofCcData found) ∧ found.packets = block.packets) ∧
    ∀ block out, ¬ Writable block →
      ∃ cause, (append (.ofCcData block)).effect out = (.error cause, []) := by
  refine ⟨fun bytes ↦ ?_, fun bytes data hread ↦ ?_, fun data out hnone ↦ ?_,
    fun block out hwritable ↦ ?_,
    fun block out hnot ↦ effect_append_of_not_writable hnot out⟩
  · constructor
    · intro ⟨data, hread⟩
      obtain ⟨packets, hcount, hcanonical, hbytes, _⟩ := effect_read_eq_ok_iff.mp hread
      rw [packetBytes_eq_flatMap hcanonical] at hbytes
      exact ⟨packets.length, hcount, marked_iff.mpr ⟨packets, rfl, hcanonical, hbytes⟩⟩
    · intro ⟨count, hcount, hmarked⟩
      obtain ⟨packets, rfl, hcanonical, hbytes⟩ := marked_iff.mp hmarked
      rw [← packetBytes_eq_flatMap hcanonical] at hbytes
      exact ⟨_, effect_read_eq_ok_iff.mpr ⟨packets, hcount, hcanonical, hbytes, rfl⟩⟩
  · obtain ⟨packets, hcount, hcanonical, rfl, rfl⟩ := effect_read_eq_ok_iff.mp hread
    refine ⟨⟨CcData.slotsOf packets, ?_⟩, fun out ↦ ?_⟩
    · have hlength : (packetBytes packets).length / packetSize = packets.length := by
        rw [length_packetBytes, Nat.mul_div_cancel_left _ (by decide)]
      rw [hlength, CcData.ofPackets, List.take_of_length_le hcount]
      rfl
    · rw [effect_append_of_writable (writable_ofPackets hcount hcanonical),
        packets_ofPackets hcount]
  · rw [append, hnone]
    rfl
  · have hlength := CcData.length_packets hwritable.count_le
    have hfew : block.packets.length ≤ maxPackets := hlength.trans_le hwritable.count_le
    refine ⟨packetBytes block.packets, .ofPackets block.packets,
      effect_append_of_writable hwritable out, ?_, ?_, packets_ofPackets hfew⟩
    · rw [length_packetBytes, hlength]
    · exact effect_read_eq_ok_iff.mpr ⟨_, hfew, hwritable.packets, rfl, rfl⟩

end SideData

end ClosedCaptions
