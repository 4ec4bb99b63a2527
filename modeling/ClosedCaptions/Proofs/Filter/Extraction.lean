import ClosedCaptions.Command.Decode
import ClosedCaptions.Proofs.Ensures
import ClosedCaptions.Proofs.Filter.SideData

/-!
# Captions out of user data

User data that decodes as a caption block has its packets, as side data holds them, behind the first
seven bytes. So whatever is decoded is taken out, by the filter and by the presentation of a stream,
and both fail at user data only where it does not decode.
-/

namespace ClosedCaptions

open Procedure

variable {block : CcData} {payload : List UInt8}

/-! ## The bytes of a caption block -/

namespace CcData

/-- The flags and the packet count of a block. -/
def headBits (block : CcData) : List Bool :=
  [block.processEmData] ++ ([block.processCcData] ++ ([block.additionalData] ++
    Bits.ofNat 5 block.count.toNat))

/-- What stands in front of the packets: the identifier, the type code and the head of the block. -/
def head (block : CcData) : List UInt8 :=
  [0x47, 0x41, 0x39, 0x34, 3, UInt8.ofNat (Bits.toNat block.headBits), block.emData]

/-- The packet count is the low five bits of the byte that it shares with the flags. -/
theorem toNat_headBits_and (h : block.count.toNat ≤ maxPackets) :
    UInt8.ofNat (Bits.toNat block.headBits) &&& 0x1F = block.count := by
  have hall : ∀ (em cc more : Bool) (count : Fin 32),
      UInt8.ofNat (Bits.toNat ([em] ++ ([cc] ++ ([more] ++ Bits.ofNat 5 count)))) &&& 0x1F =
        UInt8.ofNat count := by
    decide
  have hbyte := hall block.processEmData block.processCcData block.additionalData
    ⟨block.count.toNat, Nat.lt_succ_of_le h⟩
  simp only [UInt8.ofNat_toNat] at hbyte
  exact hbyte

theorem bytes_ofCcData (block : CcData) :
    (UserData.ofCcData block).bytes =
      block.head ++ (SideData.packetBytes block.packets ++ [0xFF]) := by
  have hhead : block.headBits.length = 8 := by simp [headBits]
  have hbits : (UserData.ofCcData block).bits =
      Bits.ofBytes [0x47, 0x41, 0x39, 0x34, 3] ++ (block.headBits ++ (Bits.ofBytes [block.emData] ++
        (block.packets.flatMap CcPacket.bits ++ Bits.ofBytes [0xFF]))) := by
    have hidentifier : Bits.ofNat 32 UserData.atscIdentifier.toNat ++ Bits.ofNat 8 3 =
        Bits.ofBytes [0x47, 0x41, 0x39, 0x34, 3] := by decide
    rw [← hidentifier]
    simp [UserData.ofCcData, UserData.bits, UserData.identifier, UserData.payloadBits,
      AtscData.bits, AtscData.typeCode, AtscData.payloadBits, bits, headBits, Bits.ofBytes]
  calc
    (UserData.ofCcData block).bytes = [0x47, 0x41, 0x39, 0x34, 3] ++ Bits.toBytes (block.headBits ++
        (Bits.ofBytes [block.emData] ++
          (block.packets.flatMap CcPacket.bits ++ Bits.ofBytes [0xFF]))) := by
      rw [UserData.bytes, hbits, Bits.toBytes_ofBytes_append]
    _ = block.head ++ Bits.toBytes
        (block.packets.flatMap CcPacket.bits ++ Bits.ofBytes [0xFF]) := by
      rw [Bits.toBytes_append hhead, Bits.toBytes_ofBytes_append]
      rfl
    _ = block.head ++ (SideData.packetBytes block.packets ++ [0xFF]) := by
      rw [Bits.toBytes_append_of_length (SideData.length_flatMap_bits block.packets),
        Bits.toBytes_ofBytes, SideData.packetBytes]

end CcData

/-! ## One payload -/

namespace UserData

/-- The packets of a caption block as they stand in a payload. -/
def packetsIn (payload : List UInt8) (count : Nat) : List UInt8 :=
  (payload.drop 7).take (SideData.packetSize * count)

/-- The packets of a caption block stand in a payload with their number in front of them, and go
into side data and out of it as they are. -/
structure Extracts (payload : List UInt8) (block : CcData) : Prop where
  count_eq : ∃ byte, payload[5]? = some byte ∧ byte &&& 0x1F = block.count
  count_le : block.count.toNat ≤ maxPackets
  length_le : 8 + SideData.packetSize * block.count.toNat ≤ payload.length
  append : ∀ out, (SideData.append (.ofCcData block)).effect out =
    (.ok (), out ++ packetsIn payload block.count.toNat)
  read : ∃ found, ((SideData.read (packetsIn payload block.count.toNat)).effect ()).1 =
    .ok (.ofCcData found) ∧ found.packets = block.packets

theorem packetsIn_eq (h : block.Canonical) (hstart : (ofCcData block).bytes <+: payload) :
    packetsIn payload block.count.toNat = SideData.packetBytes block.packets := by
  obtain ⟨rest, rfl⟩ := hstart
  have hlength : (SideData.packetBytes block.packets).length =
      SideData.packetSize * block.count.toNat := by
    rw [SideData.length_packetBytes, CcData.length_packets h.count_le]
  have hdrop : ((ofCcData block).bytes ++ rest).drop 7 =
      SideData.packetBytes block.packets ++ ([0xFF] ++ rest) := by
    rw [CcData.bytes_ofCcData, List.append_assoc, List.append_assoc]
    rfl
  rw [packetsIn, hdrop, List.take_left' hlength]

theorem extracts_of_canonical (h : block.Canonical) (hstart : (ofCcData block).bytes <+: payload) :
    Extracts payload block where
  count_eq := by
    refine ⟨UInt8.ofNat (Bits.toNat block.headBits), ?_, CcData.toNat_headBits_and h.count_le⟩
    obtain ⟨rest, rfl⟩ := hstart
    rw [CcData.bytes_ofCcData]
    rfl
  count_le := h.count_le
  length_le := by
    have hlength := hstart.length_le
    rw [CcData.bytes_ofCcData, List.length_append, List.length_append, SideData.length_packetBytes,
      CcData.length_packets h.count_le] at hlength
    exact hlength.trans' (by simp [CcData.head]; omega)
  append out := by rw [packetsIn_eq h hstart, SideData.effect_append h]
  read := by
    have hfew : block.packets.length ≤ maxPackets :=
      (CcData.length_packets h.count_le).trans_le h.count_le
    rw [packetsIn_eq h hstart]
    exact ⟨.ofPackets block.packets,
      SideData.effect_read_eq_ok_iff.mpr ⟨block.packets, hfew, h.packets, rfl, rfl⟩,
      SideData.packets_ofPackets hfew⟩

theorem canonical_of_read {σ : Type} {s : σ} {data : UserData}
    (h : ((read payload).effect s).1 = .ok data) (hblock : data.ccData? = some block) :
    block.Canonical ∧ (ofCcData block).bytes <+: payload := by
  obtain rfl : data = ofCcData block := ccData?_eq_some_iff.mp hblock
  exact (read_eq_ok_iff (s := s)).mp h

end UserData

/-! ## Failures of the filter and of a presentation -/

namespace CaptionFilter

/-- The payload of one of the units of user data does not decode, and this is reported. -/
def Unreadable (units : List StreamUnit) (e : Error) : Prop :=
  ∃ unit ∈ units, unit.isUserData = true ∧
    ∃ cause, ((UserData.read unit.data).effect ()).1 = .error cause ∧ e = .unreadableUserData cause

variable {units : List StreamUnit} {unit : StreamUnit}

theorem failsOnly_captions? (h : unit ∈ units) : (captions? unit).FailsOnly (Unreadable units) := by
  intro c e he
  rcases effect_captions?_cases unit c with hok | ⟨cause, _, huser, hread, herror⟩
  · rw [hok] at he
    cases he
  · rw [herror] at he
    exact ⟨unit, h, huser, cause, hread, (Except.error.inj he).symm⟩

theorem failsOnly_keepUnit (h : unit ∈ units) (r : Removal) :
    (keepUnit r unit).FailsOnly (Unreadable units) := by
  rw [keepUnit]
  split
  · exact failsOnly_pure _
  · apply (failsOnly_captions? h).bind
    intro found
    cases found with
    | none => exact failsOnly_pure _
    | some found =>
      intro c e he
      simp only [effect_log_bind, effect_modify_bind, effect_pure] at he
      cases he

/-- What a unit holds can be written as side data. -/
theorem failsOnly_extractUnit (h : unit ∈ units) :
    (extractUnit unit).FailsOnly (Unreadable units) := by
  intro c e he
  rcases effect_captions?_cases unit c with hok | ⟨cause, _, huser, hread, herror⟩
  · obtain ⟨pieces, hpieces, _⟩ := effect_extractUnit hok
    rw [hpieces] at he
    cases he
  · rw [extractUnit, effect_bind_error herror] at he
    exact ⟨unit, h, huser, cause, hread, (Except.error.inj he).symm⟩

theorem failsOnly_apply (units : List StreamUnit) : (apply units).FailsOnly (Unreadable units) := by
  apply failsOnly_get_bind
  intro c
  cases c.action with
  | pass => exact failsOnly_pure _
  | remove =>
    have hremove : (remove units).FailsOnly (Unreadable units) :=
      (failsOnly_fold (fun r _ hunit ↦ failsOnly_keepUnit hunit r) _).map _
    exact hremove.bind fun _ ↦ failsOnly_pure _
  | extract =>
    have hextract : (extract units).FailsOnly (Unreadable units) :=
      (failsOnly_gather fun _ hunit ↦ failsOnly_extractUnit hunit).bind fun _ ↦ failsOnly_pure _
    exact hextract.bind fun _ ↦ failsOnly_pure _

end CaptionFilter

namespace Presentation

variable {σ : Type}

/-- What is decoded can be written as side data. -/
theorem failsOnly_readUserData (payload : List UInt8) :
    (readUserData payload : Procedure (Presentation σ) Unit).FailsOnly fun e ↦
      ∃ cause, ((UserData.read payload).effect ()).1 = .error cause ∧ e = .badUserData cause := by
  intro p e he
  have hattempt : (UserData.read payload).attempt.effect p =
      (.ok ((UserData.read payload).effect ()).1, p) := rfl
  rw [readUserData, effect_bind_ok hattempt] at he
  rcases hread : ((UserData.read payload).effect ()).1 with cause | data <;> rw [hread] at he
  · have hproblem : (tolerate (.badUserData cause)).FailsOnly (σ := Presentation σ)
        (· = .badUserData cause) :=
      failsOnly_get_bind fun p ↦ failsOnly_tolerate p.failLevel _
    exact ⟨cause, rfl, hproblem p e he⟩
  · cases hblock : data.ccData? with
    | none =>
      simp only [hblock] at he
      cases he
    | some block =>
      obtain ⟨hcanonical, _⟩ := UserData.canonical_of_read hread hblock
      obtain rfl : data = .ofCcData block := UserData.ccData?_eq_some_iff.mp hblock
      simp only [hblock, Option.isSome_some, if_pos] at he
      rw [effect_bind_ok (SideData.effect_locally_append hcanonical p)] at he
      cases he

end Presentation

/-- A payload that decodes as a caption block has the packets behind its first seven bytes. They go
into any side data and out of it as they are, and the filter passes over no unit with such a
payload. So the filter and a presentation fail at user data only where it does not decode, never at
what they take out of it. -/
theorem decoded_captions_are_extracted {σ τ : Type} (s : σ) :
    (∀ payload data block, ((UserData.read payload).effect s).1 = .ok data →
      data.ccData? = some block →
        UserData.Extracts payload block ∧
        ∀ unit : StreamUnit, unit.isUserData = true → unit.data = payload → ∀ c,
          (CaptionFilter.captions? unit).effect c = (.ok (some (data, block)), c)) ∧
    (∀ units, (CaptionFilter.apply units).FailsOnly (CaptionFilter.Unreadable units)) ∧
    ∀ payload, (Presentation.readUserData payload : Procedure (Presentation τ) Unit).FailsOnly
      fun e ↦ ∃ cause, ((UserData.read payload).effect ()).1 = .error cause ∧
        e = .badUserData cause := by
  refine ⟨fun payload data block hread hblock ↦ ?_, CaptionFilter.failsOnly_apply,
    Presentation.failsOnly_readUserData⟩
  obtain ⟨hcanonical, hstart⟩ := UserData.canonical_of_read hread hblock
  refine ⟨UserData.extracts_of_canonical hcanonical hstart, ?_⟩
  rintro unit huser rfl c
  obtain rfl : data = .ofCcData block := UserData.ccData?_eq_some_iff.mp hblock
  have hunit : unit.ccData? = some (.ofCcData block, block) :=
    StreamUnit.ccData?_eq_some_iff.mpr ⟨huser, rfl, hcanonical, hstart⟩
  rcases CaptionFilter.effect_captions?_cases unit c with hok | ⟨cause, _, _, herror, _⟩
  · rw [hok, hunit]
  · have hdecodes : ((UserData.read unit.data).effect ()).1 = .ok (.ofCcData block) := hread
    rw [hdecodes] at herror
    cases herror

example : ((UserData.read
      [0x47, 0x41, 0x39, 0x34, 3, 0x41, 0xFF, 0xFC, 0x94, 0x2F, 0xFF]).effect ()).1.map
        UserData.ccData? =
    .ok (some ⟨false, true, false, 1, 0xFF, CcData.slotsOf [⟨true, 0, 0x94, 0x2F⟩]⟩) := by
  decide +kernel

end ClosedCaptions
