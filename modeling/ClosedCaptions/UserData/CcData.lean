import ClosedCaptions.Layout.Basic

/-!
# Caption data

The `cc_data()` block of CEA-708: a small header and up to 31 packets of three bytes, each a
line 21 byte pair or a piece of a DTVCC packet.
-/

namespace ClosedCaptions

structure CcPacket where
  valid : Bool
  type : UInt8
  data1 : UInt8
  data2 : UInt8
  deriving DecidableEq, Repr, Inhabited

namespace CcPacket

/-- The empty packet. -/
def blank : CcPacket :=
  ⟨false, 0, 0, 0⟩

/-- Types 0 and 1 are the two fields of line 21, types 2 and 3 DTVCC data. -/
def isLine21 (packet : CcPacket) : Bool :=
  packet.type == 0 || packet.type == 1

def layout (packet : CcPacket) : Layout CcPacket := do
  Layout.fixed 5 "marker_bits" 0x1f
  let valid ← Layout.flag "cc_valid" packet.valid
  let type ← Layout.uint8 2 "cc_type" packet.type
  let data1 ← Layout.uint8 8 "cc_data_1" packet.data1
  let data2 ← Layout.uint8 8 "cc_data_2" packet.data2
  return ⟨valid, type, data1, data2⟩

end CcPacket

/-- The most packets in one block. -/
def maxPackets : Nat := 31

/-- A block has a slot for every packet it may hold; `count` says how many are in use. -/
structure CcData where
  processEmData : Bool
  processCcData : Bool
  additionalData : Bool
  count : UInt8
  emData : UInt8
  slots : Vector CcPacket maxPackets
  deriving DecidableEq, Repr

namespace CcData

/-- Slots filled from the front. -/
def slotsOf (packets : List CcPacket) : Vector CcPacket maxPackets :=
  Vector.ofFn fun i ↦ packets[i.val]?.getD .blank

/-- The empty block. -/
def blank : CcData :=
  ⟨false, false, false, 0, 0, slotsOf []⟩

def slot (d : CcData) (i : Nat) : CcPacket :=
  d.slots[i]?.getD .blank

/-- The packets in use. -/
def packets (d : CcData) : List CcPacket :=
  d.slots.toList.take d.count.toNat

/-- A block of at most 31 packets, marked for processing. -/
def ofPackets (packets : List CcPacket) : CcData :=
  let kept := packets.take maxPackets
  { blank with processCcData := true, count := UInt8.ofNat kept.length, slots := slotsOf kept }

def layout (d : CcData) : Layout CcData := do
  let processEmData ← Layout.flag "process_em_data_flag" d.processEmData
  let processCcData ← Layout.flag "process_cc_data_flag" d.processCcData
  let additionalData ← Layout.flag "additional_data_flag" d.additionalData
  let count ← Layout.uint8 5 "cc_count" d.count
  let emData ← Layout.uint8 8 "em_data" d.emData
  let packets ← Layout.sequence ((List.range count.toNat).map fun i ↦ (d.slot i).layout)
  Layout.fixed 8 "marker_bits" 0xff
  return ⟨processEmData, processCcData, additionalData, count, emData, slotsOf packets⟩

end CcData

end ClosedCaptions
