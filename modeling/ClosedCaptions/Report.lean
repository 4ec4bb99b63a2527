import ClosedCaptions.Document.Basic
import ClosedCaptions.Numeral
import ClosedCaptions.Sequence.Header
import ClosedCaptions.UserData.Basic

/-!
# Stream report

What is known about a stream: a record for each user data unit that could be decoded, and totals
over all of them.
-/

namespace ClosedCaptions

/-- A packet of a caption block, as it is reported. That it belongs to line 21 is counted but not
printed. -/
structure PacketRecord where
  valid : Bool
  type : UInt8
  data1 : UInt8
  data2 : UInt8
  line21 : Bool
  deriving DecidableEq, Repr

namespace PacketRecord

def ofPacket (p : CcPacket) : PacketRecord :=
  ⟨p.valid, p.type, p.data1, p.data2, p.isLine21⟩

def document (r : PacketRecord) : Document :=
  let data := Numeral.hexUpper 2 r.data1.toNat ++ " " ++ Numeral.hexUpper 2 r.data2.toNat
  .record [("valid", .bool r.valid), ("ccType", .number r.type.toNat), ("data", .text data)]

end PacketRecord

/-- One user data unit; `picture` is the number of the picture it belongs to. -/
inductive UserDataRecord where
  | ccData (picture : Nat) (processCcData : Bool) (emData : UInt8) (packets : List PacketRecord)
  | barData (picture : Nat) (top bottom left right : Option UInt16)
  | activeFormat (picture : Nat) (format : Option UInt8)
  | unknown (picture : Nat) (identifier : String) (typeCode : Option UInt8)
  deriving DecidableEq, Repr

namespace UserDataRecord

/-- Characters that show and are not blank. -/
def isGraphic (byte : Nat) : Bool :=
  0x21 ≤ byte && byte ≤ 0x7e

/-- An identifier as its four characters, or as a number when one of them does not show. -/
def identifierText (identifier : UInt32) : String :=
  let n := identifier.toNat
  let bytes := [n / 0x1000000 % 0x100, n / 0x10000 % 0x100, n / 0x100 % 0x100, n % 0x100]
  if bytes.all isGraphic then String.ofList (bytes.map Char.ofNat)
  else "0x" ++ Numeral.hexLower 8 n

def barLine? (bar : Bar) : Option UInt16 :=
  if bar.present then some bar.line else none

def ofUserData (picture : Nat) (data : UserData) : UserDataRecord :=
  match data with
  | .atsc (.ccData d) =>
    .ccData picture d.processCcData d.emData (d.packets.map PacketRecord.ofPacket)
  | .atsc (.barData d) =>
    .barData picture (barLine? d.top) (barLine? d.bottom) (barLine? d.left) (barLine? d.right)
  | .atsc (.unknown code) => .unknown picture (identifierText data.identifier) (some code)
  | .activeFormat d => .activeFormat picture (if d.active then some d.format else none)
  | .unknown identifier => .unknown picture (identifierText identifier) none

/-- A field that is left out when it has no value. -/
def optional (key : String) (value : Option Nat) : List (String × Document) :=
  (value.map fun n ↦ (key, .number n)).toList

def document : UserDataRecord → Document
  | ccData picture processCcData emData packets =>
    .record [("type", .text "ccData"), ("picture", .number picture),
      ("processCcData", .bool processCcData), ("emData", .number emData.toNat),
      ("packets", .list (packets.map PacketRecord.document))]
  | barData picture top bottom left right =>
    .record ([("type", .text "barData"), ("picture", .number picture)] ++
      optional "top" (top.map UInt16.toNat) ++ optional "bottom" (bottom.map UInt16.toNat) ++
      optional "left" (left.map UInt16.toNat) ++ optional "right" (right.map UInt16.toNat))
  | activeFormat picture format =>
    .record ([("type", .text "afd"), ("picture", .number picture)] ++
      optional "activeFormat" (format.map UInt8.toNat))
  | unknown picture identifier typeCode =>
    .record ([("type", .text "unknown"), ("picture", .number picture),
      ("identifier", .text identifier)] ++ optional "typeCode" (typeCode.map UInt8.toNat))

end UserDataRecord

/-- Totals over a stream. -/
structure StreamSummary where
  width : Option UInt16
  height : Option UInt16
  frameRate : Option String
  pictures : Nat
  userDataUnits : Nat
  ccData : Nat
  barData : Nat
  activeFormat : Nat
  unknown : Nat
  undecodable : Nat
  packets608 : Nat
  packetsDtvcc : Nat
  deriving DecidableEq, Repr

namespace StreamSummary

def empty : StreamSummary :=
  ⟨none, none, none, 0, 0, 0, 0, 0, 0, 0, 0, 0⟩

/-- A frame rate: whole rates as they are, others with three decimals, rounded to nearest. -/
def rateText (rate : Nat × Nat) : String :=
  let (num, den) := rate
  if den = 1 then toString num
  else
    let thousandths := (2 * 1000 * num + den) / (2 * den)
    toString (thousandths / 1000) ++ "." ++ Numeral.decimal 3 (thousandths % 1000)

def setSequenceHeader (s : StreamSummary) (h : SequenceHeader) : StreamSummary :=
  { s with
    width := some h.horizontalSize
    height := some h.verticalSize
    frameRate := h.frameRate?.map rateText }

/-- Count the packets that are valid, by what they hold. -/
def countPackets (s : StreamSummary) (packets : List PacketRecord) : StreamSummary :=
  let valid := packets.filter PacketRecord.valid
  let line21 := (valid.filter PacketRecord.line21).length
  { s with
    packets608 := s.packets608 + line21
    packetsDtvcc := s.packetsDtvcc + (valid.length - line21) }

def count (s : StreamSummary) (r : UserDataRecord) : StreamSummary :=
  let s := { s with userDataUnits := s.userDataUnits + 1 }
  match r with
  | .ccData _ _ _ packets => { s with ccData := s.ccData + 1 }.countPackets packets
  | .barData .. => { s with barData := s.barData + 1 }
  | .activeFormat .. => { s with activeFormat := s.activeFormat + 1 }
  | .unknown .. => { s with unknown := s.unknown + 1 }

def document (s : StreamSummary) : Document :=
  .record (UserDataRecord.optional "width" (s.width.map UInt16.toNat) ++
    UserDataRecord.optional "height" (s.height.map UInt16.toNat) ++
    (s.frameRate.map fun rate ↦ ("frameRate", Document.text rate)).toList ++
    [("pictures", .number s.pictures), ("userDataUnits", .number s.userDataUnits),
      ("ccData", .number s.ccData), ("barData", .number s.barData),
      ("afd", .number s.activeFormat), ("unknown", .number s.unknown),
      ("undecodable", .number s.undecodable), ("ccPackets608", .number s.packets608),
      ("ccPacketsDtvcc", .number s.packetsDtvcc)])

/-- The totals as lines of text, with the size of the stream in bytes. -/
def display (s : StreamSummary) (size : Nat) : String :=
  let picture :=
    match s.width, s.height with
    | some width, some height => toString width.toNat ++ "x" ++ toString height.toNat
    | _, _ => "unknown (no sequence header)"
  let rate := (s.frameRate.map fun rate ↦ row "Frame rate" (rate ++ " fps")).toList
  let lines :=
    ["", "MPEG-2 Caption Information", "==========================", "",
      row "Picture size" picture] ++ rate ++
    [row "Pictures" (toString s.pictures),
      row "Stream size" (toString size ++ " bytes"),
      "",
      row "User data units" (toString s.userDataUnits),
      row "  ATSC cc_data" (toString s.ccData),
      row "  ATSC bar_data" (toString s.barData),
      row "  AFD" (toString s.activeFormat),
      row "  Unknown" (toString s.unknown),
      row "  Undecodable" (toString s.undecodable),
      "",
      row "EIA-608 packets" (toString s.packets608),
      row "DTVCC packets" (toString s.packetsDtvcc)]
  String.join (lines.map (· ++ "\n"))
where
  /-- A label and its value. -/
  row (label value : String) : String :=
    Numeral.column 28 label ++ value

end StreamSummary

end ClosedCaptions
