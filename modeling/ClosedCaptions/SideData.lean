import ClosedCaptions.UserData.Basic

/-!
# Caption side data

The packets of a caption block as a flat string of three bytes each, without the header.
-/

namespace ClosedCaptions.SideData

/-- The bytes of one packet. -/
def packetSize : Nat := 3

/-- Read packets one after the other. -/
def readPackets : Nat → Procedure Reader (List CcPacket)
  | 0 => return []
  | count + 1 => do
    let packet ← CcPacket.blank.layout.read
    let packets ← readPackets count
    return packet :: packets

/-- Decode side data into a caption block that is marked for processing. -/
def read {σ : Type} (bytes : List UInt8) : Procedure σ UserData := do
  let length := bytes.length
  if length % packetSize ≠ 0 then
    Procedure.log (.badSideDataLength length)
    Procedure.fail (.invalidLength length)
  else
    let count := length / packetSize
    if maxPackets < count then
      Procedure.log (.oversizedSideData count)
      Procedure.fail (.tooManyPackets count)
    else
      let packets ← Procedure.locally (Reader.ofBytes bytes) (readPackets count)
      return .ofCcData (.ofPackets packets)

def writePackets : List CcPacket → Procedure Writer Unit
  | [] => return
  | packet :: packets => do
    let _ ← packet.layout.write
    writePackets packets

/-- Append packets to side data, or empty it when one of them cannot be written. -/
def appendPackets (packets : List CcPacket) : Procedure (List UInt8) Unit :=
  let room := List.replicate (packetSize * packets.length) 0
  .onFailure (.focus (fun _ ↦ Writer.ofBuffer room) (fun w bytes ↦ bytes ++ w.contents)
    (writePackets packets)) fun _ ↦ []

/-- Append the packets of a caption block to side data. -/
def append (data : UserData) : Procedure (List UInt8) Unit :=
  match data.ccData? with
  | none => .fail .notCcData
  | some block =>
    let count := block.count.toNat
    if maxPackets < count then do
      Procedure.log (.oversizedSideData count)
      Procedure.modify fun _ ↦ []
      Procedure.fail (.tooManyPackets count)
    else
      appendPackets block.packets

end ClosedCaptions.SideData
