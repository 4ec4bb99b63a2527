import ClosedCaptions.UserData.ActiveFormat
import ClosedCaptions.UserData.BarData
import ClosedCaptions.UserData.CcData

/-!
# Registered user data

The user data of ATSC A/53. An identifier of 32 bits selects the payload: ATSC data, which a
type code divides further, or an active format description. Other identifiers and type codes
are accepted, and nothing after them is read or written.
-/

namespace ClosedCaptions

inductive AtscData where
  | ccData (data : CcData)
  | barData (data : BarData)
  | unknown (code : UInt8)
  deriving DecidableEq, Repr

namespace AtscData

def typeCode : AtscData → UInt8
  | ccData _ => 3
  | barData _ => 6
  | unknown code => code

/-- The empty payload of a type code. -/
def ofTypeCode (code : UInt8) : AtscData :=
  if code = 3 then ccData .blank
  else if code = 6 then barData .blank
  else unknown code

/-- What follows the type code. -/
def payload : AtscData → Layout AtscData
  | ccData data => ccData <$> data.layout
  | barData data => barData <$> data.layout
  | unknown code => .note (.unknownTypeCode code) (.done (unknown code))

def layout (d : AtscData) : Layout AtscData :=
  .union (.unsigned "user_data_type_code" 8 8) d.typeCode.toNat
    (fun code ↦ (ofTypeCode (UInt8.ofNat code)).payload) d.payload

end AtscData

inductive UserData where
  | atsc (data : AtscData)
  | activeFormat (data : ActiveFormat)
  | unknown (identifier : UInt32)
  deriving DecidableEq, Repr

namespace UserData

/-- The identifier `GA94`. -/
def atscIdentifier : UInt32 := 0x47413934

/-- The identifier `DTG1`. -/
def activeFormatIdentifier : UInt32 := 0x44544731

def identifier : UserData → UInt32
  | atsc _ => atscIdentifier
  | activeFormat _ => activeFormatIdentifier
  | unknown identifier => identifier

/-- The empty user data of an identifier. -/
def ofIdentifier (identifier : UInt32) : UserData :=
  if identifier = atscIdentifier then atsc (.unknown 0)
  else if identifier = activeFormatIdentifier then activeFormat .blank
  else unknown identifier

/-- What follows the identifier. -/
def payload : UserData → Layout UserData
  | atsc data => atsc <$> data.layout
  | activeFormat data => activeFormat <$> data.layout
  | unknown identifier => .note (.unknownIdentifier identifier) (.done (unknown identifier))

def layout (d : UserData) : Layout UserData :=
  .union (.unsigned "user_identifier" 32 32) d.identifier.toNat
    (fun identifier ↦ (ofIdentifier (UInt32.ofNat identifier)).payload) d.payload

/-- The caption block, if there is one. -/
def ccData? : UserData → Option CcData
  | atsc (.ccData data) => some data
  | _ => none

def ofCcData (data : CcData) : UserData :=
  atsc (.ccData data)

/-- Decode one block. Bytes past its layout are left unread. -/
def read {σ : Type} (bytes : List UInt8) : Procedure σ UserData :=
  .locally (Reader.ofBytes bytes) do
    let data ← (unknown 0).layout.read
    let reader ← Procedure.get
    Procedure.log (.userDataRead reader.position (8 * bytes.length))
    return data

/-- Encode into the front of a buffer, and return the number of bytes written. -/
def write (d : UserData) : Procedure (List UInt8) Nat :=
  .overwriting do
    let _ ← d.layout.write
    let writer ← Procedure.get
    if writer.byteAligned then
      return writer.position / 8
    else
      Procedure.fail (.unalignedOutput writer.position)

end UserData

end ClosedCaptions
