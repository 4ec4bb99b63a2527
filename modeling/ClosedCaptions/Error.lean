import ClosedCaptions.Numeral

/-!
# Failures

One inductive type of causes for every operation of the library, and the sentence each is
reported with. A cause that wraps another one keeps it.
-/

namespace ClosedCaptions

open Numeral

inductive Error where
  -- Cursors
  | endOfData
  | bitsOutOfBounds (count position : Nat)
  | skipOutOfBounds
  | readTooWide
  | noRoom (count written capacity : Nat)
  | writeTooWide
  | valueTooWide
  -- Record layouts
  | outOfRange (name : String) (value max : Nat)
  | fixedMismatch (name : String) (actual expected : Nat)
  | outOfSpace (name : String) (width available : Nat)
  | unalignedOutput (bits : Nat)
  -- Side data
  | invalidLength (length : Nat)
  | tooManyPackets (count : Nat)
  | notCcData
  -- Line 21 byte pairs
  | invalidPair
  | parityFailed (byte : UInt8)
  | unsupported (type : Nat)
  | screenWidthExceeded (column : Nat)
  -- Streams
  | insufficientData
  | badSequenceHeader (cause : Error)
  | badPictureHeader (cause : Error)
  | badUserData (cause : Error)
  | badUserDataAt (picture : Nat) (cause : Error)
  | unreadableUserData (cause : Error)
  -- Files and commands
  | notFound
  | isFolder
  | notFolder
  | nulInName
  | nameTooLong
  | cannotOpen (name : String) (cause : Error)
  | invalidFrameRate (rate : String)
  | streamToTerminal
  /-- A failure of a caller's own making. -/
  | caller (text : String)
  deriving DecidableEq, Repr

namespace Error

def message : Error → String
  | endOfData => "failed to fill whole buffer"
  | bitsOutOfBounds count position => s!"get_n({count}): out of bounds bits at {position}"
  | skipOutOfBounds => "skip_n: out of bounds bits"
  | readTooWide => "excessive bits for type read"
  | noRoom count written capacity =>
    s!"put_n({count}): out of space at {written} of {capacity} bits"
  | writeTooWide => "excessive bits for type written"
  | valueTooWide => "excessive value for bits written"
  | outOfRange name value max => s!"{name} out of range: value = {value}, allowed 0..={max}"
  | fixedMismatch name actual expected =>
    let read := hexUpper 1 actual
    let wanted := hexUpper 1 expected
    s!"Invalid value for fixed field {name}: read 0x{read}, expected 0x{wanted}"
  | outOfSpace name width available =>
    s!"Not enough space to write {name}: {width} bits needed, {available} bits left"
  | unalignedOutput bits => s!"Written syntax does not end on a byte boundary ({bits} bits)"
  | invalidLength length =>
    s!"A53 CC side data length must be a multiple of 3 (got {length})"
  | tooManyPackets count =>
    s!"A53 CC can only fit 31 packets in a single user data block (got {count})"
  | notCcData => "User data is not ATSC cc_data"
  | invalidPair => "cc_valid is not set"
  | parityFailed byte =>
    let digits := hexUpper 2 byte.toNat
    s!"Parity check failed on cc_data_2: 0x{digits}"
  | unsupported type => s!"Unsupported cc data unit: type {type}"
  | screenWidthExceeded column => s!"Data ignored since exceeding screen width at column {column}"
  | insufficientData => "Insufficient buffer data for unit extraction"
  | badSequenceHeader cause => "Bad sequence header: " ++ cause.message
  | badPictureHeader cause => "Bad picture header: " ++ cause.message
  | badUserData cause => "Bad user data: " ++ cause.message
  | badUserDataAt picture cause => s!"Bad user data at picture {picture}: " ++ cause.message
  | unreadableUserData cause => "Failed to read user data: " ++ cause.message
  | notFound => "No such file or directory (os error 2)"
  | isFolder => "Is a directory (os error 21)"
  | notFolder => "Not a directory (os error 20)"
  | nulInName => "file name contained an unexpected NUL byte"
  | nameTooLong => "File name too long (os error 36)"
  | cannotOpen name cause => s!"Failed to open {name}: " ++ cause.message
  | invalidFrameRate rate => s!"Invalid frame rate: {rate}"
  | streamToTerminal => "Writing the filtered stream to stdout is not supported"
  | caller text => text

end Error

end ClosedCaptions
