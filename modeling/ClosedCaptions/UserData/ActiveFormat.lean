import ClosedCaptions.Layout.Basic

/-!
# Active format description

Which part of the coded picture is of interest, as a four-bit code when it is given at all.
-/

namespace ClosedCaptions

structure ActiveFormat where
  active : Bool
  format : UInt8
  deriving DecidableEq, Repr

namespace ActiveFormat

def blank : ActiveFormat :=
  ⟨false, 0⟩

def layout (d : ActiveFormat) : Layout ActiveFormat := do
  Layout.fixed 1 "zero_bit" 0
  let active ← Layout.flag "active_format_flag" d.active
  Layout.fixed 6 "alignment_bits" 1
  if active then
    Layout.fixed 4 "reserved" 0xf
    let format ← Layout.uint8 4 "active_format" d.format
    return ⟨true, format⟩
  else
    return blank

end ActiveFormat

end ClosedCaptions
