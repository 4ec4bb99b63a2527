import ClosedCaptions.Layout.Basic

/-!
# Bar data

Letterbox and pillarbox bars: for each edge of the picture whether there is a bar, and if so the
last line or column that it covers.
-/

namespace ClosedCaptions

structure Bar where
  present : Bool
  line : UInt16
  deriving DecidableEq, Repr

namespace Bar

def blank : Bar :=
  ⟨false, 0⟩

/-- The position of the bar, once it is known to be there. -/
def layout (bar : Bar) (present : Bool) (name : String) : Layout Bar := do
  if present then
    Layout.fixed 2 "one_bits" 3
    let line ← Layout.uint16 14 name bar.line
    return ⟨true, line⟩
  else
    return blank

end Bar

structure BarData where
  top : Bar
  bottom : Bar
  left : Bar
  right : Bar
  deriving DecidableEq, Repr

namespace BarData

def blank : BarData :=
  ⟨.blank, .blank, .blank, .blank⟩

def layout (d : BarData) : Layout BarData := do
  let top ← Layout.flag "top_bar_flag" d.top.present
  let bottom ← Layout.flag "bottom_bar_flag" d.bottom.present
  let left ← Layout.flag "left_bar_flag" d.left.present
  let right ← Layout.flag "right_bar_flag" d.right.present
  Layout.fixed 4 "reserved" 0xf
  let top ← d.top.layout top "line_number_end_of_top_bar"
  let bottom ← d.bottom.layout bottom "line_number_end_of_bottom_bar"
  let left ← d.left.layout left "line_number_end_of_left_bar"
  let right ← d.right.layout right "line_number_end_of_right_bar"
  return ⟨top, bottom, left, right⟩

end BarData

end ClosedCaptions
