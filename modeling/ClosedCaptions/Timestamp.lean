import ClosedCaptions.Numeral

/-!
# Timestamps

Times are counted in ticks of 1/90000 second and shown in milliseconds. Both counts are words of 64
bits, that of the ticks a signed one.
-/

namespace ClosedCaptions.Timestamp

def ticksPerSecond : Int64 := 90000

/-- The nearest millisecond, halves up; times before zero count as zero. The product wraps around
from `2 ^ 64 / 1000` ticks on. -/
def milliseconds (ticks : Int64) : UInt64 :=
  ((max ticks 0).toUInt64 * 1000 + ticksPerSecond.toUInt64 / 2) / ticksPerSecond.toUInt64

/-- The time of a frame, in double precision, rounded half away from zero and kept in the range
of a signed word of 64 bits. -/
def ofFrame (index : Nat) (rate : Float) : Int64 :=
  ((UInt64.ofNat index).toFloat * ticksPerSecond.toFloat / rate).round.toInt64

/-- Hours, minutes, seconds and milliseconds; the hours widen past 99. -/
def display (ms : UInt64) (separator : Char) : String :=
  let hours := Numeral.decimal 2 (ms / 3600000).toNat
  let minutes := Numeral.decimal 2 (ms % 3600000 / 60000).toNat
  let seconds := Numeral.decimal 2 (ms % 60000 / 1000).toNat
  let thousandths := Numeral.decimal 3 (ms % 1000).toNat
  s!"{hours}:{minutes}:{seconds}{separator}{thousandths}"

end ClosedCaptions.Timestamp
