/-!
# Display aspect ratios

Sequence headers code 4:3, 16:9 and 2.21:1; any other ratio is coded as square samples.
-/

namespace ClosedCaptions

/-- Euclid's recursion: the second number and the remainder take the place of the two numbers until
the second one is zero. -/
def euclid (a b : Nat) : Nat :=
  if b = 0 then a else euclid b (a % b)
termination_by b
decreasing_by exact Nat.mod_lt a (Nat.pos_of_ne_zero ‹_›)

/-- The `aspect_ratio_information` of a display aspect ratio, which depends on the ratio in
lowest terms alone. -/
def aspectRatioCode (num den : Nat) : Nat :=
  let divisor := max (euclid num den) 1
  match (num / divisor, den / divisor) with
  | (4, 3) => 2
  | (16, 9) => 3
  | (221, 100) => 4
  | _ => 1

end ClosedCaptions
