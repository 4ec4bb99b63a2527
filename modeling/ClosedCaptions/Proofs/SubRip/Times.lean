import ClosedCaptions.Proofs.SubRip.Entries
import Mathlib.Algebra.Order.Round
import Mathlib.Data.Rat.Floor
import Mathlib.Tactic.Ring

/-!
# The times of entries

The times in an entry are read as clocks, with minutes and seconds below 60. A clock shows the
millisecond next to a time that is counted in ticks, as long as its milliseconds fit into a word. So
later times never show an earlier clock there, and what is written for any cues is known to the last
character.
-/

namespace ClosedCaptions

/-! ## Numerals -/

namespace Numeral

theorem length_decimal {width value : Nat} (hwidth : 0 < width) (h : value < 10 ^ width) :
    (decimal width value).toList.length = width := by
  have hdigits : (Nat.toDigits 10 value).length ≤ width :=
    (Nat.length_toDigits_le_iff (by decide) hwidth).mpr h
  rw [decimal, String.toList_ofList, padLeft, List.length_append, List.length_replicate]
  omega

theorem le_length_decimal (width value : Nat) : width ≤ (decimal width value).toList.length := by
  rw [decimal, String.toList_ofList, padLeft, List.length_append, List.length_replicate]
  omega

/-- Zeros in front do not change a number. -/
theorem ofDigitChars_padLeft (width value : Nat) :
    Nat.ofDigitChars 10 (padLeft width '0' (Nat.toDigits 10 value)) 0 = value := by
  have hzeros (count : Nat) (digits : List Char) :
      Nat.ofDigitChars 10 (List.replicate count '0' ++ digits) 0 =
        Nat.ofDigitChars 10 digits 0 := by
    induction count with
    | zero => rfl
    | succ count ih =>
      rw [List.replicate_succ, List.cons_append, Nat.ofDigitChars_cons]
      exact ih
  rw [padLeft, hzeros, Nat.ofDigitChars_toDigits (by decide) (by decide)]

theorem not_mem_decimal {c : Char} (h : c.isDigit = false) (width value : Nat) :
    c ∉ (decimal width value).toList := by
  intro hmem
  rw [isDigit_of_mem_decimal hmem] at h
  cases h

end Numeral

theorem SubRip.decimal?_decimal {width : Nat} (hwidth : 0 < width) (value : Nat) :
    decimal? (Numeral.decimal width value) = some value := by
  have hne : Numeral.decimal width value ≠ "" := by
    intro hempty
    have hlength := Numeral.le_length_decimal width value
    rw [hempty] at hlength
    exact absurd (hwidth.trans_le hlength) (by decide)
  have hall : (Numeral.decimal width value).toList.all Char.isDigit :=
    List.all_eq_true.mpr fun _ hc ↦ Numeral.isDigit_of_mem_decimal hc
  have hvalue : Nat.ofDigitChars 10 (Numeral.decimal width value).toList 0 = value := by
    rw [Numeral.decimal, String.toList_ofList, Numeral.ofDigitChars_padLeft]
  rw [decimal?, if_pos ⟨hne, hall⟩, hvalue]

/-! ## Clocks -/

/-- Hours, minutes, seconds and milliseconds. -/
structure Clock where
  hours : Nat
  minutes : Nat
  seconds : Nat
  thousandths : Nat
  minutes_lt : minutes < 60
  seconds_lt : seconds < 60
  thousandths_lt : thousandths < 1000
  deriving DecidableEq

namespace Clock

def milliseconds (c : Clock) : Nat :=
  ((c.hours * 60 + c.minutes) * 60 + c.seconds) * 1000 + c.thousandths

def ofMilliseconds (ms : Nat) : Clock where
  hours := ms / 3600000
  minutes := ms % 3600000 / 60000
  seconds := ms % 60000 / 1000
  thousandths := ms % 1000
  minutes_lt := by omega
  seconds_lt := by omega
  thousandths_lt := by omega

theorem milliseconds_ofMilliseconds (ms : Nat) : (ofMilliseconds ms).milliseconds = ms := by
  simp only [ofMilliseconds, milliseconds]
  omega

/-- A number in so many digits. -/
def number? (width : Nat) (digits : List Char) : Option Nat :=
  if digits.length = width then SubRip.decimal? (String.ofList digits) else none

/-- The clock that a text shows as `HH:MM:SS,mmm`, with more digits for the hours if need be. -/
def read? (text : String) : Option Clock :=
  match text.toList.splitOn ':' with
  | [hours, minutes, rest] =>
    match rest.splitOn ',' with
    | [seconds, thousandths] => do
      let h ← if 2 ≤ hours.length then SubRip.decimal? (String.ofList hours) else none
      let m ← number? 2 minutes
      let s ← number? 2 seconds
      let t ← number? 3 thousandths
      if hlt : m < 60 ∧ s < 60 ∧ t < 1000 then
        some ⟨h, m, s, t, hlt.1, hlt.2.1, hlt.2.2⟩
      else none
    | _ => none
  | _ => none

theorem number?_decimal {width value : Nat} (hwidth : 0 < width) (h : value < 10 ^ width) :
    number? width (Numeral.decimal width value).toList = some value := by
  rw [number?, if_pos (Numeral.length_decimal hwidth h), String.ofList_toList,
    SubRip.decimal?_decimal hwidth]

theorem read?_display (ms : UInt64) :
    read? (Timestamp.display ms ',') = some (ofMilliseconds ms.toNat) := by
  let c := ofMilliseconds ms.toNat
  let hours := (Numeral.decimal 2 c.hours).toList
  let minutes := (Numeral.decimal 2 c.minutes).toList
  let seconds := (Numeral.decimal 2 c.seconds).toList
  let thousandths := (Numeral.decimal 3 c.thousandths).toList
  have htext : (Timestamp.display ms ',').toList =
      hours ++ ':' :: (minutes ++ ':' :: (seconds ++ ',' :: thousandths)) := by
    simp [Timestamp.display, hours, minutes, seconds, thousandths, c, ofMilliseconds]
    rfl
  have hcolon : ':' ∉ seconds ++ ',' :: thousandths := by
    simp only [List.mem_append, List.mem_cons, not_or]
    exact ⟨Numeral.not_mem_decimal (by decide) 2 c.seconds, by decide,
      Numeral.not_mem_decimal (by decide) 3 c.thousandths⟩
  have hparts : (Timestamp.display ms ',').toList.splitOn ':' =
      [hours, minutes, seconds ++ ',' :: thousandths] := by
    rw [htext,
      List.splitOn_append_cons_self_of_not_mem (Numeral.not_mem_decimal (by decide) 2 c.hours),
      List.splitOn_append_cons_self_of_not_mem (Numeral.not_mem_decimal (by decide) 2 c.minutes),
      List.splitOn_eq_singleton hcolon]
  have hrest : (seconds ++ ',' :: thousandths).splitOn ',' = [seconds, thousandths] := by
    rw [List.splitOn_append_cons_self_of_not_mem (Numeral.not_mem_decimal (by decide) 2 c.seconds),
      List.splitOn_eq_singleton (Numeral.not_mem_decimal (by decide) 3 c.thousandths)]
  have hhours : SubRip.decimal? (String.ofList hours) = some c.hours := by
    rw [String.ofList_toList, SubRip.decimal?_decimal (by decide)]
  have hminutes : number? 2 minutes = some c.minutes :=
    number?_decimal (by decide) (c.minutes_lt.trans (by decide))
  have hseconds : number? 2 seconds = some c.seconds :=
    number?_decimal (by decide) (c.seconds_lt.trans (by decide))
  have hthousandths : number? 3 thousandths = some c.thousandths :=
    number?_decimal (by decide) c.thousandths_lt
  have hclock : c.minutes < 60 ∧ c.seconds < 60 ∧ c.thousandths < 1000 :=
    ⟨c.minutes_lt, c.seconds_lt, c.thousandths_lt⟩
  have hlength : 2 ≤ hours.length := Numeral.le_length_decimal 2 c.hours
  simp only [read?, hparts, hrest, if_pos hlength, hhours, hminutes, hseconds, hthousandths,
    Option.bind_eq_bind, Option.bind_some, dif_pos hclock]
  rfl

end Clock

/-! ## Milliseconds -/

namespace Timestamp

/-- The milliseconds of a time are counted without leaving the range of a word. -/
def Fits (ticks : Int64) : Prop :=
  1000 * ticks.toInt + 45000 < 2 ^ 64

variable {ticks earlier later : Int64}

theorem Fits.of_le (h : Fits later) (hle : earlier ≤ later) : Fits earlier := by
  have hticks := Int64.le_iff_toInt_le.mp hle
  unfold Fits at h ⊢
  omega

/-- Times before zero count as zero. -/
theorem toNat_max_zero (ticks : Int64) : (max ticks 0).toUInt64.toNat = ticks.toInt.toNat := by
  have hmax : max ticks 0 = if ticks ≤ 0 then 0 else ticks := rfl
  rw [hmax]
  split
  · next h =>
    have hticks : ticks.toInt ≤ 0 := Int64.le_iff_toInt_le.mp h
    rw [Int.toNat_of_nonpos hticks]
    rfl
  · next h =>
    have hticks : 0 ≤ ticks := by
      rw [Int64.le_iff_toInt_le] at h ⊢
      exact Int.le_of_lt (Int.not_le.mp h)
    rw [Int64.toNat_toUInt64_of_le hticks, Int64.toNat_toInt]

theorem toNat_milliseconds (ticks : Int64) :
    (milliseconds ticks).toNat = (ticks.toInt.toNat * 1000 + 45000) % 2 ^ 64 / 90000 := by
  have hdivisor : ticksPerSecond.toUInt64.toNat = 90000 := rfl
  have hhalf : (ticksPerSecond.toUInt64 / 2).toNat = 45000 := rfl
  have hthousand : (1000 : UInt64).toNat = 1000 := rfl
  rw [milliseconds, UInt64.toNat_div, UInt64.toNat_add, UInt64.toNat_mul, toNat_max_zero, hdivisor,
    hhalf, hthousand, Nat.mod_add_mod]

theorem Fits.toNat_milliseconds (h : Fits ticks) :
    (milliseconds ticks).toNat = (ticks.toInt.toNat * 1000 + 45000) / 90000 := by
  have hsum : ticks.toInt.toNat * 1000 + 45000 < 2 ^ 64 := by
    unfold Fits at h
    omega
  rw [Timestamp.toNat_milliseconds, Nat.mod_eq_of_lt hsum]

/-- The nearest millisecond, and the later of two that are equally near. -/
theorem Fits.milliseconds_eq_round (h : Fits ticks) :
    ((milliseconds ticks).toNat : Int) = round (((max ticks.toInt 0 : Int) : ℚ) / 90) := by
  have hticks : ((ticks.toInt.toNat : Int) : ℚ) = ((max ticks.toInt 0 : Int) : ℚ) := by
    rw [Int.toNat_eq_max]
  have hhalf : ((max ticks.toInt 0 : Int) : ℚ) / 90 + 1 / 2 =
      ((ticks.toInt.toNat * 1000 + 45000 : Int) : ℚ) / (90000 : Nat) := by
    rw [← hticks]
    push_cast
    ring
  rw [round_eq, hhalf, Rat.floor_intCast_div_natCast, h.toNat_milliseconds]
  rfl

theorem Fits.milliseconds_mono (h : Fits later) (hle : earlier ≤ later) :
    (milliseconds earlier).toNat ≤ (milliseconds later).toNat := by
  have hticks : earlier.toInt.toNat ≤ later.toInt.toNat :=
    Int.toNat_le_toNat (Int64.le_iff_toInt_le.mp hle)
  rw [h.toNat_milliseconds, (h.of_le hle).toNat_milliseconds]
  apply Nat.div_le_div_right
  omega

end Timestamp

namespace SubRip

theorem read?_timeText (time : Int64) :
    Clock.read? (timeText time) = some (.ofMilliseconds (Timestamp.milliseconds time).toNat) :=
  Clock.read?_display _

/-! ## What is written -/

/-- Cues with their ends: start and duration together or, without a duration, the start of the cue
behind them, and for the last of them the end of the stream. -/
def ended (cues : List Cue) (stop : Int64) : List (Cue × Int64) :=
  cues.zipWith (fun cue next ↦ (cue, cue.duration.elim next (cue.start + ·)))
    (cues.tail.map Cue.start ++ [stop])

theorem shown_eq_ended (cues : List Cue) (stop : Int64) :
    shown (some stop) cues = ended cues stop := by
  induction cues with
  | nil => rfl
  | cons cue later ih =>
    cases later with
    | nil => cases hend : cue.duration <;> simp [shown, ended, Cue.endTime, hend]
    | cons next later =>
      have hstep : ended (cue :: next :: later) stop =
          (cue, cue.duration.elim next.start (cue.start + ·)) :: ended (next :: later) stop := rfl
      rw [hstep, ← ih, shown]
      cases hend : cue.duration <;> simp [Cue.endTime, hend]

/-- The cues with text, each with its end and its number. -/
def entriesOf (cues : List Cue) (stop : Int64) : List ((Cue × Int64) × Nat) :=
  ((ended cues stop).filter fun p ↦ !p.1.isEmpty).zipIdx 1

/-- The text that is written for cues is one block for each of them that has text, in order and
numbered from one, with the pieces between its line breaks as lines. Each time is read as a clock.
As far as the milliseconds fit into a word it is the clock of the nearest one, and no later time is
read as an earlier clock. -/
theorem text_finish_pushAll (cues : List Cue) (stop : Int64) :
    ((empty.pushAll cues).finish stop).output =
        String.join ((entriesOf cues stop).map fun ((cue, stop), number) ↦
          unlines (toString number :: (timeText cue.start ++ " --> " ++ timeText stop) ::
            cue.lines ++ [""])) ∧
      ((empty.pushAll cues).finish stop).entries = (entriesOf cues stop).length ∧
      (∀ (cue : Cue) pieces, cue.lines = pieces ↔ pieces ≠ [] ∧
        lineBreak.intercalate (pieces.map String.toList) = cue.text.toList ∧
          ∀ piece ∈ pieces, ¬ lineBreak <:+: piece.toList) ∧
      (∀ time, ∃ clock, Clock.read? (timeText time) = some clock ∧ (Timestamp.Fits time →
        (clock.milliseconds : Int) = round (((max time.toInt 0 : Int) : ℚ) / 90))) ∧
      ∀ earlier later, earlier ≤ later → Timestamp.Fits later → ∀ clock clock',
        Clock.read? (timeText earlier) = some clock →
        Clock.read? (timeText later) = some clock' → clock.milliseconds ≤ clock'.milliseconds := by
  obtain ⟨hwrote, _⟩ := (pushed_pushAll cues).close stop
  rw [shown_eq_ended] at hwrote
  refine ⟨?_, ?_, fun _ _ ↦ Cue.lines_eq_iff, fun time ↦ ?_, ?_⟩
  · rw [finish, hwrote.output_eq, numbered, List.map_map]
    rfl
  · rw [finish, hwrote.entries_eq, numbered, List.length_map]
    rfl
  · refine ⟨_, read?_timeText time, fun hfits ↦ ?_⟩
    rw [Clock.milliseconds_ofMilliseconds, hfits.milliseconds_eq_round]
  · intro earlier later hle hfits clock clock' hclock hclock'
    rw [read?_timeText] at hclock hclock'
    rw [← Option.some.inj hclock, ← Option.some.inj hclock', Clock.milliseconds_ofMilliseconds,
      Clock.milliseconds_ofMilliseconds]
    exact hfits.milliseconds_mono hle

/-- A cue until the next one starts, in the middle between two milliseconds. -/
theorem text_of_half_millisecond :
    let cues : List Cue := [⟨"Hi\\Nyou", 0, none⟩, ⟨"", 90045, none⟩]
    ((empty.pushAll cues).finish 180000).output =
        "1\n00:00:00,000 --> 00:00:01,001\nHi\nyou\n\n" ∧
      Timestamp.Fits 90045 ∧
      ∃ clock, Clock.read? "00:00:01,001" = some clock ∧
        (clock.milliseconds : Int) = round ((90045 : ℚ) / 90) := by
  intro cues
  have hfits : Timestamp.Fits 90045 := by
    unfold Timestamp.Fits
    decide
  obtain ⟨htext, -, -, hclock, -⟩ := text_finish_pushAll cues 180000
  obtain ⟨clock, hread, hround⟩ := hclock 90045
  refine ⟨?_, hfits, clock, ?_, ?_⟩
  · rw [htext]
    decide +kernel
  · rw [← hread]
    decide +kernel
  · rw [hround hfits]
    rfl

end SubRip

end ClosedCaptions
