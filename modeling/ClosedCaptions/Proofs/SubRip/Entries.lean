import ClosedCaptions.Proofs.Caption.Lines
import ClosedCaptions.Proofs.SubRip.Grammar
import Mathlib.Data.List.Induction

/-!
# The entries of cues

A cue is shown until its own end or, if it has none, until the next cue starts or the stream ends.
What is written for cues is one block for each cue with text, in order and numbered from one. The
lines of a block, with line breaks between, are the text of its cue.
-/

namespace ClosedCaptions

/-! ## Times -/

theorem Numeral.isDigit_of_mem_decimal {width value : Nat} {c : Char}
    (h : c ∈ (decimal width value).toList) : c.isDigit = true := by
  rw [decimal, String.toList_ofList, padLeft, List.mem_append] at h
  rcases h with h | h
  · rw [List.eq_of_mem_replicate h]
    decide
  · exact Nat.isDigit_of_mem_toDigits (by decide) (by decide) h

theorem Timestamp.isDigit_or_of_mem_display {ms : UInt64} {separator c : Char}
    (h : c ∈ (display ms separator).toList) : c.isDigit = true ∨ c = ':' ∨ c = separator := by
  unfold display at h
  simp only [String.toList_append, List.mem_append] at h
  rcases h with (((((h | h) | h) | h) | h) | h) | h
  · exact .inl (Numeral.isDigit_of_mem_decimal h)
  · exact .inr (.inl (List.mem_singleton.mp h))
  · exact .inl (Numeral.isDigit_of_mem_decimal h)
  · exact .inr (.inl (List.mem_singleton.mp h))
  · exact .inl (Numeral.isDigit_of_mem_decimal h)
  · exact .inr (.inr (List.mem_singleton.mp (String.toList_singleton separator ▸ h)))
  · exact .inl (Numeral.isDigit_of_mem_decimal h)

namespace SubRip

/-- A time as an entry has it. -/
def timeText (time : Int64) : String :=
  Timestamp.display (Timestamp.milliseconds time) ','

theorem not_mem_timeText {c : Char} (hdigit : c.isDigit = false) (hcolon : c ≠ ':')
    (hcomma : c ≠ ',') (time : Int64) : c ∉ (timeText time).toList := by
  intro hmem
  rcases Timestamp.isDigit_or_of_mem_display hmem with h | h | h
  · rw [hdigit] at h
    cases h
  · exact hcolon h
  · exact hcomma h

/-! ## Numbered blocks -/

/-- The entry of a cue. -/
def Block.ofCue (number : Nat) (cue : Cue) (stop : Int64) : Block :=
  ⟨number, timeText cue.start, timeText stop, cue.lines⟩

theorem Block.text_ofCue (number : Nat) (cue : Cue) (stop : Int64) :
    (Block.ofCue number cue stop).text = block number cue stop := rfl

/-- Cues with their ends, as far as they are known: their own ends, the starts of the cues behind
them, and the end of the stream. -/
def shown (stop : Option Int64) : List Cue → List (Cue × Int64)
  | [] => []
  | cue :: later =>
    ((cue.endTime.or ((later.head?.map Cue.start).or stop)).map (cue, ·)).toList ++
      shown stop later

/-- The entries of the cues with text, numbered from one. -/
def numbered (cues : List (Cue × Int64)) : List Block :=
  ((cues.filter fun p ↦ !p.1.isEmpty).zipIdx 1).map fun p ↦ .ofCue p.2 p.1.1 p.1.2

theorem numbered_concat (cues : List (Cue × Int64)) (cue : Cue) (stop : Int64) :
    numbered (cues ++ [(cue, stop)]) =
      if cue.isEmpty then numbered cues
      else numbered cues ++ [.ofCue ((numbered cues).length + 1) cue stop] := by
  unfold numbered
  split
  · next hempty => simp [hempty]
  · next htext => simp [htext, List.zipIdx_append, Nat.add_comm]

theorem map_number_numbered (cues : List (Cue × Int64)) :
    (numbered cues).map Block.number = List.range' 1 (numbered cues).length := by
  simp [numbered, Block.ofCue, Function.comp_def]

/-- Each entry has the lines of its cue. -/
theorem map_lines_numbered (cues : List (Cue × Int64)) :
    (numbered cues).map Block.lines =
      ((cues.map Prod.fst).filter fun cue ↦ !cue.isEmpty).map Cue.lines :=
  calc
    (numbered cues).map Block.lines
        = (((cues.filter fun p ↦ !p.1.isEmpty).zipIdx 1).map Prod.fst).map fun p ↦ p.1.lines := by
      rw [numbered, List.map_map, List.map_map]
      rfl
    _ = (cues.filter fun p ↦ !p.1.isEmpty).map fun p ↦ p.1.lines := by rw [List.zipIdx_map_fst]
    _ = ((cues.map Prod.fst).filter fun cue ↦ !cue.isEmpty).map Cue.lines := by
      rw [List.filter_map, List.map_map]
      rfl

/-- The lines of an entry, with line breaks between, are the text of its cue. -/
theorem map_intercalate_numbered (cues : List (Cue × Int64)) :
    (numbered cues).map (fun b ↦ lineBreak.intercalate (b.lines.map String.toList)) =
      ((cues.map Prod.fst).filter fun cue ↦ !cue.isEmpty).map fun cue ↦ cue.text.toList :=
  calc
    (numbered cues).map (fun b ↦ lineBreak.intercalate (b.lines.map String.toList))
        = ((numbered cues).map Block.lines).map
            fun lines ↦ lineBreak.intercalate (lines.map String.toList) := by
      rw [List.map_map]
      rfl
    _ = ((cues.map Prod.fst).filter fun cue ↦ !cue.isEmpty).map fun cue ↦ cue.text.toList := by
      simp only [map_lines_numbered, List.map_map, Function.comp_def, Cue.intercalate_lines]

theorem regular_of_mem_numbered {cues : List (Cue × Int64)} :
    ∀ b ∈ numbered cues, b.Regular := by
  intro b hb
  obtain ⟨p, _, rfl⟩ := List.mem_map.mp hb
  exact ⟨⟨not_mem_timeText (by decide) (by decide) (by decide) _,
    not_mem_timeText (by decide) (by decide) (by decide) _⟩,
    not_mem_timeText (by decide) (by decide) (by decide) _, p.1.1.lines_ne_nil⟩

theorem shown_concat (stop : Option Int64) (cues : List Cue) (cue : Cue) :
    shown stop (cues ++ [cue]) = shown (some cue.start) cues ++ shown stop [cue] := by
  induction cues with
  | nil => rfl
  | cons first later ih =>
    have hnext : ((later ++ [cue]).head?.map Cue.start).or stop =
        (later.head?.map Cue.start).or (some cue.start) := by
      cases later <;> rfl
    calc
      shown stop (first :: (later ++ [cue]))
          = ((first.endTime.or ((later.head?.map Cue.start).or (some cue.start))).map
              (first, ·)).toList ++ shown stop (later ++ [cue]) := by rw [shown, hnext]
      _ = shown (some cue.start) (first :: later) ++ shown stop [cue] := by
        rw [ih, ← List.append_assoc]
        rfl

/-- The last cue, if nothing tells its end. -/
def waiting? (cues : List Cue) : Option Cue :=
  cues.getLast?.filter fun cue ↦ cue.endTime.isNone

theorem shown_some (stop : Int64) (cues : List Cue) :
    shown (some stop) cues = shown none cues ++ ((waiting? cues).map (·, stop)).toList := by
  rcases List.eq_nil_or_concat cues with rfl | ⟨front, cue, rfl⟩
  · rfl
  · have hlast : shown (some stop) [cue] =
        shown none [cue] ++ ((waiting? (front ++ [cue])).map (·, stop)).toList := by
      rw [waiting?, List.getLast?_concat]
      cases hend : cue.endTime <;> simp [shown, Option.filter, hend]
    rw [List.concat_eq_append, shown_concat, shown_concat, hlast, List.append_assoc]

theorem map_fst_shown_some (stop : Int64) (cues : List Cue) :
    (shown (some stop) cues).map Prod.fst = cues := by
  induction cues with
  | nil => rfl
  | cons cue later ih =>
    obtain ⟨known, hknown⟩ : ∃ known,
        cue.endTime.or ((later.head?.map Cue.start).or (some stop)) = some known := by
      rw [← Option.or_assoc]
      exact Option.isSome_iff_exists.mp (by simp)
    rw [shown, hknown, List.map_append, ih]
    rfl

/-- Without the end of the stream, a cue is missing only if it waits. -/
theorem map_fst_shown_none (cues : List Cue) :
    (shown none cues).map Prod.fst ++ (waiting? cues).toList = cues := by
  have hwaiting : (waiting? cues).toList =
      ((waiting? cues).map (·, (0 : Int64))).toList.map Prod.fst := by
    cases waiting? cues <;> rfl
  rw [hwaiting, ← List.map_append, ← shown_some, map_fst_shown_some]

/-! ## Writing -/

/-- The entries of these cues have been written. -/
structure Wrote (cues : List (Cue × Int64)) (s : SubRip) : Prop where
  entries_eq : s.entries = (numbered cues).length
  output_eq : s.output = String.join ((numbered cues).map Block.text)

theorem pending_write (s : SubRip) (cue : Cue) (stop : Int64) :
    (s.write cue stop).pending = s.pending := by
  unfold write
  split <;> rfl

theorem close_of_none {s : SubRip} (h : s.pending = none) (time : Int64) : s.close time = s := by
  unfold close
  rw [h]

theorem close_of_some {s : SubRip} {cue : Cue} (h : s.pending = some cue) (time : Int64) :
    s.close time = { s with pending := none }.write cue time := by
  unfold close
  rw [h]

/-- Where no cue waits, one whose end is known is written at once. -/
theorem push_of_endTime {s : SubRip} {cue : Cue} {stop : Int64} (hpending : s.pending = none)
    (hstop : cue.endTime = some stop) : s.push cue = s.write cue stop := by
  unfold push
  rw [close_of_none hpending, hstop]

def pushAll (s : SubRip) (cues : List Cue) : SubRip :=
  cues.foldl push s

theorem pushAll_append (s : SubRip) (cues more : List Cue) :
    s.pushAll (cues ++ more) = (s.pushAll cues).pushAll more :=
  List.foldl_append

variable {s : SubRip}

theorem Wrote.write {cues : List (Cue × Int64)} (h : Wrote cues s) (cue : Cue) (stop : Int64) :
    Wrote (cues ++ [(cue, stop)]) (s.write cue stop) := by
  have hmore := numbered_concat cues cue stop
  unfold SubRip.write
  split
  · next hempty =>
    rw [if_pos hempty] at hmore
    exact ⟨hmore ▸ h.entries_eq, hmore ▸ h.output_eq⟩
  · next htext =>
    rw [if_neg htext] at hmore
    refine ⟨?_, ?_⟩
    · rw [hmore, List.length_append, h.entries_eq]
      rfl
    · rw [hmore, List.map_append, String.join_append, ← h.output_eq, ← h.entries_eq]
      simp [Block.text_ofCue]

/-- The cues are pushed, and the last of them waits if nothing tells its end. -/
structure Pushed (cues : List Cue) (s : SubRip) : Prop where
  wrote : Wrote (shown none cues) s
  pending_eq : s.pending = waiting? cues

variable {cues : List Cue}

theorem Pushed.close (h : Pushed cues s) (time : Int64) :
    Wrote (shown (some time) cues) (s.close time) ∧ (s.close time).pending = none := by
  have hpending := h.pending_eq
  rw [shown_some]
  cases hwaiting : waiting? cues with
  | none =>
    rw [hwaiting] at hpending
    rw [close_of_none hpending]
    exact ⟨(List.append_nil _).symm ▸ h.wrote, hpending⟩
  | some cue =>
    rw [hwaiting] at hpending
    rw [close_of_some hpending, pending_write]
    have hwrote : Wrote (shown none cues) { s with pending := none } :=
      ⟨h.wrote.entries_eq, h.wrote.output_eq⟩
    exact ⟨hwrote.write cue time, rfl⟩

theorem Pushed.push (h : Pushed cues s) (cue : Cue) : Pushed (cues ++ [cue]) (s.push cue) := by
  obtain ⟨hwrote, hpending⟩ := h.close cue.start
  have hshown : shown none (cues ++ [cue]) =
      shown (some cue.start) cues ++ (cue.endTime.map (cue, ·)).toList := by
    rw [shown_concat]
    simp [shown]
  have hwaiting : waiting? (cues ++ [cue]) = if cue.endTime.isNone then some cue else none := by
    rw [waiting?, List.getLast?_concat]
    rfl
  unfold SubRip.push
  cases hend : cue.endTime with
  | none =>
    rw [hend] at hshown hwaiting
    refine ⟨?_, hwaiting.symm⟩
    rw [hshown, Option.map_none, Option.toList_none, List.append_nil]
    exact ⟨hwrote.entries_eq, hwrote.output_eq⟩
  | some stop =>
    rw [hend] at hshown hwaiting
    refine ⟨?_, ?_⟩
    · rw [hshown]
      exact hwrote.write cue stop
    · rw [pending_write, hpending, hwaiting]
      rfl

/-- What is written for cues is the entries of those whose end is known. -/
theorem pushed_pushAll (cues : List Cue) : Pushed cues (empty.pushAll cues) := by
  induction cues using List.reverseRecOn with
  | nil => exact ⟨⟨rfl, rfl⟩, rfl⟩
  | append_singleton cues cue ih =>
    rw [pushAll_append]
    exact ih.push cue

end SubRip

end ClosedCaptions
