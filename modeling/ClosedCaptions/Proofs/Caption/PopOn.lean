import ClosedCaptions.Proofs.Caption.Packet
import ClosedCaptions.Proofs.Caption.Placing
import Mathlib.Data.List.Sort

/-!
# Pop-on captions

A caption loaded into the hidden screen and flipped onto the display comes back as a cue with its
lines from the top. Whatever the decoder did before, erasing the hidden screen leaves no row of it
in use, and each row that is then loaded holds its own line.
-/

namespace ClosedCaptions

/-- A line of a caption, with the preamble code that places it. -/
structure CaptionLine where
  preamble : UInt8 × UInt8
  row : Fin screenRows
  style : Style
  text : List UInt8
  ofPair_eq : Code.ofPair preamble.1 preamble.2 = .preamble (some row) style
  text_ne_nil : text ≠ []
  printable : ∀ byte ∈ text, IsPrintable byte

namespace CaptionLine

def pairs (line : CaptionLine) : List (UInt8 × UInt8) :=
  line.preamble :: Context.textPairs line.text

/-- The characters that the row then has. -/
def cells (line : CaptionLine) : List UInt8 :=
  (Context.indentation line.style ++ line.text).take screenColumns

/-- The characters that are left of the line: those that fit behind the indent, without spaces at
the front. -/
def shown (line : CaptionLine) : List Char :=
  Context.trimmedText (line.text.take (screenColumns - line.style.indent))

/-- The spaces of the indent are among those that are taken off. -/
theorem trimmedText_cells (line : CaptionLine) : Context.trimmedText line.cells = line.shown := by
  have hlength := Context.length_indentation_le line.ofPair_eq
  have hspaces : ∀ byte ∈ Context.indentation line.style, (byte = 0x20 : Bool) = true := by
    intro byte hbyte
    rw [List.eq_of_mem_replicate hbyte]
    rfl
  rw [cells, shown, List.take_append, List.take_of_length_le hlength]
  unfold Context.trimmedText
  rw [List.dropWhile_append_of_pos hspaces, Context.indentation, List.length_replicate]

end CaptionLine

/-- The lines of a caption from the top. -/
def captionText (lines : List CaptionLine) : String :=
  let sorted := lines.mergeSort fun a b ↦ a.row ≤ b.row
  String.ofList (lineBreak.intercalate (sorted.map CaptionLine.shown))

/-- The pairs that load a caption and display it: resume loading, erase the hidden screen, the
lines, and the end of the caption. -/
def popOnPairs (lines : List CaptionLine) : List (UInt8 × UInt8) :=
  [(0x14, 0x20), (0x14, 0x2e)] ++ lines.flatMap CaptionLine.pairs ++ [(0x14, 0x2f)]

namespace Context

open Procedure

/-- The hidden screen holds these lines and no other row in use. -/
structure Loaded (lines : List CaptionLine) (c : Context) : Prop where
  failLevel : c.failLevel = .error
  mode : c.mode = .popOn
  reaped : c.reaped = false
  previous : c.previous = (0, 0) ∨ c.previous = (0x14, 0x2e)
  isUsed : ∀ r, (c.screen c.hidden).isUsed r = true ↔ r ∈ lines.map fun line ↦ line.row.val
  rowText : ∀ line ∈ lines, (c.screen c.hidden).rowText line.row = line.cells

variable {c : Context} {lines done : List CaptionLine} {line : CaptionLine}

/-- The mode is pop-on afterwards also where the command is a repetition. -/
theorem effect_resumeLoading (h : c.Remembers (· = .resumeLoading)) :
    (processPair 0x14 0x20).effect c =
      (.ok (), { c with mode := .popOn, previous := (0x14, 0x20) }) := by
  have hcode : Code.ofPair 0x14 0x20 = .control .resumeLoading := by decide
  have hsame (hforce : c.mode = .popOn) : { c with mode := .popOn } = c := by rw [← hforce]
  exact effect_processPair_remembers hcode (S := (· = .resumeLoading)) rfl h rfl hsame

theorem Loaded.preamble_ne (h : Loaded lines c) (line : CaptionLine) :
    line.preamble ≠ c.previous := by
  intro heq
  have hcode := line.ofPair_eq
  rw [heq] at hcode
  rcases h.previous with hprevious | hprevious <;> rw [hprevious] at hcode
  · have hunknown : Code.ofPair 0 0 = .unknown 0 0 := by decide
    exact absurd (hunknown.symm.trans hcode) nofun
  · have hcontrol : Code.ofPair 0x14 0x2e = .control .eraseHidden := by decide
    exact absurd (hcontrol.symm.trans hcode) nofun

theorem Loaded.append_line (h : Loaded done c) (hnew : ∀ other ∈ done, other.row ≠ line.row)
    {d : Context}
    (hd : Ended (c.placed line.row line.style line.preamble).opened line.cells d) :
    Loaded (done ++ [line]) d := by
  have hactive : d.active = c.active := hd.active_eq
  have hhidden : d.hidden = c.hidden := by rw [hidden, hactive, hidden]
  have hwriting : (c.placed line.row line.style line.preamble).writing = c.hidden := by
    unfold writing
    rw [show (c.placed line.row line.style line.preamble).mode = .popOn from h.mode]
    rfl
  have hused (r : Nat) : (d.screen c.hidden).isUsed r =
      ((c.screen c.hidden).isUsed r || decide (r = line.row.val)) :=
    hwriting ▸ hd.isUsed_writing r
  have htext (r : Nat) : (d.screen c.hidden).rowText r =
      if r = line.row.val then line.cells else (c.screen c.hidden).rowText r :=
    hwriting ▸ hd.rowText_writing r
  exact {
    failLevel := hd.failLevel_eq.trans h.failLevel
    mode := hd.mode_eq.trans h.mode
    reaped := hd.reaped_eq.trans h.reaped
    previous := .inl hd.previous_eq
    isUsed := by
      intro r
      rw [hhidden, hused, Bool.or_eq_true, h.isUsed, decide_eq_true_iff, List.map_append,
        List.mem_append, List.map_singleton, List.mem_singleton]
    rowText := by
      intro other hother
      rw [hhidden, htext]
      rcases List.mem_append.mp hother with hdone | hlast
      · have hne : other.row.val ≠ line.row.val := fun heq ↦ hnew other hdone (Fin.ext heq)
        rw [if_neg hne, h.rowText other hdone]
      · rw [List.mem_singleton.mp hlast, if_pos rfl] }

theorem Loaded.reaps_line (hnew : ∀ other ∈ done, other.row ≠ line.row) :
    Reaps (Loaded done) line.pairs [] (Loaded (done ++ [line])) := by
  intro c hc
  have hline := Context.reaps_line hc.failLevel hc.reaped line.ofPair_eq (hc.preamble_ne line)
    line.text_ne_nil line.printable
  exact (hline.mono (fun _ h ↦ h) fun d hd ↦ hc.append_line hnew hd) c rfl

theorem reaps_lines (hrows : ((done ++ lines).map CaptionLine.row).Nodup) :
    Reaps (Loaded done) (lines.flatMap CaptionLine.pairs) [] (Loaded (done ++ lines)) := by
  induction lines generalizing done with
  | nil =>
    rw [List.append_nil]
    exact reaps_nil fun _ h ↦ h
  | cons line lines ih =>
    have hassoc : done ++ line :: lines = (done ++ [line]) ++ lines := by simp
    have hnew : ∀ other ∈ done, other.row ≠ line.row := by
      intro other hother
      rw [List.map_append, List.nodup_append] at hrows
      exact hrows.2.2 _ (List.mem_map_of_mem hother) _ (by simp)
    rw [hassoc] at hrows ⊢
    exact (Loaded.reaps_line hnew).append (ih hrows)

/-- The used rows of the hidden screen, from the top, are those of the lines. -/
theorem Loaded.screenText_eq (h : Loaded lines c) (hrows : (lines.map CaptionLine.row).Nodup) :
    screenText (c.screen c.hidden) = captionText lines := by
  let sorted := lines.mergeSort fun a b ↦ a.row ≤ b.row
  have hperm : sorted.Perm lines := List.mergeSort_perm _ _
  have hle : sorted.Pairwise fun a b ↦ a.row ≤ b.row := by
    have htrans (a b c : CaptionLine) (hab : decide (a.row ≤ b.row) = true)
        (hbc : decide (b.row ≤ c.row) = true) : decide (a.row ≤ c.row) = true :=
      decide_eq_true (le_trans (of_decide_eq_true hab) (of_decide_eq_true hbc))
    have htotal (a b : CaptionLine) :
        (decide (a.row ≤ b.row) || decide (b.row ≤ a.row)) = true := by
      simpa using le_total a.row b.row
    exact (List.pairwise_mergeSort htrans htotal lines).imp of_decide_eq_true
  have hne : sorted.Pairwise fun a b ↦ a.row ≠ b.row :=
    List.pairwise_map.mp ((hperm.map CaptionLine.row).nodup_iff.mpr hrows)
  have hlt : sorted.Pairwise fun a b ↦ a.row < b.row :=
    hle.imp₂ (fun _ _ hab hdiff ↦ lt_of_le_of_ne hab hdiff) hne
  have hused : (c.screen c.hidden).usedRows = sorted.map fun line ↦ line.row.val := by
    apply Screen.usedRows_eq _ (List.pairwise_map.mpr hlt)
    intro r
    rw [h.isUsed, (hperm.map _).mem_iff]
  have hlines : sorted.map (fun line ↦ trimmedText ((c.screen c.hidden).rowText line.row)) =
      sorted.map CaptionLine.shown := by
    apply List.map_congr_left
    intro line hline
    rw [h.rowText line (hperm.mem_iff.mp hline), line.trimmedText_cells]
  rw [screenText, hused, List.map_map]
  exact congrArg (fun lines ↦ String.ofList (lineBreak.intercalate lines)) hlines

theorem Loaded.reaps_endOfCaption (hrows : (lines.map CaptionLine.row).Nodup) :
    Reaps (Loaded lines) [(0x14, 0x2f)] [captionText lines] fun _ ↦ True := by
  have hcode : Code.ofPair 0x14 0x2f = .control .endOfCaption := by decide
  apply reaps_text
  intro c hc
  have hnew : ((0x14, 0x2f) : UInt8 × UInt8) ≠ c.previous := by
    rcases hc.previous with hprevious | hprevious <;> rw [hprevious] <;> decide
  rw [effect_processPair_control hcode hnew rfl]
  exact ⟨rfl, hc.screenText_eq hrows, trivial⟩

/-- The command that makes the mode pop-on. A screen that flushing marked as reaped is given out
with it. -/
theorem reaps_resumeLoading (h : c.Remembers (· = .resumeLoading)) :
    Reaps (· = c) [(0x14, 0x20)] (if c.reaped then [c.buffer] else [])
      (· = { c with mode := .popOn, previous := (0x14, 0x20), reaped := false }) := by
  by_cases hreaped : c.reaped = true
  · rw [if_pos hreaped]
    apply reaps_text
    rintro _ rfl
    rw [effect_resumeLoading h]
    exact ⟨hreaped, rfl, rfl⟩
  · rw [if_neg hreaped]
    apply reaps_nothing
    rintro _ rfl
    rw [effect_resumeLoading h]
    refine ⟨Bool.eq_false_iff.mpr hreaped, ?_⟩
    rw [← Bool.eq_false_iff.mpr hreaped]

/-- Erasing leaves no row of the hidden screen in use. -/
theorem reaps_eraseHidden (hlevel : c.failLevel = .error) (hmode : c.mode = .popOn)
    (hreaped : c.reaped = false) (hnew : (0x14, 0x2e) ≠ c.previous) :
    Reaps (· = c) [(0x14, 0x2e)] [] (Loaded []) := by
  have hcode : Code.ofPair 0x14 0x2e = .control .eraseHidden := by decide
  have hscreen : (c.modifyScreen c.hidden Screen.clear).screen c.hidden =
      (c.screen c.hidden).clear := by
    rw [screen_modifyScreen, if_pos rfl]
  apply reaps_nothing
  intro d hd
  rw [hd, effect_processPair_control hcode hnew rfl]
  refine ⟨hreaped, ?_⟩
  exact {
    failLevel := hlevel
    mode := hmode
    reaped := hreaped
    previous := .inr rfl
    isUsed := by
      intro r
      change ((c.modifyScreen c.hidden Screen.clear).screen c.hidden).isUsed r = true ↔ _
      simp [hscreen]
    rowText := fun line hline ↦ absurd hline List.not_mem_nil }

/-- Whatever the context holds, the last text is that of the caption. -/
theorem reaps_popOnPairs (hlevel : c.failLevel = .error) (h : c.Remembers (· = .resumeLoading))
    (hrows : (lines.map CaptionLine.row).Nodup) :
    ∃ texts, Reaps (· = c) (popOnPairs lines) (texts ++ [captionText lines]) fun _ ↦ True := by
  let resumed : Context := { c with mode := .popOn, previous := (0x14, 0x20), reaped := false }
  have hnew : ((0x14, 0x2e) : UInt8 × UInt8) ≠ (0x14, 0x20) := by decide
  have herase : Reaps (· = resumed) [(0x14, 0x2e)] [] (Loaded []) :=
    reaps_eraseHidden hlevel rfl rfl hnew
  have hlines : Reaps (Loaded []) (lines.flatMap CaptionLine.pairs) [] (Loaded lines) :=
    reaps_lines hrows
  have hcaption := ((reaps_resumeLoading h).append (herase.append hlines)).append
    (Loaded.reaps_endOfCaption hrows)
  rw [List.append_nil] at hcaption
  exact ⟨_, hcaption⟩

end Context

/-! ## Decoding in real time -/

theorem isSendable_textPairs {text : List UInt8} (htext : ∀ byte ∈ text, IsPrintable byte) :
    ∀ pair ∈ Context.textPairs text, IsSendable pair := by
  have hlt {byte : UInt8} (h : IsPrintable byte) : byte < 0x80 :=
    UInt8.lt_of_le_of_lt h.2 (by decide)
  induction text using Context.textPairs.induct with
  | case1 => simp [Context.textPairs]
  | case2 first =>
    have hfirst := htext first (by simp)
    have hzero : (0 : UInt8) < 0x80 := by decide
    intro pair hpair
    obtain rfl := List.mem_singleton.mp hpair
    exact ⟨hlt hfirst, hzero, hfirst.ne_zero⟩
  | case3 first second rest ih =>
    have hfirst := htext first (by simp)
    have hsecond := htext second (by simp)
    intro pair hpair
    rcases List.mem_cons.mp hpair with rfl | hrest
    · exact ⟨hlt hfirst, hlt hsecond, hfirst.ne_zero⟩
    · exact ih (fun byte hbyte ↦ htext byte (by simp [hbyte])) pair hrest

theorem CaptionLine.isSendable_preamble (line : CaptionLine) : IsSendable line.preamble := by
  obtain ⟨hpreamble, -⟩ := Code.eq_of_ofPair_eq_preamble line.ofPair_eq
  have hranges := Code.isPreamble_iff.mp hpreamble
  refine ⟨UInt8.lt_iff_toNat_lt.mpr ?_, UInt8.lt_iff_toNat_lt.mpr ?_, ?_⟩
  · have hlt : line.preamble.1.toNat < 128 := by omega
    exact hlt
  · have hlt : line.preamble.2.toNat < 128 := by omega
    exact hlt
  · intro hzero
    rw [hzero] at hranges
    simp at hranges

theorem isSendable_popOnPairs (lines : List CaptionLine) :
    ∀ pair ∈ popOnPairs lines, IsSendable pair := by
  intro pair hpair
  simp only [popOnPairs, List.mem_append, List.mem_flatMap, CaptionLine.pairs, List.mem_cons,
    List.not_mem_nil, or_false] at hpair
  rcases hpair with ((rfl | rfl) | ⟨line, -, rfl | htext⟩) | rfl
  · exact ⟨by decide, by decide, by decide⟩
  · exact ⟨by decide, by decide, by decide⟩
  · exact line.isSendable_preamble
  · exact isSendable_textPairs line.printable pair htext
  · exact ⟨by decide, by decide, by decide⟩

/-- Whatever was done with the decoder before, the last cue is the caption that was sent. -/
theorem Decoder.popOn_round_trip (operations : List Operation)
    (hlevel : (after operations).context.failLevel = .error)
    (hrealTime : (after operations).realTime = true) {lines : List CaptionLine}
    (hrows : (lines.map CaptionLine.row).Nodup) {packets : List Triple}
    (hpackets : List.Forall₂ Triple.Carries packets (popOnPairs lines)) (time : Int64) :
    ∃ cues, ((decode (packets.flatMap Triple.bytes) time).run (after operations)).result =
      .ok (cues ++ [⟨captionText lines, time, none⟩]) := by
  obtain ⟨texts, hreaps⟩ := Context.reaps_popOnPairs hlevel
    (remembers_resumeLoading_after operations) hrows
  obtain ⟨c, heffect, -⟩ := hreaps.effect_eq rfl
  have hdecode := effect_decode_of_carries hrealTime hpackets (isSendable_popOnPairs lines) time
  rw [heffect] at hdecode
  refine ⟨texts.map (cueAt time), (congrArg Prod.fst hdecode).trans ?_⟩
  simp [Except.map, cueAt]

/-- Two lines, the lower one sent first, over a stale character. -/
theorem Decoder.popOn_two_lines :
    ∃ cues, ((decode (((popOnPairs [
      ⟨(0x14, 0x70), 14, ⟨.white, .regular, 0⟩, [0x44, 0x4F, 0x57, 0x4E], by decide, by decide,
        isPrintable_of_all rfl⟩,
      ⟨(0x11, 0x54), 0, ⟨.white, .regular, 8⟩, [0x20, 0x55, 0x50], by decide, by decide,
        isPrintable_of_all rfl⟩]).map Triple.ofPair).flatMap Triple.bytes) 7).run
        (after [.setRealTime true, .decode [0xFC, 0x58, 0x80] 0])).result =
      .ok (cues ++ [⟨"UP\\NDOWN", 7, none⟩]) := by
  have hrows : (List.map CaptionLine.row [
      ⟨(0x14, 0x70), 14, ⟨.white, .regular, 0⟩, [0x44, 0x4F, 0x57, 0x4E], by decide, by decide,
        isPrintable_of_all rfl⟩,
      ⟨(0x11, 0x54), 0, ⟨.white, .regular, 8⟩, [0x20, 0x55, 0x50], by decide, by decide,
        isPrintable_of_all rfl⟩]).Nodup := by decide
  obtain ⟨cues, hcues⟩ := popOn_round_trip [.setRealTime true, .decode [0xFC, 0x58, 0x80] 0] rfl rfl
    hrows (Triple.carries_ofPair _) 7
  refine ⟨cues, hcues.trans ?_⟩
  have hsort (a b : CaptionLine) (h : ¬ a.row ≤ b.row) :
      ([a, b].mergeSort fun a b ↦ a.row ≤ b.row) = [b, a] := by
    simp [List.mergeSort, h]
  rw [captionText, hsort _ _ (by decide)]
  rfl

end ClosedCaptions
