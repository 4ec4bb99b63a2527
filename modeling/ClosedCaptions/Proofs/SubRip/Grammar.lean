import ClosedCaptions.SubRip

/-!
# Reading SubRip text

SubRip text is a sequence of blocks: a line with a number, a line with two times, at least one line
of text and an empty line behind them. Blocks that are written one after the other are read as the
same blocks exactly when none of their lines of text is empty or has a line feed in it.
-/

namespace ClosedCaptions.SubRip

/-! ## Lines -/

/-- A text cut at its line feeds. -/
def linesOf (text : String) : List String :=
  (text.toList.splitOn '\n').map String.ofList

/-- Lines as a text, each with a line feed behind it. -/
def unlines (lines : List String) : String :=
  String.join (lines.map (· ++ "\n"))

theorem unlines_append (lines more : List String) :
    unlines (lines ++ more) = unlines lines ++ unlines more := by
  rw [unlines, List.map_append, String.join_append]
  rfl

theorem toList_unlines_cons (line : String) (lines : List String) :
    (unlines (line :: lines)).toList = line.toList ++ '\n' :: (unlines lines).toList := by
  simp [unlines]

theorem linesOf_unlines {lines : List String} (h : ∀ line ∈ lines, '\n' ∉ line.toList) :
    linesOf (unlines lines) = lines ++ [""] := by
  induction lines with
  | nil => rfl
  | cons line lines ih =>
    obtain ⟨hline, hlines⟩ := List.forall_mem_cons.mp h
    calc
      linesOf (unlines (line :: lines))
          = (line.toList :: (unlines lines).toList.splitOn '\n').map String.ofList := by
        rw [linesOf, toList_unlines_cons, List.splitOn_append_cons_self_of_not_mem hline]
      _ = line :: linesOf (unlines lines) := by rw [List.map_cons, String.ofList_toList, linesOf]
      _ = line :: lines ++ [""] := by rw [ih hlines, List.cons_append]

/-- No piece has the separator in it. -/
theorem not_mem_of_mem_splitOn {α : Type} [BEq α] [LawfulBEq α] {a : α} {xs piece : List α}
    (h : piece ∈ xs.splitOn a) : a ∉ piece := by
  induction xs generalizing piece with
  | nil =>
    rw [List.splitOn_nil, List.mem_singleton] at h
    rw [h]
    exact List.not_mem_nil
  | cons x xs ih =>
    rw [List.splitOn_cons_eq_if_modifyHead] at h
    split at h
    · rcases List.mem_cons.mp h with rfl | h
      · exact List.not_mem_nil
      · exact ih h
    · next hx =>
      obtain ⟨first, rest, hsplit⟩ := List.exists_cons_of_ne_nil (List.splitOn_ne_nil a xs)
      rw [hsplit, List.modifyHead_cons] at h
      rw [hsplit] at ih
      rcases List.mem_cons.mp h with rfl | h
      · have hne : a ≠ x := fun heq ↦ hx (beq_iff_eq.mpr heq.symm)
        exact List.not_mem_cons_of_ne_of_not_mem hne (ih List.mem_cons_self)
      · exact ih (List.mem_cons_of_mem _ h)

theorem not_mem_of_mem_linesOf {text line : String} (h : line ∈ linesOf text) :
    '\n' ∉ line.toList := by
  obtain ⟨piece, hpiece, rfl⟩ := List.mem_map.mp h
  rw [String.toList_ofList]
  exact not_mem_of_mem_splitOn hpiece

/-! ## Numbers and times -/

/-- The number that decimal digits stand for. -/
def decimal? (line : String) : Option Nat :=
  if line ≠ "" ∧ line.toList.all Char.isDigit then some (Nat.ofDigitChars 10 line.toList 0)
  else none

theorem decimal?_toString (number : Nat) : decimal? (toString number) = some number := by
  have hdigits : (toString number).toList = Nat.toDigits 10 number := Nat.toList_repr
  have hne : toString number ≠ "" := Nat.repr_ne_empty
  have hall : (toString number).toList.all Char.isDigit := by
    rw [hdigits, List.all_eq_true]
    exact fun c hc ↦ Nat.isDigit_of_mem_toDigits (by decide) (by decide) hc
  rw [decimal?, if_pos ⟨hne, hall⟩, hdigits, Nat.ofDigitChars_toDigits (by decide) (by decide)]

/-- The parts in front of the first arrow and behind it. -/
def cutArrow : List Char → Option (List Char × List Char)
  | ' ' :: '-' :: '-' :: '>' :: ' ' :: rest => some ([], rest)
  | c :: cs => (cutArrow cs).map fun (front, back) ↦ (c :: front, back)
  | [] => none

/-- The two times of a time line. -/
def times? (line : String) : Option (String × String) :=
  (cutArrow line.toList).map fun (start, stop) ↦ (String.ofList start, String.ofList stop)

theorem cutArrow_append {front : List Char} (h : ' ' ∉ front) (back : List Char) :
    cutArrow (front ++ " --> ".toList ++ back) = some (front, back) := by
  induction front with
  | nil => rfl
  | cons c cs ih =>
    have hc : c ≠ ' ' := fun heq ↦ h (heq ▸ List.mem_cons_self)
    have hrest := ih fun hmem ↦ h (List.mem_cons_of_mem _ hmem)
    have hstep (more : List Char) : cutArrow (c :: more) =
        (cutArrow more).map fun (front, back) ↦ (c :: front, back) := by
      rw [cutArrow.eq_2]
      exact fun _ heq ↦ absurd heq hc
    rw [List.cons_append, List.cons_append, hstep, hrest]
    rfl

theorem times?_arrow {start : String} (h : ' ' ∉ start.toList) (stop : String) :
    times? (start ++ " --> " ++ stop) = some (start, stop) := by
  rw [times?, String.toList_append, String.toList_append, cutArrow_append h]
  simp

/-! ## Blocks -/

/-- An entry. -/
structure Block where
  number : Nat
  start : String
  stop : String
  lines : List String
  deriving DecidableEq, Repr

namespace Block

/-- The lines of an entry, with its number, its times and the empty line behind it. -/
def allLines (b : Block) : List String :=
  toString b.number :: (b.start ++ " --> " ++ b.stop) :: b.lines ++ [""]

def text (b : Block) : String :=
  unlines b.allLines

/-- The times have no spaces and no line feeds, and there is some line of text. -/
structure Regular (b : Block) : Prop where
  start : ' ' ∉ b.start.toList ∧ '\n' ∉ b.start.toList
  stop : '\n' ∉ b.stop.toList
  lines_ne : b.lines ≠ []

/-- A reader takes every line of text for one. -/
def Readable (b : Block) : Prop :=
  ∀ line ∈ b.lines, line ≠ "" ∧ '\n' ∉ line.toList

instance (b : Block) : Decidable b.Readable :=
  inferInstanceAs (Decidable (∀ line ∈ b.lines, line ≠ "" ∧ '\n' ∉ line.toList))

end Block

/-- What the next line of a file has to be. -/
inductive Expected where
  | number
  | times (number : Nat)
  /-- Text, with the lines so far, the latest first. -/
  | text (number : Nat) (start stop : String) (before : List String)

/-- The blocks in lines. The last piece of a text is what stands behind its last line feed. -/
def parseFrom : Expected → List String → Option (List Block)
  | .number, [last] => if last = "" then some [] else none
  | .number, line :: next :: lines =>
    match decimal? line with
    | some number => parseFrom (.times number) (next :: lines)
    | none => none
  | .times number, line :: lines =>
    match times? line with
    | some (start, stop) => parseFrom (.text number start stop []) lines
    | none => none
  | .text number start stop before, line :: lines =>
    if line ≠ "" then parseFrom (.text number start stop (line :: before)) lines
    else if before = [] then none
    else (parseFrom .number lines).map (⟨number, start, stop, before.reverse⟩ :: ·)
  | _, [] => none

/-- The blocks of a SubRip text, if it is one. -/
def parse (text : String) : Option (List Block) :=
  parseFrom .number (linesOf text)

theorem parseFrom_text {lines : List String} (hlines : ∀ line ∈ lines, line ≠ "") (number : Nat)
    (start stop : String) {before : List String} (hne : before.reverse ++ lines ≠ [])
    (rest : List String) :
    parseFrom (.text number start stop before) (lines ++ "" :: rest) =
      (parseFrom .number rest).map (⟨number, start, stop, before.reverse ++ lines⟩ :: ·) := by
  induction lines generalizing before with
  | nil =>
    rw [List.append_nil, List.reverse_ne_nil_iff] at hne
    rw [List.nil_append, parseFrom, if_neg (fun hempty ↦ hempty rfl), if_neg hne, List.append_nil]
  | cons line lines ih =>
    obtain ⟨hline, hrest⟩ := List.forall_mem_cons.mp hlines
    rw [List.cons_append, parseFrom, if_pos hline, ih hrest (by simp), List.reverse_cons,
      List.append_assoc, List.singleton_append]

/-- A block in front of any other text. -/
theorem parseFrom_block {b : Block} (hregular : b.Regular) (hreadable : b.Readable)
    (rest : List String) :
    parseFrom .number (b.allLines ++ rest) = (parseFrom .number rest).map (b :: ·) := by
  have hlines : ∀ line ∈ b.lines, line ≠ "" := fun line hline ↦ (hreadable line hline).1
  have hne : [].reverse ++ b.lines ≠ [] := hregular.lines_ne
  calc
    parseFrom .number (b.allLines ++ rest)
        = parseFrom (.times b.number)
            ((b.start ++ " --> " ++ b.stop) :: b.lines ++ "" :: rest) := by
      simp only [Block.allLines, List.cons_append, List.append_assoc, List.nil_append, parseFrom,
        decimal?_toString]
    _ = parseFrom (.text b.number b.start b.stop []) (b.lines ++ "" :: rest) := by
      rw [List.cons_append, parseFrom, times?_arrow hregular.start.1]
    _ = (parseFrom .number rest).map (b :: ·) :=
      parseFrom_text hlines b.number b.start b.stop hne rest

/-- The lines of text that a reader has found. -/
def Expected.before : Expected → List String
  | text _ _ _ before => before
  | number | times _ => []

/-- What is read as text is never empty and stands on one line. -/
theorem readable_of_parseFrom {expected : Expected} {lines : List String} {blocks : List Block}
    (hlines : ∀ line ∈ lines, '\n' ∉ line.toList)
    (hbefore : ∀ line ∈ expected.before, line ≠ "" ∧ '\n' ∉ line.toList)
    (h : parseFrom expected lines = some blocks) : ∀ b ∈ blocks, b.Readable := by
  fun_induction parseFrom expected lines generalizing blocks with
  | case1 =>
    obtain rfl := Option.some.inj h
    simp
  | case2 | case4 | case6 | case8 | case10 => cases h
  | case3 line next lines number hnumber ih =>
    exact ih (List.forall_mem_cons.mp hlines).2 (by simp [Expected.before]) h
  | case5 number line lines start stop htimes ih =>
    exact ih (List.forall_mem_cons.mp hlines).2 (by simp [Expected.before]) h
  | case7 number start stop before line lines hline ih =>
    obtain ⟨hfirst, hrest⟩ := List.forall_mem_cons.mp hlines
    exact ih hrest (List.forall_mem_cons.mpr ⟨⟨hline, hfirst⟩, hbefore⟩) h
  | case9 number start stop before line lines hline hne ih =>
    obtain ⟨later, hlater, rfl⟩ := Option.map_eq_some_iff.mp h
    refine List.forall_mem_cons.mpr ⟨?_, ?_⟩
    · exact fun line hmem ↦ hbefore line (List.mem_reverse.mp hmem)
    · exact ih (List.forall_mem_cons.mp hlines).2 (by simp [Expected.before]) hlater

theorem not_mem_of_mem_allLines {b : Block} (hregular : b.Regular)
    (hlines : ∀ line ∈ b.lines, '\n' ∉ line.toList) : ∀ line ∈ b.allLines, '\n' ∉ line.toList := by
  have hnumber : '\n' ∉ (toString b.number).toList := by
    intro hmem
    have hdigits : (toString b.number).toList = Nat.toDigits 10 b.number := Nat.toList_repr
    rw [hdigits] at hmem
    exact absurd (Nat.isDigit_of_mem_toDigits (by decide) (by decide) hmem) (by decide)
  have htimes : '\n' ∉ (b.start ++ " --> " ++ b.stop).toList := by
    have harrow : '\n' ∉ " --> ".toList := by decide
    simp only [String.toList_append, List.mem_append, not_or]
    exact ⟨⟨hregular.start.2, harrow⟩, hregular.stop⟩
  have htext : ∀ line ∈ b.lines ++ [""], '\n' ∉ line.toList := by
    simp only [List.forall_mem_append, List.forall_mem_singleton]
    exact ⟨hlines, by decide⟩
  rw [Block.allLines, List.cons_append, List.cons_append]
  exact List.forall_mem_cons.mpr ⟨hnumber, List.forall_mem_cons.mpr ⟨htimes, htext⟩⟩

theorem unlines_flatMap (blocks : List Block) :
    unlines (blocks.flatMap Block.allLines) = String.join (blocks.map Block.text) := by
  induction blocks with
  | nil => rfl
  | cons b blocks ih =>
    rw [List.flatMap_cons, unlines_append, ih, List.map_cons, String.join_cons, Block.text]

theorem parse_text {blocks : List Block} (hregular : ∀ b ∈ blocks, b.Regular)
    (hreadable : ∀ b ∈ blocks, b.Readable) :
    parse (String.join (blocks.map Block.text)) = some blocks := by
  have hlines : ∀ line ∈ blocks.flatMap Block.allLines, '\n' ∉ line.toList := by
    intro line hline
    obtain ⟨b, hb, hmem⟩ := List.mem_flatMap.mp hline
    have htext : ∀ line ∈ b.lines, '\n' ∉ line.toList := fun line h ↦ (hreadable b hb line h).2
    exact not_mem_of_mem_allLines (hregular b hb) htext line hmem
  rw [parse, ← unlines_flatMap, linesOf_unlines hlines]
  clear hlines
  induction blocks with
  | nil => rfl
  | cons b blocks ih =>
    obtain ⟨hb, hblocks⟩ := List.forall_mem_cons.mp hregular
    obtain ⟨hfirst, hrest⟩ := List.forall_mem_cons.mp hreadable
    rw [List.flatMap_cons, List.append_assoc, parseFrom_block hb hfirst, ih hblocks hrest]
    rfl

/-- Blocks are read back exactly when each of their lines of text is taken for one. -/
theorem parse_text_iff {blocks : List Block} (hregular : ∀ b ∈ blocks, b.Regular) :
    parse (String.join (blocks.map Block.text)) = some blocks ↔ ∀ b ∈ blocks, b.Readable := by
  constructor
  · exact readable_of_parseFrom (fun _ ↦ not_mem_of_mem_linesOf) (by simp [Expected.before])
  · exact parse_text hregular

/-- An empty line ends its block, and the line behind it is taken for the next number. -/
theorem parse_text_of_gap {b : Block} {front back : List String} (hregular : b.Regular)
    (hgap : b.lines = front ++ "" :: back) (hne : front ≠ [])
    (hfront : ∀ line ∈ front, line ≠ "" ∧ '\n' ∉ line.toList)
    (hback : ∀ line ∈ back, '\n' ∉ line.toList) :
    parse b.text = (parseFrom .number (back ++ ["", ""])).map ({ b with lines := front } :: ·) := by
  have hlines : ∀ line ∈ b.lines, '\n' ∉ line.toList := by
    rw [hgap, List.forall_mem_append, List.forall_mem_cons]
    exact ⟨fun line h ↦ (hfront line h).2, by decide, hback⟩
  have hcut : b.allLines ++ [""] = { b with lines := front }.allLines ++ (back ++ ["", ""]) := by
    simp [Block.allLines, hgap]
  have hfirst : { b with lines := front }.Regular := ⟨hregular.start, hregular.stop, hne⟩
  rw [parse, Block.text, linesOf_unlines (not_mem_of_mem_allLines hregular hlines), hcut,
    parseFrom_block hfirst hfront]

end ClosedCaptions.SubRip
