import ClosedCaptions.Command.Run
import ClosedCaptions.Proofs.Filter.Filtering

/-!
# Requests to filter

A request opens its files, filters the stream that it reads and writes what was left of it. Requests
to pass and to extract captions write the same output; without options that is the stream from its
first start on, and extracting writes the captions of every unit beside it.
-/

namespace ClosedCaptions

open Procedure

namespace Workspace

theorem lookup_filter_ne (files : List (String × List UInt8)) (path other : String) :
    (files.filter (·.1 != path)).lookup other =
      if other = path then none else files.lookup other := by
  induction files with
  | nil => simp
  | cons file files ih =>
    rw [List.filter_cons, List.lookup_cons]
    by_cases hfile : file.1 = path
    · rw [if_neg (by simp [hfile]), ih]
      split
      · rfl
      · next hother => rw [hfile, beq_false_of_ne hother]
    · rw [if_pos (by simp [hfile]), List.lookup_cons, ih]
      split
      · next hother => rw [eq_of_beq hother, if_neg hfile]
      · rfl

theorem content?_store (path : String) (bytes : List UInt8) (w : Workspace) :
    (w.store path bytes).content? path = some bytes := by
  rw [store, content?, List.lookup_append, lookup_filter_ne, if_pos rfl, List.lookup_cons,
    beq_self_eq_true]
  rfl

theorem content?_store_of_ne {path other : String} (h : other ≠ path) (bytes : List UInt8)
    (w : Workspace) : (w.store path bytes).content? other = w.content? other := by
  rw [store, content?, List.lookup_append, lookup_filter_ne, if_neg h, List.lookup_cons,
    beq_false_of_ne h]
  exact Option.or_none

end Workspace

namespace Filtering

/-- Two files receive the output and the side data. -/
theorem content?_deliver {path : String} {sideDataPath : Option String}
    (h : sideDataPath ≠ some path) (f : Filtering) (w : Workspace) :
    (f.deliver path sideDataPath w).content? path = some f.output ∧
      ∀ other, sideDataPath = some other →
        (f.deliver path sideDataPath w).content? other = some f.sideData := by
  cases sideDataPath with
  | none => exact ⟨w.content?_store path f.output, nofun⟩
  | some other =>
    have hne : other ≠ path := fun heq ↦ h (congrArg some heq)
    rw [deliver, if_neg hne]
    constructor
    · rw [Workspace.content?_store_of_ne hne.symm, Workspace.content?_store]
    · intro _ hother
      rw [← Option.some.inj hother, Workspace.content?_store]

end Filtering

namespace FilterRequest

/-- The files of a request once they are open. -/
structure Opened where
  sideDataPath : Option String
  outputPath : String
  input : List UInt8
  deriving DecidableEq

/-- Empty the files that are written, and read the input. -/
def openFiles (request : FilterRequest) : Procedure Workspace Opened := do
  if request.sideData.isSome && request.captions ≠ .extract then
    Procedure.log .sideDataUnused
  if request.output = FileName.standard then
    Procedure.fail .streamToTerminal
  let sideDataPath ← request.createSideData
  let outputPath ← Workspace.create request.output
  let input ← Workspace.openInput request.input
  return ⟨sideDataPath, outputPath, input⟩

theorem run_eq (request : FilterRequest) (failLevel : Severity) :
    request.run failLevel = request.openFiles >>= fun opened ↦
      focus (fun _ ↦ Filtering.start request failLevel)
        (Filtering.deliver opened.outputPath opened.sideDataPath) (do
          Filtering.filterStream opened.input
          let f ← Procedure.get
          Procedure.each Procedure.log f.report) := by
  rw [run, openFiles]
  split <;> split <;> simp only [bind_assoc, pure_bind]

variable {request : FilterRequest} {opened : Opened} {w w' : Workspace}

/-- Once the files are open, a request does what filtering the stream does, and delivers that. -/
theorem effect_run (hopen : request.openFiles.effect w = (.ok opened, w')) (failLevel : Severity)
    {result : Except Error Unit} {f : Filtering}
    (hfilter : (Filtering.filterStream opened.input).effect (.start request failLevel) =
      (result, f)) :
    (request.run failLevel).effect w =
      (result, f.deliver opened.outputPath opened.sideDataPath w') := by
  rw [run_eq, effect_bind_ok hopen, effect_focus]
  have hreport : (Filtering.filterStream opened.input >>= fun _ ↦ Procedure.get >>= fun f ↦
      each Procedure.log f.report).effect (.start request failLevel) = (result, f) := by
    cases result with
    | error e => exact effect_bind_error hfilter
    | ok _ => rw [effect_bind_ok hfilter, effect_get_bind, effect_each_log]
  rw [hreport]

theorem took_start (h : request.captions ≠ .remove) :
    Filtering.Took (.start request .error) [] (.start request .error) where
  keeps := ⟨h, rfl⟩
  action_eq := rfl
  sideData_eq := by
    rw [CaptionAction.taken]
    split <;> rfl
  counts := rfl
  unchanged hinactive := ⟨hinactive, rfl⟩

theorem inactive_start (hratio : request.aspectRatio = none) (hrate : request.frameRate = none) :
    (Filtering.start request .error).sequence.isActive = false := by
  rw [Filtering.start, hratio, hrate]
  rfl

/-- Where problems are tolerated, passing and extracting succeed or fail alike and leave the same
output. Extracting takes out the captions of every unit, three bytes for each packet it counts.
Without options both succeed and the output is the stream from its first start on, without its last
three bytes if they are a start that has no start code, be it the first one or one that ends a
unit. -/
theorem pass_and_extract_keep_stream (logLevel : Option Severity) (logFormat : LogFormat)
    {passing extracting : FilterRequest} (hpass : passing.captions = .pass)
    (hextract : extracting.captions = .extract)
    (hratio : extracting.aspectRatio = passing.aspectRatio)
    (hrate : extracting.frameRate = passing.frameRate)
    {v v' w w' : Workspace} {path path' : String} {sideDataPath : Option String}
    {bytes : List UInt8}
    (hopenPass : passing.openFiles.effect v = (.ok ⟨none, path, bytes⟩, v'))
    (hopenExtract : extracting.openFiles.effect w = (.ok ⟨sideDataPath, path', bytes⟩, w')) :
    ∃ result f g,
      (Filtering.filterStream bytes).effect (.start passing .error) = (result, f) ∧
      (Filtering.filterStream bytes).effect (.start extracting .error) = (result, g) ∧
      (Invocation.mk logLevel logFormat false (.filter passing)).run.effect v =
        (result, f.deliver path none v') ∧
      (Invocation.mk logLevel logFormat false (.filter extracting)).run.effect w =
        (result, g.deliver path' sideDataPath w') ∧
      (f.deliver path none v').content? path = some f.output ∧
      (sideDataPath ≠ some path' →
        (g.deliver path' sideDataPath w').content? path' = some g.output ∧
        ∀ other, sideDataPath = some other →
          (g.deliver path' sideDataPath w').content? other = some g.sideData) ∧
      f.output = g.output ∧
      g.sideData.length = 3 * g.captions.packetsExtracted ∧
      (result = .ok () →
        g.sideData = (unitSplit bytes).flatMap StreamUnit.captionBytes) ∧
      (passing.aspectRatio = none → passing.frameRate = none →
        result = .ok () ∧
        g.report = [.packetsExtracted g.captions.packetsExtracted g.sideData.length] ∧
        (OpensAt bytes (bytes.length - 3) →
          f.output = (bytes.take (bytes.length - 3)).drop (nextStart bytes 0)) ∧
        (¬ OpensAt bytes (bytes.length - 3) → f.output = bytes.drop (nextStart bytes 0))) := by
  have hpassKept : passing.captions ≠ .remove := by simp [hpass]
  have hextractKept : extracting.captions ≠ .remove := by simp [hextract]
  have hsequence : (Filtering.start passing .error).sequence =
      (Filtering.start extracting .error).sequence := by
    simp only [Filtering.start, hratio, hrate]
  have hstart : Filtering.SameOutput (.start passing .error) (.start extracting .error) :=
    ⟨⟨hpassKept, rfl⟩, ⟨hextractKept, rfl⟩, hsequence, rfl⟩
  obtain ⟨hresult, hsame⟩ := hstart.filterStream bytes
  have hpassPost := Filtering.post_filterStream (took_start hpassKept) bytes
  have hextractPost := Filtering.post_filterStream (took_start hextractKept) bytes
  rcases hf : (Filtering.filterStream bytes).effect (.start passing .error) with ⟨result, f⟩
  rcases hg : (Filtering.filterStream bytes).effect (.start extracting .error) with ⟨result', g⟩
  rw [hf, hg] at hresult hsame
  rw [hf] at hpassPost
  rw [hg] at hextractPost
  obtain rfl : result = result' := hresult
  have hcounts : g.Counts := hextractPost.state (fun _ _ h ↦ h.counts) fun _ h ↦ h.counts
  have hstartBytes : (Filtering.start extracting .error).CountsBytes := rfl
  have hbytes : g.sideDataBytes = g.sideData.length := by
    have hcounted := Filtering.countsBytes_filterStream hstartBytes bytes
    rwa [hg] at hcounted
  refine ⟨result, f, g, rfl, rfl, effect_run hopenPass _ hf, effect_run hopenExtract _ hg,
    (Filtering.content?_deliver (by simp) f v').1,
    fun hpaths ↦ Filtering.content?_deliver hpaths g w', hsame.output_eq, hcounts, ?_, ?_⟩
  · rintro rfl
    have hsideData : g.sideData = extracting.captions.taken (unitSplit bytes) :=
      hextractPost.sideData_eq
    rw [hsideData, hextract, CaptionAction.taken, if_pos rfl]
  · intro hnoRatio hnoRate
    have hpassIdle := inactive_start hnoRatio hnoRate
    have hextractIdle : (Filtering.start extracting .error).sequence.isActive = false :=
      hsequence ▸ hpassIdle
    obtain ⟨hok, htook⟩ := Filtering.ok_of_inactive hpassPost hpassIdle
    obtain ⟨_, htook'⟩ := Filtering.ok_of_inactive hextractPost hextractIdle
    obtain ⟨_, houtput⟩ := htook.unchanged hpassIdle
    obtain ⟨hidle, _⟩ := htook'.unchanged hextractIdle
    have haction : g.captions.action = .extract := htook'.action_eq.trans hextract
    refine ⟨hok, ?_, ?_⟩
    · rw [Filtering.report, hidle, haction, hbytes]
      rfl
    · rw [houtput]
      exact encodeAll_unitSplit bytes

/-- A caption unit between a byte of no unit and a start without a start code. -/
theorem pass_and_extract_trailing_start :
    let bytes : List UInt8 := [0x47, 0, 0, 1, 0xB2, 0x47, 0x41, 0x39, 0x34, 0x03, 0x41, 0xFF, 0xFC,
      0x94, 0x20, 0xFF, 0, 0, 1]
    let w : Workspace := ⟨[("in", bytes)], [], [], ""⟩
    let passing : FilterRequest := ⟨"in", "out", .pass, none, none, none⟩
    let extracting : FilterRequest := ⟨"in", "out", .extract, some "data", none, none⟩
    let passed := (Invocation.mk none .plain false (.filter passing)).run.effect w
    let extracted := (Invocation.mk none .plain false (.filter extracting)).run.effect w
    passing.openFiles.effect w = (.ok ⟨none, "out", bytes⟩, w.store "out" []) ∧
      extracting.openFiles.effect w =
        (.ok ⟨some "data", "out", bytes⟩, (w.store "data" []).store "out" []) ∧
      OpensAt bytes (bytes.length - 3) ∧
      passed.1 = .ok () ∧ passed.2.content? "out" = some ((bytes.take 16).drop 1) ∧
      extracted.1 = .ok () ∧ extracted.2.content? "out" = some ((bytes.take 16).drop 1) ∧
      extracted.2.content? "data" = some [0xFC, 0x94, 0x20] := by
  intro bytes w passing extracting passed extracted
  have hpass : passing.captions = .pass := rfl
  have hextract : extracting.captions = .extract := rfl
  have hopenPass : passing.openFiles.effect w =
      (.ok ⟨none, "out", bytes⟩, w.store "out" []) := by decide +kernel
  have hopenExtract : extracting.openFiles.effect w =
      (.ok ⟨some "data", "out", bytes⟩, (w.store "data" []).store "out" []) := by decide +kernel
  have hopens : OpensAt bytes (bytes.length - 3) := by
    have hfirst : OpensFrom bytes 1 1 := .here (by decide)
    exact hfirst.next (by decide) (by decide)
  obtain ⟨_, f, g, -, -, hpassed, hextracted, hpassedFile, hfiles, hsame, -, hsideData, hidle⟩ :=
    pass_and_extract_keep_stream none .plain hpass hextract rfl rfl hopenPass hopenExtract
  obtain ⟨rfl, -, hkept, -⟩ := hidle rfl rfl
  obtain ⟨hextractedFile, hsideDataFile⟩ := hfiles (by decide)
  have hunits : unitSplit bytes =
      [⟨0xB2, [0x47, 0x41, 0x39, 0x34, 0x03, 0x41, 0xFF, 0xFC, 0x94, 0x20, 0xFF]⟩] := by
    have hfirst : nextStart bytes 0 = 1 := by decide
    have hcode : bytes[1 + 3]? = some 0xB2 := rfl
    have hnext : nextStart bytes (1 + 4) = 16 := by decide
    have hnone : bytes[16 + 3]? = none := rfl
    rw [unitSplit, hfirst, unitsFrom_eq_cons hcode, hnext, unitsFrom_eq_nil hnone]
    rfl
  have hdata : (unitSplit bytes).flatMap StreamUnit.captionBytes = [0xFC, 0x94, 0x20] := by
    rw [hunits]
    decide +kernel
  have houtput : f.output = (bytes.take 16).drop 1 := hkept hopens
  have hcaptions : g.sideData = [0xFC, 0x94, 0x20] := (hsideData rfl).trans hdata
  refine ⟨hopenPass, hopenExtract, hopens, congrArg Prod.fst hpassed, ?_,
    congrArg Prod.fst hextracted, ?_, ?_⟩
  · rw [← houtput, ← hpassedFile]
    exact congrArg (·.2.content? "out") hpassed
  · rw [← houtput, hsame, ← hextractedFile]
    exact congrArg (·.2.content? "out") hextracted
  · rw [← hcaptions, ← hsideDataFile "data" rfl]
    exact congrArg (·.2.content? "data") hextracted

/-- A start that is the whole stream ends no unit, and yet nothing of it is written. -/
theorem lone_start_is_dropped :
    let bytes : List UInt8 := [0, 0, 1]
    let request : FilterRequest := ⟨"in", "out", .pass, none, none, none⟩
    let passed := (Invocation.mk none .plain false (.filter request)).run.effect
      ⟨[("in", bytes)], [], [], ""⟩
    ¬ EndsUnitAt bytes (bytes.length - 3) ∧ bytes.drop (nextStart bytes 0) = bytes ∧
      passed.1 = .ok () ∧ passed.2.content? "out" = some [] := by
  refine ⟨?_, by decide, by decide +kernel, by decide +kernel⟩
  rintro ⟨_, p, _, hcode, _⟩
  rw [List.length_cons, List.length_cons, List.length_singleton] at hcode
  omega

end FilterRequest

end ClosedCaptions
