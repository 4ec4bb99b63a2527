import ClosedCaptions.Command.Run
import ClosedCaptions.Proofs.Decode.Request
import ClosedCaptions.Proofs.Filter.Request
import ClosedCaptions.Proofs.Strict.Captions

/-!
# Strict mode

The level at which problems are fatal goes into every part of a command: the caption decoder, the
presentation of a stream, the caption filter and the inspection. In strict mode a command succeeds
exactly when it succeeds otherwise and meets no problem, and then it does and logs the same.
-/

namespace ClosedCaptions

open Procedure

/-! ## Presenting a stream -/

namespace Presentation

variable {κ : Type}

/-- The first presentation is the strict form of the second one, which is lenient; their consumers
are related. -/
structure Strict (R : κ → κ → Prop) (p q : Presentation κ) : Prop where
  strict : p.failLevel = .warn
  lenient : q.failLevel = .error
  frameRate_eq : p.frameRate = q.frameRate
  order_eq : p.order = q.order
  consumer : R p.consumer q.consumer

variable {R : κ → κ → Prop} {p q : Presentation κ}

theorem Strict.rate_eq (h : Strict R p q) : p.rate = q.rate := by
  rw [rate, rate, h.frameRate_eq]

theorem tight_modifyOrder (f : DisplayOrder → DisplayOrder) :
    Tight (Strict R) (modifyOrder (σ := κ) f) :=
  tight_modify fun _ _ h ↦ { h with order_eq := congrArg f h.order_eq }

theorem tight_tolerate (problem : Error) : Tight (Strict R) (tolerate (σ := κ) problem) :=
  Procedure.tight_tolerate fun _ _ h ↦ ⟨h.strict, h.lenient⟩

theorem tight_readHeader (bytes : List UInt8) : Tight (Strict R) (readHeader (σ := κ) bytes) := by
  apply (SequenceHeader.quiet_read bytes).tight_attempt.bind
  intro result
  match result with
  | .error cause => exact tight_tolerate _
  | .ok h =>
    dsimp only
    split
    · exact (tight_log rfl).bind fun _ ↦ tight_modify fun _ _ h ↦ { h with frameRate_eq := rfl }
    · exact tight_pure ()

theorem tight_readPicture (bytes : List UInt8) :
    Tight (Strict R) (readPicture (σ := κ) bytes) := by
  apply (PictureHeader.quiet_read bytes).tight_attempt.bind
  intro result
  match result with
  | .error cause => exact tight_tolerate _
  | .ok header =>
    apply (tight_modifyOrder _).bind
    intro _ p q h
    apply tightens_get_bind
    rw [h.order_eq]
    exact tightens_log rfl h

theorem tight_readUserData (bytes : List UInt8) :
    Tight (Strict R) (readUserData (σ := κ) bytes) := by
  apply (UserData.quiet_read bytes).tight_attempt.bind
  intro result
  match result with
  | .error cause => exact tight_tolerate _
  | .ok data =>
    dsimp only
    split
    · apply ((SideData.quiet_append_get data).locally []).tight_locally.bind
      exact fun _ ↦ tight_modifyOrder _
    · exact tight_pure ()

variable {ticks : Nat → Float → Int64} {consume : List UInt8 → Int64 → Procedure κ Unit}
  (hconsume : ∀ packets time, Tight R (consume packets time))
include hconsume

theorem tight_flush : Tight (Strict R) (flush ticks consume) := by
  intro p q h
  have hgive (due : Nat × List UInt8) : Tight (Strict R)
      (Procedure.focus consumer (fun c (p : Presentation κ) ↦ { p with consumer := c })
        (consume due.2 (ticks due.1 q.rate))) :=
    (hconsume _ _).focus (fun _ _ h ↦ h.consumer) fun _ _ _ _ h hc ↦ { h with consumer := hc }
  apply tightens_get_bind
  rw [h.rate_eq, h.order_eq]
  exact ((tight_modifyOrder _).bind fun _ ↦ tight_each hgive _) p q h

theorem tight_beginGroup : Tight (Strict R) (beginGroup ticks consume) :=
  (tight_flush hconsume).bind fun _ ↦ tight_modifyOrder _

theorem tight_readUnit (unit : StreamUnit) : Tight (Strict R) (readUnit ticks consume unit) := by
  unfold readUnit
  split
  · apply (tight_beginGroup hconsume).bind
    intro _ p q h
    apply tightens_get_bind
    rw [h.frameRate_eq]
    split
    · exact tight_readHeader unit.data p q h
    · exact tightens_pure () h
  split
  · exact tight_beginGroup hconsume
  split
  · exact tight_readPicture unit.data
  split
  · exact tight_readUserData unit.data
  · exact tight_pure ()

/-- A presentation is strict when its consumer is. -/
theorem tight_present (bytes : List UInt8) : Tight (Strict R) (present ticks consume bytes) := by
  apply (tight_forEachUnit (tight_readUnit hconsume) _).bind
  intro _
  apply (tight_flush hconsume).bind
  intro _ p q h
  apply tightens_get_bind
  rw [h.order_eq, h.rate_eq]
  exact tightens_pure _ h

end Presentation

namespace CaptionWriter

/-- The first writer is the strict form of the second one, which is lenient. -/
structure Strict (w v : CaptionWriter) : Prop where
  decoder : Decoder.Strict w.decoder v.decoder
  output_eq : w.output = v.output

theorem tight_consume (packets : List UInt8) (time : Int64) :
    Tight Strict (consume packets time) := by
  have hdecode : Tight Strict (Procedure.focus decoder (fun d w ↦ { w with decoder := d })
      (Decoder.decode packets time)) :=
    (Decoder.tight_decode packets time).focus (fun _ _ h ↦ h.decoder)
      fun _ _ _ _ h hd ↦ { h with decoder := hd }
  apply hdecode.bind
  intro cues
  apply tight_each
  intro cue
  exact (tight_log rfl).bind fun _ ↦
    tight_modify fun _ _ h ↦ { h with output_eq := congrArg (·.push cue) h.output_eq }

theorem Strict.finish {w v : CaptionWriter} (h : Strict w v) (time : Int64) :
    Strict (w.finish time) (v.finish time) := by
  obtain ⟨hcue, hdecoder⟩ := h.decoder.finish time
  have houtput : (w.finish time).output = (v.finish time).output := by
    change (((w.decoder.finish time).1.elim w.output w.output.push).finish time) =
      ((v.decoder.finish time).1.elim v.output v.output.push).finish time
    rw [hcue, h.output_eq]
  exact ⟨hdecoder, houtput⟩

theorem tight_writeStream (ticks : Nat → Float → Int64) (bytes : List UInt8) :
    Tight (Presentation.Strict Strict) (writeStream ticks bytes) := by
  apply (Presentation.tight_present tight_consume bytes).bind
  intro stop
  have hfinish : Tight (Presentation.Strict Strict)
      (Procedure.modify fun p ↦ { p with consumer := p.consumer.finish stop }) :=
    tight_modify fun _ _ h ↦ { h with consumer := h.consumer.finish stop }
  apply hfinish.bind
  intro _ p q h
  apply tightens_get_bind
  rw [h.order_eq, h.consumer.output_eq]
  exact tightens_log rfl h

end CaptionWriter

/-! ## Filtering a stream -/

namespace CaptionFilter

/-- The first filter is the strict form of the second one, which is lenient. -/
def Strict (f g : CaptionFilter) : Prop :=
  g.failLevel = .error ∧ f = { g with failLevel := .warn }

/-- A change that has nothing to do with the level. -/
theorem tight_change {f : CaptionFilter → CaptionFilter}
    (hf : ∀ g level, f { g with failLevel := level } = { f g with failLevel := level }) :
    Tight Strict (modify f) :=
  tight_modify_of_commutes (fun _ ↦ rfl) (fun _ _ ↦ rfl) fun level g ↦ hf g level

theorem tight_captions? (unit : StreamUnit) : Tight Strict (captions? unit) := by
  unfold captions?
  split
  · exact tight_pure none
  apply (UserData.quiet_read unit.data).tight_attempt.bind
  intro result
  match result with
  | .ok data => exact tight_pure _
  | .error cause =>
    rintro _ g ⟨hlevel, rfl⟩
    apply tightens_get_bind
    rw [hlevel]
    exact tightens_bind (tightens_tolerate _ _) fun _ _ _ ↦ tightens_pure none

theorem tight_keepUnit (r : Removal) (unit : StreamUnit) : Tight Strict (keepUnit r unit) := by
  unfold keepUnit
  split
  · exact tight_pure _
  apply (tight_captions? unit).bind
  intro found
  match found with
  | none => exact tight_pure _
  | some (data, block) =>
    exact (tight_log rfl).bind fun _ ↦ (tight_change fun _ _ ↦ rfl).bind fun _ ↦ tight_pure _

theorem tight_extractUnit (unit : StreamUnit) : Tight Strict (extractUnit unit) := by
  apply (tight_captions? unit).bind
  intro found
  match found with
  | none => exact tight_pure _
  | some (data, block) =>
    apply (tight_log rfl).bind
    intro _
    apply (tight_change fun _ _ ↦ rfl).bind
    intro _
    exact ((SideData.quiet_append_get data).locally []).tight_locally.bind fun _ ↦ tight_pure _

theorem tight_apply (units : List StreamUnit) : Tight Strict (apply units) := by
  rintro _ g ⟨hlevel, rfl⟩
  apply tightens_get_bind
  dsimp only
  split
  · exact tightens_pure _ ⟨hlevel, rfl⟩
  · have hremove : Tight Strict (remove units) := (tight_fold tight_keepUnit _ units).map _
    exact (hremove.bind fun _ ↦ tight_pure _) _ g ⟨hlevel, rfl⟩
  · have hextract : Tight Strict (extract units) :=
      (tight_gather tight_extractUnit units).bind fun _ ↦ tight_pure _
    exact (hextract.bind fun _ ↦ tight_pure _) _ g ⟨hlevel, rfl⟩

end CaptionFilter

namespace Filtering

/-- The first state is the strict form of the second one, which is lenient. -/
structure Strict (f g : Filtering) : Prop where
  captions : CaptionFilter.Strict f.captions g.captions
  sequence_eq : f.sequence = g.sequence
  done_eq : f.done = g.done
  sideDataBytes_eq : f.sideDataBytes = g.sideDataBytes

variable {f g : Filtering}

theorem tight_rewrite (units : List StreamUnit) : Tight Strict (rewrite units) := by
  have hquiet : Quiet (SequenceFilter.Rewriting.rewrite >>= fun _ ↦
      Procedure.get >>= fun r ↦ pure r.units) :=
    SequenceFilter.Rewriting.quiet_rewrite.bind fun _ ↦ quiet_get.bind fun _ ↦ quiet_pure _
  apply hquiet.tight.focus
  · intro f g h
    rw [h.sequence_eq]
  · rintro f g r _ h rfl
    exact { h with sequence_eq := rfl }

theorem tight_filterFragment (units : List StreamUnit) : Tight Strict (filterFragment units) := by
  apply (tight_rewrite units).bind
  intro units
  apply ((CaptionFilter.tight_apply units).focus (fun _ _ h ↦ h.captions)
    fun _ _ _ _ h hc ↦ { h with captions := hc }).bind
  intro (units, sideData)
  exact tight_modify fun _ _ h ↦ { h with
    done_eq := congrArg (_ :: ·) h.done_eq
    sideDataBytes_eq := congrArg (· + _) h.sideDataBytes_eq }

theorem tight_filterStream (bytes : List UInt8) : Tight Strict (filterStream bytes) :=
  (tight_each_log (Splitter.clean_log_splitChunks _)).bind fun _ ↦
    (tight_each tight_filterFragment _).bind fun _ ↦ (tight_log rfl).bind fun _ ↦
      tight_each tight_filterFragment _

theorem Strict.report_eq (h : Strict f g) : f.report = g.report := by
  simp only [report, h.sequence_eq, h.sideDataBytes_eq, h.captions.2]

theorem clean_report (f : Filtering) : Clean f.report := by
  have hheaders : Clean (if f.sequence.isActive then
      [.headersRewritten f.sequence.rewritten] else []) := by
    split
    · exact clean_singleton.mpr rfl
    · exact clean_nil
  apply clean_append.mpr
  refine ⟨hheaders, ?_⟩
  split <;> exact clean_singleton.mpr rfl

theorem Strict.deliver_eq (h : Strict f g) (outputPath : String) (sideDataPath : Option String) :
    deliver outputPath sideDataPath f = deliver outputPath sideDataPath g := by
  have hdone := h.done_eq
  funext w
  simp only [deliver, output, sideData, sharedFile, hdone]

end Filtering

/-! ## Describing a stream -/

namespace Inspection

/-- The first state is the strict form of the second one, which is lenient. -/
def Strict (i j : Inspection) : Prop :=
  j.failLevel = .error ∧ i = { j with failLevel := .warn }

theorem Strict.levels {i j : Inspection} (h : Strict i j) :
    i.failLevel = .warn ∧ j.failLevel = .error := by
  obtain ⟨hlevel, rfl⟩ := h
  exact ⟨rfl, hlevel⟩

/-- A change that has nothing to do with the level. -/
theorem tight_change {f : Inspection → Inspection}
    (hf : ∀ j level, f { j with failLevel := level } = { f j with failLevel := level }) :
    Tight Strict (modify f) :=
  tight_modify_of_commutes (fun _ ↦ rfl) (fun _ _ ↦ rfl) fun level j ↦ hf j level

theorem tight_readHeader (bytes : List UInt8) : Tight Strict (readHeader bytes) := by
  apply (SequenceHeader.quiet_read bytes).tight_attempt.bind
  intro result
  match result with
  | .ok h => exact tight_change fun _ _ ↦ rfl
  | .error cause => exact tight_tolerate fun _ _ h ↦ h.levels

theorem tight_readUserData (bytes : List UInt8) : Tight Strict (readUserData bytes) := by
  apply (UserData.quiet_read bytes).tight_attempt.bind
  intro result
  match result with
  | .ok data => exact tight_change fun _ _ ↦ rfl
  | .error cause =>
    exact (tight_change fun _ _ ↦ rfl).bind fun _ ↦ tight_tolerate fun _ _ h ↦ h.levels

theorem tight_readUnit (unit : StreamUnit) : Tight Strict (readUnit unit) := by
  rintro _ j ⟨hlevel, rfl⟩
  have hstrict : Strict { j with failLevel := .warn } j := ⟨hlevel, rfl⟩
  apply tightens_get_bind
  change Tightens Strict (if unit.isSequenceHeader && !j.hasHeader then _ else _) _ _ _
  split
  · exact tight_readHeader unit.data _ j hstrict
  split
  · exact (tight_change fun _ _ ↦ rfl) _ j hstrict
  split
  · exact tight_readUserData unit.data _ j hstrict
  · exact tightens_pure () hstrict

end Inspection

/-! ## Commands -/

theorem InfoRequest.tightens_run (request : InfoRequest) (w : Workspace) :
    Tightens Eq (request.run .warn) (request.run .error) w w := by
  apply tightens_log_bind rfl
  apply tightens_bind ((Workspace.quiet_openInput _).tightens w)
  rintro bytes w _ rfl
  have hinspect : Tight Inspection.Strict
      (forEachUnit (Chunks.read Chunks.commandSize bytes) Inspection.readUnit >>= fun size ↦
        Procedure.get >>= fun i ↦ pure (i.display request.dump size)) := by
    apply (tight_forEachUnit Inspection.tight_readUnit _).bind
    rintro size _ j ⟨hlevel, rfl⟩
    exact tightens_get_bind (tightens_pure _ ⟨hlevel, rfl⟩)
  have hstart : Inspection.Strict (.start .warn) (.start .error) := ⟨rfl, rfl⟩
  apply tightens_bind (hinspect.tightens_focus_const hstart (fun _ _ _ ↦ rfl) w)
  rintro text w _ rfl
  exact tightens_modify rfl

namespace DecodeRequest

theorem quiet_openFiles (request : DecodeRequest) : Quiet request.openFiles := by
  have hrate : Quiet request.checkRate := by
    unfold checkRate
    split
    · split
      · exact quiet_fail _
      · exact quiet_pure ()
    · exact quiet_pure ()
  have houtput : Quiet request.createOutput := by
    unfold createOutput
    split
    · exact (Workspace.quiet_create _).map _
    · exact quiet_pure none
  exact hrate.bind fun _ ↦ houtput.bind fun _ ↦
    (Workspace.quiet_openInput _).bind fun _ ↦ quiet_pure _

theorem tightens_run (ticks : Nat → Float → Int64) (request : DecodeRequest) (w : Workspace) :
    Tightens Eq (request.run ticks .warn) (request.run ticks .error) w w := by
  rw [run_eq, run_eq]
  apply tightens_bind (request.quiet_openFiles.tightens w)
  rintro ⟨path, bytes⟩ w _ rfl
  apply (CaptionWriter.tight_writeStream ticks bytes).tightens_focus_const
  · exact ⟨rfl, rfl, rfl, rfl, ⟨rfl, rfl⟩, rfl⟩
  · intro p q h
    rw [h.consumer.output_eq]

end DecodeRequest

namespace FilterRequest

theorem quiet_openFiles (request : FilterRequest) : Quiet request.openFiles := by
  have hsideData : Quiet request.createSideData := by
    unfold createSideData
    split
    · exact (Workspace.quiet_create _).map _
    · exact quiet_pure none
  have hfiles : Quiet (request.createSideData >>= fun sideDataPath ↦
      Workspace.create request.output >>= fun outputPath ↦
        Workspace.openInput request.input >>= fun input ↦
          pure (⟨sideDataPath, outputPath, input⟩ : Opened)) :=
    hsideData.bind fun _ ↦ (Workspace.quiet_create _).bind fun _ ↦
      (Workspace.quiet_openInput _).bind fun _ ↦ quiet_pure _
  unfold openFiles
  dsimp only
  split
  · exact (quiet_log rfl).bind fun _ ↦ quiet_ite ((quiet_fail _).bind fun _ ↦ hfiles) hfiles
  · exact quiet_ite ((quiet_fail _).bind fun _ ↦ hfiles) hfiles

theorem tightens_run (request : FilterRequest) (w : Workspace) :
    Tightens Eq (request.run .warn) (request.run .error) w w := by
  rw [run_eq, run_eq]
  apply tightens_bind (request.quiet_openFiles.tightens w)
  rintro opened w _ rfl
  have hfilter : Tight Filtering.Strict (Filtering.filterStream opened.input >>= fun _ ↦
      Procedure.get >>= fun f ↦ each Procedure.log f.report) := by
    apply (Filtering.tight_filterStream _).bind
    intro _ f g h
    apply tightens_get_bind
    rw [h.report_eq]
    exact tight_each_log g.clean_report f g h
  have hstart : Filtering.Strict (.start request .warn) (.start request .error) :=
    ⟨⟨rfl, rfl⟩, rfl, rfl, rfl⟩
  exact hfilter.tightens_focus_const hstart (fun _ _ h ↦ h.deliver_eq _ _) w

end FilterRequest

/-- In strict mode a command succeeds exactly when it succeeds otherwise without tolerating a
problem. It then leaves the same files, prints the same and logs the same. -/
theorem Invocation.strict_run (i : Invocation) (w : Workspace) :
    let strict := ({ i with strict := true }).run.run w
    let lenient := ({ i with strict := false }).run.run w
    (strict.result = .ok () ↔
      lenient.result = .ok () ∧ ∀ problem, .tolerated problem ∉ lenient.log) ∧
    (strict.result = .ok () → strict = lenient) := by
  intro strict lenient
  have htightens : Tightens Eq ({ i with strict := true }).run ({ i with strict := false }).run
      w w := by
    obtain ⟨logLevel, logFormat, _, request⟩ := i
    match request with
    | .info request => exact request.tightens_run w
    | .decode request => exact request.tightens_run Timestamp.ofFrame w
    | .filter request => exact request.tightens_run w
  rw [← clean_iff]
  exact ⟨htightens.ok_iff (), htightens.run_eq⟩

end ClosedCaptions
