import ClosedCaptions.Filter.Sequence
import ClosedCaptions.Picture
import ClosedCaptions.SideData
import ClosedCaptions.Stream.Splitter
import ClosedCaptions.Workspace

/-!
# Quiet procedures

A problem that does not stop a run leaves an entry of its own in the log. A quiet procedure never
leaves one: whatever is wrong makes it fail. Records, side data, sequence headers and files are read
and written quietly.
-/

namespace ClosedCaptions

/-! ## Logs without problems -/

/-- The entry is a problem that did not stop the run. -/
def Entry.isProblem : Entry → Bool
  | tolerated _ => true
  | _ => false

/-- No problem was tolerated. -/
def Clean (log : List Entry) : Prop :=
  ∀ entry ∈ log, entry.isProblem = false

theorem clean_nil : Clean [] :=
  fun _ h ↦ absurd h List.not_mem_nil

theorem clean_singleton {entry : Entry} : Clean [entry] ↔ entry.isProblem = false :=
  List.forall_mem_singleton

theorem clean_append {front back : List Entry} : Clean (front ++ back) ↔ Clean front ∧ Clean back :=
  List.forall_mem_append

theorem clean_iff {log : List Entry} : Clean log ↔ ∀ problem, Entry.tolerated problem ∉ log := by
  constructor
  · intro h problem hmem
    cases h _ hmem
  · intro h entry hmem
    cases entry with
    | tolerated problem => exact absurd hmem (h problem)
    | _ => rfl

namespace Procedure

variable {σ τ α β : Type} {p : Procedure σ α}

/-- The procedure tolerates no problem. -/
def Quiet (p : Procedure σ α) : Prop :=
  ∀ s, Clean (p.run s).log

theorem quiet_pure (a : α) : Quiet (pure a : Procedure σ α) :=
  fun _ ↦ clean_nil

theorem quiet_fail (e : Error) : Quiet (fail e : Procedure σ α) :=
  fun _ ↦ clean_nil

theorem quiet_get : Quiet (get : Procedure σ σ) :=
  fun _ ↦ clean_nil

theorem quiet_modify (f : σ → σ) : Quiet (modify f) :=
  fun _ ↦ clean_nil

theorem quiet_log {entry : Entry} (h : entry.isProblem = false) :
    Quiet (log entry : Procedure σ Unit) :=
  fun _ ↦ clean_singleton.mpr h

theorem Quiet.bind {f : α → Procedure σ β} (hp : Quiet p) (hf : ∀ a, Quiet (f a)) :
    Quiet (p >>= f) := by
  intro s
  have hfront := hp s
  rcases hrun : p.run s with ⟨e | a, t, entries⟩ <;> rw [hrun] at hfront
  · rw [run_bind_error hrun]
    exact hfront
  · rw [run_bind_ok hrun]
    exact clean_append.mpr ⟨hfront, hf a t⟩

theorem quiet_ite {c : Prop} [Decidable c] {q : Procedure σ α} (hp : Quiet p) (hq : Quiet q) :
    Quiet (if c then p else q) := by
  split
  · exact hp
  · exact hq

theorem Quiet.map (hp : Quiet p) (f : α → β) : Quiet (f <$> p) :=
  hp

theorem Quiet.focus {p : Procedure τ α} (hp : Quiet p) (part : σ → τ) (put : τ → σ → σ) :
    Quiet (focus part put p) :=
  fun s ↦ hp (part s)

theorem Quiet.locally {p : Procedure τ α} (hp : Quiet p) (start : τ) :
    Quiet (locally start p : Procedure σ α) :=
  fun _ ↦ hp start

theorem Quiet.onFailure (hp : Quiet p) (change : σ → σ) : Quiet (p.onFailure change) := by
  intro s
  have hlog := hp s
  rcases hrun : p s with ⟨e | a, t, entries⟩ <;> simp only [run, hrun] at hlog <;>
    simpa only [run, Procedure.onFailure, hrun] using hlog

end Procedure

/-! ## Records -/

open Procedure

namespace Reader

theorem quiet_bit : Quiet bit := by
  apply quiet_get.bind
  intro r
  split
  · exact quiet_fail _
  · exact (quiet_modify _).bind fun _ ↦ quiet_pure _

theorem quiet_take (count typeWidth : Nat) : Quiet (take count typeWidth) := by
  rw [take]
  split
  · exact quiet_fail _
  · apply quiet_get.bind
    intro r
    split
    · exact (quiet_modify _).bind fun _ ↦ quiet_pure _
    · exact quiet_fail _

end Reader

theorem Writer.quiet_put (count typeWidth value : Nat) : Quiet (put count typeWidth value) := by
  apply quiet_get.bind
  intro w
  split
  · exact quiet_fail _
  split
  · exact quiet_fail _
  split
  · exact quiet_fail _
  · exact quiet_modify _

namespace Field

theorem quiet_read (field : Field) : Quiet field.read := by
  have hraw : Quiet field.readRaw := by
    cases field with
    | flag name => exact Reader.quiet_bit.bind fun _ ↦ quiet_pure _
    | fixed | unsigned => exact Reader.quiet_take _ _
  apply hraw.bind
  intro value
  split
  · exact quiet_fail _
  · exact (quiet_log rfl).bind fun _ ↦ quiet_pure _

theorem quiet_put (name : String) (width value : Nat) : Quiet (put name width value) := by
  apply quiet_get.bind
  intro w
  split
  · exact quiet_fail _
  · exact (Writer.quiet_put _ _ _).bind fun _ ↦ quiet_log rfl

theorem quiet_putInRange (name : String) (width value : Nat) :
    Quiet (putInRange name width value) := by
  rw [putInRange]
  split
  · exact quiet_fail _
  · exact quiet_put _ _ _

theorem quiet_write (field : Field) (value : Nat) : Quiet (field.write value) := by
  cases field with
  | flag name => exact quiet_put _ _ _
  | fixed | unsigned => exact quiet_putInRange _ _ _

end Field

namespace Layout

variable {α β : Type} {l : Layout α}

/-- Nothing that the layout notes is a problem. -/
def Quiet : Layout α → Prop
  | done _ => True
  | note entry next => entry.isProblem = false ∧ next.Quiet
  | field _ _ next => ∀ value, (next value).Quiet
  | union _ _ fresh held => (∀ value, (fresh value).Quiet) ∧ held.Quiet

theorem Quiet.bind {f : α → Layout β} (hl : l.Quiet) (hf : ∀ a, (f a).Quiet) :
    (l >>= f).Quiet := by
  change (l.bind f).Quiet
  induction l with
  | done value => exact hf value
  | note entry next ih => exact ⟨hl.1, ih hl.2⟩
  | field fld value next ih => exact fun v ↦ ih v (hl v)
  | union tag value fresh held ih ihheld => exact ⟨fun v ↦ ih v (hl.1 v), ihheld hl.2⟩

theorem Quiet.map (hl : l.Quiet) (f : α → β) : (f <$> l).Quiet :=
  hl.bind fun _ ↦ trivial

theorem quiet_sequence {ls : List (Layout α)} (h : ∀ l ∈ ls, l.Quiet) : (sequence ls).Quiet := by
  induction ls with
  | nil => exact trivial
  | cons l ls ih =>
    obtain ⟨hl, hls⟩ := List.forall_mem_cons.mp h
    exact hl.bind fun _ ↦ (ih hls).bind fun _ ↦ trivial

theorem Quiet.read (h : l.Quiet) : Procedure.Quiet l.read := by
  induction l with
  | done value => exact quiet_pure value
  | note entry next ih => exact (quiet_log h.1).bind fun _ ↦ ih h.2
  | field fld value next ih => exact fld.quiet_read.bind fun v ↦ ih v (h v)
  | union tag value fresh held ih => exact tag.quiet_read.bind fun v ↦ ih v (h.1 v)

theorem Quiet.write (h : l.Quiet) : Procedure.Quiet l.write := by
  induction l with
  | done value => exact quiet_pure value
  | note entry next ih => exact (quiet_log h.1).bind fun _ ↦ ih h.2
  | field fld value next ih => exact (fld.quiet_write value).bind fun _ ↦ ih value (h value)
  | union tag value fresh held _ ih => exact (tag.quiet_write value).bind fun _ ↦ ih h.2

end Layout

theorem ActiveFormat.quiet_layout (d : ActiveFormat) : d.layout.Quiet := by
  intro _ given _
  dsimp only
  split
  · exact fun _ _ ↦ trivial
  · exact trivial

theorem Bar.quiet_layout (bar : Bar) (present : Bool) (name : String) :
    (bar.layout present name).Quiet := by
  rw [layout]
  split
  · exact fun _ _ ↦ trivial
  · exact trivial

theorem BarData.quiet_layout (d : BarData) : d.layout.Quiet := by
  intro top bottom left right _
  exact (d.top.quiet_layout _ _).bind fun _ ↦ (d.bottom.quiet_layout _ _).bind fun _ ↦
    (d.left.quiet_layout _ _).bind fun _ ↦ (d.right.quiet_layout _ _).bind fun _ ↦ trivial

theorem CcPacket.quiet_layout (packet : CcPacket) : packet.layout.Quiet :=
  fun _ _ _ _ _ ↦ trivial

theorem CcData.quiet_layout (d : CcData) : d.layout.Quiet := by
  have hpackets (count : Nat) :
      (Layout.sequence ((List.range count).map fun i ↦ (d.slot i).layout)).Quiet :=
    Layout.quiet_sequence (by simp [CcPacket.quiet_layout])
  intro _ _ _ count _
  exact (hpackets _).bind fun _ _ ↦ trivial

theorem AtscData.quiet_layout (d : AtscData) : d.layout.Quiet := by
  have hpayload (d : AtscData) : d.payload.Quiet := by
    cases d with
    | ccData data => exact data.quiet_layout.map _
    | barData data => exact data.quiet_layout.map _
    | unknown code => exact ⟨rfl, trivial⟩
  exact ⟨fun _ ↦ hpayload _, hpayload d⟩

namespace UserData

theorem quiet_layout (d : UserData) : d.layout.Quiet := by
  have hpayload (d : UserData) : d.payload.Quiet := by
    cases d with
    | atsc data => exact data.quiet_layout.map _
    | activeFormat data => exact data.quiet_layout.map _
    | unknown identifier => exact ⟨rfl, trivial⟩
  exact ⟨fun _ ↦ hpayload _, hpayload d⟩

variable {σ : Type}

theorem quiet_read (bytes : List UInt8) : Quiet (read bytes : Procedure σ UserData) := by
  apply Quiet.locally
  exact (quiet_layout _).read.bind fun _ ↦ quiet_get.bind fun _ ↦
    (quiet_log rfl).bind fun _ ↦ quiet_pure _

end UserData

/-! ## Side data -/

namespace SideData

theorem quiet_writePackets (packets : List CcPacket) : Quiet (writePackets packets) := by
  induction packets with
  | nil => exact quiet_pure _
  | cons packet packets ih => exact packet.quiet_layout.write.bind fun _ ↦ ih

theorem quiet_append (data : UserData) : Quiet (append data) := by
  rw [append]
  split
  · exact quiet_fail _
  · dsimp only
    split
    · exact (quiet_log rfl).bind fun _ ↦ (quiet_modify _).bind fun _ ↦ quiet_fail _
    · exact ((quiet_writePackets _).focus _ _).onFailure _

/-- Side data that are written apart and taken. -/
theorem quiet_append_get (data : UserData) : Quiet (append data >>= fun _ ↦ get) :=
  (quiet_append data).bind fun _ ↦ quiet_get

end SideData

/-! ## Sequence headers and pictures -/

variable {σ : Type}

namespace SequenceHeader

theorem quiet_layout (h : SequenceHeader) : h.layout.Quiet :=
  fun _ _ _ _ _ _ _ _ ↦ trivial

theorem quiet_read (bytes : List UInt8) : Quiet (read bytes : Procedure σ SequenceHeader) :=
  (quiet_layout _).read.locally _

theorem quiet_write (h : SequenceHeader) : Quiet h.write :=
  (h.quiet_layout.write.bind fun _ ↦ quiet_pure _).focus _ _

end SequenceHeader

namespace SequenceExtension

theorem quiet_layout (e : SequenceExtension) : e.layout.Quiet :=
  fun _ _ _ _ _ _ _ _ _ _ _ _ ↦ trivial

theorem quiet_read (bytes : List UInt8) : Quiet (read bytes : Procedure σ SequenceExtension) :=
  (quiet_layout _).read.locally _

theorem quiet_write (e : SequenceExtension) : Quiet e.write :=
  (e.quiet_layout.write.bind fun _ ↦ quiet_pure _).focus _ _

end SequenceExtension

theorem PictureHeader.quiet_read (bytes : List UInt8) :
    Quiet (read bytes : Procedure σ PictureHeader) := by
  have hlayout : blank.layout.Quiet := fun _ _ _ ↦ trivial
  exact hlayout.read.locally _

namespace SequenceFilter.Rewriting

theorem quiet_rewriteAt (header extension : Nat) : Quiet (rewriteAt header extension) :=
  quiet_get.bind fun _ ↦ (SequenceHeader.quiet_read _).bind fun _ ↦
    (SequenceExtension.quiet_read _).bind fun _ ↦ (quiet_log rfl).bind fun _ ↦
      ((SequenceHeader.quiet_write _).focus _ _).bind fun _ ↦
        ((SequenceExtension.quiet_write _).focus _ _).bind fun _ ↦ quiet_modify _

theorem quiet_warnOnce : Quiet warnOnce := by
  apply quiet_get.bind
  intro r
  split
  · exact (quiet_log rfl).bind fun _ ↦ quiet_modify _
  · exact quiet_pure _

theorem quiet_rewrite : Quiet rewrite := by
  apply quiet_get.bind
  intro r
  split
  · exact quiet_pure _
  split
  · exact (quiet_rewriteAt _ _).bind fun _ ↦ quiet_pure _
  · exact quiet_warnOnce.bind fun _ ↦ quiet_pure _
  · exact quiet_pure _

end SequenceFilter.Rewriting

/-! ## Files -/

namespace Workspace

theorem quiet_create (name : String) : Quiet (create name) := by
  apply quiet_get.bind
  intro w
  split
  · exact (quiet_modify _).bind fun _ ↦ quiet_pure _
  · exact quiet_fail _

theorem quiet_openInput (name : String) : Quiet (openInput name) := by
  apply quiet_get.bind
  intro w
  split
  · exact (quiet_log rfl).bind fun _ ↦ quiet_pure _
  split
  · exact quiet_fail _
  · exact quiet_fail _
  · exact quiet_pure _

end Workspace

/-! ## Splitting -/

namespace Splitter

theorem clean_log_next (s : Splitter) : Clean s.next.log := by
  have hrelease (bytes : List UInt8) (log : List Entry) : (s.release bytes log).log = log := by
    unfold release
    split <;> rfl
  rw [next]
  split
  · exact clean_nil
  split
  · exact clean_nil
  · rw [hrelease]
    exact clean_nil
  · rw [hrelease]
    exact clean_singleton.mpr rfl

theorem clean_log_drainFrom {log : List Entry} (units : List StreamUnit) (h : Clean log)
    (fuel : Nat) (s : Splitter) : Clean (drainFrom units log fuel s).log := by
  induction fuel generalizing units log s with
  | zero => exact h
  | succ fuel ih =>
    have hlog : Clean (log ++ s.next.log) := clean_append.mpr ⟨h, s.clean_log_next⟩
    rw [drainFrom]
    split
    · exact ih _ hlog _
    · exact hlog

theorem clean_log_splitChunks (chunks : List (List UInt8)) : Clean (splitChunks chunks).log := by
  have hdrain (s : Splitter) : Clean s.drain.log := clean_log_drainFrom _ clean_nil _ _
  have hfed (fed : Drained) (h : Clean fed.log) : Clean (chunks.foldl feed fed).log := by
    induction chunks generalizing fed with
    | nil => exact h
    | cons chunk chunks ih => exact ih _ (clean_append.mpr ⟨h, hdrain _⟩)
  exact clean_append.mpr ⟨hfed _ clean_nil, hdrain _⟩

end Splitter

end ClosedCaptions
