import ClosedCaptions.Command.Decode
import ClosedCaptions.Proofs.Related
import ClosedCaptions.Proofs.Stream.Delivery

/-!
# Presentations to related consumers

What a presentation does apart from its consumer does not depend on the consumer. So two consumers
that run in step on every packet still do so over a whole stream.
-/

namespace ClosedCaptions.Presentation

open Procedure

variable {σ τ : Type} {R E : σ → τ → Prop}

/-- The presentations differ only in their consumers, and those are related. -/
structure Same (R : σ → τ → Prop) (p : Presentation σ) (q : Presentation τ) : Prop where
  failLevel_eq : p.failLevel = q.failLevel
  frameRate_eq : p.frameRate = q.frameRate
  order_eq : p.order = q.order
  consumer : R p.consumer q.consumer

variable {p : Presentation σ} {q : Presentation τ}

namespace Same

theorem mono (h : Same R p q) (hRE : ∀ s t, R s t → E s t) : Same E p q :=
  { h with consumer := hRE _ _ h.consumer }

theorem rate_eq (h : Same R p q) : p.rate = q.rate := by
  unfold rate
  rw [h.frameRate_eq]

theorem related_modifyOrder (h : Same R p q) (f : DisplayOrder → DisplayOrder) :
    Related (Keeps (Same R)) (Same E) (modifyOrder f) (modifyOrder f) p q := by
  unfold modifyOrder
  apply related_modify
  exact ⟨rfl, { h with order_eq := congrArg f h.order_eq }⟩

theorem related_tolerate (h : Same R p q) (hRE : ∀ s t, R s t → E s t) (problem : Error) :
    Related (Keeps (Same R)) (Same E) (tolerate problem) (tolerate problem) p q := by
  unfold Presentation.tolerate
  apply related_get_bind
  rw [h.failLevel_eq]
  unfold Procedure.tolerate
  split
  · exact related_fail problem (h.mono hRE)
  · exact ⟨rfl, h⟩

theorem related_readHeader (h : Same R p q) (hRE : ∀ s t, R s t → E s t) (bytes : List UInt8) :
    Related (Keeps (Same R)) (Same E) (readHeader bytes) (readHeader bytes) p q := by
  unfold readHeader
  apply related_attempt_locally_bind
  intro result
  match result with
  | .error cause => exact h.related_tolerate hRE _
  | .ok header =>
    dsimp only
    split
    · apply related_log_bind
      apply related_modify
      exact ⟨rfl, { h with frameRate_eq := rfl }⟩
    · exact related_pure ⟨rfl, h⟩

theorem related_readPicture (h : Same R p q) (hRE : ∀ s t, R s t → E s t) (bytes : List UInt8) :
    Related (Keeps (Same R)) (Same E) (readPicture bytes) (readPicture bytes) p q := by
  unfold readPicture
  apply related_attempt_locally_bind
  intro result
  match result with
  | .error cause => exact h.related_tolerate hRE _
  | .ok header =>
    apply related_bind (h.related_modifyOrder _)
    intro _ p' _ q' hkept
    apply related_get_bind
    exact hkept

theorem related_readUserData (h : Same R p q) (hRE : ∀ s t, R s t → E s t) (bytes : List UInt8) :
    Related (Keeps (Same R)) (Same E) (readUserData bytes) (readUserData bytes) p q := by
  unfold readUserData
  apply related_attempt_locally_bind
  intro result
  match result with
  | .error cause => exact h.related_tolerate hRE _
  | .ok data =>
    dsimp only
    split
    · apply related_locally_bind (h.mono hRE)
      intro packets
      exact h.related_modifyOrder _
    · exact related_pure ⟨rfl, h⟩

end Same

variable (ticks : Nat → Float → Int64) {consume : List UInt8 → Int64 → Procedure σ Unit}
  {consume' : List UInt8 → Int64 → Procedure τ Unit}

section

variable (hconsume : ∀ packets time s t, R s t →
  Related (Keeps R) E (consume packets time) (consume' packets time) s t)

include hconsume

theorem Same.related_flush (h : Same R p q) :
    Related (Keeps (Same R)) (Same E) (flush ticks consume) (flush ticks consume') p q := by
  unfold flush
  apply related_get_bind
  apply related_bind (h.related_modifyOrder _)
  intro _ p' _ q' hcleared
  rw [h.order_eq, h.rate_eq]
  refine related_each ?_ _ hcleared.2
  intro due p'' q'' hsame
  apply related_focus
  refine (hconsume _ _ _ _ hsame.consumer).mono ?_ ?_
  · intro _ c _ c' hkept
    exact ⟨rfl, { hsame with consumer := hkept.2 }⟩
  · intro c c' hfailed
    exact { hsame with consumer := hfailed }

theorem Same.related_beginGroup (h : Same R p q) :
    Related (Keeps (Same R)) (Same E) (beginGroup ticks consume) (beginGroup ticks consume')
      p q := by
  unfold beginGroup
  apply related_bind (h.related_flush ticks hconsume)
  intro _ p' _ q' hflushed
  exact hflushed.2.related_modifyOrder _

variable (hRE : ∀ s t, R s t → E s t)

include hRE

theorem Same.related_readUnit (h : Same R p q) (unit : StreamUnit) :
    Related (Keeps (Same R)) (Same E) (readUnit ticks consume unit)
      (readUnit ticks consume' unit) p q := by
  unfold readUnit
  split
  · apply related_bind (h.related_beginGroup ticks hconsume)
    intro _ p' _ q' hbegun
    apply related_get_bind
    rw [hbegun.2.frameRate_eq]
    split
    · exact hbegun.2.related_readHeader hRE _
    · exact hbegun
  split
  · exact h.related_beginGroup ticks hconsume
  split
  · exact h.related_readPicture hRE _
  split
  · exact h.related_readUserData hRE _
  · exact related_pure ⟨rfl, h⟩

/-- Whole streams. -/
theorem Same.related_present (h : Same R p q) (bytes : List UInt8) :
    Related (Keeps (Same R)) (Same E) (present ticks consume bytes)
      (present ticks consume' bytes) p q := by
  have hunits (units : List StreamUnit) (n : Nat) :
      Related (Keeps (Same R)) (Same E)
        (each (readUnit ticks consume) units >>= fun _ ↦ pure n)
        (each (readUnit ticks consume') units >>= fun _ ↦ pure n) p q := by
    apply related_bind (related_each (fun unit _ _ hsame ↦
      hsame.related_readUnit ticks hconsume hRE unit) units h)
    intro _ p' _ q' hread
    exact ⟨rfl, hread.2⟩
  unfold present
  apply related_bind (related_congr (effect_forEachUnit _ _ _) (effect_forEachUnit _ _ _)
    (hunits _ _))
  intro _ p' _ q' hread
  apply related_bind (hread.2.related_flush ticks hconsume)
  intro _ p'' _ q'' hflushed
  apply related_get_bind
  refine ⟨?_, hflushed.2⟩
  rw [hflushed.2.order_eq, hflushed.2.rate_eq]

end

end ClosedCaptions.Presentation
