import ClosedCaptions.Caption.Context
import ClosedCaptions.Proofs.Ensures

/-!
# Reaped texts

Byte pairs applied in turn, with the text of every screen that one of them reaps. A run is put
together from shorter ones, and its texts from theirs.
-/

namespace ClosedCaptions.Context

open Procedure

/-- Apply a byte pair, and take the text if it reaped a screen. -/
def reapPair (pair : UInt8 × UInt8) : Procedure Context (List String) := do
  processPair pair.1 pair.2
  let c ← get
  if c.reaped then
    modify fun c ↦ { c with reaped := false }
    return [c.buffer]
  else
    return []

/-- The texts that byte pairs reap, in turn. -/
def reapPairs (pairs : List (UInt8 × UInt8)) : Procedure Context (List String) :=
  gather reapPair pairs

/-- From the contexts in `P` the pairs are applied without a failure, reap these texts, and leave a
context in `Q`. -/
def Reaps (P : Context → Prop) (pairs : List (UInt8 × UInt8)) (texts : List String)
    (Q : Context → Prop) : Prop :=
  Ensures P (reapPairs pairs) (fun found c ↦ found = texts ∧ Q c) fun _ ↦ False

variable {P Q R : Context → Prop} {pair : UInt8 × UInt8} {xs ys : List (UInt8 × UInt8)}
  {texts more : List String}

theorem reaps_nil (h : ∀ c, P c → Q c) : Reaps P [] [] Q :=
  ensures_pure fun c hc ↦ ⟨rfl, h c hc⟩

theorem Reaps.mono {P' Q' : Context → Prop} (h : Reaps P xs texts Q) (hP : ∀ c, P' c → P c)
    (hQ : ∀ c, Q c → Q' c) : Reaps P' xs texts Q' :=
  Ensures.mono h hP (fun _ c hc ↦ ⟨hc.1, hQ c hc.2⟩) fun _ hc ↦ hc

theorem Reaps.append (hxs : Reaps P xs texts Q) (hys : Reaps Q ys more R) :
    Reaps P (xs ++ ys) (texts ++ more) R := by
  apply ensures_gather_append hxs
  rintro _ c ⟨rfl, hc⟩
  refine Ensures.mono hys (fun _ h ↦ h) ?_ (fun _ h ↦ h) c hc
  rintro _ _ ⟨rfl, hrest⟩
  exact ⟨rfl, hrest⟩

/-- What a run does from one of its contexts. -/
theorem Reaps.effect_eq (h : Reaps P xs texts Q) {c : Context} (hc : P c) :
    ∃ d, (reapPairs xs).effect c = (.ok texts, d) ∧ Q d := by
  obtain ⟨found, d, heffect, rfl, hd⟩ := h.exists_ok (fun _ ↦ not_false) hc
  exact ⟨d, heffect, hd⟩

/-- A pair that leaves the mark of a reaped screen unset reaps nothing. -/
theorem reaps_nothing (h : Ensures P (processPair pair.1 pair.2)
    (fun _ c ↦ c.reaped = false ∧ Q c) fun _ ↦ False) : Reaps P [pair] [] Q := by
  apply ensures_gather_singleton
  apply h.bind
  intro _
  apply ensures_get_bind
  intro c hc
  rw [hc.1]
  exact ⟨rfl, hc.2⟩

/-- A pair that sets the mark reaps the text that is then in the buffer. -/
theorem reaps_text {text : String} (h : Ensures P (processPair pair.1 pair.2)
    (fun _ c ↦ c.reaped = true ∧ c.buffer = text ∧ Q { c with reaped := false }) fun _ ↦ False) :
    Reaps P [pair] [text] Q := by
  apply ensures_gather_singleton
  apply h.bind
  intro _
  apply ensures_get_bind
  intro c ⟨hreaped, hbuffer, hc⟩
  rw [if_pos hreaped, effect_modify_bind, effect_pure]
  exact ⟨congrArg (fun text ↦ [text]) hbuffer, hc⟩

end ClosedCaptions.Context
