import ClosedCaptions.Proofs.Effect
import ClosedCaptions.Proofs.Stream.Splitter

/-!
# Delivery of units

Units are handed over as soon as they are released, between one chunk and the next. The effect is
that of handing over the units of the whole stream in turn: a failure comes at the same unit, after
the same units before it, however the stream was cut into chunks.
-/

namespace ClosedCaptions

open Procedure

variable {σ : Type}

namespace Splitter

theorem effect_deliverFrom (f : StreamUnit → Procedure σ Unit) (fuel : Nat) (s : Splitter)
    (t : σ) :
    (deliverFrom f fuel s).effect t =
      (each f (drainFrom [] [] fuel s).units >>= fun _ ↦
        pure (drainFrom [] [] fuel s).splitter).effect t := by
  induction fuel generalizing s t with
  | zero => rfl
  | succ fuel ih =>
    rw [deliverFrom, effect_bind_ok (effect_each_log _ _), drainFrom]
    cases s.next.item with
    | unit unit =>
      dsimp only
      rw [drainFrom_eq, List.reverse_singleton, List.singleton_append, each_cons, bind_assoc]
      exact effect_bind_congr rfl fun _ u ↦ ih s.next.splitter u
    | insufficient | exhausted => rfl

/-- Handing over while draining is draining and then handing over. -/
theorem effect_deliver (f : StreamUnit → Procedure σ Unit) (s : Splitter) (t : σ) :
    (s.deliver f).effect t =
      (each f s.drain.units >>= fun _ ↦ pure s.drain.splitter).effect t :=
  effect_deliverFrom f _ s t

end Splitter

theorem effect_fold_feed (f : StreamUnit → Procedure σ Unit) (fed : Feeding)
    (chunks : List (List UInt8)) (t : σ) :
    (fold (Feeding.feed f) fed chunks).effect t =
      (each f (chunks.foldl Splitter.feed ⟨[], fed.splitter, []⟩).units >>= fun _ ↦
        pure (Feeding.mk (chunks.foldl Splitter.feed ⟨[], fed.splitter, []⟩).splitter
          (fed.size + chunks.flatten.length))).effect t := by
  induction chunks generalizing fed t with
  | nil => rfl
  | cons chunk chunks ih =>
    have hdeliver := (fed.splitter.push chunk).effect_deliver f t
    rw [fold_cons, Feeding.feed, bind_assoc, effect_bind_congr hdeliver fun _ _ ↦ rfl, bind_assoc]
    rw [List.foldl_cons, Splitter.foldl_feed_eq]
    dsimp only
    rw [each_append, bind_assoc]
    apply effect_bind_congr
    · rfl
    · intro _ u
      simp only [pure_bind, ih, List.flatten_cons, List.length_append, Nat.add_assoc]
      rfl

theorem effect_forEachUnit (f : StreamUnit → Procedure σ Unit) (chunks : List (List UInt8))
    (t : σ) :
    (forEachUnit chunks f).effect t =
      (each f (Splitter.splitChunks chunks).units >>= fun _ ↦
        pure chunks.flatten.length).effect t := by
  rw [forEachUnit, effect_bind_congr (effect_fold_feed f _ chunks t) fun _ _ ↦ rfl, bind_assoc,
    Splitter.splitChunks, each_append, bind_assoc]
  apply effect_bind_congr
  · rfl
  · intro _ u
    rw [pure_bind, effect_bind_congr (Splitter.effect_deliver f _ u) fun _ _ ↦ rfl, bind_assoc]
    apply effect_bind_congr
    · rfl
    · intro _ v
      rw [pure_bind, effect_log_bind, Nat.zero_add]

/-- Every unit of the whole stream is handed over once and in order, up to the first failure, and
the length of the stream is returned. -/
theorem forEachUnit_delivers (chunks : List (List UInt8)) (f : StreamUnit → Procedure σ Unit)
    (s : σ) :
    (∀ n t, (forEachUnit chunks f).effect s = (.ok n, t) ↔
      (each f (unitSplit chunks.flatten)).effect s = (.ok (), t) ∧ n = chunks.flatten.length) ∧
    ∀ e t, (forEachUnit chunks f).effect s = (.error e, t) ↔
      ∃ k unit u, (unitSplit chunks.flatten)[k]? = some unit ∧
        (each f ((unitSplit chunks.flatten).take k)).effect s = (.ok (), u) ∧
        (f unit).effect u = (.error e, t) := by
  rw [effect_forEachUnit, Splitter.units_splitChunks]
  constructor
  · intro n t
    rw [effect_bind_eq_ok_iff]
    constructor
    · intro ⟨_, _, heach, hpure⟩
      obtain ⟨hn, rfl⟩ := Prod.mk.inj hpure
      exact ⟨heach, (Except.ok.inj hn).symm⟩
    · intro ⟨heach, hn⟩
      rw [hn]
      exact ⟨(), t, heach, rfl⟩
  · intro e t
    rw [← effect_each_eq_error_iff]
    rcases heach : (each f (unitSplit chunks.flatten)).effect s with ⟨_ | _, u⟩
    · rw [effect_bind_error heach]
      simp
    · rw [effect_bind_ok heach]
      simp

end ClosedCaptions
