import ClosedCaptions.Proofs.Layout.Engines

/-!
# Calls on a bit writer

A caller may go on after a call that failed. Such a call has changed nothing, so calls do the same
as those among them that succeed. The bits of these stand in the buffer as far as they fill bytes,
and no byte behind them has changed.
-/

namespace ClosedCaptions.Writer

open Procedure

/-- One bit, or a number as so many bits, from a type of so many bits. -/
inductive Call where
  | bit (value : Bool)
  | number (count typeWidth value : Nat)
  deriving DecidableEq, Repr

namespace Call

def perform : Call → Procedure Writer Unit
  | bit value => Writer.bit value
  | number count typeWidth value => put count typeWidth value

/-- What the call is to write. -/
def bits : Call → List Bool
  | bit value => [value]
  | number count _ value => Bits.ofNat count value

/-- Why a call fails. The room is looked at before the number. -/
inductive Refused (w : Writer) : Call → Error → Prop
  | room (call : Call) (hshort : w.available < call.bits.length) :
      Refused w call (.noRoom call.bits.length w.position w.capacity)
  | width {count typeWidth : Nat} (value : Nat) (hroom : count ≤ w.available)
      (hwidth : typeWidth < count) : Refused w (number count typeWidth value) .writeTooWide
  | value {count typeWidth value : Nat} (hroom : count ≤ w.available) (hwidth : count ≤ typeWidth)
      (hwide : 2 ^ count ≤ value) : Refused w (number count typeWidth value) .valueTooWide

/-- The number takes no more bits than it is written as, and these are no more than its type has. -/
def Fits : Call → Prop
  | bit _ => True
  | number count typeWidth value => count ≤ typeWidth ∧ value < 2 ^ count

theorem effect_number_cases (count typeWidth value : Nat) (w : Writer) :
    ((number count typeWidth value).Fits ∧ count ≤ w.available ∧
      (put count typeWidth value).effect w = (.ok (), w.append (Bits.ofNat count value))) ∨
    ∃ cause, Refused w (number count typeWidth value) cause ∧
      (put count typeWidth value).effect w = (.error cause, w) := by
  by_cases hroom : count ≤ w.available
  · by_cases hwidth : count ≤ typeWidth
    · by_cases hvalue : value < 2 ^ count
      · exact .inl ⟨⟨hwidth, hvalue⟩, hroom, effect_put hroom hwidth hvalue⟩
      · have hwide : Nat.pow 2 count ≤ value := Nat.not_lt.mp hvalue
        refine .inr ⟨_, .value hroom hwidth hwide, ?_⟩
        rw [put, effect_get_bind, if_neg (Nat.not_lt.mpr hroom), if_neg (Nat.not_lt.mpr hwidth),
          if_pos hwide, effect_fail]
    · refine .inr ⟨_, .width value hroom (Nat.not_le.mp hwidth), ?_⟩
      rw [put, effect_get_bind, if_neg (Nat.not_lt.mpr hroom), if_pos (Nat.not_le.mp hwidth),
        effect_fail]
  · have hshort : w.available < (number count typeWidth value).bits.length := by
      rw [bits, Bits.length_ofNat]
      exact Nat.not_le.mp hroom
    refine .inr ⟨_, .room _ hshort, ?_⟩
    rw [put, effect_get_bind, if_pos (Nat.not_le.mp hroom), effect_fail, bits, Bits.length_ofNat]

/-- A call writes its bits, or it is refused and changes nothing. -/
theorem effect_perform_cases (call : Call) (w : Writer) :
    (call.Fits ∧ call.bits.length ≤ w.available ∧
      call.perform.effect w = (.ok (), w.append call.bits)) ∨
    ∃ cause, Refused w call cause ∧ call.perform.effect w = (.error cause, w) := by
  cases call with
  | number count typeWidth value =>
    rw [bits, Bits.length_ofNat]
    exact effect_number_cases count typeWidth value w
  | bit value =>
    have hlt : value.toNat < 2 ^ 1 := value.toNat_lt
    rcases effect_number_cases 1 1 value.toNat w with
      ⟨_, hroom, hwritten⟩ | ⟨cause, hrefused, hfails⟩
    · rw [Field.ofNat_one_toNat] at hwritten
      exact .inl ⟨trivial, hroom, hwritten⟩
    · refine .inr ⟨cause, ?_, hfails⟩
      cases hrefused with
      | room _ hshort => exact .room (bit value) hshort
      | width _ hroom hwidth => exact absurd hwidth (Nat.lt_irrefl 1)
      | value hroom hwidth hwide => exact absurd hlt (Nat.not_lt.mpr hwide)

end Call

/-! ## Calls in turn -/

/-- Make calls in turn, whether or not they succeed, and tell how each of them went. -/
def performAll : List Call → Procedure Writer (List (Except Error Unit))
  | [] => return []
  | call :: calls => do
    let result ← call.perform.attempt
    let results ← performAll calls
    return result :: results

/-- The calls that went well. -/
def accepted (calls : List Call) (results : List (Except Error Unit)) : List Call :=
  ((calls.zip results).filter fun p ↦ p.2.isOk).map Prod.fst

/-- The calls did what those that went well do: they went well in the same way without the others,
and wrote their bits. -/
structure Performed (w : Writer) (calls : List Call) (results : List (Except Error Unit))
    (bits : List Bool) : Prop where
  effect_eq : (performAll calls).effect w = (.ok results, w.append bits)
  length_eq : results.length = calls.length
  bits_eq : (accepted calls results).flatMap Call.bits = bits
  effect_accepted :
    (performAll (accepted calls results)).effect w =
      (.ok (results.filter Except.isOk), w.append bits)
  room : bits.length ≤ w.available

theorem effect_performAll_cons {call : Call} {calls : List Call} {w t u : Writer}
    {result : Except Error Unit} {results : List (Except Error Unit)}
    (hfirst : call.perform.effect w = (result, t))
    (hrest : (performAll calls).effect t = (.ok results, u)) :
    (performAll (call :: calls)).effect w = (.ok (result :: results), u) := by
  have hattempt : call.perform.attempt.effect w = (.ok result, t) := by
    rw [effect_attempt, hfirst]
  rw [performAll, effect_bind_ok hattempt, effect_bind_ok hrest, effect_pure]

/-- Calls behind others go on from the writer that these leave. -/
theorem effect_performAll_append {before after : List Call} {w t u : Writer}
    {results later : List (Except Error Unit)}
    (hbefore : (performAll before).effect w = (.ok results, t))
    (hafter : (performAll after).effect t = (.ok later, u)) :
    (performAll (before ++ after)).effect w = (.ok (results ++ later), u) := by
  induction before generalizing w results with
  | nil =>
    rw [performAll, effect_pure] at hbefore
    obtain ⟨hresults, rfl⟩ := Prod.mk.inj hbefore
    rw [← Except.ok.inj hresults]
    exact hafter
  | cons call before ih =>
    obtain ⟨result, v, hfirst, hrest⟩ := effect_bind_eq_ok_iff.mp hbefore
    obtain ⟨more, x, hmore, hpure⟩ := effect_bind_eq_ok_iff.mp hrest
    obtain ⟨hresults, rfl⟩ := Prod.mk.inj hpure
    rw [effect_attempt] at hfirst
    obtain ⟨hresult, rfl⟩ := Prod.mk.inj hfirst
    rw [← Except.ok.inj hresults, ← Except.ok.inj hresult]
    exact effect_performAll_cons rfl (ih hmore)

theorem exists_performed (calls : List Call) (w : Writer) :
    ∃ results bits, Performed w calls results bits := by
  induction calls generalizing w with
  | nil =>
    have hnothing : (performAll []).effect w = (.ok [], w.append []) := by
      rw [append_nil, performAll, effect_pure]
    exact ⟨[], [], hnothing, rfl, rfl, hnothing, Nat.zero_le _⟩
  | cons call calls ih =>
    rcases call.effect_perform_cases w with ⟨_, hroom, hwritten⟩ | ⟨cause, _, hfails⟩
    · obtain ⟨results, bits, h⟩ := ih (w.append call.bits)
      have heffect := h.effect_eq
      have haccepted := h.effect_accepted
      have hmore := h.room
      rw [append_append] at heffect haccepted
      rw [available_append] at hmore
      refine ⟨.ok () :: results, call.bits ++ bits, effect_performAll_cons hwritten heffect, ?_, ?_,
        effect_performAll_cons hwritten haccepted, ?_⟩
      · rw [List.length_cons, h.length_eq, List.length_cons]
      · exact congrArg (call.bits ++ ·) h.bits_eq
      · rw [List.length_append]
        omega
    · obtain ⟨results, bits, h⟩ := ih w
      refine ⟨.error cause :: results, bits, effect_performAll_cons hfails h.effect_eq, ?_,
        h.bits_eq, h.effect_accepted, h.room⟩
      rw [List.length_cons, h.length_eq, List.length_cons]

/-- A call writes its bits, or it is refused, for want of room or because of its number, and changes
nothing: the calls behind it go on as if it had not been made. So calls leave the same writer as
those that went well. What is written and what is available always make up the buffer. As far as the
bits of the calls that went well fill bytes, they stand in the buffer, and nothing behind them has
changed. -/
theorem performAll_outcome (buffer : List UInt8) :
    (∀ (call : Call) (w : Writer),
      (call.Fits ∧ call.bits.length ≤ w.available ∧
        call.perform.effect w = (.ok (), w.append call.bits)) ∨
      ∃ cause, call.Refused w cause ∧ call.perform.effect w = (.error cause, w)) ∧
    (∀ before call after results w cause,
      (performAll before).effect (.ofBuffer buffer) = (.ok results, w) →
      (call.perform.effect w).1 = .error cause →
      ∃ later u, (performAll (before ++ after)).effect (.ofBuffer buffer) =
          (.ok (results ++ later), u) ∧
        (performAll (before ++ call :: after)).effect (.ofBuffer buffer) =
          (.ok (results ++ .error cause :: later), u)) ∧
    ∀ calls, ∃ results w,
      (performAll calls).effect (.ofBuffer buffer) = (.ok results, w) ∧
      results.length = calls.length ∧
      (performAll (accepted calls results)).effect (.ofBuffer buffer) =
        (.ok (results.filter Except.isOk), w) ∧
      w.position ≤ w.capacity ∧ w.position + w.available = 8 * buffer.length ∧
      let bits := (accepted calls results).flatMap Call.bits
      w.position = bits.length ∧
      Bits.ofBytes (w.contents.take (w.position / 8)) = bits.take (8 * (w.position / 8)) ∧
      w.contents.drop (w.position / 8) = buffer.drop (w.position / 8) := by
  refine ⟨Call.effect_perform_cases, fun before call after results w cause hbefore hcause ↦ ?_,
    fun calls ↦ ?_⟩
  · obtain ⟨later, bits, hlater⟩ := exists_performed after w
    have hsame : call.perform.effect w = (.error cause, w) := by
      rcases call.effect_perform_cases w with ⟨_, _, hwritten⟩ | ⟨other, _, hfails⟩
      · rw [hwritten] at hcause
        cases hcause
      · rw [hfails] at hcause
        rw [hfails, Except.error.inj hcause]
    exact ⟨later, _, effect_performAll_append hbefore hlater.effect_eq,
      effect_performAll_append hbefore (effect_performAll_cons hsame hlater.effect_eq)⟩
  · obtain ⟨results, bits, h⟩ := exists_performed calls (.ofBuffer buffer)
    have hroom : bits.length ≤ 8 * buffer.length := h.room
    have hposition : ((ofBuffer buffer).append bits).position = bits.length := Nat.add_zero _
    have havailable : ((ofBuffer buffer).append bits).available =
        8 * buffer.length - bits.length := available_append _ _
    have hlength : (Bits.toBytes bits).length = bits.length / 8 := Bits.length_toBytes_eq bits
    refine ⟨results, _, h.effect_eq, h.length_eq, h.effect_accepted, ?_, ?_, ?_⟩
    · rw [hposition]
      exact hroom
    · rw [hposition, havailable]
      omega
    · rw [h.bits_eq, hposition, Field.contents_append, List.take_left' hlength,
        List.drop_left' hlength, Bits.ofBytes_toBytes_eq_take]
      exact ⟨rfl, rfl, rfl⟩

/-- A number that finds no room, and one that does. -/
theorem performAll_out_of_room :
    let before : List Call := [.number 5 8 0x1F, .bit true, .number 2 8 0, .number 4 8 9]
    let refused : Call := .number 8 8 0
    let after : List Call := [.number 4 3 4, .number 4 8 4]
    ∃ w results later u, (performAll before).effect (.ofBuffer [0, 0]) = (.ok results, w) ∧
      (refused.perform.effect w).1 = .error (.noRoom 8 12 16) ∧
      (performAll (before ++ after)).effect (.ofBuffer [0, 0]) = (.ok (results ++ later), u) ∧
      (performAll (before ++ refused :: after)).effect (.ofBuffer [0, 0]) =
        (.ok (results ++ .error (.noRoom 8 12 16) :: later), u) ∧
      later = [.error .writeTooWide, .ok ()] ∧ u.contents = [0xFC, 0x94] := by
  intro before refused after
  obtain ⟨_, hlater, _⟩ := performAll_outcome [0, 0]
  obtain ⟨later, u, hwithout, hwith⟩ := hlater before refused after _ _ _ rfl rfl
  have hanswers : ((performAll (before ++ after)).effect (.ofBuffer [0, 0])).1 =
      .ok ([.ok (), .ok (), .ok (), .ok ()] ++ [.error .writeTooWide, .ok ()]) := rfl
  have hcontents : ((performAll (before ++ after)).effect (.ofBuffer [0, 0])).2.contents =
      [0xFC, 0x94] := rfl
  rw [hwithout] at hanswers hcontents
  exact ⟨_, _, later, u, rfl, rfl, hwithout, hwith,
    List.append_cancel_left (Except.ok.inj hanswers), hcontents⟩

end ClosedCaptions.Writer
