import ClosedCaptions.Caption.Decoder
import ClosedCaptions.Proofs.Caption.Reaping
import Mathlib.Data.List.Forall2

/-!
# Packets of byte pairs

Decoding packets is applying the pairs of those that the decoder takes. A pair sent in a packet of
field 1 with odd parity is the pair that it applies, and in real time every text that the pairs reap
is given out at once, as a cue without a duration.
-/

namespace ClosedCaptions

/-! ## Odd parity -/

namespace Parity

theorem testBit_top (i : Nat) : (0x80 : UInt8).toNat.testBit i = decide (i = 7) := by
  have htop : (0x80 : UInt8).toNat = 2 ^ 7 := rfl
  rw [htop, Nat.testBit_two_pow]
  simp only [eq_comm]

theorem testBit_strip (byte : UInt8) (i : Nat) :
    (strip byte).toNat.testBit i = (byte.toNat.testBit i && decide (i < 7)) := by
  have hmask : (0x7F : UInt8).toNat.testBit i = decide (i < 7) := Nat.testBit_two_pow_sub_one 7 i
  rw [strip, UInt8.toNat_and, Nat.testBit_and, hmask]

/-- The top bit turns the parity around. -/
theorem isOdd_or_top {byte : UInt8} (h : byte.toNat.testBit 7 = false) :
    isOdd (byte ||| 0x80) = !isOdd byte := by
  have hrange : List.range 8 = [0, 1, 2, 3, 4, 5, 6, 7] := rfl
  simp only [isOdd, hrange, List.foldl, UInt8.toNat_or, Nat.testBit_or, testBit_top, h]
  simp

theorem isOdd_encode (byte : UInt8) : isOdd (encode byte) = true := by
  unfold encode
  split
  · assumption
  · next h =>
    have htop : (strip byte).toNat.testBit 7 = false := by simp [testBit_strip]
    rw [isOdd_or_top htop, Bool.eq_false_iff.mpr h]
    rfl

theorem strip_encode (byte : UInt8) : strip (encode byte) = strip byte := by
  apply UInt8.toNat_inj.mp
  apply Nat.eq_of_testBit_eq
  intro i
  unfold encode
  split
  · simp [testBit_strip]
  · rw [testBit_strip, UInt8.toNat_or, Nat.testBit_or, testBit_strip, testBit_top]
    by_cases h : i < 7
    · have hne : i ≠ 7 := Nat.ne_of_lt h
      simp [h, hne]
    · simp [h]

theorem strip_of_lt {byte : UInt8} (h : byte < 0x80) : strip byte = byte := by
  have hmod : byte.toNat &&& 127 = byte.toNat % 128 := Nat.and_two_pow_sub_one_eq_mod byte.toNat 7
  apply UInt8.toNat_inj.mp
  rw [strip, UInt8.toNat_and]
  exact hmod.trans (Nat.mod_eq_of_lt h)

end Parity

/-! ## Packets -/

/-- A pair that packets of field 1 bring to the decoder: seven bits each, and not the padding. -/
structure IsSendable (pair : UInt8 × UInt8) : Prop where
  first_lt : pair.1 < 0x80
  second_lt : pair.2 < 0x80
  first_ne_zero : pair.1 ≠ 0

namespace Triple

/-- The pair that the decoder applies, if it takes the packet. -/
def pair? (t : Triple) : Option (UInt8 × UInt8) :=
  match t.check with
  | (none, checked) => if checked.type = 1 then none else some (checked.first, checked.second)
  | (some _, _) => none

@[simp]
theorem marker_repair (t : Triple) : t.repair.marker = t.marker := by
  unfold repair
  split <;> rfl

/-- The packet holds a pair of field 1 with odd parity. -/
structure Carries (t : Triple) (pair : UInt8 × UInt8) : Prop where
  isValid : t.isValid = true
  type_eq : t.type = 0
  first_eq : t.first = Parity.encode pair.1
  second_eq : t.second = Parity.encode pair.2

/-- A packet for a pair. -/
def ofPair (pair : UInt8 × UInt8) : Triple :=
  ⟨0xFC, Parity.encode pair.1, Parity.encode pair.2⟩

theorem carries_ofPair (pairs : List (UInt8 × UInt8)) :
    List.Forall₂ Carries (pairs.map ofPair) pairs := by
  rw [List.forall₂_map_left_iff, List.forall₂_same]
  intro pair _
  have hvalid : (0xFC : UInt8).toNat.testBit 2 = true := by decide
  have htype : (0xFC : UInt8).toNat % 4 = 0 := by decide
  exact ⟨hvalid, htype, rfl, rfl⟩

def bytes (t : Triple) : List UInt8 :=
  [t.marker, t.first, t.second]

theorem split_flatMap_bytes_append (ts : List Triple) (rest : List UInt8) :
    split (ts.flatMap bytes ++ rest) = (ts ++ (split rest).1, (split rest).2) := by
  induction ts with
  | nil => rfl
  | cons t ts ih =>
    have hcons : (t :: ts).flatMap bytes ++ rest =
        t.marker :: t.first :: t.second :: (ts.flatMap bytes ++ rest) := rfl
    rw [hcons, split, ih]
    rfl

theorem split_flatMap_bytes (ts : List Triple) : split (ts.flatMap bytes) = (ts, 0) := by
  have hsplit := split_flatMap_bytes_append ts []
  have hnil : split [] = ([], 0) := rfl
  rwa [hnil, List.append_nil, List.append_nil] at hsplit

/-- The check takes the parity off and nothing else. -/
theorem Carries.check_eq {t : Triple} {pair : UInt8 × UInt8} (h : t.Carries pair)
    (hpair : IsSendable pair) : t.check = (none, ⟨t.marker, pair.1, pair.2⟩) := by
  have hfirst : Parity.strip t.first = pair.1 := by
    rw [h.first_eq, Parity.strip_encode, Parity.strip_of_lt hpair.first_lt]
  have hsecond : Parity.strip t.second = pair.2 := by
    rw [h.second_eq, Parity.strip_encode, Parity.strip_of_lt hpair.second_lt]
  have hoddFirst : Parity.isOdd t.first = true := by rw [h.first_eq, Parity.isOdd_encode]
  have hoddSecond : Parity.isOdd t.second = true := by rw [h.second_eq, Parity.isOdd_encode]
  have hline : t.isLine21 = true := by simp [isLine21, h.type_eq]
  have hrepair : t.repair = t := by simp [repair, hoddFirst]
  have hpadding : t.isPadding = false := by simp [isPadding, hfirst, hpair.first_ne_zero]
  unfold check
  simp [h.isValid, hoddSecond, hrepair, hpadding, hline, strip, hfirst, hsecond]

theorem Carries.pair?_eq {t : Triple} {pair : UInt8 × UInt8} (h : t.Carries pair)
    (hpair : IsSendable pair) : t.pair? = some pair := by
  have htype : type ⟨t.marker, pair.1, pair.2⟩ = 0 := h.type_eq
  rw [pair?, h.check_eq hpair]
  simp [htype]

theorem filterMap_pair?_of_carries {ts : List Triple} {pairs : List (UInt8 × UInt8)}
    (h : List.Forall₂ Carries ts pairs) (hpairs : ∀ pair ∈ pairs, IsSendable pair) :
    ts.filterMap pair? = pairs := by
  induction h with
  | nil => rfl
  | cons hcarries _ ih =>
    rw [List.forall_mem_cons] at hpairs
    rw [List.filterMap_cons_some (hcarries.pair?_eq hpairs.1), ih hpairs.2]

end Triple

/-! ## Decoding pairs -/

namespace Decoder

open Procedure

variable {d : Decoder}

/-- Change the context, and turn the screen into a cue if one was reaped. -/
def applying (time : Int64) (change : Procedure Context Unit) : Procedure Decoder (List Cue) := do
  focus Decoder.context (fun c d ↦ { d with context := c }) change
  let d ← get
  if d.context.reaped then
    modify fun _ ↦ (emit time d).2
    return (emit time d).1.toList
  else
    return []

def decodePair (time : Int64) (pair : UInt8 × UInt8) : Procedure Decoder (List Cue) :=
  applying time (Context.processPair pair.1 pair.2)

theorem effect_applying (time : Int64) (change : Procedure Context Unit) (d : Decoder) :
    (applying time change).effect d =
      match change.effect d.context with
      | (.error e, c) => (.error e, { d with context := c })
      | (.ok _, c) =>
        if c.reaped then
          (.ok (emit time { d with context := c }).1.toList, (emit time { d with context := c }).2)
        else (.ok [], { d with context := c }) := by
  unfold applying
  rcases hchange : change.effect d.context with ⟨e | _, c⟩
  · have hfocus : (focus Decoder.context (fun c (d : Decoder) ↦ { d with context := c })
        change).effect d = (.error e, { d with context := c }) := by
      rw [effect_focus, hchange]
    rw [effect_bind_error hfocus]
  · have hfocus : (focus Decoder.context (fun c (d : Decoder) ↦ { d with context := c })
        change).effect d = (.ok (), { d with context := c }) := by
      rw [effect_focus, hchange]
    rw [effect_bind_ok hfocus, effect_get_bind]
    dsimp only
    split
    · rw [effect_modify_bind, effect_pure]
    · rw [effect_pure]

/-- The pairs that the decoder applies, of all packets in the bytes. -/
def acceptedPairs (bytes : List UInt8) : List (UInt8 × UInt8) :=
  (Triple.split bytes).1.filterMap Triple.pair?

theorem decodeTriple_of_some {packet : Triple} {pair : UInt8 × UInt8}
    (h : packet.pair? = some pair) (time : Int64) :
    Option.toList <$> decodeTriple time packet = decodePair time pair := by
  unfold Triple.pair? at h
  unfold decodeTriple decodePair applying
  rcases hcheck : packet.check with ⟨_ | problem, checked⟩ <;> rw [hcheck] at h
  · dsimp only at h ⊢
    split at h
    · contradiction
    · next htype =>
      obtain rfl := Option.some.inj h
      rw [if_neg htype, map_bind]
      congr 1
      funext _
      rw [map_bind]
      congr 1
      funext d
      split
      · rw [map_bind]
        rfl
      · rfl
  · contradiction

theorem effect_decodeTriple_of_none {packet : Triple} (h : packet.pair? = none) (time : Int64)
    (d : Decoder) : (decodeTriple time packet).effect d = (.ok none, d) := by
  unfold Triple.pair? at h
  unfold decodeTriple
  rcases hcheck : packet.check with ⟨_ | problem, checked⟩ <;> rw [hcheck] at h
  · dsimp only at h ⊢
    split at h
    · next htype => rw [if_pos htype, effect_pure]
    · contradiction
  · rfl

theorem effect_decodeTriples (time : Int64) (packets : List Triple) (d : Decoder) :
    (decodeTriples time packets).effect d =
      (gather (decodePair time) (packets.filterMap Triple.pair?)).effect d := by
  unfold decodeTriples
  induction packets generalizing d with
  | nil => rfl
  | cons packet packets ih =>
    rw [gather_cons]
    cases hpair : packet.pair? with
    | none =>
      have hskip : (Option.toList <$> decodeTriple time packet).effect d = (.ok [], d) := by
        rw [effect_map, effect_decodeTriple_of_none hpair]
        rfl
      rw [List.filterMap_cons_none hpair, effect_bind_ok hskip, effect_map, ih]
      rcases (gather (decodePair time) (packets.filterMap Triple.pair?)).effect d with ⟨_ | _, _⟩
      · rfl
      · rfl
    | some pair =>
      rw [List.filterMap_cons_some hpair, gather_cons, decodeTriple_of_some hpair]
      apply effect_bind_congr rfl
      intro found d
      rw [effect_map, effect_map, ih]

/-- Bytes that make no whole packet do nothing. -/
theorem effect_decode_eq (bytes : List UInt8) (time : Int64) (d : Decoder) :
    (decode bytes time).effect d = (decodeTriples time (Triple.split bytes).1).effect d := by
  unfold decode
  dsimp only
  split
  · rw [effect_log_bind]
  · rfl

/-- Decoding bytes is applying the pairs that are accepted. -/
theorem effect_decode (bytes : List UInt8) (time : Int64) (d : Decoder) :
    (decode bytes time).effect d = (gather (decodePair time) (acceptedPairs bytes)).effect d := by
  rw [effect_decode_eq, effect_decodeTriples, acceptedPairs]

/-! ## Real time -/

/-- The cue of a text given out in real time. -/
def cueAt (time : Int64) (text : String) : Cue :=
  ⟨text, time, none⟩

theorem emit_realTime (h : d.realTime = true) (time : Int64) :
    d.emit time = (some (cueAt time d.context.buffer),
      { d with context := { d.context with reaped := false } }) :=
  if_pos h

theorem effect_decodePair_realTime (h : d.realTime = true) (time : Int64) (pair : UInt8 × UInt8) :
    (decodePair time pair).effect d =
      (((Context.reapPair pair).effect d.context).1.map (List.map (cueAt time)),
        { d with context := ((Context.reapPair pair).effect d.context).2 }) := by
  rw [decodePair, effect_applying, Context.reapPair]
  rcases hprocess : (Context.processPair pair.1 pair.2).effect d.context with ⟨e | _, c⟩
  · rw [effect_bind_error hprocess]
    rfl
  · rw [effect_bind_ok hprocess, effect_get_bind]
    have hput : Decoder.realTime { d with context := c } = true := h
    have hemit := emit_realTime hput time
    by_cases hreaped : c.reaped = true
    · simp [hreaped, hemit, Except.map]
    · simp [hreaped, Except.map]

/-- In real time pairs give out what they reap. -/
theorem effect_gather_decodePair_realTime (h : d.realTime = true) (time : Int64)
    (pairs : List (UInt8 × UInt8)) :
    (gather (decodePair time) pairs).effect d =
      (((Context.reapPairs pairs).effect d.context).1.map (List.map (cueAt time)),
        { d with context := ((Context.reapPairs pairs).effect d.context).2 }) := by
  have hstep : ∀ d : Decoder, d.realTime = true → ∀ pair, (decodePair time pair).effect d =
      (List.map (cueAt time) <$> focus context (fun c d ↦ { d with context := c })
        (Context.reapPair pair)).effect d :=
    fun _ hd pair ↦ effect_decodePair_realTime hd time pair
  exact effect_gather_focus hstep (fun _ _ hd ↦ hd) (fun _ ↦ rfl) (fun _ _ ↦ rfl)
    (fun _ _ _ ↦ rfl) pairs h

/-- In real time decoding gives out what the pairs reap. -/
theorem effect_decode_of_carries (hrealTime : d.realTime = true) {packets : List Triple}
    {pairs : List (UInt8 × UInt8)} (hpackets : List.Forall₂ Triple.Carries packets pairs)
    (hpairs : ∀ pair ∈ pairs, IsSendable pair) (time : Int64) :
    (decode (packets.flatMap Triple.bytes) time).effect d =
      (((Context.reapPairs pairs).effect d.context).1.map (List.map (cueAt time)),
        { d with context := ((Context.reapPairs pairs).effect d.context).2 }) := by
  rw [effect_decode, acceptedPairs, Triple.split_flatMap_bytes,
    Triple.filterMap_pair?_of_carries hpackets hpairs, effect_gather_decodePair_realTime hrealTime]

end Decoder

end ClosedCaptions
