import ClosedCaptions.Proofs.Caption.Packet

/-!
# Packing

Nothing but the accepted pairs and their order decides what decoding gives and leaves. Packets may
be handed over in one call or in several at the same time, packets that are skipped may stand
anywhere between them, and bytes that make no whole packet may follow. A failure comes at the same
pair, so nothing behind it is decoded either way.
-/

namespace ClosedCaptions

namespace Triple

/-- The check refuses the packet, or the packet is of field 2. -/
def IsSkipped (t : Triple) : Prop :=
  t.check.1.isSome ∨ t.type = 1

instance (t : Triple) : Decidable t.IsSkipped :=
  inferInstanceAs (Decidable (_ ∨ _))

@[simp]
theorem marker_check (t : Triple) : t.check.2.marker = t.marker := by
  unfold check
  split
  · rfl
  split
  · rfl
  dsimp only
  split
  · exact t.marker_repair
  · exact t.marker_repair

theorem pair?_eq_none_iff_isSkipped {t : Triple} : t.pair? = none ↔ t.IsSkipped := by
  have htype : t.check.2.type = t.type := congrArg (fun marker ↦ marker.toNat % 4) t.marker_check
  unfold pair? IsSkipped
  rcases hcheck : t.check with ⟨_ | problem, checked⟩ <;> rw [hcheck] at htype
  · simp [htype]
  · simp

/-- Bytes that fall into threes are packets. -/
theorem exists_flatMap_bytes_eq {xs : List UInt8} (h : 3 ∣ xs.length) :
    ∃ packets : List Triple, packets.flatMap bytes = xs := by
  induction xs using split.induct with
  | case1 a b c rest _ _ _ ih =>
    have hrest : 3 ∣ rest.length := by
      simp only [List.length_cons] at h
      omega
    obtain ⟨packets, rfl⟩ := ih hrest
    exact ⟨⟨a, b, c⟩ :: packets, rfl⟩
  | case2 rest hshort =>
    match rest with
    | [] => exact ⟨[], rfl⟩
    | [_] | [_, _] => simp at h
    | a :: b :: c :: more => exact absurd rfl (hshort a b c more)

theorem dvd_length_flatMap_bytes (packets : List Triple) :
    3 ∣ (packets.flatMap bytes).length := by
  induction packets with
  | nil => exact Nat.dvd_zero 3
  | cons packet packets ih =>
    rw [List.flatMap_cons, List.length_append]
    exact Nat.dvd_add (Nat.dvd_refl 3) ih

theorem split_eq_of_short {xs : List UInt8} (h : xs.length < 3) : split xs = ([], xs.length) := by
  match xs with
  | [] | [_] | [_, _] => rfl
  | a :: b :: c :: rest =>
    simp only [List.length_cons] at h
    omega

end Triple

namespace Decoder

open Procedure

variable {d : Decoder} {bytes more : List UInt8} {packets : List Triple}

/-! ## Accepted pairs -/

theorem acceptedPairs_append (h : 3 ∣ bytes.length) (more : List UInt8) :
    acceptedPairs (bytes ++ more) = acceptedPairs bytes ++ acceptedPairs more := by
  obtain ⟨packets, rfl⟩ := Triple.exists_flatMap_bytes_eq h
  unfold acceptedPairs
  rw [Triple.split_flatMap_bytes_append, Triple.split_flatMap_bytes, List.filterMap_append]

theorem acceptedPairs_of_isSkipped (h : ∀ packet ∈ packets, packet.IsSkipped) :
    acceptedPairs (packets.flatMap Triple.bytes) = [] := by
  rw [acceptedPairs, Triple.split_flatMap_bytes, List.filterMap_eq_nil_iff]
  intro packet hpacket
  exact Triple.pair?_eq_none_iff_isSkipped.mpr (h packet hpacket)

theorem acceptedPairs_of_short (h : bytes.length < 3) : acceptedPairs bytes = [] := by
  rw [acceptedPairs, Triple.split_eq_of_short h, List.filterMap_nil]

/-! ## Decoding in parts -/

theorem effect_decode_congr {bytes' : List UInt8} (h : acceptedPairs bytes = acceptedPairs bytes')
    (time : Int64) (d : Decoder) :
    (decode bytes time).effect d = (decode bytes' time).effect d := by
  rw [effect_decode, effect_decode, h]

/-- Two parts are decoded one after the other, the second only where the first succeeds. -/
theorem effect_decode_append (h : 3 ∣ bytes.length) (more : List UInt8) (time : Int64)
    (d : Decoder) :
    (decode (bytes ++ more) time).effect d = (do
      let found ← decode bytes time
      let others ← decode more time
      return found ++ others).effect d := by
  rw [effect_decode, acceptedPairs_append h, gather_append]
  refine (effect_bind_congr (effect_decode bytes time d) ?_).symm
  intro found d
  rw [bind_pure_comp, effect_map, effect_map, effect_decode]

/-- Any number of parts. -/
theorem effect_gather_decode {parts : List (List UInt8)} (h : ∀ part ∈ parts, 3 ∣ part.length)
    (time : Int64) (d : Decoder) :
    (gather (fun part ↦ decode part time) parts).effect d =
      (decode parts.flatten time).effect d := by
  induction parts generalizing d with
  | nil => rfl
  | cons part parts ih =>
    rw [List.forall_mem_cons] at h
    rw [gather_cons, List.flatten_cons, effect_decode_append h.1]
    apply effect_bind_congr rfl
    intro found d
    rw [bind_pure_comp, effect_map, effect_map, ih h.2]

/-- What decoding gives and leaves depends on the accepted pairs alone. So packets that are skipped
may be put in anywhere, bytes that make no packet may follow, and what is decoded in one call may be
decoded in several at the same time: the first failure then ends them all. -/
theorem decode_reads_accepted_pairs (d : Decoder) (time : Int64) :
    (∀ bytes bytes', acceptedPairs bytes = acceptedPairs bytes' →
      (decode bytes time).effect d = (decode bytes' time).effect d) ∧
    (∀ (front back : List UInt8) (skipped : List Triple), 3 ∣ front.length →
      (∀ packet ∈ skipped, packet.IsSkipped) →
      (decode (front ++ skipped.flatMap Triple.bytes ++ back) time).effect d =
        (decode (front ++ back) time).effect d) ∧
    (∀ bytes extra : List UInt8, 3 ∣ bytes.length → extra.length < 3 →
      (decode (bytes ++ extra) time).effect d = (decode bytes time).effect d) ∧
    (∀ bytes more : List UInt8, 3 ∣ bytes.length →
      (decode (bytes ++ more) time).effect d = (do
        let found ← decode bytes time
        let others ← decode more time
        return found ++ others).effect d) ∧
    ∀ parts : List (List UInt8), (∀ part ∈ parts, 3 ∣ part.length) →
      (decode parts.flatten time).effect d =
        (gather (fun part ↦ decode part time) parts).effect d := by
  refine ⟨fun _ _ h ↦ effect_decode_congr h time d, ?_, ?_, ?_, ?_⟩
  · intro front back skipped hfront hskipped
    have hlength := Triple.dvd_length_flatMap_bytes skipped
    apply effect_decode_congr
    rw [List.append_assoc, acceptedPairs_append hfront, acceptedPairs_append hlength,
      acceptedPairs_of_isSkipped hskipped, List.nil_append, acceptedPairs_append hfront]
  · intro bytes extra hbytes hextra
    apply effect_decode_congr
    rw [acceptedPairs_append hbytes, acceptedPairs_of_short hextra, List.append_nil]
  · exact fun _ more hbytes ↦ effect_decode_append hbytes more time d
  · exact fun _ hparts ↦ (effect_gather_decode hparts time d).symm

/-- A caption with packets of field 2 and of another service, a void one, one of wrong parity and
padding in front of its last packet, and a byte behind it. -/
theorem decode_interrupted_caption :
    let front := [Triple.ofPair (0x14, 0x20), Triple.ofPair (0x48, 0x69)].flatMap Triple.bytes
    let back := (Triple.ofPair (0x14, 0x2F)).bytes
    let skipped : List Triple := [⟨0xFD, 0x94, 0x20⟩, ⟨0xFE, 0x12, 0x34⟩, ⟨0xF8, 0x94, 0x20⟩,
      ⟨0xFC, 0x94, 0xA0⟩, Triple.ofPair (0, 0)]
    let live := initial.setRealTime true
    let whole := (decode (front ++ back) 9).effect live
    3 ∣ front.length ∧ (∀ packet ∈ skipped, packet.IsSkipped) ∧
      whole.1.toOption = some [⟨"Hi", 9, none⟩] ∧
      (decode (front ++ skipped.flatMap Triple.bytes ++ back) 9).effect live = whole ∧
      (decode (front ++ back ++ [0xFC]) 9).effect live = whole ∧
      (decode ((Triple.ofPair (0, 0)).bytes ++ front ++ back) 9).effect live = whole ∧
      (do
        let found ← decode front 9
        let others ← decode back 9
        return found ++ others).effect live = whole ∧
      (gather (fun part ↦ decode part 9) [front, back]).effect live = whole := by
  intro front back skipped live whole
  obtain ⟨hpairs, hskip, hextra, happend, hparts⟩ := decode_reads_accepted_pairs live 9
  have hfront : 3 ∣ front.length := by decide
  have hskipped : ∀ packet ∈ skipped, packet.IsSkipped := by decide
  refine ⟨hfront, hskipped, by decide +kernel, hskip front back skipped hfront hskipped,
    hextra (front ++ back) [0xFC] (by decide) (by decide), hpairs _ _ (by decide),
    (happend front back hfront).symm, ?_⟩
  exact (hparts [front, back] (by decide)).symm

end Decoder

end ClosedCaptions
