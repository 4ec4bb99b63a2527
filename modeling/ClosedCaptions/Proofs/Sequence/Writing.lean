import ClosedCaptions.Proofs.Sequence.Codec

/-!
# Written sequence headers

The buffer size and the flag at the end of a header reach into a byte that is not complete, and a
byte is stored only when all its bits are written. So writing a header stores its first seven bytes,
and the low bits of the buffer size and the flag stay as the buffer had them.
-/

namespace ClosedCaptions

namespace SequenceHeader

/-- The bits that fill whole bytes. -/
def storedBits (h : SequenceHeader) : List Bool :=
  h.sizeBits ++ (h.codeBits ++ (Bits.ofNat 18 h.bitRate.toNat ++ (Bits.ofNat 1 1 ++
    Bits.ofNat 5 (h.vbvBufferSize.toNat / 2 ^ 5))))

/-- The bits that are left over. -/
def lostBits (h : SequenceHeader) : List Bool :=
  Bits.ofNat 5 h.vbvBufferSize.toNat ++ [h.constrained]

/-- The header with the end that a byte gives it. -/
def endingIn (h : SequenceHeader) (last : UInt8) : SequenceHeader :=
  { h with
    vbvBufferSize := UInt16.ofNat (2 ^ 5 * (h.vbvBufferSize.toNat / 2 ^ 5) + last.toNat / 2 ^ 3)
    constrained := last.toNat.testBit 2 }

theorem length_storedBits (h : SequenceHeader) : h.storedBits.length = 8 * 7 := by
  simp [storedBits, sizeBits, codeBits]

theorem bits_eq_storedBits_append (h : SequenceHeader) : h.bits = h.storedBits ++ h.lostBits := by
  have hsize : Bits.ofNat 10 h.vbvBufferSize.toNat =
      Bits.ofNat 5 (h.vbvBufferSize.toNat / 2 ^ 5) ++ Bits.ofNat 5 h.vbvBufferSize.toNat :=
    Bits.ofNat_add 5 5 _
  simp only [bits, bufferBits, storedBits, lostBits, hsize, List.append_assoc]

theorem toBytes_bits (h : SequenceHeader) : Bits.toBytes h.bits = Bits.toBytes h.storedBits := by
  have hshort : Bits.toBytes h.lostBits = [] := Bits.toBytes_of_short (by simp [lostBits])
  rw [bits_eq_storedBits_append, Bits.toBytes_append_of_length h.length_storedBits, hshort,
    List.append_nil]

variable {h : SequenceHeader}

theorem Canonical.toNat_endingIn (hcanonical : h.Canonical) (last : UInt8) :
    (h.endingIn last).vbvBufferSize.toNat =
      2 ^ 5 * (h.vbvBufferSize.toNat / 2 ^ 5) + last.toNat / 2 ^ 3 := by
  have hsize := hcanonical.vbvBufferSize
  have hlast := last.toNat_lt
  apply UInt16.toNat_ofNat_of_lt'
  change _ < 2 ^ 16
  omega

theorem Canonical.endingIn (hcanonical : h.Canonical) (last : UInt8) :
    (h.endingIn last).Canonical := by
  have hsize := hcanonical.vbvBufferSize
  have hlast := last.toNat_lt
  have hnew : (h.endingIn last).vbvBufferSize.toNat < 2 ^ 10 := by
    rw [hcanonical.toNat_endingIn]
    omega
  exact ⟨hcanonical.horizontalSize, hcanonical.verticalSize, hcanonical.aspectRatio,
    hcanonical.frameRateCode, hcanonical.bitRate, hnew⟩

theorem Canonical.storedBits_endingIn (hcanonical : h.Canonical) (last : UInt8) :
    (h.endingIn last).storedBits = h.storedBits := by
  have hlast := last.toNat_lt
  have hhigh : (h.endingIn last).vbvBufferSize.toNat / 2 ^ 5 = h.vbvBufferSize.toNat / 2 ^ 5 := by
    rw [hcanonical.toNat_endingIn]
    omega
  rw [storedBits, storedBits, hhigh]
  rfl

/-- The end of the header is at the front of the byte. -/
theorem Canonical.lostBits_endingIn (hcanonical : h.Canonical) (last : UInt8) :
    (h.endingIn last).lostBits <+: Bits.ofNat 8 last.toNat := by
  have hlow : Bits.ofNat 5 (h.endingIn last).vbvBufferSize.toNat =
      Bits.ofNat 5 (last.toNat / 2 ^ 3) := by
    rw [hcanonical.toNat_endingIn, ← Bits.ofNat_mod_two_pow, Nat.mul_add_mod,
      Bits.ofNat_mod_two_pow]
  have hbyte : Bits.ofNat 8 last.toNat =
      Bits.ofNat 5 (last.toNat / 2 ^ 3) ++ Bits.ofNat 3 last.toNat := Bits.ofNat_add 5 3 _
  rw [lostBits, hlow, hbyte, List.prefix_append_right_inj]
  exact ⟨Bits.ofNat 2 last.toNat, rfl⟩

/-- What the seven stored bytes of a header and a last byte read as. -/
theorem Canonical.read_stored {σ : Type} (s : σ) (hcanonical : h.Canonical) (last : UInt8)
    (rest : List UInt8) :
    ((read (Bits.toBytes h.bits ++ last :: rest)).effect s).1 = .ok (h.endingIn last) := by
  refine read_eq_ok_iff.mpr ⟨hcanonical.endingIn last, ?_⟩
  rw [bits_eq_storedBits_append, hcanonical.storedBits_endingIn, toBytes_bits, Bits.ofBytes_append,
    Bits.ofBytes_toBytes h.length_storedBits, List.prefix_append_right_inj, Bits.ofBytes_cons]
  exact (hcanonical.lostBits_endingIn last).trans (List.prefix_append _ _)

theorem Canonical.endingIn_eq_iff (hcanonical : h.Canonical) (last : UInt8) :
    h.endingIn last = h ↔
      h.vbvBufferSize.toNat % 2 ^ 5 = last.toNat / 2 ^ 3 ∧
        h.constrained = last.toNat.testBit 2 := by
  have hnew := hcanonical.toNat_endingIn last
  have hdiv := Nat.div_add_mod h.vbvBufferSize.toNat (2 ^ 5)
  constructor
  · intro heq
    rw [heq] at hnew
    exact ⟨by omega, (congrArg constrained heq).symm⟩
  · intro ⟨hsize, hflag⟩
    have hsame : (h.endingIn last).vbvBufferSize = h.vbvBufferSize := by
      rw [← UInt16.toNat_inj, hnew, ← hsize, hdiv]
    obtain ⟨horizontalSize, verticalSize, aspectRatio, frameRateCode, bitRate, vbvBufferSize,
      constrained⟩ := h
    exact congrArg₂
      (SequenceHeader.mk horizontalSize verticalSize aspectRatio frameRateCode bitRate) hsame
      hflag.symm

/-- Writing a header over a buffer of eight bytes or more succeeds and stores its first seven bytes
alone. What reads back takes the low bits of the buffer size and the flag at the end from the eighth
byte of the buffer, so it is the header just when that byte held these bits before. -/
theorem write_stores_whole_bytes {σ : Type} (s : σ) (h : SequenceHeader) (buffer : List UInt8)
    (hcanonical : h.Canonical) (hroom : 8 ≤ buffer.length) :
    ∃ out, h.write.effect buffer = (.ok (), out) ∧ out.length = buffer.length ∧
      out.drop 7 = buffer.drop 7 ∧
      ((read out).effect s).1 = .ok (h.endingIn buffer[7]) ∧
      (((read out).effect s).1 = .ok h ↔
        h.vbvBufferSize.toNat % 2 ^ 5 = buffer[7].toNat / 2 ^ 3 ∧
          h.constrained = buffer[7].toNat.testBit 2) := by
  have hlength : (Bits.toBytes h.bits).length = 7 := by rw [Bits.length_toBytes_eq, length_bits]
  have hread : ((read (Bits.toBytes h.bits ++ buffer.drop 7)).effect s).1 =
      .ok (h.endingIn buffer[7]) := by
    rw [List.drop_eq_getElem_cons hroom]
    exact hcanonical.read_stored s _ _
  refine ⟨_, effect_write hcanonical hroom, ?_, List.drop_left' hlength, hread, ?_⟩
  · rw [List.length_append, hlength, List.length_drop]
    omega
  · rw [hread, Except.ok.injEq]
    exact hcanonical.endingIn_eq_iff _

/-- A header that gets another aspect ratio and another frame rate keeps its end. -/
theorem write_other_rate :
    let h : SequenceHeader := ⟨720, 480, 3, 3, 0x3FFFF, 112, false⟩
    (h.Canonical ∧ 8 ≤ [0x2D, 0x01, 0xE0, 0x24, 0xFF, 0xFF, 0xE3, 0x80, (0xAB : UInt8)].length) ∧
      ∃ out, h.write.effect [0x2D, 0x01, 0xE0, 0x24, 0xFF, 0xFF, 0xE3, 0x80, 0xAB] = (.ok (), out) ∧
        ((read out).effect ()).1 = .ok h := by
  have hcanonical : Canonical ⟨720, 480, 3, 3, 0x3FFFF, 112, false⟩ := by decide
  have hroom : 8 ≤ [0x2D, 0x01, 0xE0, 0x24, 0xFF, 0xFF, 0xE3, 0x80, (0xAB : UInt8)].length := by
    decide
  obtain ⟨out, hwrite, -, -, -, hread⟩ := write_stores_whole_bytes () _ _ hcanonical hroom
  exact ⟨⟨hcanonical, hroom⟩, out, hwrite, hread.mpr (by simp; decide)⟩

/-- A flag that is set does not reach the buffer. -/
theorem written_flag_is_lost :
    ¬ ∀ (h : SequenceHeader) (buffer : List UInt8), h.Canonical → 8 ≤ buffer.length →
      ∃ out, h.write.effect buffer = (.ok (), out) ∧ ((read out).effect ()).1 = .ok h ∧
        out.drop 8 = buffer.drop 8 := by
  intro hall
  obtain ⟨out, hwrite, hread, -⟩ :=
    hall ⟨0, 0, 0, 0, 0, 0, true⟩ (List.replicate 9 0) (by decide) (by decide)
  obtain rfl : [0, 0, 0, 0, 0, 0, 0x20, 0, 0] = out := congrArg Prod.snd hwrite
  have hblank : blank = ⟨0, 0, 0, 0, 0, 0, true⟩ := Except.ok.inj hread
  exact absurd hblank (by decide)

end SequenceHeader

end ClosedCaptions
