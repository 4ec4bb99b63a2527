import ClosedCaptions.Filter.Sequence
import ClosedCaptions.Proofs.Sequence.Codec
import ClosedCaptions.Proofs.Sequence.FrameRate

/-!
# Changed records

The codes of the display aspect ratio and the frame rate share one byte of a sequence header, and
the scale of the frame rate shares one byte of a sequence extension with a flag. Applying a filter
to a record that was read and writing it back changes this byte and nothing else.
-/

namespace ClosedCaptions

/-! ## Numbers that share a byte -/

/-- Replace the part of a byte below `radix`, or the part above, or both. -/
def spliceByte (radix : Nat) (high? low? : Option Nat) (byte : UInt8) : UInt8 :=
  UInt8.ofNat (radix * high?.getD (byte.toNat / radix) + low?.getD (byte.toNat % radix))

theorem getD_lt {code? : Option Nat} {held bound : Nat} (h : ∀ code ∈ code?, code < bound)
    (hheld : held < bound) : code?.getD held < bound := by
  cases code? with
  | none => exact hheld
  | some code => exact h code rfl

section Splice

variable {radix count high low : Nat} {high? low? : Option Nat}

theorem splice_lt (hbyte : radix * count = 256) (hhigh : high < count) (hlow : low < radix) :
    radix * high + low < 256 :=
  calc
    radix * high + low < radix * high + radix := Nat.add_lt_add_left hlow _
    _ = radix * (high + 1) := (Nat.mul_succ radix high).symm
    _ ≤ radix * count := Nat.mul_le_mul_left radix hhigh
    _ = 256 := hbyte

theorem spliceByte_ofNat (hbyte : radix * count = 256) (hhigh : high < count)
    (hlow : low < radix) :
    spliceByte radix high? low? (UInt8.ofNat (radix * high + low)) =
      UInt8.ofNat (radix * high?.getD high + low?.getD low) := by
  have hlt : (UInt8.ofNat (radix * high + low)).toNat = radix * high + low :=
    UInt8.toNat_ofNat_of_lt' (splice_lt hbyte hhigh hlow)
  have hpos : 0 < radix := Nat.zero_lt_of_lt hlow
  rw [spliceByte, hlt, Nat.mul_add_div hpos, Nat.div_eq_of_lt hlow, Nat.add_zero, Nat.mul_add_mod,
    Nat.mod_eq_of_lt hlow]

/-- What was replaced once stays when it is replaced again. -/
theorem spliceByte_spliceByte (hbyte : radix * count = 256) (hhigh : ∀ v ∈ high?, v < count)
    (hlow : ∀ v ∈ low?, v < radix) (byte : UInt8) :
    spliceByte radix high? low? (spliceByte radix high? low? byte) =
      spliceByte radix high? low? byte := by
  have hpos : 0 < radix := by
    by_contra hzero
    simp [Nat.eq_zero_of_not_pos hzero] at hbyte
  have hdiv : byte.toNat / radix < count :=
    Nat.div_lt_of_lt_mul (hbyte ▸ byte.toNat_lt)
  have hmod : byte.toNat % radix < radix := Nat.mod_lt _ hpos
  have hagain : spliceByte radix high? low? byte =
      UInt8.ofNat (radix * high?.getD (byte.toNat / radix) + low?.getD (byte.toNat % radix)) := rfl
  rw [hagain, spliceByte_ofNat hbyte (getD_lt hhigh hdiv) (getD_lt hlow hmod)]
  cases high? <;> cases low? <;> rfl

end Splice

theorem aspectRatioCode_le (num den : Nat) : aspectRatioCode num den ≤ 4 := by
  rw [aspectRatioCode]
  generalize num / max (euclid num den) 1 = n
  generalize den / max (euclid num den) 1 = d
  split <;> decide

namespace SequenceFilter

/-! ## The two bytes -/

/-- What two terms are coded as, when they are set and neither of them is zero. -/
def ofTerms? (ratio : Option (Nat × Nat)) (code : Nat → Nat → Nat) : Option Nat :=
  match ratio with
  | some (num, den) => if num ≠ 0 ∧ den ≠ 0 then some (code num den) else none
  | none => none

/-- The code of the aspect ratio that is set. -/
def aspectCode? (f : SequenceFilter) : Option Nat :=
  ofTerms? f.aspectRatio aspectRatioCode

/-- The code of the frame rate that is set. -/
def rateCode? (f : SequenceFilter) : Option Nat :=
  ofTerms? f.frameRate fun num den ↦ (CodedRate.nearest num den).code

/-- The scale of the frame rate that is set, two bits and then five. -/
def scaleCode? (f : SequenceFilter) : Option Nat :=
  ofTerms? f.frameRate fun num den ↦
    2 ^ 5 * (CodedRate.nearest num den).n + (CodedRate.nearest num den).d

/-- The byte of a header that holds the codes: the aspect ratio above the frame rate. -/
def headerByte (f : SequenceFilter) (byte : UInt8) : UInt8 :=
  spliceByte (2 ^ 4) f.aspectCode? f.rateCode? byte

/-- The byte of an extension that holds the scale behind a flag. -/
def extensionByte (f : SequenceFilter) (byte : UInt8) : UInt8 :=
  spliceByte (2 ^ 7) none f.scaleCode? byte

variable {f : SequenceFilter}

/-- The terms that are coded are those that the filter uses. -/
theorem ofTerms?_eq_map (ratio : Option (Nat × Nat)) (code : Nat → Nat → Nat) :
    ofTerms? ratio code = (usable? ratio).map fun (num, den) ↦ code num den := by
  match ratio with
  | none => rfl
  | some (num, den) =>
    by_cases hnum : num = 0
    · simp [ofTerms?, usable?, hnum]
    · by_cases hden : den = 0 <;> simp [ofTerms?, usable?, hnum, hden]

theorem rateCode?_eq_map (f : SequenceFilter) :
    f.rateCode? = f.codedRate?.map CodedRate.code := by
  rw [rateCode?, ofTerms?_eq_map, codedRate?, Option.map_map]
  rfl

theorem scaleCode?_eq_map (f : SequenceFilter) :
    f.scaleCode? = f.codedRate?.map fun rate ↦ 2 ^ 5 * rate.n + rate.d := by
  rw [scaleCode?, ofTerms?_eq_map, codedRate?, Option.map_map]
  rfl

theorem lt_of_mem_aspectCode? : ∀ code ∈ f.aspectCode?, code < 2 ^ 4 := by
  intro code hcode
  rw [aspectCode?, ofTerms?_eq_map] at hcode
  obtain ⟨⟨num, den⟩, -, rfl⟩ := Option.map_eq_some_iff.mp hcode
  exact (aspectRatioCode_le num den).trans_lt (by decide)

theorem inRange_of_mem_codedRate? : ∀ rate ∈ f.codedRate?, rate.InRange := by
  intro rate hrate
  obtain ⟨⟨num, den⟩, hratio, rfl⟩ := Option.map_eq_some_iff.mp hrate
  obtain ⟨-, hterms⟩ := Option.filter_eq_some_iff.mp hratio
  simp only [Bool.and_eq_true, decide_eq_true_eq] at hterms
  exact CodedRate.inRange_nearest (Nat.pos_of_ne_zero hterms.1) (Nat.pos_of_ne_zero hterms.2)

theorem lt_of_mem_rateCode? : ∀ code ∈ f.rateCode?, code < 2 ^ 4 := by
  intro code hcode
  rw [rateCode?_eq_map] at hcode
  obtain ⟨rate, hrate, rfl⟩ := Option.map_eq_some_iff.mp hcode
  have hle := (inRange_of_mem_codedRate? rate hrate).code_le
  omega

theorem lt_of_mem_scaleCode? : ∀ code ∈ f.scaleCode?, code < 2 ^ 7 := by
  intro code hcode
  rw [scaleCode?_eq_map] at hcode
  obtain ⟨rate, hrate, rfl⟩ := Option.map_eq_some_iff.mp hcode
  have hn := (inRange_of_mem_codedRate? rate hrate).n_le
  have hd := (inRange_of_mem_codedRate? rate hrate).d_le
  omega

theorem headerByte_headerByte (byte : UInt8) :
    f.headerByte (f.headerByte byte) = f.headerByte byte :=
  spliceByte_spliceByte (show 2 ^ 4 * 2 ^ 4 = 256 by decide) lt_of_mem_aspectCode?
    lt_of_mem_rateCode? byte

theorem extensionByte_extensionByte (byte : UInt8) :
    f.extensionByte (f.extensionByte byte) = f.extensionByte byte :=
  spliceByte_spliceByte (show 2 ^ 7 * 2 = 256 by decide) (fun _ hv ↦ by cases hv)
    lt_of_mem_scaleCode? byte

/-! ## The two records -/

theorem toNat_getD_map_ofNat {code? : Option Nat} (h : ∀ code ∈ code?, code < 2 ^ 8)
    (held : UInt8) : ((code?.map UInt8.ofNat).getD held).toNat = code?.getD held.toNat := by
  cases code? with
  | none => rfl
  | some code => exact UInt8.toNat_ofNat_of_lt' (h code rfl)

section Header

variable {h : SequenceHeader} {data : List UInt8}

theorem applyToHeader_eq (f : SequenceFilter) (h : SequenceHeader) :
    f.applyToHeader h =
      { h with
        aspectRatio := (f.aspectCode?.map UInt8.ofNat).getD h.aspectRatio
        frameRateCode := (f.rateCode?.map UInt8.ofNat).getD h.frameRateCode } := by
  rw [applyToHeader, aspectCode?, ofTerms?_eq_map, rateCode?_eq_map]
  rcases usable? f.aspectRatio with _ | ⟨num, den⟩ <;> rcases f.codedRate? with _ | rate <;> rfl

theorem toNat_aspectRatio_applyToHeader (f : SequenceFilter) (h : SequenceHeader) :
    (f.applyToHeader h).aspectRatio.toNat = f.aspectCode?.getD h.aspectRatio.toNat := by
  rw [applyToHeader_eq]
  exact toNat_getD_map_ofNat (fun code h ↦ (lt_of_mem_aspectCode? code h).trans (by decide)) _

theorem toNat_frameRateCode_applyToHeader (f : SequenceFilter) (h : SequenceHeader) :
    (f.applyToHeader h).frameRateCode.toNat = f.rateCode?.getD h.frameRateCode.toNat := by
  rw [applyToHeader_eq]
  exact toNat_getD_map_ofNat (fun code h ↦ (lt_of_mem_rateCode? code h).trans (by decide)) _

theorem canonical_applyToHeader (hcanonical : h.Canonical) : (f.applyToHeader h).Canonical := by
  have haspect := getD_lt (lt_of_mem_aspectCode? (f := f)) hcanonical.aspectRatio
  have hrate := getD_lt (lt_of_mem_rateCode? (f := f)) hcanonical.frameRateCode
  rw [← toNat_aspectRatio_applyToHeader] at haspect
  rw [← toNat_frameRateCode_applyToHeader] at hrate
  rw [applyToHeader_eq] at haspect hrate ⊢
  exact ⟨hcanonical.horizontalSize, hcanonical.verticalSize, haspect, hrate, hcanonical.bitRate,
    hcanonical.vbvBufferSize⟩

theorem headerByte_codeBits (hcanonical : h.Canonical) :
    f.headerByte (UInt8.ofNat (Bits.toNat h.codeBits)) =
      UInt8.ofNat (Bits.toNat (f.applyToHeader h).codeBits) := by
  rw [hcanonical.toNat_codeBits, (canonical_applyToHeader hcanonical).toNat_codeBits, headerByte,
    spliceByte_ofNat (show 2 ^ 4 * 2 ^ 4 = 256 by decide) hcanonical.aspectRatio
      hcanonical.frameRateCode, toNat_aspectRatio_applyToHeader, toNat_frameRateCode_applyToHeader]

/-- The bits of the header that is written stand at the front once the byte is changed. -/
theorem prefix_headerByte (hcanonical : h.Canonical) (hbits : h.bits <+: Bits.ofBytes data) :
    (f.applyToHeader h).bits <+: Bits.ofBytes (data.modify 3 f.headerByte) := by
  have hprefix := Bits.prefix_ofBytes_modify h.length_sizeBits h.length_codeBits
    (f.applyToHeader h).length_codeBits (headerByte_codeBits hcanonical) hbits
  rw [applyToHeader_eq] at hprefix ⊢
  exact hprefix

end Header

section Extension

variable {e : SequenceExtension} {data : List UInt8}

theorem canonical_applyToExtension (hcanonical : e.Canonical) :
    (f.applyToExtension e).Canonical := by
  rw [applyToExtension]
  rcases hrate : f.codedRate? with _ | rate
  · exact hcanonical
  · obtain ⟨-, -, hn, hd⟩ := inRange_of_mem_codedRate? rate hrate
    have hn' : (UInt8.ofNat rate.n).toNat < 2 ^ 2 :=
      (Nat.mod_le _ _).trans_lt (Nat.lt_succ_of_le hn)
    have hd' : (UInt8.ofNat rate.d).toNat < 2 ^ 5 :=
      (Nat.mod_le _ _).trans_lt (Nat.lt_succ_of_le hd)
    exact ⟨hcanonical.chromaFormat, hcanonical.horizontalSize, hcanonical.verticalSize,
      hcanonical.bitRate, hn', hd'⟩

theorem scale_applyToExtension (f : SequenceFilter) (e : SequenceExtension) :
    2 ^ 5 * (f.applyToExtension e).frameRateN.toNat + (f.applyToExtension e).frameRateD.toNat =
      f.scaleCode?.getD (2 ^ 5 * e.frameRateN.toNat + e.frameRateD.toNat) := by
  rw [applyToExtension, scaleCode?_eq_map]
  rcases hrate : f.codedRate? with _ | rate
  · rfl
  · obtain ⟨-, -, hn, hd⟩ := inRange_of_mem_codedRate? rate hrate
    have hn' : (UInt8.ofNat rate.n).toNat = rate.n :=
      UInt8.toNat_ofNat_of_lt' (hn.trans_lt (by decide))
    have hd' : (UInt8.ofNat rate.d).toNat = rate.d :=
      UInt8.toNat_ofNat_of_lt' (hd.trans_lt (by decide))
    exact congrArg₂ (2 ^ 5 * · + ·) hn' hd'

theorem lowDelay_applyToExtension (f : SequenceFilter) (e : SequenceExtension) :
    (f.applyToExtension e).lowDelay = e.lowDelay := by
  rw [applyToExtension]
  rcases f.codedRate? with _ | rate <;> rfl

theorem formatBits_applyToExtension (f : SequenceFilter) (e : SequenceExtension) :
    (f.applyToExtension e).formatBits = e.formatBits := by
  rw [applyToExtension]
  rcases f.codedRate? with _ | rate <;> rfl

theorem extensionByte_scaleBits (hcanonical : e.Canonical) :
    f.extensionByte (UInt8.ofNat (Bits.toNat e.scaleBits)) =
      UInt8.ofNat (Bits.toNat (f.applyToExtension e).scaleBits) := by
  have hlow : 2 ^ 5 * e.frameRateN.toNat + e.frameRateD.toNat < 2 ^ 7 := by
    have hn := hcanonical.frameRateN
    have hd := hcanonical.frameRateD
    omega
  rw [hcanonical.toNat_scaleBits, (canonical_applyToExtension hcanonical).toNat_scaleBits,
    extensionByte, spliceByte_ofNat (show 2 ^ 7 * 2 = 256 by decide) e.lowDelay.toNat_lt hlow,
    scale_applyToExtension, lowDelay_applyToExtension]
  rfl

/-- The bits of the extension that is written stand at the front once the byte is changed. -/
theorem prefix_extensionByte (hcanonical : e.Canonical) (hbits : e.bits <+: Bits.ofBytes data) :
    (f.applyToExtension e).bits <+: Bits.ofBytes (data.modify 5 f.extensionByte) := by
  rw [SequenceExtension.bits, ← List.append_nil (SequenceExtension.scaleBits _)] at hbits ⊢
  have hprefix := Bits.prefix_ofBytes_modify e.length_formatBits e.length_scaleBits
    (f.applyToExtension e).length_scaleBits (extensionByte_scaleBits hcanonical) hbits
  rwa [formatBits_applyToExtension]

end Extension

end SequenceFilter

end ClosedCaptions
