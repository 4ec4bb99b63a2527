import ClosedCaptions.Proofs.Layout.Codec
import ClosedCaptions.Proofs.Layout.Engines
import ClosedCaptions.Sequence.Extension
import ClosedCaptions.Sequence.Header

/-!
# The encoding of sequence headers and extensions

The fields of a sequence header take 62 bits, those of a sequence extension 48. Reading accepts the
canonical records whose bits stand in front. Writing stores the complete bytes alone, so the last
six bits of a header never reach the buffer.
-/

namespace ClosedCaptions

open Layout Procedure

/-! ## Records over byte strings -/

namespace Layout.Codes

variable {σ α : Type} {layout : α → Layout α} {Canonical : α → Prop} {encode : α → List Bool}

theorem read_bytes_eq_ok_iff (h : Codes layout Canonical encode) (before : α) {a : α} {s : σ}
    {bytes : List UInt8} :
    ((locally (Reader.ofBytes bytes) (layout before).read : Procedure σ α).effect s).1 = .ok a ↔
      Canonical a ∧ encode a <+: Bits.ofBytes bytes :=
  h.read_eq_ok_iff before

/-- Writing stores the complete bytes and leaves what stands behind them. -/
theorem effect_overwriting (h : Codes layout Canonical encode) {a : α} {buffer : List UInt8}
    (ha : Canonical a) (hroom : (encode a).length ≤ 8 * buffer.length) :
    (overwriting (do let _ ← (layout a).write; return)).effect buffer =
      (.ok (), Bits.toBytes (encode a) ++ buffer.drop ((encode a).length / 8)) := by
  have havailable : (encode a).length ≤ (Writer.ofBuffer buffer).available := hroom
  have hwrite := effect_write (h.puts ha) havailable
  rw [overwriting, effect_focus, effect_bind_ok hwrite, effect_pure, Field.contents_append]

/-- Writing over a buffer leaves the bytes that start with the bits of the record and end as the
buffer does. -/
theorem effect_overwriting_of_prefix (h : Codes layout Canonical encode) {a : α}
    {buffer out : List UInt8} (ha : Canonical a) (hbits : encode a <+: Bits.ofBytes out)
    (hlength : out.length = buffer.length)
    (hrest : out.drop ((encode a).length / 8) = buffer.drop ((encode a).length / 8)) :
    (overwriting (do let _ ← (layout a).write; return)).effect buffer = (.ok (), out) := by
  have hroom := hbits.length_le
  rw [Bits.length_ofBytes, hlength] at hroom
  rw [h.effect_overwriting ha hroom, ← hrest, Bits.toBytes_append_drop hbits]

end Layout.Codes

/-! ## Headers -/

namespace SequenceHeader

/-- Every number has the width of its field. -/
structure Canonical (h : SequenceHeader) : Prop where
  horizontalSize : h.horizontalSize.toNat < 2 ^ 12
  verticalSize : h.verticalSize.toNat < 2 ^ 12
  aspectRatio : h.aspectRatio.toNat < 2 ^ 4
  frameRateCode : h.frameRateCode.toNat < 2 ^ 4
  bitRate : h.bitRate.toNat < 2 ^ 18
  vbvBufferSize : h.vbvBufferSize.toNat < 2 ^ 10

theorem canonical_iff {h : SequenceHeader} :
    h.Canonical ↔ h.horizontalSize.toNat < 2 ^ 12 ∧ h.verticalSize.toNat < 2 ^ 12 ∧
      h.aspectRatio.toNat < 2 ^ 4 ∧ h.frameRateCode.toNat < 2 ^ 4 ∧ h.bitRate.toNat < 2 ^ 18 ∧
      h.vbvBufferSize.toNat < 2 ^ 10 :=
  ⟨fun ⟨hh, hv, ha, hf, hb, hs⟩ ↦ ⟨hh, hv, ha, hf, hb, hs⟩,
    fun ⟨hh, hv, ha, hf, hb, hs⟩ ↦ ⟨hh, hv, ha, hf, hb, hs⟩⟩

instance (h : SequenceHeader) : Decidable h.Canonical :=
  decidable_of_iff _ canonical_iff.symm

/-- The picture size takes three bytes. -/
def sizeBits (h : SequenceHeader) : List Bool :=
  Bits.ofNat 12 h.horizontalSize.toNat ++ Bits.ofNat 12 h.verticalSize.toNat

/-- The codes of the display aspect ratio and the frame rate share a byte. -/
def codeBits (h : SequenceHeader) : List Bool :=
  Bits.ofNat 4 h.aspectRatio.toNat ++ Bits.ofNat 4 h.frameRateCode.toNat

/-- What follows the codes ends two bits before the end of a byte. -/
def bufferBits (h : SequenceHeader) : List Bool :=
  Bits.ofNat 18 h.bitRate.toNat ++ (Bits.ofNat 1 1 ++
    (Bits.ofNat 10 h.vbvBufferSize.toNat ++ [h.constrained]))

def bits (h : SequenceHeader) : List Bool :=
  h.sizeBits ++ (h.codeBits ++ h.bufferBits)

theorem length_sizeBits (h : SequenceHeader) : h.sizeBits.length = 8 * 3 := by
  simp [sizeBits]

theorem length_codeBits (h : SequenceHeader) : h.codeBits.length = 8 := by
  simp [codeBits]

theorem length_bits (h : SequenceHeader) : h.bits.length = 62 := by
  simp [bits, sizeBits, codeBits, bufferBits]

theorem Canonical.toNat_codeBits {h : SequenceHeader} (hcanonical : h.Canonical) :
    Bits.toNat h.codeBits = 2 ^ 4 * h.aspectRatio.toNat + h.frameRateCode.toNat := by
  rw [codeBits, Bits.toNat_append, Bits.toNat_ofNat hcanonical.aspectRatio,
    Bits.toNat_ofNat hcanonical.frameRateCode, Bits.length_ofNat, Nat.mul_comm]

theorem codes_layout : Codes layout Canonical bits where
  decodes before := by
    have h := Decodes.bind horizontalSize
      (decodes_uint16 "horizontal_size_value" before.horizontalSize (by decide : 12 ≤ 32))
      (fun horizontalSize _ ↦ Decodes.bind verticalSize
        (decodes_uint16 "vertical_size_value" before.verticalSize (by decide : 12 ≤ 32))
        (fun verticalSize _ ↦ Decodes.bind aspectRatio
          (decodes_uint8 "aspect_ratio_information" before.aspectRatio (by decide : 4 ≤ 32))
          (fun aspectRatio _ ↦ Decodes.bind frameRateCode
            (decodes_uint8 "frame_rate_code" before.frameRateCode (by decide : 4 ≤ 32))
            (fun frameRateCode _ ↦ Decodes.bind bitRate
              (decodes_uint32 "bit_rate_value" before.bitRate (by decide : 18 ≤ 32))
              (fun bitRate _ ↦ Decodes.fixed_bind "marker_bit" (by decide : 1 ≤ 32)
                (by decide : 1 < 2 ^ 1)
                (Decodes.bind vbvBufferSize
                  (decodes_uint16 "vbv_buffer_size_value" before.vbvBufferSize
                    (by decide : 10 ≤ 32))
                  (fun vbvBufferSize _ ↦ Decodes.flag_bind constrained
                    "constrained_parameters_flag" before.constrained
                    (fun constrained ↦ decodes_pure (mk horizontalSize verticalSize aspectRatio
                      frameRateCode bitRate vbvBufferSize constrained))
                    fun _ _ hd ↦ congrArg constrained hd)
                  fun _ _ _ hd ↦ congrArg vbvBufferSize hd))
              fun _ _ _ hd ↦ congrArg bitRate hd.2)
            fun _ _ _ hd ↦ congrArg frameRateCode hd.2.2)
          fun _ _ _ hd ↦ congrArg aspectRatio hd.2.2.2)
        fun _ _ _ hd ↦ congrArg verticalSize hd.2.2.2.2)
      fun _ _ _ hd ↦ congrArg horizontalSize hd.2.2.2.2.2
    refine Decodes.congr h ?_ ?_
    · intro h
      simp [canonical_iff]
    · intro h _
      simp [bits, sizeBits, codeBits, bufferBits]
  puts {h} hcanonical := by
    have hputs : h.layout.Puts
        (Bits.ofNat 12 h.horizontalSize.toNat ++ (Bits.ofNat 12 h.verticalSize.toNat ++
          (Bits.ofNat 4 h.aspectRatio.toNat ++ (Bits.ofNat 4 h.frameRateCode.toNat ++
            h.bufferBits)))) h :=
      Puts.bind (puts_uint16 _ (by decide) hcanonical.horizontalSize)
        (Puts.bind (puts_uint16 _ (by decide) hcanonical.verticalSize)
          (Puts.bind (puts_uint8 _ (by decide) hcanonical.aspectRatio)
            (Puts.bind (puts_uint8 _ (by decide) hcanonical.frameRateCode)
              (Puts.bind (puts_uint32 _ (by decide) hcanonical.bitRate)
                (Puts.bind (puts_fixed _ (by decide) (by decide))
                  (Puts.bind (puts_uint16 _ (by decide) hcanonical.vbvBufferSize)
                    (Puts.bind_pure (puts_flag _ _) _)))))))
    rwa [bits, sizeBits, codeBits, List.append_assoc, List.append_assoc]

variable {σ : Type} {s : σ} {h : SequenceHeader} {bytes buffer : List UInt8}

theorem read_eq_ok_iff :
    ((read bytes).effect s).1 = .ok h ↔ h.Canonical ∧ h.bits <+: Bits.ofBytes bytes :=
  codes_layout.read_bytes_eq_ok_iff blank

/-- A header that was read takes eight bytes, two bits of which are not its own. -/
theorem le_length_of_prefix (hbits : h.bits <+: Bits.ofBytes bytes) : 8 ≤ bytes.length := by
  have hlength := hbits.length_le
  rw [length_bits, Bits.length_ofBytes] at hlength
  omega

theorem effect_write (hcanonical : h.Canonical) (hroom : 8 ≤ buffer.length) :
    h.write.effect buffer = (.ok (), Bits.toBytes h.bits ++ buffer.drop 7) := by
  have hbits : h.bits.length ≤ 8 * buffer.length := by
    rw [length_bits]
    omega
  have hwrite := codes_layout.effect_overwriting hcanonical hbits
  rwa [length_bits] at hwrite

/-- A byte of the header is changed by writing the changed header. -/
theorem effect_write_modify {index : Nat} {change : UInt8 → UInt8} (hcanonical : h.Canonical)
    (hindex : index < 7) (hbits : h.bits <+: Bits.ofBytes (bytes.modify index change)) :
    h.write.effect bytes = (.ok (), bytes.modify index change) := by
  apply codes_layout.effect_overwriting_of_prefix hcanonical hbits (List.length_modify _ _ _)
  rw [length_bits]
  exact List.drop_modify_of_lt change index 7 bytes hindex

end SequenceHeader

/-! ## Extensions -/

namespace SequenceExtension

/-- Every number has the width of its field. -/
structure Canonical (e : SequenceExtension) : Prop where
  chromaFormat : e.chromaFormat.toNat < 2 ^ 2
  horizontalSize : e.horizontalSize.toNat < 2 ^ 2
  verticalSize : e.verticalSize.toNat < 2 ^ 2
  bitRate : e.bitRate.toNat < 2 ^ 12
  frameRateN : e.frameRateN.toNat < 2 ^ 2
  frameRateD : e.frameRateD.toNat < 2 ^ 5

theorem canonical_iff {e : SequenceExtension} :
    e.Canonical ↔ e.chromaFormat.toNat < 2 ^ 2 ∧ e.horizontalSize.toNat < 2 ^ 2 ∧
      e.verticalSize.toNat < 2 ^ 2 ∧ e.bitRate.toNat < 2 ^ 12 ∧ e.frameRateN.toNat < 2 ^ 2 ∧
      e.frameRateD.toNat < 2 ^ 5 :=
  ⟨fun ⟨hc, hh, hv, hb, hn, hd⟩ ↦ ⟨hc, hh, hv, hb, hn, hd⟩,
    fun ⟨hc, hh, hv, hb, hn, hd⟩ ↦ ⟨hc, hh, hv, hb, hn, hd⟩⟩

/-- What precedes the scale of the frame rate takes five bytes. -/
def formatBits (e : SequenceExtension) : List Bool :=
  Bits.ofNat 4 identifier ++ (Bits.ofNat 8 e.profileAndLevel.toNat ++ ([e.progressive] ++
    (Bits.ofNat 2 e.chromaFormat.toNat ++ (Bits.ofNat 2 e.horizontalSize.toNat ++
      (Bits.ofNat 2 e.verticalSize.toNat ++ (Bits.ofNat 12 e.bitRate.toNat ++
        (Bits.ofNat 1 1 ++ Bits.ofNat 8 e.vbvBufferSize.toNat)))))))

/-- The scale of the frame rate shares a byte with a flag. -/
def scaleBits (e : SequenceExtension) : List Bool :=
  [e.lowDelay] ++ (Bits.ofNat 2 e.frameRateN.toNat ++ Bits.ofNat 5 e.frameRateD.toNat)

def bits (e : SequenceExtension) : List Bool :=
  e.formatBits ++ e.scaleBits

theorem length_formatBits (e : SequenceExtension) : e.formatBits.length = 8 * 5 := by
  simp [formatBits]

theorem length_scaleBits (e : SequenceExtension) : e.scaleBits.length = 8 := by
  simp [scaleBits]

theorem length_bits (e : SequenceExtension) : e.bits.length = 48 := by
  simp [bits, formatBits, scaleBits]

theorem Canonical.toNat_scaleBits {e : SequenceExtension} (hcanonical : e.Canonical) :
    Bits.toNat e.scaleBits =
      2 ^ 7 * e.lowDelay.toNat + (2 ^ 5 * e.frameRateN.toNat + e.frameRateD.toNat) := by
  rw [scaleBits, List.singleton_append, Bits.toNat_cons, Bits.toNat_append,
    Bits.toNat_ofNat hcanonical.frameRateN, Bits.toNat_ofNat hcanonical.frameRateD,
    List.length_append, Bits.length_ofNat, Bits.length_ofNat, Nat.mul_comm (2 ^ 5)]

theorem codes_layout : Codes layout Canonical bits where
  decodes before := by
    have h := Decodes.fixed_bind "extension_start_code_identifier" (by decide : 4 ≤ 32)
      (by decide : identifier < 2 ^ 4)
      (Decodes.bind profileAndLevel
        (decodes_uint8 "profile_and_level_indication" before.profileAndLevel
          (by decide : 8 ≤ 32))
        (fun profileAndLevel _ ↦ Decodes.flag_bind progressive "progressive_sequence"
          before.progressive
          (fun progressive ↦ Decodes.bind chromaFormat
            (decodes_uint8 "chroma_format" before.chromaFormat (by decide : 2 ≤ 32))
            (fun chromaFormat _ ↦ Decodes.bind horizontalSize
              (decodes_uint8 "horizontal_size_extension" before.horizontalSize
                (by decide : 2 ≤ 32))
              (fun horizontalSize _ ↦ Decodes.bind verticalSize
                (decodes_uint8 "vertical_size_extension" before.verticalSize
                  (by decide : 2 ≤ 32))
                (fun verticalSize _ ↦ Decodes.bind bitRate
                  (decodes_uint16 "bit_rate_extension" before.bitRate (by decide : 12 ≤ 32))
                  (fun bitRate _ ↦ Decodes.fixed_bind "marker_bit" (by decide : 1 ≤ 32)
                    (by decide : 1 < 2 ^ 1)
                    (Decodes.bind vbvBufferSize
                      (decodes_uint8 "vbv_buffer_size_extension" before.vbvBufferSize
                        (by decide : 8 ≤ 32))
                      (fun vbvBufferSize _ ↦ Decodes.flag_bind lowDelay "low_delay"
                        before.lowDelay
                        (fun lowDelay ↦ Decodes.bind frameRateN
                          (decodes_uint8 "frame_rate_extension_n" before.frameRateN
                            (by decide : 2 ≤ 32))
                          (fun frameRateN _ ↦ Decodes.bind frameRateD
                            (decodes_uint8 "frame_rate_extension_d" before.frameRateD
                              (by decide : 5 ≤ 32))
                            (fun frameRateD _ ↦ decodes_pure (mk profileAndLevel progressive
                              chromaFormat horizontalSize verticalSize bitRate vbvBufferSize
                              lowDelay frameRateN frameRateD))
                            fun _ _ _ hd ↦ congrArg frameRateD hd)
                          fun _ _ _ hd ↦ congrArg frameRateN hd.2)
                        fun _ _ hd ↦ congrArg lowDelay hd.2.2)
                      fun _ _ _ hd ↦ congrArg vbvBufferSize hd.2.2))
                  fun _ _ _ hd ↦ congrArg bitRate hd.2.2.2)
                fun _ _ _ hd ↦ congrArg verticalSize hd.2.2.2.2)
              fun _ _ _ hd ↦ congrArg horizontalSize hd.2.2.2.2.2)
            fun _ _ _ hd ↦ congrArg chromaFormat hd.2.2.2.2.2.2)
          fun _ _ hd ↦ congrArg progressive hd.2.2.2.2.2.2.2)
        fun _ _ _ hd ↦ congrArg profileAndLevel hd.2.2.2.2.2.2.2)
    refine Decodes.congr h ?_ ?_
    · intro e
      have hprofile := e.profileAndLevel.toNat_lt
      have hbuffer := e.vbvBufferSize.toNat_lt
      simp [canonical_iff, hprofile, hbuffer]
    · intro e _
      simp [bits, formatBits, scaleBits]
  puts {e} hcanonical := by
    have hputs : e.layout.Puts
        (Bits.ofNat 4 identifier ++ (Bits.ofNat 8 e.profileAndLevel.toNat ++ ([e.progressive] ++
          (Bits.ofNat 2 e.chromaFormat.toNat ++ (Bits.ofNat 2 e.horizontalSize.toNat ++
            (Bits.ofNat 2 e.verticalSize.toNat ++ (Bits.ofNat 12 e.bitRate.toNat ++
              (Bits.ofNat 1 1 ++ (Bits.ofNat 8 e.vbvBufferSize.toNat ++ e.scaleBits))))))))) e :=
      Puts.bind (puts_fixed _ (by decide) (by decide))
        (Puts.bind (puts_uint8 _ (by decide) e.profileAndLevel.toNat_lt)
          (Puts.bind (puts_flag _ _)
            (Puts.bind (puts_uint8 _ (by decide) hcanonical.chromaFormat)
              (Puts.bind (puts_uint8 _ (by decide) hcanonical.horizontalSize)
                (Puts.bind (puts_uint8 _ (by decide) hcanonical.verticalSize)
                  (Puts.bind (puts_uint16 _ (by decide) hcanonical.bitRate)
                    (Puts.bind (puts_fixed _ (by decide) (by decide))
                      (Puts.bind (puts_uint8 _ (by decide) e.vbvBufferSize.toNat_lt)
                        (Puts.bind (puts_flag _ _)
                          (Puts.bind (puts_uint8 _ (by decide) hcanonical.frameRateN)
                            (Puts.bind_pure (puts_uint8 _ (by decide) hcanonical.frameRateD)
                              _)))))))))))
    simpa only [bits, formatBits, List.append_assoc] using hputs

variable {σ : Type} {s : σ} {e : SequenceExtension} {bytes : List UInt8}

theorem read_eq_ok_iff :
    ((read bytes).effect s).1 = .ok e ↔ e.Canonical ∧ e.bits <+: Bits.ofBytes bytes :=
  codes_layout.read_bytes_eq_ok_iff blank

theorem le_length_of_prefix (hbits : e.bits <+: Bits.ofBytes bytes) : 6 ≤ bytes.length := by
  have hlength := hbits.length_le
  rw [length_bits, Bits.length_ofBytes] at hlength
  omega

/-- A byte of the extension is changed by writing the changed extension. -/
theorem effect_write_modify {index : Nat} {change : UInt8 → UInt8} (hcanonical : e.Canonical)
    (hindex : index < 6) (hbits : e.bits <+: Bits.ofBytes (bytes.modify index change)) :
    e.write.effect bytes = (.ok (), bytes.modify index change) := by
  apply codes_layout.effect_overwriting_of_prefix hcanonical hbits (List.length_modify _ _ _)
  rw [length_bits]
  exact List.drop_modify_of_lt change index 6 bytes hindex

end SequenceExtension

end ClosedCaptions
