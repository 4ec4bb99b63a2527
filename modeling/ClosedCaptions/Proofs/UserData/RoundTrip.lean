import ClosedCaptions.Proofs.UserData.Codec

/-!
# Round trips of user data

The encoding of a canonical record is a whole number of bytes. Decoding accepts a byte string
exactly when it starts with the encoding of a canonical record, and encoding a canonical record
into a buffer with enough room leaves those bytes at its front.
-/

namespace ClosedCaptions

/-! ## Sizes -/

theorem CcPacket.length_bits (packet : CcPacket) : packet.bits.length = 24 := by
  simp [bits]

theorem CcPacket.length_flatMap_bits (packets : List CcPacket) :
    (packets.flatMap bits).length = 24 * packets.length := by
  induction packets with
  | nil => rfl
  | cons packet packets ih =>
    rw [List.flatMap_cons, List.length_append, length_bits, ih, List.length_cons]
    omega

/-- The bytes of a caption block. -/
def CcData.size (d : CcData) : Nat :=
  3 + 3 * d.packets.length

theorem CcData.length_bits (d : CcData) : d.bits.length = 8 * d.size := by
  simp only [bits, List.length_append, List.length_singleton, Bits.length_ofNat,
    CcPacket.length_flatMap_bits, size]
  omega

/-- The bytes of the line number of a bar. -/
def Bar.size (bar : Bar) : Nat :=
  if bar.present then 2 else 0

theorem Bar.length_lineBits (bar : Bar) : bar.lineBits.length = 8 * bar.size := by
  rw [lineBits, size]
  split <;> simp

/-- The bytes of bar data. -/
def BarData.size (d : BarData) : Nat :=
  1 + d.top.size + d.bottom.size + d.left.size + d.right.size

theorem BarData.length_bits (d : BarData) : d.bits.length = 8 * d.size := by
  simp only [bits, List.length_append, List.length_singleton, Bits.length_ofNat,
    Bar.length_lineBits, size]
  omega

/-- The bytes of an active format description. -/
def ActiveFormat.size (d : ActiveFormat) : Nat :=
  if d.active then 2 else 1

theorem ActiveFormat.length_bits (d : ActiveFormat) : d.bits.length = 8 * d.size := by
  rw [bits, size]
  split <;> simp

/-- The bytes of ATSC data with its type code. -/
def AtscData.size : AtscData → Nat
  | ccData data => 1 + data.size
  | barData data => 1 + data.size
  | unknown _ => 1

theorem AtscData.length_bits (d : AtscData) : d.bits.length = 8 * d.size := by
  rw [bits, List.length_append, Bits.length_ofNat]
  cases d with
  | ccData data =>
    have hdata := data.length_bits
    simp only [payloadBits, size]
    omega
  | barData data =>
    have hdata := data.length_bits
    simp only [payloadBits, size]
    omega
  | unknown code => rfl

namespace UserData

/-- The bytes of user data with its identifier. -/
def size : UserData → Nat
  | atsc data => 4 + data.size
  | activeFormat data => 4 + data.size
  | unknown _ => 4

theorem length_bits (d : UserData) : d.bits.length = 8 * d.size := by
  rw [bits, List.length_append, Bits.length_ofNat]
  cases d with
  | atsc data =>
    have hdata := data.length_bits
    simp only [payloadBits, size]
    omega
  | activeFormat data =>
    have hdata := data.length_bits
    simp only [payloadBits, size]
    omega
  | unknown identifier => rfl

/-! ## Both directions over byte strings -/

/-- The encoding. -/
def bytes (d : UserData) : List UInt8 :=
  Bits.toBytes d.bits

theorem length_bytes (d : UserData) : d.bytes.length = d.size :=
  Bits.length_toBytes d.length_bits

/-- Decoding accepts what starts with the encoding of a canonical record. -/
theorem read_eq_ok_iff {σ : Type} {s : σ} {input : List UInt8} {d : UserData} :
    ((read input).run s).result = .ok d ↔ d.Canonical ∧ d.bytes <+: input := by
  have hbits : (Reader.ofBytes input).remaining = Bits.ofBytes input := rfl
  rw [bytes, ← Bits.prefix_ofBytes_iff d.length_bits, ← hbits,
    ← codes_layout.read_eq_ok_iff (unknown 0)]
  change (Procedure.effect _ (Reader.ofBytes input)).1 = _ ↔ _
  rcases hlayout : (layout (unknown 0)).read.effect (Reader.ofBytes input) with ⟨_ | a, r⟩
  · rw [Procedure.effect_bind_error hlayout]
  · rw [Procedure.effect_bind_ok hlayout, Procedure.effect_get_bind, Procedure.effect_log_bind,
      Procedure.effect_pure]

/-- Writing all the bits of the layout leaves the encoding in front of what the buffer held. -/
theorem effect_write_of_layout {d stored : UserData} {out : List UInt8}
    (hlayout : d.layout.write.effect (Writer.ofBuffer out) =
      (.ok stored, (Writer.ofBuffer out).append d.bits)) :
    d.write.effect out = (.ok d.size, d.bytes ++ out.drop d.size) := by
  have hposition : ((Writer.ofBuffer out).append d.bits).position = 8 * d.size :=
    d.length_bits
  have haligned : ((Writer.ofBuffer out).append d.bits).byteAligned = true := by
    rw [Writer.byteAligned, hposition, Nat.mul_mod_right]
    rfl
  have hcontents : ((Writer.ofBuffer out).append d.bits).contents =
      d.bytes ++ out.drop d.size := by
    simp only [Writer.contents, Writer.append, Writer.ofBuffer, Writer.withCapacity,
      List.append_nil, List.reverse_reverse, ← bytes.eq_def, length_bytes]
  rw [write, Procedure.overwriting, Procedure.effect_focus, Procedure.effect_bind_ok hlayout,
    Procedure.effect_get_bind, if_pos haligned, Procedure.effect_pure, hcontents, hposition,
    Nat.mul_div_cancel_left _ (by decide)]

/-- Encoding a canonical record overwrites the front of a buffer that has room for it. -/
theorem effect_write {d : UserData} {out : List UInt8} (h : d.Canonical)
    (hroom : d.size ≤ out.length) :
    d.write.effect out = (.ok d.size, d.bytes ++ out.drop d.size) := by
  have havailable : d.bits.length ≤ (Writer.ofBuffer out).available := by
    simp only [length_bits, Writer.available, Writer.ofBuffer, Writer.withCapacity]
    omega
  exact effect_write_of_layout (Layout.effect_write (codes_layout.puts h) havailable)

/-- Decoding yields a record just when the record is canonical and encoding it gives back the
bytes that were decoded. -/
theorem read_eq_ok_iff_canonical_and_write {σ : Type} (s : σ) (input out : List UInt8)
    (d : UserData) (hroom : d.size ≤ out.length) :
    ((read input).run s).result = .ok d ↔
      d.Canonical ∧ ∃ n, (d.write.run out).result = .ok n ∧ n ≤ input.length ∧
        (d.write.run out).state.take n = input.take n := by
  have hwrite (hd : d.Canonical) : (d.write.run out).result = .ok d.size ∧
      (d.write.run out).state.take d.size = d.bytes := by
    have heffect := effect_write hd hroom
    have hstate : (d.write.run out).state = d.bytes ++ out.drop d.size :=
      congrArg Prod.snd heffect
    refine ⟨congrArg Prod.fst heffect, ?_⟩
    rw [hstate, List.take_left' d.length_bytes]
  rw [read_eq_ok_iff]
  constructor
  · intro ⟨hd, hstart⟩
    obtain ⟨hresult, htaken⟩ := hwrite hd
    have hsize : d.size ≤ input.length := d.length_bytes ▸ hstart.length_le
    refine ⟨hd, d.size, hresult, hsize, ?_⟩
    rw [htaken, List.prefix_iff_eq_take.mp hstart, length_bytes]
  · intro ⟨hd, n, hn, _, htake⟩
    obtain ⟨hresult, htaken⟩ := hwrite hd
    obtain rfl : d.size = n := Except.ok.inj (hresult.symm.trans hn)
    rw [htaken] at htake
    exact ⟨hd, htake ▸ List.take_prefix _ _⟩

theorem read_activeFormat_of_write :
    (activeFormat ⟨true, 8⟩).size ≤ (List.replicate 8 (0 : UInt8)).length ∧
      ((read [0x44, 0x54, 0x47, 0x31, 0x41, 0xF8, 0x55]).run ()).result =
        .ok (activeFormat ⟨true, 8⟩) := by
  have hroom : (activeFormat ⟨true, 8⟩).size ≤ (List.replicate 8 (0 : UInt8)).length := by decide
  have hcanonical : (activeFormat ⟨true, 8⟩).Canonical := by decide
  exact ⟨hroom, (read_eq_ok_iff_canonical_and_write () _ _ _ hroom).mpr
    ⟨hcanonical, 6, rfl, by decide, rfl⟩⟩

end UserData

end ClosedCaptions
