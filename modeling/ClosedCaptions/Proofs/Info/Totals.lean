import ClosedCaptions.Command.Run
import ClosedCaptions.Proofs.Filter.SideData
import ClosedCaptions.Proofs.Stream.Coverage
import ClosedCaptions.Proofs.Stream.Delivery
import ClosedCaptions.Proofs.Stream.Encoding
import Mathlib.Data.List.Induction

/-!
# Totals of a stream

Where problems are tolerated, an inspection takes in every unit. Its totals are counts over the
units, and its picture size and frame rate are those of the first sequence header that parses, so
the order of the user data does not matter to them. The records do tell the order: each one belongs
to the last picture in front of it.
-/

namespace ClosedCaptions

open Procedure

namespace UserData

/-- What is counted apart. -/
inductive Kind where
  | ccData
  | barData
  | activeFormat
  | unknown
  deriving DecidableEq

def kind : UserData → Kind
  | .atsc (.ccData _) => .ccData
  | .atsc (.barData _) => .barData
  | .activeFormat _ => .activeFormat
  | .atsc (.unknown _) | .unknown _ => .unknown

end UserData

namespace StreamUnit

/-- What a sequence header says, if it parses. -/
def header? (unit : StreamUnit) : Option SequenceHeader :=
  if unit.isSequenceHeader then ((SequenceHeader.read unit.data).effect ()).1.toOption else none

/-- What a unit of user data holds, if it can be decoded. -/
def userData? (unit : StreamUnit) : Option UserData :=
  if unit.isUserData then ((UserData.read unit.data).effect ()).1.toOption else none

def isUndecodable (unit : StreamUnit) : Bool :=
  unit.isUserData && unit.userData?.isNone

def hasKind (kind : UserData.Kind) (unit : StreamUnit) : Bool :=
  unit.userData?.any fun data ↦ data.kind = kind

/-- The packets in the caption block of a unit that are marked as valid. -/
def validPackets (unit : StreamUnit) : List CcPacket :=
  match unit.ccData? with
  | some (_, block) => block.packets.filter CcPacket.valid
  | none => []

end StreamUnit

open StreamUnit

/-- The totals of a stream by its units. -/
def StreamSummary.ofUnits (units : List StreamUnit) : StreamSummary :=
  let header := units.findSome? header?
  let packets := units.flatMap validPackets
  { width := header.map SequenceHeader.horizontalSize
    height := header.map SequenceHeader.verticalSize
    frameRate := header.bind fun h ↦ h.frameRate?.map rateText
    pictures := units.countP isPicture
    userDataUnits := units.countP fun unit ↦ unit.userData?.isSome
    ccData := units.countP (hasKind .ccData)
    barData := units.countP (hasKind .barData)
    activeFormat := units.countP (hasKind .activeFormat)
    unknown := units.countP (hasKind .unknown)
    undecodable := units.countP isUndecodable
    packets608 := packets.countP fun packet ↦ packet.type.toNat < 2
    packetsDtvcc := packets.countP fun packet ↦ 2 ≤ packet.type.toNat }

/-- The records of a stream: one for each unit of user data that can be decoded, with the number of
pictures in front of it, less one. -/
def recordsOf (units : List StreamUnit) : List UserDataRecord :=
  units.zipIdx.filterMap fun (unit, place) ↦
    unit.userData?.map (.ofUserData ((units.take place).countP isPicture - 1))

/-- The same units, with the user data in another order and at other places between the rest. -/
structure Rearranged (units others : List StreamUnit) : Prop where
  userData_perm : (units.filter isUserData).Perm (others.filter isUserData)
  rest_eq : units.filter (!·.isUserData) = others.filter (!·.isUserData)

variable {units others : List StreamUnit} {unit : StreamUnit} {data : UserData}

/-! ## One unit -/

namespace StreamUnit

theorem ccData?_eq_bind (unit : StreamUnit) :
    unit.ccData? = unit.userData?.bind fun data ↦ data.ccData?.map (data, ·) := by
  rw [ccData?, userData?]
  split
  · rcases ((UserData.read unit.data).effect ()).1 with cause | data <;> rfl
  · rfl

theorem userData?_of_not_isUserData (h : unit.isUserData = false) : unit.userData? = none := by
  rw [userData?, h, if_neg Bool.false_ne_true]

theorem header?_of_not_isSequenceHeader (h : unit.isSequenceHeader = false) :
    unit.header? = none := by
  rw [header?, h, if_neg Bool.false_ne_true]

theorem validPackets_of_userData?_eq_none (h : unit.userData? = none) : unit.validPackets = [] := by
  rw [validPackets, ccData?_eq_bind, h]
  rfl

theorem isPicture_of_isSequenceHeader (h : unit.isSequenceHeader = true) :
    unit.isPicture = false := by
  rw [isSequenceHeader, beq_iff_eq] at h
  rw [isPicture, h]
  decide

end StreamUnit

theorem CcPacket.isLine21_eq_decide (packet : CcPacket) :
    packet.isLine21 = decide (packet.type.toNat < 2) := by
  rw [Bool.eq_iff_iff, isLine21, Bool.or_eq_true, beq_iff_eq, beq_iff_eq, decide_eq_true_iff,
    ← UInt8.toNat_inj, ← UInt8.toNat_inj]
  change packet.type.toNat = 0 ∨ packet.type.toNat = 1 ↔ _
  omega

/-! ## One unit more -/

namespace StreamSummary

/-- Each packet holds the bytes of line 21 or DTVCC data. -/
theorem countP_type (packets : List CcPacket) :
    (packets.countP fun packet ↦ packet.type.toNat < 2) +
      (packets.countP fun packet ↦ 2 ≤ packet.type.toNat) = packets.length := by
  have hlength := List.length_eq_countP_add_countP
    (fun packet : CcPacket ↦ packet.type.toNat < 2) (l := packets)
  simp only [decide_eq_true_eq, Nat.not_lt] at hlength
  exact hlength.symm

theorem countPackets_ofPacket (s : StreamSummary) (packets : List CcPacket) :
    s.countPackets (packets.map .ofPacket) = { s with
      packets608 := s.packets608 +
        (packets.filter CcPacket.valid).countP fun packet ↦ packet.type.toNat < 2
      packetsDtvcc := s.packetsDtvcc +
        (packets.filter CcPacket.valid).countP fun packet ↦ 2 ≤ packet.type.toNat } := by
  have hvalid : (packets.map PacketRecord.ofPacket).filter PacketRecord.valid =
      (packets.filter CcPacket.valid).map .ofPacket := List.filter_map
  rw [countPackets, hvalid]
  generalize packets.filter CcPacket.valid = valid
  have hline21 : ((valid.map PacketRecord.ofPacket).filter PacketRecord.line21).length =
      valid.countP fun packet ↦ packet.type.toNat < 2 := by
    rw [← List.countP_eq_length_filter, List.countP_map]
    exact List.countP_congr fun packet _ ↦ by
      rw [Function.comp_apply, PacketRecord.ofPacket, packet.isLine21_eq_decide]
  rw [hline21, List.length_map, ← countP_type valid, Nat.add_sub_cancel_left]

/-- What one unit more adds to each total. -/
theorem ofUnits_append (units : List StreamUnit) (unit : StreamUnit) :
    ofUnits (units ++ [unit]) =
      let s := ofUnits units
      let header := (units.findSome? header?).or unit.header?
      { width := header.map SequenceHeader.horizontalSize
        height := header.map SequenceHeader.verticalSize
        frameRate := header.bind fun h ↦ h.frameRate?.map rateText
        pictures := s.pictures + if unit.isPicture then 1 else 0
        userDataUnits := s.userDataUnits + if unit.userData?.isSome then 1 else 0
        ccData := s.ccData + if unit.hasKind .ccData then 1 else 0
        barData := s.barData + if unit.hasKind .barData then 1 else 0
        activeFormat := s.activeFormat + if unit.hasKind .activeFormat then 1 else 0
        unknown := s.unknown + if unit.hasKind .unknown then 1 else 0
        undecodable := s.undecodable + if unit.isUndecodable then 1 else 0
        packets608 :=
          s.packets608 + unit.validPackets.countP fun packet ↦ packet.type.toNat < 2
        packetsDtvcc :=
          s.packetsDtvcc + unit.validPackets.countP fun packet ↦ 2 ≤ packet.type.toNat } := by
  simp only [ofUnits, List.findSome?_append, List.findSome?_singleton, List.countP_append,
    List.countP_singleton, List.flatMap_append, List.flatMap_singleton]

end StreamSummary

theorem recordsOf_append (units : List StreamUnit) (unit : StreamUnit) :
    recordsOf (units ++ [unit]) = recordsOf units ++
      (unit.userData?.map (.ofUserData (units.countP isPicture - 1))).toList := by
  have hbefore : units.zipIdx.filterMap (fun (found, place) ↦ found.userData?.map
      (.ofUserData (((units ++ [unit]).take place).countP isPicture - 1))) = recordsOf units := by
    apply List.filterMap_congr
    rintro ⟨found, place⟩ hfound
    have hplace : place < units.length := List.snd_lt_of_mem_zipIdx hfound
    dsimp only
    rw [List.take_append_of_le_length (Nat.le_of_lt hplace)]
  rw [recordsOf, List.zipIdx_append, List.filterMap_append, hbefore, Nat.zero_add,
    List.zipIdx_singleton, List.filterMap_cons]
  dsimp only
  rw [List.take_left]
  cases unit.userData? <;> rfl

namespace Inspection

/-- An inspection that tolerates problems, after some units. -/
def ofUnits (units : List StreamUnit) : Inspection :=
  ⟨.error, .ofUnits units, (recordsOf units).reverse⟩

theorem hasHeader_ofUnits (units : List StreamUnit) :
    (ofUnits units).hasHeader = (units.findSome? header?).isSome :=
  Option.isSome_map

theorem ofUnits_append (units : List StreamUnit) (unit : StreamUnit) :
    ofUnits (units ++ [unit]) = ⟨.error, .ofUnits (units ++ [unit]),
      (unit.userData?.map (.ofUserData (ofUnits units).picture)).toList ++
        (ofUnits units).records⟩ := by
  rw [ofUnits, recordsOf_append, List.reverse_append]
  cases unit.userData? <;> rfl

/-- A unit that gives no record, and is not the first sequence header that parses. -/
theorem ofUnits_append_of_userData?_eq_none
    (hheader : (units.findSome? header?).or unit.header? = units.findSome? header?)
    (hdata : unit.userData? = none) :
    ofUnits (units ++ [unit]) = { ofUnits units with
      summary := { StreamSummary.ofUnits units with
        pictures := units.countP isPicture + if unit.isPicture then 1 else 0
        undecodable := units.countP isUndecodable + if unit.isUserData then 1 else 0 } } := by
  have hpackets := validPackets_of_userData?_eq_none hdata
  have hundecodable : unit.isUndecodable = unit.isUserData := by
    rw [isUndecodable, hdata, Option.isNone_none, Bool.and_true]
  simp only [ofUnits_append, StreamSummary.ofUnits_append, hheader, hdata, hasKind, hpackets,
    hundecodable]
  rfl

/-- A unit of user data that can be decoded is counted by its record. -/
theorem ofUnits_append_of_userData?_eq_some
    (hheader : (units.findSome? header?).or unit.header? = units.findSome? header?)
    (hpicture : unit.isPicture = false) (hdata : unit.userData? = some data) :
    ofUnits (units ++ [unit]) = (ofUnits units).addRecord data := by
  have hundecodable : unit.isUndecodable = false := by
    rw [isUndecodable, hdata, Option.isNone_some, Bool.and_false]
  have hpackets : unit.validPackets = match data.ccData? with
      | some block => block.packets.filter CcPacket.valid
      | none => [] := by
    rw [validPackets, ccData?_eq_bind, hdata, Option.bind_some]
    cases data.ccData? <;> rfl
  simp only [ofUnits_append, StreamSummary.ofUnits_append, hheader, hdata, hasKind, hpicture,
    hpackets, hundecodable, addRecord]
  match data with
  | .atsc (.ccData block) =>
    rw [UserDataRecord.ofUserData, StreamSummary.count, StreamSummary.countPackets_ofPacket]
    rfl
  | .atsc (.barData _) | .atsc (.unknown _) | .activeFormat _ | .unknown _ => rfl

/-- The first sequence header that parses is taken. -/
theorem ofUnits_append_of_header?_eq_some {header : SequenceHeader}
    (hnone : units.findSome? header? = none) (hheader : unit.header? = some header)
    (hpicture : unit.isPicture = false) (huser : unit.isUserData = false) :
    ofUnits (units ++ [unit]) = (ofUnits units).setHeader header := by
  have hdata : unit.userData? = none := userData?_of_not_isUserData huser
  have hpackets := validPackets_of_userData?_eq_none hdata
  have hundecodable : unit.isUndecodable = false := by
    rw [isUndecodable, huser, Bool.false_and]
  simp only [ofUnits_append, StreamSummary.ofUnits_append, hnone, hheader, hdata, hasKind,
    hpicture, hpackets, hundecodable]
  rfl

theorem effect_readHeader (units : List StreamUnit) (hheader : unit.isSequenceHeader = true) :
    (readHeader unit.data).effect (ofUnits units) =
      (.ok (), (unit.header?.map (setHeader · (ofUnits units))).getD (ofUnits units)) := by
  have hattempt : (SequenceHeader.read unit.data).attempt.effect (ofUnits units) =
      (.ok ((SequenceHeader.read unit.data).effect ()).1, ofUnits units) := rfl
  have hlevel : (ofUnits units).failLevel = .error := rfl
  rw [readHeader, effect_bind_ok hattempt, header?, if_pos hheader]
  rcases ((SequenceHeader.read unit.data).effect ()).1 with cause | header
  · dsimp only
    rw [effect_get_bind, hlevel, tolerate_error, effect_log]
    rfl
  · rfl

theorem effect_readUserData (units : List StreamUnit) (huser : unit.isUserData = true) :
    (readUserData unit.data).effect (ofUnits units) = (.ok (),
      (unit.userData?.map (addRecord · (ofUnits units))).getD (ofUnits units).addUndecodable) := by
  have hattempt : (UserData.read unit.data).attempt.effect (ofUnits units) =
      (.ok ((UserData.read unit.data).effect ()).1, ofUnits units) := rfl
  have hlevel : (ofUnits units).addUndecodable.failLevel = .error := rfl
  rw [readUserData, effect_bind_ok hattempt, userData?, if_pos huser]
  rcases ((UserData.read unit.data).effect ()).1 with cause | data
  · dsimp only
    rw [effect_modify_bind, effect_get_bind, hlevel, tolerate_error, effect_log]
    rfl
  · rfl

/-- No unit makes an inspection fail that tolerates problems, and each one is taken in. -/
theorem effect_readUnit (units : List StreamUnit) (unit : StreamUnit) :
    (readUnit unit).effect (ofUnits units) = (.ok (), ofUnits (units ++ [unit])) := by
  rw [readUnit, effect_get_bind, hasHeader_ofUnits]
  split
  · next h =>
    obtain ⟨hheader, hnone⟩ : unit.isSequenceHeader = true ∧ units.findSome? header? = none := by
      simpa using h
    have hpicture := isPicture_of_isSequenceHeader hheader
    have huser := isUserData_of_isSequenceHeader hheader
    rw [effect_readHeader units hheader]
    cases hfound : unit.header? with
    | none =>
      have hsame : (units.findSome? header?).or unit.header? = units.findSome? header? := by
        rw [hfound, Option.or_none]
      rw [ofUnits_append_of_userData?_eq_none hsame (userData?_of_not_isUserData huser), hpicture,
        huser]
      rfl
    | some header =>
      rw [ofUnits_append_of_header?_eq_some hnone hfound hpicture huser]
      rfl
  · next h =>
    -- the first header that parses stays the first
    have hsame : (units.findSome? header?).or unit.header? = units.findSome? header? := by
      cases hfirst : units.findSome? header? with
      | some header => rw [Option.some_or]
      | none =>
        have hheader : unit.isSequenceHeader = false := by simpa [hfirst] using h
        rw [header?_of_not_isSequenceHeader hheader, Option.or_none]
    cases hpicture : unit.isPicture with
    | true =>
      have huser := isUserData_of_isPicture hpicture
      rw [ofUnits_append_of_userData?_eq_none hsame (userData?_of_not_isUserData huser), hpicture,
        huser]
      rfl
    | false =>
      cases huser : unit.isUserData with
      | true =>
        rw [if_neg Bool.false_ne_true, if_pos rfl, effect_readUserData units huser]
        cases hdata : unit.userData? with
        | none =>
          rw [ofUnits_append_of_userData?_eq_none hsame hdata, hpicture, huser]
          rfl
        | some data =>
          rw [ofUnits_append_of_userData?_eq_some hsame hpicture hdata]
          rfl
      | false =>
        rw [ofUnits_append_of_userData?_eq_none hsame (userData?_of_not_isUserData huser),
          hpicture, huser]
        rfl

/-- Units behind others are taken in one after the other. -/
theorem effect_each_readUnit (units more : List StreamUnit) :
    (each readUnit more).effect (ofUnits units) = (.ok (), ofUnits (units ++ more)) := by
  induction more generalizing units with
  | nil => rw [each_nil, effect_pure, List.append_nil]
  | cons unit more ih =>
    rw [each_cons, effect_bind_ok (effect_readUnit units unit), ih, List.append_assoc,
      List.singleton_append]

end Inspection

/-! ## Sums of totals -/

namespace StreamSummary

/-- A unit of user data can be decoded or not. -/
theorem countP_isUserData (units : List StreamUnit) :
    (units.countP fun unit ↦ unit.userData?.isSome) + units.countP isUndecodable =
      units.countP isUserData := by
  induction units with
  | nil => rfl
  | cons unit units ih =>
    have hunit : ((if unit.userData?.isSome then 1 else 0) + if unit.isUndecodable then 1 else 0) =
        if unit.isUserData then 1 else 0 := by
      rw [isUndecodable]
      cases huser : unit.isUserData with
      | false => rw [userData?_of_not_isUserData huser]; rfl
      | true => cases unit.userData? <;> rfl
    simp only [List.countP_cons]
    omega

/-- Each unit that can be decoded has one kind. -/
theorem countP_hasKind (units : List StreamUnit) :
    (units.countP fun unit ↦ unit.userData?.isSome) =
      units.countP (hasKind .ccData) + units.countP (hasKind .barData) +
        units.countP (hasKind .activeFormat) + units.countP (hasKind .unknown) := by
  induction units with
  | nil => rfl
  | cons unit units ih =>
    have hunit : (if unit.userData?.isSome then 1 else 0) =
        (if unit.hasKind .ccData then 1 else 0) + (if unit.hasKind .barData then 1 else 0) +
          (if unit.hasKind .activeFormat then 1 else 0) +
          if unit.hasKind .unknown then 1 else 0 := by
      match hdata : unit.userData? with
      | none => simp [hasKind, hdata]
      | some data => cases hkind : data.kind <;> simp [hasKind, hdata, hkind]
    simp only [List.countP_cons]
    omega

end StreamSummary

theorem length_recordsOf (units : List StreamUnit) :
    (recordsOf units).length = units.countP fun unit ↦ unit.userData?.isSome := by
  induction units using List.reverseRecOn with
  | nil => rfl
  | append_singleton units unit ih =>
    rw [recordsOf_append, List.length_append, ih, List.countP_append, List.countP_singleton]
    cases unit.userData? <;> rfl

/-! ## Other orders of the user data -/

theorem Rearranged.perm (h : Rearranged units others) : units.Perm others := by
  have hrest : (units.filter (!·.isUserData)).Perm (others.filter (!·.isUserData)) :=
    h.rest_eq ▸ .refl _
  calc
    units.Perm (units.filter isUserData ++ units.filter (!·.isUserData)) :=
      (List.filter_append_perm isUserData units).symm
    List.Perm _ (others.filter isUserData ++ others.filter (!·.isUserData)) :=
      h.userData_perm.append hrest
    List.Perm _ others := List.filter_append_perm isUserData others

/-- User data is not where sequence headers are looked for. -/
theorem findSome?_header?_filter (units : List StreamUnit) :
    (units.filter (!·.isUserData)).findSome? header? = units.findSome? header? := by
  induction units with
  | nil => rfl
  | cons unit units ih =>
    cases huser : unit.isUserData with
    | false =>
      rw [List.filter_cons_of_pos (by simp [huser]), List.findSome?_cons, List.findSome?_cons, ih]
    | true =>
      have hheader : unit.isSequenceHeader = false := by
        cases hheader : unit.isSequenceHeader with
        | false => rfl
        | true => exact huser.symm.trans (isUserData_of_isSequenceHeader hheader)
      rw [List.filter_cons_of_neg (by simp [huser]), ih, List.findSome?_cons,
        header?_of_not_isSequenceHeader hheader]

theorem Rearranged.findSome?_header?_eq (h : Rearranged units others) :
    others.findSome? header? = units.findSome? header? := by
  rw [← findSome?_header?_filter, ← h.rest_eq, findSome?_header?_filter]

/-- The totals do not tell the order of the user data. -/
theorem Rearranged.ofUnits_eq (h : Rearranged units others) :
    StreamSummary.ofUnits others = .ofUnits units := by
  have hunits := h.perm.symm
  have hpackets := hunits.flatMap_right validPackets
  simp only [StreamSummary.ofUnits, h.findSome?_header?_eq, hunits.countP_eq, hpackets.countP_eq]

/-! ## Requests -/

/-- Where problems are tolerated, a request prints what its inspection has seen of all units. -/
theorem InfoRequest.effect_run {request : InfoRequest} {w w' : Workspace} {bytes : List UInt8}
    (hopen : (Workspace.openInput request.input).effect w = (.ok bytes, w')) :
    (request.run .error).effect w = (.ok (),
      w'.print ((Inspection.ofUnits (unitSplit bytes)).display request.dump bytes.length)) := by
  have hchunks := Chunks.flatten_read (by decide : Chunks.commandSize ≠ 0) bytes
  have hstart : Inspection.start .error = Inspection.ofUnits [] := rfl
  have hunits : (forEachUnit (Chunks.read Chunks.commandSize bytes) Inspection.readUnit).effect
      (Inspection.start .error) = (.ok bytes.length, Inspection.ofUnits (unitSplit bytes)) := by
    rw [effect_forEachUnit, Splitter.units_splitChunks, hchunks, hstart,
      effect_bind_ok (Inspection.effect_each_readUnit _ _), List.nil_append, effect_pure]
  rw [run, effect_log_bind, effect_bind_ok hopen]
  apply effect_bind_ok
  rw [effect_locally, effect_bind_ok hunits]
  rfl

/-- Where problems are tolerated, inspecting units never fails. The totals are counts over the
units: the units of user data are those that were decoded and those that could not be, the decoded
ones are those of the four kinds, and the packets that are valid fall into two types. They stay the
same when the user data is in another order. There is one record for each decoded unit, in the order
of the stream, and a request prints the records, if they are wanted, and the totals. -/
theorem inspection_of_units (units : List StreamUnit) :
    let totals := StreamSummary.ofUnits units
    let records := recordsOf units
    (each Inspection.readUnit units).effect (.start .error) =
        (.ok (), ⟨.error, totals, records.reverse⟩) ∧
      totals.userDataUnits + totals.undecodable = units.countP isUserData ∧
      totals.userDataUnits =
        totals.ccData + totals.barData + totals.activeFormat + totals.unknown ∧
      totals.packets608 + totals.packetsDtvcc = (units.flatMap validPackets).length ∧
      records.length = totals.userDataUnits ∧
      (∀ others, Rearranged units others →
        ((each Inspection.readUnit others).effect (.start .error)).2.summary = totals) ∧
      ∀ (logLevel : Option Severity) (logFormat : LogFormat) (request : InfoRequest)
        (w w' : Workspace) (bytes : List UInt8),
        (Workspace.openInput request.input).effect w = (.ok bytes, w') →
        unitSplit bytes = units →
        (Invocation.mk logLevel logFormat false (.info request)).run.effect w =
          (.ok (), w'.print
            ((if request.dump then Yaml.render (.list (records.map UserDataRecord.document))
              else "") ++ totals.display bytes.length)) := by
  intro totals records
  have hrun (units : List StreamUnit) : (each Inspection.readUnit units).effect (.start .error) =
      (.ok (), .ofUnits units) :=
    Inspection.effect_each_readUnit [] units
  refine ⟨hrun units, StreamSummary.countP_isUserData units, StreamSummary.countP_hasKind units,
    StreamSummary.countP_type _, length_recordsOf units, fun others hothers ↦ ?_,
    fun _ _ request w w' bytes hopen hunits ↦ ?_⟩
  · rw [hrun]
    exact hothers.ofUnits_eq
  · change (request.run .error).effect w = _
    rw [InfoRequest.effect_run hopen, hunits, Inspection.display, Inspection.ofUnits,
      List.reverse_reverse]

/-- A stream with a bad header and user data of several kinds, and the same in another order. -/
theorem inspection_of_mixed_units :
    let header : StreamUnit := ⟨0xB3, [0x2D, 0x01, 0xE0, 0x24, 0, 0, 0x20, 0]⟩
    let badHeader : StreamUnit := ⟨0xB3, []⟩
    let picture : StreamUnit := ⟨0x00, []⟩
    let captions : StreamUnit := ⟨0xB2, [0x47, 0x41, 0x39, 0x34, 0x03, 0x43, 0xFF, 0xFC, 0x94, 0x20,
      0xF8, 0, 0, 0xFE, 0x12, 0x34, 0xFF]⟩
    let format : StreamUnit := ⟨0xB2, [0x44, 0x54, 0x47, 0x31, 0x41, 0xF8]⟩
    let other : StreamUnit := ⟨0xB2, [0x47, 0x41, 0x39, 0x34, 0x09]⟩
    let cut : StreamUnit := ⟨0xB2, [0x47, 0x41]⟩
    let units := [captions, badHeader, header, picture, cut, format, picture, other]
    let others := [badHeader, header, picture, cut, picture, other, format, captions]
    let totals : StreamSummary := ⟨some 720, some 480, some "29.970", 2, 3, 1, 0, 1, 1, 1, 1, 1⟩
    let records : List UserDataRecord := [
      .ccData 0 true 0xFF [⟨true, 0, 0x94, 0x20, true⟩, ⟨false, 0, 0, 0, true⟩,
        ⟨true, 2, 0x12, 0x34, false⟩],
      .activeFormat 0 (some 8), .unknown 1 "GA94" (some 9)]
    let bytes := encodeAll units
    let w : Workspace := ⟨[("in", bytes)], [], [], ""⟩
    let request : InfoRequest := ⟨"in", true⟩
    Rearranged units others ∧
      ((each Inspection.readUnit others).effect (.start .error)).2.summary = totals ∧
      (Workspace.openInput request.input).effect w = (.ok bytes, w) ∧
      (Invocation.mk none .plain false (.info request)).run.effect w = (.ok (), w.print
        (Yaml.render (.list (records.map UserDataRecord.document)) ++
          totals.display bytes.length)) := by
  intro header badHeader picture captions format other cut units others totals records bytes w
    request
  have hothers : Rearranged units others := ⟨by decide, by decide⟩
  have htotals : StreamSummary.ofUnits units = totals := by decide +kernel
  have hrecords : recordsOf units = records := by decide +kernel
  have hopen : (Workspace.openInput request.input).effect w = (.ok bytes, w) := by decide +kernel
  have hunits : unitSplit bytes = units := unitSplit_encodeAll (by decide)
  obtain ⟨-, -, -, -, -, hsame, hrun⟩ := inspection_of_units units
  have hprinted := hrun none .plain request w w bytes hopen hunits
  rw [htotals, hrecords] at hprinted
  exact ⟨hothers, (hsame others hothers).trans htotals, hopen, hprinted⟩

end ClosedCaptions
