import ClosedCaptions.Proofs.Decode.Captions
import ClosedCaptions.Proofs.Decode.Presentation
import ClosedCaptions.Proofs.Stream.Coverage

/-!
# Display order

Captions come in the order in which their pictures are coded, and wait until their group is
complete. Where every group is well arranged, a presentation hands out each of them once, with the
place of its picture among all pictures of the stream, in the order of these places.
-/

namespace ClosedCaptions.Presentation

open Procedure StreamUnit

variable {frameRate : Option Float} {before group units : List StreamUnit} {unit : StreamUnit}
  {caption : Caption}

/-! ## Inside a group -/

variable {σ : Type}

/-- The presentation has come through `before` and into a group, whose captions wait. -/
structure Within (frameRate : Option Float) (before group : List StreamUnit) (consumer : σ)
    (p : Presentation σ) : Prop where
  failLevel_eq : p.failLevel = .error
  frameRate_eq : p.frameRate = frameRate.or (before.findSome? frameRate?)
  pictures_eq : p.order.pictures = before.countP isPicture + group.countP isPicture
  base_eq : p.order.base = before.countP isPicture
  current_eq : ∀ reference ∈ latest? group, p.order.current = p.order.base + reference
  waiting_eq : p.order.waiting.reverse =
    (captionsFrom frameRate before group).map fun caption ↦ (caption.place, caption.packets)
  consumer_eq : p.consumer = consumer

variable {p : Presentation σ} {c : σ} {reference : Nat}

namespace Within

/-- A picture is the latest one. -/
theorem addPicture (h : Within frameRate before group c p) (hpicture : unit.isPicture = true)
    (hreference : unit.reference? = some reference) :
    Within frameRate before (group ++ [unit]) c { p with
      order := { p.order with
        pictures := p.order.pictures + 1
        current := p.order.base + reference } } where
  failLevel_eq := h.failLevel_eq
  frameRate_eq := h.frameRate_eq
  pictures_eq := by
    rw [List.countP_append, List.countP_singleton, if_pos hpicture, ← Nat.add_assoc,
      ← h.pictures_eq]
  base_eq := h.base_eq
  current_eq := by
    rw [latest?_concat_of_isPicture hpicture, hreference]
    rintro _ ⟨⟩
    rfl
  waiting_eq := by
    have hnot : unit.hasCaptions = false := by
      rw [hasCaptions, ccData?_of_isPicture hpicture]
      rfl
    rw [captionsFrom_append, captionsFrom_singleton_of_not hnot, List.append_nil]
    exact h.waiting_eq
  consumer_eq := h.consumer_eq

/-- Captions wait with the place of the latest picture. -/
theorem attach (h : Within frameRate before group c p) (hclosed : Closed before)
    (hgroup : Borderless group) (hcaptions : unit.hasCaptions = true)
    (hlatest : latest? group = some reference) :
    Within frameRate before (group ++ [unit]) c
      { p with order := p.order.attach unit.captionBytes } where
  failLevel_eq := h.failLevel_eq
  frameRate_eq := h.frameRate_eq
  pictures_eq := by
    rw [List.countP_append, List.countP_singleton, isPicture_of_hasCaptions hcaptions]
    exact h.pictures_eq
  base_eq := h.base_eq
  current_eq := by
    rw [latest?_concat_of_not_isPicture (isPicture_of_hasCaptions hcaptions)]
    exact h.current_eq
  waiting_eq := by
    have hplace : placeBehind (before ++ group) = p.order.current := by
      rw [placeBehind_append hclosed hgroup, hlatest, h.current_eq reference hlatest, h.base_eq]
      rfl
    have hlast : captionsFrom frameRate (before ++ group) [unit] =
        [⟨p.order.current, rateBehind frameRate (before ++ group), unit.captionBytes⟩] := by
      rw [captionsFrom, if_pos hcaptions, hplace]
      rfl
    rw [captionsFrom_append, hlast, List.map_append, ← h.waiting_eq]
    exact List.reverse_cons
  consumer_eq := h.consumer_eq

theorem skip (h : Within frameRate before group c p) (hpicture : unit.isPicture = false)
    (hcaptions : unit.hasCaptions = false) : Within frameRate before (group ++ [unit]) c p where
  failLevel_eq := h.failLevel_eq
  frameRate_eq := h.frameRate_eq
  pictures_eq := by
    rw [List.countP_append, List.countP_singleton, hpicture]
    exact h.pictures_eq
  base_eq := h.base_eq
  current_eq := by
    rw [latest?_concat_of_not_isPicture hpicture]
    exact h.current_eq
  waiting_eq := by
    rw [captionsFrom_append, captionsFrom_singleton_of_not hcaptions, List.append_nil]
    exact h.waiting_eq
  consumer_eq := h.consumer_eq

end Within

theorem effect_readPicture (h : unit.reference? = some reference) (p : Presentation σ) :
    (readPicture unit.data).effect p = (.ok (), { p with
      order := { p.order with
        pictures := p.order.pictures + 1
        current := p.order.base + reference } }) := by
  have hattempt : (PictureHeader.read unit.data).attempt.effect p =
      (.ok ((PictureHeader.read unit.data).effect ()).1, p) := rfl
  rw [reference?] at h
  rw [readPicture, effect_bind_ok hattempt]
  rcases hread : ((PictureHeader.read unit.data).effect ()).1 with cause | header <;>
    rw [hread] at h
  · contradiction
  · obtain rfl := Option.some.inj h
    rfl

theorem effect_readUserData (hlevel : p.failLevel = .error) (huser : unit.isUserData = true) :
    (readUserData unit.data).effect p = (.ok (), { p with
      order := if unit.hasCaptions then p.order.attach unit.captionBytes else p.order }) := by
  have hattempt : (UserData.read unit.data).attempt.effect p =
      (.ok ((UserData.read unit.data).effect ()).1, p) := rfl
  rw [readUserData, effect_bind_ok hattempt, hasCaptions]
  rcases hread : ((UserData.read unit.data).effect ()).1 with cause | data
  · rw [ccData?_of_read_eq_error hread]
    dsimp only
    rw [tolerate, effect_get_bind, hlevel, tolerate_error, effect_log, ← hlevel]
    rfl
  · have hfound := ccData?_of_read_eq_ok huser hread
    dsimp only
    cases hdata : data.ccData? with
    | none =>
      rw [hdata] at hfound
      rw [hfound]
      rfl
    | some block =>
      rw [hdata] at hfound
      rw [hfound, Option.map_some, Option.isSome_some, if_pos rfl,
        effect_bind_ok (effect_locally_append hfound p)]
      rfl

variable (ticks : Nat → Float → Int64) (consume : List UInt8 → Int64 → Procedure σ Unit)

theorem readUnit_of_not_isBorder (h : unit.isBorder = false) :
    readUnit ticks consume unit =
      if unit.isPicture then readPicture unit.data
      else if unit.isUserData then readUserData unit.data else pure () := by
  rw [isBorder, Bool.or_assoc, Bool.or_eq_false_iff] at h
  rw [readUnit, if_neg (Bool.eq_false_iff.mp h.1), if_neg (Bool.eq_false_iff.mp h.2)]

theorem Within.readUnit (h : Within frameRate before group c p) (hclosed : Closed before)
    (hgroup : Borderless (group ++ [unit]))
    (hpicture : unit.isPicture = true → ∃ reference, unit.reference? = some reference)
    (hcaptions : unit.hasCaptions = true → ∃ reference, latest? group = some reference) :
    ∃ q, (Presentation.readUnit ticks consume unit).effect p = (.ok (), q) ∧
      Within frameRate before (group ++ [unit]) c q := by
  have hfront : Borderless group := fun unit hmem ↦ hgroup unit (List.mem_append_left _ hmem)
  rw [readUnit_of_not_isBorder ticks consume (hgroup unit (by simp))]
  split
  · next hisPicture =>
    obtain ⟨reference, hreference⟩ := hpicture hisPicture
    exact ⟨_, effect_readPicture hreference p, h.addPicture hisPicture hreference⟩
  next hisPicture =>
  rw [Bool.not_eq_true] at hisPicture
  split
  · next huser =>
    refine ⟨_, effect_readUserData h.failLevel_eq huser, ?_⟩
    split
    · next hhas =>
      obtain ⟨reference, hreference⟩ := hcaptions hhas
      exact h.attach hclosed hfront hhas hreference
    · next hhas => exact h.skip hisPicture (Bool.eq_false_iff.mpr hhas)
  · next huser =>
    have hhas : unit.hasCaptions = false := by
      rw [hasCaptions, ccData?_of_not_isUserData (Bool.eq_false_iff.mpr huser)]
      rfl
    exact ⟨p, rfl, h.skip hisPicture hhas⟩

/-- A well-arranged group is read without a failure and without the consumer. -/
theorem Within.readGroup (h : Within frameRate before [] c p) (hclosed : Closed before)
    (hgroup : Borderless group) (harranged : Arranged group) :
    ∃ q, (each (Presentation.readUnit ticks consume) group).effect p = (.ok (), q) ∧
      Within frameRate before group c q := by
  have hfront (front : List StreamUnit) (back : List StreamUnit) (hsplit : group = front ++ back) :
      ∃ q, (each (Presentation.readUnit ticks consume) front).effect p = (.ok (), q) ∧
        Within frameRate before front c q := by
    induction front using List.reverseRecOn generalizing back with
    | nil => exact ⟨p, rfl, h⟩
    | append_singleton front unit ih =>
      rw [List.append_assoc, List.singleton_append] at hsplit
      obtain ⟨q, hread, hwithin⟩ := ih (unit :: back) hsplit
      have hborderless : Borderless (front ++ [unit]) := by
        intro other hother
        apply hgroup
        rw [hsplit]
        simp only [List.mem_append, List.mem_cons, List.not_mem_nil, or_false] at hother ⊢
        tauto
      have hpicture (hpicture : unit.isPicture = true) :
          ∃ reference, unit.reference? = some reference := by
        obtain ⟨reference, hreference, _⟩ :=
          harranged.exists_reference (by rw [hsplit]; simp) hpicture
        exact ⟨reference, hreference⟩
      have hcaptions (hcaptions : unit.hasCaptions = true) :
          ∃ reference, latest? front = some reference := by
        have hwhole : Arranged (front ++ unit :: back) := hsplit ▸ harranged
        obtain ⟨reference, hreference, _⟩ :=
          hwhole.exists_latest (List.subset_append_left _ _) (hwhole.any_isPicture hcaptions)
        exact ⟨reference, hreference⟩
      obtain ⟨r, hreadUnit, hwithin'⟩ :=
        hwithin.readUnit ticks consume hclosed hborderless hpicture hcaptions
      refine ⟨r, ?_, hwithin'⟩
      rw [each_append, effect_bind_ok hread, each_cons, effect_bind_ok hreadUnit]
      rfl
  exact hfront group [] (List.append_nil group).symm

/-! ## From group to group -/

/-- Hand a caption to a consumer, with its time. -/
def Caption.give (ticks : Nat → Float → Int64) (consume : List UInt8 → Int64 → Procedure σ Unit)
    (caption : Caption) : Procedure σ Unit :=
  consume caption.packets (ticks caption.place caption.rate)

theorem due_of_waiting {order : DisplayOrder} {captions : List Caption}
    (h : order.waiting.reverse =
      captions.map fun caption ↦ (caption.place, caption.packets)) :
    order.due = (sortCaptions captions).map fun caption ↦ (caption.place, caption.packets) := by
  rw [DisplayOrder.due, h, sortCaptions]
  symm
  apply List.map_mergeSort
  intros
  rfl

/-- What waits is handed out in order, and then nothing waits. -/
theorem Within.effect_flush (h : Within frameRate before group c p) (hclosed : Closed before)
    (hgroup : Borderless group) (harranged : Arranged group) :
    (flush ticks consume).effect p =
      (focus consumer (fun c (p : Presentation σ) ↦ { p with consumer := c })
        (each (Caption.give ticks consume)
          (sortCaptions (captionsFrom frameRate before group)))).effect
        { p with order := p.order.clear } := by
  have hrate : p.rate = rateBehind frameRate before := by
    rw [rate, h.frameRate_eq, rateBehind]
  have hsteps : each (fun due : Nat × List UInt8 ↦
        focus consumer (fun c (p : Presentation σ) ↦ { p with consumer := c })
          (consume due.2 (ticks due.1 p.rate))) p.order.due =
      each (fun caption ↦ focus consumer (fun c (p : Presentation σ) ↦ { p with consumer := c })
        (Caption.give ticks consume caption))
        (sortCaptions (captionsFrom frameRate before group)) := by
    rw [due_of_waiting h.waiting_eq, each_map]
    apply each_congr
    intro caption hcaption
    have hbounds := bounds_of_mem_sortCaptions hclosed hgroup harranged hcaption
    rw [Caption.give, hbounds.2.2, hrate]
  rw [flush, effect_get_bind, modifyOrder, effect_modify_bind]
  refine (congrArg (Procedure.effect · _) hsteps).trans ?_
  apply effect_each_focus
  · exact fun _ ↦ rfl
  · exact fun _ _ ↦ rfl
  · exact fun _ _ _ ↦ rfl

theorem Within.related_flush (h : Within frameRate before group c p) (hclosed : Closed before)
    (hgroup : Borderless group) (harranged : Arranged group) :
    Related (fun _ q _ c' ↦ q = { p with order := p.order.clear, consumer := c' })
      (fun q c' ↦ q.consumer = c') (flush ticks consume)
      (each (Caption.give ticks consume) (sortCaptions (captionsFrom frameRate before group)))
      p c := by
  unfold Related
  rw [h.effect_flush ticks consume hclosed hgroup harranged, effect_focus, ← h.consumer_eq]
  rcases (each (Caption.give ticks consume)
    (sortCaptions (captionsFrom frameRate before group))).effect p.consumer with ⟨e | _, c'⟩
  · exact ⟨rfl, rfl⟩
  · exact rfl

/-- What a border does once its group was handed out. -/
def openGroup (border : StreamUnit) : Procedure (Presentation σ) Unit := do
  modifyOrder DisplayOrder.newGroup
  if border.isSequenceHeader then
    let p ← Procedure.get
    if p.frameRate.isNone then readHeader border.data

theorem readUnit_of_isBorder (h : unit.isBorder = true) :
    readUnit ticks consume unit = flush ticks consume >>= fun _ ↦ openGroup unit := by
  rw [readUnit, beginGroup]
  cases hheader : unit.isSequenceHeader with
  | true =>
    unfold openGroup
    rw [hheader, bind_assoc]
    rfl
  | false =>
    rw [isBorder, hheader, Bool.or_assoc, Bool.false_or] at h
    unfold openGroup
    rw [hheader, h, if_neg Bool.false_ne_true, if_pos rfl]
    simp

/-- The first frame rate that a sequence header tells is kept. -/
theorem effect_openGroup (hlevel : p.failLevel = .error) :
    (openGroup unit).effect p = (.ok (), { p with
      frameRate := p.frameRate.or unit.frameRate?
      order := p.order.newGroup }) := by
  have hattempt (p : Presentation σ) : (SequenceHeader.read unit.data).attempt.effect p =
      (.ok ((SequenceHeader.read unit.data).effect ()).1, p) := rfl
  rw [openGroup, modifyOrder, effect_modify_bind]
  split
  · next hheader =>
    rw [effect_get_bind]
    cases hrate : p.frameRate with
    | some rate =>
      rw [if_neg (by simp), Option.some_or, effect_pure]
    | none =>
      rw [if_pos (by simp), Option.none_or, readHeader, effect_bind_ok (hattempt _), frameRate?,
        if_pos hheader]
      rcases ((SequenceHeader.read unit.data).effect ()).1 with cause | header
      · dsimp only
        rw [tolerate, effect_get_bind, hlevel, tolerate_error, effect_log]
      · dsimp only
        rcases header.frameRate? with _ | ⟨num, den⟩
        · rfl
        · rw [effect_log_bind]
          rfl
  · next hheader =>
    rw [frameRate?, if_neg hheader, Option.or_none, effect_pure]

/-- A border hands out its group, and the next one begins. -/
theorem Within.related_readBorder {border : StreamUnit} (h : Within frameRate before group c p)
    (hclosed : Closed before) (hgroup : Borderless group) (harranged : Arranged group)
    (hborder : border.isBorder = true) :
    Related (fun _ q _ c' ↦ Within frameRate (before ++ group ++ [border]) [] c' q)
      (fun q c' ↦ q.consumer = c') (Presentation.readUnit ticks consume border)
      (each (Caption.give ticks consume) (sortCaptions (captionsFrom frameRate before group)))
      p c := by
  have hpictures : p.order.pictures = (before ++ group ++ [border]).countP isPicture := by
    rw [List.countP_append, List.countP_append, List.countP_singleton,
      isPicture_of_isBorder hborder]
    exact h.pictures_eq
  rw [readUnit_of_isBorder ticks consume hborder]
  apply related_bind_alone (h.related_flush ticks consume hclosed hgroup harranged)
  rintro _ _ _ c' rfl
  refine ⟨(), _, effect_openGroup h.failLevel_eq, ?_⟩
  exact {
    failLevel_eq := h.failLevel_eq
    frameRate_eq := by
      rw [h.frameRate_eq, List.findSome?_append, findSome?_frameRate?_append before hgroup,
        Option.or_assoc]
      simp
    pictures_eq := hpictures
    base_eq := hpictures
    current_eq := nofun
    waiting_eq := rfl
    consumer_eq := rfl }

/-! ## Whole streams -/

/-- Units behind others hand out their captions in order, group by group, up to a failure of the
consumer. -/
theorem related_units (frameRate : Option Float) (units : List StreamUnit) :
    ∀ before, Closed before → (∀ group ∈ groups units, Arranged group) →
      ∃ shown, InOrder shown (captionsFrom frameRate before units) ∧
        (∀ caption ∈ shown, before.countP isPicture ≤ caption.place) ∧
        ∀ {σ : Type} (ticks : Nat → Float → Int64) (consume : List UInt8 → Int64 → Procedure σ Unit)
          (p : Presentation σ) (c : σ), Within frameRate before [] c p →
          Related (fun _ q _ c' ↦ q.consumer = c' ∧
              q.order.pictures = (before ++ units).countP isPicture ∧
              q.rate = rateBehind frameRate (before ++ units))
            (fun q c' ↦ q.consumer = c')
            (each (readUnit ticks consume) units >>= fun _ ↦ flush ticks consume)
            (each (Caption.give ticks consume) shown) p c := by
  induction units using groups_induction with
  | last group hgroup =>
    intro before hclosed harranged
    rw [groups_of_borderless hgroup] at harranged
    have hlast := harranged group (List.mem_singleton_self group)
    refine ⟨_, inOrder_sortCaptions _, ?_, ?_⟩
    · intro caption hcaption
      exact (bounds_of_mem_sortCaptions hclosed hgroup hlast hcaption).1
    · intro σ ticks consume p c hp
      obtain ⟨q, hread, hq⟩ := hp.readGroup ticks consume hclosed hgroup hlast
      unfold Related
      rw [effect_bind_ok hread]
      refine (hq.related_flush ticks consume hclosed hgroup hlast).mono ?_ fun _ _ h ↦ h
      rintro _ _ _ c' rfl
      refine ⟨rfl, ?_, ?_⟩
      · rw [List.countP_append]
        exact hq.pictures_eq
      · rw [rate, rateBehind_append _ _ hgroup, rateBehind, ← hq.frameRate_eq]
  | step group border rest hgroup hborder ih =>
    intro before hclosed harranged
    rw [groups_append hgroup hborder, List.forall_mem_cons] at harranged
    obtain ⟨hfirst, hrest⟩ := harranged
    have hwhole : before ++ (group ++ border :: rest) = before ++ group ++ [border] ++ rest := by
      simp
    obtain ⟨shown, horder, hbound, hrun⟩ := ih (before ++ group ++ [border])
      (closed_concat _ hborder) hrest
    have hpictures : (before ++ group ++ [border]).countP isPicture =
        (before ++ group).countP isPicture := by
      rw [List.countP_append, List.countP_singleton, isPicture_of_isBorder hborder]
      rfl
    have hgroupBounds (caption : Caption)
        (h : caption ∈ sortCaptions (captionsFrom frameRate before group)) :=
      bounds_of_mem_sortCaptions hclosed hgroup hfirst h
    refine ⟨sortCaptions (captionsFrom frameRate before group) ++ shown, ?_, ?_, ?_⟩
    · rw [captionsFrom_append_border frameRate before group hborder]
      apply (inOrder_sortCaptions _).append horder
      intro a ha b hb
      have hlt := (hgroupBounds a ha).2.1
      have hle := hbound b hb
      omega
    · intro caption hcaption
      rcases List.mem_append.mp hcaption with hcaption | hcaption
      · exact (hgroupBounds caption hcaption).1
      · have hle := hbound caption hcaption
        rw [hpictures, List.countP_append] at hle
        omega
    · intro σ ticks consume p c hp
      obtain ⟨q, hread, hq⟩ := hp.readGroup ticks consume hclosed hgroup hfirst
      rw [each_append, each_cons, each_append, bind_assoc, bind_assoc, hwhole]
      unfold Related
      rw [effect_bind_ok hread]
      apply related_bind (hq.related_readBorder ticks consume hclosed hgroup hfirst hborder)
      intro _ r _ c' hr
      exact hrun ticks consume r c' hr

theorem effect_present (bytes : List UInt8) (p : Presentation σ) :
    (present ticks consume bytes).effect p =
      (each (readUnit ticks consume) (unitSplit bytes) >>= (fun _ ↦ flush ticks consume) >>=
        fun _ ↦ Procedure.get >>= fun p ↦ pure (ticks p.order.pictures p.rate)).effect p := by
  have hunits := effect_forEachUnit (readUnit ticks consume)
    (Chunks.read Chunks.commandSize bytes) p
  rw [Splitter.units_splitChunks, Chunks.flatten_read (by decide)] at hunits
  rw [present, effect_bind_congr hunits fun _ _ ↦ rfl, bind_assoc, bind_assoc]
  simp only [pure_bind]

/-- A presentation of a stream of well-arranged groups hands out its captions in order, up to a
failure of the consumer, and ends at the time of a picture behind the last one. -/
theorem related_present (frameRate : Option Float) (bytes : List UInt8)
    (harranged : ∀ group ∈ groups (unitSplit bytes), Arranged group) :
    ∃ shown, InOrder shown (captionsFrom frameRate [] (unitSplit bytes)) ∧
      ∀ {σ : Type} (ticks : Nat → Float → Int64) (consume : List UInt8 → Int64 → Procedure σ Unit)
        (c : σ),
        Related (fun stop q _ c' ↦ q.consumer = c' ∧
            stop = ticks ((unitSplit bytes).countP isPicture)
              (rateBehind frameRate (unitSplit bytes)))
          (fun q c' ↦ q.consumer = c') (present ticks consume bytes)
          (each (Caption.give ticks consume) shown) (start .error frameRate c) c := by
  obtain ⟨shown, horder, -, hrun⟩ :=
    related_units frameRate (unitSplit bytes) [] closed_nil harranged
  refine ⟨shown, horder, ?_⟩
  intro σ ticks consume c
  have hstart : Within frameRate [] [] c (start .error frameRate c) := {
    failLevel_eq := rfl
    frameRate_eq := (Option.or_none).symm
    pictures_eq := rfl
    base_eq := rfl
    current_eq := nofun
    waiting_eq := rfl
    consumer_eq := rfl }
  refine related_congr (effect_present ticks consume bytes _) rfl ?_
  apply related_bind_alone (hrun ticks consume _ c hstart)
  intro _ q _ c' ⟨hconsumer, hpictures, hrate⟩
  refine ⟨_, q, effect_get_bind _ q, hconsumer, ?_⟩
  rw [hpictures, hrate]
  rfl

end ClosedCaptions.Presentation
