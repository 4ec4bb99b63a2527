import ClosedCaptions.Proofs.Effect

/-!
# Conditions before and after a procedure

What a procedure leaves when it succeeds and when it fails, given what holds before. The rules
follow the way a procedure is put together.
-/

namespace ClosedCaptions.Procedure

variable {σ τ α β γ : Type}

/-- A success is as `Q` says, and a failure leaves what `E` says. -/
def Post (Q : α → σ → Prop) (E : σ → Prop) : Except Error α × σ → Prop
  | (.ok a, s) => Q a s
  | (.error _, s) => E s

/-- From the states in `P`, the procedure ends as `Q` and `E` say. -/
def Ensures (P : σ → Prop) (p : Procedure σ α) (Q : α → σ → Prop) (E : σ → Prop) : Prop :=
  ∀ s, P s → Post Q E (p.effect s)

variable {P : σ → Prop} {p : Procedure σ α} {Q : α → σ → Prop} {E : σ → Prop}

/-- What holds after both outcomes holds of the state that is left. -/
theorem Post.state {I : σ → Prop} {outcome : Except Error α × σ} (h : Post Q E outcome)
    (hQ : ∀ a s, Q a s → I s) (hE : ∀ s, E s → I s) : I outcome.2 := by
  match outcome with
  | (.ok a, s) => exact hQ a s h
  | (.error _, s) => exact hE s h

theorem Ensures.mono {P' : σ → Prop} {Q' : α → σ → Prop} {E' : σ → Prop} (h : Ensures P p Q E)
    (hP : ∀ s, P' s → P s) (hQ : ∀ a s, Q a s → Q' a s) (hE : ∀ s, E s → E' s) :
    Ensures P' p Q' E' := by
  intro s hs
  have hpost := h s (hP s hs)
  rcases heffect : p.effect s with ⟨_ | a, t⟩ <;> rw [heffect] at hpost
  · exact hE t hpost
  · exact hQ a t hpost

/-- A procedure that cannot fail succeeds. -/
theorem Ensures.exists_ok {s : σ} (h : Ensures P p Q E) (hE : ∀ t, ¬ E t) (hs : P s) :
    ∃ a t, p.effect s = (.ok a, t) ∧ Q a t := by
  have hpost := h s hs
  rcases heffect : p.effect s with ⟨_ | a, t⟩ <;> rw [heffect] at hpost
  · exact absurd hpost (hE t)
  · exact ⟨a, t, rfl, hpost⟩

/-- What holds anyway holds after every procedure. -/
theorem ensures_of_forall (hQ : ∀ a s, Q a s) (hE : ∀ s, E s) : Ensures P p Q E := by
  intro s _
  rcases p.effect s with ⟨_ | a, t⟩
  · exact hE t
  · exact hQ a t

theorem ensures_pure {a : α} (h : ∀ s, P s → Q a s) : Ensures P (pure a) Q E := h

theorem ensures_log {entry : Entry} {Q : Unit → σ → Prop} (h : ∀ s, P s → Q () s) :
    Ensures P (log entry) Q E := h

theorem ensures_modify {f : σ → σ} {Q : Unit → σ → Prop} (h : ∀ s, P s → Q () (f s)) :
    Ensures P (modify f) Q E := h

theorem Ensures.bind {f : α → Procedure σ β} {R : β → σ → Prop} (hp : Ensures P p Q E)
    (hf : ∀ a, Ensures (Q a) (f a) R E) : Ensures P (p >>= f) R E := by
  intro s hs
  have hpost := hp s hs
  rcases heffect : p.effect s with ⟨_ | a, t⟩ <;> rw [heffect] at hpost
  · rw [effect_bind_error heffect]
    exact hpost
  · rw [effect_bind_ok heffect]
    exact hf a t hpost

theorem ensures_log_bind {entry : Entry} {f : Unit → Procedure σ β} {R : β → σ → Prop}
    (h : Ensures P (f ()) R E) : Ensures P (log entry >>= f) R E := by
  intro s hs
  rw [effect_log_bind]
  exact h s hs

theorem ensures_get_bind {f : σ → Procedure σ β} {R : β → σ → Prop}
    (h : ∀ c, P c → Post R E ((f c).effect c)) : Ensures P (get >>= f) R E := by
  intro c hc
  rw [effect_get_bind]
  exact h c hc

theorem Ensures.map {f : α → β} {R : β → σ → Prop} (h : Ensures P p (fun a ↦ R (f a)) E) :
    Ensures P (f <$> p) R E := by
  intro s hs
  have hpost := h s hs
  rw [effect_map]
  rcases heffect : p.effect s with ⟨_ | a, t⟩ <;> rw [heffect] at hpost <;> exact hpost

theorem ensures_focus {part : σ → τ} {put : τ → σ → σ} {p : Procedure τ α}
    (h : ∀ s, P s → Ensures (· = part s) p (fun a t ↦ Q a (put t s)) fun t ↦ E (put t s)) :
    Ensures P (focus part put p) Q E := by
  intro s hs
  have hpost := h s hs (part s) rfl
  rw [effect_focus]
  rcases heffect : p.effect (part s) with ⟨_ | a, t⟩ <;> rw [heffect] at hpost <;> exact hpost

/-- A procedure on a state of its own changes nothing. -/
theorem ensures_locally (start : τ) (p : Procedure τ α) :
    Ensures P (locally start p : Procedure σ α) (fun _ ↦ P) P := by
  intro s hs
  rw [effect_locally]
  rcases (p.effect start).1 with _ | a <;> exact hs

/-! ## Views -/

variable {ν : Type} {view : σ → ν}

/-- Successes and failures leave what a view shows of the state. -/
def Preserves (view : σ → ν) (p : Procedure σ α) : Prop :=
  ∀ before, Ensures (fun s ↦ view s = before) p (fun _ s ↦ view s = before)
    fun s ↦ view s = before

theorem preserves_pure (a : α) : Preserves view (pure a) :=
  fun _ ↦ ensures_pure fun _ h ↦ h

theorem preserves_log (entry : Entry) : Preserves view (log entry) :=
  fun _ ↦ ensures_log fun _ h ↦ h

theorem preserves_modify {f : σ → σ} (h : ∀ s, view (f s) = view s) : Preserves view (modify f) :=
  fun _ ↦ ensures_modify fun s hs ↦ (h s).trans hs

theorem Preserves.bind {f : α → Procedure σ β} (hp : Preserves view p)
    (hf : ∀ a, Preserves view (f a)) : Preserves view (p >>= f) :=
  fun before ↦ (hp before).bind fun a ↦ hf a before

theorem preserves_modify_bind {f : σ → σ} {g : Unit → Procedure σ β}
    (h : ∀ s, view (f s) = view s) (hg : Preserves view (g ())) :
    Preserves view (modify f >>= g) :=
  (preserves_modify h).bind fun _ ↦ hg

/-! ## Lists of steps -/

/-- An invariant of each step. -/
theorem ensures_each {f : β → Procedure σ Unit} (h : ∀ b, Ensures P (f b) (fun _ ↦ P) E)
    (bs : List β) : Ensures P (each f bs) (fun _ ↦ P) E := by
  induction bs with
  | nil => exact ensures_pure fun _ hs ↦ hs
  | cons b bs ih =>
    rw [each_cons]
    exact (h b).bind fun _ ↦ ih

/-- A list of steps after another one; what both yield is put together. -/
theorem ensures_gather_append {f : β → Procedure σ (List γ)} {xs ys : List β}
    {Q R : List γ → σ → Prop} (hxs : Ensures P (gather f xs) Q E)
    (hys : ∀ found, Ensures (Q found) (gather f ys) (fun more ↦ R (found ++ more)) E) :
    Ensures P (gather f (xs ++ ys)) R E := by
  rw [gather_append]
  apply hxs.bind
  intro found
  exact (hys found).map

theorem ensures_gather_singleton {f : β → Procedure σ (List γ)} {b : β} {Q : List γ → σ → Prop}
    (h : Ensures P (f b) Q E) : Ensures P (gather f [b]) Q E := by
  have hsingle : gather f [b] = f b := by simp [gather_cons]
  rwa [hsingle]

/-- An invariant of each step, with a property of all that the steps yield. -/
theorem ensures_gather {f : β → Procedure σ (List γ)} {R : γ → Prop}
    (h : ∀ b, Ensures P (f b) (fun found s ↦ P s ∧ ∀ c ∈ found, R c) E) (bs : List β) :
    Ensures P (gather f bs) (fun found s ↦ P s ∧ ∀ c ∈ found, R c) E := by
  induction bs with
  | nil =>
    apply ensures_pure
    intro s hs
    exact ⟨hs, fun c hc ↦ absurd hc List.not_mem_nil⟩
  | cons b bs ih =>
    rw [gather_cons]
    apply (h b).bind
    intro found
    apply Ensures.map
    intro s hs
    have hrest := ih s hs.1
    rcases heffect : (gather f bs).effect s with ⟨_ | more, t⟩ <;> rw [heffect] at hrest
    · exact hrest
    · refine ⟨hrest.1, ?_⟩
      intro c hc
      rcases List.mem_append.mp hc with hc | hc
      · exact hs.2 c hc
      · exact hrest.2 c hc

/-! ## Failures -/

/-- From every state, a failure is as `R` says. -/
def FailsOnly (p : Procedure σ α) (R : Error → Prop) : Prop :=
  ∀ s e, (p.effect s).1 = .error e → R e

variable {R : Error → Prop}

theorem failsOnly_pure (a : α) : (pure a : Procedure σ α).FailsOnly R :=
  fun _ _ h ↦ nomatch h

theorem failsOnly_tolerate (failLevel : Severity) (problem : Error) :
    (tolerate failLevel problem : Procedure σ Unit).FailsOnly (· = problem) := by
  intro s e he
  rw [tolerate] at he
  split at he
  · exact (Except.error.inj he).symm
  · cases he

theorem failsOnly_get_bind {f : σ → Procedure σ β} (h : ∀ s, (f s).FailsOnly R) :
    (get >>= f).FailsOnly R :=
  fun s e he ↦ h s s e (by rwa [effect_get_bind] at he)

theorem FailsOnly.bind {f : α → Procedure σ β} (hp : p.FailsOnly R)
    (hf : ∀ a, (f a).FailsOnly R) : (p >>= f).FailsOnly R := by
  intro s e he
  rcases heffect : p.effect s with ⟨cause | a, t⟩
  · rw [effect_bind_error heffect] at he
    obtain rfl : cause = e := Except.error.inj he
    exact hp s cause (congrArg Prod.fst heffect)
  · rw [effect_bind_ok heffect] at he
    exact hf a t e he

theorem FailsOnly.map (h : p.FailsOnly R) (f : α → β) : (f <$> p).FailsOnly R := by
  rw [map_eq_pure_bind]
  exact h.bind fun a ↦ failsOnly_pure (f a)

/-- The failures of a list of steps are those of its steps. -/
theorem failsOnly_fold {f : α → β → Procedure σ α} {bs : List β}
    (h : ∀ a, ∀ b ∈ bs, (f a b).FailsOnly R) (a : α) : (fold f a bs).FailsOnly R := by
  induction bs generalizing a with
  | nil => exact failsOnly_pure a
  | cons b bs ih =>
    rw [fold_cons]
    apply (h a b List.mem_cons_self).bind
    exact ih fun a c hc ↦ h a c (List.mem_cons_of_mem b hc)

theorem failsOnly_gather {f : β → Procedure σ (List γ)} {bs : List β}
    (h : ∀ b ∈ bs, (f b).FailsOnly R) : (gather f bs).FailsOnly R :=
  (failsOnly_fold (fun _ b hb ↦ (h b hb).map _) []).map _

end ClosedCaptions.Procedure
