import ClosedCaptions.Proofs.Effect

/-!
# Related effects

Two procedures on states of different kinds, run side by side. Either both succeed and a relation
holds of what they yield and leave, or both fail with the same error and a weaker relation holds of
what they leave.
-/

namespace ClosedCaptions.Procedure

variable {σ τ σ' τ' α β γ δ ι : Type}

/-- Both effects succeed as `S` says, or both fail alike as `E` says. -/
def Match (S : α → σ → β → τ → Prop) (E : σ → τ → Prop) :
    Except Error α × σ → Except Error β × τ → Prop
  | (.ok a, s), (.ok b, t) => S a s b t
  | (.error e, s), (.error e', t) => e = e' ∧ E s t
  | _, _ => False

/-- The two procedures run in step from these states. -/
def Related (S : α → σ → β → τ → Prop) (E : σ → τ → Prop) (p : Procedure σ α)
    (q : Procedure τ β) (s : σ) (t : τ) : Prop :=
  Match S E (p.effect s) (q.effect t)

/-- Equal results and states in the relation. -/
def Keeps (R : σ → τ → Prop) : α → σ → α → τ → Prop :=
  fun a s b t ↦ a = b ∧ R s t

variable {S : α → σ → β → τ → Prop} {T : γ → σ → δ → τ → Prop} {R E : σ → τ → Prop}
  {p : Procedure σ α} {q : Procedure τ β} {s : σ} {t : τ}

theorem related_pure {a : α} {b : β} (h : S a s b t) : Related S E (pure a) (pure b) s t := h

theorem related_fail (e : Error) (h : E s t) :
    Related S E (fail e : Procedure σ α) (fail e : Procedure τ β) s t := ⟨rfl, h⟩

theorem related_modify {f : σ → σ} {g : τ → τ} {S : Unit → σ → Unit → τ → Prop}
    (h : S () (f s) () (g t)) : Related S E (modify f) (modify g) s t := h

theorem related_of_ok {a : α} {b : β} {s' : σ} {t' : τ} (hp : p.effect s = (.ok a, s'))
    (hq : q.effect t = (.ok b, t')) (h : S a s' b t') : Related S E p q s t := by
  unfold Related
  rw [hp, hq]
  exact h

theorem related_of_error {e : Error} {s' : σ} {t' : τ} (hp : p.effect s = (.error e, s'))
    (hq : q.effect t = (.error e, t')) (h : E s' t') : Related S E p q s t := by
  unfold Related
  rw [hp, hq]
  exact ⟨rfl, h⟩

/-- Procedures in step both succeed, or both fail with one error. -/
theorem Related.cases (h : Related S E p q s t) :
    (∃ a s' b t', p.effect s = (.ok a, s') ∧ q.effect t = (.ok b, t') ∧ S a s' b t') ∨
      ∃ e s' t', p.effect s = (.error e, s') ∧ q.effect t = (.error e, t') ∧ E s' t' := by
  unfold Related at h
  rcases hp : p.effect s with ⟨e | a, s'⟩ <;> rcases hq : q.effect t with ⟨e' | b, t'⟩ <;>
    rw [hp, hq] at h
  · obtain ⟨rfl, h⟩ := h
    exact .inr ⟨e, s', t', rfl, rfl, h⟩
  · exact h.elim
  · exact h.elim
  · exact .inl ⟨a, s', b, t', rfl, rfl, h⟩

theorem related_bind {f : α → Procedure σ γ} {g : β → Procedure τ δ} (h : Related S E p q s t)
    (hrest : ∀ a s' b t', S a s' b t' → Related T E (f a) (g b) s' t') :
    Related T E (p >>= f) (q >>= g) s t := by
  obtain ⟨a, s', b, t', hp, hq, hkept⟩ | ⟨e, s', t', hp, hq, hfailed⟩ := h.cases
  · unfold Related
    rw [effect_bind_ok hp, effect_bind_ok hq]
    exact hrest a s' b t' hkept
  · exact related_of_error (effect_bind_error hp) (effect_bind_error hq) hfailed

/-- One of two procedures goes on alone, and does not fail. -/
theorem related_bind_alone {S' : γ → σ → β → τ → Prop} {f : α → Procedure σ γ}
    (h : Related S E p q s t)
    (hrest : ∀ a s' b t', S a s' b t' → ∃ c u, (f a).effect s' = (.ok c, u) ∧ S' c u b t') :
    Related S' E (p >>= f) q s t := by
  obtain ⟨a, s', b, t', hp, hq, hkept⟩ | ⟨e, s', t', hp, hq, hfailed⟩ := h.cases
  · obtain ⟨c, u, hf, hc⟩ := hrest a s' b t' hkept
    exact related_of_ok ((effect_bind_ok hp).trans hf) hq hc
  · exact related_of_error (effect_bind_error hp) hq hfailed

theorem Related.mono {S' : α → σ → β → τ → Prop} {E' : σ → τ → Prop} (h : Related S E p q s t)
    (hS : ∀ a s' b t', S a s' b t' → S' a s' b t') (hE : ∀ s' t', E s' t' → E' s' t') :
    Related S' E' p q s t := by
  obtain ⟨a, s', b, t', hp, hq, hkept⟩ | ⟨e, s', t', hp, hq, hfailed⟩ := h.cases
  · exact related_of_ok hp hq (hS a s' b t' hkept)
  · exact related_of_error hp hq (hE s' t' hfailed)

theorem Related.result_eq {p : Procedure σ α} {q : Procedure τ α}
    (h : Related (Keeps R) R p q s t) :
    (p.effect s).1 = (q.effect t).1 ∧ R (p.effect s).2 (q.effect t).2 := by
  obtain ⟨a, s', b, t', hp, hq, rfl, hkept⟩ | ⟨e, s', t', hp, hq, hfailed⟩ := h.cases
  · rw [hp, hq]
    exact ⟨rfl, hkept⟩
  · rw [hp, hq]
    exact ⟨rfl, hfailed⟩

theorem related_congr {p' : Procedure σ α} {q' : Procedure τ β} (hp : p.effect s = p'.effect s)
    (hq : q.effect t = q'.effect t) (h : Related S E p' q' s t) : Related S E p q s t := by
  unfold Related
  rw [hp, hq]
  exact h

theorem related_get_bind {f : σ → Procedure σ γ} {g : τ → Procedure τ δ}
    (h : Related T E (f s) (g t) s t) : Related T E (get >>= f) (get >>= g) s t :=
  related_congr (effect_get_bind f s) (effect_get_bind g t) h

theorem related_log_bind {entry entry' : Entry} {f : Unit → Procedure σ γ}
    {g : Unit → Procedure τ δ} (h : Related T E (f ()) (g ()) s t) :
    Related T E (log entry >>= f) (log entry' >>= g) s t :=
  related_congr (effect_log_bind entry f s) (effect_log_bind entry' g t) h

theorem related_modify_bind {m : σ → σ} {n : τ → τ} {f : Unit → Procedure σ γ}
    {g : Unit → Procedure τ δ} (h : Related T E (f ()) (g ()) (m s) (n t)) :
    Related T E (modify m >>= f) (modify n >>= g) s t := by
  unfold Related
  rw [effect_modify_bind, effect_modify_bind]
  exact h

/-- A procedure on a state of its own does the same beside either state. -/
theorem related_locally_bind {υ : Type} {start : υ} {body : Procedure υ α}
    {f : α → Procedure σ γ} {g : α → Procedure τ δ} (hE : E s t)
    (h : ∀ a, Related T E (f a) (g a) s t) :
    Related T E (locally start body >>= f) (locally start body >>= g) s t := by
  unfold Related
  rcases hbody : (body.effect start).1 with e | a
  · have hleft : (locally start body).effect s = (.error e, s) := congrArg (·, s) hbody
    have hright : (locally start body).effect t = (.error e, t) := congrArg (·, t) hbody
    rw [effect_bind_error hleft, effect_bind_error hright]
    exact ⟨rfl, hE⟩
  · have hleft : (locally start body).effect s = (.ok a, s) := congrArg (·, s) hbody
    have hright : (locally start body).effect t = (.ok a, t) := congrArg (·, t) hbody
    rw [effect_bind_ok hleft, effect_bind_ok hright]
    exact h a

/-- An attempt on a state of its own has the same result beside either state. -/
theorem related_attempt_locally_bind {υ : Type} {start : υ} {body : Procedure υ α}
    {f : Except Error α → Procedure σ γ} {g : Except Error α → Procedure τ δ}
    (h : ∀ result, Related T E (f result) (g result) s t) :
    Related T E ((locally start body).attempt >>= f) ((locally start body).attempt >>= g) s t :=
  related_congr (effect_bind_ok rfl) (effect_bind_ok rfl) (h _)

theorem related_focus {part : σ → σ'} {put : σ' → σ → σ} {part' : τ → τ'} {put' : τ' → τ → τ}
    {p : Procedure σ' α} {q : Procedure τ' β}
    (h : Related (fun a u b v ↦ S a (put u s) b (put' v t)) (fun u v ↦ E (put u s) (put' v t))
      p q (part s) (part' t)) :
    Related S E (focus part put p) (focus part' put' q) s t := by
  obtain ⟨a, u, b, v, hp, hq, hkept⟩ | ⟨e, u, v, hp, hq, hfailed⟩ := h.cases
  · exact related_of_ok (by rw [effect_focus, hp]) (by rw [effect_focus, hq]) hkept
  · exact related_of_error (by rw [effect_focus, hp]) (by rw [effect_focus, hq]) hfailed

theorem related_map {f : α → γ} {g : β → δ}
    (h : Related (fun a s' b t' ↦ T (f a) s' (g b) t') E p q s t) :
    Related T E (f <$> p) (g <$> q) s t := by
  obtain ⟨a, u, b, v, hp, hq, hkept⟩ | ⟨e, u, v, hp, hq, hfailed⟩ := h.cases
  · exact related_of_ok (by rw [effect_map, hp]; rfl) (by rw [effect_map, hq]; rfl) hkept
  · exact related_of_error (by rw [effect_map, hp]; rfl) (by rw [effect_map, hq]; rfl) hfailed

/-- A relation that each step keeps is kept by a list of steps. -/
theorem related_each {f : ι → Procedure σ Unit} {g : ι → Procedure τ Unit}
    (hstep : ∀ i s t, R s t → Related (Keeps R) E (f i) (g i) s t) (is : List ι) (h : R s t) :
    Related (Keeps R) E (each f is) (each g is) s t := by
  induction is generalizing s t with
  | nil => exact related_pure ⟨rfl, h⟩
  | cons i is ih =>
    rw [each_cons, each_cons]
    apply related_bind (hstep i s t h)
    intro _ s' _ t' hkept
    exact ih hkept.2

end ClosedCaptions.Procedure
