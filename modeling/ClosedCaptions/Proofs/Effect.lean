import ClosedCaptions.Procedure

/-!
# Effects

What a procedure does apart from logging: its result, and the state that it leaves whether or not
it succeeds. A sequence has the effect of its parts one after the other, up to the first failure.
-/

namespace ClosedCaptions.Procedure

variable {σ τ α β γ : Type}

/-- The result and the state that a procedure leaves. -/
def effect (p : Procedure σ α) (s : σ) : Except Error α × σ :=
  ((p.run s).result, (p.run s).state)

@[simp]
theorem effect_pure (a : α) (s : σ) : (pure a : Procedure σ α).effect s = (.ok a, s) := rfl

@[simp]
theorem effect_fail (e : Error) (s : σ) :
    (fail e : Procedure σ α).effect s = (.error e, s) := rfl

@[simp]
theorem effect_log (entry : Entry) (s : σ) : (log entry).effect s = (.ok (), s) := rfl

@[simp]
theorem effect_get (s : σ) : (get : Procedure σ σ).effect s = (.ok s, s) := rfl

@[simp]
theorem effect_modify (f : σ → σ) (s : σ) : (modify f).effect s = (.ok (), f s) := rfl

@[simp]
theorem effect_focus (part : σ → τ) (put : τ → σ → σ) (p : Procedure τ α) (s : σ) :
    (focus part put p).effect s = ((p.effect (part s)).1, put (p.effect (part s)).2 s) := rfl

@[simp]
theorem effect_locally (start : τ) (p : Procedure τ α) (s : σ) :
    (locally start p).effect s = ((p.effect start).1, s) := rfl

@[simp]
theorem effect_attempt (p : Procedure σ α) (s : σ) :
    p.attempt.effect s = (.ok (p.effect s).1, (p.effect s).2) := rfl

@[simp]
theorem effect_map (f : α → β) (p : Procedure σ α) (s : σ) :
    (f <$> p).effect s = ((p.effect s).1.map f, (p.effect s).2) := rfl

theorem effect_bind (p : Procedure σ α) (f : α → Procedure σ β) (s : σ) :
    (p >>= f).effect s =
      match p.effect s with
      | (.ok a, t) => (f a).effect t
      | (.error e, t) => (.error e, t) := by
  rcases h : p.run s with ⟨_ | a, t, entries⟩
  · simp only [effect, run_bind_error h, h]
  · simp only [effect, run_bind_ok h, h]

theorem effect_bind_ok {p : Procedure σ α} {f : α → Procedure σ β} {s t : σ} {a : α}
    (h : p.effect s = (.ok a, t)) : (p >>= f).effect s = (f a).effect t := by
  rw [effect_bind, h]

theorem effect_bind_error {p : Procedure σ α} {f : α → Procedure σ β} {s t : σ} {e : Error}
    (h : p.effect s = (.error e, t)) : (p >>= f).effect s = (.error e, t) := by
  rw [effect_bind, h]

theorem effect_onFailure_ok {p : Procedure σ α} {s t : σ} {a : α} (h : p.effect s = (.ok a, t))
    (change : σ → σ) : (p.onFailure change).effect s = (.ok a, t) := by
  rcases hrun : p.run s with ⟨_ | b, u, entries⟩ <;> rw [effect, hrun] at h
  · cases h
  · obtain ⟨rfl, rfl⟩ : b = a ∧ u = t := by simpa using h
    have hchange : (p.onFailure change).run s = ⟨.ok b, u, entries⟩ := by
      rw [run] at hrun
      simp only [run, onFailure, hrun]
    rw [effect, hchange]

theorem effect_onFailure_error {p : Procedure σ α} {s t : σ} {e : Error}
    (h : p.effect s = (.error e, t)) (change : σ → σ) :
    (p.onFailure change).effect s = (.error e, change t) := by
  rcases hrun : p.run s with ⟨e' | _, u, entries⟩ <;> rw [effect, hrun] at h
  · obtain ⟨rfl, rfl⟩ : e' = e ∧ u = t := by simpa using h
    have hchange : (p.onFailure change).run s = ⟨.error e', change u, entries⟩ := by
      rw [run] at hrun
      simp only [run, onFailure, hrun]
    rw [effect, hchange]
  · cases h

/-- A sequence succeeds where both parts do. -/
theorem effect_bind_eq_ok_iff {p : Procedure σ α} {f : α → Procedure σ β} {s u : σ} {b : β} :
    (p >>= f).effect s = (.ok b, u) ↔
      ∃ a t, p.effect s = (.ok a, t) ∧ (f a).effect t = (.ok b, u) := by
  rcases h : p.effect s with ⟨_ | a, t⟩
  · rw [effect_bind_error h]
    simp
  · rw [effect_bind_ok h]
    constructor
    · intro hf
      exact ⟨a, t, rfl, hf⟩
    · rintro ⟨_, _, ⟨⟩, hf⟩
      exact hf

/-! ## Parts that only look, log or change -/

@[simp]
theorem effect_log_bind (entry : Entry) (f : Unit → Procedure σ β) (s : σ) :
    (log entry >>= f).effect s = (f ()).effect s :=
  effect_bind_ok (effect_log entry s)

@[simp]
theorem effect_get_bind (f : σ → Procedure σ β) (s : σ) :
    (get >>= f).effect s = (f s).effect s :=
  effect_bind_ok (effect_get s)

@[simp]
theorem effect_modify_bind (g : σ → σ) (f : Unit → Procedure σ β) (s : σ) :
    (modify g >>= f).effect s = (f ()).effect (g s) :=
  effect_bind_ok (effect_modify g s)

@[simp]
theorem effect_fail_bind (e : Error) (f : α → Procedure σ β) (s : σ) :
    ((fail e : Procedure σ α) >>= f).effect s = (.error e, s) :=
  effect_bind_error (effect_fail e s)

/-- Nothing but an error is fatal at the level of errors. -/
theorem tolerate_error (problem : Error) :
    (tolerate .error problem : Procedure σ Unit) = log (.tolerated problem) := rfl

/-! ## Equal effects -/

theorem effect_bind_congr {p q : Procedure σ α} {f g : α → Procedure σ β} {s : σ}
    (hp : p.effect s = q.effect s) (hf : ∀ a t, (f a).effect t = (g a).effect t) :
    (p >>= f).effect s = (q >>= g).effect s := by
  rcases h : q.effect s with ⟨_ | a, t⟩
  · rw [effect_bind_error (hp.trans h), effect_bind_error h]
  · rw [effect_bind_ok (hp.trans h), effect_bind_ok h, hf]

/-! ## Lists of steps -/

theorem effect_each_log (entries : List Entry) (s : σ) :
    (each log entries).effect s = (.ok (), s) := by
  induction entries with
  | nil => rfl
  | cons entry entries ih => rw [each_cons, effect_log_bind, ih]

theorem each_append (f : β → Procedure σ Unit) (xs ys : List β) :
    each f (xs ++ ys) = each f xs >>= fun _ ↦ each f ys := by
  induction xs with
  | nil => rw [each_nil, pure_bind, List.nil_append]
  | cons x xs ih => rw [List.cons_append, each_cons, each_cons, ih, bind_assoc]

theorem each_map {γ : Type} (f : γ → Procedure σ Unit) (g : β → γ) (bs : List β) :
    each f (bs.map g) = each (fun b ↦ f (g b)) bs := by
  induction bs with
  | nil => rfl
  | cons b bs ih => rw [List.map_cons, each_cons, each_cons, ih]

theorem each_congr {f g : β → Procedure σ Unit} {bs : List β} (h : ∀ b ∈ bs, f b = g b) :
    each f bs = each g bs := by
  induction bs with
  | nil => rfl
  | cons b bs ih =>
    rw [List.forall_mem_cons] at h
    rw [each_cons, each_cons, h.1, ih h.2]

theorem gather_append (f : β → Procedure σ (List α)) (xs ys : List β) :
    gather f (xs ++ ys) = gather f xs >>= fun found ↦ (found ++ ·) <$> gather f ys := by
  induction xs with
  | nil => simp [gather_nil]
  | cons x xs ih =>
    rw [List.cons_append, gather_cons, gather_cons, ih, bind_assoc]
    congr 1
    funext found
    simp [bind_map_left, map_bind, Functor.map_map, List.append_assoc]

/-- Steps that work on a part of the state do so one after the other. -/
theorem effect_each_focus {f : β → Procedure τ Unit} {part : σ → τ} {put : τ → σ → σ}
    (hself : ∀ s, put (part s) s = s) (hget : ∀ s t, part (put t s) = t)
    (hput : ∀ s t u, put u (put t s) = put u s) (bs : List β) (s : σ) :
    (each (fun b ↦ focus part put (f b)) bs).effect s = (focus part put (each f bs)).effect s := by
  induction bs generalizing s with
  | nil => exact congrArg (Except.ok (), ·) (hself s).symm
  | cons b bs ih =>
    have hfirst := effect_focus part put (f b) s
    rw [each_cons, each_cons, effect_focus]
    rcases heffect : (f b).effect (part s) with ⟨e | _, t⟩ <;> rw [heffect] at hfirst
    · rw [effect_bind_error hfirst, effect_bind_error heffect]
    · rw [effect_bind_ok hfirst, effect_bind_ok heffect, ih, effect_focus, hget, hput]

/-- Steps that work on a part of the state and change what they yield do so one after the other. -/
theorem effect_gather_focus {P : σ → Prop} {f : β → Procedure σ (List α)}
    {g : β → Procedure τ (List γ)} {part : σ → τ} {put : τ → σ → σ} {change : γ → α}
    (hstep : ∀ s, P s → ∀ b, (f b).effect s = (List.map change <$> focus part put (g b)).effect s)
    (hP : ∀ s t, P s → P (put t s)) (hself : ∀ s, put (part s) s = s)
    (hget : ∀ s t, part (put t s) = t) (hput : ∀ s t u, put u (put t s) = put u s) (bs : List β)
    {s : σ} (hs : P s) :
    (gather f bs).effect s = (List.map change <$> focus part put (gather g bs)).effect s := by
  induction bs generalizing s with
  | nil => exact congrArg (Except.ok [], ·) (hself s).symm
  | cons b bs ih =>
    have hfirst := hstep s hs b
    rw [effect_map, effect_focus] at hfirst ⊢
    rw [gather_cons, gather_cons]
    rcases heffect : (g b).effect (part s) with ⟨e | found, t⟩ <;> rw [heffect] at hfirst
    · rw [effect_bind_error hfirst, effect_bind_error heffect]
      rfl
    · rw [effect_bind_ok hfirst, effect_bind_ok heffect, effect_map, ih (hP s t hs), effect_map,
        effect_map, effect_focus, hget, hput]
      rcases (gather g bs).effect t with ⟨e | more, u⟩
      · rfl
      · simp [Except.map]

/-- A list of steps fails at the first step that fails, after the steps before it. -/
theorem effect_each_eq_error_iff {f : β → Procedure σ Unit} {bs : List β} {s t : σ} {e : Error} :
    (each f bs).effect s = (.error e, t) ↔
      ∃ k b u, bs[k]? = some b ∧ (each f (bs.take k)).effect s = (.ok (), u) ∧
        (f b).effect u = (.error e, t) := by
  induction bs generalizing s with
  | nil => simp
  | cons b bs ih =>
    rw [each_cons]
    constructor
    · intro herror
      rcases hb : (f b).effect s with ⟨_ | _, u⟩
      · rw [effect_bind_error hb] at herror
        exact ⟨0, b, s, rfl, rfl, hb.trans herror⟩
      · rw [effect_bind_ok hb] at herror
        obtain ⟨k, c, v, hc, hbefore, hfails⟩ := ih.mp herror
        refine ⟨k + 1, c, v, hc, ?_, hfails⟩
        rw [List.take_succ_cons, each_cons, effect_bind_ok hb, hbefore]
    · rintro ⟨_ | k, c, v, hc, hbefore, hfails⟩
      · obtain rfl : b = c := Option.some.inj hc
        obtain rfl : s = v := congrArg Prod.snd hbefore
        rw [effect_bind_error hfails]
      · rw [List.take_succ_cons, each_cons, effect_bind_eq_ok_iff] at hbefore
        obtain ⟨_, u, hb, hrest⟩ := hbefore
        rw [effect_bind_ok hb]
        exact ih.mpr ⟨k, c, v, hc, hrest, hfails⟩

end ClosedCaptions.Procedure
