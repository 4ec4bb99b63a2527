import ClosedCaptions.Proofs.Effect
import ClosedCaptions.Proofs.Strict.Quiet

/-!
# Strict runs beside lenient ones

A strict run fails at the first problem, where a lenient run logs it and goes on. Up to there they
do the same and log the same, so a strict run succeeds just when the lenient one has no problem to
log. The rules follow the way a procedure is put together.
-/

namespace ClosedCaptions

namespace Procedure

variable {σ τ σ' τ' α β ι : Type}

/-- A run that fails or tolerates a problem. -/
def Flawed (done : Outcome σ α) : Prop :=
  ∀ a, done.result = .ok a → ¬ Clean done.log

/-- What a strict run leaves beside a lenient one: the same, up to the states, while nothing was
tolerated, and otherwise a failure. -/
inductive Tightened (R : σ → τ → Prop) : Outcome σ α → Outcome τ α → Prop
  | alike {a : α} {s : σ} {t : τ} {log : List Entry} (clean : Clean log) (kept : R s t) :
    Tightened R ⟨.ok a, s, log⟩ ⟨.ok a, t, log⟩
  | stopped {e : Error} {s : σ} {log : List Entry} {lenient : Outcome τ α}
    (flawed : Flawed lenient) : Tightened R ⟨.error e, s, log⟩ lenient

/-- The first procedure is the strict form of the second one, from these states. -/
def Tightens (R : σ → τ → Prop) (p : Procedure σ α) (q : Procedure τ α) (s : σ) (t : τ) : Prop :=
  Tightened R (p.run s) (q.run t)

variable {R : σ → τ → Prop} {p : Procedure σ α} {q : Procedure τ α} {s : σ} {t : τ}

/-! ## What follows for the two runs -/

theorem Tightens.ok_iff (h : Tightens R p q s t) (a : α) :
    (p.run s).result = .ok a ↔ (q.run t).result = .ok a ∧ Clean (q.run t).log := by
  unfold Tightens at h
  generalize p.run s = strict, q.run t = lenient at h
  cases h with
  | alike clean kept => exact ⟨fun h ↦ ⟨h, clean⟩, And.left⟩
  | stopped flawed => exact ⟨nofun, fun ⟨hok, hclean⟩ ↦ absurd hclean (flawed a hok)⟩

theorem Tightens.run_eq {p q : Procedure σ α} {a : α} (h : Tightens Eq p q s s)
    (hok : (p.run s).result = .ok a) : p.run s = q.run s := by
  unfold Tightens at h
  generalize p.run s = strict, q.run s = lenient at h hok
  cases h with
  | alike clean kept => rw [kept]
  | stopped flawed => cases hok

/-! ## Rules -/

theorem tightens_pure (a : α) (h : R s t) : Tightens R (pure a) (pure a) s t :=
  .alike clean_nil h

theorem tightens_log {entry : Entry} (hentry : entry.isProblem = false) (h : R s t) :
    Tightens R (log entry) (log entry) s t :=
  .alike (clean_singleton.mpr hentry) h

theorem tightens_modify {f : σ → σ} {g : τ → τ} (h : R (f s) (g t)) :
    Tightens R (modify f) (modify g) s t :=
  .alike clean_nil h

/-- Only here do the two runs part. -/
theorem tightens_tolerate (problem problem' : Error) :
    Tightens R (tolerate .warn problem) (tolerate .error problem') s t := by
  have hlogged : ¬ Clean [Entry.tolerated problem'] := by simp [clean_singleton, Entry.isProblem]
  exact .stopped fun _ _ ↦ hlogged

theorem Flawed.bind {g : α → Procedure τ β} (h : Flawed (q.run t)) :
    Flawed ((q >>= g).run t) := by
  intro b hok hclean
  rcases hq : q.run t with ⟨e | a, t', entries⟩ <;> rw [hq] at h
  · rw [run_bind_error hq] at hok
    cases hok
  · rw [run_bind_ok hq] at hclean
    exact h a rfl (clean_append.mp hclean).1

theorem tightens_bind {Q : σ → τ → Prop} {f : α → Procedure σ β} {g : α → Procedure τ β}
    (h : Tightens Q p q s t) (hrest : ∀ a s' t', Q s' t' → Tightens R (f a) (g a) s' t') :
    Tightens R (p >>= f) (q >>= g) s t := by
  unfold Tightens at h
  generalize hp : p.run s = strict, hq : q.run t = lenient at h
  cases h with
  | @alike a s' t' log clean kept =>
    have hnext := hrest a s' t' kept
    unfold Tightens at hnext ⊢
    rw [run_bind_ok hp, run_bind_ok hq]
    generalize (f a).run s' = strict, (g a).run t' = lenient at hnext
    cases hnext with
    | alike clean' kept' => exact .alike (clean_append.mpr ⟨clean, clean'⟩) kept'
    | stopped flawed =>
      exact .stopped fun b hok hclean ↦ flawed b hok (clean_append.mp hclean).2
  | stopped flawed =>
    unfold Tightens
    rw [run_bind_error hp]
    exact .stopped (hq ▸ flawed).bind

theorem tightens_get_bind {f : σ → Procedure σ β} {g : τ → Procedure τ β}
    (h : Tightens R (f s) (g t) s t) : Tightens R (get >>= f) (get >>= g) s t := by
  unfold Tightens at h ⊢
  rw [run_bind_ok (run_get s), run_bind_ok (run_get t)]
  exact h

theorem tightens_modify_bind {m : σ → σ} {n : τ → τ} {f : Unit → Procedure σ β}
    {g : Unit → Procedure τ β} (h : Tightens R (f ()) (g ()) (m s) (n t)) :
    Tightens R (modify m >>= f) (modify n >>= g) s t := by
  have hmodify : Tightens (fun s' t' ↦ s' = m s ∧ t' = n t) (modify m) (modify n) s t :=
    tightens_modify ⟨rfl, rfl⟩
  apply tightens_bind hmodify
  rintro _ _ _ ⟨rfl, rfl⟩
  exact h

theorem tightens_log_bind {entry : Entry} {f : Unit → Procedure σ β} {g : Unit → Procedure τ β}
    (hentry : entry.isProblem = false) (h : Tightens R (f ()) (g ()) s t) :
    Tightens R (log entry >>= f) (log entry >>= g) s t := by
  have hlog : Tightens (fun s' t' ↦ s' = s ∧ t' = t) (log entry) (log entry) s t :=
    tightens_log hentry ⟨rfl, rfl⟩
  apply tightens_bind hlog
  rintro _ _ _ ⟨rfl, rfl⟩
  exact h

theorem tightens_map (f : α → β) (h : Tightens R p q s t) :
    Tightens R (f <$> p) (f <$> q) s t := by
  rw [map_eq_pure_bind, map_eq_pure_bind]
  exact tightens_bind h fun a _ _ hkept ↦ tightens_pure (f a) hkept

theorem tightens_focus {R' : σ' → τ' → Prop} {part : σ → σ'} {put : σ' → σ → σ} {part' : τ → τ'}
    {put' : τ' → τ → τ} {p : Procedure σ' α} {q : Procedure τ' α}
    (h : Tightens R' p q (part s) (part' t)) (hput : ∀ u v, R' u v → R (put u s) (put' v t)) :
    Tightens R (focus part put p) (focus part' put' q) s t := by
  have hstrict : (focus part put p).run s =
      ⟨(p.run (part s)).result, put (p.run (part s)).state s, (p.run (part s)).log⟩ := rfl
  have hlenient : (focus part' put' q).run t =
      ⟨(q.run (part' t)).result, put' (q.run (part' t)).state t, (q.run (part' t)).log⟩ := rfl
  unfold Tightens at h ⊢
  rw [hstrict, hlenient]
  generalize p.run (part s) = strict, q.run (part' t) = lenient at h
  cases h with
  | alike clean kept => exact .alike clean (hput _ _ kept)
  | stopped flawed => exact .stopped flawed

/-- Runs that differ in no more than their states are strict forms of each other. -/
theorem tightens_of_run_eq {result : Except Error α} {s' : σ} {t' : τ} {log : List Entry}
    (hp : p.run s = ⟨result, s', log⟩) (hq : q.run t = ⟨result, t', log⟩) (hclean : Clean log)
    (hkept : R s' t') : Tightens R p q s t := by
  unfold Tightens
  rw [hp, hq]
  match result with
  | .ok a => exact .alike hclean hkept
  | .error e => exact .stopped nofun

theorem Quiet.tightens (hp : Quiet p) (s : σ) : Tightens Eq p p s s :=
  tightens_of_run_eq rfl rfl (hp s) rfl

/-! ## Levels in the state -/

/-- The procedure is strict where its state says so: from related states, the strict one first, it
is the strict form of itself. -/
def Tight (R : σ → σ → Prop) (p : Procedure σ α) : Prop :=
  ∀ s t, R s t → Tightens R p p s t

variable {R : σ → σ → Prop} {p : Procedure σ α}

theorem tight_pure (a : α) : Tight R (pure a) :=
  fun _ _ ↦ tightens_pure a

theorem tight_log {entry : Entry} (h : entry.isProblem = false) : Tight R (log entry) :=
  fun _ _ ↦ tightens_log h

theorem tight_modify {f : σ → σ} (h : ∀ s t, R s t → R (f s) (f t)) : Tight R (modify f) :=
  fun s t hst ↦ tightens_modify (h s t hst)

theorem Tight.bind {f : α → Procedure σ β} (hp : Tight R p) (hf : ∀ a, Tight R (f a)) :
    Tight R (p >>= f) :=
  fun s t hst ↦ tightens_bind (hp s t hst) hf

theorem Tight.map (hp : Tight R p) (f : α → β) : Tight R (f <$> p) :=
  fun s t hst ↦ tightens_map f (hp s t hst)

theorem Tight.focus {R : τ → τ → Prop} {Q : σ → σ → Prop} {p : Procedure τ α} (hp : Tight R p)
    {part : σ → τ} {put : τ → σ → σ} (hpart : ∀ s t, Q s t → R (part s) (part t))
    (hput : ∀ s t u v, Q s t → R u v → Q (put u s) (put v t)) : Tight Q (focus part put p) :=
  fun s t hst ↦ tightens_focus (hp _ _ (hpart s t hst)) fun u v ↦ hput s t u v hst

theorem Quiet.tight (hp : Quiet p) : Tight Eq p := by
  rintro s _ rfl
  exact hp.tightens s

/-- Two states to start from, of which what is put back does not depend on the level. -/
theorem Tight.tightens_focus_const {R : τ → τ → Prop} {p : Procedure τ α} (hp : Tight R p)
    {start start' : τ} (hstart : R start start') {put : τ → σ → σ}
    (hput : ∀ u v, R u v → put u = put v) (s : σ) :
    Tightens Eq (Procedure.focus (fun _ ↦ start) put p)
      (Procedure.focus (fun _ ↦ start') put p) s s :=
  tightens_focus (hp start start' hstart) fun u v huv ↦ congrFun (hput u v huv) s

/-- A procedure on a state of its own does the same on both sides. -/
theorem Quiet.tight_locally {start : τ} {body : Procedure τ α}
    (h : Quiet (Procedure.locally start body : Procedure σ α)) :
    Tight R (Procedure.locally start body) :=
  fun s _ ↦ tightens_of_run_eq rfl rfl (h s)

theorem Quiet.tight_attempt {start : τ} {body : Procedure τ α}
    (h : Quiet (Procedure.locally start body : Procedure σ α)) :
    Tight R (Procedure.locally start body).attempt :=
  fun s _ ↦ tightens_of_run_eq rfl rfl (h s)

/-- A change that has nothing to do with the level of the state. -/
theorem tight_modify_of_commutes {level : σ → Severity} {setLevel : Severity → σ → σ}
    (hself : ∀ t, setLevel (level t) t = t) (hset : ∀ l t, level (setLevel l t) = l) {f : σ → σ}
    (hf : ∀ l t, f (setLevel l t) = setLevel l (f t)) :
    Tight (fun s t ↦ level t = .error ∧ s = setLevel .warn t) (modify f) := by
  apply tight_modify
  rintro _ t ⟨hlevel, rfl⟩
  have hkept : level (f t) = level t :=
    calc
      level (f t) = level (setLevel (level t) (f t)) := by rw [← hf, hself]
      _ = level t := hset _ _
  exact ⟨hkept.trans hlevel, hf .warn t⟩

/-- The level decides what becomes of a problem. -/
theorem tight_tolerate {level : σ → Severity} {problem : σ → Error}
    (h : ∀ s t, R s t → level s = .warn ∧ level t = .error) :
    Tight R (get >>= fun s ↦ tolerate (level s) (problem s)) := by
  intro s t hst
  obtain ⟨hstrict, hlenient⟩ := h s t hst
  apply tightens_get_bind
  rw [hstrict, hlenient]
  exact tightens_tolerate _ _

/-! ### Lists of steps -/

theorem tight_fold {f : α → ι → Procedure σ α} (hstep : ∀ a i, Tight R (f a i)) (a : α)
    (is : List ι) : Tight R (fold f a is) := by
  induction is generalizing a with
  | nil => exact tight_pure a
  | cons i is ih =>
    rw [fold_cons]
    exact (hstep a i).bind ih

theorem tight_each {f : ι → Procedure σ Unit} (hstep : ∀ i, Tight R (f i)) (is : List ι) :
    Tight R (each f is) :=
  tight_fold (fun _ ↦ hstep) () is

theorem tight_gather {f : ι → Procedure σ (List α)} (hstep : ∀ i, Tight R (f i)) (is : List ι) :
    Tight R (gather f is) :=
  (tight_fold (fun _ i ↦ (hstep i).map _) [] is).map _

theorem tight_each_log {entries : List Entry} (h : Clean entries) : Tight R (each log entries) := by
  induction entries with
  | nil => exact tight_pure ()
  | cons entry entries ih =>
    obtain ⟨hentry, hrest⟩ := List.forall_mem_cons.mp h
    rw [each_cons]
    exact (tight_log hentry).bind fun _ ↦ ih hrest

end Procedure

/-! ## Streams of units -/

open Procedure

variable {σ : Type} {R : σ → σ → Prop} {f : StreamUnit → Procedure σ Unit}

theorem Splitter.tight_deliverFrom (hstep : ∀ unit, Tight R (f unit)) (fuel : Nat)
    (splitter : Splitter) : Tight R (deliverFrom f fuel splitter) := by
  induction fuel generalizing splitter with
  | zero => exact tight_pure _
  | succ fuel ih =>
    apply (tight_each_log splitter.clean_log_next).bind
    intro _
    split
    · next unit _ => exact (hstep unit).bind fun _ ↦ ih _
    · exact tight_pure _

/-- A run over all units of a stream is strict when it is for each unit. -/
theorem tight_forEachUnit (hstep : ∀ unit, Tight R (f unit)) (chunks : List (List UInt8)) :
    Tight R (forEachUnit chunks f) := by
  have hfeed (fed : Feeding) (chunk : List UInt8) : Tight R (fed.feed f chunk) :=
    (Splitter.tight_deliverFrom hstep _ _).bind fun _ ↦ tight_pure _
  exact (tight_fold hfeed _ chunks).bind fun fed ↦
    (Splitter.tight_deliverFrom hstep _ _).bind fun _ ↦ (tight_log rfl).bind fun _ ↦ tight_pure _

end ClosedCaptions
