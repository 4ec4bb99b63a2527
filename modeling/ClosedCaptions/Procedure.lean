import ClosedCaptions.Log

/-!
# Procedures

A procedure works on a state, may fail, and logs as it goes. A failure keeps the state and the
log as they stand when it happens, and no procedure can see what was logged before it.
-/

namespace ClosedCaptions

/-- What a procedure leaves behind. -/
structure Outcome (σ α : Type) where
  result : Except Error α
  state : σ
  log : List Entry

def Procedure (σ α : Type) : Type :=
  σ → Outcome σ α

namespace Procedure

variable {σ τ α β γ : Type}

def run (p : Procedure σ α) (s : σ) : Outcome σ α :=
  p s

@[ext]
theorem ext {p q : Procedure σ α} (h : ∀ s, p.run s = q.run s) : p = q :=
  funext h

protected def pure (a : α) : Procedure σ α := fun s ↦ ⟨.ok a, s, []⟩

/-- Continue after a success, with the log of the first part in front. -/
protected def bind (p : Procedure σ α) (f : α → Procedure σ β) : Procedure σ β := fun s ↦
  match p s with
  | ⟨.ok a, s', log⟩ =>
    let next := f a s'
    { next with log := log ++ next.log }
  | ⟨.error e, s', log⟩ => ⟨.error e, s', log⟩

/-- Change the result of a success. -/
protected def map (f : α → β) (p : Procedure σ α) : Procedure σ β := fun s ↦
  let inner := p s
  ⟨inner.result.map f, inner.state, inner.log⟩

instance : Monad (Procedure σ) where
  pure := Procedure.pure
  bind := Procedure.bind
  map := Procedure.map

def fail (e : Error) : Procedure σ α := fun s ↦ ⟨.error e, s, []⟩

def log (entry : Entry) : Procedure σ Unit := fun s ↦ ⟨.ok (), s, [entry]⟩

def get : Procedure σ σ := fun s ↦ ⟨.ok s, s, []⟩

def modify (f : σ → σ) : Procedure σ Unit := fun s ↦ ⟨.ok (), f s, []⟩

/-- Move to the part of the state that another procedure works on, and put that part back
whether or not it succeeds. -/
def focus (part : σ → τ) (put : τ → σ → σ) (p : Procedure τ α) : Procedure σ α := fun s ↦
  let inner := p (part s)
  ⟨inner.result, put inner.state s, inner.log⟩

/-- Run a procedure on a state of its own. -/
def locally (start : τ) (p : Procedure τ α) : Procedure σ α :=
  focus (fun _ ↦ start) (fun _ s ↦ s) p

/-- Change the state when the procedure fails. -/
def onFailure (p : Procedure σ α) (change : σ → σ) : Procedure σ α := fun s ↦
  match p s with
  | ⟨.error e, s', log⟩ => ⟨.error e, change s', log⟩
  | done => done

/-- The result of the procedure as a value; the procedure itself then succeeds. -/
def attempt (p : Procedure σ α) : Procedure σ (Except Error α) := fun s ↦
  let inner := p s
  ⟨.ok inner.result, inner.state, inner.log⟩

/-- A problem of severity `warn`: a failure when that severity reaches the level at which
problems are fatal, and a log entry otherwise. -/
def tolerate (failLevel : Severity) (problem : Error) : Procedure σ Unit :=
  if Severity.warn ≤ failLevel then fail problem else log (.tolerated problem)

/-- Carry a value through a list, up to the first failure. `logged` is the log so far,
reversed. -/
def foldFrom (f : α → β → Procedure σ α) (logged : List Entry) (a : α) : List β → Procedure σ α
  | [], s => ⟨.ok a, s, logged.reverse⟩
  | b :: bs, s =>
    match f a b s with
    | ⟨.ok a', s', log⟩ => foldFrom f (log.reverse ++ logged) a' bs s'
    | ⟨.error e, s', log⟩ => ⟨.error e, s', logged.reverse ++ log⟩

def fold (f : α → β → Procedure σ α) (a : α) (bs : List β) : Procedure σ α :=
  foldFrom f [] a bs

/-- Do `f` for every element in turn, up to the first failure. -/
def each (f : β → Procedure σ Unit) (bs : List β) : Procedure σ Unit :=
  fold (fun _ b ↦ f b) () bs

/-- Everything that `f` yields for the elements in turn, up to the first failure. -/
def gather (f : β → Procedure σ (List γ)) (bs : List β) : Procedure σ (List γ) :=
  List.reverse <$> fold (fun found b ↦ (·.reverse ++ found) <$> f b) [] bs

@[simp]
theorem run_pure (a : α) (s : σ) : (pure a : Procedure σ α).run s = ⟨.ok a, s, []⟩ := rfl

@[simp]
theorem run_fail (e : Error) (s : σ) : (fail e : Procedure σ α).run s = ⟨.error e, s, []⟩ := rfl

@[simp]
theorem run_log (entry : Entry) (s : σ) : (log entry).run s = ⟨.ok (), s, [entry]⟩ := rfl

@[simp]
theorem run_get (s : σ) : (get : Procedure σ σ).run s = ⟨.ok s, s, []⟩ := rfl

@[simp]
theorem run_modify (f : σ → σ) (s : σ) : (modify f).run s = ⟨.ok (), f s, []⟩ := rfl

theorem run_bind_ok {p : Procedure σ α} {f : α → Procedure σ β} {s s' : σ} {a : α}
    {entries : List Entry} (h : p.run s = ⟨.ok a, s', entries⟩) :
    (p >>= f).run s =
      { (f a).run s' with log := entries ++ ((f a).run s').log } := by
  change Procedure.bind p f s = _
  simp only [run] at h
  simp only [Procedure.bind, h]
  rfl

theorem run_bind_error {p : Procedure σ α} {f : α → Procedure σ β} {s s' : σ} {e : Error}
    {entries : List Entry} (h : p.run s = ⟨.error e, s', entries⟩) :
    (p >>= f).run s = ⟨.error e, s', entries⟩ := by
  change Procedure.bind p f s = _
  simp only [run] at h
  simp only [Procedure.bind, h]

theorem run_map (f : α → β) (p : Procedure σ α) (s : σ) :
    (f <$> p).run s = ⟨(p.run s).result.map f, (p.run s).state, (p.run s).log⟩ := rfl

protected theorem id_map (p : Procedure σ α) : id <$> p = p := by
  ext1 s
  rw [run_map]
  rcases p.run s with ⟨r, s', log⟩
  cases r <;> rfl

protected theorem bind_assoc (p : Procedure σ α) (f : α → Procedure σ β)
    (g : β → Procedure σ γ) : p >>= f >>= g = p >>= fun a ↦ f a >>= g := by
  ext1 s
  rcases h : p.run s with ⟨_ | a, s', log⟩
  · rw [run_bind_error h, run_bind_error (run_bind_error h)]
  · rcases h' : (f a).run s' with ⟨_ | b, s'', log'⟩
    · rw [run_bind_error (by rw [run_bind_ok h, h']), run_bind_ok h, run_bind_error h']
    · rw [run_bind_ok (by rw [run_bind_ok h, h']), run_bind_ok h, run_bind_ok h']
      simp [List.append_assoc]

protected theorem bind_pure_comp (f : α → β) (p : Procedure σ α) :
    (p >>= fun a ↦ pure (f a)) = f <$> p := by
  ext1 s
  rw [run_map]
  rcases h : p.run s with ⟨_ | a, s', log⟩
  · rw [run_bind_error h]; rfl
  · rw [run_bind_ok h]; simp [Except.map]

instance : LawfulMonad (Procedure σ) :=
  LawfulMonad.mk' (Procedure σ) Procedure.id_map (fun _ _ ↦ rfl) Procedure.bind_assoc
    (fun _ _ ↦ rfl) (fun _ _ ↦ rfl) (fun _ _ ↦ rfl) Procedure.bind_pure_comp (fun _ _ ↦ rfl)

/-- What was logged before only stands in front. -/
theorem foldFrom_eq (f : α → β → Procedure σ α) (logged : List Entry) (a : α) (bs : List β)
    (s : σ) :
    foldFrom f logged a bs s =
      { foldFrom f [] a bs s with log := logged.reverse ++ (foldFrom f [] a bs s).log } := by
  induction bs generalizing logged a s with
  | nil => simp [foldFrom]
  | cons b bs ih =>
    simp only [foldFrom]
    split
    · rw [ih, ih (_ ++ [])]
      simp
    · simp

@[simp]
theorem fold_nil (f : α → β → Procedure σ α) (a : α) : fold f a [] = pure a := rfl

theorem fold_cons (f : α → β → Procedure σ α) (a : α) (b : β) (bs : List β) :
    fold f a (b :: bs) = f a b >>= fun a' ↦ fold f a' bs := by
  funext s
  change foldFrom f [] a (b :: bs) s = Procedure.bind (f a b) (fun a' ↦ fold f a' bs) s
  simp only [foldFrom, Procedure.bind]
  split
  · rw [foldFrom_eq]; simp [fold]
  · simp

@[simp]
theorem each_nil (f : β → Procedure σ Unit) : each f [] = pure () := rfl

theorem each_cons (f : β → Procedure σ Unit) (b : β) (bs : List β) :
    each f (b :: bs) = f b >>= fun _ ↦ each f bs :=
  fold_cons _ _ _ _

/-- What was found before only stands in front. -/
theorem fold_reverse_eq (f : β → Procedure σ (List γ)) (found : List γ) (bs : List β) :
    fold (fun found b ↦ (·.reverse ++ found) <$> f b) found bs =
      (· ++ found) <$> fold (fun found b ↦ (·.reverse ++ found) <$> f b) [] bs := by
  induction bs generalizing found with
  | nil => rw [fold_nil, fold_nil, map_pure]; rfl
  | cons b bs ih =>
    simp only [fold_cons, bind_map_left, map_bind]
    congr 1
    funext cs
    rw [ih, ih (cs.reverse ++ [])]
    simp

@[simp]
theorem gather_nil (f : β → Procedure σ (List γ)) : gather f [] = pure [] := rfl

theorem gather_cons (f : β → Procedure σ (List γ)) (b : β) (bs : List β) :
    gather f (b :: bs) = f b >>= fun cs ↦ (cs ++ ·) <$> gather f bs := by
  simp only [gather, fold_cons, bind_map_left, map_bind]
  congr 1
  funext cs
  rw [fold_reverse_eq]
  simp

end Procedure

end ClosedCaptions
