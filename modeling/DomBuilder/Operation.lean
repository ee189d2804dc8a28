import DomBuilder.DomError

/-!
# Operations

An operation works on a state and may fail half-way. This file fixes what is kept then:

* `Operation σ α`: from a state, a result or a cause of failure, and in either case the state as it
  is then. Nothing is undone by a failure;
* operations in sequence stop at the first failure;
* `Operation.within`: an operation on a part of the state leaves the other parts alone.
-/

namespace DomBuilder

/-- A step on a state of type `σ` towards a result of type `α`. -/
def Operation (σ α : Type) : Type := σ → Except DomError α × σ

namespace Operation

variable {σ τ α β : Type}

def run (x : Operation σ α) (s : σ) : Except DomError α × σ := x s

/-! ## 1. Single steps -/

/-- The state itself. -/
def read : Operation σ σ := fun s => (.ok s, s)

def modify (f : σ → σ) : Operation σ Unit := fun s => (.ok (), f s)

/-- A result and the next state. -/
def step (f : σ → α × σ) : Operation σ α := fun s => (.ok (f s).1, (f s).2)

def fail (e : DomError) : Operation σ α := fun s => (.error e, s)

/-- Something that was decided without the state. -/
def ofExcept (x : Except DomError α) : Operation σ α := fun s => (x, s)

/-! ## 2. Sequences -/

/-- `x`, then `f` of its result unless `x` failed. -/
def andThen (x : Operation σ α) (f : α → Operation σ β) : Operation σ β := fun s =>
  match x s with
  | (.ok a, s') => f a s'
  | (.error e, s') => (.error e, s')

instance : Monad (Operation σ) where
  pure a := fun s => (.ok a, s)
  bind := andThen

/-- Grouping a sequence one way or the other makes no difference. -/
instance : LawfulMonad (Operation σ) := LawfulMonad.mk' _
  (fun x => funext fun s => by
    change andThen x (fun a => pure (id a)) s = x s
    unfold andThen
    split <;> simp_all [pure])
  (fun _ _ => rfl)
  (fun x f g => funext fun s => by
    change andThen (andThen x f) g s = andThen x (fun a => andThen (f a) g) s
    unfold andThen
    split <;> split <;> simp_all)

/-- An operation on the part of a state that `get` reads and `put` writes. -/
def within (get : τ → σ) (put : σ → τ → τ) (x : Operation σ α) : Operation τ α := fun t =>
  let (r, s) := x (get t)
  (r, put s t)

/-! ## 3. Running -/

@[simp] theorem run_pure (a : α) (s : σ) : (pure a : Operation σ α).run s = (.ok a, s) := rfl

theorem run_bind (x : Operation σ α) (f : α → Operation σ β) (s : σ) :
    (x >>= f).run s =
      match x.run s with
      | (.ok a, s') => (f a).run s'
      | (.error e, s') => (.error e, s') := rfl

@[simp] theorem run_read (s : σ) : (read : Operation σ σ).run s = (.ok s, s) := rfl

@[simp] theorem run_modify (f : σ → σ) (s : σ) : (modify f).run s = (.ok (), f s) := rfl

@[simp] theorem run_step (f : σ → α × σ) (s : σ) : (step f).run s = (.ok (f s).1, (f s).2) := rfl

@[simp] theorem run_fail (e : DomError) (s : σ) :
    (fail e : Operation σ α).run s = (.error e, s) := rfl

@[simp] theorem run_ofExcept (x : Except DomError α) (s : σ) :
    (ofExcept x : Operation σ α).run s = (x, s) := rfl

theorem run_within (get : τ → σ) (put : σ → τ → τ) (x : Operation σ α) (t : τ) :
    (within get put x).run t = ((x.run (get t)).1, put (x.run (get t)).2 t) := rfl

/-- After a step that succeeds, the rest goes on from its state. -/
theorem run_bind_of_ok {x : Operation σ α} {f : α → Operation σ β} {s s' : σ} {a : α}
    (h : x.run s = (.ok a, s')) : (x >>= f).run s = (f a).run s' := by
  rw [run_bind, h]

/-- A step that fails is the last. -/
theorem run_bind_of_error {x : Operation σ α} {f : α → Operation σ β} {s s' : σ} {e : DomError}
    (h : x.run s = (.error e, s')) : (x >>= f).run s = (.error e, s') := by
  rw [run_bind, h]

end Operation

end DomBuilder
