import Mathlib.Data.List.Basic

/-!
# Sessions with savepoints

A session is a computation on a database that may raise; what it has written until then is in the
state that it leaves.  `transaction` is a block that takes back its writes if it raises: a
transaction, or a savepoint within one.  A list of blocks may be run as one block, or each as a
block of its own; if the one block raises nothing, the two agree (`skipping_of_forAll_ok`).
-/

namespace Savepoints

/-- A computation on the database `σ`, which may raise an `ε`. -/
def Session (σ ε α : Type*) := σ → Except ε α × σ

namespace Session

variable {σ ε α β : Type*}

/-- A computation that does nothing. -/
def pure (a : α) : Session σ ε α := fun s => (.ok a, s)

/-- One computation after another; what raises ends them. -/
def andThen (x : Session σ ε α) (f : α → Session σ ε β) : Session σ ε β := fun s =>
  match x s with
  | (.ok a, s') => f a s'
  | (.error e, s') => (.error e, s')

/-- A block that takes back its writes if it raises. -/
def transaction (block : Session σ ε α) : Session σ ε α := fun s =>
  match block s with
  | (.ok a, s') => (.ok a, s')
  | (.error e, _) => (.error e, s)

/-- The computations one after another; what raises ends them. -/
def forAll (step : α → Session σ ε Unit) : List α → Session σ ε Unit
  | [] => pure ()
  | a :: as => (step a).andThen fun _ => forAll step as

/-- A block of its own, and what it raised. -/
def attempt (step : α → Session σ ε Unit) (s : σ) (a : α) : Option ε × σ :=
  match transaction (step a) s with
  | (.ok _, s') => (none, s')
  | (.error e, s') => (some e, s')

/-- The state after each of the computations is run as a block of its own, and what was raised. -/
def skipping (step : α → Session σ ε Unit) : σ → List α → List (α × ε) × σ
  | s, [] => ([], s)
  | s, a :: as =>
    let rest := skipping step (attempt step s a).2 as
    (((attempt step s a).1.map (a, ·)).toList ++ rest.1, rest.2)

variable {step : α → Session σ ε Unit} {s s' : σ}

/-- A block that raises leaves the state. -/
theorem transaction_error {block : Session σ ε α} {e : ε} (h : (block.transaction s).1 = .error e) :
    block.transaction s = (.error e, s) := by
  unfold transaction at h ⊢
  split
  · rename_i a t heq
    rw [heq] at h
    cases h
  · rename_i e' t heq
    rw [heq] at h
    obtain rfl := Except.error.inj h
    rfl

/-- A block that raises nothing is what it is without the transaction. -/
theorem transaction_ok {block : Session σ ε α} {a : α} :
    block.transaction s = (.ok a, s') ↔ block s = (.ok a, s') := by
  unfold transaction
  split
  · rename_i b t heq
    rw [heq]
  · rename_i e t heq
    rw [heq]
    constructor
    · intro h
      cases h
    · intro h
      cases h

/-- A sequence raises nothing iff neither part does. -/
theorem andThen_ok {x : Session σ ε α} {f : α → Session σ ε β} {b : β} :
    x.andThen f s = (.ok b, s') ↔ ∃ a t, x s = (.ok a, t) ∧ f a t = (.ok b, s') := by
  unfold andThen
  split
  · rename_i a t heq
    rw [heq]
    constructor
    · intro h
      exact ⟨a, t, rfl, h⟩
    · rintro ⟨a', t', heq', h⟩
      obtain ⟨ha, rfl⟩ := Prod.mk.inj heq'
      obtain rfl := Except.ok.inj ha
      exact h
  · rename_i e t heq
    rw [heq]
    constructor
    · intro h
      cases h
    · rintro ⟨a', t', heq', -⟩
      cases heq'

theorem attempt_of_ok {a : α} (h : step a s = (.ok (), s')) : attempt step s a = (none, s') := by
  rw [attempt, transaction_ok.mpr h]

/-- **A list that raises nothing as one block** raises nothing step by step and leaves the same
state. -/
theorem skipping_of_forAll_ok {as : List α} (h : forAll step as s = (.ok (), s')) :
    skipping step s as = ([], s') := by
  induction as generalizing s with
  | nil =>
    obtain ⟨-, rfl⟩ := Prod.mk.inj h
    rfl
  | cons a as ih =>
    obtain ⟨⟨⟩, t, ha, has⟩ := andThen_ok.mp h
    rw [skipping, attempt_of_ok ha]
    simp only [Option.map_none, Option.toList_none, List.nil_append]
    rw [ih has]

end Session

end Savepoints
