import Mathlib.Data.List.Basic

/-!
# Scripts

A script is a computation that asks questions one after the other and goes on with the replies; it
ends with a value, or fails.  `Script.Every` and `Script.AtMost` speak of the questions that a
script may ask, whatever the replies: all of them satisfy a property, no more than a number of them
are of a kind.  `Script.Before` says that it asks one of a kind before it ends with a value, and
`Script.Safe` that it does not fail on the replies of a kind.  Each has a rule for what follows a
question.
-/

namespace Scripts

/-- A computation that asks questions of a type `κ`, each with replies of its own type. -/
inductive Script (κ : Type) (ρ : κ → Type) (α : Type)
  | done (a : α)
  | fail
  | ask (q : κ) (next : ρ q → Script κ ρ α)

namespace Script

variable {κ : Type} {ρ : κ → Type} {α β : Type}

/-- One script after another. -/
def bind : Script κ ρ α → (α → Script κ ρ β) → Script κ ρ β
  | .done a, f => f a
  | .fail, _ => .fail
  | .ask q next, f => .ask q fun r => (next r).bind f

instance : Monad (Script κ ρ) where
  pure := .done
  bind := bind

/-- A question. -/
def query (q : κ) : Script κ ρ (ρ q) := .ask q .done

/-- Every question that the script may ask satisfies the property. -/
def Every (P : κ → Prop) : Script κ ρ α → Prop
  | .done _ => True
  | .fail => True
  | .ask q next => P q ∧ ∀ r, (next r).Every P

/-- The script asks at most so many questions of a kind. -/
def AtMost (p : κ → Bool) : ℕ → Script κ ρ α → Prop
  | _, .done _ => True
  | _, .fail => True
  | n, .ask q next => (p q = true → 0 < n) ∧ ∀ r, AtMost p (if p q = true then n - 1 else n) (next r)

/-- The script asks a question of a kind before it ends with a value, or one was asked before. -/
def Before (p : κ → Bool) : Bool → Script κ ρ α → Prop
  | asked, .done _ => asked = true
  | _, .fail => True
  | asked, .ask q next => ∀ r, Before p (asked || p q) (next r)

/-- The script does not fail, as long as every reply is one of a kind. -/
def Safe (R : ∀ q, ρ q → Prop) : Script κ ρ α → Prop
  | .done _ => True
  | .fail => False
  | .ask q next => ∀ r, R q r → (next r).Safe R

variable {P : κ → Prop} {p : κ → Bool} {n : ℕ} {asked : Bool} {R : ∀ q, ρ q → Prop}

@[simp] theorem every_done (a : α) : (done a : Script κ ρ α).Every P := trivial

@[simp] theorem every_fail : (fail : Script κ ρ α).Every P := trivial

@[simp] theorem atMost_done (a : α) : (done a : Script κ ρ α).AtMost p n := trivial

@[simp] theorem atMost_fail : (fail : Script κ ρ α).AtMost p n := trivial

@[simp] theorem before_fail : (fail : Script κ ρ α).Before p asked := trivial

@[simp] theorem before_done (a : α) : (done a : Script κ ρ α).Before p asked ↔ asked = true := Iff.rfl

@[simp] theorem every_ask {q : κ} {next : ρ q → Script κ ρ α} :
    (ask q next).Every P ↔ P q ∧ ∀ r, (next r).Every P := Iff.rfl

@[simp] theorem atMost_ask {q : κ} {next : ρ q → Script κ ρ α} :
    (ask q next).AtMost p n ↔
      (p q = true → 0 < n) ∧ ∀ r, (next r).AtMost p (if p q = true then n - 1 else n) := Iff.rfl

@[simp] theorem before_ask {q : κ} {next : ρ q → Script κ ρ α} :
    (ask q next).Before p asked ↔ ∀ r, (next r).Before p (asked || p q) := Iff.rfl

@[simp] theorem safe_done (a : α) : (done a : Script κ ρ α).Safe R := trivial

@[simp] theorem safe_fail : (fail : Script κ ρ α).Safe R ↔ False := Iff.rfl

@[simp] theorem safe_ask {q : κ} {next : ρ q → Script κ ρ α} :
    (ask q next).Safe R ↔ ∀ r, R q r → (next r).Safe R := Iff.rfl

@[simp] theorem done_bind (a : α) (f : α → Script κ ρ β) : (done a >>= f) = f a := rfl

@[simp] theorem bind_done (a : α) (f : α → Script κ ρ β) : (done a).bind f = f a := rfl

@[simp] theorem pure_eq (a : α) : (pure a : Script κ ρ α) = done a := rfl

@[simp] theorem fail_bind (f : α → Script κ ρ β) : ((fail : Script κ ρ α) >>= f) = fail := rfl

@[simp] theorem ask_bind {q : κ} (next : ρ q → Script κ ρ α) (f : α → Script κ ρ β) :
    (ask q next >>= f) = ask q fun r => next r >>= f := rfl

@[simp] theorem query_bind (q : κ) (f : ρ q → Script κ ρ β) : (query q >>= f) = ask q f := rfl

/-- A script that asks at most so many questions asks at most more. -/
theorem AtMost.mono {s : Script κ ρ α} {m : ℕ} (h : s.AtMost p n) (hle : n ≤ m) : s.AtMost p m := by
  induction s generalizing n m with
  | done a => trivial
  | fail => trivial
  | ask q next ih =>
    refine ⟨fun hq => Nat.lt_of_lt_of_le (h.1 hq) hle, fun r => ih r (h.2 r) ?_⟩
    split
    · exact Nat.sub_le_sub_right hle 1
    · exact hle

end Script

end Scripts
