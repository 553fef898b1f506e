import CommerceCollector.Foundation.Trace

/-!
# Transactions that raise

A transaction is a computation in `Except ε` that ends with the new state or raises.  `require`
raises unless a condition holds, `attempt` is the state after the transaction: a transaction that
raises is rolled back.

A transaction that ends well is read back by `bind_eq_ok`, one statement at a time, and a loop of
statements by the invariant rules of `foldlM`.
-/

namespace Transaction

universe u

variable {ε σ : Type*} {α β : Type u}

/-- `if not condition: raise`. -/
def require (condition : Prop) [Decidable condition] (e : ε) : Except ε Unit :=
  if condition then .ok () else .error e

/-- The value of a query that must find a row. -/
def getRow (row : Option α) (e : ε) : Except ε α :=
  match row with
  | some a => .ok a
  | none => .error e

/-- The state after a transaction. -/
def attempt (s : σ) (r : Except ε (β × σ)) : σ :=
  match r with
  | .ok (_, s') => s'
  | .error _ => s

@[simp] theorem require_eq_ok {condition : Prop} [Decidable condition] {e : ε} {u : Unit} :
    require condition e = .ok u ↔ condition := by
  unfold require
  split <;> simp_all

@[simp] theorem getRow_eq_ok {row : Option α} {e : ε} {a : α} :
    getRow row e = .ok a ↔ row = some a := by
  cases row <;> simp [getRow]

/-- A sequence of two statements ends well iff both do. -/
theorem bind_eq_ok {x : Except ε α} {f : α → Except ε β} {b : β} :
    (x >>= f) = .ok b ↔ ∃ a, x = .ok a ∧ f a = .ok b := by
  cases x with
  | error e => simp [bind, Except.bind]
  | ok a => simp [bind, Except.bind]

@[simp] theorem pure_eq_ok {a b : α} : (pure a : Except ε α) = .ok b ↔ a = b := by
  simp [pure, Except.pure]

theorem map_eq_ok {x : Except ε α} {f : α → β} {b : β} :
    x.map f = .ok b ↔ ∃ a, x = .ok a ∧ f a = b := by
  cases x <;> simp [Except.map]

/-- A computation that is given the value `b` ends as it did. -/
theorem ok_of_map {x : Except ε α} {b c : β} {a : α} (h : (x.map fun a => (b, a)) = .ok (c, a)) :
    x = .ok a := by
  obtain ⟨a', hok, heq⟩ := map_eq_ok.mp h
  rwa [← (Prod.mk.inj heq).2]

/-- A computation that ends well is read back from its value. -/
theorem exists_ok {x : Except ε α} {p : α → Bool} (h : x.toOption.any p = true) :
    ∃ a, x = .ok a ∧ p a = true := by
  cases x with
  | error e => exact absurd h (by simp [Except.toOption])
  | ok a => exact ⟨a, rfl, by simpa [Except.toOption] using h⟩

/-- A transaction leaves the old state or ends well with the new one. -/
theorem attempt_cases (s : σ) (r : Except ε (β × σ)) :
    attempt s r = s ∨ ∃ b, r = .ok (b, attempt s r) := by
  rcases r with e | ⟨b, s'⟩
  · exact Or.inl rfl
  · exact Or.inr ⟨b, rfl⟩

/-- What the state of every well-ended transaction has, and the old state has, the new state has. -/
theorem attempt_induction {P : σ → Prop} {s : σ} {r : Except ε (β × σ)} (hs : P s)
    (hr : ∀ b s', r = .ok (b, s') → P s') : P (attempt s r) := by
  rcases attempt_cases s r with heq | ⟨b, hok⟩
  · rw [heq]
    exact hs
  · exact hr b _ hok

/-- **Invariant rule of a loop.**  What every statement of a loop that ends well preserves is
preserved by the loop. -/
theorem foldlM_invariant {f : σ → α → Except ε σ} {I : σ → Prop} {as : List α}
    (hstep : ∀ a ∈ as, ∀ s s', f s a = .ok s' → I s → I s') {s s' : σ}
    (h : as.foldlM f s = .ok s') (hs : I s) : I s' := by
  induction as generalizing s with
  | nil =>
    rw [List.foldlM_nil, pure_eq_ok] at h
    exact h ▸ hs
  | cons a as ih =>
    rw [List.foldlM_cons, bind_eq_ok] at h
    obtain ⟨t, hstart, hrest⟩ := h
    exact ih (fun b hb => hstep b (List.mem_cons_of_mem _ hb)) hrest
      (hstep a (by simp) s t hstart hs)

/-- What one statement of a loop establishes, and every statement preserves, holds after the
loop. -/
theorem foldlM_establish {f : σ → α → Except ε σ} {I : σ → Prop} {as : List α} {a : α}
    (ha : a ∈ as) (hnew : ∀ s s', f s a = .ok s' → I s')
    (hstep : ∀ b s s', f s b = .ok s' → I s → I s') {s s' : σ}
    (h : as.foldlM f s = .ok s') : I s' := by
  induction as generalizing s with
  | nil => exact absurd ha (by simp)
  | cons b as ih =>
    rw [List.foldlM_cons, bind_eq_ok] at h
    obtain ⟨t, hstart, hrest⟩ := h
    rcases List.mem_cons.mp ha with rfl | ha
    · exact foldlM_invariant (fun b _ => hstep b) hrest (hnew s t hstart)
    · exact ih ha hrest

end Transaction
