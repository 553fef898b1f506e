import Mathlib.Data.List.Basic

/-!
# Runs of a deterministic transition system

A transition system is a total step function `step : σ → α → σ`; a run is a list of actions and
`exec step s as` is the state it reaches.  `Along step C s as` says that every action of the run is
taken in a state where the condition `C` holds, which is how a property that only holds on part of
the runs is stated.

The rules are the invariant rule, with and without such a condition; the exactness rules, for a
property that holds at the end of a run, or in every state of it, iff a condition holds along it;
and the change rule: a property that holds at the start of a run and fails at its end is lost at
some step of it.
-/

namespace Trace

variable {σ α : Type*} (step : σ → α → σ)

/-- The state reached by a run. -/
def exec (s : σ) (as : List α) : σ := as.foldl step s

/-- Every action of the run is taken in a state in which the condition holds. -/
def Along (C : σ → α → Prop) : σ → List α → Prop
  | _, [] => True
  | s, a :: as => C s a ∧ Along C (step s a) as

instance Along.decidable {C : σ → α → Prop} [∀ s a, Decidable (C s a)] :
    ∀ s as, Decidable (Along step C s as)
  | _, [] => inferInstanceAs (Decidable True)
  | s, a :: as => @instDecidableAnd _ _ _ (Along.decidable (step s a) as)

@[simp] theorem exec_nil (s : σ) : exec step s [] = s := rfl

@[simp] theorem exec_cons (s : σ) (a : α) (as : List α) :
    exec step s (a :: as) = exec step (step s a) as := rfl

/-- A column that every step keeps is kept by the whole run. -/
theorem foldl_keep {γ : Type*} {f : σ → α → σ} {g : σ → γ} (hf : ∀ s a, g (f s a) = g s) (s : σ)
    (as : List α) : g (as.foldl f s) = g s := by
  induction as generalizing s with
  | nil => rfl
  | cons a as ih => rw [List.foldl_cons, ih, hf]

theorem exec_append (s : σ) (as bs : List α) :
    exec step s (as ++ bs) = exec step (exec step s as) bs := by
  simp [exec, List.foldl_append]

variable {C : σ → α → Prop} {s : σ}

/-- A condition holds along a run of two parts iff it holds along both. -/
theorem along_append {as bs : List α} :
    Along step C s (as ++ bs) ↔ Along step C s as ∧ Along step C (exec step s as) bs := by
  induction as generalizing s with
  | nil => exact ⟨fun h => ⟨trivial, h⟩, fun h => h.2⟩
  | cons a as ih =>
    constructor
    · intro h
      obtain ⟨hfirst, hrest⟩ := ih.mp h.2
      exact ⟨⟨h.1, hfirst⟩, hrest⟩
    · intro h
      exact ⟨h.1.1, ih.mpr ⟨h.1.2, h.2⟩⟩

variable {as : List α}

/-- A condition on single actions that every action of a run meets holds along the run. -/
theorem along_of_forall (h : ∀ a ∈ as, ∀ s, C s a) (s : σ) : Along step C s as := by
  induction as generalizing s with
  | nil => trivial
  | cons a as ih =>
    exact ⟨h a (by simp) s, ih (fun b hb => h b (List.mem_cons_of_mem _ hb)) (step s a)⟩

/-- A condition that follows from another one holds along every run the other one holds along. -/
theorem Along.mono {C D : σ → α → Prop} (hCD : ∀ s a, C s a → D s a)
    (h : Along step C s as) : Along step D s as := by
  induction as generalizing s with
  | nil => exact h
  | cons a as ih => exact ⟨hCD _ _ h.1, ih h.2⟩

/-- Two conditions hold along a run together. -/
theorem Along.and {C D : σ → α → Prop} (hC : Along step C s as)
    (hD : Along step D s as) : Along step (fun s a => C s a ∧ D s a) s as := by
  induction as generalizing s with
  | nil => trivial
  | cons a as ih => exact ⟨⟨hC.1, hD.1⟩, ih hC.2 hD.2⟩

/-- **Invariant rule under a condition.**  What every step preserves where the condition holds is
preserved by every run along which it holds. -/
theorem exec_invariant_of_along {I : σ → Prop} (hstep : ∀ s a, C s a → I s → I (step s a))
    (hs : I s) (h : Along step C s as) : I (exec step s as) := by
  induction as generalizing s with
  | nil => exact hs
  | cons a as ih => exact ih (hstep s a h.1 hs) h.2

/-- **Invariant rule.**  What every step preserves is preserved by every run. -/
theorem exec_invariant {I : σ → Prop} (hstep : ∀ s a, I s → I (step s a)) (hs : I s)
    (as : List α) : I (exec step s as) := by
  induction as generalizing s with
  | nil => exact hs
  | cons a as ih => exact ih (hstep s a hs)

/-- **Exactness rule.**  Let an invariant be kept as long as the condition holds, and let a property
follow from it that is lost, for good, at the first step that violates the condition.  Then the
property holds at the end of a run iff the condition holds along it. -/
theorem exec_iff_along {C D : σ → α → Prop} {I Q : σ → Prop}
    (hkeep : ∀ s a, D s a → C s a → I s → I (step s a))
    (hlose : ∀ s a, D s a → ¬ C s a → I s → ¬ Q (step s a)) (hlost : ∀ s a, ¬ Q s → ¬ Q (step s a))
    (hIQ : ∀ s, I s → Q s)
    (hs : I s) (hD : Along step D s as) : Q (exec step s as) ↔ Along step C s as := by
  induction as generalizing s with
  | nil => exact iff_of_true (hIQ s hs) trivial
  | cons a as ih =>
    by_cases hC : C s a
    · have hrest := ih (hkeep s a hD.1 hC hs) hD.2
      exact hrest.trans ⟨fun h => ⟨hC, h⟩, fun h => h.2⟩
    · refine iff_of_false (fun hend => ?_) fun h => hC h.1
      exact exec_invariant step (I := fun s => ¬ Q s) hlost (hlose s a hD.1 hC hs) as hend

/-- **Exactness rule for every state.**  Let an invariant be kept as long as the condition holds,
and let a property follow from it that fails after the first step that violates the condition.  Then
the property holds in every state of a run iff the condition holds along it. -/
theorem forall_prefix_iff_along {I Q : σ → Prop} (hkeep : ∀ s a, C s a → I s → I (step s a))
    (hlose : ∀ s a, ¬ C s a → I s → ¬ Q (step s a)) (hIQ : ∀ s, I s → Q s) (hs : I s) :
    (∀ pre, pre <+: as → Q (exec step s pre)) ↔ Along step C s as := by
  induction as generalizing s with
  | nil =>
    refine iff_of_true (fun pre hpre => ?_) trivial
    rw [List.prefix_nil.mp hpre]
    exact hIQ s hs
  | cons a as ih =>
    by_cases hC : C s a
    · have hrest := ih (hkeep s a hC hs)
      constructor
      · intro hall
        exact ⟨hC, hrest.mp fun pre hpre => hall (a :: pre) ((List.prefix_cons_inj a).mpr hpre)⟩
      · intro halong pre hpre
        cases pre with
        | nil => exact hIQ s hs
        | cons b pre =>
          obtain ⟨rfl, htail⟩ := List.cons_prefix_cons.mp hpre
          exact hrest.mpr halong.2 pre htail
    · refine iff_of_false (fun hall => ?_) fun h => hC h.1
      exact hlose s a hC hs (hall [a] ⟨as, rfl⟩)

/-- **Change rule.**  A property that a run loses is lost at one of its steps. -/
theorem exists_step_of_change {P : σ → Prop} (hs : P s) (hend : ¬ P (exec step s as)) :
    ∃ pre a post, as = pre ++ a :: post ∧ P (exec step s pre) ∧
      ¬ P (step (exec step s pre) a) := by
  induction as generalizing s with
  | nil => exact absurd hs hend
  | cons a as ih =>
    by_cases ha : P (step s a)
    · obtain ⟨pre, b, post, rfl, hpre, hb⟩ := ih ha hend
      exact ⟨a :: pre, b, post, rfl, hpre, hb⟩
    · exact ⟨[], a, as, rfl, hs, ha⟩

end Trace
