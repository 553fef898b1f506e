import CommerceCollector.Foundation.Trace
import Mathlib.Data.List.Pairwise
import Mathlib.Algebra.Order.BigOperators.Group.List
import Mathlib.Algebra.Order.Ring.Nat

/-!
# Tasks over a shared state

A program consists of tasks that share a state.  A task runs from one suspension to the next without
being interrupted: `run s t a` is the new shared state and the suspended task that is left of `t`,
if any, after the answer `a` that it was waiting for.  A pool is a shared state with the suspended
tasks; the scheduler starts new tasks and resumes suspended ones in any order.

`Guards.run` and `Respects.after` are the rules for a property `J` of a suspended task that the
other tasks do not disturb, and a relation `K` between any two of them; the condition of `Guards`
may speak of the other tasks, such as that none of them is in a section of its own.  `owed_resume` says how the sum of what the
tasks owe to a counter of the shared state moves with a turn.
-/

namespace Tasks

variable {σ τ β α : Type*}

/-- A shared state and the suspended tasks. -/
structure Pool (σ τ : Type*) where
  shared : σ
  tasks : List τ := []
  deriving DecidableEq, Repr

/-- A turn of the scheduler: a new task, or an answer to the task at a position. -/
inductive Turn (β α : Type*)
  | spawn (request : β)
  | resume (i : ℕ) (answer : α)
  deriving DecidableEq, Repr

/-- How a request starts, and how a task goes on to its next suspension. -/
structure Program (σ τ β α : Type*) where
  start : β → τ
  run : σ → τ → α → σ × Option τ

namespace Program

variable (P : Program σ τ β α)

/-- The pool after a turn. -/
def step (p : Pool σ τ) : Turn β α → Pool σ τ
  | .spawn request => { p with tasks := p.tasks ++ [P.start request] }
  | .resume i answer =>
    match p.tasks[i]? with
    | none => p
    | some t =>
      ⟨(P.run p.shared t answer).1,
        p.tasks.take i ++ (P.run p.shared t answer).2.toList ++ p.tasks.drop (i + 1)⟩

/-- The pool after a run. -/
def after (p : Pool σ τ) (turns : List (Turn β α)) : Pool σ τ := Trace.exec P.step p turns

/-- Every task is resumed under a condition. -/
def Meets (C : σ → τ → α → Prop) (p : Pool σ τ) : Turn β α → Prop
  | .spawn _ => True
  | .resume i answer => ∀ t ∈ p.tasks[i]?, C p.shared t answer

instance (C : σ → τ → α → Prop) [∀ s t a, Decidable (C s t a)] (p : Pool σ τ) :
    ∀ turn : Turn β α, Decidable (Meets C p turn)
  | .spawn _ => inferInstanceAs (Decidable True)
  | .resume i answer => inferInstanceAs (Decidable (∀ t ∈ p.tasks[i]?, C p.shared t answer))

/-- Every task is resumed under a condition on the shared state and the other tasks. -/
def MeetsAmong (C : σ → List τ → τ → α → Prop) (p : Pool σ τ) : Turn β α → Prop
  | .spawn _ => True
  | .resume i answer => ∀ t ∈ p.tasks[i]?, C p.shared (p.tasks.eraseIdx i) t answer

instance (C : σ → List τ → τ → α → Prop) [∀ s us t a, Decidable (C s us t a)] (p : Pool σ τ) :
    ∀ turn : Turn β α, Decidable (MeetsAmong C p turn)
  | .spawn _ => inferInstanceAs (Decidable True)
  | .resume i answer =>
    inferInstanceAs (Decidable (∀ t ∈ p.tasks[i]?, C p.shared (p.tasks.eraseIdx i) t answer))

/-- A condition that leaves the others out. -/
theorem meetsAmong_of_meets {C : σ → τ → α → Prop} (p : Pool σ τ) (turn : Turn β α)
    (h : Meets C p turn) : MeetsAmong (fun s _ t a => C s t a) p turn := by
  cases turn with
  | spawn _ => trivial
  | resume i a => exact h

theorem along_trivial (p : Pool σ τ) (turns : List (Turn β α)) :
    Trace.Along P.step (Meets fun _ _ _ => True) p turns :=
  Trace.along_of_forall P.step (fun turn _ p => by cases turn <;> simp [Meets]) p

theorem split_at {tasks : List τ} {i : ℕ} {t : τ} (h : tasks[i]? = some t) :
    tasks = tasks.take i ++ t :: tasks.drop (i + 1) := by
  obtain ⟨hi, rfl⟩ := List.getElem?_eq_some_iff.mp h
  rw [← List.drop_eq_getElem_cons hi, List.take_append_drop]

/-- **What a turn does.**  It starts a task, resumes one, or finds no task at the position. -/
theorem step_cases (p : Pool σ τ) (turn : Turn β α) :
    P.step p turn = p ∨
      (∃ request, turn = .spawn request ∧
        P.step p turn = { p with tasks := p.tasks ++ [P.start request] }) ∨
      ∃ i answer before t rest, turn = .resume i answer ∧ p.tasks[i]? = some t ∧
        p.tasks = before ++ t :: rest ∧ P.step p turn =
          ⟨(P.run p.shared t answer).1, before ++ (P.run p.shared t answer).2.toList ++ rest⟩ := by
  cases turn with
  | spawn request => exact Or.inr (Or.inl ⟨request, rfl, rfl⟩)
  | resume i answer =>
    cases h : p.tasks[i]? with
    | none => exact Or.inl (by simp [step, h])
    | some t =>
      exact Or.inr (Or.inr ⟨i, answer, p.tasks.take i, t, p.tasks.drop (i + 1), rfl, h, split_at h,
        by simp [step, h]⟩)

/-! ## One task by itself -/

/-- A task that is resumed with one answer after the other. -/
def solo (s : σ) (t : τ) : List α → σ × Option τ
  | [] => (s, some t)
  | a :: as =>
    match P.run s t a with
    | (s', some t') => solo s' t' as
    | (s', none) => (s', none)

theorem solo_next {s s' : σ} {t t' : τ} {a : α} (h : P.run s t a = (s', some t'))
    (answers : List α) : P.solo s t (a :: answers) = P.solo s' t' answers := by
  rw [solo, h]

theorem solo_done {s s' : σ} {t : τ} {a : α} (h : P.run s t a = (s', none)) (answers : List α) :
    P.solo s t (a :: answers) = (s', none) := by
  rw [solo, h]

/-- The last task of a pool, resumed by itself. -/
theorem after_solo (ts : List τ) (s : σ) (t : τ) (answers : List α) :
    P.after ⟨s, ts ++ [t]⟩ (answers.map fun a => (.resume ts.length a : Turn β α)) =
      ⟨(P.solo s t answers).1, ts ++ (P.solo s t answers).2.toList⟩ := by
  have hidle : ∀ (answers : List α) (s : σ), P.after ⟨s, ts⟩
      (answers.map fun a => (.resume ts.length a : Turn β α)) = ⟨s, ts⟩ := by
    intro answers s
    induction answers with
    | nil => rfl
    | cons a answers ih =>
      have hstep : P.step ⟨s, ts⟩ (.resume ts.length a) = ⟨s, ts⟩ := by simp [step]
      rw [List.map_cons, after, Trace.exec_cons, hstep]
      exact ih
  induction answers generalizing s t with
  | nil => rfl
  | cons a answers ih =>
    rw [List.map_cons, after, Trace.exec_cons]
    cases hrun : P.run s t a with
    | mk s' next =>
      cases next with
      | none =>
        have hstep : P.step ⟨s, ts ++ [t]⟩ (.resume ts.length a) = ⟨s', ts⟩ := by
          simp [step, hrun]
        have hsolo : P.solo s t (a :: answers) = (s', none) := by rw [solo, hrun]
        rw [hstep, hsolo, Option.toList_none, List.append_nil]
        exact hidle answers s'
      | some t' =>
        have hstep : P.step ⟨s, ts ++ [t]⟩ (.resume ts.length a) = ⟨s', ts ++ [t']⟩ := by
          simp [step, hrun]
        have hsolo : P.solo s t (a :: answers) = P.solo s' t' answers := by rw [solo, hrun]
        rw [hstep, hsolo]
        exact ih s' t'

/-! ## Properties that no other task disturbs -/

/-- The shared state has a property, every task has one in it, and any two tasks are related. -/
structure Free (I : σ → Prop) (J : σ → τ → Prop) (K : τ → τ → Prop) (p : Pool σ τ) : Prop where
  shared : I p.shared
  each : ∀ t ∈ p.tasks, J p.shared t
  pairs : p.tasks.Pairwise K

variable {p : Pool σ τ} {turns : List (Turn β α)}

section Free

variable {I : σ → Prop} {J : σ → τ → Prop} {K : τ → τ → Prop} {D : β → Prop}

section Guarded

variable {C : σ → List τ → τ → α → Prop}

/-- What a resumed task does to the shared state, to itself and to another task, under a condition
on the others. -/
structure Guards (I : σ → Prop) (J : σ → τ → Prop) (K : τ → τ → Prop) (D : β → Prop)
    (C : σ → List τ → τ → α → Prop) : Prop where
  symm : ∀ t u, K t u → K u t
  start : ∀ s request, D request → I s → J s (P.start request)
  apart : ∀ request u, K u (P.start request)
  shared : ∀ s us t a, C s us t a → I s → J s t → I (P.run s t a).1
  own : ∀ s us t a, C s us t a → I s → J s t → ∀ t' ∈ (P.run s t a).2, J (P.run s t a).1 t'
  other : ∀ s us t a, C s us t a → I s → J s t → ∀ u ∈ us, J s u → K u t →
    J (P.run s t a).1 u ∧ ∀ t' ∈ (P.run s t a).2, K u t'

variable {P}

/-- One turn keeps a property that no task disturbs. -/
theorem Guards.step (hP : P.Guards I J K D C) (h : Free I J K p) {turn : Turn β α}
    (hD : ∀ request, turn = .spawn request → D request) (hC : MeetsAmong C p turn) :
    Free I J K (P.step p turn) := by
  rcases P.step_cases p turn with heq | ⟨request, rfl, heq⟩ | ⟨i, a, before, t, rest, rfl, hi, -, -⟩
  · rw [heq]
    exact h
  · rw [heq]
    refine ⟨h.shared, fun t ht => ?_, ?_⟩
    · rcases List.mem_append.mp ht with hold | hnew
      · exact h.each t hold
      · rw [List.mem_singleton.mp hnew]
        exact hP.start _ request (hD request rfl) h.shared
    · refine List.pairwise_append.mpr ⟨h.pairs, List.pairwise_singleton _ _, fun t _ u hu => ?_⟩
      rw [List.mem_singleton.mp hu]
      exact hP.apart request t
  · -- the other tasks are those before the position and those after it
    have hcond : C p.shared (p.tasks.eraseIdx i) t a := hC t hi
    have hothers : p.tasks.eraseIdx i = p.tasks.take i ++ p.tasks.drop (i + 1) :=
      List.eraseIdx_eq_take_drop_succ _ _
    have hsplit : p.tasks = p.tasks.take i ++ t :: p.tasks.drop (i + 1) := split_at hi
    have hown : J p.shared t := h.each t (List.mem_of_getElem? hi)
    obtain ⟨hbefore, hrest, hcross⟩ := List.pairwise_append.mp (hsplit ▸ h.pairs)
    obtain ⟨hhead, hrest⟩ := List.pairwise_cons.mp hrest
    have hkeep : ∀ u ∈ p.tasks.eraseIdx i,
        J (P.run p.shared t a).1 u ∧ ∀ t' ∈ (P.run p.shared t a).2, K u t' := by
      intro u hu
      have hmem : u ∈ p.tasks := (List.eraseIdx_sublist p.tasks i).mem hu
      refine hP.other _ _ t a hcond h.shared hown u hu (h.each u hmem) ?_
      rw [hothers] at hu
      rcases List.mem_append.mp hu with hu | hu
      · exact hcross u hu t (by simp)
      · exact hP.symm _ _ (hhead u hu)
    have hleft : ∀ u ∈ p.tasks.take i, u ∈ p.tasks.eraseIdx i := fun u hu =>
      hothers ▸ List.mem_append_left _ hu
    have hright : ∀ u ∈ p.tasks.drop (i + 1), u ∈ p.tasks.eraseIdx i := fun u hu =>
      hothers ▸ List.mem_append_right _ hu
    have hstep : P.step p (.resume i a : Turn β α) = ⟨(P.run p.shared t a).1,
        p.tasks.take i ++ (P.run p.shared t a).2.toList ++ p.tasks.drop (i + 1)⟩ := by
      simp [Program.step, hi]
    rw [hstep]
    refine ⟨hP.shared _ _ t a hcond h.shared hown, fun u hu => ?_, ?_⟩
    · rcases List.mem_append.mp hu with hu | hu
      · rcases List.mem_append.mp hu with hu | hu
        · exact (hkeep u (hleft u hu)).1
        · exact hP.own _ _ t a hcond h.shared hown u (Option.mem_toList.mp hu)
      · exact (hkeep u (hright u hu)).1
    · rw [List.append_assoc]
      refine List.pairwise_append.mpr ⟨hbefore, List.pairwise_append.mpr ⟨?_, hrest, ?_⟩, ?_⟩
      · cases (P.run p.shared t a).2 <;> simp
      · intro t' ht' u hu
        exact hP.symm _ _ ((hkeep u (hright u hu)).2 t' (Option.mem_toList.mp ht'))
      · intro u hu v hv
        rcases List.mem_append.mp hv with hv | hv
        · exact (hkeep u (hleft u hu)).2 v (Option.mem_toList.mp hv)
        · exact hcross u hu v (List.mem_cons_of_mem _ hv)

/-- **Interference rule.**  What a turn keeps of a pool whose tasks respect a property holds, with
the property, after every run along which the condition holds. -/
theorem Guards.run (hP : P.Guards I J K D C) {Q : Pool σ τ → Prop}
    (hQ : ∀ p turn, Free I J K p → MeetsAmong C p turn → Q p → Q (P.step p turn)) (h : Free I J K p)
    (hq : Q p) (hD : ∀ request, Turn.spawn request ∈ turns → D request)
    (hC : Trace.Along P.step (MeetsAmong C) p turns) :
    Free I J K (P.after p turns) ∧ Q (P.after p turns) := by
  have hrequests : Trace.Along P.step
      (fun _ turn => ∀ request, turn = Turn.spawn request → D request) p turns := by
    apply Trace.along_of_forall
    rintro _ hturn _ request rfl
    exact hD request hturn
  refine Trace.exec_invariant_of_along P.step (I := fun p => Free I J K p ∧ Q p) ?_ ⟨h, hq⟩
    (hrequests.and P.step hC)
  intro p turn hturn hboth
  exact ⟨hP.step hboth.1 hturn.1 hturn.2, hQ p turn hboth.1 hturn.2 hboth.2⟩

theorem Guards.after (hP : P.Guards I J K D C) (h : Free I J K p)
    (hD : ∀ request, Turn.spawn request ∈ turns → D request)
    (hC : Trace.Along P.step (MeetsAmong C) p turns) : Free I J K (P.after p turns) :=
  (hP.run (Q := fun _ => True) (fun _ _ _ _ _ => trivial) h trivial hD hC).1

end Guarded

section Respectful

variable {C : σ → τ → α → Prop}

/-- What a resumed task does to the shared state, to itself and to another task. -/
structure Respects (I : σ → Prop) (J : σ → τ → Prop) (K : τ → τ → Prop) (D : β → Prop)
    (C : σ → τ → α → Prop) : Prop where
  symm : ∀ t u, K t u → K u t
  start : ∀ s request, D request → I s → J s (P.start request)
  apart : ∀ request u, K u (P.start request)
  shared : ∀ s t a, C s t a → I s → J s t → I (P.run s t a).1
  own : ∀ s t a, C s t a → I s → J s t → ∀ t' ∈ (P.run s t a).2, J (P.run s t a).1 t'
  other : ∀ s t a, C s t a → I s → J s t → ∀ u, J s u → K u t →
    J (P.run s t a).1 u ∧ ∀ t' ∈ (P.run s t a).2, K u t'

variable {P}

theorem Respects.guards (hP : P.Respects I J K D C) : P.Guards I J K D fun s _ t a => C s t a where
  symm := hP.symm
  start := hP.start
  apart := hP.apart
  shared s _ := hP.shared s
  own s _ := hP.own s
  other s _ t a hC hI hJ u _ := hP.other s t a hC hI hJ u

/-- **Interference rule.**  What the tasks respect under a condition holds after every run along
which the condition holds. -/
theorem Respects.after (hP : P.Respects I J K D C) (h : Free I J K p)
    (hD : ∀ request, Turn.spawn request ∈ turns → D request)
    (hC : Trace.Along P.step (Meets C) p turns) : Free I J K (P.after p turns) :=
  hP.guards.after h hD (hC.mono P.step meetsAmong_of_meets)

end Respectful

theorem Free.apart (h : Free I J K p) (hsymm : ∀ t u, K t u → K u t) {t u : τ} (ht : t ∈ p.tasks)
    (hu : u ∈ p.tasks) (hne : t ≠ u) : K t u := by
  haveI : Std.Symm K := ⟨hsymm⟩
  exact h.pairs.forall ht hu hne

theorem Free.of_shared {s : σ} (hs : I s) : Free I J K (⟨s, []⟩ : Pool σ τ) :=
  ⟨hs, by simp, List.Pairwise.nil⟩

end Free

/-! ## Counters -/

/-- What the tasks owe together. -/
def owed (w : τ → ℕ) (p : Pool σ τ) : ℕ := (p.tasks.map w).sum

theorem owed_spawn (w : τ → ℕ) (p : Pool σ τ) (request : β) :
    owed w (P.step p (.spawn request)) = owed w p + w (P.start request) := by
  simp [owed, step]

/-- A resumed task exchanges what it owed for what is left of it. -/
theorem owed_resume (w : τ → ℕ) {i : ℕ} {t : τ} (hi : p.tasks[i]? = some t) (answer : α) :
    owed w (P.step p (.resume i answer)) + w t =
      owed w p + ((P.run p.shared t answer).2.map w).getD 0 := by
  have hnext : ((P.run p.shared t answer).2.toList.map w).sum =
      ((P.run p.shared t answer).2.map w).getD 0 := by
    cases (P.run p.shared t answer).2 <;> simp
  have hbefore : owed w p = ((p.tasks.take i).map w).sum + (w t + ((p.tasks.drop (i + 1)).map w).sum)
      := by
    unfold owed
    conv_lhs => rw [split_at hi]
    simp
  have hafter : owed w (P.step p (.resume i answer)) = ((p.tasks.take i).map w).sum +
      ((P.run p.shared t answer).2.map w).getD 0 + ((p.tasks.drop (i + 1)).map w).sum := by
    simp [owed, step, hi, ← hnext, add_assoc]
  omega

variable {w : τ → ℕ}

section Counters

variable {I : σ → Prop} {J : σ → τ → Prop} {K : τ → τ → Prop} {D : β → Prop} {P}

/-- **Cover rule.**  What the shared state counts is covered by what the tasks owe, if every resumed
task either owes the whole count or adds no more to it than to what is owed. -/
theorem Guards.covered {C : σ → List τ → τ → α → Prop} (hP : P.Guards I J K D C) {m : σ → ℕ}
    (hrun : ∀ s us t a, C s us t a → I s → J s t →
      m (P.run s t a).1 ≤ ((P.run s t a).2.map w).getD 0 ∨
        m (P.run s t a).1 + w t ≤ m s + ((P.run s t a).2.map w).getD 0) (hfree : Free I J K p)
    (h : m p.shared ≤ owed w p) (hD : ∀ request, Turn.spawn request ∈ turns → D request)
    (hC : Trace.Along P.step (MeetsAmong C) p turns) :
    m (P.after p turns).shared ≤ owed w (P.after p turns) := by
  refine (hP.run (Q := fun p => m p.shared ≤ owed w p) ?_ hfree h hD hC).2
  intro p turn hfree hturn h
  rcases P.step_cases p turn with heq | ⟨request, rfl, -⟩ | ⟨i, a, _, t, _, rfl, hi, -, heq⟩
  · rw [heq]
    exact h
  · rw [owed_spawn]
    exact le_trans h (Nat.le_add_right _ _)
  · have hshared : (P.step p (.resume i a : Turn β α)).shared = (P.run p.shared t a).1 := by
      rw [heq]
    have howed := owed_resume P (β := β) w hi a
    have ht : t ∈ p.tasks := List.mem_of_getElem? hi
    have hmine : w t ≤ owed w p := List.single_le_sum (by simp) _ (List.mem_map_of_mem ht)
    rw [hshared]
    rcases hrun _ _ t a (hturn t hi) hfree.shared (hfree.each t ht) with hle | hle <;> omega

variable {C : σ → τ → α → Prop}

theorem Respects.covered (hP : P.Respects I J K D C) {m : σ → ℕ}
    (hrun : ∀ s t a, C s t a → I s → J s t →
      m (P.run s t a).1 ≤ ((P.run s t a).2.map w).getD 0 ∨
        m (P.run s t a).1 + w t ≤ m s + ((P.run s t a).2.map w).getD 0) (hfree : Free I J K p)
    (h : m p.shared ≤ owed w p) (hD : ∀ request, Turn.spawn request ∈ turns → D request)
    (hC : Trace.Along P.step (Meets C) p turns) :
    m (P.after p turns).shared ≤ owed w (P.after p turns) :=
  hP.guards.covered (fun s _ => hrun s) hfree h hD (hC.mono P.step meetsAmong_of_meets)

/-- **Balance rule.**  What the shared state counts is what the tasks owe, if every resumed task
changes both by the same amount. -/
theorem Respects.balanced (hP : P.Respects I J K D C) {m : σ → ℤ}
    (hstart : ∀ request, w (P.start request) = 0) (hrun : ∀ s t a, C s t a → I s → J s t →
      m (P.run s t a).1 + w t = m s + ((P.run s t a).2.map w).getD 0) (hfree : Free I J K p)
    (h : m p.shared = owed w p) (hD : ∀ request, Turn.spawn request ∈ turns → D request)
    (hC : Trace.Along P.step (Meets C) p turns) :
    m (P.after p turns).shared = owed w (P.after p turns) := by
  refine (hP.guards.run (Q := fun p => m p.shared = owed w p) ?_ hfree h hD
    (hC.mono P.step meetsAmong_of_meets)).2
  intro p turn hfree hturn h
  rcases P.step_cases p turn with heq | ⟨request, rfl, -⟩ | ⟨i, a, _, t, _, rfl, hi, -, heq⟩
  · rw [heq]
    exact h
  · rw [owed_spawn, hstart]
    exact h
  · have hshared : (P.step p (.resume i a : Turn β α)).shared = (P.run p.shared t a).1 := by
      rw [heq]
    have howed := owed_resume P (β := β) w hi a
    have hsame := hrun _ t a (hturn t hi) hfree.shared (hfree.each t (List.mem_of_getElem? hi))
    rw [hshared]
    omega

end Counters

/-- What is owed is owed by a task. -/
theorem exists_of_owed (h : 0 < owed w p) : ∃ t ∈ p.tasks, 0 < w t := by
  by_contra hnone
  simp only [not_exists, not_and, not_lt, Nat.le_zero] at hnone
  refine absurd (List.sum_eq_zero fun x hx => ?_) (Nat.pos_iff_ne_zero.mp h)
  obtain ⟨t, ht, rfl⟩ := List.mem_map.mp hx
  exact hnone t ht

theorem owed_of_empty (w : τ → ℕ) (h : p.tasks = []) : owed w p = 0 := by
  simp [owed, h]

end Program

end Tasks
