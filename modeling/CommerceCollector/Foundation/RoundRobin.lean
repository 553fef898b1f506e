import Mathlib.Algebra.BigOperators.Ring.Finset
import Mathlib.Algebra.Order.BigOperators.Group.Finset
import Mathlib.Algebra.Order.Ring.Int
import Mathlib.Data.Multiset.Count
import Mathlib.Tactic.Linarith
import Mathlib.Tactic.Ring

/-!
# Smooth weighted round-robin

A selection raises the score of every key by its weight, takes a key with the highest score and
lowers that score by the sum of all weights.  The scores sum to what they did before, so the highest
one is positive when it is taken, and no score falls to minus the sum of the weights.  Hence in as
many selections as that sum, from scores of zero, no key is taken more often than its weight; as the
counts add up, each is taken exactly that often, and the scores are zero again.
-/

namespace RoundRobin

variable {κ : Type*} [DecidableEq κ] (keys : Finset κ) (weight : κ → ℕ)

/-- The sum of the weights. -/
def total : ℕ := ∑ k ∈ keys, weight k

/-- One selection. -/
structure Selects (s : κ → ℤ) (k : κ) (s' : κ → ℤ) : Prop where
  mem : k ∈ keys
  highest : ∀ j ∈ keys, s j + weight j ≤ s k + weight k
  after : ∀ j ∈ keys, s' j = s j + weight j - if j = k then (total keys weight : ℤ) else 0

/-- The keys that some selections in a row take. -/
def window (k : ℕ → κ) (t n : ℕ) : List κ := (List.range n).map fun i => k (t + i)

variable {keys weight} {s : ℕ → κ → ℤ} {k : ℕ → κ}

omit [DecidableEq κ] in
theorem total_pos (hweight : ∀ j ∈ keys, 0 < weight j) {j : κ} (hj : j ∈ keys) : 0 < total keys weight :=
  (hweight j hj).trans_le (Finset.single_le_sum (f := weight) (fun _ _ => Nat.zero_le _) hj)

/-- A selection keeps the sum of the scores. -/
theorem Selects.sum_eq {s s' : κ → ℤ} {k : κ} (h : Selects keys weight s k s') :
    ∑ j ∈ keys, s' j = ∑ j ∈ keys, s j := by
  rw [Finset.sum_congr rfl h.after, Finset.sum_sub_distrib, Finset.sum_add_distrib,
    Finset.sum_ite_eq' keys k, if_pos h.mem, total, Nat.cast_sum]
  ring

/-- No score falls to minus the sum of the weights. -/
theorem Selects.lower {s s' : κ → ℤ} {k : κ} (h : Selects keys weight s k s')
    (hweight : ∀ j ∈ keys, 0 < weight j) (hsum : ∑ j ∈ keys, s j = 0)
    (hlower : ∀ j ∈ keys, -(total keys weight : ℤ) < s j) :
    ∀ j ∈ keys, -(total keys weight : ℤ) < s' j := by
  intro j hj
  have hj' := hweight j hj
  have hlow := hlower j hj
  rw [h.after j hj]
  by_cases hjk : j = k
  · -- The scores sum to the sum of the weights when the highest is taken.
    have hhighest : 0 < s k + weight k := by
      by_contra hle
      have hnonpos : ∑ i ∈ keys, (s i + (weight i : ℤ)) ≤ 0 :=
        Finset.sum_nonpos fun i hi => (h.highest i hi).trans (not_lt.mp hle)
      rw [Finset.sum_add_distrib, hsum, zero_add, ← Nat.cast_sum] at hnonpos
      have hpos : (0 : ℤ) < total keys weight := Nat.cast_pos.mpr (total_pos hweight hj)
      exact absurd hnonpos (not_le.mpr hpos)
    rw [if_pos hjk, hjk]
    linarith
  · rw [if_neg hjk]
    linarith

section Run

variable (run : ∀ n, Selects keys weight (s n) (k n) (s (n + 1)))

include run

theorem run_sum (h : ∑ j ∈ keys, s 0 j = 0) (n : ℕ) : ∑ j ∈ keys, s n j = 0 := by
  induction n with
  | zero => exact h
  | succ n ih => exact (run n).sum_eq.trans ih

theorem run_lower (hweight : ∀ j ∈ keys, 0 < weight j) (hzero : ∀ j ∈ keys, s 0 j = 0) (n : ℕ) :
    ∀ j ∈ keys, -(total keys weight : ℤ) < s n j := by
  induction n with
  | zero =>
    intro j hj
    rw [hzero j hj, neg_lt_zero]
    exact Nat.cast_pos.mpr (total_pos hweight hj)
  | succ n ih => exact (run n).lower hweight (run_sum run (Finset.sum_eq_zero hzero) n) ih

/-- A score after some selections, by how often its key was taken. -/
theorem score_eq (t n : ℕ) {j : κ} (hj : j ∈ keys) :
    s (t + n) j = s t j + n * weight j - total keys weight * (window k t n).count j := by
  induction n with
  | zero => simp [window]
  | succ n ih =>
    have hwindow : window k t (n + 1) = window k t n ++ [k (t + n)] := by
      rw [window, List.range_succ, List.map_append]
      rfl
    rw [← add_assoc, (run (t + n)).after j hj, ih, hwindow, List.count_append, List.count_singleton]
    by_cases hjk : j = k (t + n)
    · rw [if_pos hjk, if_pos (beq_iff_eq.mpr hjk.symm)]
      push_cast
      ring
    · rw [if_neg hjk, if_neg fun h => hjk (beq_iff_eq.mp h).symm]
      push_cast
      ring

theorem sum_count (t n : ℕ) : ∑ j ∈ keys, (window k t n).count j = n := by
  have hmem : ∀ i ∈ (window k t n : Multiset κ), i ∈ keys := by
    intro i hi
    obtain ⟨m, -, rfl⟩ := List.mem_map.mp (Multiset.mem_coe.mp hi)
    exact (run _).mem
  have hcard := Multiset.sum_count_eq_card hmem
  rw [Multiset.coe_card, window, List.length_map, List.length_range] at hcard
  simpa only [window, Multiset.coe_count] using hcard

/-- **From scores of zero, as many selections as the weights sum to take each key as often as its
weight says, and the scores are zero again.** -/
theorem exact_of_zero (hweight : ∀ j ∈ keys, 0 < weight j) (hzero : ∀ j ∈ keys, s 0 j = 0) :
    ∀ j ∈ keys, (window k 0 (total keys weight)).count j = weight j ∧ s (total keys weight) j = 0 := by
  have hscore : ∀ j ∈ keys, s (total keys weight) j =
      total keys weight * ((weight j : ℤ) - (window k 0 (total keys weight)).count j) := by
    intro j hj
    have hj' := score_eq run 0 (total keys weight) hj
    rw [zero_add, hzero j hj] at hj'
    rw [hj']
    ring
  have hle : ∀ j ∈ keys, (window k 0 (total keys weight)).count j ≤ weight j := by
    intro j hj
    have hlower := run_lower run hweight hzero (total keys weight) j hj
    have hpos : (0 : ℤ) < total keys weight := Nat.cast_pos.mpr (total_pos hweight hj)
    rw [hscore j hj] at hlower
    by_contra hlt
    have hneg : (weight j : ℤ) - (window k 0 (total keys weight)).count j ≤ -1 := by omega
    have hmul := mul_le_mul_of_nonneg_left hneg hpos.le
    linarith
  have hall := (Finset.sum_eq_sum_iff_of_le hle).mp (sum_count run 0 (total keys weight))
  intro j hj
  refine ⟨hall j hj, ?_⟩
  rw [hscore j hj, hall j hj, sub_self, mul_zero]

variable (choice : ∀ m n, (∀ j ∈ keys, s m j = s n j) → k m = k n)

include choice

/-- Selections that depend on the scores alone repeat. -/
theorem run_periodic (hweight : ∀ j ∈ keys, 0 < weight j) (hzero : ∀ j ∈ keys, s 0 j = 0) (n : ℕ) :
    ∀ j ∈ keys, s (n + total keys weight) j = s n j := by
  induction n with
  | zero =>
    intro j hj
    rw [zero_add, (exact_of_zero run hweight hzero j hj).2, hzero j hj]
  | succ n ih =>
    intro j hj
    rw [Nat.add_right_comm, (run _).after j hj, (run n).after j hj, ih j hj, choice _ _ ih]

/-- **Every window of as many selections as the weights sum to takes each key as often as its weight
says.** -/
theorem exact_window (hweight : ∀ j ∈ keys, 0 < weight j) (hzero : ∀ j ∈ keys, s 0 j = 0) (t : ℕ) :
    ∀ j ∈ keys, (window k t (total keys weight)).count j = weight j := by
  intro j hj
  have hpos : (0 : ℤ) < total keys weight := Nat.cast_pos.mpr (total_pos hweight hj)
  have hscore := score_eq run t (total keys weight) hj
  rw [run_periodic run choice hweight hzero t j hj] at hscore
  have hmul : (total keys weight : ℤ) * (window k t (total keys weight)).count j =
      total keys weight * weight j := by linarith
  exact_mod_cast mul_left_cancel₀ hpos.ne' hmul

theorem zero_of_dvd (hweight : ∀ j ∈ keys, 0 < weight j) (hzero : ∀ j ∈ keys, s 0 j = 0) (m : ℕ) :
    ∀ j ∈ keys, s (m * total keys weight) j = 0 := by
  induction m with
  | zero => simpa using hzero
  | succ m ih =>
    intro j hj
    rw [Nat.succ_mul, run_periodic run choice hweight hzero _ j hj, ih j hj]

end Run

end RoundRobin
