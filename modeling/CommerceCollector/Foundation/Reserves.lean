import Mathlib.Algebra.BigOperators.Group.Finset.Piecewise
import Mathlib.Algebra.Order.BigOperators.Group.Finset
import Mathlib.Data.Fintype.Basic

/-!
# Reserves of levels

An amount is spent by levels of falling importance, and each level has a reserve.  What the levels
up to some level have not spent of their reserves is to stay free.

A spending at a level that leaves the reserves below that level free also leaves free what it found
free up to any level at or below its own: above the level in question because those reserves are
among the ones that it left, and at the level itself because it spends from the reserve of that
level first.
-/

namespace Reserves

variable {Level : Type*} [LinearOrder Level]

/-- What a level has not spent of its reserve. -/
def unspent (reserve spent : Level → ℕ) (p : Level) : ℕ := reserve p - spent p

/-- The spendings after one more. -/
def spend (spent : Level → ℕ) (r : Level) (amount : ℕ) : Level → ℕ :=
  Function.update spent r (spent r + amount)

variable {reserve spent : Level → ℕ} {p r : Level} {amount free : ℕ}

theorem unspent_spend_of_ne {q : Level} (hne : q ≠ r) :
    unspent reserve (spend spent r amount) q = unspent reserve spent q := by
  rw [unspent, unspent, spend, Function.update_of_ne hne]

theorem unspent_spend_self :
    unspent reserve (spend spent r amount) r = unspent reserve spent r - amount := by
  rw [unspent, unspent, spend, Function.update_self, Nat.sub_add_eq]

variable [Fintype Level]

/-- What the levels below one have not spent of their reserves. -/
def below (reserve spent : Level → ℕ) (p : Level) : ℕ :=
  ∑ q with q < p, unspent reserve spent q

/-- What the levels up to one have not spent of their reserves. -/
def upTo (reserve spent : Level → ℕ) (p : Level) : ℕ :=
  ∑ q with q ≤ p, unspent reserve spent q

variable (reserve spent p) in
/-- The reserves up to a level are those below it and its own. -/
theorem upTo_eq_below_add : upTo reserve spent p = below reserve spent p + unspent reserve spent p := by
  have hinsert : Finset.univ.filter (· ≤ p) = insert p (Finset.univ.filter (· < p)) := by
    ext q
    simp only [Finset.mem_filter, Finset.mem_univ, true_and, Finset.mem_insert]
    constructor
    · intro hle
      exact (eq_or_lt_of_le hle)
    · rintro (rfl | hlt)
      · exact le_refl _
      · exact hlt.le
  have hnot : p ∉ Finset.univ.filter (· < p) := by simp
  rw [upTo, hinsert, Finset.sum_insert hnot, below, add_comm]

/-- The reserves up to a level are among those below a higher one. -/
theorem upTo_le_below (hlt : p < r) : upTo reserve spent p ≤ below reserve spent r := by
  refine Finset.sum_le_sum_of_subset fun q hq => ?_
  simp only [Finset.mem_filter, Finset.mem_univ, true_and] at hq ⊢
  exact lt_of_le_of_lt hq hlt

/-- A spending does not touch the reserves below its level. -/
theorem below_spend (hle : p ≤ r) :
    below reserve (spend spent r amount) p = below reserve spent p := by
  refine Finset.sum_congr rfl fun q hq => unspent_spend_of_ne ?_
  simp only [Finset.mem_filter, Finset.mem_univ, true_and] at hq
  exact (lt_of_lt_of_le hq hle).ne

/-- **A spending that leaves the reserves below its level free keeps every level's reserves
free.** -/
theorem upTo_spend_le (hle : p ≤ r) (hleft : below reserve spent r + amount ≤ free)
    (hfits : upTo reserve spent p ≤ free) :
    upTo reserve (spend spent r amount) p + amount ≤ free := by
  rcases eq_or_lt_of_le hle with rfl | hlt
  · rw [upTo_eq_below_add] at hfits ⊢
    rw [below_spend (le_refl _), unspent_spend_self]
    omega
  · have hsame : upTo reserve (spend spent r amount) p = upTo reserve spent p := by
      rw [upTo_eq_below_add, upTo_eq_below_add, below_spend hle, unspent_spend_of_ne hlt.ne]
    have hamong : upTo reserve spent p ≤ below reserve spent r := upTo_le_below hlt
    rw [hsame]
    omega

/-- A spending adds to what all levels have spent. -/
theorem sum_spend : ∑ q, spend spent r amount q = ∑ q, spent q + amount := by
  rw [spend, Finset.sum_update_of_mem (Finset.mem_univ r)]
  have hsplit : ∑ q, spent q = spent r + ∑ q ∈ Finset.univ \ {r}, spent q := by
    rw [← Finset.sum_update_of_mem (Finset.mem_univ r) spent (spent r), Function.update_eq_self]
  omega

end Reserves
