import CommerceCollector.Foundation.Table
import Mathlib.Algebra.Order.BigOperators.Group.List
import Mathlib.Algebra.Order.Ring.Nat

/-!
# Sums over the rows of a table

`total p amount rows` is `coalesce(sum(amount) filter (where p), 0)`.  The lemmas say what a
statement on the table does to a sum: an inserted row adds its own share, an update of the row of a
key exchanges one share for another, and an update that raises no share raises no sum.
-/

namespace Relational

variable {α β : Type*}

/-- `coalesce(sum(amount) filter (where p), 0)`. -/
def total (p : α → Bool) (amount : α → ℕ) (rows : List α) : ℕ := ((rows.filter p).map amount).sum

/-- What one row adds to a sum. -/
def share (p : α → Bool) (amount : α → ℕ) (r : α) : ℕ := if p r then amount r else 0

section Sum

variable (p : α → Bool) (amount : α → ℕ)

@[simp] theorem total_nil : total p amount [] = 0 := rfl

@[simp] theorem total_cons (r : α) (rows : List α) :
    total p amount (r :: rows) = share p amount r + total p amount rows := by
  unfold total share
  by_cases hp : p r <;> simp [hp]

@[simp] theorem total_append (rows rows' : List α) :
    total p amount (rows ++ rows') = total p amount rows + total p amount rows' := by
  simp [total, List.filter_append]

/-- A sum is the sum of the shares. -/
theorem total_eq_sum (rows : List α) : total p amount rows = (rows.map (share p amount)).sum := by
  induction rows with
  | nil => rfl
  | cons r rows ih => rw [total_cons, ih, List.map_cons, List.sum_cons]

end Sum

/-- A count is the sum of ones. -/
theorem countP_eq_total (p : α → Bool) (rows : List α) :
    rows.countP p = total p (fun _ => 1) rows := by
  induction rows with
  | nil => rfl
  | cons r rows ih =>
    rw [List.countP_cons, total_cons, ih, share, Nat.add_comm]

variable {rows : List α}

/-- A sum over no row. -/
theorem total_eq_zero {p : α → Bool} {amount : α → ℕ}
    (h : ∀ r ∈ rows, p r = false) : total p amount rows = 0 := by
  rw [total_eq_sum]
  refine List.sum_eq_zero fun x hx => ?_
  obtain ⟨r, hr, rfl⟩ := List.mem_map.mp hx
  simp [share, h r hr]

/-- Two sums in which every row has the same share are equal. -/
theorem total_congr {p q : α → Bool} {amount amount' : α → ℕ}
    (h : ∀ r ∈ rows, share p amount r = share q amount' r) :
    total p amount rows = total q amount' rows := by
  rw [total_eq_sum, total_eq_sum, List.map_congr_left h]

/-- The share of each row bounds the sum. -/
theorem total_mono {p q : α → Bool} {amount amount' : α → ℕ}
    (h : ∀ r ∈ rows, share p amount r ≤ share q amount' r) :
    total p amount rows ≤ total q amount' rows := by
  rw [total_eq_sum, total_eq_sum]
  exact List.sum_le_sum h

/-- The sum after an update, over the old rows. -/
theorem total_update (p q : α → Bool) (amount : α → ℕ) (f : α → α) (rows : List α) :
    total p amount (update q f rows) =
      (rows.map fun r => share p amount (if q r then f r else r)).sum := by
  rw [total_eq_sum, update, List.map_map]
  rfl

variable {f : α → α}

/-- An update that lowers no share of a selected row lowers no sum. -/
theorem total_le_update {p q : α → Bool} {amount : α → ℕ}
    (h : ∀ r ∈ rows, q r = true → share p amount r ≤ share p amount (f r)) :
    total p amount rows ≤ total p amount (update q f rows) := by
  rw [total_update, total_eq_sum]
  refine List.sum_le_sum fun r hr => ?_
  split
  · next hq => exact h r hr hq
  · exact le_rfl

/-- An update that raises no share of a selected row raises no sum. -/
theorem total_update_le {p q : α → Bool} {amount : α → ℕ}
    (h : ∀ r ∈ rows, q r = true → share p amount (f r) ≤ share p amount r) :
    total p amount (update q f rows) ≤ total p amount rows := by
  rw [total_update, total_eq_sum]
  refine List.sum_le_sum fun r hr => ?_
  split
  · next hq => exact h r hr hq
  · exact le_rfl

/-- An update that changes no share of a selected row changes no sum. -/
theorem total_update_eq {p q : α → Bool} {amount : α → ℕ}
    (h : ∀ r ∈ rows, q r = true → share p amount (f r) = share p amount r) :
    total p amount (update q f rows) = total p amount rows :=
  le_antisymm (total_update_le fun r hr hq => (h r hr hq).le)
    (total_le_update fun r hr hq => (h r hr hq).ge)

/-- An update after which a selected row counts only if it did before raises no count. -/
theorem countP_update_le {p q : α → Bool}
    (h : ∀ r ∈ rows, q r = true → p (f r) = true → p r = true) :
    (update q f rows).countP p ≤ rows.countP p := by
  unfold update
  rw [List.countP_map]
  apply List.countP_mono_left
  intro r hr hp
  rw [Function.comp_apply] at hp
  split at hp
  · next hq => exact h r hr hq hp
  · exact hp

/-- A rewriting that changes no share changes no sum. -/
theorem Rewrites.total_eq {R : α → α → Prop} {rows rows' : List α} (h : Rewrites R rows rows')
    {p : α → Bool} {amount : α → ℕ}
    (hR : ∀ r r', R r r' → share p amount r' = share p amount r) :
    total p amount rows' = total p amount rows := by
  rw [total_eq_sum, total_eq_sum, h.map_eq hR]

/-- An update of the row of a key exchanges the share of that row. -/
theorem total_update_key {key : α → β} (hkey : Keyed key rows) {r : α} (hr : r ∈ rows)
    {q : α → Bool} (hqr : q r = true) (hq : ∀ s, q s = true → key s = key r) (p : α → Bool)
    (amount : α → ℕ) (f : α → α) :
    total p amount (update q f rows) + share p amount r =
      total p amount rows + share p amount (f r) := by
  obtain ⟨before, after, rfl⟩ := List.append_of_mem hr
  have hother : ∀ s ∈ before ++ after, q s = false := by
    intro s hs
    rw [Bool.eq_false_iff]
    intro hqs
    have hnodup : (r :: (before ++ after)).map key |>.Nodup :=
      ((List.perm_middle.map key).nodup_iff).mp hkey
    rw [List.map_cons, List.nodup_cons] at hnodup
    exact hnodup.1 (List.mem_map.mpr ⟨s, hs, hq s hqs⟩)
  have hbefore : update q f before = before :=
    update_eq_self fun s hs => hother s (List.mem_append_left _ hs)
  have hafter : update q f after = after :=
    update_eq_self fun s hs => hother s (List.mem_append_right _ hs)
  have hsplit : update q f (before ++ r :: after) = before ++ f r :: after := by
    unfold update at hbefore hafter ⊢
    rw [List.map_append, List.map_cons, hbefore, hafter, hqr, if_pos rfl]
  rw [hsplit]
  simp only [total_append, total_cons]
  omega

/-- A sum splits by a second condition. -/
theorem total_split (p q : α → Bool) (amount : α → ℕ) (rows : List α) :
    total p amount rows =
      total (fun r => p r && q r) amount rows + total (fun r => p r && !q r) amount rows := by
  induction rows with
  | nil => rfl
  | cons r rows ih =>
    have hshare : share p amount r =
        share (fun r => p r && q r) amount r + share (fun r => p r && !q r) amount r := by
      by_cases hp : p r = true <;> by_cases hq : q r = true <;> simp [share, hp, hq]
    simp only [total_cons]
    omega

/-- A sum over the rows of one key is at most what such a row may add. -/
theorem Keyed.total_le {key : α → β} (hkey : Keyed key rows) {p : α → Bool} {amount : α → ℕ} {k : β}
    {n : ℕ} (h : ∀ r ∈ rows, p r = true → key r = k ∧ amount r ≤ n) : total p amount rows ≤ n := by
  induction rows with
  | nil => exact Nat.zero_le _
  | cons r rows ih =>
    obtain ⟨hfresh, hrest⟩ := List.nodup_cons.mp hkey
    have htail : ∀ t ∈ rows, p t = true → key t = k ∧ amount t ≤ n :=
      fun t ht => h t (List.mem_cons_of_mem _ ht)
    rw [total_cons]
    by_cases hp : p r = true
    · obtain ⟨hk, hle⟩ := h r (by simp) hp
      have hnone : total p amount rows = 0 := by
        rw [total_eq_sum]
        refine List.sum_eq_zero fun x hx => ?_
        obtain ⟨t, ht, rfl⟩ := List.mem_map.mp hx
        refine if_neg fun hpt => hfresh ?_
        rw [hk, ← (htail t ht hpt).1]
        exact List.mem_map_of_mem ht
      rw [hnone, share, if_pos hp]
      exact hle
    · rw [share, if_neg hp, Nat.zero_add]
      exact ih hrest htail

end Relational
