import Mathlib.Data.List.Induction
import Mathlib.Data.List.Nodup
import Mathlib.Data.List.Perm.Subperm
import Mathlib.Tactic.Common

/-!
# Breadth-first order

The nodes that can be reached from some roots, level by level: a level lists what the nodes of the
one before lead to, and the order is that of the first occurrences.  A search with a queue, which
skips what it has seen, visits the nodes in this order, although it expands each node only once:
what a repeated node leads to has been listed before.

The invariant of the search is that the roots and what the nodes seen lead to, one after the other,
are what has been taken off the queue followed by what is still in it.
-/

namespace CommerceCollector

variable {α : Type*}

/-! ## Levels -/

variable (roots : List α) (next : α → List α)

/-- What can be reached from the roots. -/
inductive Reachable : α → Prop
  | root {x : α} (h : x ∈ roots) : Reachable x
  | next {x y : α} (hx : Reachable x) (hy : y ∈ next x) : Reachable y

/-- What is listed at a distance from the roots. -/
def level : ℕ → List α
  | 0 => roots
  | n + 1 => (level n).flatMap next

/-- The first levels, one after the other. -/
def levels (n : ℕ) : List α := (List.range n).flatMap (level roots next)

/-- No more nodes than this can be reached. -/
def Within (limit : ℕ) : Prop :=
  ∃ nodes : List α, nodes.length ≤ limit ∧ ∀ x, Reachable roots next x → x ∈ nodes

section Levels

variable {roots : List α} {next : α → List α}

theorem levels_succ (n : ℕ) : levels roots next (n + 1) = levels roots next n ++ level roots next n := by
  rw [levels, List.range_succ, List.flatMap_append, List.flatMap_singleton, levels]

/-- Behind the roots comes what the levels lead to. -/
theorem levels_succ_eq (n : ℕ) :
    levels roots next (n + 1) = roots ++ (levels roots next n).flatMap next := by
  induction n with
  | zero => rfl
  | succ n ih =>
    rw [levels_succ, ih, List.append_assoc, ← ih]
    conv_rhs => rw [levels_succ, List.flatMap_append]
    rfl

end Levels

/-! ## First occurrences -/

variable [DecidableEq α]

theorem eraseDups_snoc (xs : List α) (x : α) :
    (xs ++ [x]).eraseDups = if x ∈ xs then xs.eraseDups else xs.eraseDups ++ [x] := by
  rw [List.eraseDups_append]
  by_cases hx : x ∈ xs
  · rw [if_pos hx, List.cons_removeAll, if_neg (by simpa using hx)]
    simp [List.removeAll]
  · rw [if_neg hx, List.cons_removeAll, if_pos (by simpa using hx)]
    simp [List.removeAll, List.eraseDups_cons]

theorem nodup_eraseDups (xs : List α) : xs.eraseDups.Nodup := by
  induction xs using List.reverseRecOn with
  | nil => simp
  | append_singleton xs x ih =>
    rw [eraseDups_snoc]
    split
    · exact ih
    · rename_i hx
      refine List.nodup_append.mpr ⟨ih, List.nodup_singleton x, ?_⟩
      rintro y hy z hz rfl
      rw [List.mem_singleton.mp hz, List.mem_eraseDups] at hy
      exact hx hy

/-- What has occurred adds nothing. -/
theorem eraseDups_append_of_subset {xs ys : List α} (h : ∀ y ∈ ys, y ∈ xs) :
    (xs ++ ys).eraseDups = xs.eraseDups := by
  have hnil : ys.removeAll xs = [] := by
    refine List.filter_eq_nil_iff.mpr fun y hy => ?_
    simpa using h y hy
  rw [List.eraseDups_append, hnil, List.eraseDups_nil, List.append_nil]

/-- What comes later depends on which nodes have occurred. -/
theorem eraseDups_append_congr {xs xs' : List α} (h : xs.eraseDups = xs'.eraseDups) (ys : List α) :
    (xs ++ ys).eraseDups = (xs' ++ ys).eraseDups := by
  have hmem : ∀ y, y ∈ xs ↔ y ∈ xs' := fun y => by
    rw [← List.mem_eraseDups, h, List.mem_eraseDups]
  have hrest : ys.removeAll xs = ys.removeAll xs' :=
    List.filter_congr fun y _ => by simp [hmem y]
  rw [List.eraseDups_append, List.eraseDups_append, h, hrest]

theorem eraseDups_filter (p : α → Bool) (xs : List α) :
    (xs.filter p).eraseDups = xs.eraseDups.filter p := by
  induction xs using List.reverseRecOn with
  | nil => rfl
  | append_singleton xs x ih =>
    rw [List.filter_append, eraseDups_snoc]
    by_cases hp : p x = true
    · rw [List.filter_cons_of_pos hp, List.filter_nil, eraseDups_snoc, ih]
      by_cases hx : x ∈ xs
      · rw [if_pos hx, if_pos (List.mem_filter.mpr ⟨hx, hp⟩)]
      · rw [if_neg hx, if_neg fun h => hx (List.mem_filter.mp h).1, List.filter_append,
          List.filter_cons_of_pos hp, List.filter_nil]
    · rw [List.filter_cons_of_neg hp, List.filter_nil, List.append_nil, ih]
      split
      · rfl
      · rw [List.filter_append, List.filter_cons_of_neg hp, List.filter_nil, List.append_nil]

theorem eraseDups_append_right (xs : List α) {ys ys' : List α} (h : ys.eraseDups = ys'.eraseDups) :
    (xs ++ ys).eraseDups = (xs ++ ys').eraseDups := by
  rw [List.eraseDups_append, List.eraseDups_append, List.removeAll, List.removeAll, eraseDups_filter,
    eraseDups_filter, h]

/-- A node that occurs again leads to nothing new. -/
theorem eraseDups_flatMap (xs : List α) (f : α → List α) :
    (xs.flatMap f).eraseDups = (xs.eraseDups.flatMap f).eraseDups := by
  induction xs using List.reverseRecOn with
  | nil => rfl
  | append_singleton xs x ih =>
    rw [eraseDups_snoc, List.flatMap_append, List.flatMap_singleton]
    split
    · rename_i hx
      rw [eraseDups_append_of_subset fun y hy => List.mem_flatMap.mpr ⟨x, hx, hy⟩, ih]
    · rw [List.flatMap_append, List.flatMap_singleton]
      exact eraseDups_append_congr ih (f x)

theorem prefix_eraseDups {xs ys : List α} (h : xs <+: ys) : xs.eraseDups <+: ys.eraseDups := by
  obtain ⟨zs, rfl⟩ := h
  rw [List.eraseDups_append]
  exact List.prefix_append _ _

/-! ## Breadth-first order -/

/-- The nodes of the first levels in breadth-first order. -/
def breadthFirst (n : ℕ) : List α := (levels roots next n).eraseDups

section Order

variable {roots : List α} {next : α → List α}

theorem breadthFirst_succ (n : ℕ) :
    breadthFirst roots next (n + 1) =
      (roots ++ (breadthFirst roots next n).flatMap next).eraseDups := by
  rw [breadthFirst, levels_succ_eq]
  exact eraseDups_append_right roots (eraseDups_flatMap _ next)

theorem breadthFirst_prefix (n : ℕ) :
    breadthFirst roots next n <+: breadthFirst roots next (n + 1) := by
  rw [breadthFirst, breadthFirst, levels_succ]
  exact prefix_eraseDups (List.prefix_append _ _)

end Order

/-! ## The search -/

/-- What holds of the nodes seen and of the queue. -/
structure Frontier (seen queue : List α) : Prop where
  reached : ∀ x ∈ seen, Reachable roots next x
  listed : ∃ taken, roots ++ seen.flatMap next = taken ++ queue ∧ taken.eraseDups = seen

namespace Frontier

variable {roots : List α} {next : α → List α} {seen queue : List α} {x : α}

theorem start : Frontier roots next [] roots :=
  ⟨fun _ h => absurd h List.not_mem_nil, [], List.append_nil roots, rfl⟩

theorem nodup (h : Frontier roots next seen queue) : seen.Nodup := by
  obtain ⟨taken, -, rfl⟩ := h.listed
  exact nodup_eraseDups taken

/-- What is in the queue can be reached. -/
theorem reachable (h : Frontier roots next seen queue) (hx : x ∈ queue) : Reachable roots next x := by
  obtain ⟨taken, hlisted, -⟩ := h.listed
  have hmem : x ∈ roots ++ seen.flatMap next := hlisted ▸ List.mem_append_right taken hx
  rcases List.mem_append.mp hmem with hroot | hnext
  · exact .root hroot
  · obtain ⟨y, hy, hx⟩ := List.mem_flatMap.mp hnext
    exact .next (h.reached y hy) hx

/-- A node that has been seen is skipped. -/
theorem skip (h : Frontier roots next seen (x :: queue)) (hx : x ∈ seen) :
    Frontier roots next seen queue := by
  obtain ⟨taken, hlisted, htaken⟩ := h.listed
  refine ⟨h.reached, taken ++ [x], by rw [hlisted, List.append_assoc, List.singleton_append], ?_⟩
  rw [eraseDups_snoc, if_pos (by rwa [← List.mem_eraseDups, htaken]), htaken]

/-- The nodes at the head of the queue that have been seen are skipped; the next one has not. -/
theorem skipAll (h : Frontier roots next seen queue) :
    Frontier roots next seen (queue.dropWhile (· ∈ seen)) ∧
      ∀ x rest, queue.dropWhile (· ∈ seen) = x :: rest → x ∉ seen := by
  induction queue with
  | nil => exact ⟨h, fun _ _ hnil => absurd hnil (List.cons_ne_nil _ _).symm⟩
  | cons y queue ih =>
    by_cases hy : y ∈ seen
    · rw [List.dropWhile_cons_of_pos (by simpa using hy)]
      exact ih (h.skip hy)
    · rw [List.dropWhile_cons_of_neg (by simpa using hy)]
      refine ⟨h, fun x rest hcons => ?_⟩
      obtain ⟨rfl, -⟩ := List.cons.inj hcons
      exact hy

/-- A node that has not been seen is visited, and what it leads to is queued. -/
theorem visit (h : Frontier roots next seen (x :: queue)) (hx : x ∉ seen) :
    Frontier roots next (seen ++ [x]) (queue ++ next x) := by
  have hreached := h.reachable List.mem_cons_self
  obtain ⟨taken, hlisted, htaken⟩ := h.listed
  refine ⟨fun y hy => ?_, taken ++ [x], ?_, ?_⟩
  · rcases List.mem_append.mp hy with hy | hy
    · exact h.reached y hy
    · exact List.mem_singleton.mp hy ▸ hreached
  · rw [List.flatMap_append, List.flatMap_singleton, ← List.append_assoc, hlisted]
    simp
  · rw [eraseDups_snoc, if_neg (by rwa [← List.mem_eraseDups, htaken]), htaken]

section

variable (h : Frontier roots next seen [])

include h

/-- A search whose queue is empty has seen what can be reached. -/
theorem mem_iff (x : α) :
    x ∈ seen ↔ Reachable roots next x := by
  refine ⟨h.reached x, fun hx => ?_⟩
  obtain ⟨taken, hlisted, htaken⟩ := h.listed
  have hclosed : ∀ y, y ∈ roots ++ seen.flatMap next → y ∈ seen := fun y hy => by
    rwa [← htaken, List.mem_eraseDups, ← List.append_nil taken, ← hlisted]
  induction hx with
  | root hroot => exact hclosed _ (List.mem_append_left _ hroot)
  | next _ hy ih => exact hclosed _ (List.mem_append_right _ (List.mem_flatMap.mpr ⟨_, ih, hy⟩))

theorem fixed :
    (roots ++ seen.flatMap next).eraseDups = seen := by
  obtain ⟨taken, hlisted, htaken⟩ := h.listed
  rw [hlisted, List.append_nil, htaken]

/-- The first levels are where the nodes seen begin. -/
theorem breadthFirst_prefix (n : ℕ) :
    breadthFirst roots next n <+: seen := by
  induction n with
  | zero => exact List.nil_prefix
  | succ n ih =>
    obtain ⟨rest, hrest⟩ := ih
    have hlonger : roots ++ (breadthFirst roots next n).flatMap next <+: roots ++ seen.flatMap next := by
      rw [← hrest, List.flatMap_append, ← List.append_assoc]
      exact List.prefix_append _ _
    rw [breadthFirst_succ, ← h.fixed]
    exact prefix_eraseDups hlonger

/-- Every level adds a node until all are there. -/
theorem breadthFirst_grows (n : ℕ) :
    breadthFirst roots next n = seen ∨ n ≤ (breadthFirst roots next n).length := by
  induction n with
  | zero => exact .inr (Nat.zero_le _)
  | succ n ih =>
    rcases ih with hall | hlength
    · rw [breadthFirst_succ, hall, h.fixed]
      exact .inl rfl
    by_cases hsame : breadthFirst roots next (n + 1) = breadthFirst roots next n
    · have hclosed : ∀ y, y ∈ roots ++ (breadthFirst roots next n).flatMap next →
          y ∈ breadthFirst roots next n := fun y hy => by
        rwa [← hsame, breadthFirst_succ, List.mem_eraseDups]
      have hmem : ∀ y, Reachable roots next y → y ∈ breadthFirst roots next n := by
        intro y hy
        induction hy with
        | root hroot => exact hclosed _ (List.mem_append_left _ hroot)
        | next _ hy ih => exact hclosed _ (List.mem_append_right _ (List.mem_flatMap.mpr ⟨_, ih, hy⟩))
      refine .inl (hsame.trans ((h.breadthFirst_prefix n).eq_of_length_le ?_))
      exact (h.nodup.subperm fun y hy => hmem y ((h.mem_iff y).mp hy)).length_le
    · refine .inr (Nat.succ_le_of_lt (Nat.lt_of_le_of_lt hlength ?_))
      by_contra hge
      exact hsame ((CommerceCollector.breadthFirst_prefix n).eq_of_length_le (Nat.le_of_not_lt hge)).symm

/-- **A search with a queue sees the nodes in breadth-first order.** -/
theorem eq_breadthFirst {n : ℕ} (hn : seen.length ≤ n) :
    seen = breadthFirst roots next n := by
  rcases h.breadthFirst_grows n with hall | hlength
  · exact hall.symm
  · exact ((h.breadthFirst_prefix n).eq_of_length_le (Nat.le_trans hn hlength)).symm

theorem within {limit : ℕ} (hlimit : seen.length ≤ limit) :
    Within roots next limit :=
  ⟨seen, hlimit, fun x hx => (h.mem_iff x).mpr hx⟩

end

/-- A search that would see one node more than the limit has too many to see. -/
theorem not_within (h : Frontier roots next seen (x :: queue)) (hx : x ∉ seen) {limit : ℕ}
    (hlimit : limit ≤ seen.length) : ¬Within roots next limit := by
  rintro ⟨nodes, hlength, hall⟩
  have hmore := h.visit hx
  have hsub := (hmore.nodup.subperm fun y hy => hall y (hmore.reached y hy)).length_le
  rw [List.length_append, List.length_singleton] at hsub
  omega

end Frontier

end CommerceCollector
