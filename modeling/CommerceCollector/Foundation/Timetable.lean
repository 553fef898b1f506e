import Mathlib.Data.Set.Card
import Mathlib.Order.Interval.Finset.Nat

/-!
# Timetables

An unbounded set of instants, with the next one behind any instant, and the instants of an interval
as a program enumerates them: one after the other, at most so many.
-/

/-- An unbounded set of instants. -/
structure Timetable where
  occurs : ℕ → Prop
  next : ℕ → ℕ
  lt_next : ∀ t, t < next t
  occurs_next : ∀ t, occurs (next t)
  next_le : ∀ t u, occurs u → t < u → next t ≤ u

namespace Timetable

variable (T : Timetable)

/-- The first instants behind one and up to another, at most so many. -/
def following : ℕ → ℕ → ℕ → List ℕ
  | 0, _, _ => []
  | limit + 1, last, t =>
    if last < T.next t then [] else T.next t :: following limit last (T.next t)

/-- The instants from one to another. -/
def within (t last : ℕ) : Set ℕ := {o | T.occurs o ∧ t ≤ o ∧ o ≤ last}

variable {T} {limit last t o : ℕ}

/-- What is enumerated lies in the interval. -/
theorem mem_following (h : o ∈ T.following limit last t) : T.occurs o ∧ t < o ∧ o ≤ last := by
  induction limit generalizing t with
  | zero => exact absurd h List.not_mem_nil
  | succ limit ih =>
    rw [following] at h
    split at h
    · exact absurd h List.not_mem_nil
    · rename_i hle
      rcases List.mem_cons.mp h with rfl | h
      · exact ⟨T.occurs_next t, T.lt_next t, not_lt.mp hle⟩
      · obtain ⟨hoccurs, hlt, hlast⟩ := ih h
        exact ⟨hoccurs, (T.lt_next t).trans hlt, hlast⟩

/-- The instants are enumerated in their order. -/
theorem pairwise_following : (T.following limit last t).Pairwise (· < ·) := by
  induction limit generalizing t with
  | zero => exact List.Pairwise.nil
  | succ limit ih =>
    rw [following]
    split
    · exact List.Pairwise.nil
    · exact List.pairwise_cons.mpr ⟨fun o ho => (mem_following ho).2.1, ih⟩

/-- Below the limit no instant is left out. -/
theorem mem_following_of_length_lt (hlt : (T.following limit last t).length < limit)
    (hoccurs : T.occurs o) (hto : t < o) (hlast : o ≤ last) : o ∈ T.following limit last t := by
  induction limit generalizing t with
  | zero => exact absurd hlt (Nat.not_lt_zero _)
  | succ limit ih =>
    have hnext := T.next_le t o hoccurs hto
    rw [following, if_neg (not_lt.mpr (hnext.trans hlast))] at hlt ⊢
    rcases eq_or_lt_of_le hnext with heq | hbehind
    · exact heq ▸ List.mem_cons_self
    · exact List.mem_cons_of_mem _ (ih (Nat.lt_of_succ_lt_succ hlt) hbehind)

variable (T limit last t) in
/-- Nothing is enumerated iff there is nothing to enumerate. -/
theorem following_eq_nil_iff (hlimit : 0 < limit) :
    T.following limit last t = [] ↔ ∀ o, T.occurs o → t < o → last < o := by
  constructor
  · intro hnil o hoccurs hto
    by_contra hle
    have hmem : o ∈ T.following limit last t :=
      mem_following_of_length_lt (by rw [hnil]; exact hlimit) hoccurs hto (not_lt.mp hle)
    rw [hnil] at hmem
    exact absurd hmem List.not_mem_nil
  · intro hnone
    refine List.eq_nil_iff_forall_not_mem.mpr fun o ho => ?_
    obtain ⟨hoccurs, hto, hlast⟩ := mem_following ho
    exact absurd (hnone o hoccurs hto) (not_lt.mpr hlast)

theorem finite_within : (T.within t last).Finite :=
  (Set.finite_Icc t last).subset fun _ ho => ho.2

variable (limit) in
/-- The first instant of an interval and those that are enumerated behind it. -/
theorem length_following_lt_ncard (hoccurs : T.occurs t) (hle : t ≤ last) :
    (T.following limit last t).length < (T.within t last).ncard := by
  have hnodup : (t :: T.following limit last t).Nodup := by
    have hsorted : (t :: T.following limit last t).Pairwise (· < ·) :=
      List.pairwise_cons.mpr ⟨fun o ho => (mem_following ho).2.1, pairwise_following⟩
    exact hsorted.imp fun h => Nat.ne_of_lt h
  have hsubset : ↑(t :: T.following limit last t).toFinset ⊆ T.within t last := by
    intro o ho
    rw [List.coe_toFinset] at ho
    rcases List.mem_cons.mp ho with rfl | ho
    · exact ⟨hoccurs, le_refl _, hle⟩
    · obtain ⟨hoccurs, hto, hlast⟩ := mem_following ho
      exact ⟨hoccurs, hto.le, hlast⟩
  have hcard := Set.ncard_le_ncard hsubset finite_within
  rw [Set.ncard_coe_finset, List.toFinset_card_of_nodup hnodup] at hcard
  exact hcard

/-- An instant that no other follows in time is alone in the interval. -/
theorem ncard_within_eq_one (hoccurs : T.occurs t) (hle : t ≤ last)
    (hnone : ∀ o, T.occurs o → t < o → last < o) : (T.within t last).ncard = 1 := by
  rw [Set.ncard_eq_one]
  refine ⟨t, Set.eq_singleton_iff_unique_mem.mpr ⟨⟨hoccurs, le_refl _, hle⟩, ?_⟩⟩
  rintro o ⟨hocc, hto, hlast⟩
  by_contra hne
  exact absurd (hnone o hocc (lt_of_le_of_ne hto (Ne.symm hne))) (not_lt.mpr hlast)

end Timetable
