import Mathlib.Data.List.Destutter
import Mathlib.Data.List.Nodup

/-!
# Changes and first occurrences

What is left of a list when every element is dropped whose key is that of the element before it, and
what is left when every element is dropped whose key occurred before.  They are the same exactly
when no key comes back among the changes.
-/

namespace Changes

variable {α κ : Type*} [DecidableEq κ] (key : α → κ)

/-- The elements whose key differs from that of the element before them. -/
def changes : Option κ → List α → List α
  | _, [] => []
  | previous, x :: l =>
    if previous = some (key x) then changes (some (key x)) l else x :: changes (some (key x)) l

/-- The elements whose key did not occur before. -/
def firsts : List κ → List α → List α
  | _, [] => []
  | seen, x :: l => if key x ∈ seen then firsts seen l else x :: firsts (seen ++ [key x]) l

variable {key} {seen : List κ} {previous : Option κ} {l : List α} {x : α}

/-- The changes of a list are what `List.destutter` leaves of it. -/
theorem changes_eq_destutter (l : List α) :
    changes key none l = l.destutter fun x y => key x ≠ key y := by
  have htail : ∀ (l : List α) (a : α),
      a :: changes key (some (key a)) l = l.destutter' (fun x y => key x ≠ key y) a := by
    intro l
    induction l with
    | nil => intro a; rfl
    | cons b l ih =>
      intro a
      rw [changes, List.destutter'_cons]
      by_cases hab : key a = key b
      · rw [if_pos (congrArg some hab), if_neg (not_not.mpr hab), ← hab]
        exact ih a
      · rw [if_neg (fun h => hab (Option.some.inj h)), if_pos hab, ih b]
  cases l with
  | nil => rfl
  | cons a l =>
    rw [changes, if_neg (by simp), htail, List.destutter_cons']

/-- What is a first occurrence was not seen. -/
theorem not_mem_seen_of_mem_firsts (h : x ∈ firsts key seen l) : key x ∉ seen := by
  induction l generalizing seen with
  | nil => cases h
  | cons y l ih =>
    rw [firsts] at h
    split at h
    · exact ih h
    · rename_i hy
      rcases List.mem_cons.mp h with rfl | h
      · exact hy
      · exact fun hseen => ih h (List.mem_append_left _ hseen)

/-- The key of an element was seen, or it has a first occurrence. -/
theorem mem_keys_of_mem (h : x ∈ l) : key x ∈ seen ++ (firsts key seen l).map key := by
  induction l generalizing seen with
  | nil => cases h
  | cons y l ih =>
    rw [firsts]
    split
    · rename_i hy
      rcases List.mem_cons.mp h with rfl | h
      · exact List.mem_append_left _ hy
      · exact ih h
    · rw [List.map_cons, List.append_cons]
      rcases List.mem_cons.mp h with rfl | h
      · exact List.mem_append_left _ (List.mem_append_right _ (List.mem_singleton_self _))
      · exact ih h

/-- Changes are first occurrences exactly when no key comes back, also among those seen before. -/
theorem firsts_eq_changes_iff (hnodup : seen.Nodup) (hprevious : ∀ k ∈ previous, k ∈ seen) :
    firsts key seen l = changes key previous l ↔
      (seen ++ (changes key previous l).map key).Nodup := by
  induction l generalizing seen previous with
  | nil => simpa [firsts, changes] using hnodup
  | cons x l ih =>
    rw [firsts, changes]
    by_cases hx : key x ∈ seen
    · rw [if_pos hx]
      by_cases hp : previous = some (key x)
      · rw [if_pos hp]
        exact ih hnodup fun k hk => Option.some.inj hk ▸ hx
      · -- the key comes back: it is a change and no first occurrence
        rw [if_neg hp]
        refine iff_of_false (fun heq => ?_) fun hall => ?_
        · have hmem : x ∈ firsts key seen l := heq ▸ List.mem_cons_self
          exact not_mem_seen_of_mem_firsts hmem hx
        · exact (List.nodup_append.mp hall).2.2 _ hx _ List.mem_cons_self rfl
    · have hp : previous ≠ some (key x) := fun heq => hx (hprevious _ heq)
      have hparts : seen ++ ((x :: changes key (some (key x)) l).map key) =
          seen ++ [key x] ++ (changes key (some (key x)) l).map key := by simp
      rw [if_neg hx, if_neg hp, List.cons_inj_right, hparts]
      refine ih ?_ fun k hk => ?_
      · refine List.nodup_append.mpr ⟨hnodup, List.nodup_singleton _, ?_⟩
        rintro k hk k' hk' rfl
        exact hx (List.mem_singleton.mp hk' ▸ hk)
      · exact List.mem_append_right _ (Option.some.inj hk ▸ List.mem_singleton_self _)

/-- **Changes are first occurrences exactly when no key comes back among them.** -/
theorem firsts_eq_destutter_iff (l : List α) :
    firsts key [] l = l.destutter (fun x y => key x ≠ key y) ↔
      ((l.destutter fun x y => key x ≠ key y).map key).Nodup := by
  rw [← changes_eq_destutter]
  exact firsts_eq_changes_iff List.nodup_nil fun _ hk => nomatch hk

/-! ## Lists in parts, and other keys -/

variable (key seen) in
/-- The first occurrences in a list of two parts. -/
theorem firsts_append (l m : List α) : firsts key seen (l ++ m) =
    firsts key seen l ++ firsts key (seen ++ (firsts key seen l).map key) m := by
  induction l generalizing seen with
  | nil => simp [firsts]
  | cons x l ih =>
    rw [List.cons_append, firsts, firsts]
    split
    · exact ih seen
    · rw [ih, List.cons_append, List.map_cons, List.append_assoc, List.singleton_append]

/-- A key that tells the same elements apart has the same first occurrences. -/
theorem firsts_comp {δ : Type*} [DecidableEq δ] {f : κ → δ} (hf : Function.Injective f) (l : List α) :
    firsts (fun x => f (key x)) (seen.map f) l = firsts key seen l := by
  induction l generalizing seen with
  | nil => rfl
  | cons x l ih =>
    rw [firsts, firsts]
    have hmem : f (key x) ∈ seen.map f ↔ key x ∈ seen := List.mem_map_of_injective hf
    have hnext : firsts (fun x => f (key x)) (seen.map f ++ [f (key x)]) l =
        firsts key (seen ++ [key x]) l := by
      rw [← List.map_singleton, ← List.map_append]
      exact ih
    by_cases hx : key x ∈ seen
    · rw [if_pos (hmem.mpr hx), if_pos hx]
      exact ih
    · rw [if_neg (fun h => hx (hmem.mp h)), if_neg hx, hnext]

end Changes
