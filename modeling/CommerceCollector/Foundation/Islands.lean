import Mathlib.Data.List.Forall2
import Mathlib.Data.List.Nodup
import Mathlib.Data.List.SplitBy

/-!
# Runs of rows with one key

`islands key rows` are the maximal runs of neighbouring rows with one key, which a query numbers by
the sum of the changes of the key from row to row.  They are the only way to split the rows into
runs of one key such that the key changes from run to run (`islands_flatten`); so rows whose runs
are replaced, one by one, by runs of the same keys have the replaced runs as their islands
(`IsIslands.of_forall₂`), and a row at the end extends the last island or begins a new one
(`islands_concat_same`, `islands_concat_new`).
-/

namespace Islands

variable {α κ : Type*} [DecidableEq κ]

/-- The maximal runs of rows with one key. -/
def islands (key : α → κ) (rows : List α) : List (List α) :=
  rows.splitBy fun a b => key a == key b

variable {key : α → κ}

/-- Runs of one key each, and the key changes from run to run. -/
structure IsIslands (key : α → κ) (gs : List (List α)) : Prop where
  ne_nil : ∀ g ∈ gs, g ≠ []
  const : ∀ g ∈ gs, ∀ a ∈ g, ∀ b ∈ g, key a = key b
  changes : gs.IsChain fun g g' => ∀ a ∈ g, ∀ b ∈ g', key a ≠ key b

/-- A chain of rows with equal keys has one key. -/
theorem const_of_isChain {g : List α} (h : g.IsChain fun a b => (key a == key b) = true) :
    ∀ a ∈ g, ∀ b ∈ g, key a = key b := by
  have htrans : g.Pairwise fun a b => key a = key b := by
    have hchain : g.IsChain fun a b => key a = key b := h.imp fun a b hab => beq_iff_eq.mp hab
    have : IsTrans α fun a b => key a = key b := ⟨fun _ _ _ => Eq.trans⟩
    exact hchain.pairwise
  have : Std.Symm fun a b => key a = key b := ⟨fun _ _ => Eq.symm⟩
  intro a ha b hb
  exact List.Pairwise.forall_of_forall (R := fun a b => key a = key b) (fun _ _ => rfl) htrans ha hb

@[simp]
theorem flatten_islands (key : α → κ) (rows : List α) : (islands key rows).flatten = rows :=
  List.flatten_splitBy _ rows

theorem isIslands_islands (key : α → κ) (rows : List α) : IsIslands key (islands key rows) where
  ne_nil := fun _ hg => List.ne_nil_of_mem_splitBy hg
  const := fun _ hg => const_of_isChain (List.isChain_of_mem_splitBy hg)
  changes := by
    have hconst : ∀ g ∈ islands key rows, ∀ a ∈ g, ∀ b ∈ g, key a = key b :=
      fun _ hg => const_of_isChain (List.isChain_of_mem_splitBy hg)
    have hchain := List.isChain_getLast_head_splitBy (fun a b => key a == key b) rows
    refine hchain.imp_of_mem_imp fun g g' hg hg' ⟨hne, hne', hkeys⟩ a ha b hb => ?_
    rw [hconst g hg a ha _ (List.getLast_mem hne), hconst g' hg' b hb _ (List.head_mem hne')]
    exact beq_eq_false_iff_ne.mp hkeys

variable {gs : List (List α)}

/-- The islands are the only runs of this kind. -/
theorem islands_flatten (h : IsIslands key gs) : islands key gs.flatten = gs := by
  refine List.splitBy_flatten (fun hnil => h.ne_nil [] hnil rfl) (fun g hg => ?_) ?_
  · have hpair : g.Pairwise fun a b => (key a == key b) = true := by
      refine List.pairwise_of_forall_mem_list fun a ha b hb => ?_
      exact beq_iff_eq.mpr (h.const g hg a ha b hb)
    exact hpair.isChain
  · refine h.changes.imp_of_mem_imp fun g g' hg hg' hne => ?_
    refine ⟨h.ne_nil g hg, h.ne_nil g' hg', ?_⟩
    exact beq_eq_false_iff_ne.mpr (hne _ (List.getLast_mem _) _ (List.head_mem _))

theorem mem_of_mem_islands {rows g : List α} {a : α} (hg : g ∈ islands key rows) (ha : a ∈ g) :
    a ∈ rows := by
  rw [← flatten_islands key rows]
  exact List.mem_flatten.mpr ⟨g, hg, ha⟩

variable {rows : List α}

theorem exists_island (key : α → κ) {a : α} (ha : a ∈ rows) : ∃ g ∈ islands key rows, a ∈ g := by
  rw [← flatten_islands key rows] at ha
  exact List.mem_flatten.mp ha

/-- A row is in one island only. -/
theorem island_unique {rows g g' : List α} {a : α} (hnodup : rows.Nodup)
    (hg : g ∈ islands key rows) (hg' : g' ∈ islands key rows) (ha : a ∈ g) (ha' : a ∈ g') :
    g = g' := by
  rw [← flatten_islands key rows, List.nodup_flatten] at hnodup
  by_contra hne
  have : Std.Symm (List.Disjoint (α := α)) := ⟨fun _ _ h _ ha hb => h hb ha⟩
  exact hnodup.2.forall hg hg' hne ha ha'

/-! ## Runs that replace runs -/

/-- Every member of a list has its partner in a related list. -/
theorem exists_partner {β δ : Type*} {R : β → δ → Prop} {gs' : List β} {gs : List δ}
    (h : List.Forall₂ R gs' gs) {g' : β} (hg' : g' ∈ gs') : ∃ g ∈ gs, R g' g := by
  induction h with
  | nil => exact absurd hg' List.not_mem_nil
  | @cons x y xs ys hxy _ ih =>
    rcases List.mem_cons.mp hg' with rfl | hg'
    · exact ⟨y, List.mem_cons_self, hxy⟩
    · obtain ⟨g, hg, hr⟩ := ih hg'
      exact ⟨g, List.mem_cons_of_mem _ hg, hr⟩

omit [DecidableEq κ] in
/-- Runs that take the place of islands and have their keys are islands. -/
theorem IsIslands.of_forall₂ {R : List α → List α → Prop} {gs gs' : List (List α)}
    (h : IsIslands key gs) (hrel : List.Forall₂ R gs' gs)
    (hR : ∀ g' g, R g' g → g' ≠ [] ∧ ∀ a ∈ g', ∃ b ∈ g, key a = key b) : IsIslands key gs' := by
  refine ⟨fun g' hg' => ?_, fun g' hg' a ha b hb => ?_, ?_⟩
  · obtain ⟨g, -, hr⟩ := exists_partner hrel hg'
    exact (hR g' g hr).1
  · obtain ⟨g, hg, hr⟩ := exists_partner hrel hg'
    obtain ⟨x, hx, hax⟩ := (hR g' g hr).2 a ha
    obtain ⟨y, hy, hby⟩ := (hR g' g hr).2 b hb
    rw [hax, hby]
    exact h.const g hg x hx y hy
  · have hchanges := h.changes
    clear h
    induction hrel with
    | nil => exact List.isChain_nil
    | @cons g₁' g₁ gs' gs hr₁ hrel ih =>
      cases hrel with
      | nil => exact List.isChain_singleton _
      | @cons g₂' g₂ gs' gs hr₂ hrel =>
        rw [List.isChain_cons_cons] at hchanges ⊢
        refine ⟨fun a ha b hb => ?_, ih hchanges.2⟩
        obtain ⟨x, hx, hax⟩ := (hR _ _ hr₁).2 a ha
        obtain ⟨y, hy, hby⟩ := (hR _ _ hr₂).2 b hb
        rw [hax, hby]
        exact hchanges.1 x hx y hy

/-- A list that is related to a list with a last run has a last run. -/
theorem forall₂_concat {β δ : Type*} {R : β → δ → Prop} {l' : List β} {gs : List δ} {g : δ}
    (h : List.Forall₂ R l' (gs ++ [g])) :
    ∃ gs' g', l' = gs' ++ [g'] ∧ List.Forall₂ R gs' gs ∧ R g' g := by
  induction gs generalizing l' with
  | nil =>
    obtain ⟨g', rfl, hr⟩ : ∃ g', l' = [g'] ∧ R g' g := by
      cases h with
      | cons hr htail =>
        cases htail
        exact ⟨_, rfl, hr⟩
    exact ⟨[], g', rfl, .nil, hr⟩
  | cons x gs ih =>
    cases h with
    | cons hx htail =>
      obtain ⟨gs', g', rfl, hrel, hr⟩ := ih htail
      exact ⟨_ :: gs', g', rfl, .cons hx hrel, hr⟩

/-- A last run related to a last run. -/
theorem forall₂_append_singleton {β δ : Type*} {R : β → δ → Prop} {gs' : List β} {gs : List δ}
    {g' : β} {g : δ} (h : List.Forall₂ R gs' gs) (hr : R g' g) :
    List.Forall₂ R (gs' ++ [g']) (gs ++ [g]) :=
  List.rel_append h (.cons hr .nil)

/-! ## A row at the end -/

/-- The last island of rows. -/
theorem exists_last_island (key : α → κ) (h : rows ≠ []) :
    ∃ gs g, islands key rows = gs ++ [g] ∧ g ≠ [] := by
  have hne : islands key rows ≠ [] := List.splitBy_ne_nil.mpr h
  refine ⟨(islands key rows).dropLast, (islands key rows).getLast hne,
    (List.dropLast_append_getLast hne).symm, ?_⟩
  exact (isIslands_islands key rows).ne_nil _ (List.getLast_mem hne)

/-- A row with the key of the last island extends it. -/
theorem islands_concat_same {g : List α} {o : α} (h : islands key rows = gs ++ [g])
    (hkey : ∀ a ∈ g, key a = key o) : islands key (rows ++ [o]) = gs ++ [g ++ [o]] := by
  have hislands : IsIslands key (gs ++ [g]) := h ▸ isIslands_islands key rows
  have hrows : rows ++ [o] = (gs ++ [g ++ [o]]).flatten := by
    rw [← flatten_islands key rows, h]
    simp
  rw [hrows]
  refine islands_flatten (hislands.of_forall₂ (R := fun g' g => g' ≠ [] ∧ ∀ a ∈ g', ∃ b ∈ g,
    key a = key b) ?_ fun _ _ h => h)
  have hg : g ≠ [] := hislands.ne_nil g (by simp)
  refine forall₂_append_singleton ?_ ⟨by simp, fun a ha => ?_⟩
  · refine List.forall₂_same.mpr fun x hx => ⟨hislands.ne_nil x (by simp [hx]), fun a ha => ?_⟩
    exact ⟨a, ha, rfl⟩
  · rcases List.mem_append.mp ha with ha | ha
    · exact ⟨a, ha, rfl⟩
    · obtain ⟨b, hb⟩ := List.exists_mem_of_ne_nil g hg
      exact ⟨b, hb, by rw [List.mem_singleton.mp ha, hkey b hb]⟩

/-- The last row may be replaced by a row with its key. -/
theorem islands_replace_last {rows g : List α} {a b : α} (h : islands key rows = gs ++ [g ++ [a]])
    (hkey : key b = key a) : islands key (gs.flatten ++ (g ++ [b])) = gs ++ [g ++ [b]] := by
  have hislands : IsIslands key (gs ++ [g ++ [a]]) := h ▸ isIslands_islands key rows
  have hrows : gs.flatten ++ (g ++ [b]) = (gs ++ [g ++ [b]]).flatten := by simp
  rw [hrows]
  refine islands_flatten (hislands.of_forall₂ (R := fun g' g => g' ≠ [] ∧ ∀ a ∈ g', ∃ b ∈ g,
    key a = key b) ?_ fun _ _ h => h)
  refine forall₂_append_singleton ?_ ⟨by simp, fun c hc => ?_⟩
  · refine List.forall₂_same.mpr fun x hx => ⟨hislands.ne_nil x (by simp [hx]), fun c hc => ?_⟩
    exact ⟨c, hc, rfl⟩
  · rcases List.mem_append.mp hc with hc | hc
    · exact ⟨c, by simp [hc], rfl⟩
    · exact ⟨a, by simp, by rw [List.mem_singleton.mp hc, hkey]⟩

/-- A row with another key begins an island. -/
theorem islands_concat_new {o : α} (hkey : ∀ a, rows.getLast? = some a → key a ≠ key o) :
    islands key (rows ++ [o]) = islands key rows ++ [[o]] := by
  have hrows : rows ++ [o] = (islands key rows ++ [[o]]).flatten := by simp
  conv_lhs => rw [hrows]
  have h := isIslands_islands key rows
  refine islands_flatten ⟨fun g hg => ?_, fun g hg => ?_, ?_⟩
  · rcases List.mem_append.mp hg with hg | hg
    · exact h.ne_nil g hg
    · simp [List.mem_singleton.mp hg]
  · rcases List.mem_append.mp hg with hg | hg
    · exact h.const g hg
    · rw [List.mem_singleton.mp hg]
      intro a ha b hb
      rw [List.mem_singleton.mp ha, List.mem_singleton.mp hb]
  · rw [List.isChain_append]
    refine ⟨h.changes, List.isChain_singleton _, fun g hg g' hg' a ha b hb => ?_⟩
    obtain rfl : [o] = g' := by simpa using hg'
    rw [List.mem_singleton.mp hb]
    have hmem : g ∈ islands key rows := List.mem_of_getLast? hg
    have hne : g ≠ [] := h.ne_nil g hmem
    -- The last row of the last island is the last row.
    have hlast : rows.getLast? = some (g.getLast hne) := by
      obtain ⟨gs, hgs⟩ := List.getLast?_eq_some_iff.mp hg
      rw [← flatten_islands key rows, hgs, List.flatten_append, List.flatten_singleton,
        List.getLast?_append, List.getLast?_eq_some_getLast hne]
      rfl
    rw [h.const g hmem a ha _ (List.getLast_mem hne)]
    exact hkey _ hlast

end Islands
