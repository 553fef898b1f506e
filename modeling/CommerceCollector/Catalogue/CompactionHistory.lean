import CommerceCollector.Catalogue.CompactionLoads

/-!
# Histories with fewer observations

`Condenses rows' rows`: island by island, `rows'` are some of the observations of `rows`, the first
one among them, and the greatest `last_seen_at` is the same.  So both have the same history; a load
does the same to both, unless the missing observations would have kept it out (`Condenses.verdict`),
and a merged group takes observations away and leaves the relation (`Condenses.merge`).
-/

namespace CommerceCollector.Compaction

open Relational Islands

/-! ## The greatest moment -/

@[simp]
theorem lastSeen_nil : lastSeen [] = 0 := rfl

@[simp]
theorem lastSeen_cons (o : OfferObservation) (rows : List OfferObservation) :
    lastSeen (o :: rows) = max o.lastSeenAt (lastSeen rows) := rfl

theorem lastSeen_singleton (o : OfferObservation) : lastSeen [o] = o.lastSeenAt :=
  Nat.max_zero _

@[simp]
theorem lastSeen_append (rows rows' : List OfferObservation) :
    lastSeen (rows ++ rows') = max (lastSeen rows) (lastSeen rows') := by
  induction rows with
  | nil => simp
  | cons o rows ih => rw [List.cons_append, lastSeen_cons, ih, lastSeen_cons, max_assoc]

variable {f : Time}

theorem lastSeen_le_iff {rows : List OfferObservation} :
    lastSeen rows ≤ f ↔ ∀ o ∈ rows, o.lastSeenAt ≤ f := by
  induction rows with
  | nil => simp
  | cons o rows ih => simp [ih]

theorem le_lastSeen {rows : List OfferObservation} {o : OfferObservation} (h : o ∈ rows) :
    o.lastSeenAt ≤ lastSeen rows := lastSeen_le_iff.mp le_rfl o h

/-! ## Some of the observations -/

/-- What compaction leaves of an observation as it is. -/
def ident (o : OfferObservation) : OfferObservation :=
  { o with rawRecordId := 0, lastSeenAt := 0 }

variable {o o' : OfferObservation}

/-- Observations that agree in everything that compaction leaves as it is. -/
theorem ident_eq (h : ident o' = ident o) :
    o'.id = o.id ∧ o'.productId = o.productId ∧ o'.observedAt = o.observedAt ∧
      o'.terms = o.terms ∧ o'.contextSha256 = o.contextSha256 := by
  have hid := congrArg OfferObservation.id h
  have hproduct := congrArg OfferObservation.productId h
  have hobserved := congrArg OfferObservation.observedAt h
  have hterms := congrArg OfferObservation.terms h
  have hsha := congrArg OfferObservation.contextSha256 h
  exact ⟨hid, hproduct, hobserved, hterms, hsha⟩

@[simp]
theorem ident_extend (o : OfferObservation) (f : Time) : ident (o.extend f) = ident o := rfl

/-- Some observations of an island, the first one among them, seen as late as the island. -/
structure Thins (g' g : List OfferObservation) : Prop where
  ne_nil : g' ≠ []
  head : (g'.map ident).head? = (g.map ident).head?
  sub : (g'.map ident).Sublist (g.map ident)
  seen : lastSeen g' = lastSeen g

/-- Island by island, some of the observations. -/
def Condenses (rows' rows : List OfferObservation) : Prop :=
  List.Forall₂ Thins (islands OfferObservation.terms rows') (islands OfferObservation.terms rows)

variable {rows rows' init : List OfferObservation} {g g' : List OfferObservation}

theorem Thins.exists_mem (h : Thins g' g) {o' : OfferObservation} (ho : o' ∈ g') :
    ∃ o ∈ g, ident o' = ident o := by
  obtain ⟨o, hog, heq⟩ := List.mem_map.mp (h.sub.subset (List.mem_map_of_mem ho))
  exact ⟨o, hog, heq.symm⟩

theorem Condenses.refl (rows : List OfferObservation) : Condenses rows rows :=
  List.forall₂_same.mpr fun _ hg =>
    ⟨(isIslands_islands _ rows).ne_nil _ hg, rfl, List.Sublist.refl _, rfl⟩

theorem Condenses.exists_mem (h : Condenses rows' rows) {o' : OfferObservation} (ho : o' ∈ rows') :
    ∃ o ∈ rows, ident o' = ident o := by
  obtain ⟨g', hg', hog'⟩ := exists_island OfferObservation.terms ho
  obtain ⟨g, hg, hthins⟩ := exists_partner h hg'
  obtain ⟨o, hog, heq⟩ := hthins.exists_mem hog'
  exact ⟨o, mem_of_mem_islands hg hog, heq⟩

theorem Condenses.nil_iff (h : Condenses rows' rows) : rows' = [] ↔ rows = [] := by
  have hlength := h.length_eq
  rw [← List.splitBy_eq_nil (l := rows') (r := fun a b => a.terms == b.terms),
    ← List.splitBy_eq_nil (l := rows) (r := fun a b => a.terms == b.terms)]
  unfold islands at hlength
  rw [← List.length_eq_zero_iff, ← List.length_eq_zero_iff, hlength]

theorem Condenses.map (h : Condenses rows' rows) {u : OfferObservation → OfferObservation}
    (hu : ∀ o, ident (u o) = ident o ∧ (u o).lastSeenAt = o.lastSeenAt) :
    Condenses (rows'.map u) rows := by
  have hrel : List.Forall₂ Thins ((islands OfferObservation.terms rows').map (List.map u))
      (islands OfferObservation.terms rows) := by
    rw [List.forall₂_map_left_iff]
    refine h.imp fun g' g hthin => ?_
    have hsame : (g'.map u).map ident = g'.map ident := by
      rw [List.map_map]
      exact List.map_congr_left fun o _ => (hu o).1
    have hseen : lastSeen (g'.map u) = lastSeen g' := by
      unfold lastSeen
      rw [List.map_map]
      exact congrArg _ (List.map_congr_left fun o _ => (hu o).2)
    exact ⟨by simpa using hthin.ne_nil, hsame ▸ hthin.head, hsame ▸ hthin.sub,
      hseen.trans hthin.seen⟩
  have hislands : islands OfferObservation.terms (rows'.map u) =
      (islands OfferObservation.terms rows').map (List.map u) := by
    conv_lhs => rw [← flatten_islands OfferObservation.terms rows', List.map_flatten]
    refine islands_flatten ((isIslands_islands OfferObservation.terms rows).of_forall₂ hrel ?_)
    intro g' g hthin
    refine ⟨hthin.ne_nil, fun a ha => ?_⟩
    obtain ⟨b, hb, hab⟩ := hthin.exists_mem ha
    exact ⟨b, hb, (ident_eq hab).2.2.2.1⟩
  unfold Condenses
  rw [hislands]
  exact hrel

theorem exists_append_singleton {α : Type*} {l : List α} (h : l ≠ []) : ∃ i a, l = i ++ [a] :=
  ⟨l.dropLast, l.getLast h, (List.dropLast_append_getLast h).symm⟩

theorem Condenses.last {latest : OfferObservation} (h : Condenses rows' (init ++ [latest])) :
    ∃ gs g gs' g' latest', islands OfferObservation.terms (init ++ [latest]) = gs ++ [g ++ [latest]] ∧
      islands OfferObservation.terms rows' = gs' ++ [g' ++ [latest']] ∧
      List.Forall₂ Thins gs' gs ∧ Thins (g' ++ [latest']) (g ++ [latest]) ∧
      init = gs.flatten ++ g ∧ rows' = gs'.flatten ++ (g' ++ [latest']) := by
  obtain ⟨gs, gl, hgs, hgl⟩ :=
    exists_last_island OfferObservation.terms (List.append_ne_nil_of_right_ne_nil init (List.cons_ne_nil latest []))
  obtain ⟨g, last, rfl⟩ := exists_append_singleton hgl
  have hrel : List.Forall₂ Thins (islands OfferObservation.terms rows') (gs ++ [g ++ [last]]) := by
    rw [← hgs]
    exact h
  obtain ⟨gs', gl', hgs', hprev, hthins⟩ := forall₂_concat hrel
  obtain ⟨g', latest', rfl⟩ := exists_append_singleton hthins.ne_nil
  have hflat := flatten_islands OfferObservation.terms (init ++ [latest])
  rw [hgs, List.flatten_append, List.flatten_singleton, ← List.append_assoc] at hflat
  obtain ⟨hinit, hlast⟩ := List.append_inj' hflat rfl
  obtain rfl : last = latest := (List.cons.inj hlast).1
  refine ⟨gs, g, gs', g', latest', hgs, hgs', hprev, hthins, hinit.symm, ?_⟩
  rw [← flatten_islands OfferObservation.terms rows', hgs', List.flatten_append,
    List.flatten_singleton]

/-! ## Loads -/

/-- The last observation of an island is extended, with the one that is left of it. -/
theorem Thins.extend (h : Thins (g' ++ [o']) (g ++ [o])) (f : Time) :
    Thins (g' ++ [o'.extend f]) (g ++ [o.extend f]) where
  ne_nil := by simp
  head := by simpa using h.head
  sub := by simpa using h.sub
  seen := by
    have hseen := h.seen
    rw [lastSeen_append, lastSeen_append, lastSeen_singleton, lastSeen_singleton] at hseen ⊢
    rw [OfferObservation.extend, OfferObservation.extend, ← max_assoc, hseen, max_assoc]

theorem Thins.extend_left {o' : OfferObservation} (h : Thins (g' ++ [o']) g)
    (hf : f ≤ lastSeen g) : Thins (g' ++ [o'.extend f]) g where
  ne_nil := by simp
  head := by simpa using h.head
  sub := by simpa using h.sub
  seen := by
    have hseen := h.seen
    rw [lastSeen_append, lastSeen_singleton] at hseen ⊢
    rw [OfferObservation.extend, ← max_assoc, hseen, max_eq_left hf]

theorem Thins.concat (h : Thins g' g) (hident : ident o' = ident o)
    (hseen : o'.lastSeenAt = o.lastSeenAt) : Thins (g' ++ [o']) (g ++ [o]) where
  ne_nil := by simp
  head := by
    have hne : g ≠ [] := by
      rintro rfl
      exact h.ne_nil (by simpa using h.head)
    rw [List.map_append, List.map_append, List.head?_append, List.head?_append, h.head]
    cases g with
    | nil => exact absurd rfl hne
    | cons a g => rfl
  sub := by
    rw [List.map_append, List.map_append, List.map_singleton, List.map_singleton, hident]
    exact h.sub.append (List.Sublist.refl _)
  seen := by
    rw [lastSeen_append, lastSeen_append, h.seen, lastSeen_cons, lastSeen_cons, hseen]

theorem Condenses.extend {latest latest' : OfferObservation} {init' : List OfferObservation}
    (h : Condenses (init' ++ [latest']) (init ++ [latest])) (f : Time) :
    Condenses (init' ++ [latest'.extend f]) (init ++ [latest.extend f]) := by
  obtain ⟨gs, g, gs', g', last', hrows, hrows', hprev, hthins, rfl, hsplit⟩ := h.last
  rw [← List.append_assoc] at hsplit
  obtain ⟨rfl, hlast⟩ := List.append_inj' hsplit rfl
  obtain rfl : latest' = last' := (List.cons.inj hlast).1
  unfold Condenses
  rw [List.append_assoc, islands_replace_last (b := latest'.extend f) hrows' rfl,
    List.append_assoc, islands_replace_last (b := latest.extend f) hrows rfl]
  exact forall₂_append_singleton hprev (hthins.extend f)

/-- The latest observation that is left is extended, to a moment at which it was seen. -/
theorem Condenses.extend_left {latest latest' : OfferObservation} {init' : List OfferObservation}
    (h : Condenses (init' ++ [latest']) (init ++ [latest])) (hf : f ≤ latest.lastSeenAt) :
    Condenses (init' ++ [latest'.extend f]) (init ++ [latest]) := by
  obtain ⟨gs, g, gs', g', last', hrows, hrows', hprev, hthins, rfl, hsplit⟩ := h.last
  rw [← List.append_assoc] at hsplit
  obtain ⟨rfl, hlast⟩ := List.append_inj' hsplit rfl
  obtain rfl : latest' = last' := (List.cons.inj hlast).1
  unfold Condenses
  rw [List.append_assoc, islands_replace_last (b := latest'.extend f) hrows' rfl, hrows]
  refine forall₂_append_singleton hprev (hthins.extend_left ?_)
  exact hf.trans (le_lastSeen (by simp))

theorem Condenses.concat (h : Condenses rows' rows) (hident : ident o' = ident o)
    (hseen : o'.lastSeenAt = o.lastSeenAt) : Condenses (rows' ++ [o']) (rows ++ [o]) := by
  have hterms : o'.terms = o.terms := (ident_eq hident).2.2.2.1
  have hnew : Thins [o'] [o] :=
    ⟨by simp, by simp [hident], by simp [hident], by simp [hseen]⟩
  rcases List.eq_nil_or_concat rows with rfl | ⟨init, latest, rfl⟩
  · obtain rfl : rows' = [] := h.nil_iff.mpr rfl
    have hislands : ∀ x : OfferObservation, islands OfferObservation.terms ([] ++ [x]) = [[x]] :=
      fun x => islands_concat_new fun a ha => absurd ha (by simp)
    unfold Condenses
    rw [hislands, hislands]
    exact .cons hnew .nil
  · rw [List.concat_eq_append] at h ⊢
    obtain ⟨gs, g, gs', g', latest', hrows, hrows', hprev, hthins, -, hsplit⟩ := h.last
    have hconst : ∀ a ∈ g ++ [latest], a.terms = latest.terms := fun a ha =>
      (isIslands_islands OfferObservation.terms (init ++ [latest])).const (g ++ [latest])
        (by simp [hrows]) a ha latest (by simp)
    have hconst' : ∀ a ∈ g' ++ [latest'], a.terms = latest.terms := by
      intro a ha
      obtain ⟨b, hb, hab⟩ := hthins.exists_mem ha
      rw [(ident_eq hab).2.2.2.1, hconst b hb]
    unfold Condenses
    by_cases hsame : latest.terms = o.terms
    · rw [islands_concat_same hrows fun a ha => (hconst a ha).trans hsame,
        islands_concat_same hrows' fun a ha => (hconst' a ha).trans (hsame.trans hterms.symm)]
      exact forall₂_append_singleton hprev (hthins.concat hident hseen)
    · rw [islands_concat_new, islands_concat_new]
      · exact forall₂_append_singleton h hnew
      · intro a ha
        rw [List.getLast?_concat, Option.some.injEq] at ha
        rw [← ha]
        exact hsame
      · intro a ha
        rw [hsplit, ← List.append_assoc, List.getLast?_concat, Option.some.injEq] at ha
        rw [← ha, hconst' latest' (by simp), hterms]
        exact hsame

/-- A record that the observations keep out is not newer than the latest one. -/
theorem le_of_keep {latest : OfferObservation} {t : Terms Numeric} {sha : Digest}
    (hordered : ∀ o ∈ init ++ [latest], o.observedAt ≤ latest.observedAt)
    (hv : verdict (init ++ [latest]) f t sha = .keep) : f ≤ latest.observedAt := by
  unfold verdict at hv
  split at hv
  · rename_i hknown
    obtain ⟨o, ho, hsame⟩ := List.any_eq_true.mp hknown
    rw [Bool.and_eq_true, beq_iff_eq] at hsame
    rw [← hsame.1]
    exact hordered o ho
  · rw [List.getLast?_concat] at hv
    dsimp only at hv
    split at hv
    · rename_i hlate
      exact hlate.le
    · split at hv <;> exact absurd hv (by simp)

/-- **A load does the same to both**, if it makes no observation of a record that the missing
observations keep out, or it extends what was kept out. -/
theorem Condenses.verdict {t : Terms Numeric} {sha : Digest} (h : Condenses rows' rows)
    (hordered : rows.Pairwise fun a b => a.observedAt ≤ b.observedAt)
    (hinsert : verdict rows' f t sha = .insert → verdict rows f t sha = .insert) :
    verdict rows' f t sha = verdict rows f t sha ∨
      verdict rows' f t sha = .extend ∧ verdict rows f t sha = .keep := by
  rcases List.eq_nil_or_concat rows with rfl | ⟨init, latest, rfl⟩
  · obtain rfl : rows' = [] := h.nil_iff.mpr rfl
    exact .inl rfl
  rw [List.concat_eq_append] at h hordered hinsert ⊢
  by_cases hkeep : Compaction.verdict (init ++ [latest]) f t sha = .keep
  · rw [hkeep] at hinsert ⊢
    cases hv : Compaction.verdict rows' f t sha with
    | keep => exact .inl rfl
    | extend => exact .inr ⟨rfl, rfl⟩
    | insert => exact absurd (hinsert hv) (by simp)
  · left
    obtain ⟨gs, g, gs', g', latest', hrows, -, -, hthins, -, hsplit⟩ := h.last
    obtain ⟨b, hb, hident⟩ := hthins.exists_mem (List.mem_append_right g' (List.mem_singleton_self latest'))
    have hislands := isIslands_islands OfferObservation.terms (init ++ [latest])
    have hterms : latest'.terms = latest.terms := by
      rw [(ident_eq hident).2.2.2.1]
      exact hislands.const _ (by simp [hrows]) b hb latest (by simp)
    have hobserved : latest'.observedAt ≤ latest.observedAt := by
      rw [(ident_eq hident).2.2.1]
      have hmem : b ∈ init ++ [latest] :=
        mem_of_mem_islands (by rw [hrows]; exact List.mem_append_right _ (by simp)) hb
      rcases List.mem_append.mp hmem with hmem | hmem
      · exact (List.pairwise_append.mp hordered).2.2 b hmem latest (by simp)
      · rw [List.mem_singleton.mp hmem]
    unfold Compaction.verdict at hkeep ⊢
    split at hkeep
    · exact absurd rfl hkeep
    · rename_i hknown
      have hknown' : ¬ (rows'.any fun o => o.observedAt == f && o.contextSha256 == sha) = true := by
        intro hany
        obtain ⟨o', ho', hsame⟩ := List.any_eq_true.mp hany
        obtain ⟨o, ho, heq⟩ := h.exists_mem ho'
        refine hknown (List.any_eq_true.mpr ⟨o, ho, ?_⟩)
        rw [← (ident_eq heq).2.2.1, ← (ident_eq heq).2.2.2.2]
        exact hsame
      rw [List.getLast?_concat] at hkeep
      dsimp only at hkeep
      have hlate : ¬ f < latest.observedAt := by
        intro hlate
        exact hkeep (if_pos hlate)
      have hlate' : ¬ f < latest'.observedAt := fun hlt => hlate (hlt.trans_le hobserved)
      rw [if_neg hknown, if_neg hknown', hsplit, ← List.append_assoc,
        List.getLast?_concat, List.getLast?_concat]
      dsimp only
      rw [if_neg hlate, if_neg hlate', hterms]

end CommerceCollector.Compaction
