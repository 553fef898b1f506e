import CommerceCollector.Catalogue.CompactionHistory

/-!
# Groups of observations

A group that was read is measured by the observations of the loads alone: it is made of the first
observation of an island and some others of it (`Fits`).  Loads leave that as it is, since they only
extend the last observation or add one behind it (`Grows`); so a group may wait for its transaction
while loads and other runs of compaction go on.
-/

namespace CommerceCollector.Compaction

open Relational Islands

variable {rows rows' init : List OfferObservation}

/-! ## Islands that grow -/

/-- Every island goes on: its first observation stays, and it is seen as late as before. -/
def Grows (rows rows' : List OfferObservation) : Prop :=
  ∀ k rest, k :: rest ∈ islands OfferObservation.terms rows →
    ∃ k' rest', k' :: rest' ∈ islands OfferObservation.terms rows' ∧ k'.id = k.id ∧
      k'.observedAt = k.observedAt ∧ (∀ o ∈ rest, ∃ o' ∈ rest', o'.id = o.id) ∧
      lastSeen (k :: rest) ≤ lastSeen (k' :: rest')

theorem Grows.refl (rows : List OfferObservation) : Grows rows rows :=
  fun k rest h => ⟨k, rest, h, rfl, rfl, fun o ho => ⟨o, ho, rfl⟩, le_rfl⟩

theorem Grows.extend (latest : OfferObservation) (f : Time) :
    Grows (init ++ [latest]) (init ++ [latest.extend f]) := by
  obtain ⟨gs, g, gs', g', last', hrows, -, -, -, rfl, -⟩ := (Condenses.refl (init ++ [latest])).last
  have hnew := islands_replace_last (b := latest.extend f) hrows rfl
  rw [List.append_assoc gs.flatten, List.append_assoc gs.flatten] at *
  intro k rest hk
  rw [hrows] at hk
  rw [hnew]
  rcases List.mem_append.mp hk with hk | hk
  · exact ⟨k, rest, List.mem_append_left _ hk, rfl, rfl, fun o ho => ⟨o, ho, rfl⟩, le_rfl⟩
  · have heq : k :: rest = g ++ [latest] := List.mem_singleton.mp hk
    have hseen : lastSeen (k :: rest) ≤ lastSeen (g ++ [latest.extend f]) := by
      rw [heq, lastSeen_append, lastSeen_append, lastSeen_singleton, lastSeen_singleton]
      exact max_le_max le_rfl (le_max_left _ _)
    cases g with
    | nil =>
      obtain ⟨rfl, rfl⟩ := List.cons.inj heq
      exact ⟨k.extend f, [], by simp, rfl, rfl, by simp, hseen⟩
    | cons a g =>
      obtain ⟨rfl, rfl⟩ := List.cons.inj heq
      refine ⟨k, g ++ [latest.extend f], by simp, rfl, rfl, fun o ho => ?_, hseen⟩
      rcases List.mem_append.mp ho with ho | ho
      · exact ⟨o, List.mem_append_left _ ho, rfl⟩
      · exact ⟨latest.extend f, by simp, by rw [List.mem_singleton.mp ho]; rfl⟩

theorem Grows.concat (rows : List OfferObservation) (o : OfferObservation) :
    Grows rows (rows ++ [o]) := by
  intro k rest hk
  rcases List.eq_nil_or_concat rows with rfl | ⟨init, latest, rfl⟩
  · exact absurd hk (by simp [islands])
  rw [List.concat_eq_append] at hk ⊢
  obtain ⟨gs, g, hrows, -⟩ := exists_last_island OfferObservation.terms
    (List.append_ne_nil_of_right_ne_nil init (List.cons_ne_nil latest []))
  by_cases hsame : latest.terms = o.terms
  · have hlast : latest ∈ g := by
      have hflat := flatten_islands OfferObservation.terms (init ++ [latest])
      obtain ⟨gs', g', _, _, _, hrows', -, -, -, -, -⟩ := (Condenses.refl (init ++ [latest])).last
      obtain ⟨-, hg⟩ := List.append_inj' (hrows.symm.trans hrows') rfl
      rw [(List.cons.inj hg).1]
      simp
    have hkey : ∀ a ∈ g, a.terms = o.terms := fun a ha =>
      ((isIslands_islands OfferObservation.terms (init ++ [latest])).const g (by simp [hrows]) a ha
        latest hlast).trans hsame
    rw [islands_concat_same hrows hkey]
    rw [hrows] at hk
    rcases List.mem_append.mp hk with hk | hk
    · exact ⟨k, rest, List.mem_append_left _ hk, rfl, rfl, fun o ho => ⟨o, ho, rfl⟩, le_rfl⟩
    · obtain rfl := List.mem_singleton.mp hk
      refine ⟨k, rest ++ [o], by simp, rfl, rfl, fun a ha => ⟨a, by simp [ha], rfl⟩, ?_⟩
      rw [← List.cons_append, lastSeen_append]
      exact le_max_left _ _
  · rw [islands_concat_new]
    · exact ⟨k, rest, List.mem_append_left _ hk, rfl, rfl, fun o ho => ⟨o, ho, rfl⟩, le_rfl⟩
    · intro a ha
      rw [List.getLast?_concat, Option.some.injEq] at ha
      rw [← ha]
      exact hsame

/-! ## Groups that wait -/

/-- The group is made of the first observation of an island and some others of it. -/
structure Fits (rows : List OfferObservation) (g : OfferGroup) (k : OfferObservation)
    (rest : List OfferObservation) (duplicates : List ℕ) : Prop where
  island : k :: rest ∈ islands OfferObservation.terms rows
  ids : g.ids = k.id :: duplicates
  duplicates : ∀ d ∈ duplicates, ∃ o ∈ rest, o.id = d
  observed : g.observedAt = k.observedAt
  seen : g.lastSeenAt ≤ lastSeen (k :: rest)

variable {g : OfferGroup} {duplicates : List ℕ} {k : OfferObservation}

theorem Fits.grow {rest : List OfferObservation} (h : Fits rows g k rest duplicates)
    (hgrows : Grows rows rows') : ∃ k' rest', Fits rows' g k' rest' duplicates := by
  obtain ⟨k', rest', hisland, hid, hobserved, hrest, hseen⟩ := hgrows k rest h.island
  refine ⟨k', rest', hisland, by rw [h.ids, hid], fun d hd => ?_, by rw [h.observed, hobserved],
    h.seen.trans hseen⟩
  obtain ⟨o, ho, rfl⟩ := h.duplicates d hd
  exact hrest o ho

theorem Condenses.fits (h : Condenses rows' rows) {q : Uuid} {i : ℕ} {g : List OfferObservation}
    (hordered : rows'.Pairwise fun a b => a.observedAt ≤ b.observedAt)
    (hg : g ∈ islands OfferObservation.terms rows') :
    ∃ k rest duplicates, Fits rows (offerGroup q i g) k rest duplicates := by
  obtain ⟨gg, hgg, hthins⟩ := exists_partner h hg
  cases g with
  | nil => exact absurd rfl hthins.ne_nil
  | cons k' rest' =>
    cases gg with
    | nil => exact absurd hthins.head (by simp)
    | cons k rest =>
      have hident : ident k' = ident k := by simpa using hthins.head
      have hsub : (rest'.map ident).Sublist (rest.map ident) := by
        have hsub := hthins.sub
        rw [List.map_cons, List.map_cons, hident] at hsub
        exact List.cons_sublist_cons.mp hsub
      refine ⟨k, rest, rest'.map OfferObservation.id, hgg, ?_, fun d hd => ?_, ?_, ?_⟩
      · rw [← (ident_eq hident).1]
        rfl
      · obtain ⟨o', ho', rfl⟩ := List.mem_map.mp hd
        obtain ⟨o, ho, heq⟩ := List.mem_map.mp (hsub.subset (List.mem_map_of_mem ho'))
        exact ⟨o, ho, (ident_eq heq).1⟩
      · -- The first observation of the island is the earliest one.
        have hpair : (k' :: rest').Pairwise fun a b => a.observedAt ≤ b.observedAt := by
          refine hordered.sublist ?_
          have hflat := List.sublist_flatten_of_mem hg
          rwa [flatten_islands] at hflat
        have hmin : ((k' :: rest').map OfferObservation.observedAt).min? = some k'.observedAt := by
          rw [List.min?_eq_some_iff]
          refine ⟨by simp, fun b hb => ?_⟩
          obtain ⟨o, ho, rfl⟩ := List.mem_map.mp hb
          rcases List.mem_cons.mp ho with rfl | ho
          · exact le_rfl
          · exact List.rel_of_pairwise_cons hpair ho
        rw [← (ident_eq hident).2.2.1]
        unfold offerGroup
        dsimp only
        rw [hmin]
        rfl
      · exact hthins.seen.le

/-! ## The transaction of a group -/

/-- What the transaction of a group leaves of some observations. -/
def mergeRows (g : OfferGroup) (rows : List OfferObservation) : List OfferObservation :=
  match g.ids with
  | [] => rows
  | keeper :: duplicates =>
    update (fun o => o.id == keeper)
      (fun o => { o with observedAt := g.observedAt, lastSeenAt := g.lastSeenAt })
      (rows.filter fun o => !duplicates.contains o.id)

theorem offersOf_mergeOffers (db : Catalogue) (g : OfferGroup) (q : Uuid) :
    (mergeOffers db g).offersOf q = mergeRows g (db.offersOf q) := by
  unfold mergeOffers mergeRows
  cases g.ids with
  | nil => rfl
  | cons keeper duplicates =>
    dsimp only [Catalogue.offersOf]
    rw [update, update, List.filter_map, List.filter_filter, List.filter_filter]
    congr 1
    refine List.filter_congr fun o _ => ?_
    simp only [Function.comp_apply]
    split
    · exact Bool.and_comm _ _
    · exact Bool.and_comm _ _

theorem mergeRows_flatten (g : OfferGroup) (gs : List (List OfferObservation)) :
    mergeRows g gs.flatten = (gs.map (mergeRows g)).flatten := by
  unfold mergeRows
  cases g.ids with
  | nil => simp
  | cons keeper duplicates =>
    dsimp only
    unfold update
    rw [List.filter_flatten, List.map_flatten, List.map_map]
    rfl

theorem mergeRows_eq_self (h : ∀ o ∈ rows, o.id ∉ g.ids) : mergeRows g rows = rows := by
  unfold mergeRows
  cases hids : g.ids with
  | nil => rfl
  | cons keeper duplicates =>
    dsimp only
    rw [hids] at h
    have hfilter : rows.filter (fun o => !duplicates.contains o.id) = rows := by
      rw [List.filter_eq_self]
      intro o ho
      have hnot := fun hmem => h o ho (List.mem_cons_of_mem keeper hmem)
      simpa using hnot
    rw [hfilter]
    refine update_eq_self fun o ho => beq_false_of_ne fun heq => h o ho ?_
    rw [heq]
    exact List.mem_cons_self

theorem Thins.merge {rest g' : List OfferObservation} (h : Thins g' (k :: rest))
    (hfits : Fits rows g k rest duplicates) (hnodup : ((k :: rest).map OfferObservation.id).Nodup)
    (hseen : ∀ o ∈ g', o.id ∈ g.ids → o.lastSeenAt ≤ g.lastSeenAt) :
    Thins (mergeRows g g') (k :: rest) := by
  cases g' with
  | nil => exact absurd rfl h.ne_nil
  | cons k' rest' =>
    have hident : ident k' = ident k := by simpa using h.head
    obtain ⟨hid, -, hobserved, -, -⟩ := ident_eq hident
    have hsub : (rest'.map ident).Sublist (rest.map ident) := by
      have hsub := h.sub
      rw [List.map_cons, List.map_cons, hident] at hsub
      exact List.cons_sublist_cons.mp hsub
    rw [List.map_cons, List.nodup_cons] at hnodup
    have hkeeper : k.id ∉ duplicates := by
      intro hmem
      obtain ⟨o, ho, heq⟩ := hfits.duplicates _ hmem
      exact hnodup.1 (heq ▸ List.mem_map_of_mem ho)
    have hother : ∀ o ∈ rest', o.id ≠ k.id := by
      intro o ho heq
      obtain ⟨x, hx, hxo⟩ := List.mem_map.mp (hsub.subset (List.mem_map_of_mem ho))
      have hxid : x.id = k.id := (ident_eq hxo).1.trans heq
      exact hnodup.1 (hxid ▸ List.mem_map_of_mem hx)
    have hmerge : mergeRows g (k' :: rest') =
        { k' with observedAt := g.observedAt, lastSeenAt := g.lastSeenAt } ::
          rest'.filter fun o => !duplicates.contains o.id := by
      unfold mergeRows
      rw [hfits.ids]
      dsimp only
      rw [List.filter_cons_of_pos (by simpa [hid] using hkeeper), update_cons,
        if_pos (by simp [hid])]
      congr 1
      refine update_eq_self fun o ho => beq_false_of_ne ?_
      exact hother o (List.mem_of_mem_filter ho)
    have hkept : ident { k' with observedAt := g.observedAt, lastSeenAt := g.lastSeenAt } =
        ident k := by
      rw [← hident, ident, ident, hfits.observed, ← hobserved]
    rw [hmerge]
    refine ⟨by simp, by simp [hkept], ?_, ?_⟩
    · rw [List.map_cons, List.map_cons, hkept]
      exact List.cons_sublist_cons.mpr ((List.filter_sublist.map ident).trans hsub)
    · have htotal := h.seen
      refine le_antisymm ?_ ?_
      · rw [lastSeen_cons]
        refine max_le hfits.seen (lastSeen_le_iff.mpr fun o ho => ?_)
        rw [← htotal]
        exact le_lastSeen (List.mem_cons_of_mem _ (List.mem_of_mem_filter ho))
      · rw [← htotal, lastSeen_le_iff]
        intro o ho
        rw [lastSeen_cons]
        by_cases hgroup : o.id ∈ g.ids
        · exact (hseen o ho hgroup).trans (le_max_left _ _)
        · rw [hfits.ids, List.mem_cons, not_or] at hgroup
          rcases List.mem_cons.mp ho with rfl | ho
          · exact absurd hid hgroup.1
          · refine (le_lastSeen ?_).trans (le_max_right _ _)
            exact List.mem_filter.mpr ⟨ho, by simpa using hgroup.2⟩

/-- **The transaction of a group leaves the history**, if no observation of the group that is left
was seen later than the group. -/
theorem Condenses.merge (h : Condenses rows' rows) {rest : List OfferObservation}
    (hnodup : (rows.map OfferObservation.id).Nodup) (hfits : Fits rows g k rest duplicates)
    (hseen : ∀ o ∈ rows', o.id ∈ g.ids → o.lastSeenAt ≤ g.lastSeenAt) :
    Condenses (mergeRows g rows') rows := by
  have hgroup : ∀ d ∈ g.ids, ∃ o ∈ k :: rest, o.id = d := by
    intro d hd
    rw [hfits.ids] at hd
    rcases List.mem_cons.mp hd with rfl | hd
    · exact ⟨k, List.mem_cons_self, rfl⟩
    · obtain ⟨o, ho, heq⟩ := hfits.duplicates d hd
      exact ⟨o, List.mem_cons_of_mem _ ho, heq⟩
  have hrel : List.Forall₂ Thins ((islands OfferObservation.terms rows').map (mergeRows g))
      (islands OfferObservation.terms rows) := by
    rw [List.forall₂_map_left_iff, List.forall₂_iff_zip]
    obtain ⟨hlength, hthins⟩ := List.forall₂_iff_zip.mp h
    refine ⟨hlength, fun {g' gg} hzip => ?_⟩
    obtain ⟨hg', hgg⟩ := List.of_mem_zip hzip
    have hthin := hthins hzip
    by_cases hmeets : ∃ o ∈ gg, o.id ∈ g.ids
    · -- The island of the group.
      obtain ⟨o, ho, hid⟩ := hmeets
      obtain ⟨x, hx, hxo⟩ := hgroup o.id hid
      have hsame : x = o := List.inj_on_of_nodup_map hnodup (mem_of_mem_islands hfits.island hx)
        (mem_of_mem_islands hgg ho) hxo
      obtain rfl := island_unique hnodup.of_map hgg hfits.island ho (hsame ▸ hx)
      refine hthin.merge hfits ?_ fun o ho => hseen o (mem_of_mem_islands hg' ho)
      refine hnodup.sublist (List.Sublist.map _ ?_)
      have hflat := List.sublist_flatten_of_mem hgg
      rwa [flatten_islands] at hflat
    · -- Another island.
      rw [mergeRows_eq_self]
      · exact hthin
      · intro o' ho' hid
        obtain ⟨o, ho, heq⟩ := hthin.exists_mem ho'
        exact hmeets ⟨o, ho, (ident_eq heq).1 ▸ hid⟩
  unfold Condenses
  have hislands : islands OfferObservation.terms (mergeRows g rows') =
      (islands OfferObservation.terms rows').map (mergeRows g) := by
    conv_lhs => rw [← flatten_islands OfferObservation.terms rows', mergeRows_flatten]
    refine islands_flatten ((isIslands_islands OfferObservation.terms rows).of_forall₂ hrel ?_)
    intro g' gg hthin
    refine ⟨hthin.ne_nil, fun a ha => ?_⟩
    obtain ⟨b, hb, hab⟩ := hthin.exists_mem ha
    exact ⟨b, hb, (ident_eq hab).2.2.2.1⟩
  rw [hislands]
  exact hrel

end CommerceCollector.Compaction
