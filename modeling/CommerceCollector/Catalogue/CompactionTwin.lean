import CommerceCollector.Catalogue.CompactionGroups

/-!
# The tables beside the loads alone

`Twin db alone`: the tables of a run with compaction and the tables that the same loads alone have
made find the same products and draw the same observation ids, and product by product the
observations of the first are some of those of the second (`Condenses`).  A load keeps it, if it
makes no observation of a record that only the merged observations would have kept out
(`Twin.load`), and so does the transaction of a group that no load has extended (`Twin.merge`).
-/

namespace CommerceCollector.Compaction

open Relational Islands

variable {pg : Postgres} {db alone : Catalogue}

/-- The tables with compaction and those of the loads alone. -/
structure Twin (db alone : Catalogue) : Prop where
  ordered : db.OffersOrdered
  aloneOrdered : alone.OffersOrdered
  nextOffer : db.nextOffer = alone.nextOffer
  products : SameProducts db alone
  seen : ∀ o ∈ alone.offers, o.observedAt ≤ o.lastSeenAt
  condenses : ∀ q, Condenses (db.offersOf q) (alone.offersOf q)

theorem pairwise_observedAt (h : db.OffersOrdered) (q : Uuid) :
    (db.offersOf q).Pairwise fun a b => a.observedAt ≤ b.observedAt := by
  refine (h.ordered q).imp fun {a b} hab => ?_
  rw [Prod.Lex.toLex_lt_toLex] at hab
  exact hab.elim le_of_lt fun heq => heq.1.le

theorem nodup_offersOf (h : db.OffersOrdered) (q : Uuid) :
    ((db.offersOf q).map OfferObservation.id).Nodup :=
  h.keyed.sublist (List.filter_sublist.map _)

/-! ## Loads -/

theorem Twin.of_eq {db' alone' : Catalogue} (h : Twin db alone) (ho : db'.offers = db.offers)
    (hn : db'.nextOffer = db.nextOffer) (ho' : alone'.offers = alone.offers)
    (hn' : alone'.nextOffer = alone.nextOffer) (hproducts : SameProducts db' alone') :
    Twin db' alone' := by
  have hrows : ∀ q, db'.offersOf q = db.offersOf q := fun q => by
    rw [Catalogue.offersOf, ho, Catalogue.offersOf]
  have hrows' : ∀ q, alone'.offersOf q = alone.offersOf q := fun q => by
    rw [Catalogue.offersOf, ho', Catalogue.offersOf]
  refine ⟨⟨ho ▸ h.ordered.keyed, ?_, fun q => hrows q ▸ h.ordered.ordered q⟩,
    ⟨ho' ▸ h.aloneOrdered.keyed, ?_, fun q => hrows' q ▸ h.aloneOrdered.ordered q⟩,
    hn.trans (h.nextOffer.trans hn'.symm), hproducts, ho' ▸ h.seen, fun q => ?_⟩
  · rw [ho, hn]
    exact h.ordered.bounded
  · rw [ho', hn']
    exact h.aloneOrdered.bounded
  · rw [hrows, hrows']
    exact h.condenses q

theorem Twin.register (h : Twin db alone) (v : Values) (f : Time) (c : LoadCall) :
    Twin (db.register pg v f c).2.2 (alone.register pg v f c).2.2 :=
  h.of_eq (db.register_offers v f c).1 (db.register_offers v f c).2 (alone.register_offers v f c).1
    (alone.register_offers v f c).2 (h.products.register v f c)

/-- The observations of every product have grown. -/
def Grown (db db' : Catalogue) : Prop := ∀ q, Grows (db.offersOf q) (db'.offersOf q)

theorem Grown.refl (db : Catalogue) : Grown db db := fun _ => .refl _

variable {product : Uuid} {n m : ℕ} {f : Time} {t : Terms Numeric} {sha : Digest} {p : Record}

/-- The rows of a table in which the latest observation of a product is extended. -/
theorem offersOf_extend (h : db.OffersOrdered) {init : List OfferObservation}
    {latest : OfferObservation} (hrows : db.offersOf product = init ++ [latest]) (f : Time)
    (q : Uuid) :
    ({ db with offers := update (fun o => o.id == latest.id) (·.extend f) db.offers } :
        Catalogue).offersOf q =
      if q = product then init ++ [latest.extend f] else db.offersOf q := by
  have hupdate : ({ db with
      offers := update (fun o => o.id == latest.id) (·.extend f) db.offers } : Catalogue).offersOf q =
      update (fun o => o.id == latest.id) (·.extend f) (db.offersOf q) :=
    Catalogue.offersOf_update (g := (·.extend f)) rfl (fun _ => rfl) q
  rw [hupdate, Catalogue.offersOf_update_last h hrows]

theorem offersOf_insert (db : Catalogue) (o : OfferObservation) (q : Uuid) :
    ({ db with offers := db.offers ++ [o], nextOffer := db.nextOffer + 1 } : Catalogue).offersOf q =
      db.offersOf q ++ if o.productId = q then [o] else [] :=
  Catalogue.offersOf_append rfl q

/-- Both latest observations are extended, or one that has been seen later is. -/
theorem Twin.extend (h : Twin db alone) {init init' : List OfferObservation}
    {latest latest' : OfferObservation} (hrows' : db.offersOf product = init' ++ [latest'])
    (hrows : alone.offersOf product = init ++ [latest]) :
    Twin { db with offers := update (fun o => o.id == latest'.id) (·.extend f) db.offers }
        { alone with offers := update (fun o => o.id == latest.id) (·.extend f) alone.offers } ∧
      (f ≤ latest.lastSeenAt →
        Twin { db with offers := update (fun o => o.id == latest'.id) (·.extend f) db.offers }
          alone) := by
  have hcondenses := h.condenses product
  rw [hrows', hrows] at hcondenses
  have hordered : ({ db with
      offers := update (fun o => o.id == latest'.id) (·.extend f) db.offers } :
        Catalogue).OffersOrdered :=
    h.ordered.update rfl rfl (fun _ => rfl) (fun _ => rfl) fun _ => rfl
  have hordered' : ({ alone with
      offers := update (fun o => o.id == latest.id) (·.extend f) alone.offers } :
        Catalogue).OffersOrdered :=
    h.aloneOrdered.update rfl rfl (fun _ => rfl) (fun _ => rfl) fun _ => rfl
  refine ⟨⟨hordered, hordered', h.nextOffer, ⟨h.products.products, h.products.nextProduct⟩, ?_,
    fun q => ?_⟩, fun hf => ⟨hordered, h.aloneOrdered, h.nextOffer,
    ⟨h.products.products, h.products.nextProduct⟩, h.seen, fun q => ?_⟩⟩
  · intro o ho
    obtain ⟨b, hb, rfl⟩ := mem_update.mp ho
    have hseen := h.seen b hb
    split
    · exact hseen.trans (le_max_left _ _)
    · exact hseen
  · rw [offersOf_extend h.ordered hrows', offersOf_extend h.aloneOrdered hrows]
    split
    · exact hcondenses.extend f
    · exact h.condenses q
  · rw [offersOf_extend h.ordered hrows']
    split
    · rename_i hq
      rw [hq, hrows]
      exact hcondenses.extend_left hf
    · exact h.condenses q

theorem Twin.insert (h : Twin db alone) (terms : Terms Fixed)
    (hle : ∀ o ∈ db.offersOf product, o.observedAt ≤ f)
    (hle' : ∀ o ∈ alone.offersOf product, o.observedAt ≤ f) :
    Twin { db with
        offers := db.offers ++ [newOffer db.nextOffer product n f terms sha p]
        nextOffer := db.nextOffer + 1 }
      { alone with
        offers := alone.offers ++ [newOffer alone.nextOffer product m f terms sha p]
        nextOffer := alone.nextOffer + 1 } := by
  refine ⟨h.ordered.append rfl rfl rfl hle, h.aloneOrdered.append rfl rfl rfl hle',
    congrArg (· + 1) h.nextOffer, ⟨h.products.products, h.products.nextProduct⟩, ?_, fun q => ?_⟩
  · intro o ho
    rcases List.mem_append.mp ho with ho | ho
    · exact h.seen o ho
    · rw [List.mem_singleton.mp ho]
      exact le_rfl
  · rw [offersOf_insert, offersOf_insert]
    have hproduct : ∀ (id n : ℕ), (newOffer id product n f terms sha p).productId = product :=
      fun _ _ => rfl
    rw [hproduct, hproduct]
    split
    · refine (h.condenses q).concat ?_ rfl
      rw [h.nextOffer]
      rfl
    · rw [List.append_nil, List.append_nil]
      exact h.condenses q

theorem Twin.observe (h : Twin db alone)
    (hinsert : verdict (db.offersOf product) f t sha = .insert →
      verdict (alone.offersOf product) f t sha = .insert) :
    (∃ e e', db.observe product n f t sha p = .error e ∧
        alone.observe product m f t sha p = .error e') ∨
      ∃ db' alone', db.observe product n f t sha p = .ok db' ∧
        alone.observe product m f t sha p = .ok alone' ∧ Twin db' alone' ∧ Grown alone alone' := by
  have hkept : ∀ {db : Catalogue} {n : ℕ}, db.OffersOrdered →
      verdict (db.offersOf product) f t sha = .keep →
      ∃ db', db.observe product n f t sha p = .ok db' ∧ db'.offers = db.offers ∧
        db'.nextOffer = db.nextOffer ∧ db'.products = db.products ∧
        db'.nextProduct = db.nextProduct := by
    intro db n hordered hv
    rcases observe_keep (n := n) (p := p) hordered hv with hok | hok
    · exact ⟨_, hok, rfl, rfl, rfl, rfl⟩
    · exact ⟨_, hok, rfl, rfl, rfl, rfl⟩
  rcases (h.condenses product).verdict (pairwise_observedAt h.aloneOrdered product) hinsert with
    hv | ⟨hv, hv'⟩
  · cases hverdict : verdict (alone.offersOf product) f t sha with
    | keep =>
      rw [hverdict] at hv
      obtain ⟨db', hok, ho, hn, hp, hnp⟩ := hkept (n := n) h.ordered hv
      obtain ⟨alone', hok', ho', hn', hp', hnp'⟩ := hkept (n := m) h.aloneOrdered hverdict
      refine .inr ⟨db', alone', hok, hok', h.of_eq ho hn ho' hn'
        ⟨hp.trans (h.products.products.trans hp'.symm),
          hnp.trans (h.products.nextProduct.trans hnp'.symm)⟩, fun q => ?_⟩
      have hrows : alone'.offersOf q = alone.offersOf q := by
        rw [Catalogue.offersOf, ho', Catalogue.offersOf]
      rw [hrows]
      exact .refl _
    | extend =>
      rw [hverdict] at hv
      obtain ⟨latest', hlast', -, hok⟩ := observe_extend (n := n) (p := p) h.ordered hv
      obtain ⟨latest, hlast, -, hok'⟩ :=
        observe_extend (n := m) (p := p) h.aloneOrdered hverdict
      obtain ⟨init', hrows'⟩ := List.getLast?_eq_some_iff.mp hlast'
      obtain ⟨init, hrows⟩ := List.getLast?_eq_some_iff.mp hlast
      refine .inr ⟨_, _, hok, hok', (h.extend hrows' hrows).1, fun q => ?_⟩
      rw [offersOf_extend h.aloneOrdered hrows]
      split
      · rename_i hq
        rw [hq, hrows]
        exact .extend latest f
      · exact .refl _
    | insert =>
      rw [hverdict] at hv
      obtain ⟨hobserve, hle⟩ := observe_insert (n := n) (p := p) h.ordered hv
      obtain ⟨hobserve', hle'⟩ := observe_insert (n := m) (p := p) h.aloneOrdered hverdict
      rw [hobserve, hobserve']
      rcases insertOffer_cases db product n f t sha p with
        ⟨hnone, e, he⟩ | ⟨terms, hterms, hok⟩
      · rcases insertOffer_cases alone product m f t sha p with
          ⟨-, e', he'⟩ | ⟨terms', hterms', -⟩
        · exact .inl ⟨e, e', he, he'⟩
        · exact absurd (hnone.symm.trans hterms') (by simp)
      · rcases insertOffer_cases alone product m f t sha p with
          ⟨hnone, -⟩ | ⟨terms', hterms', hok'⟩
        · exact absurd (hnone.symm.trans hterms) (by simp)
        · obtain rfl := Option.some.inj (hterms.symm.trans hterms')
          refine .inr ⟨_, _, hok, hok', h.insert terms hle hle', fun q => ?_⟩
          rw [offersOf_insert]
          split
          · exact .concat _ _
          · rw [List.append_nil]
            exact .refl _
  · -- The record extends an observation by a moment at which it was seen.
    obtain ⟨latest', hlast', -, hok⟩ := observe_extend (n := n) (p := p) h.ordered hv
    obtain ⟨init', hrows'⟩ := List.getLast?_eq_some_iff.mp hlast'
    have hne : alone.offersOf product ≠ [] := by
      rw [Ne, ← (h.condenses product).nil_iff, hrows']
      simp
    obtain ⟨init, latest, hrows⟩ := exists_append_singleton hne
    obtain ⟨alone', hok', ho', hn', hp', hnp'⟩ := hkept (n := m) h.aloneOrdered hv'
    have hordered := pairwise_observedAt h.aloneOrdered product
    rw [hrows] at hv' hordered
    have hf : f ≤ latest.lastSeenAt := by
      have hle := le_of_keep (fun o ho => ?_) hv'
      · refine hle.trans (h.seen latest ?_)
        have hmem : latest ∈ alone.offersOf product := by simp [hrows]
        exact (Catalogue.mem_offersOf.mp hmem).1
      · rcases List.mem_append.mp ho with ho | ho
        · exact (List.pairwise_append.mp hordered).2.2 o ho latest (by simp)
        · rw [List.mem_singleton.mp ho]
    have htwin := (h.extend (f := f) hrows' hrows).2 hf
    refine .inr ⟨_, alone', hok, hok', htwin.of_eq rfl rfl ho' hn'
      ⟨htwin.products.products.trans hp'.symm, htwin.products.nextProduct.trans hnp'.symm⟩,
      fun q => ?_⟩
    have hsame : alone'.offersOf q = alone.offersOf q := by
      rw [Catalogue.offersOf, ho', Catalogue.offersOf]
    rw [hsame]
    exact .refl _

/-- **A load keeps the tables beside the loads alone.** -/
theorem Twin.load (h : Twin db alone) {c : LoadCall}
    (hmeets : (pg.priced db c).all (fun r => !inserts pg db r || inserts pg alone r) = true) :
    Twin (load pg db c) (load pg alone c) ∧ Grown alone (Compaction.load pg alone c) := by
  rw [priced_eq] at hmeets
  rw [load_eq, load_eq]
  cases hparsed : parsed pg c with
  | error e => exact ⟨h, .refl _⟩
  | ok part =>
    obtain ⟨v, f, offer⟩ := part
    have hregister : Twin (db.register pg v f c).2.2 (alone.register pg v f c).2.2 :=
      h.register v f c
    have hrows : ∀ q, (db.register pg v f c).2.2.offersOf q = db.offersOf q := fun q => by
      rw [Catalogue.offersOf, (db.register_offers v f c).1, Catalogue.offersOf]
    have hrows' : ∀ q, (alone.register pg v f c).2.2.offersOf q = alone.offersOf q := fun q => by
      rw [Catalogue.offersOf, (alone.register_offers v f c).1, Catalogue.offersOf]
    have hgrown : Grown alone (alone.register pg v f c).2.2 := fun q => by
      rw [hrows']
      exact .refl _
    cases offer with
    | none => exact ⟨hregister, hgrown⟩
    | some t =>
      rw [hparsed] at hmeets
      simp only [Option.all_some, Bool.or_eq_true, Bool.not_eq_true'] at hmeets
      have hinsert : verdict ((db.register pg v f c).2.2.offersOf (db.productOf v)) f t
            (pg.contextSha256 t) = .insert →
          verdict ((alone.register pg v f c).2.2.offersOf (db.productOf v)) f t
            (pg.contextSha256 t) = .insert := by
        rw [hrows, hrows']
        intro hv
        have hins : inserts pg db ⟨db.productOf v, f, t⟩ = true :=
          (inserts_iff h.ordered ⟨db.productOf v, f, t⟩).mpr hv
        rw [hins] at hmeets
        exact (inserts_iff h.aloneOrdered _).mp (hmeets.resolve_left (by simp))
      dsimp only
      rw [← h.products.productOf v]
      rcases hregister.observe (n := (db.register pg v f c).2.1)
          (m := (alone.register pg v f c).2.1) (p := c.record) hinsert with
        ⟨e, e', he, he'⟩ | ⟨db', alone', hok, hok', htwin, hgrows⟩
      · rw [he, he']
        exact ⟨h, .refl _⟩
      · rw [hok, hok']
        refine ⟨htwin, fun q => ?_⟩
        rw [← hrows' q]
        exact hgrows q

/-! ## Transactions -/

theorem Twin.exists_alone (h : Twin db alone) {o' : OfferObservation} (ho : o' ∈ db.offers) :
    ∃ o ∈ alone.offers, ident o' = ident o := by
  have hmem : o' ∈ db.offersOf o'.productId := Catalogue.mem_offersOf.mpr ⟨ho, rfl⟩
  obtain ⟨o, ho, heq⟩ := (h.condenses _).exists_mem hmem
  exact ⟨o, (Catalogue.mem_offersOf.mp ho).1, heq⟩

variable {g : OfferGroup} {k : OfferObservation} {rest : List OfferObservation}
  {duplicates : List ℕ}

/-- A row of the group is a row of its product, and the first one has the moment of the group. -/
theorem Twin.of_group (h : Twin db alone)
    (hfits : Fits (alone.offersOf g.product) g k rest duplicates) {o' : OfferObservation}
    (ho : o' ∈ db.offers) (hid : o'.id ∈ g.ids) :
    o'.productId = g.product ∧ (o'.id = k.id → o'.observedAt = g.observedAt) := by
  obtain ⟨o, hoa, heq⟩ := h.exists_alone ho
  obtain ⟨hoid, hproduct, hobserved, -, -⟩ := ident_eq heq
  have hrow : ∀ x ∈ k :: rest, x ∈ alone.offers ∧ x.productId = g.product := fun x hx =>
    Catalogue.mem_offersOf.mp (mem_of_mem_islands hfits.island hx)
  obtain ⟨x, hx, hxid⟩ : ∃ x ∈ k :: rest, x.id = o'.id := by
    rw [hfits.ids] at hid
    rcases List.mem_cons.mp hid with hid | hid
    · exact ⟨k, List.mem_cons_self, hid.symm⟩
    · obtain ⟨x, hx, hxid⟩ := hfits.duplicates _ hid
      exact ⟨x, List.mem_cons_of_mem _ hx, hxid⟩
  obtain rfl := h.aloneOrdered.keyed.eq_of_mem (hrow x hx).1 hoa (hxid.trans hoid)
  refine ⟨hproduct.trans (hrow x hx).2, fun hkeeper => ?_⟩
  obtain rfl := h.aloneOrdered.keyed.eq_of_mem hoa (hrow k List.mem_cons_self).1
    (hoid.symm.trans hkeeper)
  rw [hobserved, hfits.observed]

/-- **The transaction of a group keeps the tables beside the loads alone.** -/
theorem Twin.merge (h : Twin db alone)
    (hfits : Fits (alone.offersOf g.product) g k rest duplicates)
    (hseen : ∀ o ∈ db.offers, o.id ∈ g.ids → o.lastSeenAt ≤ g.lastSeenAt) :
    Twin (mergeOffers db g) alone := by
  have hoffers : (mergeOffers db g).offers = mergeRows g db.offers := by
    unfold mergeOffers mergeRows
    rw [hfits.ids]
  -- Ids and moments are those of the rows that are left.
  have hkeys : ∀ rows : List OfferObservation, (∀ o ∈ rows, o ∈ db.offers) →
      ((mergeRows g rows).map fun o => (o.observedAt, o.id)).Sublist
        (rows.map fun o => (o.observedAt, o.id)) := by
    intro rows hrows
    unfold mergeRows
    rw [hfits.ids]
    dsimp only
    have hsame : (update (fun o => o.id == k.id) (fun o => { o with
          observedAt := g.observedAt, lastSeenAt := g.lastSeenAt })
        (rows.filter fun o => !duplicates.contains o.id)).map (fun o => (o.observedAt, o.id)) =
        (rows.filter fun o => !duplicates.contains o.id).map fun o => (o.observedAt, o.id) := by
      rw [update, List.map_map]
      refine List.map_congr_left fun o ho => ?_
      simp only [Function.comp_apply]
      split
      · rename_i hid
        have hkeeper : o.id = k.id := beq_iff_eq.mp hid
        have hmem := hrows o (List.mem_of_mem_filter ho)
        rw [(h.of_group hfits hmem (by rw [hfits.ids, hkeeper]; exact List.mem_cons_self)).2 hkeeper]
      · rfl
    rw [hsame]
    exact List.filter_sublist.map _
  have hids := (hkeys db.offers fun _ ho => ho).map Prod.snd
  rw [List.map_map, List.map_map] at hids
  refine ⟨⟨?_, ?_, fun q => ?_⟩, h.aloneOrdered, ?_, ?_, h.seen, fun q => ?_⟩
  · unfold Keyed
    rw [hoffers]
    exact h.ordered.keyed.sublist hids
  · intro o ho
    rw [hoffers] at ho
    obtain ⟨b, hb, hbo⟩ := List.mem_map.mp (hids.subset (List.mem_map_of_mem ho))
    have hnext : (mergeOffers db g).nextOffer = db.nextOffer := by
      unfold mergeOffers
      split <;> rfl
    have hbo' : b.id = o.id := hbo
    rw [hnext, ← hbo']
    exact h.ordered.bounded b hb
  · have hpair := (List.pairwise_map (f := fun o : OfferObservation => (o.observedAt, o.id))
      (R := fun a b : Time × ℕ => toLex a < toLex b)).mpr (h.ordered.ordered q)
    have hsub := hpair.sublist
      (hkeys (db.offersOf q) fun o ho => (Catalogue.mem_offersOf.mp ho).1)
    rw [offersOf_mergeOffers]
    exact List.pairwise_map.mp hsub
  · unfold mergeOffers
    split <;> exact h.nextOffer
  · unfold mergeOffers
    split <;> exact ⟨h.products.products, h.products.nextProduct⟩
  · rw [offersOf_mergeOffers]
    by_cases hq : q = g.product
    · subst hq
      exact (h.condenses _).merge (nodup_offersOf h.aloneOrdered _) hfits fun o ho =>
        hseen o (Catalogue.mem_offersOf.mp ho).1
    · rw [mergeRows_eq_self]
      · exact h.condenses q
      · intro o ho hid
        obtain ⟨hmem, hproduct⟩ := Catalogue.mem_offersOf.mp ho
        exact hq (hproduct.symm.trans (h.of_group hfits hmem hid).1)

end CommerceCollector.Compaction
