import CommerceCollector.Catalogue.PriceHistory

/-!
# The current offer in the read models

The queries that show the current offer of a product.  `latest_offers`, the trends page and the
search of the service order by `observed_at` and `id`; the two queries of the explorer order by
`observed_at` alone, and which of several observations of one moment they show is up to the
database.  The read models agree in every state of a run iff every load of the run is uniform: at
the moment of the latest observation of its product it adds nothing that shows other terms
(`read_models_agree_iff`).
-/

namespace CommerceCollector

/-- `order by key desc limit 1`: a row with the greatest key, whichever it is. -/
def FirstBy {κ : Type} [LE κ] (key : OfferObservation → κ) (rows : List OfferObservation) :
    Option OfferObservation → Prop
  | none => rows = []
  | some o => o ∈ rows ∧ ∀ other ∈ rows, key other ≤ key o

/-- The read models beside `latest_offers`. -/
inductive ReadModel
  | productRows | searchOffers | productTrends | search
  deriving DecidableEq, Repr

/-- The rows that the lateral query of a read model may select for a product. -/
def ReadModel.Selects (db : Catalogue) (product : Uuid) :
    ReadModel → Option OfferObservation → Prop
  | .productRows => FirstBy OfferObservation.observedAt (db.offersOf product)
  | .searchOffers => FirstBy OfferObservation.observedAt (db.offersOf product)
  | .productTrends => FirstBy (fun o => toLex (o.observedAt, o.id)) (db.offersOf product)
  | .search => FirstBy (fun o => toLex (o.observedAt, o.id)) (db.offersOf product)

/-- What is shown of an offer: its price, its currency, its package and its unit price. -/
structure Shown where
  price : Fixed
  currency : String
  quantity : Option Fixed
  unit : Option String
  unitPrice : Option Fixed
  unitPricePer : Option String
  deriving DecidableEq, Repr

/-- The columns that are shown. -/
def Terms.shown (t : Terms Fixed) : Shown :=
  ⟨t.price, t.currency, t.quantity, t.unit, t.unitPrice, t.unitPricePer⟩

/-- Every row that a read model may select shows what the row of `latest_offers` shows. -/
def Catalogue.Agree (db : Catalogue) : Prop :=
  ∀ (m : ReadModel) (product : Uuid) (o : Option OfferObservation), m.Selects db product o →
    o.map (fun o => o.terms.shown) = (db.latestOffer product).map fun o => o.terms.shown

/-- The observations of the latest moment show the same. -/
def ShownAlike (rows : List OfferObservation) : Prop :=
  ∀ init latest, rows = init ++ [latest] → ∀ o ∈ rows, o.observedAt = latest.observedAt →
    o.terms.shown = latest.terms.shown

theorem ReadModel.Selects.latest {db : Catalogue} {product : Uuid} {m : ReadModel}
    {o : OfferObservation} (h : m.Selects db product (some o)) :
    o ∈ db.offersOf product ∧ ∀ other ∈ db.offersOf product, other.observedAt ≤ o.observedAt := by
  have hlex : ∀ {a b : OfferObservation}, toLex (a.observedAt, a.id) ≤ toLex (b.observedAt, b.id) →
      a.observedAt ≤ b.observedAt := fun hle =>
    (Prod.Lex.toLex_le_toLex.mp hle).elim le_of_lt fun heq => heq.1.le
  cases m with
  | productRows => exact h
  | searchOffers => exact h
  | productTrends => exact ⟨h.1, fun other hother => hlex (h.2 other hother)⟩
  | search => exact ⟨h.1, fun other hother => hlex (h.2 other hother)⟩

/-- The read models agree if and only if the observations of the latest moment show the same. -/
theorem Catalogue.agree_iff {db : Catalogue} (h : db.OffersOrdered) :
    db.Agree ↔ ∀ product, ShownAlike (db.offersOf product) := by
  constructor
  · intro hagree product init latest hrows o ho hat
    have hselects : ReadModel.productRows.Selects db product (some o) :=
      ⟨ho, fun other hother => hat ▸ observedAt_le_latest h hrows other hother⟩
    have hsame := hagree _ _ _ hselects
    rw [latestOffer_eq_getLast? h, hrows, List.getLast?_append_cons, List.getLast?_singleton] at hsame
    exact Option.some.inj hsame
  · intro halike m product o hselects
    rw [latestOffer_eq_getLast? h]
    rcases List.eq_nil_or_concat (db.offersOf product) with hnil | ⟨init, latest, hrows⟩
    · cases o with
      | none => rw [hnil, List.getLast?_nil]
      | some o => exact absurd (hnil ▸ hselects.latest.1) List.not_mem_nil
    · rw [List.concat_eq_append] at hrows
      have hlast : latest ∈ db.offersOf product := hrows ▸ List.mem_append_right _ List.mem_cons_self
      cases o with
      | none =>
        have hnil : db.offersOf product = [] := by cases m <;> exact hselects
        exact absurd (hnil ▸ hlast) List.not_mem_nil
      | some o =>
        obtain ⟨ho, hmax⟩ := hselects.latest
        have hat := le_antisymm (observedAt_le_latest h hrows o ho) (hmax latest hlast)
        rw [hrows, List.getLast?_append_cons, List.getLast?_singleton, Option.map_some,
          Option.map_some, halike product init latest hrows o ho hat]

namespace Loads

variable {pg : Postgres} {s : Loads} {c : LoadCall}

/-- A priced record that is new at the moment of the latest observation of its product becomes no
row that shows anything else. -/
def Uniform (pg : Postgres) (s : Loads) (c : LoadCall) : Prop :=
  ∀ r, pg.priced s.db c = some r → ∀ latest, s.db.latestOffer r.product = some latest →
    r.fetchedAt = latest.observedAt → ¬Known pg (s.db.offersOf r.product) r →
      ∀ fixed, c.record.admitted r.terms = some fixed → fixed.shown = latest.terms.shown

theorem shownAlike_observes {rows rows' : List OfferObservation} {r : Priced} {p : Record}
    (h : ShownAlike rows)
    (hle : ∀ init latest, rows = init ++ [latest] → ∀ o ∈ rows, o.observedAt ≤ latest.observedAt)
    (hobserves : Observes r.fetchedAt r.terms (pg.contextSha256 r.terms) p rows rows') :
    ShownAlike rows' ↔ ∀ latest, rows.getLast? = some latest → r.fetchedAt = latest.observedAt →
      ¬Known pg rows r → ∀ fixed, p.admitted r.terms = some fixed →
        fixed.shown = latest.terms.shown := by
  cases hobserves with
  | known o ho hat hsha =>
    exact iff_of_true h fun _ _ _ hnew => absurd ⟨o, ho, hat, hsha⟩ hnew
  | late hlt =>
    refine iff_of_true h fun latest hlast hat => ?_
    rw [List.getLast?_append_cons, List.getLast?_singleton, Option.some.injEq] at hlast
    exact absurd (hlast ▸ hat) hlt.ne
  | @extend init latest _ _ hsame =>
    refine iff_of_true ?_ fun latest' hlast _ _ fixed hfixed => ?_
    · intro init' latest' hrows o ho hat
      obtain ⟨rfl, hlast⟩ := List.append_inj' hrows rfl
      obtain rfl := (List.cons.inj hlast).1
      rcases List.mem_append.mp ho with ho | ho
      · exact h init latest rfl o (List.mem_append_left _ ho) hat
      · rw [List.mem_singleton.mp ho]
    · rw [List.getLast?_append_cons, List.getLast?_singleton, Option.some.injEq] at hlast
      have hterms := (Record.fixed_of_admitted hfixed).symm.trans (Terms.fixed_of_unchanged hsame)
      rw [Option.some.inj hterms, hlast]
  | first o _ _ _ =>
    refine iff_of_true ?_ fun latest hlast => absurd hlast (by simp)
    intro init latest hrows other hother _
    obtain ⟨rfl, hlast⟩ := List.append_inj' ((List.nil_append [o]).trans hrows) rfl
    rw [List.mem_singleton.mp hother, (List.cons.inj hlast).1]
  | @change init latest o hnew hbefore _ hat _ hterms =>
    have hunknown : ¬Known pg (init ++ [latest]) r := fun ⟨v, hv, heq⟩ => hnew v hv heq
    rw [List.append_cons, List.getLast?_append_cons, List.getLast?_singleton]
    constructor
    · intro halike latest' hlatest hsame _ fixed hfixed
      obtain rfl := Option.some.inj hlatest
      obtain rfl := Option.some.inj (hterms.symm.trans hfixed)
      exact (halike (init ++ [latest]) o rfl latest (by simp) (hat.trans hsame).symm).symm
    · intro huniform init' o' hrows v hv hv'
      obtain ⟨rfl, hend⟩ := List.append_inj' hrows rfl
      obtain rfl := (List.cons.inj hend).1
      rcases List.mem_append.mp hv with hv | hv
      · have hmoment : r.fetchedAt = latest.observedAt :=
          le_antisymm (hat ▸ hv' ▸ hle init latest rfl v hv) hbefore
        rw [h init latest rfl v hv (hv'.trans (hat.trans hmoment))]
        exact (huniform latest rfl hmoment hunknown _ hterms).symm
      · rw [List.mem_singleton.mp hv]

/-- **One load.**  It leaves the read models in agreement if and only if it is uniform. -/
theorem agree_step (h : s.db.OffersOrdered) (hagree : s.db.Agree) :
    (s.step pg c).db.OffersOrdered ∧ ((s.step pg c).db.Agree ↔ Uniform pg s c) := by
  cases hpriced : pg.priced s.db c with
  | none =>
    obtain ⟨hordered, hsame⟩ := step_of_not_priced hpriced h
    refine ⟨hordered, iff_of_true ?_ fun r hr => absurd (hpriced.symm.trans hr) nofun⟩
    rw [Catalogue.agree_iff hordered]
    exact fun q => (hsame q).1 ▸ (Catalogue.agree_iff h).mp hagree q
  | some r =>
    rcases step_of_priced hpriced h with ⟨heq, hrefused, -⟩ | ⟨hordered, hother, -, hobserves⟩
    · rw [heq]
      refine ⟨h, iff_of_true hagree fun r' hr' _ _ _ _ fixed hfixed => ?_⟩
      obtain rfl := Option.some.inj (hpriced.symm.trans hr')
      exact absurd (hrefused.symm.trans hfixed) nofun
    · have halike := (Catalogue.agree_iff h).mp hagree
      have hone := shownAlike_observes (halike r.product)
        (fun _ _ hrows => Catalogue.observedAt_le_latest h hrows) hobserves
      refine ⟨hordered, (Catalogue.agree_iff hordered).trans ⟨fun hall => ?_, fun huniform q => ?_⟩⟩
      · intro r' hr' latest hlatest
        obtain rfl := Option.some.inj (hpriced.symm.trans hr')
        rw [Catalogue.latestOffer_eq_getLast? h] at hlatest
        exact hone.mp (hall r.product) latest hlatest
      · by_cases hq : q = r.product
        · subst hq
          refine hone.mpr fun latest hlatest => huniform r hpriced latest ?_
          rwa [Catalogue.latestOffer_eq_getLast? h]
        · exact (hother q hq).1 ▸ halike q

/-- **The read models agree** in every state of a run iff every load of the run is uniform. -/
theorem read_models_agree_iff (pg : Postgres) (calls : List LoadCall) :
    (∀ pre, pre <+: calls → (Loads.after pg pre).db.Agree) ↔
      Trace.Along (Loads.step pg) (Uniform pg) {} calls := by
  have hempty : Catalogue.OffersOrdered {} := ⟨List.nodup_nil, by simp, fun _ => List.Pairwise.nil⟩
  refine Trace.forall_prefix_iff_along (Loads.step pg)
    (I := fun s => s.db.OffersOrdered ∧ s.db.Agree) (Q := fun s => s.db.Agree) ?_ ?_
    (fun _ h => h.2) ⟨hempty, ?_⟩
  · intro s c huniform h
    exact (agree_step h.1 h.2).imp_right fun hstep => hstep.mpr huniform
  · intro s c huniform h hafter
    exact huniform ((agree_step h.1 h.2).2.mp hafter)
  · exact (Catalogue.agree_iff hempty).mpr fun _ _ _ hrows _ ho => absurd ho List.not_mem_nil

/-- Two prices of one moment. -/
def oneMoment : List LoadCall :=
  [blueGlaze "10" "2026-08-08T00:00:00Z", blueGlaze "12" "2026-08-08T00:00:00Z"]

/-- The explorer may show the first of two prices of one moment, which `latest_offers` does not. -/
theorem explorer_shows_other_price : ¬(Loads.after threeDays oneMoment).db.Agree := by
  intro hagree
  have hsame := hagree .productRows 1 (some _) ⟨List.mem_cons_self, by decide⟩
  exact absurd hsame (by decide)

end Loads

end CommerceCollector
