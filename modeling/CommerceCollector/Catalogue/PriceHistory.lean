import CommerceCollector.Catalogue.LoadRecord
import Mathlib.Data.List.Chain

/-!
# The price history of a product

The observations of a product are appended in the order of `(observed_at, id)` and only the last one
is ever extended (`Observes`, `loadRecord_observes`).  A load reads well if it keeps the history a
timeline: it comes before the latest observation, or it repeats its context, or it brings another
context and is not older than the moment at which the latest one was last seen.  The history is a
timeline in every state of a run iff every load of the run is of that kind
(`price_history_timeline_iff`).
-/

namespace CommerceCollector

open Relational

variable {pg : Postgres}

/-! ## What a load does to the observations of a product -/

/-- The row that a context becomes, if the constraints of `offer_observations` admit it. -/
def Record.admitted (p : Record) (t : Terms Numeric) : Option (Terms Fixed) :=
  t.fixed.filter fun fixed => fixed.check && p.raw.all Member.isObject

theorem Record.fixed_of_admitted {p : Record} {t : Terms Numeric} {fixed : Terms Fixed}
    (h : p.admitted t = some fixed) : t.fixed = some fixed :=
  (Option.filter_eq_some_iff.mp h).1

/-- What a priced record, fetched at `f` with the context `t` and its digest, does to the
observations of its product. -/
inductive Observes (f : Time) (t : Terms Numeric) (sha : Digest) (p : Record) :
    List OfferObservation → List OfferObservation → Prop
  /-- The same context was observed at the same instant. -/
  | known {rows : List OfferObservation} (o : OfferObservation) (mem : o ∈ rows)
      (at_eq : o.observedAt = f) (sha_eq : o.contextSha256 = sha) : Observes f t sha p rows rows
  /-- The record is put aside. -/
  | late {init : List OfferObservation} {latest : OfferObservation}
      (lt : f < latest.observedAt) : Observes f t sha p (init ++ [latest]) (init ++ [latest])
  | extend {init : List OfferObservation} {latest : OfferObservation}
      (new : ∀ o ∈ init ++ [latest], ¬ (o.observedAt = f ∧ o.contextSha256 = sha))
      (le : latest.observedAt ≤ f) (same : latest.terms.unchanged t = true) :
      Observes f t sha p (init ++ [latest])
        (init ++ [latest.extend f])
  | first (o : OfferObservation) (at_eq : o.observedAt = f) (seen_eq : o.lastSeenAt = f)
      (terms_eq : p.admitted t = some o.terms) : Observes f t sha p [] [o]
  | change {init : List OfferObservation} {latest : OfferObservation} (o : OfferObservation)
      (new : ∀ o ∈ init ++ [latest], ¬ (o.observedAt = f ∧ o.contextSha256 = sha))
      (le : latest.observedAt ≤ f) (changed : latest.terms.unchanged t = false)
      (at_eq : o.observedAt = f) (seen_eq : o.lastSeenAt = f)
      (terms_eq : p.admitted t = some o.terms) :
      Observes f t sha p (init ++ [latest]) (init ++ [latest, o])

/-- The observations of every product are in the order of `(observed_at, id)`, under the primary
key. -/
structure Catalogue.OffersOrdered (db : Catalogue) : Prop where
  keyed : Keyed OfferObservation.id db.offers
  bounded : ∀ o ∈ db.offers, o.id < db.nextOffer
  ordered : ∀ product, (db.offersOf product).Pairwise fun a b =>
    toLex (a.observedAt, a.id) < toLex (b.observedAt, b.id)

theorem Catalogue.latestOffer_eq_getLast? {db : Catalogue} (h : db.OffersOrdered) (product : Uuid) :
    db.latestOffer product = (db.offersOf product).getLast? := by
  have hordered := h.ordered product
  rcases List.eq_nil_or_concat (db.offersOf product) with hnil | ⟨init, last, hsplit⟩
  · simp [latestOffer, hnil]
  · rw [List.concat_eq_append] at hsplit
    rw [latestOffer, hsplit, List.getLast?_append_cons, List.argmax_concat]
    rw [hsplit, List.pairwise_append] at hordered
    cases hmax : init.argmax fun o => toLex (o.observedAt, o.id) with
    | none => rfl
    | some m =>
      have hm : m ∈ init := List.argmax_mem hmax
      simp [hordered.2.2 m hm last (by simp)]

variable {init : List OfferObservation} {latest : OfferObservation}

namespace Catalogue

variable {db db' : Catalogue} {product : Uuid} {rawRecord : ℕ} {f : Time} {t : Terms Numeric}
  {sha : Digest} {p : Record}

variable {o : OfferObservation}

/-- A row of `offersOf` is an observation of the product. -/
theorem mem_offersOf {q : Uuid} : o ∈ db.offersOf q ↔ o ∈ db.offers ∧ o.productId = q := by
  rw [offersOf, List.mem_filter, beq_iff_eq]

theorem offersOf_append (h : db'.offers = db.offers ++ [o]) (q : Uuid) :
    db'.offersOf q = db.offersOf q ++ if o.productId = q then [o] else [] := by
  rw [offersOf, h, List.filter_append, offersOf]
  split <;> simp_all

/-- What an insertion into `offer_observations` does. -/
theorem insertOffer_ok (h : db.insertOffer product rawRecord f t sha p = .ok db') :
    ∃ o : OfferObservation, o.id = db.nextOffer ∧ o.productId = product ∧ o.observedAt = f ∧
      o.lastSeenAt = f ∧ o.contextSha256 = sha ∧ p.admitted t = some o.terms ∧
      db'.offers = db.offers ++ [o] ∧ db'.nextOffer = db.nextOffer + 1 := by
  unfold insertOffer at h
  split at h
  · exact absurd h (by simp)
  · next fixed hfixed =>
    split at h
    · next hcheck =>
      obtain rfl := Except.ok.inj h
      refine ⟨_, rfl, rfl, rfl, rfl, rfl, ?_, rfl, rfl⟩
      rw [Record.admitted, hfixed]
      exact Option.filter_eq_some_iff.mpr ⟨rfl, hcheck⟩
    · exact absurd h (by simp)

/-- A row appended behind the latest observation of its product keeps the order. -/
theorem OffersOrdered.append (h : db.OffersOrdered) (hid : o.id = db.nextOffer)
    (hoffers : db'.offers = db.offers ++ [o]) (hnext : db'.nextOffer = db.nextOffer + 1)
    (hle : ∀ v ∈ db.offersOf o.productId, v.observedAt ≤ o.observedAt) : db'.OffersOrdered where
  keyed := by
    rw [Keyed, hoffers, List.map_append, List.nodup_append]
    refine ⟨h.keyed, by simp, fun a ha b hb => ?_⟩
    obtain ⟨v, hv, rfl⟩ := List.mem_map.mp ha
    rw [List.map_singleton, List.mem_singleton] at hb
    rw [hb, hid]
    exact (h.bounded v hv).ne
  bounded := by
    intro v hv
    rw [hoffers] at hv
    rw [hnext]
    rcases List.mem_append.mp hv with hv | hv
    · exact (h.bounded v hv).trans (Nat.lt_succ_self _)
    · rw [List.mem_singleton.mp hv, hid]
      exact Nat.lt_succ_self _
  ordered := by
    intro q
    rw [offersOf_append hoffers]
    split
    · next hq =>
      rw [List.pairwise_append]
      refine ⟨h.ordered q, List.pairwise_singleton _ _, fun v hv b hb => ?_⟩
      rw [List.mem_singleton.mp hb, Prod.Lex.toLex_lt_toLex]
      have hobserved : v.observedAt ≤ o.observedAt := hle v (by rwa [hq])
      have hlt : v.id < o.id := by
        rw [hid]
        exact h.bounded v (mem_offersOf.mp hv).1
      rcases hobserved.lt_or_eq with hobserved | hobserved
      · exact Or.inl hobserved
      · exact Or.inr ⟨hobserved, hlt⟩
    · rw [List.append_nil]
      exact h.ordered q

variable {g : OfferObservation → OfferObservation}

theorem offersOf_update {id : ℕ} (hoffers : db'.offers = update (fun o => o.id == id) g db.offers)
    (hg : ∀ o, (g o).productId = o.productId) (q : Uuid) :
    db'.offersOf q = update (fun o => o.id == id) g (db.offersOf q) := by
  rw [offersOf, hoffers, offersOf, update, update, List.filter_map]
  congr 1
  refine List.filter_congr fun o _ => ?_
  simp only [Function.comp_apply]
  split
  · rw [hg]
  · rfl

section

variable (h : db.OffersOrdered)

include h

theorem OffersOrdered.update {id : ℕ}
    (hoffers : db'.offers = Relational.update (fun o => o.id == id) g db.offers)
    (hnext : db'.nextOffer = db.nextOffer) (hid : ∀ o, (g o).id = o.id)
    (hproduct : ∀ o, (g o).productId = o.productId)
    (hobserved : ∀ o, (g o).observedAt = o.observedAt) : db'.OffersOrdered where
  keyed := by
    rw [hoffers]
    exact h.keyed.update hid
  bounded := by
    intro o ho
    rw [hoffers] at ho
    obtain ⟨v, hv, rfl⟩ := mem_update.mp ho
    rw [hnext]
    split
    · rw [hid]
      exact h.bounded v hv
    · exact h.bounded v hv
  ordered := by
    intro q
    rw [offersOf_update hoffers hproduct, Relational.update, List.pairwise_map]
    refine (h.ordered q).imp fun {a b} hab => ?_
    have hkey : ∀ o : OfferObservation, toLex ((if o.id == id then g o else o).observedAt,
        (if o.id == id then g o else o).id) = toLex (o.observedAt, o.id) := by
      intro o
      split
      · rw [hid, hobserved]
      · rfl
    rwa [hkey, hkey]

theorem offersOf_update_last {last : OfferObservation}
    (hlast : db.offersOf product = init ++ [last]) (q : Uuid) :
    Relational.update (fun o => o.id == last.id) g (db.offersOf q) =
      if q = product then init ++ [g last] else db.offersOf q := by
  have hmem : last ∈ db.offersOf product := by simp [hlast]
  split
  · next hq =>
    rw [hq, hlast, Relational.update, List.map_append, List.map_singleton]
    congr 1
    · have hkeep : ∀ o ∈ init, (o.id == last.id) = false := by
        intro o ho
        have hordered := h.ordered product
        rw [hlast, List.pairwise_append] at hordered
        have hne := hordered.2.2 o ho last (by simp)
        have hmemo : o ∈ db.offersOf product := by simp [hlast, ho]
        refine beq_false_of_ne fun hid => ?_
        have heq := h.keyed.eq_of_mem (mem_offersOf.mp hmemo).1 (mem_offersOf.mp hmem).1 hid
        rw [heq] at hne
        exact lt_irrefl _ hne
      exact update_eq_self hkeep
    · simp
  · next hq =>
    refine update_eq_self fun o ho => beq_false_of_ne fun hid => hq ?_
    have heq := h.keyed.eq_of_mem (mem_offersOf.mp ho).1 (mem_offersOf.mp hmem).1 hid
    rw [← (mem_offersOf.mp ho).2, heq, (mem_offersOf.mp hmem).2]

/-- The latest offer of ordered rows, as the last row of a non-empty list. -/
theorem exists_init_of_latestOffer
    (hlatest : db.latestOffer product = some latest) :
    ∃ init, db.offersOf product = init ++ [latest] := by
  rw [latestOffer_eq_getLast? h] at hlatest
  exact List.getLast?_eq_some_iff.mp hlatest

theorem observedAt_le_latest
    (hinit : db.offersOf product = init ++ [latest]) :
    ∀ o ∈ db.offersOf product, o.observedAt ≤ latest.observedAt := by
  intro o ho
  have hordered := h.ordered product
  rw [hinit, List.pairwise_append] at hordered
  rw [hinit] at ho
  rcases List.mem_append.mp ho with ho | ho
  · have hlt := hordered.2.2 o ho latest (by simp)
    rw [Prod.Lex.toLex_lt_toLex] at hlt
    exact hlt.elim le_of_lt fun heq => heq.1.le
  · rw [List.mem_singleton.mp ho]

/-- **What a priced record does.**  It moves the observations of its product as `Observes` says, and
those of no other product. -/
theorem observe_ok
    (hok : db.observe product rawRecord f t sha p = .ok db') :
    db'.OffersOrdered ∧ (∀ q, q ≠ product → db'.offersOf q = db.offersOf q) ∧
      Observes f t sha p (db.offersOf product) (db'.offersOf product) := by
  unfold observe at hok
  split at hok
  · next hany =>
    obtain rfl := Except.ok.inj hok
    obtain ⟨o, ho, hsame⟩ := List.any_eq_true.mp hany
    rw [Bool.and_eq_true, beq_iff_eq, beq_iff_eq] at hsame
    exact ⟨h, fun _ _ => rfl, .known o ho hsame.1 hsame.2⟩
  · next hany =>
    have hnew : ∀ o ∈ db.offersOf product, ¬ (o.observedAt = f ∧ o.contextSha256 = sha) := by
      intro o ho hsame
      exact hany (List.any_eq_true.mpr ⟨o, ho, by simp [hsame]⟩)
    split at hok
    · next hnone =>
      have hnil : db.offersOf product = [] := by
        rw [latestOffer_eq_getLast? h] at hnone
        exact List.getLast?_eq_none_iff.mp hnone
      obtain ⟨o, hid, rfl, hat, hseen, -, hterms, hoffers, hnext⟩ := insertOffer_ok hok
      refine ⟨h.append hid hoffers hnext (by simp [hnil]), fun q hq => ?_, ?_⟩
      · rw [offersOf_append hoffers, if_neg (Ne.symm hq), List.append_nil]
      · rw [offersOf_append hoffers, if_pos rfl, hnil]
        exact .first o hat hseen hterms
    · next latest hlatest =>
      obtain ⟨init, hinit⟩ := exists_init_of_latestOffer h hlatest
      split at hok
      · next hlate =>
        obtain rfl := Except.ok.inj hok
        refine ⟨⟨h.keyed, h.bounded, h.ordered⟩, fun _ _ => rfl, ?_⟩
        rw [hinit]
        have hsame : (db.putAside product rawRecord f sha p).offersOf product = init ++ [latest] :=
          hinit
        rw [hsame]
        exact .late hlate
      · next hlate =>
        have hle : latest.observedAt ≤ f := not_lt.mp hlate
        split at hok
        · next hsame =>
          have hoffers : db'.offers = Relational.update (fun o => o.id == latest.id) (·.extend f)
              db.offers := by rw [← Except.ok.inj hok]
          have hnext : db'.nextOffer = db.nextOffer := by rw [← Except.ok.inj hok]
          have hrows : ∀ q, db'.offersOf q =
              if q = product then init ++ [latest.extend f] else db.offersOf q := by
            intro q
            rw [offersOf_update hoffers fun _ => rfl, offersOf_update_last h hinit]
          refine ⟨h.update hoffers hnext (fun _ => rfl) (fun _ => rfl) fun _ => rfl,
            fun q hq => ?_, ?_⟩
          · rw [hrows, if_neg hq]
          · rw [hrows, if_pos rfl, hinit]
            exact .extend (hinit ▸ hnew) hle hsame
        · next hchanged =>
          obtain ⟨o, hid, rfl, hat, hseen, -, hterms, hoffers, hnext⟩ := insertOffer_ok hok
          have hbefore : ∀ v ∈ db.offersOf o.productId, v.observedAt ≤ o.observedAt := by
            intro v hv
            rw [hat]
            exact (observedAt_le_latest h hinit v hv).trans hle
          refine ⟨h.append hid hoffers hnext hbefore, fun q hq => ?_, ?_⟩
          · rw [offersOf_append hoffers, if_neg (Ne.symm hq), List.append_nil]
          · rw [offersOf_append hoffers, if_pos rfl, hinit, List.append_assoc]
            exact .change o (hinit ▸ hnew) hle (by simpa using hchanged) hat hseen hterms

end

end Catalogue

theorem Catalogue.insertOffer_error {db : Catalogue} {product : Uuid} {rawRecord : ℕ} {f : Time}
    {t : Terms Numeric} {sha : Digest} {p : Record} {e : LoadError}
    (h : db.insertOffer product rawRecord f t sha p = .error e) : p.admitted t = none := by
  unfold insertOffer at h
  unfold Record.admitted
  split at h
  · next hfixed => simp [hfixed]
  · next fixed hfixed =>
    split at h
    · exact absurd h (by simp)
    · next hcheck => simp [hfixed, Option.filter, hcheck]

/-- When the price history refuses a record: a new context that the constraints do not admit. -/
theorem Catalogue.observe_error {db : Catalogue} {product : Uuid} {rawRecord : ℕ} {f : Time}
    {t : Terms Numeric} {sha : Digest} {p : Record} {e : LoadError}
    (h : db.observe product rawRecord f t sha p = .error e) :
    p.admitted t = none ∧
      ((db.offersOf product).any fun o => o.observedAt == f && o.contextSha256 == sha) = false := by
  unfold observe at h
  split at h
  · exact absurd h (by simp)
  · next hany =>
    refine ⟨?_, by simpa using hany⟩
    split at h
    · exact insertOffer_error h
    · split at h
      · exact absurd h (by simp)
      · split at h
        · exact absurd h (by simp)
        · exact insertOffer_error h

/-- A record with a price: its product, the moment it was fetched, and its context. -/
structure Priced where
  product : Uuid
  fetchedAt : Time
  terms : Terms Numeric
  deriving DecidableEq, Repr

/-- The product that a record names. -/
def Catalogue.productOf (db : Catalogue) (v : Values) : Uuid :=
  match db.products.find? fun q => q.sourceId == v.source && q.externalId == v.externalId with
  | some q => q.id
  | none => db.nextProduct

/-- The priced record of a call, if it is one and can be read. -/
def Postgres.priced (pg : Postgres) (db : Catalogue) (c : LoadCall) : Option Priced :=
  match pg.read c.stockTrendsEnabled c.record with
  | .error _ => none
  | .ok v =>
    match v.fetchedAt, v.offer with
    | some f, .ok (some t) => some ⟨db.productOf v, f, t⟩
    | _, _ => none

theorem Catalogue.register_product (db : Catalogue) (v : Values) (f : Time) (c : LoadCall) :
    (db.register pg v f c).1 = db.productOf v := by
  simp only [register, upsertProduct, productOf, Values.product]
  cases db.products.find? fun q => q.sourceId == v.source && q.externalId == v.externalId <;> rfl

/-- The price history does not move when the product and the raw record are written. -/
theorem Catalogue.register_offers (db : Catalogue) (v : Values) (f : Time) (c : LoadCall) :
    (db.register pg v f c).2.2.offers = db.offers ∧
      (db.register pg v f c).2.2.nextOffer = db.nextOffer := by
  have hraw : ∀ (db : Catalogue) (row : RawRecord),
      (db.upsertRawRecord row).2.offers = db.offers ∧
        (db.upsertRawRecord row).2.nextOffer = db.nextOffer := by
    intro db row
    unfold upsertRawRecord
    dsimp only
    split <;> exact ⟨rfl, rfl⟩
  have hproduct : ∀ (db : Catalogue) (b : Bool) (row : SourceProduct),
      (db.upsertProduct b row).2.offers = db.offers ∧
        (db.upsertProduct b row).2.nextOffer = db.nextOffer := by
    intro db b row
    unfold upsertProduct
    dsimp only
    split <;> exact ⟨rfl, rfl⟩
  unfold register
  exact ⟨(hraw _ _).1.trans (hproduct _ _ _).1, (hraw _ _).2.trans (hproduct _ _ _).2⟩

/-- The tables of a load before its price is looked at keep the order of the observations. -/
theorem Catalogue.OffersOrdered.register {db : Catalogue} (h : db.OffersOrdered) (v : Values)
    (f : Time) (c : LoadCall) :
    (db.register pg v f c).2.2.OffersOrdered ∧
      ∀ q, (db.register pg v f c).2.2.offersOf q = db.offersOf q := by
  obtain ⟨hoffers, hnext⟩ : (db.register pg v f c).2.2.offers = db.offers ∧
      (db.register pg v f c).2.2.nextOffer = db.nextOffer := db.register_offers v f c
  have hrows : ∀ q, (db.register pg v f c).2.2.offersOf q = db.offersOf q := by
    intro q
    rw [offersOf, hoffers, offersOf]
  refine ⟨⟨?_, ?_, fun q => ?_⟩, hrows⟩
  · rw [hoffers]
    exact h.keyed
  · rw [hoffers, hnext]
    exact h.bounded
  · rw [hrows]
    exact h.ordered q

/-- **What a load does.**  A call without a price leaves the price history alone; a call with a
price moves the history of its product. -/
theorem loadRecord_ok {db db' : Catalogue} {c : LoadCall} {product : Uuid}
    (hok : loadRecord pg db c = .ok (product, db')) (h : db.OffersOrdered) :
    db'.OffersOrdered ∧
      match pg.priced db c with
      | none => ∀ q, db'.offersOf q = db.offersOf q
      | some r => (∀ q, q ≠ r.product → db'.offersOf q = db.offersOf q) ∧
        Observes r.fetchedAt r.terms (pg.contextSha256 r.terms) c.record (db.offersOf r.product)
          (db'.offersOf r.product) := by
  unfold loadRecord at hok
  cases hread : pg.read c.stockTrendsEnabled c.record with
  | error e => rw [hread] at hok; exact absurd hok (by simp [bind, Except.bind])
  | ok v =>
    rw [hread] at hok
    cases hfetched : v.fetchedAt with
    | none => simp [bind, Except.bind, hfetched] at hok
    | some f =>
      obtain ⟨hordered, hrows⟩ : (db.register pg v f c).2.2.OffersOrdered ∧
          ∀ q, (db.register pg v f c).2.2.offersOf q = db.offersOf q := h.register v f c
      simp only [bind, Except.bind, hfetched] at hok
      cases hoffer : v.offer with
      | error e => simp [hoffer] at hok
      | ok offer =>
        simp only [hoffer] at hok
        cases offer with
        | none =>
          obtain ⟨-, rfl⟩ := Prod.mk.inj (Except.ok.inj hok)
          have hpriced : pg.priced db c = none := by
            simp [Postgres.priced, hread, hfetched, hoffer]
          rw [hpriced]
          exact ⟨hordered, hrows⟩
        | some t =>
          cases hobserve : (db.register pg v f c).2.2.observe (db.register pg v f c).1
              (db.register pg v f c).2.1 f t (pg.contextSha256 t) c.record with
          | error e => simp [hobserve] at hok
          | ok db'' =>
            simp only [hobserve] at hok
            obtain ⟨-, rfl⟩ := Prod.mk.inj (Except.ok.inj hok)
            obtain ⟨hordered', hother, hobserves⟩ := Catalogue.observe_ok hordered hobserve
            have hpriced : pg.priced db c = some ⟨db.productOf v, f, t⟩ := by
              simp [Postgres.priced, hread, hfetched, hoffer]
            rw [hrows, db.register_product] at hobserves
            rw [db.register_product] at hother
            rw [hpriced]
            exact ⟨hordered', fun q hq => (hother q hq).trans (hrows q), hobserves⟩

variable {r : Priced}

/-- **When a load of a readable priced record is refused.** -/
theorem loadRecord_error {db : Catalogue} {c : LoadCall} {e : LoadError}
    (herror : loadRecord pg db c = .error e) (hpriced : pg.priced db c = some r) :
    c.record.admitted r.terms = none ∧ ((db.offersOf r.product).any fun o =>
      o.observedAt == r.fetchedAt && o.contextSha256 == pg.contextSha256 r.terms) = false := by
  unfold loadRecord at herror
  unfold Postgres.priced at hpriced
  cases hread : pg.read c.stockTrendsEnabled c.record with
  | error e => simp [hread] at hpriced
  | ok v =>
    rw [hread] at herror hpriced
    dsimp only at hpriced
    split at hpriced
    · next f t hfetched hoffer =>
      obtain rfl := Option.some.inj hpriced
      simp only [bind, Except.bind, hfetched, hoffer] at herror
      cases hobserve : (db.register pg v f c).2.2.observe (db.register pg v f c).1
          (db.register pg v f c).2.1 f t (pg.contextSha256 t) c.record with
      | ok db' => simp [hobserve, pure, Except.pure] at herror
      | error e =>
        have hrows : (db.register pg v f c).2.2.offersOf = db.offersOf := by
          funext q
          rw [Catalogue.offersOf, (db.register_offers v f c).1, Catalogue.offersOf]
        have hrefused := Catalogue.observe_error hobserve
        rw [hrows, db.register_product] at hrefused
        exact hrefused
    · exact absurd hpriced (by simp)

/-! ## The timeline -/

/-- The tables, and the priced records loaded so far. -/
structure Loads where
  db : Catalogue := {}
  loaded : List Priced := []
  deriving DecidableEq, Repr

namespace Loads

/-- A call of `load_record`; a call that raises changes nothing. -/
def step (pg : Postgres) (s : Loads) (c : LoadCall) : Loads :=
  match loadRecord pg s.db c with
  | .error _ => s
  | .ok (_, db) => { db := db, loaded := s.loaded ++ (pg.priced s.db c).toList }

/-- The state reached by a sequence of calls on empty tables. -/
def after (pg : Postgres) (calls : List LoadCall) : Loads := Trace.exec (step pg) {} calls

/-- The later of two records: the greater `fetched_at`, and the last loaded among equals. -/
def later : Option Priced → Priced → Option Priced
  | none, r => some r
  | some b, r => if b.fetchedAt ≤ r.fetchedAt then some r else some b

/-- The priced record of a product with the greatest `fetched_at`, the last one among equals. -/
def newest (s : Loads) (product : Uuid) : Option Priced :=
  (s.loaded.filter fun r => r.product == product).foldl later none

/-- The observations of a product, `order by observed_at, id`. -/
def timeline (s : Loads) (product : Uuid) : List OfferObservation :=
  (s.db.offersOf product).insertionSort fun a b =>
    toLex (a.observedAt, a.id) ≤ toLex (b.observedAt, b.id)

/-- The price history of a product is a well-formed timeline. -/
structure Timeline (s : Loads) (product : Uuid) : Prop where
  /-- The intervals in which the contexts were seen are disjoint. -/
  disjoint : (s.timeline product).Pairwise fun a b => a.lastSeenAt ≤ b.observedAt
  /-- A row is a change of context. -/
  changes : (s.timeline product).IsChain fun a b => a.terms ≠ b.terms
  /-- `latest_offers` carries the context of the newest record. -/
  current : ∀ r, s.newest product = some r →
    ∃ o, s.db.latestOffer product = some o ∧ r.terms.fixed = some o.terms

/-- The priced record of the call, if there is one, finds the price history of its product where it
belongs: nothing was observed yet; or the record is from before the latest observation; or an
observation of the same instant already has its context, and the latest one has it too or was seen
later; or the latest observation has exactly this context; or the context, as a row holds it, is
another one, and the record is not older than the moment at which the latest one was last seen. -/
def settles (pg : Postgres) (s : Loads) (c : LoadCall) : Bool :=
  match pg.priced s.db c with
  | none => true
  | some r =>
    match s.db.latestOffer r.product with
    | none => true
    | some latest =>
      decide (r.fetchedAt < latest.observedAt) ||
        if (s.db.offersOf r.product).any fun o =>
            o.observedAt == r.fetchedAt && o.contextSha256 == pg.contextSha256 r.terms then
          decide (r.fetchedAt < latest.lastSeenAt) || r.terms.fixed == some latest.terms
        else
          latest.terms.unchanged r.terms || (c.record.admitted r.terms).all fun fixed =>
            decide (latest.lastSeenAt ≤ r.fetchedAt) && fixed != latest.terms

/-! ### One load -/

variable {s : Loads} {c : LoadCall} {product : Uuid}

/-- The rows of a product and the newest record of it agree. -/
def Current (rows : List OfferObservation) (newest : Option Priced) : Prop :=
  match rows.getLast? with
  | none => newest = none
  | some latest => latest.observedAt ≤ latest.lastSeenAt ∧
    ∃ r, newest = some r ∧ r.fetchedAt = latest.lastSeenAt ∧ r.terms.fixed = some latest.terms

/-- The invariant of the price history of a product. -/
structure History (rows : List OfferObservation) (newest : Option Priced) : Prop where
  disjoint : rows.Pairwise fun a b => a.lastSeenAt ≤ b.observedAt
  changes : rows.IsChain fun a b => a.terms ≠ b.terms
  current : Current rows newest

/-- The invariant of the loads. -/
structure Inv (s : Loads) : Prop where
  ordered : s.db.OffersOrdered
  history : ∀ product, History (s.db.offersOf product) (s.newest product)

theorem timeline_eq (h : s.db.OffersOrdered) (product : Uuid) :
    s.timeline product = s.db.offersOf product := by
  refine List.Pairwise.insertionSort_eq ?_
  exact (h.ordered product).imp le_of_lt

/-- A loaded record becomes the newest of its product, unless an older one is newer. -/
theorem newest_append {s s' : Loads} (h : s'.loaded = s.loaded ++ [r]) (product : Uuid) :
    s'.newest product =
      if r.product = product then later (s.newest product) r else s.newest product := by
  rw [newest, h, List.filter_append, List.foldl_append, ← newest]
  split
  · next heq => simp [heq]
  · next hne => simp [hne]

theorem Inv.timeline (h : s.Inv) (product : Uuid) : s.Timeline product where
  disjoint := by
    rw [timeline_eq h.ordered]
    exact (h.history product).disjoint
  changes := by
    rw [timeline_eq h.ordered]
    exact (h.history product).changes
  current := by
    intro r hr
    have hcurrent := (h.history product).current
    rw [Catalogue.latestOffer_eq_getLast? h.ordered]
    unfold Current at hcurrent
    cases hlast : (s.db.offersOf product).getLast? with
    | none =>
      rw [hlast, hr] at hcurrent
      exact absurd hcurrent (by simp)
    | some latest =>
      rw [hlast] at hcurrent
      obtain ⟨-, r', hr', -, hterms⟩ := hcurrent
      obtain rfl : r' = r := Option.some.inj (hr'.symm.trans hr)
      exact ⟨latest, rfl, hterms⟩

theorem History.exists_newest {newest : Option Priced} (h : History (init ++ [latest]) newest) :
    latest.observedAt ≤ latest.lastSeenAt ∧
      ∃ b, newest = some b ∧ b.fetchedAt = latest.lastSeenAt ∧ b.terms.fixed = some latest.terms := by
  have hcurrent := h.current
  unfold Current at hcurrent
  rwa [List.getLast?_append_cons] at hcurrent

theorem later_of_lt {b r : Priced} (h : r.fetchedAt < b.fetchedAt) :
    later (some b) r = some b := by
  rw [later, if_neg (not_le.mpr h)]

theorem later_of_le {b r : Priced} (h : b.fetchedAt ≤ r.fetchedAt) : later (some b) r = some r := by
  rw [later, if_pos h]

/-- A settled record, seen from the latest observation: at a known instant the latest observation
was seen later or has its context; otherwise the context is unchanged, or it is another one and the
latest observation is over. -/
def SettlesAt (r : Priced) (known : Prop) (admitted : Option (Terms Fixed))
    (latest : OfferObservation) : Prop :=
  (known → r.fetchedAt < latest.lastSeenAt ∨ r.terms.fixed = some latest.terms) ∧
    (¬ known → latest.terms.unchanged r.terms = true ∨
      ∀ fixed, admitted = some fixed → latest.lastSeenAt ≤ r.fetchedAt ∧ fixed ≠ latest.terms)

/-- The context of a row seen at the same instant is known. -/
def Known (pg : Postgres) (rows : List OfferObservation) (r : Priced) : Prop :=
  ∃ o ∈ rows, o.observedAt = r.fetchedAt ∧ o.contextSha256 = pg.contextSha256 r.terms

theorem settles_iff (h : s.db.OffersOrdered) (hpriced : pg.priced s.db c = some r) :
    s.settles pg c = true ↔ ∀ init latest, s.db.offersOf r.product = init ++ [latest] →
      latest.observedAt ≤ r.fetchedAt →
        SettlesAt r (Known pg (s.db.offersOf r.product) r) (c.record.admitted r.terms) latest := by
  have hknown : ((s.db.offersOf r.product).any fun o => o.observedAt == r.fetchedAt &&
      o.contextSha256 == pg.contextSha256 r.terms) = true ↔
        Known pg (s.db.offersOf r.product) r := by
    simp only [Known, List.any_eq_true, Bool.and_eq_true, beq_iff_eq]
  unfold settles
  rw [hpriced]
  dsimp only
  rw [Catalogue.latestOffer_eq_getLast? h]
  rcases List.eq_nil_or_concat (s.db.offersOf r.product) with hnil | ⟨init, latest, hsplit⟩
  · rw [hnil]
    simp
  · rw [List.concat_eq_append] at hsplit
    rw [hsplit, List.getLast?_append_cons, ← hsplit, List.getLast?_singleton, Bool.or_eq_true,
      decide_eq_true_eq]
    constructor
    · intro hset init' latest' hsplit' hle
      obtain ⟨-, heq⟩ := List.append_inj' (hsplit.symm.trans hsplit') rfl
      obtain rfl : latest = latest' := (List.cons.inj heq).1
      have hset := hset.resolve_left (not_lt.mpr hle)
      refine ⟨fun hk => ?_, fun hk => ?_⟩
      · rw [if_pos (hknown.mpr hk)] at hset
        simpa using hset
      · rw [if_neg (fun h => hk (hknown.mp h))] at hset
        simp only [Bool.or_eq_true, Option.all_eq_true, Bool.and_eq_true, decide_eq_true_eq,
          bne_iff_ne] at hset
        exact hset
    · intro hset
      by_cases hlate : r.fetchedAt < latest.observedAt
      · exact Or.inl hlate
      · refine Or.inr ?_
        obtain ⟨hpos, hneg⟩ := hset init latest hsplit (not_lt.mp hlate)
        split
        · next hk => simpa using hpos (hknown.mp hk)
        · next hk =>
          simp only [Bool.or_eq_true, Option.all_eq_true, Bool.and_eq_true, decide_eq_true_eq,
            bne_iff_ne]
          exact hneg fun h => hk (hknown.mpr h)

theorem History.observes {rows rows' : List OfferObservation} {newest : Option Priced} {p : Record}
    (h : History rows newest)
    (hle : ∀ init latest, rows = init ++ [latest] → ∀ o ∈ rows, o.observedAt ≤ latest.observedAt)
    (hset : ∀ init latest, rows = init ++ [latest] → latest.observedAt ≤ r.fetchedAt →
      SettlesAt r (Known pg rows r) (p.admitted r.terms) latest)
    (hobserves : Observes r.fetchedAt r.terms (pg.contextSha256 r.terms) p rows rows') :
    History rows' (later newest r) := by
  cases hobserves with
  | known o ho hat hsha =>
    obtain ⟨init, latest, rfl⟩ : ∃ init latest, rows = init ++ [latest] := by
      rcases List.eq_nil_or_concat rows with rfl | ⟨init, latest, hsplit⟩
      · exact absurd ho (by simp)
      · exact ⟨init, latest, by rw [hsplit, List.concat_eq_append]⟩
    obtain ⟨hseen, b, rfl, hb, hterms⟩ := h.exists_newest
    refine ⟨h.disjoint, h.changes, ?_⟩
    unfold Current
    rw [List.getLast?_append_cons, List.getLast?_singleton]
    refine ⟨hseen, ?_⟩
    have hbefore : r.fetchedAt ≤ latest.observedAt := hat ▸ hle init latest rfl o ho
    by_cases hold : r.fetchedAt < latest.lastSeenAt
    · exact ⟨b, later_of_lt (hb ▸ hold), hb, hterms⟩
    · have hinstant : latest.observedAt ≤ r.fetchedAt := hseen.trans (not_lt.mp hold)
      have hsame := ((hset init latest rfl hinstant).1 ⟨o, ho, hat, hsha⟩).resolve_left hold
      refine ⟨r, later_of_le (hb ▸ not_lt.mp hold), ?_, hsame⟩
      exact le_antisymm (hbefore.trans hseen) (not_lt.mp hold)
  | @late init latest hlate =>
    obtain ⟨hseen, b, rfl, hb, hterms⟩ := h.exists_newest
    rwa [later_of_lt (hb ▸ hlate.trans_le hseen)]
  | @extend init latest hnew hobserved hsame =>
    obtain ⟨hseen, b, rfl, hb, hterms⟩ := h.exists_newest
    refine ⟨?_, ?_, ?_⟩
    · have hdisjoint := h.disjoint
      rw [List.pairwise_append] at hdisjoint ⊢
      refine ⟨hdisjoint.1, List.pairwise_singleton _ _, fun a ha o ho => ?_⟩
      rw [List.mem_singleton.mp ho]
      exact hdisjoint.2.2 a ha latest (by simp)
    · have hchanges := h.changes
      rw [List.isChain_append] at hchanges ⊢
      refine ⟨hchanges.1, List.isChain_singleton _, fun a ha o ho => ?_⟩
      obtain rfl : latest.extend r.fetchedAt = o := by simpa using ho
      exact hchanges.2.2 a ha latest (by simp)
    · unfold Current
      rw [List.getLast?_append_cons, List.getLast?_singleton]
      refine ⟨hseen.trans (le_max_left _ _), ?_⟩
      rcases lt_or_ge r.fetchedAt latest.lastSeenAt with hold | hnewer
      · exact ⟨b, later_of_lt (hb ▸ hold), by simp [OfferObservation.extend, hb, hold.le], hterms⟩
      · refine ⟨r, later_of_le (hb ▸ hnewer), by simp [OfferObservation.extend, hnewer], ?_⟩
        exact Terms.fixed_of_unchanged hsame
  | first o hat hseen hterms =>
    have hnone : newest = none := h.current
    refine ⟨List.pairwise_singleton _ _, List.isChain_singleton _, ?_⟩
    rw [hnone]
    exact ⟨(hat.trans hseen.symm).le, r, rfl, hseen.symm, Record.fixed_of_admitted hterms⟩
  | @change init latest o hnew hobserved hchanged hat hseen hterms =>
    obtain ⟨hlatest, b, rfl, hb, -⟩ := h.exists_newest
    have hunknown : ¬ Known pg (init ++ [latest]) r := fun ⟨v, hv, hsame⟩ => hnew v hv hsame
    obtain ⟨hover, hother⟩ := ((hset init latest rfl hobserved).2 hunknown).resolve_left
      (by simp [hchanged]) o.terms hterms
    have hsplit : init ++ [latest, o] = (init ++ [latest]) ++ [o] := by simp
    rw [hsplit]
    refine ⟨?_, ?_, ?_⟩
    · rw [List.pairwise_append]
      refine ⟨h.disjoint, List.pairwise_singleton _ _, fun a ha v hv => ?_⟩
      rw [List.mem_singleton.mp hv, hat]
      rcases List.mem_append.mp ha with ha | ha
      · have hdisjoint := (List.pairwise_append.mp h.disjoint).2.2 a ha latest (by simp)
        exact hdisjoint.trans hobserved
      · rw [List.mem_singleton.mp ha]
        exact hover
    · rw [List.isChain_append]
      refine ⟨h.changes, List.isChain_singleton _, fun a ha v hv => ?_⟩
      obtain rfl : latest = a := by simpa using ha
      obtain rfl : o = v := by simpa using hv
      exact hother.symm
    · unfold Current
      rw [List.getLast?_append_cons, List.getLast?_singleton]
      refine ⟨by rw [hat, hseen], r, later_of_le (hb ▸ hover), hseen.symm, ?_⟩
      exact Record.fixed_of_admitted hterms

theorem step_of_not_priced (hpriced : pg.priced s.db c = none) (h : s.db.OffersOrdered) :
    (s.step pg c).db.OffersOrdered ∧ ∀ q, (s.step pg c).db.offersOf q = s.db.offersOf q ∧
      (s.step pg c).newest q = s.newest q := by
  unfold step
  cases hload : loadRecord pg s.db c with
  | error e => exact ⟨h, fun q => ⟨rfl, rfl⟩⟩
  | ok result =>
    obtain ⟨product, db⟩ := result
    have hok := loadRecord_ok hload h
    rw [hpriced] at hok
    refine ⟨hok.1, fun q => ⟨hok.2 q, ?_⟩⟩
    rw [hpriced, newest, Option.toList_none, List.append_nil, newest]

/-- What a load of a priced record does to the state: it is refused, or it moves the history of its
product and may become its newest record. -/
theorem step_of_priced (hpriced : pg.priced s.db c = some r) (h : s.db.OffersOrdered) :
    (s.step pg c = s ∧ c.record.admitted r.terms = none ∧
        ¬ Known pg (s.db.offersOf r.product) r) ∨
      (s.step pg c).db.OffersOrdered ∧
        (∀ q, q ≠ r.product → (s.step pg c).db.offersOf q = s.db.offersOf q ∧
          (s.step pg c).newest q = s.newest q) ∧
        (s.step pg c).newest r.product = later (s.newest r.product) r ∧
        Observes r.fetchedAt r.terms (pg.contextSha256 r.terms) c.record (s.db.offersOf r.product)
          ((s.step pg c).db.offersOf r.product) := by
  unfold step
  cases hload : loadRecord pg s.db c with
  | error e =>
    obtain ⟨hadmitted, hknown⟩ := loadRecord_error hload hpriced
    refine Or.inl ⟨rfl, hadmitted, ?_⟩
    rintro ⟨o, ho, hat, hsha⟩
    rw [List.any_eq_false] at hknown
    exact hknown o ho (by simp [hat, hsha])
  | ok result =>
    obtain ⟨product, db⟩ := result
    have hok := loadRecord_ok hload h
    rw [hpriced] at hok
    obtain ⟨hordered, hother, hobserves⟩ := hok
    have hloaded : ({ db := db, loaded := s.loaded ++ (pg.priced s.db c).toList } : Loads).loaded =
        s.loaded ++ [r] := by rw [hpriced, Option.toList_some]
    refine Or.inr ⟨hordered, fun q hq => ⟨hother q hq, ?_⟩, ?_, hobserves⟩
    · rw [newest_append hloaded, if_neg (Ne.symm hq)]
    · rw [newest_append hloaded, if_pos rfl]

theorem inv_empty : Inv {} where
  ordered := ⟨List.nodup_nil, by simp, fun _ => List.Pairwise.nil⟩
  history := fun _ => ⟨List.Pairwise.nil, List.isChain_nil, rfl⟩

theorem Inv.step (h : s.Inv) (hset : s.settles pg c = true) : (s.step pg c).Inv := by
  cases hpriced : pg.priced s.db c with
  | none =>
    obtain ⟨hordered, hsame⟩ := step_of_not_priced hpriced h.ordered
    refine ⟨hordered, fun q => ?_⟩
    rw [(hsame q).1, (hsame q).2]
    exact h.history q
  | some r =>
    rcases step_of_priced hpriced h.ordered with
      ⟨heq, -, -⟩ | ⟨hordered, hother, hnewest, hobserves⟩
    · rwa [heq]
    · refine ⟨hordered, fun q => ?_⟩
      by_cases hq : q = r.product
      · rw [hq, hnewest]
        exact (h.history r.product).observes
          (fun init latest hsplit => Catalogue.observedAt_le_latest h.ordered hsplit)
          ((settles_iff h.ordered hpriced).mp hset) hobserves
      · rw [(hother q hq).1, (hother q hq).2]
        exact h.history q

theorem last_inj {α : Type*} {l l' : List α} {a b : α} (h : l ++ [a] = l' ++ [b]) : a = b :=
  (List.cons.inj (List.append_inj' h rfl).2).1

theorem Inv.not_timeline (h : s.Inv) (hset : ¬ s.settles pg c = true) :
    ∃ product, ¬ (s.step pg c).Timeline product := by
  cases hpriced : pg.priced s.db c with
  | none => exact absurd (by simp [settles, hpriced]) hset
  | some r =>
    rw [settles_iff h.ordered hpriced] at hset
    simp only [not_forall] at hset
    obtain ⟨init, latest, hrows, hobserved, hset⟩ := hset
    obtain ⟨hlatest, b, hb, hbat, hbterms⟩ := (hrows ▸ h.history r.product).exists_newest
    refine ⟨r.product, fun htimeline => hset ?_⟩
    rcases step_of_priced hpriced h.ordered with
      ⟨-, hadmitted, hknown⟩ | ⟨hordered, -, hnewest, hobserves⟩
    · exact ⟨fun hk => absurd hk hknown, fun _ => Or.inr (by simp [hadmitted])⟩
    have hdisjoint := htimeline.disjoint
    have hchanges := htimeline.changes
    rw [timeline_eq hordered] at hdisjoint hchanges
    generalize hrows' : (s.step pg c).db.offersOf r.product = rows' at hobserves hdisjoint hchanges
    generalize s.db.offersOf r.product = rows at hrows hobserves ⊢
    cases hobserves with
    | known o ho hat hsha =>
      refine ⟨fun _ => ?_, fun hk => absurd ⟨o, ho, hat, hsha⟩ hk⟩
      by_contra hbroken
      rw [not_or, not_lt] at hbroken
      have hcurrent := htimeline.current r (by rw [hnewest, hb, later_of_le (hbat ▸ hbroken.1)])
      rw [Catalogue.latestOffer_eq_getLast? hordered, hrows', hrows, List.getLast?_append_cons,
        List.getLast?_singleton] at hcurrent
      obtain ⟨o', ho', hfixed⟩ := hcurrent
      exact hbroken.2 ((Option.some.inj ho') ▸ hfixed)
    | late hlate =>
      obtain rfl := last_inj hrows
      exact absurd hobserved (not_le.mpr hlate)
    | extend hnew hle hsame =>
      obtain rfl := last_inj hrows
      exact ⟨fun ⟨o, ho, heq⟩ => absurd heq (hnew o ho), fun _ => Or.inl hsame⟩
    | first o hat hseen hterms => exact absurd hrows (by simp)
    | @change init' latest' o hnew hle hchanged hat hseen hterms =>
      obtain rfl := last_inj hrows
      refine ⟨fun ⟨v, hv, heq⟩ => absurd heq (hnew v hv), fun _ => Or.inr fun fixed hfixed => ?_⟩
      obtain rfl : o.terms = fixed := Option.some.inj (hterms.symm.trans hfixed)
      rw [List.pairwise_append] at hdisjoint
      rw [List.isChain_append] at hchanges
      have hover := List.rel_of_pairwise_cons hdisjoint.2.1 (List.mem_singleton_self o)
      have hother := (List.isChain_cons_cons.mp hchanges.2.1).1
      exact ⟨hat ▸ hover, hother.symm⟩

/-- **The price history is a timeline** in every state of a run iff every load of the run is
settled. -/
theorem price_history_timeline_iff (pg : Postgres) (calls : List LoadCall) :
    (∀ pre, pre <+: calls → ∀ product, (Loads.after pg pre).Timeline product) ↔
      Trace.Along (Loads.step pg) (fun s c => s.settles pg c = true) {} calls := by
  refine Trace.forall_prefix_iff_along (Loads.step pg) (I := Inv)
    (Q := fun s => ∀ product, s.Timeline product) (fun s c hset h => h.step hset) ?_
    (fun s h => h.timeline) inv_empty
  intro s c hset h hall
  obtain ⟨product, hbroken⟩ := h.not_timeline hset
  exact hbroken (hall product)

/-- A database that reads the two prices and the three days of the loads below. -/
def threeDays : Postgres where
  btrim := id
  lower := id
  upper := id
  numeric := fun t =>
    if t = "10" then some (.decimal 10 0) else if t = "12" then some (.decimal 12 0) else none
  bigint := fun _ => none
  timestamptz := fun t =>
    if t = "2026-08-08T00:00:00Z" then some 1786147200000000
    else if t = "2026-08-09T00:00:00Z" then some 1786233600000000
    else if t = "2026-08-10T00:00:00Z" then some 1786320000000000 else none
  contextSha256 := fun t =>
    match t.price with
    | .decimal n _ => BitVec.ofInt 256 n
    | _ => 0
  recordSha256 := fun p => if p.price = some "10" then 1 else 2

/-- A priced record of one product. -/
def blueGlaze (price fetchedAt : String) : LoadCall where
  record := {
    format := some "ceramics.catalogue_item.v2", source := some "ceradel", externalId := some "1"
    name := some "Blue", productUrl := some "https://ceradel.fr/p/1", price := some price
    currency := some "EUR", fetchedAt := some fetchedAt }

/-- The price of the first day is seen again on the third, and then the record of the second day
arrives. -/
def lateInsideInterval : List LoadCall :=
  [blueGlaze "10" "2026-08-08T00:00:00Z", blueGlaze "10" "2026-08-10T00:00:00Z",
    blueGlaze "12" "2026-08-09T00:00:00Z"]

/-- A late record inside the interval of the latest observation becomes an observation that overlaps
it. -/
theorem late_record_overlaps :
    ∃ product, ¬ (Loads.after threeDays lateInsideInterval).Timeline product :=
  ⟨1, fun h => absurd h.disjoint (by decide)⟩

end Loads

end CommerceCollector
