import CommerceCollector.Catalogue.Compaction

/-!
# Loads beside a compaction

What a load reads does not depend on the tables (`parsed`); it finds its product in the products and
the next product id, which compaction does not touch; and what it does to the observations of the
product is decided by those observations alone (`verdict`).
-/

namespace CommerceCollector.Compaction

open Relational Islands

variable {pg : Postgres}

/-! ## A load by its parts -/

/-- The part of a load that does not depend on the tables: the values, the moment and the
context. -/
def parsed (pg : Postgres) (c : LoadCall) :
    Except LoadError (Values × Time × Option (Terms Numeric)) :=
  match pg.read c.stockTrendsEnabled c.record with
  | .error e => .error e
  | .ok v =>
    match v.fetchedAt, v.offer with
    | none, _ => .error (.constraint "source_products.first_seen_at")
    | some _, .error e => .error e
    | some f, .ok offer => .ok (v, f, offer)

theorem priced_eq (db : Catalogue) (c : LoadCall) :
    pg.priced db c = match parsed pg c with
      | .ok (v, f, some t) => some ⟨db.productOf v, f, t⟩
      | _ => none := by
  unfold Postgres.priced parsed
  cases pg.read c.stockTrendsEnabled c.record with
  | error e => rfl
  | ok v =>
    dsimp only
    cases v.fetchedAt with
    | none => rfl
    | some f =>
      cases v.offer with
      | error e => rfl
      | ok offer => cases offer <;> rfl

theorem load_eq (db : Catalogue) (c : LoadCall) :
    load pg db c = match parsed pg c with
      | .error _ => db
      | .ok (v, f, none) => (db.register pg v f c).2.2
      | .ok (v, f, some t) =>
        match (db.register pg v f c).2.2.observe (db.productOf v) (db.register pg v f c).2.1 f t
          (pg.contextSha256 t) c.record with
        | .error _ => db
        | .ok db => db := by
  unfold load loadRecord parsed
  cases pg.read c.stockTrendsEnabled c.record with
  | error e => rfl
  | ok v =>
    simp only [bind, Except.bind]
    cases v.fetchedAt with
    | none => rfl
    | some f =>
      cases v.offer with
      | error e => rfl
      | ok offer =>
        cases offer with
        | none => rfl
        | some t =>
          dsimp only
          have hproduct : (db.register pg v f c).1 = db.productOf v := db.register_product v f c
          rw [← hproduct]
          cases (db.register pg v f c).2.2.observe (db.register pg v f c).1
            (db.register pg v f c).2.1 f t (pg.contextSha256 t) c.record <;> rfl

/-! ## The product of a record -/

/-- The products of two states of the tables are the same. -/
structure SameProducts (db db' : Catalogue) : Prop where
  products : db.products = db'.products
  nextProduct : db.nextProduct = db'.nextProduct

theorem SameProducts.productOf {db db' : Catalogue} (h : SameProducts db db') (v : Values) :
    db.productOf v = db'.productOf v := by
  unfold Catalogue.productOf
  rw [h.products, h.nextProduct]

theorem upsertRawRecord_products (db : Catalogue) (row : RawRecord) :
    SameProducts (db.upsertRawRecord row).2 db := by
  unfold Catalogue.upsertRawRecord
  dsimp only
  split <;> exact ⟨rfl, rfl⟩

theorem SameProducts.register {db db' : Catalogue} (h : SameProducts db db') (v : Values) (f : Time)
    (c : LoadCall) : SameProducts (db.register pg v f c).2.2 (db'.register pg v f c).2.2 := by
  have hproduct : SameProducts
      ({ db with sources := insertNew id v.source db.sources : Catalogue }.upsertProduct
        c.record.priceRefresh (v.product pg c.record f db.nextProduct)).2
      ({ db' with sources := insertNew id v.source db'.sources : Catalogue }.upsertProduct
        c.record.priceRefresh (v.product pg c.record f db'.nextProduct)).2 := by
    unfold Catalogue.upsertProduct
    dsimp only
    rw [h.products, h.nextProduct]
    split <;> exact ⟨rfl, rfl⟩
  unfold Catalogue.register
  exact ⟨(upsertRawRecord_products _ _).products.trans
      (hproduct.products.trans (upsertRawRecord_products _ _).products.symm),
    (upsertRawRecord_products _ _).nextProduct.trans
      (hproduct.nextProduct.trans (upsertRawRecord_products _ _).nextProduct.symm)⟩

/-! ## What a load does to the observations -/

/-- What a priced record does to the observations of its product. -/
inductive Verdict
  | keep
  | extend
  | insert
  deriving DecidableEq, Repr

/-- The decision of `load_record`, from the observations of the product in their order. -/
def verdict (rows : List OfferObservation) (f : Time) (t : Terms Numeric) (sha : Digest) : Verdict :=
  if rows.any fun o => o.observedAt == f && o.contextSha256 == sha then .keep
  else
    match rows.getLast? with
    | none => .insert
    | some latest =>
      if f < latest.observedAt then .keep
      else if latest.terms.unchanged t then .extend
      else .insert

theorem inserts_iff {db : Catalogue} (h : db.OffersOrdered) (r : Priced) :
    inserts pg db r = true ↔
      verdict (db.offersOf r.product) r.fetchedAt r.terms (pg.contextSha256 r.terms) = .insert := by
  unfold inserts verdict
  rw [Catalogue.latestOffer_eq_getLast? h]
  split
  · rename_i hknown
    simp [hknown]
  · rename_i hknown
    rw [Bool.not_eq_true] at hknown
    rw [hknown]
    cases (db.offersOf r.product).getLast? with
    | none => simp
    | some latest =>
      by_cases hlate : r.fetchedAt < latest.observedAt
      · simp [hlate]
      · by_cases hsame : latest.terms.unchanged r.terms = true
        · simp [hlate, hsame]
        · simp [hlate, hsame, not_lt.mp hlate]

variable {db : Catalogue} {product : Uuid} {n : ℕ} {f : Time} {t : Terms Numeric} {sha : Digest}
  {p : Record}

/-- The observation that a record becomes. -/
def newOffer (id : ℕ) (product : Uuid) (n : ℕ) (f : Time) (terms : Terms Fixed) (sha : Digest)
    (p : Record) : OfferObservation where
  id := id
  productId := product
  rawRecordId := n
  observedAt := f
  lastSeenAt := f
  terms := terms
  contextSha256 := sha
  attributes := p.raw.getD (.object "\x7b\x7d")
  contextVersion := 2

theorem insertOffer_cases (db : Catalogue) (product : Uuid) (n : ℕ) (f : Time)
    (t : Terms Numeric) (sha : Digest) (p : Record) :
    (p.admitted t = none ∧ ∃ e, db.insertOffer product n f t sha p = .error e) ∨
      ∃ terms, p.admitted t = some terms ∧ db.insertOffer product n f t sha p =
        .ok { db with
          offers := db.offers ++ [newOffer db.nextOffer product n f terms sha p]
          nextOffer := db.nextOffer + 1 } := by
  unfold Catalogue.insertOffer Record.admitted
  cases t.fixed with
  | none => exact .inl ⟨rfl, _, rfl⟩
  | some fixed =>
    dsimp only
    by_cases hcheck : (fixed.check && p.raw.all Member.isObject) = true
    · exact .inr ⟨fixed, by simp [Option.filter, hcheck], by rw [if_pos hcheck]; rfl⟩
    · exact .inl ⟨by simp [Option.filter, hcheck], _, by rw [if_neg hcheck]⟩

theorem observe_keep (h : db.OffersOrdered)
    (hv : verdict (db.offersOf product) f t sha = .keep) :
    db.observe product n f t sha p = .ok db ∨
      db.observe product n f t sha p = .ok (db.putAside product n f sha p) := by
  unfold verdict at hv
  unfold Catalogue.observe
  rw [Catalogue.latestOffer_eq_getLast? h]
  split at hv
  · rename_i hknown
    exact .inl (if_pos hknown)
  · rename_i hknown
    rw [if_neg hknown]
    cases hlast : (db.offersOf product).getLast? with
    | none => simp [hlast] at hv
    | some latest =>
      rw [hlast] at hv
      dsimp only at hv ⊢
      split at hv
      · rename_i hlate
        exact .inr (if_pos hlate)
      · split at hv <;> exact absurd hv (by simp)

theorem observe_extend (h : db.OffersOrdered)
    (hv : verdict (db.offersOf product) f t sha = .extend) :
    ∃ latest, (db.offersOf product).getLast? = some latest ∧ latest.observedAt ≤ f ∧
      db.observe product n f t sha p =
        .ok { db with offers := update (fun o => o.id == latest.id) (·.extend f) db.offers } := by
  unfold verdict at hv
  unfold Catalogue.observe
  rw [Catalogue.latestOffer_eq_getLast? h]
  split at hv
  · exact absurd hv (by simp)
  · rename_i hknown
    rw [if_neg hknown]
    cases hlast : (db.offersOf product).getLast? with
    | none => simp [hlast] at hv
    | some latest =>
      rw [hlast] at hv
      dsimp only at hv ⊢
      split at hv
      · exact absurd hv (by simp)
      · rename_i hlate
        split at hv
        · rename_i hsame
          refine ⟨latest, rfl, not_lt.mp hlate, ?_⟩
          rw [if_neg hlate, if_pos hsame]
        · exact absurd hv (by simp)

theorem observe_insert (h : db.OffersOrdered)
    (hv : verdict (db.offersOf product) f t sha = .insert) :
    db.observe product n f t sha p = db.insertOffer product n f t sha p ∧
      ∀ o ∈ db.offersOf product, o.observedAt ≤ f := by
  unfold verdict at hv
  unfold Catalogue.observe
  rw [Catalogue.latestOffer_eq_getLast? h]
  split at hv
  · exact absurd hv (by simp)
  · rename_i hknown
    rw [if_neg hknown]
    cases hlast : (db.offersOf product).getLast? with
    | none =>
      refine ⟨rfl, fun o ho => ?_⟩
      rw [List.getLast?_eq_none_iff] at hlast
      rw [hlast] at ho
      exact absurd ho List.not_mem_nil
    | some latest =>
      rw [hlast] at hv
      dsimp only at hv ⊢
      split at hv
      · exact absurd hv (by simp)
      · rename_i hlate
        split at hv
        · exact absurd hv (by simp)
        · rename_i hsame
          rw [if_neg hlate, if_neg hsame]
          refine ⟨rfl, fun o ho => ?_⟩
          obtain ⟨init, hinit⟩ := List.getLast?_eq_some_iff.mp hlast
          exact (Catalogue.observedAt_le_latest h hinit o ho).trans (not_lt.mp hlate)

end CommerceCollector.Compaction
