import CommerceCollector.Catalogue.LoadSource
import CommerceCollector.Catalogue.PriceHistory
import CommerceCollector.Foundation.LatestWins
import Mathlib.Order.OrderDual

/-!
# Loading records again

The tables that `load_record` writes, one after the other.  A product is two registers with one
stamp, `last_seen_at`: the columns that every record replaces, and those that a price refresh leaves
alone.  A raw record only widens its interval.  The price history settles a record that is known,
late, or part of the interval of the latest observation.
-/

namespace CommerceCollector

open Relational LatestWins

/-! ## Products as registers -/

/-- The columns of a product that every record replaces. -/
structure Listing where
  recordFormat : RecordFormat
  parentExternalId : Option String
  name : String
  brand : Option String
  sku : Option String
  manufacturerSku : Option String
  supplierReference : Option String
  productUrl : String
  availability : Option String
  active : Bool
  deriving DecidableEq

/-- The columns of a product that a price refresh leaves alone. -/
structure Enrichment where
  family : Option String
  description : Option String
  firingRange : Option String
  imageUrl : Option String
  attributes : Attributes
  deriving DecidableEq

namespace SourceProduct

/-- The columns that every record replaces. -/
def listing (p : SourceProduct) : Listing where
  recordFormat := p.recordFormat
  parentExternalId := p.parentExternalId
  name := p.name
  brand := p.brand
  sku := p.sku
  manufacturerSku := p.manufacturerSku
  supplierReference := p.supplierReference
  productUrl := p.productUrl
  availability := p.availability
  active := p.active

/-- The columns that a price refresh leaves alone. -/
def enrichment (p : SourceProduct) : Enrichment where
  family := p.family
  description := p.description
  firingRange := p.firingRange
  imageUrl := p.imageUrl
  attributes := p.attributes

/-- The key of the upsert. -/
def key (p : SourceProduct) : String × String := (p.sourceId, p.externalId)

/-- The first register. -/
def listed (p : SourceProduct) : Register Time Listing := ⟨p.lastSeenAt, p.listing⟩

/-- The second register. -/
def enriched (p : SourceProduct) : Register Time Enrichment := ⟨p.lastSeenAt, p.enrichment⟩

/-- `first_seen_at`, as the stamp of a register for the reverse order. -/
def firstSeen (p : SourceProduct) : Register (OrderDual Time) Unit :=
  ⟨OrderDual.toDual p.firstSeenAt, ()⟩

theorem ext_registers {p q : SourceProduct} (hid : p.id = q.id) (hkey : p.key = q.key)
    (hlisted : p.listed = q.listed) (henriched : p.enriched = q.enriched)
    (hseen : p.firstSeen = q.firstSeen) : p = q := by
  cases p
  cases q
  simp only [key, listed, enriched, firstSeen, listing, enrichment, Prod.mk.injEq, Register.mk.injEq,
    Listing.mk.injEq, Enrichment.mk.injEq, OrderDual.toDual_inj] at *
  grind

end SourceProduct

/-- What a record brings to the products. -/
structure ProductEntry where
  priceRefresh : Bool
  row : SourceProduct
  active : row.active = true

namespace ProductEntry

/-- The write of the first register. -/
def listed (e : ProductEntry) : Write Time Listing := ⟨e.row.lastSeenAt, some e.row.listing⟩

/-- The write of the second register; a price refresh has no value. -/
def enriched (e : ProductEntry) : Write Time Enrichment :=
  ⟨e.row.lastSeenAt, if e.priceRefresh = true then none else some e.row.enrichment⟩

/-- The write of `first_seen_at`. -/
def firstSeen (e : ProductEntry) : Write (OrderDual Time) Unit :=
  ⟨OrderDual.toDual e.row.firstSeenAt, some ()⟩

theorem merge_registers (e : ProductEntry) (p : SourceProduct) :
    (p.merge e.priceRefresh e.row).listed = p.listed.write e.listed ∧
      (p.merge e.priceRefresh e.row).enriched = p.enriched.write e.enriched ∧
      (p.merge e.priceRefresh e.row).firstSeen = p.firstSeen.write e.firstSeen := by
  have hactive := e.active
  refine ⟨?_, ?_, ?_⟩
  · unfold SourceProduct.listed SourceProduct.listing SourceProduct.merge Register.write listed
      SourceProduct.listing
    by_cases hle : p.lastSeenAt ≤ e.row.lastSeenAt
    · simp [hle, hactive]
    · simp [hle, (not_le.mp hle).le]
  · unfold SourceProduct.enriched SourceProduct.enrichment SourceProduct.merge Register.write enriched
      SourceProduct.enrichment
    by_cases hle : p.lastSeenAt ≤ e.row.lastSeenAt
    · cases hrefresh : e.priceRefresh <;> simp [hle, not_lt.mpr hle]
    · simp [hle, (not_le.mp hle).le, not_le.mp hle]
  · unfold SourceProduct.firstSeen SourceProduct.merge Register.write firstSeen
    by_cases hle : e.row.firstSeenAt ≤ p.firstSeenAt
    · simp [hle]
    · simp [hle, (not_le.mp hle).le]

end ProductEntry

/-- The upsert of `source_products`. -/
def productRule : MergeRule SourceProduct ProductEntry (String × String) where
  rowKey := SourceProduct.key
  key e := e.row.key
  merge e p := p.merge e.priceRefresh e.row
  make e i := { e.row with id := i }
  merge_key _ _ := rfl
  make_key _ _ := rfl

theorem productRule_self (e : ProductEntry) (i : ℕ) :
    productRule.merge e (productRule.make e i) = productRule.make e i := by
  have hactive := e.active
  simp only [productRule, SourceProduct.merge, le_refl, decide_true, ↓reduceIte, min_self, max_self,
    lt_irrefl, decide_false, Bool.or_false, ite_self]
  cases e.priceRefresh <;> simp [hactive]

theorem mergeRows_registers (p : SourceProduct) (es : List ProductEntry) :
    let own := es.filter fun e => p.key = e.row.key
    (productRule.mergeRows p es).id = p.id ∧ (productRule.mergeRows p es).key = p.key ∧
      (productRule.mergeRows p es).listed = p.listed.writes (own.map ProductEntry.listed) ∧
      (productRule.mergeRows p es).enriched = p.enriched.writes (own.map ProductEntry.enriched) ∧
      (productRule.mergeRows p es).firstSeen = p.firstSeen.writes (own.map ProductEntry.firstSeen) := by
  induction es using List.reverseRecOn with
  | nil => exact ⟨rfl, rfl, rfl, rfl, rfl⟩
  | append_singleton es e ih =>
    obtain ⟨hid, hkey, hlisted, henriched, hseen⟩ := ih
    have hconcat : productRule.mergeRows p (es ++ [e]) =
        productRule.mergeRow (productRule.mergeRows p es) e := by
      rw [MergeRule.mergeRows, List.foldl_append]
      rfl
    intro own
    by_cases hown : p.key = e.row.key
    · have hrow : productRule.mergeRow (productRule.mergeRows p es) e =
          (productRule.mergeRows p es).merge e.priceRefresh e.row := if_pos (hkey.trans hown)
      obtain ⟨hlisted', henriched', hseen'⟩ := e.merge_registers (productRule.mergeRows p es)
      have hfilter : own = (es.filter fun e => p.key = e.row.key) ++ [e] := by
        simp only [own, List.filter_append, List.filter_cons, hown, decide_true, ↓reduceIte,
          List.filter_nil]
      rw [hconcat, hrow, hfilter, List.map_append, List.map_append, List.map_append, List.map_singleton,
        List.map_singleton, List.map_singleton, writes_concat, writes_concat, writes_concat, ← hlisted,
        ← henriched, ← hseen]
      exact ⟨hid, hkey, hlisted', henriched', hseen'⟩
    · have hrow : productRule.mergeRow (productRule.mergeRows p es) e = productRule.mergeRows p es :=
        if_neg fun h => hown (hkey.symm.trans h)
      have hfilter : own = es.filter fun e => p.key = e.row.key := by
        simp only [own, List.filter_append, List.filter_cons, hown, decide_false, Bool.false_eq_true,
          ↓reduceIte, List.filter_nil, List.append_nil]
      rw [hconcat, hrow, hfilter]
      exact ⟨hid, hkey, hlisted, henriched, hseen⟩

theorem productRule_again (p : SourceProduct) (es : List ProductEntry) :
    productRule.mergeRows (productRule.mergeRows p es) es = productRule.mergeRows p es := by
  obtain ⟨hid, hkey, hlisted, henriched, hseen⟩ := mergeRows_registers p es
  obtain ⟨hid', hkey', hlisted', henriched', hseen'⟩ :=
    mergeRows_registers (productRule.mergeRows p es) es
  rw [hkey] at hlisted' henriched' hseen'
  refine SourceProduct.ext_registers hid' hkey' ?_ ?_ ?_
  · rw [hlisted', hlisted, writes_writes]
  · rw [henriched', henriched, writes_writes]
  · rw [hseen', hseen, writes_writes]

/-! ## What a load does -/

/-- What is read of a call: its values and the moment at which the record was fetched. -/
def Postgres.values (pg : Postgres) (c : LoadCall) : Option (Values × Time) :=
  match pg.read c.stockTrendsEnabled c.record with
  | .error _ => none
  | .ok v => v.fetchedAt.map (v, ·)

/-- What a call brings to the products. -/
def Values.entry (pg : Postgres) (v : Values) (f : Time) (c : LoadCall) : ProductEntry where
  priceRefresh := c.record.priceRefresh
  row := v.product pg c.record f 0
  active := rfl

/-- The raw record of a call. -/
def Postgres.rawRow (pg : Postgres) (f : Time) (c : LoadCall) (product : Uuid) (id : ℕ) : RawRecord where
  id := id
  productId := product
  documentId := c.documentId
  importRunId := c.importRunId
  fetchedAt := f
  firstSeenAt := f
  lastSeenAt := f
  recordSha256 := pg.recordSha256 { c.record with fetchedAt := none }
  record := c.record

namespace Catalogue

variable {pg : Postgres} {db db' : Catalogue} {c : LoadCall} {product : Uuid}

/-- The products, as a table. -/
def productTable (db : Catalogue) : Table SourceProduct := ⟨db.products, db.nextProduct⟩

theorem upsertProduct_table (db : Catalogue) (pg : Postgres) (v : Values) (f : Time) (c : LoadCall) :
    (db.upsertProduct c.record.priceRefresh (v.product pg c.record f db.nextProduct)).2.productTable =
      productRule.mergeOne db.productTable (v.entry pg f c) := by
  have hsame : ∀ q : SourceProduct, (q.sourceId == v.source && q.externalId == v.externalId) = true ↔
      productRule.rowKey q = productRule.key (v.entry pg f c) := by
    intro q
    simp [productRule, SourceProduct.key, Values.entry, Values.product, Bool.and_eq_true]
  unfold upsertProduct MergeRule.mergeOne
  cases hfind : db.products.find? fun q => q.sourceId == v.source && q.externalId == v.externalId with
  | none =>
    have hnone : ¬∃ p ∈ db.productTable.rows, productRule.rowKey p =
        productRule.key (v.entry pg f c) := by
      rintro ⟨p, hp, hkey⟩
      exact List.find?_eq_none.mp hfind p hp ((hsame p).mpr hkey)
    rw [if_neg hnone]
    simp only [Values.product, hfind]
    rfl
  | some old =>
    obtain ⟨hold, hkey⟩ := mem_of_find? hfind
    have hsome : ∃ p ∈ db.productTable.rows, productRule.rowKey p =
        productRule.key (v.entry pg f c) := ⟨old, hold, (hsame old).mp hkey⟩
    rw [if_pos hsome]
    simp only [Values.product, hfind]
    refine congrArg (Table.mk · db.nextProduct) (List.map_congr_left fun q _ => ?_)
    unfold MergeRule.mergeRow
    by_cases hq : (q.sourceId == v.source && q.externalId == v.externalId) = true
    · rw [if_pos hq, if_pos ((hsame q).mp hq)]
      rfl
    · rw [if_neg hq, if_neg fun h => hq ((hsame q).mpr h)]

theorem register_products (db : Catalogue) (pg : Postgres) (v : Values) (f : Time) (c : LoadCall) :
    (db.register pg v f c).2.2.productTable =
      productRule.mergeOne db.productTable (v.entry pg f c) := by
  have hraw : ∀ (db : Catalogue) (row : RawRecord),
      (db.upsertRawRecord row).2.productTable = db.productTable := by
    intro db row
    unfold upsertRawRecord
    dsimp only
    split <;> rfl
  unfold register
  exact (hraw _ _).trans
    (upsertProduct_table { db with sources := insertNew id v.source db.sources } pg v f c)

theorem upsertRawRecord_congr (h : db.rawRecords = db'.rawRecords) (row : RawRecord) :
    (db.upsertRawRecord row).2.rawRecords = (db'.upsertRawRecord row).2.rawRecords := by
  unfold upsertRawRecord
  rw [h]
  dsimp only
  split
  · rfl
  · rfl

theorem register_rawRecords (db : Catalogue) (pg : Postgres) (v : Values) (f : Time) (c : LoadCall) :
    (db.register pg v f c).2.2.rawRecords =
      (db.upsertRawRecord (pg.rawRow f c (db.productOf v) db.nextRawRecord)).2.rawRecords := by
  have hraw : ∀ (db : Catalogue) (b : Bool) (row : SourceProduct),
      (db.upsertProduct b row).2.rawRecords = db.rawRecords ∧
        (db.upsertProduct b row).2.nextRawRecord = db.nextRawRecord := by
    intro db b row
    unfold upsertProduct
    dsimp only
    split <;> exact ⟨rfl, rfl⟩
  obtain ⟨hrows, hnext⟩ := hraw { db with sources := insertNew id v.source db.sources }
    c.record.priceRefresh (v.product pg c.record f db.nextProduct)
  have hrows : _ = db.rawRecords := hrows
  have hnext : _ = db.nextRawRecord := hnext
  have hid : (db.register pg v f c).1 = db.productOf v := db.register_product v f c
  rw [← hid, ← hnext]
  exact upsertRawRecord_congr hrows _

/-! ## The ids of the products -/

/-- There is a product of a record. -/
def HasProduct (db : Catalogue) (v : Values) : Prop :=
  ∃ p ∈ db.products, p.key = (v.source, v.externalId)

theorem key_mergeRow (p : SourceProduct) (e : ProductEntry) :
    (productRule.mergeRow p e).key = p.key :=
  show productRule.rowKey (productRule.mergeRow p e) = productRule.rowKey p from
    MergeRule.rowKey_mergeRow p e

/-- The product of a record keeps its id, if it is there or the entry is of the record. -/
theorem productOf_mergeOne {e : ProductEntry} {v : Values}
    (h : db'.productTable = productRule.mergeOne db.productTable e)
    (hv : db.HasProduct v ∨ e.row.key = (v.source, v.externalId)) :
    db'.productOf v = db.productOf v ∧ db'.HasProduct v := by
  have hkey : ∀ p : SourceProduct, (p.sourceId == v.source && p.externalId == v.externalId) = true ↔
      p.key = (v.source, v.externalId) := by
    intro p
    simp [SourceProduct.key]
  have hproducts : db'.products = (productRule.mergeOne db.productTable e).rows :=
    congrArg Table.rows h
  unfold productOf
  rw [hproducts]
  unfold HasProduct MergeRule.mergeOne at *
  rw [hproducts]
  by_cases hfound : ∃ p ∈ db.productTable.rows, productRule.rowKey p = productRule.key e
  · rw [if_pos hfound]
    have hpresent : ∃ p ∈ db.products, p.key = (v.source, v.externalId) := by
      rcases hv with hv | hv
      · exact hv
      · obtain ⟨p, hp, hpe⟩ := hfound
        exact ⟨p, hp, hpe.trans hv⟩
    constructor
    · have hsame : ((fun q : SourceProduct => q.sourceId == v.source && q.externalId == v.externalId) ∘
          fun p => productRule.mergeRow p e) =
          fun q => q.sourceId == v.source && q.externalId == v.externalId := by
        funext p
        rw [Function.comp_apply, Bool.eq_iff_iff, hkey, hkey, key_mergeRow]
      simp only [productTable, List.find?_map, hsame]
      cases hfind : db.products.find? fun q => q.sourceId == v.source && q.externalId == v.externalId with
      | none =>
        obtain ⟨p, hp, hpv⟩ := hpresent
        exact absurd ((hkey p).mpr hpv) (List.find?_eq_none.mp hfind p hp)
      | some p =>
        simp only [Option.map_some, MergeRule.mergeRow]
        split <;> rfl
    · obtain ⟨p, hp, hpv⟩ := hpresent
      exact ⟨_, List.mem_map_of_mem hp, (key_mergeRow p e).trans hpv⟩
  · rw [if_neg hfound]
    constructor
    · simp only [productTable, List.find?_append]
      cases hfind : db.products.find? fun q => q.sourceId == v.source && q.externalId == v.externalId with
      | some p => rfl
      | none =>
        have hv : e.row.key = (v.source, v.externalId) := by
          refine hv.resolve_left ?_
          rintro ⟨p, hp, hpv⟩
          exact List.find?_eq_none.mp hfind p hp ((hkey p).mpr hpv)
        have hmade : (productRule.make e db.nextProduct).key = (v.source, v.externalId) := hv
        rw [Option.none_or, List.find?_singleton, if_pos ((hkey _).mpr hmade)]
        rfl
    · rcases hv with ⟨p, hp, hpv⟩ | hv
      · exact ⟨p, List.mem_append_left _ hp, hpv⟩
      · exact ⟨_, List.mem_append_right _ (List.mem_singleton_self _), hv⟩

/-! ## Raw records -/

end Catalogue

/-- The key of the upsert. -/
def RawRecord.key (q : RawRecord) : Uuid × Digest := (q.productId, q.recordSha256)

theorem RawRecord.merge_merge (q r : RawRecord) : (q.merge r).merge r = q.merge r := by
  unfold merge
  simp only [Option.or_assoc, Option.or_self, min_assoc, min_self, max_assoc, max_self]

/-- A row that changes nothing changes nothing after another one was merged. -/
theorem RawRecord.merge_keep {q r : RawRecord} (h : q.merge r = q) (r' : RawRecord) :
    (q.merge r').merge r = q.merge r' := by
  have hdocument : q.documentId.or r.documentId = q.documentId := congrArg documentId h
  have hrun : q.importRunId.or r.importRunId = q.importRunId := congrArg importRunId h
  have hfirst : min q.firstSeenAt r.firstSeenAt = q.firstSeenAt := congrArg firstSeenAt h
  have hlast : max q.lastSeenAt r.lastSeenAt = q.lastSeenAt := congrArg lastSeenAt h
  have hor : ∀ a b b' : Option Uuid, a.or b = a → (a.or b').or b = a.or b' := by
    intro a b b' hab
    cases a with
    | none =>
      rw [Option.none_or] at hab
      rw [hab, Option.or_none]
    | some a => rfl
  unfold merge
  simp only [hor _ _ _ hdocument, hor _ _ _ hrun, min_right_comm _ r'.firstSeenAt,
    max_right_comm _ r'.lastSeenAt, hfirst, hlast]

/-- The raw records hold a row: one of its key is there, and to be merged it changes nothing. -/
def HoldsRaw (rows : List RawRecord) (r : RawRecord) : Prop :=
  (∃ q ∈ rows, q.key = r.key) ∧ ∀ q ∈ rows, q.key = r.key → q.merge r = q

namespace Catalogue

variable {pg : Postgres} {db db' : Catalogue} {c : LoadCall} {product : Uuid}

theorem holdsRaw_upsert (db : Catalogue) (row : RawRecord) :
    HoldsRaw (db.upsertRawRecord row).2.rawRecords row ∧ ∀ r, HoldsRaw db.rawRecords r →
      HoldsRaw (db.upsertRawRecord row).2.rawRecords r := by
  have hkey : ∀ q : RawRecord, (q.productId == row.productId && q.recordSha256 == row.recordSha256) =
      true ↔ q.key = row.key := by
    intro q
    simp [RawRecord.key]
  unfold upsertRawRecord
  dsimp only
  split
  · rename_i old hfind
    obtain ⟨hold, hsame⟩ := mem_of_find? hfind
    have hmem : ∀ q' ∈ update (fun q => q.productId == row.productId &&
        q.recordSha256 == row.recordSha256) (·.merge row) db.rawRecords, ∃ q ∈ db.rawRecords,
        q'.key = q.key ∧ (q' = q ∧ q.key ≠ row.key ∨ q' = q.merge row) := by
      intro q' hq'
      obtain ⟨q, hq, rfl⟩ := mem_update.mp hq'
      refine ⟨q, hq, ?_⟩
      split
      · exact ⟨rfl, .inr rfl⟩
      · rename_i hne
        exact ⟨rfl, .inl ⟨rfl, fun h => hne ((hkey q).mpr h)⟩⟩
    refine ⟨⟨⟨_, mem_update_of_pos hold hsame, (hkey old).mp hsame⟩, fun q' hq' hq'key => ?_⟩,
      fun r hr => ⟨?_, fun q' hq' hq'key => ?_⟩⟩
    · obtain ⟨q, -, hsamekey, ⟨rfl, hne⟩ | rfl⟩ := hmem q' hq'
      · exact absurd hq'key hne
      · exact q.merge_merge row
    · obtain ⟨q, hq, hqr⟩ := hr.1
      by_cases hrow : (q.productId == row.productId && q.recordSha256 == row.recordSha256) = true
      · exact ⟨_, mem_update_of_pos hq hrow, hqr⟩
      · exact ⟨q, mem_update_of_neg hq (Bool.eq_false_iff.mpr hrow), hqr⟩
    · obtain ⟨q, hq, hsamekey, ⟨rfl, -⟩ | rfl⟩ := hmem q' hq'
      · exact hr.2 q' hq hq'key
      · exact RawRecord.merge_keep (hr.2 q hq (hsamekey.symm.trans hq'key)) row
  · rename_i hfind
    have hnew : ∀ q ∈ db.rawRecords, q.key ≠ row.key := fun q hq h =>
      List.find?_eq_none.mp hfind q hq ((hkey q).mpr h)
    have hself : row.merge row = row := by
      unfold RawRecord.merge
      simp only [Option.or_self, min_self, max_self]
    refine ⟨⟨⟨row, List.mem_append_right _ (List.mem_singleton_self row), rfl⟩, fun q hq hqkey => ?_⟩,
      fun r hr => ⟨?_, fun q hq hqkey => ?_⟩⟩
    · rcases List.mem_append.mp hq with hq | hq
      · exact absurd hqkey (hnew q hq)
      · rw [List.mem_singleton.mp hq, hself]
    · obtain ⟨q, hq, hqr⟩ := hr.1
      exact ⟨q, List.mem_append_left _ hq, hqr⟩
    · rcases List.mem_append.mp hq with hq | hq
      · exact hr.2 q hq hqkey
      · obtain ⟨q', hq', hq'key⟩ := hr.1
        obtain rfl := List.mem_singleton.mp hq
        exact absurd (hq'key.trans hqkey.symm) (hnew q' hq')

theorem upsertRawRecord_of_holds {row : RawRecord} (h : HoldsRaw db.rawRecords row) :
    (db.upsertRawRecord row).2.rawRecords = db.rawRecords := by
  unfold upsertRawRecord
  dsimp only
  split
  · refine (List.map_congr_left fun q hq => ?_).trans (List.map_id _)
    split
    · rename_i hsame
      rw [Bool.and_eq_true, beq_iff_eq, beq_iff_eq] at hsame
      exact h.2 q hq (Prod.ext hsame.1 hsame.2)
    · rfl
  · rename_i hfind
    obtain ⟨q, hq, hqkey⟩ := h.1
    refine absurd ?_ (List.find?_eq_none.mp hfind q hq)
    rw [Bool.and_eq_true, beq_iff_eq, beq_iff_eq]
    exact ⟨congrArg Prod.fst hqkey, congrArg Prod.snd hqkey⟩

/-- **What a load does**: it registers the record, and a record with a price moves the history. -/
theorem loadRecord_cases (h : loadRecord pg db c = .ok (product, db')) :
    ∃ v f, pg.values c = some (v, f) ∧
      ((v.offer = .ok none ∧ db' = (db.register pg v f c).2.2) ∨
        ∃ t, v.offer = .ok (some t) ∧ (db.register pg v f c).2.2.observe (db.register pg v f c).1
          (db.register pg v f c).2.1 f t (pg.contextSha256 t) c.record = .ok db') := by
  unfold loadRecord at h
  obtain ⟨v, hread, h⟩ := Transaction.bind_eq_ok.mp h
  cases hfetched : v.fetchedAt with
  | none =>
    rw [hfetched] at h
    cases h
  | some f =>
    rw [hfetched] at h
    have hvalues : pg.values c = some (v, f) := by
      rw [Postgres.values, hread]
      simp only [hfetched, Option.map_some]
    refine ⟨v, f, hvalues, ?_⟩
    obtain ⟨offer, hoffer, h⟩ := Transaction.bind_eq_ok.mp h
    cases offer with
    | none =>
      obtain ⟨-, rfl⟩ := Prod.mk.inj (Except.ok.inj h)
      exact .inl ⟨hoffer, rfl⟩
    | some t =>
      obtain ⟨db'', hobserve, h⟩ := Transaction.bind_eq_ok.mp h
      obtain ⟨-, rfl⟩ := Prod.mk.inj (Except.ok.inj h)
      exact .inr ⟨t, hoffer, hobserve⟩

end Catalogue

end CommerceCollector
