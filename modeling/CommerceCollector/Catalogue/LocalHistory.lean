import CommerceCollector.Foundation.Changes
import CommerceCollector.Foundation.Json

/-!
# The local price history

`persist_history` of `storage/history.py`: batches of records are appended to a SQLite file, in one
transaction each.  An observation is inserted unless its product has one with the same fingerprint,
which is the digest of the price context of the record.  The digest is a parameter.

So an observation is suppressed if its context occurred before, however many others came in between;
a price that returns to an earlier value is not stored again.
-/

namespace CommerceCollector

open JsonText

/-- What the history reads of a record; a missing value is `null`.  The package and the unit price
are given by their values and units, which are `null` if there is none. -/
structure HistoryRecord where
  externalId : String
  fetchedAt : String
  /-- The columns of the product that a record sets. -/
  identity : List Value := []
  price : Value
  currency : Value := .null
  priceText : Value := .null
  vatStatus : Value := .null
  packageValue : Value := .null
  packageUnit : Value := .null
  unitPriceValue : Value := .null
  unitPricePer : Value := .null
  raw : Value := .null

/-- A row of `catalogue_source_products`. -/
structure HistoryProduct where
  id : ℕ
  source : String
  externalId : String
  identity : List Value
  firstSeenAt : String
  lastSeenAt : String

/-- A row of `catalogue_price_observations`; its other columns are values of the record. -/
structure HistoryObservation where
  productId : ℕ
  record : HistoryRecord
  fingerprint : String

/-- The file. -/
structure LocalHistory where
  products : List HistoryProduct := []
  observations : List HistoryObservation := []

/-- What `persist_history` returns. -/
structure HistoryCounts where
  newProducts : ℕ := 0
  newPriceObservations : ℕ := 0
  deriving DecidableEq, Repr

/-- A batch: the records of each source. -/
abbrev HistoryBatch := List (String × List HistoryRecord)

/-- The records of a batch with their sources. -/
def recordsOf (results : HistoryBatch) : List (String × HistoryRecord) :=
  results.flatMap fun result => result.2.map fun record => (result.1, record)

/-- The price context of a record. -/
def priceContext (record : HistoryRecord) : Value :=
  .object [("price", record.price), ("currency", record.currency), ("vat_status", record.vatStatus),
    ("quantity", record.packageValue), ("unit", record.packageUnit)]

section

variable (digest : List Char → String)

/-- `price_fingerprint`. -/
def priceFingerprint (record : HistoryRecord) : String := digest (dumpsSorted (priceContext record))

namespace LocalHistory

/-- The row that is inserted for a product. -/
def newProduct (id : ℕ) (source : String) (record : HistoryRecord) : HistoryProduct where
  id
  source
  externalId := record.externalId
  identity := record.identity
  firstSeenAt := record.fetchedAt
  lastSeenAt := record.fetchedAt

/-- The product of a record: its row is updated, or inserted. -/
def upsertProduct (db : LocalHistory) (source : String) (record : HistoryRecord) :
    LocalHistory × ℕ × ℕ :=
  match db.products.find? fun row => row.source = source ∧ row.externalId = record.externalId with
  | some found =>
    ({ db with products := db.products.map fun row =>
        if row.id = found.id then
          { row with identity := record.identity, lastSeenAt := record.fetchedAt }
        else row }, found.id, 0)
  | none =>
    let id := db.products.length + 1
    ({ db with products := db.products ++ [newProduct id source record] }, id, 1)

/-- `insert or ignore` of an observation. -/
def insertObservation (db : LocalHistory) (productId : ℕ) (record : HistoryRecord) :
    LocalHistory × ℕ :=
  let fingerprint := priceFingerprint digest record
  if db.observations.any fun row => row.productId = productId ∧ row.fingerprint = fingerprint then
    (db, 0)
  else
    ({ db with observations := db.observations ++ [{ productId, record, fingerprint }] }, 1)

/-- One record of a source. -/
def persistRecord (db : LocalHistory) (source : String) (record : HistoryRecord) :
    LocalHistory × HistoryCounts :=
  let (db, productId, products) := db.upsertProduct source record
  match record.price with
  | .null => (db, { newProducts := products })
  | _ =>
    let (db, inserted) := db.insertObservation digest productId record
    (db, { newProducts := products, newPriceObservations := inserted })

/-- The records of a batch, one after the other. -/
def persistRecords (db : LocalHistory) : List (String × HistoryRecord) → LocalHistory × HistoryCounts
  | [] => (db, {})
  | (source, record) :: rest =>
    let (db, counts) := db.persistRecord digest source record
    let (db, others) := db.persistRecords rest
    (db, { newProducts := counts.newProducts + others.newProducts
           newPriceObservations := counts.newPriceObservations + others.newPriceObservations })

/-- The records of a batch with their sources. -/
def _root.CommerceCollector.recordsOf (results : HistoryBatch) : List (String × HistoryRecord) :=
  results.flatMap fun result => result.2.map fun record => (result.1, record)

/-- `persist_history`. -/
def persistHistory (db : LocalHistory) (results : HistoryBatch) : LocalHistory × HistoryCounts :=
  db.persistRecords digest (recordsOf results)

/-- The file after some batches. -/
def afterBatches (batches : List HistoryBatch) : LocalHistory :=
  batches.foldl (fun db results => (db.persistHistory digest results).1) {}

end LocalHistory

end

end CommerceCollector
