import CommerceCollector.Ops.Schema
import Mathlib.Algebra.Order.Ring.Nat
import Mathlib.Data.Int.Order.Basic
import Mathlib.Data.List.MinMax
import Mathlib.Data.Prod.Lex
import Mathlib.Tactic.Ring

/-!
# Loading a record into the catalogue

`catalogue.load_record`, in the version of `catalogue-offer-stock-trends-v1.sql`, over the tables
`sources`, `source_products`, `raw_records`, `offer_observations` and `out_of_order_observations`.
The function reads a record, writes the product and the raw record, and moves the price history of
the product: a new context is a new observation, an unchanged one extends the latest observation,
and a record from before the latest observation is put aside.

A call that raises leaves the tables as they were.  The record is the JSON object with its members
as `->>` returns them.  What the database computes on text (trimming, case, casts) and the two
digests are the functions of `Postgres`.  The generated facet columns, which nothing here reads, are
left out.
-/

namespace CommerceCollector

open Relational

/-! ## Numbers -/

/-- A `numeric` value: a decimal with its scale, or a special value. -/
inductive Numeric
  | decimal (unscaled : ℤ) (scale : ℕ)
  | infinity (negative : Bool)
  | nan
  deriving DecidableEq, Repr

/-- A value of a `numeric(18,6)` column, in millionths. -/
inductive Fixed
  | micros (n : ℤ) (bounded : n.natAbs < 10 ^ 18)
  | nan
  deriving DecidableEq, Repr

/-- The decimal in millionths, rounded half away from zero. -/
def roundMicros (unscaled : ℤ) (scale : ℕ) : ℤ :=
  unscaled.sign * ((2 * unscaled.natAbs * 10 ^ 6 + 10 ^ scale) / (2 * 10 ^ scale) : ℕ)

/-- The assignment to a `numeric(18,6)` column; `none` is a field overflow. -/
def Numeric.fixed : Numeric → Option Fixed
  | .decimal u s =>
    if h : (roundMicros u s).natAbs < 10 ^ 18 then some (.micros (roundMicros u s) h) else none
  | .infinity _ => none
  | .nan => some .nan

/-- `=` between a column and a value. -/
def Fixed.same : Fixed → Numeric → Bool
  | .micros n _, .decimal u s => n * 10 ^ s == u * 10 ^ 6
  | .nan, .nan => true
  | _, _ => false

/-- `is not distinct from`. -/
def Fixed.sameOption : Option Fixed → Option Numeric → Bool
  | none, none => true
  | some f, some v => f.same v
  | _, _ => false

/-- The assignment of a nullable value. -/
def Numeric.fixedOption : Option Numeric → Option (Option Fixed)
  | none => some none
  | some v => v.fixed.map some

theorem sign_mul_pow_ten (n : ℤ) (s : ℕ) : (n * 10 ^ s).sign = n.sign := by
  have hpow : (0 : ℤ) < 10 ^ s := Int.pow_pos (by decide)
  rw [Int.sign_mul, Int.sign_eq_one_of_pos hpow, mul_one]

theorem roundMicros_eq {n u : ℤ} {s : ℕ} (h : n * 10 ^ s = u * 10 ^ 6) : roundMicros u s = n := by
  have hpow : 0 < 10 ^ s := Nat.pow_pos (by decide)
  have habs : u.natAbs * 10 ^ 6 = n.natAbs * 10 ^ s := by
    have := congrArg Int.natAbs h
    simp only [Int.natAbs_mul, Int.natAbs_pow] at this
    exact this.symm
  have hdiv : (2 * u.natAbs * 10 ^ 6 + 10 ^ s) / (2 * 10 ^ s) = n.natAbs := by
    rw [mul_assoc, habs]
    have hsplit : 2 * (n.natAbs * 10 ^ s) + 10 ^ s = 10 ^ s + 2 * 10 ^ s * n.natAbs := by ring
    rw [hsplit, Nat.add_mul_div_left _ _ (by omega), Nat.div_eq_of_lt (by omega), Nat.zero_add]
  have hsign : u.sign = n.sign := by
    rw [← sign_mul_pow_ten u 6, ← h, sign_mul_pow_ten]
  rw [roundMicros, hdiv, hsign]
  exact Int.sign_mul_natAbs n

theorem Fixed.fixed_of_same {f : Fixed} {v : Numeric} (h : f.same v = true) : v.fixed = some f := by
  cases f with
  | micros n hn =>
    cases v with
    | decimal u s =>
      have hround := roundMicros_eq (beq_iff_eq.mp h)
      simp only [Numeric.fixed, hround]
      exact dif_pos hn
    | infinity b => exact absurd h (by simp [same])
    | nan => exact absurd h (by simp [same])
  | nan =>
    cases v with
    | nan => rfl
    | _ => exact absurd h (by simp [same])

/-- A nullable value not distinct from a column is stored as that column. -/
theorem Fixed.fixedOption_of_same {f : Option Fixed} {v : Option Numeric}
    (h : sameOption f v = true) : Numeric.fixedOption v = some f := by
  cases f with
  | none =>
    cases v with
    | none => rfl
    | some v => exact absurd h (by simp [sameOption])
  | some f =>
    cases v with
    | none => exact absurd h (by simp [sameOption])
    | some v => simp [Numeric.fixedOption, fixed_of_same h]

/-! ## The context of an offer -/

/-- `offer_observations_vat_status_check`. -/
inductive VatStatus
  | inclusive | exclusive | unknown
  deriving DecidableEq, Repr

/-- `offer_observations_stock_quantity_kind_check`. -/
inductive StockKind
  | exact | lowerBound | upperBound | orderLimit | unknown
  deriving DecidableEq, Repr

/-- The text of a kind. -/
def StockKind.text : StockKind → String
  | .exact => "exact"
  | .lowerBound => "lower_bound"
  | .upperBound => "upper_bound"
  | .orderLimit => "order_limit"
  | .unknown => "unknown"

/-- The kind with a text. -/
def StockKind.ofText (text : String) : Option StockKind :=
  [.exact, .lowerBound, .upperBound, .orderLimit, .unknown].find? fun k => k.text == text

/-- The context of an offer, over the numbers of a record or of a row. -/
structure Terms (ν : Type) where
  price : ν
  currency : String
  priceText : Option String := none
  vatStatus : Option VatStatus := none
  quantity : Option ν := none
  unit : Option String := none
  unitPrice : Option ν := none
  unitPricePer : Option String := none
  availability : Option String := none
  stockQuantity : Option ℤ := none
  stockQuantityKind : StockKind := .unknown
  deriving DecidableEq, Repr

namespace Terms

/-- The context as the columns hold it. -/
def fixed (t : Terms Numeric) : Option (Terms Fixed) :=
  t.price.fixed.bind fun price =>
    (Numeric.fixedOption t.quantity).bind fun quantity =>
      (Numeric.fixedOption t.unitPrice).map fun unitPrice =>
        { price, currency := t.currency, priceText := t.priceText, vatStatus := t.vatStatus,
          quantity, unit := t.unit, unitPrice, unitPricePer := t.unitPricePer,
          availability := t.availability, stockQuantity := t.stockQuantity,
          stockQuantityKind := t.stockQuantityKind }

/-- Every column of the row `is not distinct from` the value of the record. -/
def unchanged (o : Terms Fixed) (t : Terms Numeric) : Bool :=
  o.price.same t.price && o.currency == t.currency && o.priceText == t.priceText &&
    o.vatStatus == t.vatStatus && Fixed.sameOption o.quantity t.quantity && o.unit == t.unit &&
    Fixed.sameOption o.unitPrice t.unitPrice && o.unitPricePer == t.unitPricePer &&
    o.availability == t.availability && o.stockQuantity == t.stockQuantity &&
    o.stockQuantityKind == t.stockQuantityKind

theorem fixed_of_unchanged {o : Terms Fixed} {t : Terms Numeric} (h : o.unchanged t = true) :
    t.fixed = some o := by
  simp only [unchanged, Bool.and_eq_true, beq_iff_eq] at h
  obtain ⟨⟨⟨⟨⟨⟨⟨⟨⟨⟨hprice, hcurrency⟩, htext⟩, hvat⟩, hquantity⟩, hunit⟩, hunitPrice⟩, hper⟩,
    havailability⟩, hstock⟩, hkind⟩ := h
  simp only [fixed, Fixed.fixed_of_same hprice, Fixed.fixedOption_of_same hquantity,
    Fixed.fixedOption_of_same hunitPrice, Option.bind_some, Option.map_some, ← hcurrency, ← htext,
    ← hvat, ← hunit, ← hper, ← havailability, ← hstock, ← hkind]

/-- `currency ~ '^[A-Z]{3}$'`. -/
def currencyCheck (currency : String) : Bool :=
  currency.length == 3 && currency.toList.all fun c => decide ('A' ≤ c ∧ c ≤ 'Z')

/-- `>= 0` on a column. -/
def nonnegative : Fixed → Bool
  | .micros n _ => decide (0 ≤ n)
  | .nan => true

/-- `> 0` on a column. -/
def positive : Fixed → Bool
  | .micros n _ => decide (0 < n)
  | .nan => true

/-- The check constraints of `offer_observations` on the context. -/
def check (o : Terms Fixed) : Bool :=
  (o.quantity.isNone == o.unit.isNone) && currencyCheck o.currency && nonnegative o.price &&
    o.quantity.all positive && o.unitPricePer.all (["l", "kg"].contains ·) &&
    o.stockQuantity.all (fun n => decide (0 ≤ n)) &&
    (o.stockQuantity.isNone == (o.stockQuantityKind == .unknown))

end Terms

/-! ## The record -/

/-- `record_format`. -/
inductive RecordFormat
  | itemV1 | identityV1 | itemV2 | identityV2
  deriving DecidableEq, Repr

/-- The text of a format. -/
def RecordFormat.text : RecordFormat → String
  | .itemV1 => "ceramics.catalogue_item.v1"
  | .identityV1 => "ceramics.catalogue_identity.v1"
  | .itemV2 => "ceramics.catalogue_item.v2"
  | .identityV2 => "ceramics.catalogue_identity.v2"

/-- The format with a text. -/
def RecordFormat.ofText (text : String) : Option RecordFormat :=
  [.itemV1, .identityV1, .itemV2, .identityV2].find? fun f => f.text == text

/-- `v_format like '%.v2'`. -/
def RecordFormat.isV2 : RecordFormat → Bool
  | .itemV2 | .identityV2 => true
  | .itemV1 | .identityV1 => false

/-- `package_size`, if it is an object. -/
structure PackageSize where
  value : Option String := none
  unit : Option String := none
  deriving DecidableEq, Repr

/-- `firing`, if it is an object. -/
structure Firing where
  evidence : Option String := none
  minCelsius : Option String := none
  maxCelsius : Option String := none
  deriving DecidableEq, Repr

/-- `unit_price`, if it is an object. -/
structure UnitPrice where
  value : Option String := none
  per : Option String := none
  deriving DecidableEq, Repr

/-- A JSON member that is kept as it is. -/
inductive Member
  | object (text : String)
  | other (text : String)
  deriving DecidableEq, Repr

/-- `jsonb_typeof(…) = 'object'`. -/
def Member.isObject : Member → Bool
  | .object _ => true
  | .other _ => false

/-- The members of a record that stay in `attributes`. -/
structure Attributes where
  packageSize : Option PackageSize := none
  firing : Option Firing := none
  unitPrice : Option UnitPrice := none
  collectionMode : Option String := none
  stockQuantity : Option String := none
  stockQuantityKind : Option String := none
  /-- The members that `load_record` does not read. -/
  others : List (String × String) := []
  deriving DecidableEq, Repr

/-- `p_record`. -/
structure Record where
  format : Option String := none
  source : Option String := none
  externalId : Option String := none
  parentExternalId : Option String := none
  name : Option String := none
  brand : Option String := none
  sku : Option String := none
  manufacturerSku : Option String := none
  supplierReference : Option String := none
  family : Option String := none
  description : Option String := none
  firingRange : Option String := none
  productUrl : Option String := none
  imageUrl : Option String := none
  availability : Option String := none
  price : Option String := none
  currency : Option String := none
  priceText : Option String := none
  vatStatus : Option String := none
  quantity : Option String := none
  unit : Option String := none
  fetchedAt : Option String := none
  raw : Option Member := none
  attributes : Attributes := {}
  deriving DecidableEq, Repr

/-- What the database computes on text, and the digests of the two JSON texts. -/
structure Postgres where
  btrim : String → String
  lower : String → String
  upper : String → String
  numeric : String → Option Numeric
  bigint : String → Option ℤ
  timestamptz : String → Option Time
  /-- The digest of `jsonb_build_object('price', v_price, …)::text`. -/
  contextSha256 : Terms Numeric → Digest
  /-- The digest of a record as text. -/
  recordSha256 : Record → Digest

/-- What `load_record` raises. -/
inductive LoadError
  | missingRequiredIdentity
  | unsupportedRecordFormat (format : String)
  | unsupportedStockQuantityKind (kind : String)
  | stockQuantityRequiredForKind (kind : String)
  | pricedRecordRequiresCurrency
  | quantityAndUnitMustBePaired
  /-- A cast of a text that the type does not admit. -/
  | invalidText (type text : String)
  /-- A constraint of a table. -/
  | constraint (name : String)
  deriving DecidableEq, Repr

/-- The message of an exception that the function raises itself. -/
def LoadError.message : LoadError → String
  | .missingRequiredIdentity => "catalogue_record_missing_required_identity"
  | .unsupportedRecordFormat format => "unsupported_catalogue_record_format: " ++ format
  | .unsupportedStockQuantityKind kind => "unsupported_stock_quantity_kind: " ++ kind
  | .stockQuantityRequiredForKind kind => "stock_quantity_required_for_kind: " ++ kind
  | .pricedRecordRequiresCurrency => "priced_catalogue_record_requires_currency"
  | .quantityAndUnitMustBePaired => "catalogue_quantity_and_unit_must_be_paired"
  | .invalidText type text => "invalid input syntax for type " ++ type ++ ": " ++ text
  | .constraint name => name

/-- The variables of `load_record` after the record is read. -/
structure Values where
  source : String
  externalId : String
  format : RecordFormat
  name : String
  productUrl : String
  fetchedAt : Option Time
  price : Option Numeric
  currency : Option String
  priceText : Option String
  vatStatus : Option VatStatus
  availability : Option String
  unitPrice : Option Numeric
  unitPricePer : Option String
  stockQuantity : Option ℤ
  stockQuantityKind : StockKind
  quantity : Option Numeric
  unit : Option String
  sku : Option String
  firingRange : Option String
  deriving DecidableEq, Repr

namespace Postgres

variable (pg : Postgres)

/-- `nullif(btrim(…), '')`. -/
def text (t : Option String) : Option String :=
  (t.map pg.btrim).filter fun t => t != ""

/-- A member that must not be blank. -/
def required (t : Option String) : Except LoadError String :=
  match t with
  | none => .error .missingRequiredIdentity
  | some t => if pg.btrim t = "" then .error .missingRequiredIdentity else .ok t

/-- `nullif(…, '')` and a cast. -/
def cast {α : Type} (type : String) (parse : String → Option α) (t : Option String) :
    Except LoadError (Option α) :=
  match t.filter fun t => t != "" with
  | none => .ok none
  | some t =>
    match parse t with
    | none => .error (.invalidText type t)
    | some v => .ok (some v)

/-- `(p_record->>'fetched_at')::timestamptz`. -/
def fetchedAt (p : Record) : Except LoadError (Option Time) :=
  match p.fetchedAt with
  | none => .ok none
  | some t =>
    match pg.timestamptz t with
    | none => .error (.invalidText "timestamp with time zone" t)
    | some v => .ok (some v)

/-- `v_vat_status`: any other text is `unknown`. -/
def vatStatus (p : Record) : Option VatStatus :=
  ((pg.text p.vatStatus).map pg.lower).map fun t =>
    if t = "inclusive" then .inclusive else if t = "exclusive" then .exclusive else .unknown

/-- `v_stock_quantity` and `v_stock_quantity_kind`. -/
def stock (stockTrendsEnabled : Bool) (p : Record) : Except LoadError (Option ℤ × StockKind) :=
  if stockTrendsEnabled then do
    let quantity ← cast "bigint" pg.bigint p.attributes.stockQuantity
    let kindText := pg.lower <| (pg.text p.attributes.stockQuantityKind).getD <|
      if quantity.isSome then "exact" else "unknown"
    match StockKind.ofText kindText with
    | none => .error (.unsupportedStockQuantityKind kindText)
    | some .unknown => .ok (none, .unknown)
    | some kind =>
      if quantity.isNone then .error (.stockQuantityRequiredForKind kindText)
      else .ok (quantity, kind)
  else .ok (none, .unknown)

/-- `v_firing_range` of a `v2` record. -/
def firingRangeV2 (p : Record) : Option String :=
  pg.text <| p.attributes.firing.bind fun f =>
    f.evidence.or <| f.minCelsius.bind fun low => f.maxCelsius.map fun high =>
      low ++ "-" ++ high ++ " C"

/-- The record is read: the checks and casts before the first statement. -/
def read (stockTrendsEnabled : Bool) (p : Record) : Except LoadError Values := do
  let source ← pg.required p.source
  let externalId ← pg.required p.externalId
  let name ← pg.required p.name
  let productUrl ← pg.required p.productUrl
  let format ← match p.format with
    | none => .error (.constraint "source_products.record_format")
    | some t =>
      match RecordFormat.ofText t with
      | none => .error (.unsupportedRecordFormat t)
      | some f => .ok f
  let fetchedAt ← pg.fetchedAt p
  let price ← cast "numeric" pg.numeric p.price
  let unitPrice ← cast "numeric" pg.numeric (p.attributes.unitPrice.bind UnitPrice.value)
  let (stockQuantity, stockQuantityKind) ← pg.stock stockTrendsEnabled p
  let quantity ← cast "numeric" pg.numeric <|
    if format.isV2 then p.attributes.packageSize.bind PackageSize.value else p.quantity
  return {
    source, externalId, format, name, productUrl, fetchedAt, price
    currency := (pg.text p.currency).map pg.upper
    priceText := pg.text p.priceText
    vatStatus := pg.vatStatus p
    availability := pg.text p.availability
    unitPrice
    unitPricePer := (pg.text (p.attributes.unitPrice.bind UnitPrice.per)).map pg.lower
    stockQuantity, stockQuantityKind, quantity
    unit := (pg.text <|
      if format.isV2 then p.attributes.packageSize.bind PackageSize.unit else p.unit).map pg.lower
    sku := if format.isV2 then (pg.text p.manufacturerSku).or (pg.text p.supplierReference)
      else pg.text p.sku
    firingRange := if format.isV2 then pg.firingRangeV2 p else pg.text p.firingRange }

end Postgres

/-- The context of a priced record, if its price has a currency. -/
def Values.terms (v : Values) (price : Numeric) (currency : String) : Terms Numeric where
  price := price
  currency := currency
  priceText := v.priceText
  vatStatus := v.vatStatus
  quantity := v.quantity
  unit := v.unit
  unitPrice := v.unitPrice
  unitPricePer := v.unitPricePer
  availability := v.availability
  stockQuantity := v.stockQuantity
  stockQuantityKind := v.stockQuantityKind

/-- The two checks on a priced record, and its context. -/
def Values.offer (v : Values) : Except LoadError (Option (Terms Numeric)) :=
  match v.price with
  | none => .ok none
  | some price =>
    match v.currency with
    | none => .error .pricedRecordRequiresCurrency
    | some currency =>
      if v.quantity.isNone ≠ v.unit.isNone then .error .quantityAndUnitMustBePaired
      else .ok (some (v.terms price currency))

/-! ## The tables -/

/-- A row of `catalogue.source_products`. -/
structure SourceProduct where
  id : Uuid
  sourceId : String
  externalId : String
  parentExternalId : Option String
  recordFormat : RecordFormat
  name : String
  brand : Option String
  sku : Option String
  manufacturerSku : Option String
  supplierReference : Option String
  family : Option String
  description : Option String
  firingRange : Option String
  productUrl : String
  imageUrl : Option String
  availability : Option String
  firstSeenAt : Time
  lastSeenAt : Time
  active : Bool
  attributes : Attributes
  deriving DecidableEq, Repr

/-- A row of `catalogue.raw_records`. -/
structure RawRecord where
  id : ℕ
  productId : Uuid
  documentId : Option Uuid
  importRunId : Option Uuid
  fetchedAt : Time
  firstSeenAt : Time
  lastSeenAt : Time
  recordSha256 : Digest
  record : Record
  deriving DecidableEq, Repr

/-- A row of `catalogue.offer_observations`. -/
structure OfferObservation where
  id : ℕ
  productId : Uuid
  rawRecordId : ℕ
  observedAt : Time
  lastSeenAt : Time
  terms : Terms Fixed
  contextSha256 : Digest
  attributes : Member
  contextVersion : ℕ
  deriving DecidableEq, Repr

/-- A row of `catalogue.out_of_order_observations`. -/
structure OutOfOrderObservation where
  id : ℕ
  productId : Uuid
  rawRecordId : ℕ
  observedAt : Time
  contextSha256 : Digest
  record : Record
  deriving DecidableEq, Repr

/-- The tables that `load_record` writes, and their sequences. -/
structure Catalogue where
  sources : List String := []
  products : List SourceProduct := []
  rawRecords : List RawRecord := []
  offers : List OfferObservation := []
  outOfOrder : List OutOfOrderObservation := []
  nextProduct : Uuid := 1
  nextRawRecord : ℕ := 1
  nextOffer : ℕ := 1
  nextOutOfOrder : ℕ := 1
  deriving DecidableEq, Repr

/-- `v_price_refresh`. -/
def Record.priceRefresh (p : Record) : Bool := p.attributes.collectionMode.getD "full" == "price"

/-- The row that `load_record` inserts into `source_products`. -/
def Values.product (pg : Postgres) (v : Values) (p : Record) (fetchedAt : Time) (id : Uuid) :
    SourceProduct where
  id := id
  sourceId := v.source
  externalId := v.externalId
  parentExternalId := pg.text p.parentExternalId
  recordFormat := v.format
  name := v.name
  brand := pg.text p.brand
  sku := v.sku
  manufacturerSku := pg.text p.manufacturerSku
  supplierReference := pg.text p.supplierReference
  family := pg.text p.family
  description := pg.text p.description
  firingRange := v.firingRange
  productUrl := v.productUrl
  imageUrl := pg.text p.imageUrl
  availability := v.availability
  firstSeenAt := fetchedAt
  lastSeenAt := fetchedAt
  active := true
  attributes := p.attributes

/-- `on conflict (source_id, external_id) do update`: a record not older than the row replaces its
columns, and a price refresh leaves the enrichment alone. -/
def SourceProduct.merge (priceRefresh : Bool) (old excluded : SourceProduct) : SourceProduct :=
  let current := decide (old.lastSeenAt ≤ excluded.lastSeenAt)
  let enriches := !(priceRefresh || decide (excluded.lastSeenAt < old.lastSeenAt))
  { old with
    recordFormat := if current then excluded.recordFormat else old.recordFormat
    parentExternalId := if current then excluded.parentExternalId else old.parentExternalId
    name := if current then excluded.name else old.name
    brand := if current then excluded.brand else old.brand
    sku := if current then excluded.sku else old.sku
    manufacturerSku := if current then excluded.manufacturerSku else old.manufacturerSku
    supplierReference := if current then excluded.supplierReference else old.supplierReference
    family := if enriches then excluded.family else old.family
    description := if enriches then excluded.description else old.description
    firingRange := if enriches then excluded.firingRange else old.firingRange
    productUrl := if current then excluded.productUrl else old.productUrl
    imageUrl := if enriches then excluded.imageUrl else old.imageUrl
    availability := if current then excluded.availability else old.availability
    firstSeenAt := min old.firstSeenAt excluded.firstSeenAt
    lastSeenAt := max old.lastSeenAt excluded.lastSeenAt
    active := if current then true else old.active
    attributes := if enriches then excluded.attributes else old.attributes }

/-- `on conflict (source_product_id, record_sha256) do update`. -/
def RawRecord.merge (old excluded : RawRecord) : RawRecord :=
  { old with
    documentId := old.documentId.or excluded.documentId
    importRunId := old.importRunId.or excluded.importRunId
    firstSeenAt := min old.firstSeenAt excluded.firstSeenAt
    lastSeenAt := max old.lastSeenAt excluded.lastSeenAt }

/-- `last_seen_at = greatest(last_seen_at, v_fetched_at)`. -/
def OfferObservation.extend (fetchedAt : Time) (o : OfferObservation) : OfferObservation :=
  { o with lastSeenAt := max o.lastSeenAt fetchedAt }

/-! ## Statements of `load_record` -/

namespace Catalogue

/-- The product of a record is inserted or updated; `returning id`. -/
def upsertProduct (db : Catalogue) (priceRefresh : Bool) (row : SourceProduct) : Uuid × Catalogue :=
  let same := fun q : SourceProduct =>
    q.sourceId == row.sourceId && q.externalId == row.externalId
  match db.products.find? same with
  | some old => (old.id, { db with products := update same (·.merge priceRefresh row) db.products })
  | none =>
    (row.id, { db with products := db.products ++ [row], nextProduct := db.nextProduct + 1 })

/-- The raw record is inserted or its interval extended; `returning id`. -/
def upsertRawRecord (db : Catalogue) (row : RawRecord) : ℕ × Catalogue :=
  let same := fun q : RawRecord =>
    q.productId == row.productId && q.recordSha256 == row.recordSha256
  match db.rawRecords.find? same with
  | some old => (old.id, { db with rawRecords := update same (·.merge row) db.rawRecords })
  | none =>
    (row.id,
      { db with rawRecords := db.rawRecords ++ [row], nextRawRecord := db.nextRawRecord + 1 })

/-- The observations of a product. -/
def offersOf (db : Catalogue) (product : Uuid) : List OfferObservation :=
  db.offers.filter fun o => o.productId == product

/-- `order by observed_at desc, id desc limit 1`, in `load_record` and in `latest_offers`. -/
def latestOffer (db : Catalogue) (product : Uuid) : Option OfferObservation :=
  (db.offersOf product).argmax fun o => toLex (o.observedAt, o.id)

/-- A new row of `offer_observations`, if its constraints admit it. -/
def insertOffer (db : Catalogue) (product : Uuid) (rawRecord : ℕ) (fetchedAt : Time)
    (terms : Terms Numeric) (sha : Digest) (p : Record) : Except LoadError Catalogue :=
  match terms.fixed with
  | none => .error (.constraint "numeric field overflow")
  | some fixed =>
    if fixed.check && p.raw.all Member.isObject then
      .ok { db with
        offers := db.offers ++ [{
          id := db.nextOffer, productId := product, rawRecordId := rawRecord
          observedAt := fetchedAt, lastSeenAt := fetchedAt, terms := fixed, contextSha256 := sha
          attributes := p.raw.getD (.object "\x7b\x7d"), contextVersion := 2 }]
        nextOffer := db.nextOffer + 1 }
    else .error (.constraint "offer_observations")

/-- A late record is put aside, once. -/
def putAside (db : Catalogue) (product : Uuid) (rawRecord : ℕ) (fetchedAt : Time) (sha : Digest)
    (p : Record) : Catalogue :=
  { db with
    outOfOrder := insertNew (fun q => (q.productId, q.observedAt, q.contextSha256))
      { id := db.nextOutOfOrder, productId := product, rawRecordId := rawRecord
        observedAt := fetchedAt, contextSha256 := sha, record := p } db.outOfOrder
    nextOutOfOrder := db.nextOutOfOrder + 1 }

/-- The price history moves: the block of `load_record` under `v_price is not null`. -/
def observe (db : Catalogue) (product : Uuid) (rawRecord : ℕ) (fetchedAt : Time)
    (terms : Terms Numeric) (sha : Digest) (p : Record) : Except LoadError Catalogue :=
  if (db.offersOf product).any fun o => o.observedAt == fetchedAt && o.contextSha256 == sha then
    .ok db
  else
    match db.latestOffer product with
    | none => db.insertOffer product rawRecord fetchedAt terms sha p
    | some latest =>
      if fetchedAt < latest.observedAt then
        .ok (db.putAside product rawRecord fetchedAt sha p)
      else if latest.terms.unchanged terms then
        .ok { db with offers := update (fun o => o.id == latest.id) (·.extend fetchedAt) db.offers }
      else db.insertOffer product rawRecord fetchedAt terms sha p

end Catalogue

/-- A call of `load_record`, and the setting `catalogue.stock_trends_enabled`. -/
structure LoadCall where
  record : Record
  importRunId : Option Uuid := none
  documentId : Option Uuid := none
  stockTrendsEnabled : Bool := false
  deriving DecidableEq, Repr

/-- The product and the raw record are written; their ids and the tables. -/
def Catalogue.register (db : Catalogue) (pg : Postgres) (v : Values) (fetchedAt : Time)
    (c : LoadCall) : Uuid × ℕ × Catalogue :=
  let (product, db) :=
    { db with sources := insertNew id v.source db.sources : Catalogue }.upsertProduct
      c.record.priceRefresh (v.product pg c.record fetchedAt db.nextProduct)
  (product, db.upsertRawRecord
    { id := db.nextRawRecord, productId := product, documentId := c.documentId
      importRunId := c.importRunId, fetchedAt, firstSeenAt := fetchedAt, lastSeenAt := fetchedAt
      recordSha256 := pg.recordSha256 { c.record with fetchedAt := none }, record := c.record })

/-- `catalogue.load_record`. -/
def loadRecord (pg : Postgres) (db : Catalogue) (c : LoadCall) :
    Except LoadError (Uuid × Catalogue) := do
  let v ← pg.read c.stockTrendsEnabled c.record
  let some fetchedAt := v.fetchedAt | .error (.constraint "source_products.first_seen_at")
  let (product, rawRecord, db) := db.register pg v fetchedAt c
  match ← v.offer with
  | none => return (product, db)
  | some terms =>
    let db ← db.observe product rawRecord fetchedAt terms (pg.contextSha256 terms) c.record
    return (product, db)

end CommerceCollector
