import CommerceCollector.Foundation.Base64
import CommerceCollector.Foundation.JsonLoads
import CommerceCollector.Foundation.Keyset
import Mathlib.Data.Prod.Lex
import Mathlib.Order.WithBot

/-!
# Searching the catalogue

`search` of the catalogue service, over the query `SEARCH`: the canonical products that a filter
matches, the best stocked first, and a cursor behind the last one shown.  The cursor is the ordering
key of that product, as JSON in Base64, with the empty text in place of a null.

The collation of the database, a position for every text, and its `ilike` are the parameters of
`Collation`.  Rows that the order does not tell apart come in any order, a different one on every
request: an `Arrangement` says which.
-/

namespace CommerceCollector.Search

open JsonText

/-! ## The catalogue -/

/-- The columns of `catalogue.canonical_products` that a search reads. -/
structure CanonicalProduct where
  id : String
  brand : Option String
  manufacturerSku : Option String
  name : String
  family : Option String
  active : Bool
  manufacturerId : Option String
  skuKey : Option String
  deriving DecidableEq, Repr

/-- The columns of `catalogue.source_products` that a search reads. -/
structure SourceProduct where
  canonicalProductId : Option String
  sourceId : String
  active : Bool
  gtin : Option String
  deriving DecidableEq, Repr

/-- The two tables. -/
structure Catalogue where
  canonicalProducts : List CanonicalProduct
  sourceProducts : List SourceProduct
  /-- The primary key. -/
  ids_nodup : (canonicalProducts.map (·.id)).Nodup

/-- What the database decides about texts. -/
structure Collation (κ : Type*) [LinearOrder κ] where
  position : String → κ
  position_injective : Function.Injective position
  empty_le : ∀ s, position "" ≤ position s
  /-- `text ilike pattern`. -/
  ilike : String → String → Bool

/-- `catalogue.sku_key(p_sku)`. -/
def skuKey (sku : Option String) : Option String :=
  let key := (((sku.getD "").toList.filter fun c => c.isAlpha || c.isDigit).map Char.toUpper)
  if key = [] then none else some (String.ofList key)

/-- `count(distinct sp.source_id)` over the active source products of a canonical product. -/
def sourceCount (db : Catalogue) (c : CanonicalProduct) : ℕ :=
  ((db.sourceProducts.filter fun sp =>
    sp.active && sp.canonicalProductId == some c.id).map (·.sourceId)).dedup.length

/-- `lpad(regexp_replace(coalesce(gtin, ''), '\D', '', 'g'), 14, '0')`. -/
def paddedGtin (gtin : Option String) : String :=
  let digits := (gtin.getD "").toList.filter Char.isDigit
  String.ofList ((List.replicate (14 - digits.length) '0' ++ digits).take 14)

/-! ## The query -/

variable {κ : Type*} [LinearOrder κ]

/-- The optional filters of a search. -/
structure Filter where
  text : Option String
  manufacturer : Option String
  family : Option String
  barcode : Option String
  deriving DecidableEq, Repr

/-- `text or None`. -/
def Filter.query (f : Filter) : Option String := f.text.filter (· ≠ "")

/-- The `where` clause of `SEARCH`. -/
def Filter.admits (pg : Collation κ) (db : Catalogue) (f : Filter) (c : CanonicalProduct) : Bool :=
  c.active &&
    (f.query.all fun text =>
      pg.ilike c.name s!"%{text}%" || c.manufacturerSku.any (pg.ilike · s!"%{text}%") ||
        c.brand.any (pg.ilike · s!"%{text}%") ||
        (skuKey (some text)).any fun key =>
          c.skuKey.any fun sku => key.toList.isPrefixOf sku.toList) &&
    (f.manufacturer.all fun m => c.manufacturerId == some m) &&
    (f.family.all fun family => c.family == some family) &&
    (f.barcode.all fun barcode => db.sourceProducts.any fun sp =>
      sp.canonicalProductId == some c.id && sp.active && paddedGtin sp.gtin == barcode)

/-- A row of the result. -/
structure Row where
  product : CanonicalProduct
  sourceCount : ℕ
  deriving DecidableEq, Repr

/-- The rows of the canonical products that a filter matches. -/
def matching (pg : Collation κ) (db : Catalogue) (f : Filter) : List Row :=
  (db.canonicalProducts.filter (f.admits pg db)).map fun c => ⟨c, sourceCount db c⟩

/-- `order by count(distinct sp.source_id) desc, c.brand, c.manufacturer_sku`, nulls last. -/
def orderKey (pg : Collation κ) (r : Row) : ℕᵒᵈ ×ₗ WithTop κ ×ₗ WithTop κ :=
  toLex (OrderDual.toDual r.sourceCount,
    toLex (r.product.brand.map pg.position, r.product.manufacturerSku.map pg.position))

/-- A row may come before another one. -/
def RowLe (pg : Collation κ) (r s : Row) : Prop := orderKey pg r ≤ orderKey pg s

/-- The order in which a request finds its rows. -/
structure Arrangement (pg : Collation κ) where
  arrange : List Row → List Row
  arranges : ∀ rows, Keyset.Arranges (RowLe pg) rows (arrange rows)

/-- The three values of a cursor. -/
abbrev CursorKey := ℕ × String × String

/-- `(count, coalesce(c.brand, ''), coalesce(c.manufacturer_sku, '')) < (count, brand, sku)`. -/
def Precedes (pg : Collation κ) (r : Row) (key : CursorKey) : Prop :=
  toLex (r.sourceCount, toLex (pg.position (r.product.brand.getD ""),
    pg.position (r.product.manufacturerSku.getD ""))) <
      toLex (key.1, toLex (pg.position key.2.1, pg.position key.2.2))

instance (pg : Collation κ) (r : Row) (key : CursorKey) : Decidable (Precedes pg r key) := by
  unfold Precedes
  infer_instance

/-! ## The cursor -/

/-- The ordering key of a row, with the empty text in place of a null. -/
def Row.key (r : Row) : CursorKey :=
  (r.sourceCount, r.product.brand.getD "", r.product.manufacturerSku.getD "")

/-- A key as the list that a cursor holds. -/
def CursorKey.values (key : CursorKey) : List Value :=
  [.number (.ofNat key.1), .string key.2.1, .string key.2.2]

/-- `text.encode()`, for a text in ASCII. -/
def encodeText (text : List Char) : List Base64.Byte := text.map fun c => Base64.byte c.toNat

/-- The text of some bytes in UTF-8. -/
def decodeText (bytes : List Base64.Byte) : Option (List Char) :=
  if bytes.all fun b => b.val < 128 then some (bytes.map fun b => Char.ofNat b.val)
  else (String.fromUTF8? ⟨(bytes.map fun b => UInt8.ofNat b.val).toArray⟩).map String.toList

/-- `encode_cursor(row)`. -/
def encodeCursor (r : Row) : String :=
  String.ofList (Base64.strip (Base64.encode (encodeText (dumpsArray r.key.values))))

/-- `decode_cursor(cursor)`.  A text in UTF-16 or UTF-32, which Python reads as well, is refused. -/
def decodeCursor (cursor : Option String) : Option (List Value) :=
  match cursor with
  | none => none
  | some cursor =>
    if cursor = "" then none
    else
      match ((Base64.decode (Base64.pad cursor.toList)).bind decodeText).bind loads with
      | some (.array values) => if values.length = 3 then some values else none
      | _ => none

/-- The number that a text of digits stands for. -/
def numberValue (n : Number) : Option ℕ :=
  if n.text.all Char.isDigit then some (Nat.ofDigitChars 10 n.text 0) else none

/-- What the query makes of the values of a cursor: no bound, a bound, or an error.  Values of other
shapes, which `encode_cursor` never writes, are an error here. -/
def cursorKey : List Value → Option (Option CursorKey)
  | [.null, _, _] => some none
  | [.number n, .string brand, .string sku] => (numberValue n).map fun count => some (count, brand, sku)
  | _ => none

/-! ## The request -/

/-- `queries.search`; an error of the database is `none`. -/
def runQuery (pg : Collation κ) (a : Arrangement pg) (db : Catalogue) (f : Filter) (limit : ℕ)
    (cursor : Option (List Value)) : Option (List Row) :=
  match cursor with
  | none => some ((a.arrange (matching pg db f)).take limit)
  | some values =>
    match cursorKey values with
    | none => none
    | some none => some ((a.arrange (matching pg db f)).take limit)
    | some (some key) =>
      some ((a.arrange ((matching pg db f).filter fun r => Precedes pg r key)).take limit)

/-- The answer to a request. -/
inductive Answer
  | products (page : List Row) (nextCursor : Option String)
  | problem (status : ℕ) (title : String) (detail : String)
  deriving DecidableEq, Repr

/-- `MAX_LIMIT`. -/
def maxLimit : ℤ := 200

/-- `search(request)`, with the limit as a number and the barcode in its normal form. -/
def search (pg : Collation κ) (a : Arrangement pg) (db : Catalogue) (f : Filter) (limit : ℤ)
    (cursor : Option String) : Answer :=
  let limit := min limit maxLimit
  if limit < 1 then .problem 400 "Bad Request" "limit must be positive"
  else
    let decoded := decodeCursor cursor
    if cursor.any (· ≠ "") && decoded.isNone then
      .problem 400 "Bad Request" "cursor is not a cursor this API issued"
    else
      match runQuery pg a db f (limit.toNat + 1) decoded with
      | none => .problem 503 "Service Unavailable" "the catalogue is not reachable"
      | some rows =>
        let page := rows.take limit.toNat
        .products page
          (if limit.toNat < rows.length then page.getLast?.map encodeCursor else none)

end CommerceCollector.Search
