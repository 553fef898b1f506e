import CommerceCollector.Catalogue.Search
import CommerceCollector.Foundation.Upsert
import Mathlib.Data.List.MinMax

/-!
# Promoting canonical products

`catalogue.promote_canonical_products`, over the tables `manufacturers`, `manufacturer_aliases`,
`canonical_products` and `source_products`.  The function adopts the curated rows whose brand is an
alias, merges the source products of each manufacturer and code into one row, which it inserts or
updates, and links every source product to the row of its manufacturer and code.

A call that raises leaves the tables as they were.  The statement that upserts takes the merged rows
in an order of its own, its plan.  What the database computes on characters, and the regular
expressions of `clean_product_name`, are the functions of `Text`.  A source product carries a mark
that its link was set by a promotion; no code reads it.
-/

namespace CommerceCollector.Promotion

open Relational

/-! ## Tables -/

/-- `catalogue.manufacturers`, without the columns that a promotion does not read. -/
structure Manufacturer where
  id : String
  name : String
  sourceId : Option String
  active : Bool
  deriving DecidableEq

/-- `canonical_products_origin_check`. -/
inductive Origin
  | curated | promoted
  deriving DecidableEq

/-- The object `promoted_from`. -/
structure PromotedFrom where
  sources : List String
  sourceCount : ℕ
  hasMakerListing : Bool
  lastSeenAt : ℤ
  deriving DecidableEq

/-- A value of the attributes: the two that a promotion writes, and any other, as its text. -/
inductive Attribute
  | imageUrl (url : String)
  | promotedFrom (p : PromotedFrom)
  | other (text : String)
  deriving DecidableEq

/-- A JSON object. -/
abbrev Attributes := List (String × Attribute)

/-- `a || b`. -/
def concat (a b : Attributes) : Attributes := a.filter (fun e => e.1 ∉ b.map Prod.fst) ++ b

/-- `catalogue.canonical_products`. -/
structure CanonicalProduct where
  id : ℕ
  brand : Option String
  manufacturerSku : Option String
  name : String
  family : Option String
  description : Option String
  firingRange : Option String
  attributes : Attributes
  active : Bool
  createdAt : ℤ
  updatedAt : ℤ
  manufacturerId : Option String
  skuKey : Option String
  origin : Origin
  deriving DecidableEq

/-- The columns of `catalogue.source_products` that a load writes and a promotion reads. -/
structure ProductColumns where
  sourceId : String
  brand : Option String
  manufacturerSku : Option String
  name : String
  description : Option String
  firingRange : Option String
  family : Option String
  imageUrl : Option String
  lastSeenAt : ℤ
  active : Bool
  deriving DecidableEq

/-- `catalogue.source_products`. -/
structure SourceProduct where
  id : ℕ
  columns : ProductColumns
  canonicalProductId : Option ℕ
  linkedByPromotion : Bool := false
  deriving DecidableEq

/-- The tables, the identity of the next canonical product, and the counter of the promotions. -/
structure Catalogue where
  manufacturers : List Manufacturer
  aliases : List (String × String)
  canonicalProducts : List CanonicalProduct
  nextId : ℕ
  sourceProducts : List SourceProduct
  generation : ℕ := 0
  promotedAt : ℤ := 0
  deriving DecidableEq

/-! ## Texts -/

/-- What the database decides about texts: `lower` and `upper` of a character, the order of a
collation, and a name without its pack clause and its firing range, with single blanks. -/
structure Text where
  lower : Char → Char
  upper : Char → Char
  textLe : String → String → Bool
  stripped : String → String
  /-- The upper case of the characters of a code. -/
  upper_eq : ∀ c, (c.isAlpha || c.isDigit) = true → upper c = c.toUpper

/-- `btrim(text, characters)`. -/
def trimmed (characters : List Char) (text : List Char) : List Char :=
  ((text.dropWhile (characters.contains ·)).reverse.dropWhile (characters.contains ·)).reverse

/-- `btrim(text)`. -/
def btrim (text : String) : String := String.ofList (trimmed [' '] text.toList)

/-- `btrim(text) = ''`. -/
def blank (text : String) : Bool := text.toList.all (· == ' ')

variable (pg : Text)

/-- `lower(text)`. -/
def Text.lowered (text : String) : String := String.ofList (text.toList.map pg.lower)

/-- `upper(text)`. -/
def Text.uppered (text : String) : String := String.ofList (text.toList.map pg.upper)

/-- `catalogue.clean_product_name(p_name)`. -/
def cleanProductName (name : String) : Option String :=
  let clean := trimmed " –—-,/".toList (pg.stripped name).toList
  if clean = [] then none else some (String.ofList clean)

/-- `catalogue.sku_key(p_sku)`. -/
def skuKey (sku : Option String) : Option String := Search.skuKey sku

/-! ## Rows -/

namespace CanonicalProduct

/-- The key of `canonical_products_manufacturer_sku_key`. -/
def identity (c : CanonicalProduct) : Option (String × String) :=
  match c.manufacturerId, c.skuKey with
  | some manufacturer, some key => some (manufacturer, key)
  | _, _ => none

/-- The key of `canonical_products_brand_sku`. -/
def label (c : CanonicalProduct) : Option (String × String) :=
  match c.brand, c.manufacturerSku with
  | some brand, some sku => some (pg.lowered brand, pg.lowered sku)
  | _, _ => none

end CanonicalProduct

/-- The manufacturer whose alias a brand is. -/
def maker (s : Catalogue) (brand : Option String) : Option Manufacturer :=
  brand.bind fun brand =>
    (s.aliases.lookup (pg.lowered (btrim brand))).bind fun id =>
      s.manufacturers.find? (·.id == id)

/-- `p_manufacturer is null or m.id = p_manufacturer`. -/
def inScope (scope : Option String) (id : String) : Bool := scope.all (· == id)

/-- The adoption of a row. -/
def adopt (s : Catalogue) (scope : Option String) (now : ℤ) (c : CanonicalProduct) :
    CanonicalProduct :=
  if c.manufacturerId = none ∧ c.manufacturerSku.isSome then
    match maker pg s c.brand with
    | some m =>
      if inScope scope m.id = true then
        { c with manufacturerId := some m.id, skuKey := skuKey c.manufacturerSku, updatedAt := now }
      else c
    | none => c
  else c

/-! ## Merging -/

/-- A row of `candidate`. -/
structure Candidate where
  manufacturerId : String
  manufacturerName : String
  sku : String
  skuKey : String
  id : ℕ
  sourceId : String
  description : Option String
  firingRange : Option String
  family : Option String
  imageUrl : Option String
  lastSeenAt : ℤ
  cleanName : String
  fromMaker : Bool

/-- The candidate of a source product, if it is one. -/
def candidate (s : Catalogue) (scope : Option String) (sp : SourceProduct) : Option Candidate :=
  match maker pg s sp.columns.brand, skuKey sp.columns.manufacturerSku with
  | some m, some key =>
    if sp.columns.active = true ∧ m.active = true ∧ inScope scope m.id = true then
      some {
        manufacturerId := m.id
        manufacturerName := m.name
        sku := pg.uppered (btrim (sp.columns.manufacturerSku.getD ""))
        skuKey := key
        id := sp.id
        sourceId := sp.columns.sourceId
        description := sp.columns.description
        firingRange := sp.columns.firingRange
        family := sp.columns.family
        imageUrl := sp.columns.imageUrl
        lastSeenAt := sp.columns.lastSeenAt
        cleanName := (cleanProductName pg sp.columns.name).getD sp.columns.name
        fromMaker := m.sourceId == some sp.columns.sourceId }
    else none
  | _, _ => none

namespace Candidate

/-- The manufacturer and the code of a candidate. -/
def identity (c : Candidate) : String × String := (c.manufacturerId, c.skuKey)

/-- `completeness`. -/
def completeness (c : Candidate) : ℕ :=
  [c.description, c.firingRange, c.family, c.imageUrl].countP Option.isSome

/-- The order of `rnk`. -/
def rank (c : Candidate) : ℕ ×ₗ ℕ ×ₗ ℤ ×ₗ ℕ :=
  toLex (if c.fromMaker = true then 0 else 1, toLex (4 - c.completeness, toLex (-c.lastSeenAt, c.id)))

/-- Whether a name reduces to the code: no, yes, or unknown. -/
def nameIsCode (c : Candidate) : ℕ :=
  match Promotion.skuKey (some c.cleanName) with
  | none => 2
  | some key => if key = c.skuKey then 1 else 0

/-- The order of `rnk_name`. -/
def nameRank (c : Candidate) : ℕ ×ₗ ℕ ×ₗ ℕ ×ₗ ℤ ×ₗ ℕ :=
  toLex (c.nameIsCode, toLex (c.cleanName.length,
    toLex (if c.fromMaker = true then 0 else 1, toLex (-c.lastSeenAt, c.id))))

end Candidate

/-- A row of `merged`. -/
structure Merged where
  manufacturerId : String
  skuKey : String
  manufacturerName : String
  sku : String
  name : String
  description : Option String
  firingRange : Option String
  imageUrl : Option String
  family : Option String
  sources : List String
  hasMakerListing : Bool
  lastSeenAt : ℤ

/-- `mode() within group (order by …)`. -/
def mode (texts : List String) : Option String :=
  let sorted := texts.insertionSort (pg.textLe · ·)
  sorted.argmax sorted.count

/-- The row of a group of candidates, of which one is given. -/
def merge (c : Candidate) (group : List Candidate) : Merged :=
  let ranked := group.insertionSort fun a b => a.rank ≤ b.rank
  let rankedByName := group.insertionSort fun a b => a.nameRank ≤ b.nameRank
  { manufacturerId := c.manufacturerId
    skuKey := c.skuKey
    manufacturerName := (ranked.headD c).manufacturerName
    sku := (ranked.headD c).sku
    name := (rankedByName.headD c).cleanName
    description := ranked.findSome? (·.description)
    firingRange := ranked.findSome? (·.firingRange)
    imageUrl := ranked.findSome? (·.imageUrl)
    family := mode pg (group.filterMap (·.family))
    sources := ((group.map (·.sourceId)).insertionSort (pg.textLe · ·)).dedup
    hasMakerListing := group.any (·.fromMaker)
    lastSeenAt := (group.map (·.lastSeenAt)).foldl max c.lastSeenAt }

/-- `merged`: one row for each manufacturer and code. -/
def merged (s : Catalogue) (scope : Option String) : List Merged :=
  let candidates := s.sourceProducts.filterMap (candidate pg s scope)
  (candidates.map Candidate.identity).dedup.filterMap fun identity =>
    match candidates.filter (·.identity == identity) with
    | [] => none
    | c :: cs => some (merge pg c (c :: cs))

namespace Merged

/-- The manufacturer and the code of a row. -/
def identity (g : Merged) : String × String := (g.manufacturerId, g.skuKey)

/-- Its key of `canonical_products_brand_sku`. -/
def label (g : Merged) : String × String := (pg.lowered g.manufacturerName, pg.lowered g.sku)

/-- The checks of a row that is proposed. -/
def checked (g : Merged) : Bool := !blank g.manufacturerName && !blank g.sku && !blank g.name

/-- The attributes that are written. -/
def attributes (g : Merged) : Attributes :=
  (match g.imageUrl with
    | some url => [("image_url", .imageUrl url)]
    | none => []) ++
  [("promoted_from", .promotedFrom {
      sources := g.sources, sourceCount := g.sources.length,
      hasMakerListing := g.hasMakerListing, lastSeenAt := g.lastSeenAt })]

/-- `do update set`. -/
def write (now : ℤ) (g : Merged) (c : CanonicalProduct) : CanonicalProduct :=
  { c with
    brand := some g.manufacturerName
    manufacturerSku := some g.sku
    name := g.name
    family := g.family <|> c.family
    description := g.description <|> c.description
    firingRange := g.firingRange <|> c.firingRange
    attributes := concat c.attributes g.attributes
    updatedAt := now }

/-- `insert`. -/
def make (now : ℤ) (g : Merged) (id : ℕ) : CanonicalProduct where
  id
  brand := some g.manufacturerName
  manufacturerSku := some g.sku
  name := g.name
  family := g.family
  description := g.description
  firingRange := g.firingRange
  attributes := g.attributes
  active := true
  createdAt := now
  updatedAt := now
  manufacturerId := some g.manufacturerId
  skuKey := some g.skuKey
  origin := .promoted

end Merged

/-- `upserted`: the arbiter is the index of manufacturers and codes, and a curated row is not
written. -/
def rule (now : ℤ) : UpsertRule CanonicalProduct Merged (String × String) (String × String) where
  arbiter := CanonicalProduct.identity
  label := CanonicalProduct.label pg
  writable c := c.origin == .promoted
  key := Merged.identity
  mark := Merged.label pg
  write := Merged.write now
  make := Merged.make now
  write_arbiter _ _ := rfl
  write_label _ _ := rfl
  write_writable _ _ := rfl
  make_arbiter _ _ := rfl
  make_label _ _ := rfl
  make_writable _ _ := rfl

/-! ## Linking -/

/-- The canonical product to which a source product is linked. -/
def target (s : Catalogue) (scope : Option String) (sp : SourceProduct) : Option CanonicalProduct :=
  match maker pg s sp.columns.brand, skuKey sp.columns.manufacturerSku with
  | some m, some key =>
    if m.active = true ∧ inScope scope m.id = true then
      s.canonicalProducts.find? (·.identity == some (m.id, key))
    else none
  | _, _ => none

/-- `linked`, on a source product. -/
def link (s : Catalogue) (scope : Option String) (sp : SourceProduct) : SourceProduct :=
  match target pg s scope sp with
  | some c =>
    if sp.canonicalProductId = some c.id then sp
    else { sp with canonicalProductId := some c.id, linkedByPromotion := true }
  | none => sp

/-! ## The function -/

/-- The order in which the statement takes the merged rows. -/
structure Plan where
  arrange : List Merged → List Merged
  perm : ∀ groups, (arrange groups).Perm groups

/-- What the function returns. -/
structure Promoted where
  manufacturers : ℕ
  canonicalCreated : ℕ
  canonicalUpdated : ℕ
  sourceProductsLinked : ℕ
  deriving DecidableEq

/-- `catalogue.promote_canonical_products(p_manufacturer)`. -/
def promote (plan : Plan) (now : ℤ) (scope : Option String) (s : Catalogue) :
    Except String (Catalogue × Promoted) :=
  if scope.any (fun id => !s.manufacturers.any (·.id == id)) = true then
    .error ("unknown_manufacturer: " ++ scope.getD "")
  else
    let adopted := s.canonicalProducts.map (adopt pg s scope now)
    if ¬UniqueOn CanonicalProduct.identity adopted then
      .error "canonical_products_manufacturer_sku_key"
    else
      let groups := plan.arrange (merged pg s scope)
      if groups.any (!·.checked) = true then .error "canonical_products_check"
      else
        match (rule pg now).upsertAll ⟨adopted, s.nextId⟩ groups with
        | none => .error "canonical_products_brand_sku"
        | some t =>
          let upserted := { s with canonicalProducts := t.rows, nextId := t.next }
          let linked := s.sourceProducts.map (link pg upserted scope)
          let promoted := t.rows.filter fun c => c.origin = .promoted ∧
            (scope = none ∨ c.manufacturerId = scope)
          let created := ((rule pg now).missing adopted groups).length
          .ok ({ upserted with sourceProducts := linked, generation := s.generation + 1,
                               promotedAt := now },
            { manufacturers := (promoted.filterMap (·.manufacturerId)).dedup.length
              canonicalCreated := created
              canonicalUpdated :=
                (groups.filter fun g => (rule pg now).Writes adopted g).length - created
              sourceProductsLinked :=
                (s.sourceProducts.filter fun sp => link pg upserted scope sp ≠ sp).length })

end CommerceCollector.Promotion
