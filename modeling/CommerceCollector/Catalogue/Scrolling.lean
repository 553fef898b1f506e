import CommerceCollector.Foundation.Offsets
import Mathlib.Data.List.MinMax
import Mathlib.Data.Rat.Defs
import Mathlib.Data.String.Basic
import Mathlib.Data.Sum.Order
import Mathlib.Order.WithBot

/-!
# Scrolling the explorer

`productRows` shows one block of the products that the filters match, ordered by the chosen column,
the name and the supplier.  Neither the order nor the choice of the latest offer goes down to a
key: of several products in one place, and of several offers of one moment, each query takes which
it likes.  The blocks of a scroll show every product that `products` counts exactly once iff they
begin at settled offsets (`scrolls_once_iff`).
-/

namespace CommerceCollector.Explorer

/-- The columns of `catalogue.offer_observations` that the order reads. -/
structure Offer where
  observedAt : ℕ
  price : ℚ
  currency : String
  unitPrice : Option ℚ

/-- The columns of `catalogue.source_products` that the filters and the order read, and the offers
of the product. -/
structure Product where
  id : ℕ
  sourceId : String
  name : String
  brand : Option String
  family : Option String
  manufacturerSku : Option String
  availability : Option String
  facetColour : Option String
  facetSurface : Option String
  facetForm : Option String
  facetFiringMax : Option ℚ
  facetPackageSize : Option ℚ
  /-- The strings in the array, and the array as text. -/
  facetApplicationMethods : List String
  facetApplicationText : String
  offers : List Offer

/-- The products, under their primary key. -/
structure Products where
  rows : List Product
  ids_nodup : (rows.map Product.id).Nodup

/-- What the two languages and the other tables decide. -/
structure Database (κ : Type*) [LinearOrder κ] where
  /-- The place of a text in the collation. -/
  position : String → κ
  ilike : String → String → Bool
  upper : String → String
  toUpperCase : String → String
  /-- `metadata->>'country'` of the source with an id. -/
  country : String → Option String
  /-- The rate of a currency, if it is published. -/
  rates : String → Option ℚ
  /-- `(amount / rate)::float8`. -/
  quotient : ℚ → ℚ → ℚ

/-! ## The filters -/

structure Filters where
  q : String
  family : Option String
  brand : Option String
  series : Option String
  colour : Option String
  surface : Option String
  firing : Option String
  application : Option String
  form : Option String
  stock : Option String
  suppliers : List String
  excluded : List String
  countries : List String

/-- `FIRING_BANDS`: id, min and max. -/
def firingBands : List (String × ℚ × ℚ) :=
  [("low", 0, 1100), ("mid", 1100, 1240), ("high", 1240, 100000)]

variable {κ : Type*} [LinearOrder κ] (db : Database κ)

/-- `upper((regexp_match(p.manufacturer_sku, '^([A-Za-z]+)'))[1])`. -/
def seriesPrefix (p : Product) : Option String :=
  (p.manufacturerSku.map fun sku => sku.toList.takeWhile Char.isAlpha).bind fun letters =>
    if letters = [] then none else some (db.upper (String.ofList letters))

/-- A filter that is set to a text other than the empty one. -/
def use (value : Option String) (condition : String → Bool) : Bool :=
  (value.filter (· ≠ "")).all condition

/-- `conditions(filters)`. -/
def conditions (f : Filters) (p : Product) : Bool :=
  (f.q = "" || db.ilike p.name s!"%{f.q}%") &&
    use f.family (p.family == some ·) &&
    use f.brand (fun brand => p.brand.map db.upper == some (db.toUpperCase brand)) &&
    use f.series (fun series => seriesPrefix db p == some (db.toUpperCase series)) &&
    use f.colour (p.facetColour == some ·) &&
    use f.surface (p.facetSurface == some ·) &&
    use f.application p.facetApplicationMethods.contains &&
    use f.form (p.facetForm == some ·) &&
    use f.stock (fun _ => p.availability == some "https://schema.org/InStock") &&
    (f.suppliers.isEmpty || f.suppliers.contains p.sourceId) &&
    (!f.excluded.contains p.sourceId) &&
    (f.countries.isEmpty || (db.country p.sourceId).any f.countries.contains) &&
    use f.firing fun firing => (firingBands.find? (·.1 == firing)).all fun (_, min, max) =>
      p.facetFiringMax.any fun celsius => min ≤ celsius && celsius < max

/-! ## The order -/

inductive SortKey
  | name | stock | code | supplier | country | brand | family | colour | surface | firing
  | application | size | form | price | unitPrice
  deriving DecidableEq, Repr

inductive Direction
  | asc | desc
  deriving DecidableEq, Repr

/-- A text or a number. -/
abbrev Value (κ : Type*) := κ ⊕ₗ ℚ

/-- `amount / nullif(rate, 0)`, in the currency of the offer. -/
def Offer.eur (o : Offer) (amount : ℚ) : Option ℚ :=
  ((db.rates o.currency).filter (· ≠ 0)).map (db.quotient amount)

/-- `SORTS`, with the offer that the lateral query finds. -/
def sorts (p : Product) (o : Option Offer) : SortKey → Option (Value κ)
  | .name => text (some p.name)
  | .stock => text p.availability
  | .code => text p.manufacturerSku
  | .supplier => text (some p.sourceId)
  | .country => text (db.country p.sourceId)
  | .brand => text p.brand
  | .family => text p.family
  | .colour => text p.facetColour
  | .surface => text p.facetSurface
  | .firing => number p.facetFiringMax
  | .application => text (some p.facetApplicationText)
  | .size => number p.facetPackageSize
  | .form => text p.facetForm
  | .price => number (o.bind fun o => o.eur db o.price)
  | .unitPrice => number (o.bind fun o => o.unitPrice.bind (o.eur db))
where
  text (s : Option String) : Option (Value κ) := s.map fun s => Sum.inlₗ (db.position s)
  number (n : Option ℚ) : Option (Value κ) := n.map Sum.inrₗ

/-- `asc nulls last` and `desc nulls last`. -/
def Direction.place : Direction → Option (Value κ) → WithTop (Value κ ⊕ₗ (Value κ)ᵒᵈ)
  | .asc, v => v.map Sum.inlₗ
  | .desc, v => v.map fun v => Sum.inrₗ (OrderDual.toDual v)

/-- What a product is ordered by. -/
abbrev OrderKey (κ : Type*) := WithTop (Value κ ⊕ₗ (Value κ)ᵒᵈ) ×ₗ κ ×ₗ κ

/-- `order by ${order}, p.name, p.source_id`. -/
def orderKey (sort : SortKey × Direction) (p : Product) (o : Option Offer) : OrderKey κ :=
  toLex (sort.2.place (sorts db p o sort.1), toLex (db.position p.name, db.position p.sourceId))

/-- The offers that `order by o.observed_at desc limit 1` may find. -/
def Product.LatestOffer (p : Product) : Option Offer → Prop
  | none => p.offers = []
  | some o => o ∈ p.offers ∧ ∀ other ∈ p.offers, other.observedAt ≤ o.observedAt

/-- The keys that a query may find for a product. -/
def orderKeys (sort : SortKey × Direction) (p : Product) : Set (OrderKey κ) :=
  {key | ∃ o, p.LatestOffer o ∧ key = orderKey db sort p o}

/-! ## The queries -/

variable (products : Products) (filters : Filters) (sort : SortKey × Direction)

/-- The products that `products` counts. -/
def matching : List Product := products.rows.filter (conditions db filters)

/-- `productRows` may return these rows. -/
def ProductRows (limit offset : ℕ) (rows : List Product) : Prop :=
  ∃ l, Offsets.Returns (orderKeys db sort) (matching db products filters) l ∧
    rows = (l.drop offset).take limit

/-- Whatever the queries return, the blocks of a scroll together are the products that match, each
of them once. -/
def ScrollsOnce (n : ℕ+) : Prop :=
  ∀ blocks : ℕ → List Product,
    (∀ k, ProductRows db products filters sort n (k * n) (blocks k)) →
      ∀ m, (matching db products filters).length ≤ m * n →
        ((List.range m).flatMap blocks).Perm (matching db products filters)

variable {db products filters sort}

theorem latestOffer_argmax (p : Product) : p.LatestOffer (p.offers.argmax Offer.observedAt) := by
  cases h : p.offers.argmax Offer.observedAt with
  | none => exact List.argmax_eq_none.mp h
  | some o => exact ⟨List.argmax_mem h, fun other hother => List.le_of_mem_argmax hother h⟩

/-- **A scroll shows every product once iff its blocks begin at settled offsets**: in front of each
block are products that come before the other ones, whichever of their latest offers are read. -/
theorem scrolls_once_iff (db : Database κ) (products : Products) (filters : Filters)
    (sort : SortKey × Direction) (n : ℕ+) :
    ScrollsOnce db products filters sort n ↔ ∀ k, k * n < (matching db products filters).length →
      Offsets.Settled (orderKeys db sort) (matching db products filters) (k * n) := by
  have hnodup : (matching db products filters).Nodup :=
    (List.Nodup.of_map _ products.ids_nodup).filter _
  have hkeys : ∀ p, (orderKeys db sort p).Nonempty := fun p => ⟨_, _, latestOffer_argmax p, rfl⟩
  rw [← Offsets.scroll_once_iff hnodup hkeys n]
  constructor
  · intro h answers hanswers m hm
    exact h _ (fun k => ⟨_, hanswers k, rfl⟩) m hm
  · intro h blocks hblocks m hm
    choose answers hanswers using hblocks
    rw [show blocks = _ from funext fun k => (hanswers k).2]
    exact h answers (fun k => (hanswers k).1) m hm

/-- A variant of one product. -/
def variant (id : ℕ) : Product :=
  ⟨id, "botz", "Celadon", none, none, none, none, none, none, none, none, none, [], "[]", []⟩

/-- Both blocks of a scroll may show the same variant. -/
theorem variant_shown_twice :
    ¬ScrollsOnce ⟨id, fun _ _ => true, id, id, fun _ => none, fun _ => none, (· / ·)⟩
      ⟨[variant 1, variant 2], by decide⟩
      ⟨"", none, none, none, none, none, none, none, none, none, [], [], []⟩ (.name, .asc) 1 := by
  intro h
  let answer : ℕ → List Product := fun k =>
    if k = 0 then [variant 1, variant 2] else [variant 2, variant 1]
  have hperm : ∀ k, (answer k).Perm [variant 1, variant 2] := by
    intro k
    by_cases hk : k = 0
    · rw [show answer k = _ from if_pos hk]
    · rw [show answer k = _ from if_neg hk]
      exact List.Perm.swap ..
  have hshown := h (fun k => ((answer k).drop (k * 1)).take 1)
    (fun k => ⟨answer k, ⟨_, fun p => ⟨_, latestOffer_argmax p, rfl⟩, hperm k, ?_⟩, rfl⟩) 2 le_rfl
  · exact absurd (hshown.map Product.id) (by decide)
  · refine List.pairwise_of_forall_mem_list fun p hp q hq => ?_
    have hp' : p = variant 1 ∨ p = variant 2 := by simpa using (hperm k).mem_iff.mp hp
    have hq' : q = variant 1 ∨ q = variant 2 := by simpa using (hperm k).mem_iff.mp hq
    obtain rfl | rfl := hp' <;> obtain rfl | rfl := hq' <;> exact le_rfl

end CommerceCollector.Explorer
