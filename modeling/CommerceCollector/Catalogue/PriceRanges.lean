import Mathlib.Algebra.Order.Floor.Ring
import Mathlib.Data.Rat.Floor
import Mathlib.Order.RelClasses

/-!
# Price ranges

`SEARCH` and `as_product` of the catalogue service: the smallest and the largest unit price of the
latest offers of a product, published as euros.  The query takes the numbers as they are recorded,
whatever their currency, and `to_eur`, which would convert them, is not called.  So a range is in
euros exactly when the extreme number that is recorded is the extreme of the converted prices too.
-/

namespace CommerceCollector.PriceRanges

/-! ## The catalogue -/

/-- The columns of `catalogue.offer_observations` that `SEARCH` and `to_eur` read. -/
structure Offer where
  id : ℕ
  observedAt : ℤ
  unitPrice : Option ℚ
  unitPricePer : Option String
  currency : Option String
  deriving DecidableEq, Repr

/-- A source product with its observations. -/
structure SourceProduct where
  sourceId : String
  active : Bool
  offers : List Offer
  deriving DecidableEq, Repr

/-- A canonical product with its source products. -/
structure CanonicalProduct where
  id : String
  brand : Option String
  manufacturerSku : Option String
  name : String
  family : Option String
  firingRange : Option String
  sourceProducts : List SourceProduct
  deriving DecidableEq, Repr

/-- `order by o.observed_at desc, o.id desc limit 1`. -/
def latest (offers : List Offer) : Option Offer :=
  offers.find? fun o => offers.all fun p =>
    decide (p.observedAt < o.observedAt) || p.observedAt == o.observedAt && decide (p.id ≤ o.id)

/-- The latest offers of the active source products. -/
def CanonicalProduct.latestOffers (c : CanonicalProduct) : List Offer :=
  (c.sourceProducts.filter SourceProduct.active).filterMap fun sp => latest sp.offers

/-! ## `SEARCH` -/

/-- `min` for `≤` and `max` for `≥`, over the prices that are no null. -/
def extreme (le : ℚ → ℚ → Prop) [DecidableRel le] : List ℚ → Option ℚ
  | [] => none
  | x :: xs =>
    match extreme le xs with
    | none => some x
    | some y => some (if le x y then x else y)

/-- `filter (where o.unit_price_per = unit)`. -/
def perUnit (unit : String) (offers : List Offer) : List Offer :=
  offers.filter fun o => o.unitPricePer == some unit

/-- A row of the result of `SEARCH`. -/
structure SearchRow where
  product : CanonicalProduct
  sourceCount : ℕ
  minPricePerLitre : Option ℚ
  maxPricePerLitre : Option ℚ
  minPricePerKg : Option ℚ
  maxPricePerKg : Option ℚ

/-- The row of a canonical product. -/
def searchRow (c : CanonicalProduct) : SearchRow :=
  let prices := fun unit => (perUnit unit c.latestOffers).filterMap Offer.unitPrice
  { product := c
    sourceCount := ((c.sourceProducts.filter SourceProduct.active).map SourceProduct.sourceId).dedup.length
    minPricePerLitre := extreme (· ≤ ·) (prices "l")
    maxPricePerLitre := extreme (· ≥ ·) (prices "l")
    minPricePerKg := extreme (· ≤ ·) (prices "kg")
    maxPricePerKg := extreme (· ≥ ·) (prices "kg") }

/-! ## What is published -/

/-- `price` of a product; the date is that of the rates. -/
structure PriceRange where
  currency : String := "EUR"
  rateDate : ℤ
  minPerLitre : Option ℚ
  maxPerLitre : Option ℚ
  minPerKilogram : Option ℚ
  maxPerKilogram : Option ℚ
  deriving DecidableEq, Repr

/-- A published product. -/
structure Product where
  canonicalProductId : String
  brand : Option String
  manufacturerSku : Option String
  canonicalName : String
  family : Option String
  firingRange : Option String
  sourceCount : ℕ
  price : PriceRange
  deriving DecidableEq, Repr

/-- `as_product`. -/
def asProduct (row : SearchRow) (rateDate : ℤ) : Product where
  canonicalProductId := row.product.id
  brand := row.product.brand
  manufacturerSku := row.product.manufacturerSku
  canonicalName := row.product.name
  family := row.product.family
  firingRange := row.product.firingRange
  sourceCount := row.sourceCount
  price :=
    { rateDate := rateDate
      minPerLitre := row.minPricePerLitre
      maxPerLitre := row.maxPricePerLitre
      minPerKilogram := row.minPricePerKg
      maxPerKilogram := row.maxPricePerKg }

/-! ## `to_eur` -/

/-- `REFERENCE_RATES`. -/
def referenceRates : List (String × ℚ) :=
  [("EUR", 1), ("USD", 92 / 100), ("GBP", 117 / 100), ("CHF", 105 / 100), ("SEK", 88 / 1000),
    ("NOK", 86 / 1000), ("DKK", 134 / 1000), ("PLN", 23 / 100), ("CZK", 40 / 1000),
    ("HUF", 26 / 10000), ("BGN", 51 / 100), ("RON", 20 / 100)]

/-- `round(value, 4)`, to the even neighbour from the middle. -/
def round4 (value : ℚ) : ℚ :=
  let scaled := value * 10000
  let below := ⌊scaled⌋
  let rest := scaled - below
  (if rest < 1 / 2 ∨ rest = 1 / 2 ∧ below % 2 = 0 then below else below + 1 : ℤ) / 10000

/-- `to_eur`; `upper` is `str.upper`. -/
def toEur (upper : String → String) (amount : Option ℚ) (currency : Option String) : Option ℚ :=
  amount.bind fun amount =>
    (referenceRates.lookup (upper ((currency.filter (· ≠ "")).getD "EUR"))).map fun rate =>
      round4 (amount * rate)

/-- An offer in euros. -/
def Offer.euros (upper : String → String) (o : Offer) : Option ℚ := toEur upper o.unitPrice o.currency

/-- What a range in euros is: the extremes of the prices that `to_eur` converts. -/
def eurosRange (upper : String → String) (c : CanonicalProduct) (rateDate : ℤ) : PriceRange :=
  let prices := fun unit => (perUnit unit c.latestOffers).filterMap (Offer.euros upper)
  { rateDate := rateDate
    minPerLitre := extreme (· ≤ ·) (prices "l")
    maxPerLitre := extreme (· ≥ ·) (prices "l")
    minPerKilogram := extreme (· ≤ ·) (prices "kg")
    maxPerKilogram := extreme (· ≥ ·) (prices "kg") }

/-! ## When a range is in euros -/

/-- No offer has a price, or the price that one offer records is what another converts to, and no
offer records or converts to a lower one. -/
def InEuros (upper : String → String) (le : ℚ → ℚ → Prop) (offers : List Offer) : Prop :=
  (∀ o ∈ offers, o.unitPrice = none) ∨
    ∃ recorded ∈ offers, ∃ converted ∈ offers, ∃ price, recorded.unitPrice = some price ∧
      converted.euros upper = some price ∧
        ∀ o ∈ offers, (∀ x, o.unitPrice = some x → le price x) ∧ ∀ x, o.euros upper = some x → le price x

section Extreme

variable {le : ℚ → ℚ → Prop} [DecidableRel le] [Std.Total le] [IsTrans ℚ le] [Std.Antisymm le]

omit [Std.Antisymm le] in
theorem extreme_spec (xs : List ℚ) :
    (extreme le xs = none ∧ xs = []) ∨ ∃ x, extreme le xs = some x ∧ x ∈ xs ∧ ∀ y ∈ xs, le x y := by
  induction xs with
  | nil => exact .inl ⟨rfl, rfl⟩
  | cons x xs ih =>
    have hrefl : le x x := (Std.Total.total (r := le) x x).elim id id
    rw [extreme]
    obtain ⟨hnone, rfl⟩ | ⟨y, hsome, hy, hall⟩ := ih
    · rw [hnone]
      exact .inr ⟨x, rfl, List.mem_cons_self, List.forall_mem_cons.mpr ⟨hrefl, nofun⟩⟩
    · rw [hsome]
      by_cases hxy : le x y
      · refine .inr ⟨x, congrArg some (if_pos hxy), List.mem_cons_self, List.forall_mem_cons.mpr ⟨hrefl, ?_⟩⟩
        exact fun z hz => IsTrans.trans x y z hxy (hall z hz)
      · refine .inr ⟨y, congrArg some (if_neg hxy), List.mem_cons_of_mem x hy, List.forall_mem_cons.mpr ⟨?_, hall⟩⟩
        exact (@Std.Total.total ℚ le _ x y).resolve_left hxy

theorem extreme_eq_some_iff {xs : List ℚ} {x : ℚ} :
    extreme le xs = some x ↔ x ∈ xs ∧ ∀ y ∈ xs, le x y := by
  obtain ⟨hnone, rfl⟩ | ⟨y, hsome, hy, hall⟩ := @extreme_spec le _ _ _ xs
  · exact iff_of_false (hnone ▸ nofun) fun h => absurd h.1 List.not_mem_nil
  · rw [hsome, Option.some.injEq]
    constructor
    · rintro rfl
      exact ⟨hy, hall⟩
    · rintro ⟨hx, hall'⟩
      exact Std.Antisymm.antisymm _ _ (hall x hx) (hall' y hy)

/-- **The extreme that is recorded is that of the converted prices exactly when it is in euros.** -/
theorem extreme_euros_iff (upper : String → String) (offers : List Offer) :
    extreme le (offers.filterMap Offer.unitPrice) = extreme le (offers.filterMap (Offer.euros upper)) ↔
      InEuros upper le offers := by
  obtain ⟨hnone, hempty⟩ | ⟨price, hsome, hmem, hall⟩ :=
    @extreme_spec le _ _ _ (offers.filterMap Offer.unitPrice)
  · rw [List.filterMap_eq_nil_iff] at hempty
    have heuros : offers.filterMap (Offer.euros upper) = [] := by
      rw [List.filterMap_eq_nil_iff]
      intro o ho
      rw [Offer.euros, hempty o ho]
      rfl
    rw [hnone, heuros]
    exact iff_of_true rfl (.inl hempty)
  · rw [hsome, eq_comm, extreme_eq_some_iff]
    obtain ⟨recorded, hrecorded, hprice⟩ := List.mem_filterMap.mp hmem
    have hrecords : ∀ o ∈ offers, ∀ x, o.unitPrice = some x → le price x := fun o ho x hx =>
      hall x (List.mem_filterMap.mpr ⟨o, ho, hx⟩)
    constructor
    · rintro ⟨hconverted, hle⟩
      obtain ⟨converted, hconverted, heuros⟩ := List.mem_filterMap.mp hconverted
      refine .inr ⟨recorded, hrecorded, converted, hconverted, price, hprice, heuros, fun o ho => ?_⟩
      exact ⟨hrecords o ho, fun x hx => hle x (List.mem_filterMap.mpr ⟨o, ho, hx⟩)⟩
    · rintro (hunpriced | ⟨other, hother, converted, hconverted, x, hx, heuros, hboth⟩)
      · exact nomatch (hunpriced recorded hrecorded).symm.trans hprice
      · obtain rfl := Std.Antisymm.antisymm (r := le) _ _ ((hboth recorded hrecorded).1 price hprice)
          (hrecords other hother x hx)
        refine ⟨List.mem_filterMap.mpr ⟨converted, hconverted, heuros⟩, fun y hy => ?_⟩
        obtain ⟨o, ho, hy⟩ := List.mem_filterMap.mp hy
        exact (hboth o ho).2 y hy

end Extreme

/-- A product that one shop offers for 10 euros a litre and another for 9 dollars. -/
def mixedGlaze : CanonicalProduct where
  id := "c-1"
  brand := some "AMACO"
  manufacturerSku := some "PC-20"
  name := "Blue Rutile"
  family := some "glaze"
  firingRange := none
  sourceProducts :=
    [⟨"eu", true, [⟨1, 0, some 10, some "l", some "EUR"⟩]⟩,
      ⟨"us", true, [⟨2, 0, some 9, some "l", some "USD"⟩]⟩]

end CommerceCollector.PriceRanges
