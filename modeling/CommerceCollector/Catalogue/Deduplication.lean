import CommerceCollector.Connectors.Prices
import Mathlib.Data.List.Induction

/-!
# Rows of one source, merged

`dedupe_key` of `scrapers/record.py` and the merge at the end of `LocalLibraryScraper.run`: of the
rows that share a key the first stays.  The key prefers the maker's code to the reference of the
shop and has no variant in it, so two offers are merged exactly when nothing in the key tells them
apart.
-/

namespace CommerceCollector.Deduplication

open Prices

/-- `package_size`. -/
structure PackageSize where
  value : Option ℚ
  unit : Option String
  deriving DecidableEq, Repr

/-- The fields of a row that tell offers apart, and those of its key. -/
structure Row where
  productUrl : String
  externalId : String
  parentExternalId : String
  name : Option String
  manufacturerSku : Option String
  supplierReference : Option String
  variantTitle : Option String
  price : Option ℚ
  currency : Option String
  packageSize : Option PackageSize
  deriving DecidableEq, Repr

/-- What `dedupe_key` returns. -/
structure DedupeKey where
  identity : List Char
  price : Option ℚ
  currency : Option String
  value : Option ℚ
  unit : Option String
  variantTitle : List Char
  deriving DecidableEq, Repr

variable (unicode : Unicode) (casefold : List Char → List Char)

/-- `domain.clean(value).casefold()`; the two functions of this name give the same text. -/
def folded (value : Option String) : List Char := casefold (clean unicode (value.getD "").toList)

/-- `first or second`, for texts. -/
def orElse (first second : List Char) : List Char := if first = [] then second else first

/-- `dedupe_key`. -/
def dedupeKey (row : Row) : DedupeKey where
  identity := orElse (orElse (folded unicode casefold row.manufacturerSku)
    (folded unicode casefold row.supplierReference)) (folded unicode casefold row.name)
  price := row.price
  currency := row.currency
  value := row.packageSize.bind PackageSize.value
  unit := row.packageSize.bind PackageSize.unit
  variantTitle := folded unicode casefold row.variantTitle

/-- `merged.setdefault(dedupe_key(row), row)`. -/
def setdefault (merged : List (DedupeKey × Row)) (row : Row) : List (DedupeKey × Row) :=
  if (merged.lookup (dedupeKey unicode casefold row)).isSome = true then merged
  else merged ++ [(dedupeKey unicode casefold row, row)]

/-- `merged`. -/
def merged (rows : List Row) : List (DedupeKey × Row) := rows.foldl (setdefault unicode casefold) []

/-- `result.records` after `LocalLibraryScraper.run`. -/
def records (rows : List Row) : List Row := (merged unicode casefold rows).map Prod.snd

/-- The row that stands for a row after the merge. -/
def standing (rows : List Row) (row : Row) : Option Row :=
  (merged unicode casefold rows).lookup (dedupeKey unicode casefold row)

/-- **Two offers**: rows with different references, or two variants of one product. -/
def Different (row other : Row) : Prop :=
  row.supplierReference ≠ other.supplierReference ∨
    row.parentExternalId = other.parentExternalId ∧ row.externalId ≠ other.externalId

instance (row other : Row) : Decidable (Different row other) := inferInstanceAs (Decidable (_ ∨ _))

/-- **No two offers are merged**: each of them has a row of its own among those that stay, and every
row that is dropped stands for the same offer as the row that stays for it. -/
def KeepsOffers (rows : List Row) : Prop :=
  (∀ row ∈ rows, ∀ other ∈ rows, Different row other →
    standing unicode casefold rows row ≠ standing unicode casefold rows other) ∧
  ∀ row ∈ rows, ∃ kept ∈ records unicode casefold rows,
    standing unicode casefold rows row = some kept ∧ ¬Different kept row

/-- **Nothing in the key tells two rows apart**: the maker's code, or else the reference of the
shop, or else the name, the price with its currency, the package and the title of the variant are
the same. -/
structure Alike (row other : Row) : Prop where
  identity : (dedupeKey unicode casefold row).identity = (dedupeKey unicode casefold other).identity
  price : row.price = other.price
  currency : row.currency = other.currency
  value : row.packageSize.bind PackageSize.value = other.packageSize.bind PackageSize.value
  unit : row.packageSize.bind PackageSize.unit = other.packageSize.bind PackageSize.unit
  variantTitle : folded unicode casefold row.variantTitle = folded unicode casefold other.variantTitle

variable {unicode casefold}

theorem dedupeKey_eq_iff {row other : Row} :
    dedupeKey unicode casefold row = dedupeKey unicode casefold other ↔
      Alike unicode casefold row other := by
  refine ⟨fun h => ?_, fun h => ?_⟩
  · exact ⟨congrArg DedupeKey.identity h, congrArg DedupeKey.price h, congrArg DedupeKey.currency h,
      congrArg DedupeKey.value h, congrArg DedupeKey.unit h, congrArg DedupeKey.variantTitle h⟩
  · rw [dedupeKey, dedupeKey, DedupeKey.mk.injEq]
    exact ⟨h.identity, h.price, h.currency, h.value, h.unit, h.variantTitle⟩

/-- **The first row with a key stays.** -/
theorem merged_lookup (rows : List Row) (key : DedupeKey) :
    (merged unicode casefold rows).lookup key =
      rows.find? fun row => dedupeKey unicode casefold row == key := by
  induction rows using List.reverseRecOn with
  | nil => rfl
  | append_singleton rows row ih =>
    rw [merged, List.foldl_append, List.foldl_cons, List.foldl_nil, ← merged, setdefault,
      List.find?_append, ← ih]
    by_cases hkey : dedupeKey unicode casefold row = key
    · subst hkey
      cases hfound : (merged unicode casefold rows).lookup (dedupeKey unicode casefold row) with
      | some found =>
        rw [if_pos (Option.isSome_some), hfound]
        rfl
      | none =>
        rw [if_neg (by simp), List.lookup_append, hfound]
        simp
    · have hne : (dedupeKey unicode casefold row == key) = false := beq_eq_false_iff_ne.mpr hkey
      have hne' : (key == dedupeKey unicode casefold row) = false :=
        beq_eq_false_iff_ne.mpr fun h => hkey h.symm
      split_ifs
      · rw [List.find?_singleton, hne]
        exact (Option.or_none).symm
      · rw [List.lookup_append, List.find?_singleton, hne, List.lookup_cons, hne']
        rfl

/-- A row has a row that stands for it, with its key, which is one of the rows. -/
theorem exists_standing {rows : List Row} {row : Row} (h : row ∈ rows) :
    ∃ kept, standing unicode casefold rows row = some kept ∧ kept ∈ rows ∧
      kept ∈ records unicode casefold rows ∧
      dedupeKey unicode casefold kept = dedupeKey unicode casefold row := by
  have hsome : (standing unicode casefold rows row).isSome := by
    rw [standing, merged_lookup, List.find?_isSome]
    exact ⟨row, h, beq_self_eq_true _⟩
  obtain ⟨kept, hkept⟩ := Option.isSome_iff_exists.mp hsome
  have hfind := hkept
  rw [standing, merged_lookup] at hfind
  refine ⟨kept, hkept, List.mem_of_find?_eq_some hfind, ?_, ?_⟩
  · obtain ⟨before, after, heq, -⟩ := List.lookup_eq_some_iff.mp hkept
    rw [records, heq]
    simp
  · exact beq_iff_eq.mp (List.find?_some (p := fun r => dedupeKey unicode casefold r ==
      dedupeKey unicode casefold row) hfind)

/-- **The merge keeps the offers of a source if and only if the key tells any two of them
apart.** -/
theorem keepsOffers_iff (unicode : Unicode) (casefold : List Char → List Char) (rows : List Row) :
    KeepsOffers unicode casefold rows ↔ ∀ row ∈ rows, ∀ other ∈ rows, Different row other →
      ¬Alike unicode casefold row other := by
  have hstanding := fun row hrow => @exists_standing unicode casefold rows row hrow
  constructor
  · intro h row hrow other hother hdifferent halike
    refine h.1 row hrow other hother hdifferent ?_
    rw [standing, standing, dedupeKey_eq_iff.mpr halike]
  · intro h
    have hapart : ∀ row ∈ rows, ∀ other ∈ rows, Different row other →
        standing unicode casefold rows row ≠ standing unicode casefold rows other := by
      intro row hrow other hother hdifferent hsame
      obtain ⟨kept, hkept, -, -, hkey⟩ := hstanding row hrow
      obtain ⟨kept', hkept', -, -, hkey'⟩ := hstanding other hother
      obtain rfl := Option.some.inj (hkept.symm.trans (hsame.trans hkept'))
      exact h row hrow other hother hdifferent (dedupeKey_eq_iff.mp (hkey.symm.trans hkey'))
    refine ⟨hapart, fun row hrow => ?_⟩
    obtain ⟨kept, hkept, hmem, hrecord, hkey⟩ := hstanding row hrow
    exact ⟨kept, hrecord, hkept, fun hdifferent =>
      h kept hmem row hrow hdifferent (dedupeKey_eq_iff.mp hkey)⟩

/-- A glaze that a shop sells under a reference. -/
def blueRutile (reference : String) : Row where
  productUrl := "https://shop.example/" ++ reference
  externalId := "shop:https://shop.example/" ++ reference
  parentExternalId := "shop:https://shop.example/" ++ reference
  name := some "Blue Rutile"
  manufacturerSku := some "PC20"
  supplierReference := some reference
  variantTitle := none
  price := some 10
  currency := some "EUR"
  packageSize := none

/-- Of two offers with the code of one maker at one price the second is dropped. -/
theorem dedupe_merges_references :
    records ⟨id, Char.isAlphanum⟩ id [blueRutile "1001", blueRutile "1002"] = [blueRutile "1001"] ∧
      Different (blueRutile "1001") (blueRutile "1002") := by
  decide +kernel

end CommerceCollector.Deduplication
