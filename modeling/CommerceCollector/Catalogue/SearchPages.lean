import CommerceCollector.Catalogue.Search
import Mathlib.Data.String.Basic

/-!
# Following the pages of a search

`decodeCursor_encodeCursor`: a cursor holds the ordering key of its row.  With it the requests of a
reader who follows `next_cursor` are a run of the general paging (`pages_iff_run`), which always
comes to an end.  The keyset predicate compares the three values of the key in one direction, while
the order is descending in the count and ascending in the rest: the pages show every product once
and in order exactly when every page end separates the rows (`separated`), which fails as soon as a
page ends between two coded products with one stockist count.
-/

namespace CommerceCollector.Search

open JsonText

/-! ## The cursor is read back -/

theorem decodeText_encodeText {text : List Char} (h : ∀ c ∈ text, c.toNat < 128) :
    decodeText (encodeText text) = some text := by
  have hvalue : ∀ c ∈ text, c.toNat % 256 = c.toNat := fun c hc =>
    Nat.mod_eq_of_lt (lt_trans (h c hc) (by decide))
  have hall : ((encodeText text).all fun b => b.val < 128) = true := by
    rw [encodeText, List.all_map, List.all_eq_true]
    intro c hc
    simpa [hvalue c hc] using h c hc
  have hchars : (encodeText text).map (fun b => Char.ofNat b.val) = text := by
    rw [encodeText, List.map_map]
    conv_rhs => rw [← List.map_id text]
    refine List.map_congr_left ?_
    intro c hc
    simp [hvalue c hc]
  rw [decodeText, if_pos hall, hchars]

theorem plain_values (key : CursorKey) : ∀ v ∈ key.values, Plain v := by
  simp only [CursorKey.values, List.forall_mem_cons]
  exact ⟨.number _, .string _, .string _, nofun⟩

theorem encodeCursor_ne_empty (r : Row) : encodeCursor r ≠ "" := by
  intro h
  have hstrip : Base64.strip (Base64.encode (encodeText (dumpsArray r.key.values))) = [] := by
    simpa [encodeCursor] using congrArg String.toList h
  have hbytes := Base64.decode_pad_strip (encodeText (dumpsArray r.key.values))
  rw [hstrip] at hbytes
  exact List.cons_ne_nil _ _ (Option.some.inj hbytes).symm

/-- **The cursor of a row holds its ordering key.** -/
theorem decodeCursor_values (r : Row) :
    decodeCursor (some (encodeCursor r)) = some r.key.values := by
  have htext := decodeText_encodeText (dumpsArray_ascii _ (plain_values r.key))
  have hloads := loads_dumpsArray _ (plain_values r.key)
  simp only [decodeCursor, if_neg (encodeCursor_ne_empty r)]
  rw [encodeCursor, String.toList_ofList, Base64.decode_pad_strip, Option.bind_some, htext,
    Option.bind_some, hloads]
  rfl

theorem cursorKey_values (key : CursorKey) : cursorKey key.values = some (some key) := by
  have hdigits : (Number.ofNat key.1).text.all Char.isDigit = true := by
    rw [List.all_eq_true]
    exact fun c hc => Nat.isDigit_of_mem_toDigits (by decide) (by decide) hc
  have hvalue : numberValue (.ofNat key.1) = some key.1 := by
    rw [numberValue, if_pos hdigits]
    exact congrArg some Nat.ofDigitChars_ten_toDigits
  rw [CursorKey.values, cursorKey, hvalue]
  rfl

/-! ## The order -/

variable {κ : Type*} [LinearOrder κ] (pg : Collation κ) (db : Catalogue) (f : Filter) (limit : ℤ)

/-- A row lies below the last row of a page. -/
def Below (r last : Row) : Prop := Precedes pg r last.key

instance : DecidableRel (Below pg) := fun r last => inferInstanceAs (Decidable (Precedes pg r last.key))

/-- The rows of a page. -/
def pageSize (limit : ℤ) : ℕ := (min limit maxLimit).toNat

/-- What a reader sees who follows the cursors from a request to the end. -/
inductive Pages : Option String → List Row → Prop
  | last {cursor : Option String} {page : List Row} (a : Arrangement pg)
      (answer : search pg a db f limit cursor = .products page none) : Pages cursor page
  | more {cursor : Option String} {page shown : List Row} {next : String} (a : Arrangement pg)
      (answer : search pg a db f limit cursor = .products page (some next))
      (rest : Pages (some next) shown) : Pages cursor (page ++ shown)

/-- A reader who follows the cursors from a request gets products every time and comes to an end. -/
inductive Ends : Option String → Prop
  | intro {cursor : Option String}
      (answered : ∀ a : Arrangement pg, ∃ page next,
        search pg a db f limit cursor = .products page next)
      (step : ∀ (a : Arrangement pg) (page : List Row) (next : String),
        search pg a db f limit cursor = .products page (some next) → Ends (some next)) : Ends cursor

/-- Every matching product is shown once, in the order of the search. -/
def Complete (shown : List Row) : Prop := Keyset.Arranges (RowLe pg) (matching pg db f) shown

/-- However the products are arranged, at the end of every page that is not the last one the
products that compare below its last product are the products behind it. -/
def SeparatedPages : Prop :=
  Keyset.Separated (RowLe pg) (Below pg) (matching pg db f) (pageSize limit)

variable {pg db f limit}

theorem rowLe_total (r s : Row) : RowLe pg r s ∨ RowLe pg s r := le_total _ _

theorem rowLe_trans (r s t : Row) : RowLe pg r s → RowLe pg s t → RowLe pg r t := le_trans

theorem exists_arranges (rows : List Row) : ∃ l, Keyset.Arranges (RowLe pg) rows l :=
  Keyset.exists_arranges rowLe_total rowLe_trans rows

theorem exists_arrangement {rows l : List Row} (h : Keyset.Arranges (RowLe pg) rows l) :
    ∃ a : Arrangement pg, a.arrange rows = l := by
  classical
  have hany : ∀ rows : List Row, ∃ l, Keyset.Arranges (RowLe pg) rows l := exists_arranges
  choose arrange harrange using hany
  refine ⟨⟨Function.update arrange rows l, ?_⟩, Function.update_self ..⟩
  intro other
  by_cases hother : other = rows
  · subst hother
    rwa [Function.update_self]
  · rw [Function.update_of_ne hother]
    exact harrange other

theorem below_trans (r s t : Row) : Below pg r s → Below pg s t → Below pg r t := lt_trans

theorem below_irrefl (r : Row) : ¬Below pg r r := lt_irrefl _

theorem matching_nodup : (matching pg db f).Nodup := by
  have hids : ((matching pg db f).map fun r => r.product.id).Nodup := by
    rw [matching, List.map_map]
    exact (db.ids_nodup.sublist (List.filter_sublist.map _))
  exact hids.of_map _

theorem pageSize_pos (h : 1 ≤ limit) : 0 < pageSize limit := by
  unfold pageSize maxLimit
  omega

/-! ## The requests are a run of the paging -/

theorem search_eq (h : 1 ≤ limit) (a : Arrangement pg) (c : Option Row) {l : List Row}
    (hl : a.arrange (Keyset.visible (Below pg) (matching pg db f) c) = l) :
    search pg a db f limit (c.map encodeCursor) =
      .products (l.take (pageSize limit))
        (if pageSize limit < l.length then (l[pageSize limit - 1]?).map encodeCursor else none) := by
  have hpos := pageSize_pos h
  have hlimit : ¬min limit maxLimit < 1 := by
    unfold maxLimit
    omega
  have hquery : runQuery pg a db f (pageSize limit + 1) (decodeCursor (c.map encodeCursor)) =
      some (l.take (pageSize limit + 1)) := by
    cases c with
    | none => exact congrArg (fun rows => some (rows.take (pageSize limit + 1))) hl
    | some last =>
      rw [Option.map_some, decodeCursor_values, runQuery, cursorKey_values]
      exact congrArg (fun rows => some (rows.take (pageSize limit + 1))) hl
  have hcursor : ((c.map encodeCursor).any (· ≠ "") &&
      (decodeCursor (c.map encodeCursor)).isNone) = false := by
    cases c with
    | none => rfl
    | some last =>
      rw [Option.map_some, decodeCursor_values]
      simp
  have hpage : (l.take (pageSize limit + 1)).take (pageSize limit) = l.take (pageSize limit) := by
    rw [List.take_take, Nat.min_eq_left (Nat.le_succ _)]
  have hmore : pageSize limit < (l.take (pageSize limit + 1)).length ↔ pageSize limit < l.length := by
    rw [List.length_take]
    omega
  have hlast : pageSize limit < l.length →
      (l.take (pageSize limit)).getLast? = l[pageSize limit - 1]? := by
    intro hlt
    rw [List.getLast?_eq_getElem?, List.length_take, Nat.min_eq_left hlt.le,
      List.getElem?_take_of_lt (by omega)]
  unfold search
  simp only [if_neg hlimit, hcursor]
  rw [show (min limit maxLimit).toNat = pageSize limit from rfl, hquery]
  simp only [hpage]
  by_cases hlt : pageSize limit < l.length
  · rw [if_pos hlt, if_pos (hmore.mpr hlt), hlast hlt]
    rfl
  · rw [if_neg hlt, if_neg (fun hlonger => hlt (hmore.mp hlonger))]
    rfl

/-- **Following the cursors is a run of the paging.** -/
theorem pages_iff_run (h : 1 ≤ limit) (c : Option Row) (shown : List Row) :
    Pages pg db f limit (c.map encodeCursor) shown ↔
      Keyset.Run (RowLe pg) (Below pg) (matching pg db f) (pageSize limit) c shown := by
  constructor
  · intro hpages
    generalize hcursor : c.map encodeCursor = cursor at hpages
    induction hpages generalizing c with
    | last a answer =>
      subst hcursor
      have harranged := a.arranges (Keyset.visible (Below pg) (matching pg db f) c)
      rw [search_eq h a c rfl, Answer.products.injEq] at answer
      generalize a.arrange (Keyset.visible (Below pg) (matching pg db f) c) = l at answer harranged
      obtain ⟨rfl, hnext⟩ := answer
      have hfits : l.length ≤ pageSize limit := by
        by_contra hlong
        have hpos := pageSize_pos h
        rw [if_pos (by omega), List.getElem?_eq_getElem (by omega)] at hnext
        exact nomatch hnext
      rw [List.take_of_length_le hfits]
      exact .last harranged hfits
    | more a answer _ ih =>
      subst hcursor
      have harranged := a.arranges (Keyset.visible (Below pg) (matching pg db f) c)
      rw [search_eq h a c rfl, Answer.products.injEq] at answer
      generalize a.arrange (Keyset.visible (Below pg) (matching pg db f) c) = l at answer harranged
      obtain ⟨rfl, hnext⟩ := answer
      split at hnext
      · rename_i hlt
        obtain ⟨r, hr, hcursor⟩ := Option.map_eq_some_iff.mp hnext
        exact .more harranged hlt hr (ih (some r) (congrArg some hcursor))
      · exact nomatch hnext
  · intro hrun
    induction hrun with
    | last arranged fits =>
      obtain ⟨a, ha⟩ := exists_arrangement arranged
      refine .last a ?_
      rw [search_eq h a _ ha, List.take_of_length_le fits, if_neg (Nat.not_lt.mpr fits)]
    | more arranged fits ends _ ih =>
      obtain ⟨a, ha⟩ := exists_arrangement arranged
      refine .more a ?_ ih
      rw [search_eq h a _ ha, if_pos fits, ends]
      rfl

/-- **The cursors come to an end.** -/
theorem ends (h : 1 ≤ limit) (c : Option Row) : Ends pg db f limit (c.map encodeCursor) := by
  induction hn : (Keyset.visible (Below pg) (matching pg db f) c).length
    using Nat.strong_induction_on generalizing c with
  | _ n ih =>
    refine .intro (fun a => ⟨_, _, search_eq h a c rfl⟩) ?_
    intro a page next answer
    have harranged := a.arranges (Keyset.visible (Below pg) (matching pg db f) c)
    rw [search_eq h a c rfl, Answer.products.injEq] at answer
    generalize a.arrange (Keyset.visible (Below pg) (matching pg db f) c) = l at answer harranged
    obtain ⟨-, hnext⟩ := answer
    split at hnext
    · obtain ⟨r, hr, rfl⟩ := Option.map_eq_some_iff.mp hnext
      have hmem := harranged.1.mem_iff.mp (List.mem_of_getElem? hr)
      exact ih _ (hn ▸ Keyset.length_visible_lt below_trans below_irrefl hmem) (some r) rfl
    · exact nomatch hnext

/-! ## Page ends among coded products -/

/-- Every matching product has a brand and a code, and no two of them have both in common. -/
structure Coded (pg : Collation κ) (db : Catalogue) (f : Filter) : Prop where
  brand : ∀ r ∈ matching pg db f, ∃ b, r.product.brand = some b
  sku : ∀ r ∈ matching pg db f, ∃ s, r.product.manufacturerSku = some s
  distinct : ∀ r ∈ matching pg db f, ∀ s ∈ matching pg db f,
    r.product.brand = s.product.brand → r.product.manufacturerSku = s.product.manufacturerSku → r = s

/-! ## The pages of a search -/

/-- **The pages of a search end, their cursors hold the ordering keys, and they show every matching
product once and in order exactly when every page end separates the products.** -/
theorem search_complete_iff (hlimit : 1 ≤ limit) :
    (Ends pg db f limit none ∧
      (∀ shown, Pages pg db f limit none shown → Complete pg db f shown) ∧
        ∀ r : Row, decodeCursor (some (encodeCursor r)) = some r.key.values) ↔
      SeparatedPages pg db f limit := by
  have hruns : (∀ shown, Pages pg db f limit none shown → Complete pg db f shown) ↔
      SeparatedPages pg db f limit := by
    have hgeneral : (∀ shown, Keyset.Run (RowLe pg) (Below pg) (matching pg db f) (pageSize limit)
        none shown → Complete pg db f shown) ↔ SeparatedPages pg db f limit :=
      Keyset.complete_iff_separated exists_arranges below_trans below_irrefl (pageSize_pos hlimit)
        matching_nodup
    rw [← hgeneral]
    refine forall_congr' fun shown => ?_
    have hrun : Pages pg db f limit none shown ↔
        Keyset.Run (RowLe pg) (Below pg) (matching pg db f) (pageSize limit) none shown :=
      pages_iff_run hlimit none shown
    rw [hrun]
  constructor
  · rintro ⟨-, hcomplete, -⟩
    exact hruns.mp hcomplete
  · intro hsep
    exact ⟨ends hlimit none, hruns.mpr hsep, decodeCursor_values⟩

/-- Texts in the order of their characters, and no pattern. -/
def plainCollation : Collation String where
  position := id
  position_injective := Function.injective_id
  empty_le s := by
    have hle : ([] : List Char) ≤ s.toList := by
      cases s.toList with
      | nil => exact le_refl _
      | cons c cs => exact le_of_lt (List.nil_lt_cons c cs)
    exact String.le_iff_toList_le.mpr hle
  ilike _ _ := false

/-- A glaze that no shop carries. -/
def firstGlaze : CanonicalProduct :=
  ⟨"a", some "AMACO", some "PC-20", "Blue Rutile", none, true, none, none⟩

/-- Another one. -/
def secondGlaze : CanonicalProduct :=
  ⟨"b", some "Botz", some "9101", "White", none, true, none, none⟩

/-- A catalogue with the two glazes. -/
def twoGlazes : Catalogue where
  canonicalProducts := [firstGlaze, secondGlaze]
  sourceProducts := []
  ids_nodup := by decide

/-- A search without a filter. -/
def everything : Filter := ⟨none, none, none, none⟩

theorem search_complete_iff_two :
    (1 : ℤ) ≤ 2 ∧
      ((Ends plainCollation twoGlazes everything 2 none ∧
        (∀ shown, Pages plainCollation twoGlazes everything 2 none shown →
          Complete plainCollation twoGlazes everything shown) ∧
          ∀ r : Row, decodeCursor (some (encodeCursor r)) = some r.key.values) ↔
        SeparatedPages plainCollation twoGlazes everything 2) :=
  ⟨by decide, search_complete_iff (by decide)⟩

/-- **Two products with one stockist count, a page each: the second one is never shown.** -/
theorem search_loses_product :
    ¬∀ shown, Pages plainCollation twoGlazes everything 1 none shown →
      Complete plainCollation twoGlazes everything shown := by
  intro hcomplete
  have hrows : matching plainCollation twoGlazes everything = [⟨firstGlaze, 0⟩, ⟨secondGlaze, 0⟩] := by
    decide
  have hfirst : Keyset.Arranges (RowLe plainCollation)
      (matching plainCollation twoGlazes everything) [⟨firstGlaze, 0⟩, ⟨secondGlaze, 0⟩] := by
    refine ⟨hrows ▸ List.Perm.refl _, ?_⟩
    rw [List.pairwise_pair]
    exact Prod.Lex.toLex_le_toLex.mpr (.inr ⟨rfl, Prod.Lex.toLex_le_toLex.mpr (.inl (by decide))⟩)
  have hnothing : Keyset.visible (Below plainCollation)
      (matching plainCollation twoGlazes everything) (some ⟨firstGlaze, 0⟩) = [] := by
    rw [hrows]
    decide
  have hrun : Pages plainCollation twoGlazes everything 1 none [⟨firstGlaze, 0⟩] := by
    have hnext : Keyset.Run (RowLe plainCollation) (Below plainCollation)
        (matching plainCollation twoGlazes everything) (pageSize 1) (some ⟨firstGlaze, 0⟩) [] :=
      .last ⟨hnothing ▸ List.Perm.refl _, .nil⟩ (Nat.zero_le _)
    have hlong : pageSize 1 < [(⟨firstGlaze, 0⟩ : Row), ⟨secondGlaze, 0⟩].length := by decide
    exact (pages_iff_run (by decide) none _).mpr (.more hfirst hlong rfl hnext)
  have hlength := (hcomplete _ hrun).1.length_eq
  rw [hrows] at hlength
  exact absurd hlength (by decide)

end CommerceCollector.Search
