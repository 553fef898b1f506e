import CommerceCollector.Catalogue.Promotion
import CommerceCollector.Foundation.Characters
import Mathlib.Data.List.Dedup

/-!
# When a promotion succeeds

The rows that a promotion merges pass the checks of the table, one for each manufacturer and code,
and a promotion that succeeds leaves the rows that the rule of the upsert says.  It succeeds under
every plan exactly if the rows that are adopted have codes of their own and the merged rows are
compatible with the canonical products: no other row has the brand and the code that one of them is
written with.
-/

namespace CommerceCollector.Promotion

open Relational

variable {pg : Text} {s s' : Catalogue} {scope : Option String} {now : ℤ} {plan : Plan}
variable {r : Promoted}

/-! ## Texts -/

theorem mem_trimmed {characters text : List Char} {c : Char} (hc : c ∈ text)
    (hout : c ∉ characters) : c ∈ trimmed characters text := by
  have hdrop : ∀ l : List Char, c ∈ l → c ∈ l.dropWhile (characters.contains ·) := by
    intro l hl
    induction l with
    | nil => exact hl
    | cons d l ih =>
      rw [List.dropWhile_cons]
      split
      · rename_i hd
        rcases List.mem_cons.mp hl with rfl | hl
        · exact absurd (by simpa using hd) hout
        · exact ih hl
      · exact hl
  exact List.mem_reverse.mpr (hdrop _ (List.mem_reverse.mpr (hdrop _ hc)))

theorem exists_mem_trimmed {characters text : List Char} (h : trimmed characters text ≠ []) :
    ∃ c ∈ trimmed characters text, c ∉ characters := by
  unfold trimmed at h ⊢
  obtain ⟨c, rest, hcons⟩ := List.exists_cons_of_ne_nil fun hnil =>
    h (List.reverse_eq_nil_iff.mpr hnil)
  refine ⟨c, List.mem_reverse.mpr (hcons ▸ List.mem_cons_self), fun hmem => ?_⟩
  have hhead := List.head?_dropWhile_not (characters.contains ·)
    (text.dropWhile (characters.contains ·)).reverse
  rw [hcons] at hhead
  simp [hmem] at hhead

theorem blank_eq_false {text : String} {c : Char} (hc : c ∈ text.toList) (hne : c ≠ ' ') :
    blank text = false := by
  rw [Bool.eq_false_iff]
  intro hblank
  exact hne (by simpa using List.all_eq_true.mp hblank c hc)

theorem toUpper_ne_blank {c : Char} (h : (c.isAlpha || c.isDigit) = true) : c.toUpper ≠ ' ' := by
  have hsmall : c.toNat < 128 := toNat_alphanum h
  have hall : ∀ n < 128, ((Char.ofNat n).isAlpha || (Char.ofNat n).isDigit) = true →
      (Char.ofNat n).toUpper ≠ ' ' := by
    decide
  have hchar := hall c.toNat hsmall
  rw [Char.ofNat_toNat] at hchar
  exact hchar h

theorem blank_uppered {sku : Option String} {key : String} (h : skuKey sku = some key) :
    blank (pg.uppered (btrim (sku.getD ""))) = false := by
  have hsome : ∃ c ∈ (sku.getD "").toList, (c.isAlpha || c.isDigit) = true := by
    by_contra hnone
    push Not at hnone
    have hfilter : (sku.getD "").toList.filter (fun c => c.isAlpha || c.isDigit) = [] :=
      List.filter_eq_nil_iff.mpr hnone
    simp [skuKey, Search.skuKey, hfilter] at h
  obtain ⟨c, hc, halnum⟩ := hsome
  have hblank : c ≠ ' ' := by
    rintro rfl
    exact absurd halnum (by decide)
  have hmem : c ∈ (btrim (sku.getD "")).toList := by
    rw [btrim, String.toList_ofList]
    exact mem_trimmed hc (by simpa using hblank)
  have hupper : pg.upper c ≠ ' ' := by
    rw [pg.upper_eq c halnum]
    exact toUpper_ne_blank halnum
  refine blank_eq_false (c := pg.upper c) ?_ hupper
  rw [Text.uppered, String.toList_ofList]
  exact List.mem_map_of_mem hmem

theorem blank_cleanName {name : String} (h : blank name = false) :
    blank ((cleanProductName pg name).getD name) = false := by
  unfold cleanProductName
  dsimp only
  split
  · exact h
  · rename_i hne
    obtain ⟨c, hc, hout⟩ := exists_mem_trimmed hne
    refine blank_eq_false (c := c) (by simpa using hc) ?_
    rintro rfl
    exact hout (by decide)

/-! ## Merged rows -/

variable (pg s scope) in
/-- The candidates. -/
def candidates : List Candidate := s.sourceProducts.filterMap (candidate pg s scope)

/-- A candidate comes from a source product of its manufacturer and code. -/
theorem candidate_eq_some {sp : SourceProduct} {c : Candidate}
    (h : candidate pg s scope sp = some c) :
    ∃ m, maker pg s sp.columns.brand = some m ∧
      skuKey sp.columns.manufacturerSku = some c.skuKey ∧ c.manufacturerId = m.id ∧
      c.manufacturerName = m.name ∧
      c.sku = pg.uppered (btrim (sp.columns.manufacturerSku.getD "")) ∧
      c.cleanName = (cleanProductName pg sp.columns.name).getD sp.columns.name ∧
      m.active = true ∧ inScope scope m.id = true := by
  unfold candidate at h
  split at h
  · rename_i m key hmaker hkey
    split at h
    · rename_i hin
      cases h
      exact ⟨m, hmaker, hkey, rfl, rfl, rfl, rfl, hin.2.1, hin.2.2⟩
    · cases h
  · cases h

/-- An active source product of an active manufacturer in scope, with a code, is a candidate. -/
theorem exists_candidate {sp : SourceProduct} {m : Manufacturer} {key : String}
    (hsp : sp ∈ s.sourceProducts) (hactive : sp.columns.active = true)
    (hmaker : maker pg s sp.columns.brand = some m)
    (hkey : skuKey sp.columns.manufacturerSku = some key) (hm : m.active = true)
    (hin : inScope scope m.id = true) :
    ∃ c ∈ candidates pg s scope, c.identity = (m.id, key) := by
  have hsome : ∃ c, candidate pg s scope sp = some c ∧ c.identity = (m.id, key) := by
    unfold candidate
    rw [hmaker, hkey]
    exact ⟨_, if_pos ⟨hactive, hm, hin⟩, rfl⟩
  obtain ⟨c, hc, hidentity⟩ := hsome
  exact ⟨c, List.mem_filterMap.mpr ⟨sp, hsp, hc⟩, hidentity⟩

theorem mem_of_maker {brand : Option String} {m : Manufacturer} (h : maker pg s brand = some m) :
    m ∈ s.manufacturers := by
  obtain ⟨b, -, h⟩ := Option.bind_eq_some_iff.mp h
  obtain ⟨id, -, h⟩ := Option.bind_eq_some_iff.mp h
  exact List.mem_of_find?_eq_some h

theorem mem_merged {g : Merged} (h : g ∈ merged pg s scope) :
    ∃ c ∈ candidates pg s scope, ∃ group, c ∈ group ∧ (∀ d ∈ group, d ∈ candidates pg s scope) ∧
      (∀ d ∈ group, d.identity = c.identity) ∧ g = merge pg c group := by
  obtain ⟨identity, -, h⟩ := List.mem_filterMap.mp h
  split at h
  · cases h
  · rename_i c cs hgroup
    cases h
    have hmem : ∀ d ∈ c :: cs, d ∈ candidates pg s scope ∧ d.identity = identity := by
      intro d hd
      rw [← hgroup, List.mem_filter] at hd
      exact ⟨hd.1, by simpa using hd.2⟩
    have hc := hmem c List.mem_cons_self
    refine ⟨c, hc.1, c :: cs, List.mem_cons_self, fun d hd => (hmem d hd).1, fun d hd => ?_, rfl⟩
    rw [(hmem d hd).2, hc.2]

variable (pg s scope) in
/-- **One row is merged for each manufacturer and code.** -/
theorem merged_identity :
    (merged pg s scope).map Merged.identity =
      ((candidates pg s scope).map Candidate.identity).dedup := by
  unfold merged
  rw [List.map_filterMap]
  refine (List.filterMap_congr (g := some) fun identity hmem => ?_).trans (List.filterMap_some)
  obtain ⟨c, hc, rfl⟩ := List.mem_map.mp (List.mem_dedup.mp hmem)
  have hfilter : c ∈ ((s.sourceProducts.filterMap (candidate pg s scope)).filter
      (·.identity == c.identity)) := List.mem_filter.mpr ⟨hc, by simp⟩
  split
  · rename_i hnil
    rw [hnil] at hfilter
    exact absurd hfilter List.not_mem_nil
  · rename_i d ds hgroup
    have hd : d.identity = c.identity := by
      have := List.mem_filter.mp (hgroup ▸ List.mem_cons_self : d ∈ _)
      simpa using this.2
    rw [← hd]
    rfl

variable (pg s scope) in
theorem merged_keys_nodup (now : ℤ) :
    ((merged pg s scope).map (rule pg now).key).Nodup := by
  have h := merged_identity pg s scope
  change ((merged pg s scope).map Merged.identity).Nodup
  rw [h]
  exact List.nodup_dedup _

theorem headD_insertionSort_mem {α : Type*} {r : α → α → Prop} [DecidableRel r] {c : α}
    {group : List α} (hc : c ∈ group) : (group.insertionSort r).headD c ∈ group := by
  have hperm := List.perm_insertionSort r group
  cases hsort : group.insertionSort r with
  | nil => exact hc
  | cons d ds =>
    rw [hsort] at hperm
    exact hperm.subset List.mem_cons_self

/-- **A merged row passes the checks**, if the names of the manufacturers and of the source products
do. -/
theorem checked_of_mem_merged (hmakers : ∀ m ∈ s.manufacturers, blank m.name = false)
    (hproducts : ∀ sp ∈ s.sourceProducts, blank sp.columns.name = false) {g : Merged}
    (hg : g ∈ merged pg s scope) : g.checked = true := by
  obtain ⟨c, -, group, hc, hgroup, -, rfl⟩ := mem_merged hg
  have hall : ∀ d ∈ group, blank d.manufacturerName = false ∧ blank d.sku = false ∧
      blank d.cleanName = false := by
    intro d hd
    obtain ⟨sp, hsp, hcandidate⟩ := List.mem_filterMap.mp (hgroup d hd)
    obtain ⟨m, hmaker, hkey, -, hname, hsku, hclean, -, -⟩ := candidate_eq_some hcandidate
    rw [hname, hsku, hclean]
    exact ⟨hmakers m (mem_of_maker hmaker), blank_uppered hkey, blank_cleanName (hproducts sp hsp)⟩
  unfold Merged.checked merge
  dsimp only
  rw [(hall _ (headD_insertionSort_mem hc)).1, (hall _ (headD_insertionSort_mem hc)).2.1,
    (hall _ (headD_insertionSort_mem hc)).2.2]
  rfl

/-! ## Adoption -/

variable (pg s scope now) in
/-- The canonical products after the adoption. -/
def adopted : List CanonicalProduct := s.canonicalProducts.map (adopt pg s scope now)

variable (pg s scope now) in
theorem adopt_cases (c : CanonicalProduct) :
    adopt pg s scope now c = c ∨
      ∃ m, c.manufacturerId = none ∧ c.manufacturerSku.isSome ∧ maker pg s c.brand = some m ∧
        inScope scope m.id = true ∧ adopt pg s scope now c =
          { c with manufacturerId := some m.id, skuKey := skuKey c.manufacturerSku,
                   updatedAt := now } := by
  unfold adopt
  split
  · rename_i hcond
    split
    · rename_i m hmaker
      split
      · rename_i hin
        exact .inr ⟨m, hcond.1, hcond.2, hmaker, hin, rfl⟩
      · exact .inl rfl
    · exact .inl rfl
  · exact .inl rfl

theorem adopt_of_some {c : CanonicalProduct} {m : String} (h : c.manufacturerId = some m) :
    adopt pg s scope now c = c := by
  unfold adopt
  rw [if_neg]
  rintro ⟨hnone, -⟩
  rw [h] at hnone
  cases hnone

theorem adopt_eq (c : CanonicalProduct) :
    adopt pg s scope now c =
      { c with manufacturerId := (adopt pg s scope now c).manufacturerId
               skuKey := (adopt pg s scope now c).skuKey
               updatedAt := (adopt pg s scope now c).updatedAt } := by
  rcases adopt_cases pg s scope now c with h | ⟨m, -, -, -, -, h⟩
  · rw [h]
  · rw [h]

/-! ## The statements together -/

/-- The scope of a promotion is empty, or a manufacturer of the table. -/
def Known (s : Catalogue) (scope : Option String) : Prop :=
  ∀ id ∈ scope, ∃ m ∈ s.manufacturers, m.id = id

variable (pg s scope) in
/-- The rows that are adopted have codes of their own, and no merged row that is written gets the
brand and the code of another row: neither of a canonical product nor of another merged row. -/
structure Compatible : Prop where
  adoption : ∀ now, UniqueOn CanonicalProduct.identity (adopted pg s scope now)
  upsert : ∀ now, (rule pg now).Compatible (adopted pg s scope now) (merged pg s scope)

/-- The tables behind the upsert. -/
def withTable (s : Catalogue) (t : UpsertRule.Table CanonicalProduct) : Catalogue :=
  { s with canonicalProducts := t.rows, nextId := t.next }

variable (pg) in
/-- The tables behind the links. -/
def after (s : Catalogue) (t : UpsertRule.Table CanonicalProduct) (scope : Option String) (now : ℤ) :
    Catalogue where
  manufacturers := s.manufacturers
  aliases := s.aliases
  canonicalProducts := t.rows
  nextId := t.next
  sourceProducts := s.sourceProducts.map (link pg (withTable s t) scope)
  generation := s.generation + 1
  promotedAt := now

/-- **What a promotion that succeeds has done.** -/
theorem promote_ok (h : promote pg plan now scope s = .ok (s', r)) :
    ∃ t, UniqueOn CanonicalProduct.identity (adopted pg s scope now) ∧
      (rule pg now).upsertAll ⟨adopted pg s scope now, s.nextId⟩
        (plan.arrange (merged pg s scope)) = some t ∧
      (∀ g ∈ plan.arrange (merged pg s scope), g.checked = true) ∧
      s' = after pg s t scope now := by
  unfold promote at h
  split at h
  · cases h
  · dsimp only at h
    split at h
    · cases h
    · rename_i hunique
      split at h
      · cases h
      · rename_i hchecked
        split at h
        · cases h
        · rename_i t ht
          refine ⟨t, not_not.mp hunique, ht, fun g hg => ?_, (Prod.mk.inj (Except.ok.inj h)).1.symm⟩
          by_contra hnot
          exact hchecked (List.any_eq_true.mpr ⟨g, hg, by simpa using hnot⟩)

theorem promote_isOk (hknown : Known s scope)
    (hunique : UniqueOn CanonicalProduct.identity (adopted pg s scope now))
    (hchecked : ∀ g ∈ merged pg s scope, g.checked = true)
    (hupsert : ((rule pg now).upsertAll ⟨adopted pg s scope now, s.nextId⟩
      (plan.arrange (merged pg s scope))).isSome) :
    ∃ s' r, promote pg plan now scope s = .ok (s', r) := by
  obtain ⟨t, ht⟩ := Option.isSome_iff_exists.mp hupsert
  unfold promote
  rw [if_neg]
  · dsimp only
    unfold adopted at hunique ht
    rw [if_neg (not_not.mpr hunique), if_neg, ht]
    · exact ⟨_, _, rfl⟩
    · intro hany
      obtain ⟨g, hg, hnot⟩ := List.any_eq_true.mp hany
      rw [hchecked g ((plan.perm _).subset hg)] at hnot
      cases hnot
  · intro hany
    obtain ⟨id, hid, hnot⟩ := (Option.any_eq_true _ _).mp hany
    obtain ⟨m, hm, rfl⟩ := hknown id hid
    have hall : s.manufacturers.any (·.id == m.id) = true :=
      List.any_eq_true.mpr ⟨m, hm, beq_self_eq_true _⟩
    rw [hall] at hnot
    cases hnot

/-- **A promotion succeeds under every plan iff its rows are compatible.** -/
theorem promote_total_iff (hmakers : ∀ m ∈ s.manufacturers, blank m.name = false)
    (hproducts : ∀ sp ∈ s.sourceProducts, blank sp.columns.name = false)
    (hknown : Known s scope) :
    (∀ plan now, ∃ s' r, promote pg plan now scope s = .ok (s', r)) ↔ Compatible pg s scope := by
  have hkeys := merged_keys_nodup pg s scope
  constructor
  · intro htotal
    refine ⟨fun now => ?_, fun now => ?_⟩
    · obtain ⟨s', r, h⟩ := htotal ⟨id, fun groups => List.Perm.refl groups⟩ now
      obtain ⟨t, hunique, -, -, -⟩ := promote_ok h
      exact hunique
    · refine (UpsertRule.forall_perm_isSome_iff (t := ⟨adopted pg s scope now, s.nextId⟩)
        (hkeys now)).mp fun es hperm => ?_
      -- The plan that arranges the merged rows in this order.
      classical
      let plan : Plan := {
        arrange := fun groups => if groups = merged pg s scope then es else groups
        perm := fun groups => by
          split
          · rename_i heq
            exact heq ▸ hperm
          · exact List.Perm.refl groups }
      obtain ⟨s', r, h⟩ := htotal plan now
      obtain ⟨t, -, ht, -, -⟩ := promote_ok h
      have harrange : plan.arrange (merged pg s scope) = es := if_pos rfl
      rw [harrange] at ht
      exact Option.isSome_iff_exists.mpr ⟨t, ht⟩
  · intro h plan now
    refine promote_isOk hknown (h.adoption now)
      (fun g hg => checked_of_mem_merged hmakers hproducts hg) ?_
    exact ((h.upsert now).perm (plan.perm _)).isSome
      (((plan.perm _).map _).nodup_iff.mpr (hkeys now))

end CommerceCollector.Promotion
