import CommerceCollector.Catalogue.PromotionTotal

/-!
# The rows of a promotion

The constraints of the schema, which a promotion keeps; what it does with the row of a canonical
product and with the link of a source product; and the second of two promotions, which succeeds
whenever the first does, under any plan, and changes nothing but times and the counter.
-/

namespace CommerceCollector.Promotion

open Relational

variable {pg : Text} {s s' : Catalogue} {scope : Option String} {now now' : ℤ} {plan plan' : Plan}
variable {r : Promoted} {t : UpsertRule.Table CanonicalProduct}

/-! ## Constraints -/

/-- The checks of a canonical product, and its manufacturer. -/
structure CanonicalProduct.Checked (s : Catalogue) (c : CanonicalProduct) : Prop where
  brand : ∀ text ∈ c.brand, blank text = false
  manufacturerSku : ∀ text ∈ c.manufacturerSku, blank text = false
  name : blank c.name = false
  manufacturer : ∀ id ∈ c.manufacturerId, ∃ m ∈ s.manufacturers, m.id = id

/-- The checks of the columns of a source product. -/
structure ProductColumns.Checked (columns : ProductColumns) : Prop where
  brand : ∀ text ∈ columns.brand, blank text = false
  name : blank columns.name = false

variable (pg) in
/-- The constraints of the schema. -/
structure Catalogue.Valid (s : Catalogue) : Prop where
  manufacturers : (s.manufacturers.map (·.id)).Nodup
  names : (s.manufacturers.map fun m => pg.lowered m.name).Nodup
  named : ∀ m ∈ s.manufacturers, blank m.name = false
  aliases : (s.aliases.map Prod.fst).Nodup
  aliased : ∀ a ∈ s.aliases, blank a.1 = false ∧ pg.lowered a.1 = a.1 ∧
    ∃ m ∈ s.manufacturers, m.id = a.2
  ids : (s.canonicalProducts.map (·.id)).Nodup
  fresh : ∀ c ∈ s.canonicalProducts, c.id < s.nextId
  checked : ∀ c ∈ s.canonicalProducts, c.Checked s
  identities : UniqueOn CanonicalProduct.identity s.canonicalProducts
  labels : UniqueOn (CanonicalProduct.label pg) s.canonicalProducts
  products : (s.sourceProducts.map (·.id)).Nodup
  columns : ∀ sp ∈ s.sourceProducts, sp.columns.Checked
  links : ∀ sp ∈ s.sourceProducts, ∀ i ∈ sp.canonicalProductId,
    ∃ c ∈ s.canonicalProducts, c.id = i

/-! ## Links -/

/-- The manufacturer and the code of a source product. -/
def identity (pg : Text) (s : Catalogue) (sp : SourceProduct) : Option (String × String) :=
  match maker pg s sp.columns.brand, skuKey sp.columns.manufacturerSku with
  | some m, some key => some (m.id, key)
  | _, _ => none

variable {c : CanonicalProduct} {sp : SourceProduct}

/-- The target of a link is a row of the manufacturer and the code of the source product. -/
theorem mem_of_target (h : target pg s scope sp = some c) :
    c ∈ s.canonicalProducts ∧ (identity pg s sp).isSome ∧ c.identity = identity pg s sp := by
  unfold target at h
  split at h
  · rename_i m key hmaker hkey
    split at h
    · have hidentity : identity pg s sp = some (m.id, key) := by
        unfold identity
        rw [hmaker, hkey]
      rw [hidentity]
      exact ⟨List.mem_of_find?_eq_some h, rfl, by simpa using List.find?_some h⟩
    · cases h
  · cases h

/-- A source product of an active manufacturer in scope, with a code that has a row, has a
target. -/
theorem exists_target {m : Manufacturer} {key : String}
    (hmaker : maker pg s sp.columns.brand = some m)
    (hkey : skuKey sp.columns.manufacturerSku = some key) (hm : m.active = true)
    (hin : inScope scope m.id = true)
    (hrow : ∃ c ∈ s.canonicalProducts, c.identity = some (m.id, key)) :
    ∃ c, target pg s scope sp = some c ∧ c.identity = some (m.id, key) := by
  obtain ⟨d, hd, hidentity⟩ := hrow
  have hsome : (s.canonicalProducts.find? (·.identity == some (m.id, key))).isSome := by
    rw [List.find?_isSome]
    exact ⟨d, hd, by simp [hidentity]⟩
  obtain ⟨c, hc⟩ := Option.isSome_iff_exists.mp hsome
  refine ⟨c, ?_, by simpa using List.find?_some hc⟩
  unfold target
  rw [hmaker, hkey]
  exact (if_pos ⟨hm, hin⟩).trans hc

@[simp] theorem link_columns (sp : SourceProduct) :
    (link pg s scope sp).columns = sp.columns := by
  unfold link
  split
  · split <;> rfl
  · rfl

@[simp] theorem link_id (sp : SourceProduct) : (link pg s scope sp).id = sp.id := by
  unfold link
  split
  · split <;> rfl
  · rfl

theorem link_of_target (h : target pg s scope sp = some c) :
    (link pg s scope sp).canonicalProductId = some c.id := by
  unfold link
  rw [h]
  dsimp only
  split
  · rename_i heq
    exact heq
  · rfl

theorem link_of_none (h : target pg s scope sp = none) : link pg s scope sp = sp := by
  unfold link
  rw [h]

/-! ## The rows -/

theorem rewriteAll_id {rows : List CanonicalProduct} {gs : List Merged} (c : CanonicalProduct) :
    ((rule pg now).rewriteAll rows gs c).id = c.id := by
  unfold UpsertRule.rewriteAll
  split
  · split <;> rfl
  · rfl

theorem rewriteAll_identity {rows : List CanonicalProduct} {gs : List Merged}
    (c : CanonicalProduct) : ((rule pg now).rewriteAll rows gs c).identity = c.identity := by
  unfold UpsertRule.rewriteAll
  split
  · split <;> rfl
  · rfl

section Statements

variable (ht : (rule pg now).upsertAll ⟨adopted pg s scope now, s.nextId⟩
  (plan.arrange (merged pg s scope)) = some t)

variable (pg s scope) in
theorem arranged_keys_nodup (plan : Plan) (now : ℤ) :
    ((plan.arrange (merged pg s scope)).map (rule pg now).key).Nodup :=
  ((plan.perm _).map _).nodup_iff.mpr (merged_keys_nodup pg s scope now)

include ht

/-- **Where a row comes from**: it was adopted, perhaps; or a merged row has been written into it;
or a merged row was inserted. -/
theorem row_cases (hc : c ∈ t.rows) :
    (∃ d ∈ s.canonicalProducts, c = adopt pg s scope now d ∧
        ∀ g ∈ merged pg s scope, (rule pg now).Writes (adopted pg s scope now) g →
          c.identity ≠ some g.identity) ∨
      ∃ g ∈ merged pg s scope, c.identity = some g.identity ∧
        ((∃ d ∈ s.canonicalProducts, d.origin = .promoted ∧
            c = g.write now (adopt pg s scope now d)) ∨
          ∃ i, s.nextId ≤ i ∧ i < t.next ∧ c = g.make now i) := by
  rcases UpsertRule.mem_upsertAll (arranged_keys_nodup pg s scope plan now) ht hc with
    ⟨hc, hnot⟩ | ⟨g, hg, hwrites, ⟨d, hd, hkey, rfl⟩ | ⟨-, i, hle, hlt, rfl⟩⟩
  · obtain ⟨d, hd, rfl⟩ := List.mem_map.mp hc
    exact .inl ⟨d, hd, rfl, fun g hg => hnot g ((plan.perm _).symm.subset hg)⟩
  · have hpromoted := hwrites d hd hkey
    obtain ⟨d, hmem, rfl⟩ := List.mem_map.mp hd
    refine .inr ⟨g, (plan.perm _).subset hg, hkey, .inl ⟨d, hmem, ?_, rfl⟩⟩
    rw [adopt_eq] at hpromoted
    simpa [rule] using hpromoted
  · exact .inr ⟨g, (plan.perm _).subset hg, rfl, .inr ⟨i, hle, hlt, rfl⟩⟩

theorem exists_row_of_mem (hc : c ∈ s.canonicalProducts) :
    ∃ d ∈ t.rows, d.id = c.id ∧ d.identity = (adopt pg s scope now c).identity ∧
      d.origin = c.origin ∧ (d = adopt pg s scope now c ∨ c.origin = .promoted) := by
  have hmem := UpsertRule.rewriteAll_mem (arranged_keys_nodup pg s scope plan now) ht
    (List.mem_map_of_mem hc)
  refine ⟨_, hmem, ?_, rewriteAll_identity _, ?_⟩
  · rw [rewriteAll_id, adopt_eq]
  unfold UpsertRule.rewriteAll
  have hadopt : (adopt pg s scope now c).origin = c.origin := by
    rw [adopt_eq]
  split
  · rename_i g hfind
    split
    · rename_i hwrites
      have hpromoted := hwrites _ (List.mem_map_of_mem hc) (by simpa using List.find?_some hfind)
      refine ⟨hadopt, .inr ?_⟩
      rw [← hadopt]
      simpa [rule] using hpromoted
    · exact ⟨hadopt, .inl rfl⟩
  · exact ⟨hadopt, .inl rfl⟩

theorem exists_row_of_candidate {c : Candidate} (hc : c ∈ candidates pg s scope) :
    ∃ d ∈ t.rows, d.identity = some c.identity := by
  have hmem : c.identity ∈ (merged pg s scope).map Merged.identity := by
    rw [merged_identity, List.mem_dedup]
    exact List.mem_map_of_mem hc
  obtain ⟨g, hg, hidentity⟩ := List.mem_map.mp hmem
  obtain ⟨d, hd, hkey⟩ := UpsertRule.exists_row (arranged_keys_nodup pg s scope plan now) ht
    ((plan.perm _).symm.subset hg)
  exact ⟨d, hd, hkey.trans (congrArg some hidentity)⟩

theorem row_ids : t.rows.map (·.id) = s.canonicalProducts.map (·.id) ++
    List.range' s.nextId (t.next - s.nextId) := by
  have hids := UpsertRule.map_upsertAll (f := CanonicalProduct.id) (arranged_keys_nodup pg s scope plan now) ht
    (fun _ _ => rfl) (fun _ _ => rfl)
  have hnext : t.next = s.nextId + ((rule pg now).missing (adopted pg s scope now)
      (plan.arrange (merged pg s scope))).length := by
    rw [UpsertRule.upsertAll_eq (arranged_keys_nodup pg s scope plan now) ht]
  have hadopted : (adopted pg s scope now).map (·.id) = s.canonicalProducts.map (·.id) := by
    unfold adopted
    rw [List.map_map]
    refine List.map_congr_left fun c _ => ?_
    rw [Function.comp_apply, adopt_eq]
  rw [hnext, Nat.add_sub_cancel_left, ← hadopted]
  exact hids

end Statements

/-! ## Constraints are kept -/

theorem exists_manufacturer_of_merged {g : Merged} (hg : g ∈ merged pg s scope) :
    ∃ m ∈ s.manufacturers, m.id = g.manufacturerId := by
  obtain ⟨c, hc, group, -, -, -, rfl⟩ := mem_merged hg
  obtain ⟨sp, -, hcandidate⟩ := List.mem_filterMap.mp hc
  obtain ⟨m, hmaker, -, hid, -⟩ := candidate_eq_some hcandidate
  exact ⟨m, mem_of_maker hmaker, hid.symm⟩

theorem CanonicalProduct.Checked.adopt (h : c.Checked s) : (adopt pg s scope now c).Checked s := by
  rcases adopt_cases pg s scope now c with heq | ⟨m, -, -, hmaker, -, heq⟩
  · rw [heq]
    exact h
  · rw [heq]
    refine ⟨h.brand, h.manufacturerSku, h.name, fun id hid => ?_⟩
    exact ⟨m, mem_of_maker hmaker, Option.some.inj hid⟩

theorem CanonicalProduct.Checked.of_merged {g : Merged} (hchecked : g.checked = true)
    (hbrand : c.brand = some g.manufacturerName) (hsku : c.manufacturerSku = some g.sku)
    (hname : c.name = g.name)
    (hmaker : ∀ id ∈ c.manufacturerId, ∃ m ∈ s.manufacturers, m.id = id) : c.Checked s := by
  simp only [Merged.checked, Bool.and_eq_true, Bool.not_eq_true'] at hchecked
  refine ⟨fun text htext => ?_, fun text htext => ?_, hname ▸ hchecked.2, hmaker⟩
  · rw [hbrand] at htext
    exact Option.some.inj htext ▸ hchecked.1.1
  · rw [hsku] at htext
    exact Option.some.inj htext ▸ hchecked.1.2

/-- **A promotion keeps the constraints of the schema.** -/
theorem Catalogue.Valid.promote (hs : s.Valid pg)
    (h : promote pg plan now scope s = .ok (s', r)) : s'.Valid pg := by
  obtain ⟨t, hunique, ht, hchecked, rfl⟩ := promote_ok h
  have hids := row_ids ht
  have hlabels : UniqueOn (CanonicalProduct.label pg) (adopted pg s scope now) :=
    hs.labels.map fun c _ => by
      rw [adopt_eq]
      rfl
  obtain ⟨hidentities, hlabels⟩ := UpsertRule.uniqueOn_upsertAll ht hunique hlabels
  refine ⟨hs.manufacturers, hs.names, hs.named, hs.aliases, hs.aliased, ?_, ?_, ?_, hidentities,
    hlabels, ?_, ?_, ?_⟩
  · change (t.rows.map (·.id)).Nodup
    rw [hids]
    refine List.Nodup.append hs.ids List.nodup_range' fun i hi hnew => ?_
    obtain ⟨c, hc, rfl⟩ := List.mem_map.mp hi
    have hlt := hs.fresh c hc
    have hle := (List.mem_range'_1.mp hnew).1
    omega
  · intro c hc
    have hmem : c.id ∈ t.rows.map (·.id) := List.mem_map_of_mem hc
    rw [hids, List.mem_append, List.mem_range'_1] at hmem
    have hnext : s.nextId ≤ t.next := by
      rw [UpsertRule.upsertAll_eq (arranged_keys_nodup pg s scope plan now) ht]
      exact Nat.le_add_right _ _
    rcases hmem with hmem | hmem
    · obtain ⟨d, hd, hid⟩ := List.mem_map.mp hmem
      have hlt := hs.fresh d hd
      change c.id < t.next
      omega
    · change c.id < t.next
      omega
  · intro c hc
    have hrow : c.Checked s := by
      rcases row_cases ht hc with ⟨d, hd, rfl, -⟩ | ⟨g, hg, -, ⟨d, hd, -, rfl⟩ | ⟨i, -, -, rfl⟩⟩
      · exact (hs.checked d hd).adopt
      · have hcheck := hchecked g ((plan.perm _).symm.subset hg)
        exact .of_merged hcheck rfl rfl rfl (hs.checked d hd).adopt.manufacturer
      · have hcheck := hchecked g ((plan.perm _).symm.subset hg)
        refine .of_merged hcheck rfl rfl rfl fun id hid => ?_
        exact Option.some.inj hid ▸ exists_manufacturer_of_merged hg
    exact ⟨hrow.brand, hrow.manufacturerSku, hrow.name, hrow.manufacturer⟩
  · have hproducts : (s.sourceProducts.map (link pg (withTable s t) scope)).map (·.id) =
        s.sourceProducts.map (·.id) := by
      rw [List.map_map]
      exact List.map_congr_left fun sp _ => link_id sp
    exact (congrArg List.Nodup hproducts).mpr hs.products
  · intro sp hsp
    obtain ⟨sp, hmem, rfl⟩ := List.mem_map.mp hsp
    rw [link_columns]
    exact hs.columns sp hmem
  · intro sp hsp i hi
    obtain ⟨sp, hmem, rfl⟩ := List.mem_map.mp hsp
    cases htarget : target pg (withTable s t) scope sp with
    | none =>
      rw [link_of_none htarget] at hi
      obtain ⟨c, hc, rfl⟩ := hs.links sp hmem i hi
      obtain ⟨d, hd, hid, -⟩ := exists_row_of_mem ht hc
      exact ⟨d, hd, hid⟩
    | some c =>
      rw [link_of_target htarget] at hi
      exact ⟨c, (mem_of_target htarget).1, Option.some.inj hi⟩

/-- **A curated row keeps every field** but the manufacturer, the key and the time. -/
theorem curated_kept (h : promote pg plan now scope s = .ok (s', r)) (hc : c ∈ s.canonicalProducts)
    (horigin : c.origin = .curated) :
    ∃ d ∈ s'.canonicalProducts, d = { c with manufacturerId := d.manufacturerId,
                                             skuKey := d.skuKey, updatedAt := d.updatedAt } := by
  obtain ⟨t, -, ht, -, rfl⟩ := promote_ok h
  obtain ⟨d, hd, -, -, -, rfl | hpromoted⟩ := exists_row_of_mem ht hc
  · exact ⟨_, hd, adopt_eq c⟩
  · rw [horigin] at hpromoted
    cases hpromoted

/-- **Every active source product of an active manufacturer in scope, with a code, is linked** to
the one row of the manufacturer and the code. -/
theorem linked_of_promote (hs : s.Valid pg) (h : promote pg plan now scope s = .ok (s', r))
    (hsp : sp ∈ s'.sourceProducts) (hactive : sp.columns.active = true) {m : Manufacturer}
    {key : String} (hmaker : maker pg s' sp.columns.brand = some m)
    (hkey : skuKey sp.columns.manufacturerSku = some key) (hm : m.active = true)
    (hin : inScope scope m.id = true) :
    ∃ c ∈ s'.canonicalProducts, c.identity = some (m.id, key) ∧
      sp.canonicalProductId = some c.id ∧
      ∀ d ∈ s'.canonicalProducts, d.identity = some (m.id, key) → d = c := by
  have hvalid := hs.promote h
  obtain ⟨t, -, ht, -, rfl⟩ := promote_ok h
  obtain ⟨sp, hmem, rfl⟩ := List.mem_map.mp hsp
  rw [link_columns] at hactive hmaker hkey
  obtain ⟨e, he, heid⟩ := exists_candidate hmem hactive hmaker hkey hm hin
  obtain ⟨d, hd, hdid⟩ := exists_row_of_candidate ht he
  rw [heid] at hdid
  obtain ⟨c, htarget, hidentity⟩ :=
    exists_target (s := withTable s t) hmaker hkey hm hin ⟨d, hd, hdid⟩
  have hc := (mem_of_target htarget).1
  refine ⟨c, hc, hidentity, link_of_target htarget, fun d hd hd' => ?_⟩
  exact hvalid.identities.eq hd hc hd' hidentity

/-! ## The second promotion -/

/-- The tables without times and without the counter. -/
def Catalogue.withoutTimes (s : Catalogue) : Catalogue :=
  { s with canonicalProducts := s.canonicalProducts.map ({ · with updatedAt := 0 })
           generation := 0
           promotedAt := 0 }

theorem candidate_after (sp : SourceProduct) :
    candidate pg (after pg s t scope now) scope (link pg (withTable s t) scope sp) =
      candidate pg s scope sp := by
  unfold candidate
  rw [link_columns, link_id]
  rfl

variable (pg s t scope now) in
theorem merged_after : merged pg (after pg s t scope now) scope = merged pg s scope := by
  have h : (after pg s t scope now).sourceProducts.filterMap
      (candidate pg (after pg s t scope now) scope) =
        s.sourceProducts.filterMap (candidate pg s scope) := by
    refine (List.filterMap_map).trans (List.filterMap_congr fun sp _ => ?_)
    exact candidate_after sp
  unfold merged
  rw [h]

theorem adopt_adopt (c : CanonicalProduct) :
    adopt pg (after pg s t scope now) scope now' (adopt pg s scope now c) =
      adopt pg s scope now c := by
  rcases adopt_cases pg (after pg s t scope now) scope now' (adopt pg s scope now c) with
    h | ⟨m, hnone, hsku, hmaker, hin, -⟩
  · exact h
  · rcases adopt_cases pg s scope now c with heq | ⟨m', -, -, -, -, heq⟩
    · -- The row would have been adopted.
      rw [heq] at hnone hsku hmaker
      have hadopt : (adopt pg s scope now c).manufacturerId = some m.id := by
        unfold adopt
        rw [if_pos ⟨hnone, hsku⟩, show maker pg s c.brand = some m from hmaker]
        dsimp only
        rw [if_pos hin]
      rw [heq, hnone] at hadopt
      cases hadopt
    · rw [heq] at hnone
      cases hnone

theorem concat_concat (a b : Attributes) : concat (concat a b) b = concat a b := by
  unfold concat
  rw [List.filter_append, List.filter_filter]
  have hnil : b.filter (fun e => e.1 ∉ b.map Prod.fst) = [] :=
    List.filter_eq_nil_iff.mpr fun e he => by simpa using ⟨e.2, he⟩
  rw [hnil, List.append_nil]
  simp

theorem Merged.write_write (g : Merged) (c : CanonicalProduct) :
    { g.write now' (g.write now c) with updatedAt := 0 } =
      { g.write now c with updatedAt := 0 } := by
  have horElse : ∀ a b : Option String, (a <|> (a <|> b)) = (a <|> b) := by
    intro a b
    cases a <;> rfl
  simp only [Merged.write, concat_concat, horElse]

theorem Merged.write_make (g : Merged) (i : ℕ) :
    { g.write now' (g.make now i) with updatedAt := 0 } = { g.make now i with updatedAt := 0 } := by
  have hconcat : concat g.attributes g.attributes = g.attributes := by
    simpa [concat] using concat_concat [] g.attributes
  have horElse : ∀ a : Option String, (a <|> a) = a := by
    intro a
    cases a <;> rfl
  simp only [Merged.write, Merged.make, hconcat, horElse]

/-- The target of a source product, after a change of the rows that keeps their keys. -/
theorem target_of_map {ρ : CanonicalProduct → CanonicalProduct} {sp sp' : SourceProduct}
    (hmanufacturers : s'.manufacturers = s.manufacturers) (haliases : s'.aliases = s.aliases)
    (hrows : s'.canonicalProducts = s.canonicalProducts.map ρ)
    (hidentity : ∀ c, (ρ c).identity = c.identity)
    (hcolumns : sp'.columns = sp.columns) :
    target pg s' scope sp' = (target pg s scope sp).map ρ := by
  have hmaker : maker pg s' sp'.columns.brand = maker pg s sp.columns.brand := by
    unfold maker
    rw [hmanufacturers, haliases, hcolumns]
  have hfind : ∀ key, (s.canonicalProducts.map ρ).find? (·.identity == some key) =
      (s.canonicalProducts.find? (·.identity == some key)).map ρ := by
    intro key
    rw [List.find?_map]
    simp only [Function.comp_def, hidentity]
  unfold target
  rw [hmaker, hcolumns, hrows]
  split
  · rw [hfind]
    split
    · rfl
    · rfl
  · rfl

theorem link_link {ρ : CanonicalProduct → CanonicalProduct} (hid : ∀ c, (ρ c).id = c.id)
    (htarget : target pg s' scope (link pg s scope sp) = (target pg s scope sp).map ρ) :
    link pg s' scope (link pg s scope sp) = link pg s scope sp := by
  cases hfirst : target pg s scope sp with
  | none =>
    rw [hfirst] at htarget
    exact link_of_none htarget
  | some c =>
    rw [hfirst, Option.map_some] at htarget
    have hlinked := link_of_target hfirst
    generalize link pg s scope sp = sp' at htarget hlinked
    unfold link
    rw [htarget]
    exact if_pos (by rw [hlinked, hid])

section Again

variable (ht : (rule pg now).upsertAll ⟨adopted pg s scope now, s.nextId⟩
  (plan.arrange (merged pg s scope)) = some t)

include ht

theorem adopted_after : adopted pg (after pg s t scope now) scope now' = t.rows := by
  refine (List.map_congr_left (g := id) fun c hc => ?_).trans (List.map_id _)
  rcases row_cases ht hc with ⟨d, -, rfl, -⟩ | ⟨g, -, hidentity, -⟩
  · exact adopt_adopt d
  · have hsome : ∃ m, c.manufacturerId = some m := by
      unfold CanonicalProduct.identity at hidentity
      split at hidentity
      · exact ⟨_, ‹_›⟩
      · cases hidentity
    obtain ⟨m, hm⟩ := hsome
    exact adopt_of_some hm

theorem write_again (hc : c ∈ t.rows) {g : Merged} (hg : g ∈ merged pg s scope)
    (hkey : c.identity = some g.identity) (hwrites : (rule pg now).Writes t.rows g) :
    { g.write now' c with updatedAt := 0 } = { c with updatedAt := 0 } := by
  have hsame : ∀ g' ∈ merged pg s scope, c.identity = some g'.identity → g' = g := by
    intro g' hg' hkey'
    refine List.inj_on_of_nodup_map (merged_keys_nodup pg s scope now) hg' hg ?_
    exact Option.some.inj (hkey'.symm.trans hkey)
  rcases row_cases ht hc with ⟨-, -, -, hnot⟩ | ⟨g', hg', hkey', hfrom⟩
  · exact absurd hkey (hnot g hg
      ((UpsertRule.writes_upsertAll (arranged_keys_nodup pg s scope plan now) ht).mp hwrites))
  · obtain rfl := hsame g' hg' hkey'
    rcases hfrom with ⟨d, -, -, rfl⟩ | ⟨i, -, -, rfl⟩
    · exact g'.write_write _
    · exact g'.write_make i

theorem rewriteAll_again (hc : c ∈ t.rows) (plan' : Plan) :
    ({ (rule pg now').rewriteAll t.rows (plan'.arrange (merged pg s scope)) c with updatedAt := 0 } :
        CanonicalProduct) = { c with updatedAt := 0 } := by
  unfold UpsertRule.rewriteAll
  split
  · rename_i g hfind
    split
    · rename_i hwrites
      have hg := (plan'.perm _).subset (List.mem_of_find?_eq_some hfind)
      have hkey : (rule pg now').arbiter c = some ((rule pg now').key g) := by
        simpa using List.find?_some hfind
      exact write_again ht hc hg hkey hwrites
    · rfl
  · rfl

end Again

/-- **A second promotion** of compatible rows succeeds, and changes nothing but times and the
counter. -/
theorem promote_again (hs : s.Valid pg) (hknown : Known s scope) (hok : Compatible pg s scope)
    (h : promote pg plan now scope s = .ok (s', r)) (plan' : Plan) (now' : ℤ) :
    ∃ s'' r', promote pg plan' now' scope s' = .ok (s'', r') ∧
      s''.withoutTimes = s'.withoutTimes := by
  have hvalid := hs.promote h
  obtain ⟨t, -, ht, -, rfl⟩ := promote_ok h
  have hkeys := arranged_keys_nodup pg s scope plan now
  have hkeys' := arranged_keys_nodup pg s scope plan' now'
  have hadopted : adopted pg (after pg s t scope now) scope now' = t.rows := adopted_after ht
  have hmerged := merged_after pg s scope now t
  have hcompatible : (rule pg now').Compatible t.rows (plan'.arrange (merged pg s scope)) := by
    have hfirst := ((hok.upsert now).perm (plan.perm _)).upsertAll hkeys ht
    have hsecond := hfirst.perm ((plan'.perm _).trans (plan.perm _).symm)
    exact ⟨hsecond.clashes, hsecond.entries⟩
  have hunique : UniqueOn CanonicalProduct.identity
      (adopted pg (after pg s t scope now) scope now') := by
    rw [hadopted]
    exact hvalid.identities
  have hchecked : ∀ g ∈ merged pg (after pg s t scope now) scope, g.checked = true := by
    rw [hmerged]
    exact fun g hg => checked_of_mem_merged hs.named (fun sp hsp => (hs.columns sp hsp).name) hg
  have hsome : ((rule pg now').upsertAll
      ⟨adopted pg (after pg s t scope now) scope now', (after pg s t scope now).nextId⟩
        (plan'.arrange (merged pg (after pg s t scope now) scope))).isSome := by
    rw [hadopted, hmerged]
    exact hcompatible.isSome hkeys'
  have hknown' : Known (after pg s t scope now) scope := hknown
  obtain ⟨s'', r', h'⟩ := promote_isOk hknown' hunique hchecked hsome
  refine ⟨s'', r', h', ?_⟩
  obtain ⟨u, -, hu, -, rfl⟩ := promote_ok h'
  rw [hadopted, hmerged] at hu
  have hmissing : (rule pg now').missing t.rows (plan'.arrange (merged pg s scope)) = [] :=
    List.filter_eq_nil_iff.mpr fun g hg hnone => by
      obtain ⟨c, hc, hkey⟩ := UpsertRule.exists_row hkeys ht
        ((plan.perm _).symm.subset ((plan'.perm _).subset hg))
      exact of_decide_eq_true hnone c hc hkey
  have hu' := UpsertRule.upsertAll_eq hkeys' hu
  rw [UpsertRule.made] at hu'
  dsimp only at hu'
  rw [hmissing] at hu'
  have hrows : u.rows = t.rows.map
      ((rule pg now').rewriteAll t.rows (plan'.arrange (merged pg s scope))) := by
    rw [hu']
    exact List.append_nil _
  have hnext : u.next = t.next := by
    rw [hu']
    rfl
  have htimes : u.rows.map ({ · with updatedAt := 0 } : CanonicalProduct → CanonicalProduct) =
      t.rows.map ({ · with updatedAt := 0 }) := by
    rw [hrows, List.map_map]
    exact List.map_congr_left fun c hc => rewriteAll_again ht hc plan'
  have hlinks : (s.sourceProducts.map (link pg (withTable s t) scope)).map
      (link pg (withTable (after pg s t scope now) u) scope) =
        s.sourceProducts.map (link pg (withTable s t) scope) := by
    rw [List.map_map]
    refine List.map_congr_left fun sp _ => ?_
    have hcolumns : (link pg (withTable s t) scope sp).columns = sp.columns := link_columns sp
    have htarget : target pg (withTable (after pg s t scope now) u) scope
        (link pg (withTable s t) scope sp) = (target pg (withTable s t) scope sp).map
          ((rule pg now').rewriteAll t.rows (plan'.arrange (merged pg s scope))) :=
      target_of_map rfl rfl hrows (fun c => rewriteAll_identity c) hcolumns
    exact link_link (fun c => rewriteAll_id c) htarget
  unfold Catalogue.withoutTimes
  congr 1

end CommerceCollector.Promotion
