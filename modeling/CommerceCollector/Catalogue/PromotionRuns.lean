import CommerceCollector.Catalogue.PromotionRows
import CommerceCollector.Foundation.Trace

/-!
# Promotions and loads

What a promotion owes: to succeed, to be idempotent, to leave the curated rows as they are and to
link the source products to their canonical products.  It meets this exactly if its rows are
compatible.

Over any sequence of loads and promotions, a link that a promotion has set stays when a load changes
the brand or the code of the source product.  After a promotion two source products that promotions
linked to one promoted row have the same manufacturer and the same code, if each of them has those
of the row or is linked elsewhere by that promotion.
-/

namespace CommerceCollector.Promotion

open Relational

/-! ## Runs -/

/-- A load of a source product, with the columns that it then has, or a promotion. -/
inductive Event
  | load (id : ℕ) (columns : ProductColumns)
  | promote (plan : Plan) (now : ℤ) (scope : Option String)

/-- What `load_record` does to a source product: its link stays, and the one of a new row is
null. -/
def load (s : Catalogue) (id : ℕ) (columns : ProductColumns) : Catalogue :=
  if (columns.brand.any blank || blank columns.name) = true then s
  else if s.sourceProducts.any (·.id == id) = true then
    { s with sourceProducts := s.sourceProducts.map fun sp =>
        if sp.id = id then { sp with columns } else sp }
  else
    { s with sourceProducts := s.sourceProducts ++ [{ id, columns, canonicalProductId := none }] }

/-- An event; a promotion that fails leaves the tables as they were. -/
def apply (pg : Text) (s : Catalogue) : Event → Catalogue
  | .load id columns => load s id columns
  | .promote plan now scope =>
    match promote pg plan now scope s with
    | .ok (s', _) => s'
    | .error _ => s

variable {pg : Text} {s s' : Catalogue} {scope : Option String} {now : ℤ} {plan : Plan}
variable {r : Promoted}

theorem Catalogue.Valid.load (hs : s.Valid pg) (id : ℕ) (columns : ProductColumns) :
    (load s id columns).Valid pg := by
  unfold Promotion.load
  split
  · exact hs
  · rename_i hcheck
    have hcolumns : columns.Checked := by
      simp only [Bool.or_eq_true, not_or, Bool.not_eq_true] at hcheck
      refine ⟨fun text htext => ?_, hcheck.2⟩
      have hany := hcheck.1
      rw [Option.mem_def.mp htext] at hany
      exact hany
    split
    · refine { hs with products := ?_, columns := ?_, links := ?_, checked := ?_ }
      · exact fun c hc => ⟨(hs.checked c hc).brand, (hs.checked c hc).manufacturerSku,
          (hs.checked c hc).name, (hs.checked c hc).manufacturer⟩
      · have hids : (s.sourceProducts.map fun sp =>
            if sp.id = id then { sp with columns } else sp).map (·.id) =
              s.sourceProducts.map (·.id) := by
          rw [List.map_map]
          refine List.map_congr_left fun sp _ => ?_
          rw [Function.comp_apply]
          split <;> rfl
        exact (congrArg List.Nodup hids).mpr hs.products
      · intro sp hsp
        obtain ⟨sp, hmem, rfl⟩ := List.mem_map.mp hsp
        split
        · exact hcolumns
        · exact hs.columns sp hmem
      · intro sp hsp i hi
        obtain ⟨sp, hmem, rfl⟩ := List.mem_map.mp hsp
        refine hs.links sp hmem i ?_
        split at hi
        · exact hi
        · exact hi
    · rename_i hnew
      refine { hs with products := ?_, columns := ?_, links := ?_, checked := ?_ }
      · exact fun c hc => ⟨(hs.checked c hc).brand, (hs.checked c hc).manufacturerSku,
          (hs.checked c hc).name, (hs.checked c hc).manufacturer⟩
      · rw [List.map_append]
        refine List.nodup_append.mpr ⟨hs.products, List.nodup_singleton _, fun i hi j hj => ?_⟩
        obtain rfl := List.mem_singleton.mp hj
        obtain ⟨sp, hsp, rfl⟩ := List.mem_map.mp hi
        rintro heq
        exact hnew (List.any_eq_true.mpr ⟨sp, hsp, by simpa using heq⟩)
      · intro sp hsp
        rcases List.mem_append.mp hsp with hsp | hsp
        · exact hs.columns sp hsp
        · obtain rfl := List.mem_singleton.mp hsp
          exact hcolumns
      · intro sp hsp i hi
        rcases List.mem_append.mp hsp with hsp | hsp
        · exact hs.links sp hsp i hi
        · obtain rfl := List.mem_singleton.mp hsp
          cases hi

theorem Catalogue.Valid.apply (hs : s.Valid pg) (e : Event) : (apply pg s e).Valid pg := by
  cases e with
  | load id columns => exact hs.load id columns
  | promote plan now scope =>
    dsimp only [Promotion.apply]
    split
    · rename_i h
      exact hs.promote h
    · exact hs

/-! ## Links over a run -/

/-- A promotion sets the link of this source product: it has an active manufacturer in scope and a
code, and the two have a canonical product, or get one from an active source product. -/
def Relinked (pg : Text) (s : Catalogue) (scope : Option String) (sp : SourceProduct) : Prop :=
  ∃ m key, maker pg s sp.columns.brand = some m ∧
    skuKey sp.columns.manufacturerSku = some key ∧ m.active = true ∧ inScope scope m.id = true ∧
    ((∃ sp' ∈ s.sourceProducts, sp'.columns.active = true ∧ identity pg s sp' = some (m.id, key)) ∨
      ∃ c ∈ s.canonicalProducts, (adopt pg s scope 0 c).identity = some (m.id, key))

/-- Every source product that a promotion linked to a promoted row has the manufacturer and the code
of the row, or is linked anew. -/
def Settled (pg : Text) (s : Catalogue) (scope : Option String) : Prop :=
  ∀ sp ∈ s.sourceProducts, sp.linkedByPromotion = true →
    ∀ c ∈ s.canonicalProducts, c.origin = .promoted → sp.canonicalProductId = some c.id →
      ((identity pg s sp).isSome ∧ identity pg s sp = c.identity) ∨ Relinked pg s scope sp

/-- The promotions of a run are of settled tables. -/
def Settles (pg : Text) (s : Catalogue) : Event → Prop
  | .load _ _ => True
  | .promote _ _ scope => Settled pg s scope

/-- Two source products that promotions linked to one promoted row have one manufacturer and one
code. -/
def Consistent (pg : Text) (s : Catalogue) : Prop :=
  ∀ sp ∈ s.sourceProducts, ∀ sp' ∈ s.sourceProducts, sp.linkedByPromotion = true →
    sp'.linkedByPromotion = true → ∀ c ∈ s.canonicalProducts, c.origin = .promoted →
      sp.canonicalProductId = some c.id → sp'.canonicalProductId = some c.id →
        (maker pg s sp.columns.brand).map (·.id) = (maker pg s sp'.columns.brand).map (·.id) ∧
          skuKey sp.columns.manufacturerSku = skuKey sp'.columns.manufacturerSku

theorem eq_of_identity {sp sp' : SourceProduct} (hsome : (identity pg s sp).isSome)
    (heq : identity pg s sp = identity pg s sp') :
    (maker pg s sp.columns.brand).map (·.id) = (maker pg s sp'.columns.brand).map (·.id) ∧
      skuKey sp.columns.manufacturerSku = skuKey sp'.columns.manufacturerSku := by
  unfold identity at hsome heq
  split at hsome
  · rename_i m key hmaker hkey
    rw [hmaker, hkey] at heq ⊢
    dsimp only at heq
    split at heq
    · rename_i m' key' hmaker' hkey'
      obtain ⟨hid, hsku⟩ := Prod.mk.inj (Option.some.inj heq)
      rw [hmaker', hkey', Option.map_some, Option.map_some, hid, hsku]
      exact ⟨rfl, rfl⟩
    · cases heq
  · cases hsome

theorem adopt_identity (now now' : ℤ) (c : CanonicalProduct) :
    (adopt pg s scope now c).identity = (adopt pg s scope now' c).identity := by
  unfold adopt
  split
  · split
    · split <;> rfl
    · rfl
  · rfl

theorem adopt_of_identity {c : CanonicalProduct} {k : String × String}
    (h : c.identity = some k) : adopt pg s scope now c = c := by
  unfold CanonicalProduct.identity at h
  split at h
  · rename_i m key hm hkey
    exact adopt_of_some hm
  · cases h

/-- An active source product with the manufacturer and a code of another one is a candidate. -/
theorem exists_candidate_of_identity (hs : s.Valid pg) {sp : SourceProduct} {m : Manufacturer}
    {key : String} {brand : Option String} (hsp : sp ∈ s.sourceProducts)
    (hactive : sp.columns.active = true) (hidentity : identity pg s sp = some (m.id, key))
    (hmaker : maker pg s brand = some m) (hm : m.active = true) (hin : inScope scope m.id = true) :
    ∃ c ∈ candidates pg s scope, c.identity = (m.id, key) := by
  unfold identity at hidentity
  split at hidentity
  · rename_i m' key' hmaker' hkey'
    obtain ⟨hid, rfl⟩ := Prod.mk.inj (Option.some.inj hidentity)
    obtain rfl : m' = m := List.inj_on_of_nodup_map hs.manufacturers (mem_of_maker hmaker')
      (mem_of_maker hmaker) hid
    exact exists_candidate hsp hactive hmaker' hkey' hm hin
  · cases hidentity

/-- **After a promotion of settled tables**, a source product that a promotion linked to a promoted
row has the manufacturer and the code of the row. -/
theorem identity_of_linked (hs : s.Valid pg) (hsettled : Settled pg s scope)
    (h : promote pg plan now scope s = .ok (s', r)) {sp : SourceProduct} (hsp : sp ∈ s'.sourceProducts)
    (hlinked : sp.linkedByPromotion = true) {c : CanonicalProduct} (hc : c ∈ s'.canonicalProducts)
    (hpromoted : c.origin = .promoted) (hid : sp.canonicalProductId = some c.id) :
    (identity pg s' sp).isSome ∧ identity pg s' sp = c.identity := by
  have hvalid := hs.promote h
  obtain ⟨t, -, ht, -, rfl⟩ := promote_ok h
  obtain ⟨sp, hmem, rfl⟩ := List.mem_map.mp hsp
  have hsame : identity pg (after pg s t scope now) (link pg (withTable s t) scope sp) =
      identity pg s sp := by
    unfold identity
    rw [link_columns]
    rfl
  rw [hsame]
  have hunique : ∀ d ∈ t.rows, d.id = c.id → d = c := fun d hd heq =>
    List.inj_on_of_nodup_map hvalid.ids hd hc heq
  cases htarget : target pg (withTable s t) scope sp with
  | some d =>
    obtain ⟨hd, hsome, hidentity⟩ := mem_of_target htarget
    rw [link_of_target htarget] at hid
    obtain rfl := hunique d hd (Option.some.inj hid)
    exact ⟨hsome, hidentity.symm⟩
  | none =>
    rw [link_of_none htarget] at hlinked hid
    -- The row was there, and so was the link.
    obtain ⟨d, hd, hdid⟩ := hs.links sp hmem c.id hid
    obtain ⟨e, he, heid, hkept, horigin, -⟩ := exists_row_of_mem ht hd
    obtain rfl := hunique e he (heid.trans hdid)
    rcases hsettled sp hmem hlinked d hd (horigin ▸ hpromoted) (hdid ▸ hid) with
      ⟨hsome, hidentity⟩ | ⟨m, key, hmaker, hkey, hm, hin, hfound⟩
    · refine ⟨hsome, hidentity.trans ?_⟩
      obtain ⟨k, hk⟩ := Option.isSome_iff_exists.mp hsome
      rw [hkept, adopt_of_identity (hidentity.symm.trans hk)]
    · -- The source product would have been linked anew.
      have hrow : ∃ f ∈ t.rows, f.identity = some (m.id, key) := by
        rcases hfound with ⟨sp', hsp', hactive, hidentity⟩ | ⟨f, hf, hidentity⟩
        · obtain ⟨e, he, heid⟩ := exists_candidate_of_identity hs hsp' hactive hidentity hmaker hm hin
          rw [← heid]
          exact exists_row_of_candidate ht he
        · obtain ⟨e, he, -, hkept, -⟩ := exists_row_of_mem ht hf
          exact ⟨e, he, hkept.trans ((adopt_identity now 0 f).trans hidentity)⟩
      obtain ⟨f, hf, -⟩ := exists_target (s := withTable s t) hmaker hkey hm hin hrow
      rw [htarget] at hf
      cases hf

/-! ## What a promotion owes -/

/-- What a promotion owes, under every plan and at every time. -/
structure Promotes (pg : Text) (s : Catalogue) (scope : Option String) : Prop where
  total : ∀ plan now, ∃ s' r, promote pg plan now scope s = .ok (s', r)
  again : ∀ plan now s' r, promote pg plan now scope s = .ok (s', r) →
    ∀ plan' now', ∃ s'' r', promote pg plan' now' scope s' = .ok (s'', r') ∧
      s''.withoutTimes = s'.withoutTimes
  curated : ∀ plan now s' r, promote pg plan now scope s = .ok (s', r) →
    ∀ c ∈ s.canonicalProducts, c.origin = .curated →
      ∃ d ∈ s'.canonicalProducts, d = { c with manufacturerId := d.manufacturerId,
                                               skuKey := d.skuKey, updatedAt := d.updatedAt }
  linked : ∀ plan now s' r, promote pg plan now scope s = .ok (s', r) →
    ∀ sp ∈ s'.sourceProducts, sp.columns.active = true →
      ∀ m key, maker pg s' sp.columns.brand = some m →
        skuKey sp.columns.manufacturerSku = some key → m.active = true → inScope scope m.id = true →
          ∃ c ∈ s'.canonicalProducts, c.identity = some (m.id, key) ∧
            sp.canonicalProductId = some c.id ∧
            ∀ d ∈ s'.canonicalProducts, d.identity = some (m.id, key) → d = c

/-- **A promotion meets what it owes iff its rows are compatible; and over any run of loads and
promotions of settled tables, products linked to one promoted row have one manufacturer and one
code** after every promotion. -/
theorem promotes_iff_compatible (pg : Text) :
    (∀ s scope, Catalogue.Valid pg s → Known s scope →
      (Promotes pg s scope ↔ Compatible pg s scope)) ∧
    ∀ s events plan now scope s' r, Catalogue.Valid pg s →
      Trace.Along (apply pg) (Settles pg) s (events ++ [.promote plan now scope]) →
        promote pg plan now scope (Trace.exec (apply pg) s events) = .ok (s', r) →
          Consistent pg s' := by
  refine ⟨fun s scope hs hknown => ?_, fun s events plan now scope s' r hs halong h => ?_⟩
  · have htotal : (∀ plan now, ∃ s' r, promote pg plan now scope s = .ok (s', r)) ↔
        Compatible pg s scope :=
      promote_total_iff hs.named (fun sp hsp => (hs.columns sp hsp).name) hknown
    constructor
    · intro h
      exact htotal.mp h.total
    · intro hok
      refine ⟨htotal.mpr hok, ?_, ?_, ?_⟩
      · intro plan now s' r h plan' now'
        exact promote_again hs hknown hok h plan' now'
      · intro plan now s' r h c hc horigin
        exact curated_kept h hc horigin
      · intro plan now s' r h sp hsp hactive m key hmaker hkey hm hin
        exact linked_of_promote hs h hsp hactive hmaker hkey hm hin
  · have hvalid : Catalogue.Valid pg (Trace.exec (apply pg) s events) :=
      Trace.exec_invariant (apply pg) (fun s e hs => hs.apply e) hs events
    have hsettled : Settled pg (Trace.exec (apply pg) s events) scope :=
      ((Trace.along_append (apply pg)).mp halong).2.1
    intro sp hsp sp' hsp' hlinked hlinked' c hc hpromoted hid hid'
    obtain ⟨hsome, hidentity⟩ := identity_of_linked hvalid hsettled h hsp hlinked hc hpromoted hid
    obtain ⟨-, hidentity'⟩ := identity_of_linked hvalid hsettled h hsp' hlinked' hc hpromoted hid'
    exact eq_of_identity hsome (hidentity.trans hidentity'.symm)

/-- ASCII texts in the order of their code points, with names that have no pack clause. -/
def ascii : Text where
  lower := Char.toLower
  upper := Char.toUpper
  textLe := fun a b => decide (a ≤ b)
  stripped := id
  upper_eq := fun _ _ => rfl

/-- A source product of a shop. -/
def listing (id : ℕ) (sourceId sku name : String) : SourceProduct where
  id
  columns := {
    sourceId, brand := some "Mayco", manufacturerSku := some sku, name, description := none,
    firingRange := none, family := some "glaze", imageUrl := none, lastSeenAt := 1, active := true }
  canonicalProductId := none

/-- Two shops that sell a glaze. -/
def shops : Catalogue where
  manufacturers := [⟨"mayco", "Mayco", none, true⟩]
  aliases := [("mayco", "mayco")]
  canonicalProducts := []
  nextId := 0
  sourceProducts := [listing 0 "a" "SC-74" "Hot Tamale", listing 1 "b" "SC74" "Hot Tamale 473 ml"]

theorem shops_valid : Catalogue.Valid ascii shops where
  manufacturers := by decide +kernel
  names := by decide +kernel
  named := by decide +kernel
  aliases := by decide +kernel
  aliased := by decide +kernel
  ids := by decide +kernel
  fresh := by decide +kernel
  checked := fun _ h => absurd h List.not_mem_nil
  identities := by decide +kernel
  labels := by decide +kernel
  products := by decide +kernel
  columns := by
    intro sp hsp
    have hall : shops.sourceProducts.all (fun sp =>
        !sp.columns.brand.any blank && !blank sp.columns.name) = true := by decide +kernel
    have hsp := List.all_eq_true.mp hall sp hsp
    simp only [Bool.and_eq_true, Bool.not_eq_true'] at hsp
    refine ⟨fun text htext => ?_, hsp.2⟩
    rw [Option.mem_def.mp htext] at hsp
    exact hsp.1
  links := by decide +kernel

/-- The two shops have one merged row, and no row that it could clash with. -/
theorem shops_compatible : Compatible ascii shops none := by
  have hkeys : (merged ascii shops none).map Merged.identity = [("mayco", "SC74")] := by
    rw [merged_identity]
    decide +kernel
  have hkey : ∀ g ∈ merged ascii shops none, g.identity = ("mayco", "SC74") := by
    intro g hg
    have hmem : g.identity ∈ (merged ascii shops none).map Merged.identity := List.mem_map_of_mem hg
    rw [hkeys] at hmem
    exact List.mem_singleton.mp hmem
  refine ⟨fun now => List.nodup_nil, fun now => ⟨fun g _ _ h => ?_, fun g hg g' hg' _ _ hne => ?_⟩⟩
  · obtain ⟨c, hc, -⟩ := h
    exact absurd hc List.not_mem_nil
  · exact absurd ((hkey g hg).trans (hkey g' hg').symm) hne

/-- A promotion of the two shops, and another one, which finds both linked to one row. -/
theorem shops_promoted : Promotes ascii shops none ∧
    ∃ plan s' r, promote ascii plan 3 none (Trace.exec (apply ascii) shops
      [.promote plan 2 none]) = .ok (s', r) ∧ Consistent ascii s' := by
  have hpromotes := ((promotes_iff_compatible ascii).1 shops none shops_valid
    (fun id h => absurd h (Option.not_mem_none id))).mpr shops_compatible
  refine ⟨hpromotes, ⟨id, fun groups => List.Perm.refl groups⟩, ?_⟩
  obtain ⟨s₁, r₁, h₁⟩ := hpromotes.total ⟨id, fun groups => List.Perm.refl groups⟩ 2
  obtain ⟨s₂, r₂, h₂, -⟩ := hpromotes.again _ _ s₁ r₁ h₁
    ⟨id, fun groups => List.Perm.refl groups⟩ 3
  have hexec : Trace.exec (apply ascii) shops
      [.promote ⟨id, fun groups => List.Perm.refl groups⟩ 2 none] = s₁ := by
    rw [Trace.exec_cons, Trace.exec_nil]
    dsimp only [apply]
    rw [h₁]
  refine ⟨s₂, r₂, hexec ▸ h₂, ?_⟩
  have hfirst : Settled ascii shops none := by
    intro sp hsp hlinked
    have hall : ∀ sp ∈ shops.sourceProducts, sp.linkedByPromotion = false := by decide +kernel
    rw [hall sp hsp] at hlinked
    cases hlinked
  have hsecond : Settled ascii s₁ none := by
    intro sp hsp hlinked c hc hpromoted hid
    exact .inl (identity_of_linked shops_valid hfirst h₁ hsp hlinked hc hpromoted hid)
  exact (promotes_iff_compatible ascii).2 shops
    [.promote ⟨id, fun groups => List.Perm.refl groups⟩ 2 none]
    ⟨id, fun groups => List.Perm.refl groups⟩ 3 none s₂ r₂ shops_valid
    ⟨hfirst, by rw [← hexec] at hsecond; exact hsecond, trivial⟩ (hexec ▸ h₂)

/-- Two curated rows without a manufacturer, whose codes differ in punctuation. -/
def curatedTwice : Catalogue :=
  { shops with
    canonicalProducts := [
      { id := 0, brand := some "Mayco", manufacturerSku := some "SC-74", name := "Hot Tamale",
        family := none, description := none, firingRange := none, attributes := [], active := true,
        createdAt := 0, updatedAt := 0, manufacturerId := none, skuKey := none, origin := .curated },
      { id := 1, brand := some "Mayco", manufacturerSku := some "SC74", name := "Hot Tamale",
        family := none, description := none, firingRange := none, attributes := [], active := true,
        createdAt := 0, updatedAt := 0, manufacturerId := none, skuKey := none, origin := .curated }]
    nextId := 2 }

/-- **A promotion fails on two curated rows that the schema allows**: their adoption gives both one
manufacturer and one code. -/
theorem curated_twice_fails : Catalogue.Valid ascii curatedTwice ∧ Known curatedTwice none ∧
    ¬Promotes ascii curatedTwice none := by
  refine ⟨{ shops_valid with
    ids := by decide +kernel
    fresh := by decide +kernel
    checked := ?_
    identities := by decide +kernel
    labels := by decide +kernel
    links := by decide +kernel }, fun id h => absurd h (Option.not_mem_none id), fun h => ?_⟩
  · intro c hc
    have hall : curatedTwice.canonicalProducts.all (fun c => !c.brand.any blank &&
        !c.manufacturerSku.any blank && !blank c.name && c.manufacturerId.isNone) = true := by
      decide +kernel
    have hc := List.all_eq_true.mp hall c hc
    simp only [Bool.and_eq_true, Bool.not_eq_true', Option.isNone_iff_eq_none] at hc
    obtain ⟨⟨⟨hbrand, hsku⟩, hname⟩, hmaker⟩ := hc
    refine ⟨fun text htext => ?_, fun text htext => ?_, hname, fun id hid => ?_⟩
    · rw [Option.mem_def.mp htext] at hbrand
      exact hbrand
    · rw [Option.mem_def.mp htext] at hsku
      exact hsku
    · rw [hmaker] at hid
      cases hid
  · obtain ⟨s', r, h⟩ := h.total ⟨id, fun groups => List.Perm.refl groups⟩ 1
    obtain ⟨t, hunique, -⟩ := promote_ok h
    have hnot : ¬UniqueOn CanonicalProduct.identity (adopted ascii curatedTwice none 1) := by
      decide +kernel
    exact hnot hunique

end CommerceCollector.Promotion
