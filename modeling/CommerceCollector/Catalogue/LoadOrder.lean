import CommerceCollector.Catalogue.ReloadRuns

/-!
# The order of the loads of a product

The loads of a product that is new make one row.  Full records that were fetched at different times
leave the same row in every order: that of the newest record, first seen with the oldest one.  A
price refresh moves `last_seen_at`, with which a full record that is loaded later is compared: the
enrichment is that of the last full record that was not older than all those loaded before it
(`load_order`).
-/

namespace CommerceCollector

open Relational LatestWins

/-- When the record of an entry was fetched. -/
def ProductEntry.fetchedAt (e : ProductEntry) : Time := e.row.lastSeenAt

namespace Catalogue

variable {pg : Postgres} {db s : Catalogue} {k : String × String} {calls : List LoadCall}

/-- The loads of a product that is new, and the tables after them. -/
structure LoadsOf (pg : Postgres) (db : Catalogue) (k : String × String) (calls : List LoadCall)
    (s : Catalogue) : Prop where
  new : ∀ p ∈ db.products, p.key ≠ k
  own : ∀ e ∈ entries pg calls, e.row.key = k
  loads : loadCalls pg db calls = .ok s

/-- No two of the entries were fetched at one time. -/
def Distinct (es : List ProductEntry) : Prop := (es.map ProductEntry.fetchedAt).Nodup

instance (es : List ProductEntry) : Decidable (Distinct es) := by
  unfold Distinct
  infer_instance

/-- The full record that was fetched last. -/
structure NewestFull (es : List ProductEntry) (newest : ProductEntry) : Prop where
  mem : newest ∈ es
  full : newest.priceRefresh = false
  latest : ∀ e ∈ es, e.priceRefresh = false → e.fetchedAt ≤ newest.fetchedAt

/-- A record is in time: it is not older than all those loaded before it. -/
def InTime (es : List ProductEntry) (e : ProductEntry) : Prop :=
  ∃ front back, es = front ++ e :: back ∧ ∀ d ∈ front, d.fetchedAt ≤ e.fetchedAt

/-- The enrichment of the last full record that was in time. -/
def lastEnrichment (es : List ProductEntry) : Option Enrichment :=
  es.head?.bind fun first => lastInTime first.fetchedAt (es.map ProductEntry.enriched)

/-- The row of a product that is new. -/
structure RowOf (db s : Catalogue) (k : String × String) (first : ProductEntry)
    (es : List ProductEntry) (p : SourceProduct) : Prop where
  products : s.products = db.products ++ [p]
  id_eq : p.id = db.nextProduct
  key_eq : p.key = k
  listed : p.listed = Register.writes ⟨first.fetchedAt, first.row.listing⟩ (es.map ProductEntry.listed)
  enriched : p.enriched =
    Register.writes ⟨first.fetchedAt, first.row.enrichment⟩ (es.map ProductEntry.enriched)
  firstSeen : p.firstSeen =
    Register.writes ⟨OrderDual.toDual first.row.firstSeenAt, ()⟩ (es.map ProductEntry.firstSeen)

variable {es : List ProductEntry} {first : ProductEntry}

/-- **The loads of a product that is new make one row.** -/
theorem LoadsOf.exists_row (h : LoadsOf pg db k calls s) (hes : entries pg calls = first :: es) :
    ∃ p, RowOf db s k first (first :: es) p := by
  have hown := h.own
  rw [hes] at hown
  have hfirst : first.row.key = k := hown first List.mem_cons_self
  have htable := productTable_loadCalls h.loads
  have hmake : productRule.mergeAll db.productTable (first :: es) =
      { rows := db.products ++ [productRule.mergeRows (productRule.make first db.nextProduct) es],
        next := db.nextProduct + 1 } :=
    MergeRule.mergeAll_of_new (fun c hc hkey => h.new c hc (hkey.trans hfirst))
      fun d hd => (hown d (List.mem_cons_of_mem first hd)).trans hfirst.symm
  -- The first entry may be merged into its own row.
  have hself : productRule.mergeRows (productRule.make first db.nextProduct) (first :: es) =
      productRule.mergeRows (productRule.make first db.nextProduct) es := by
    have hmerge : productRule.mergeRow (productRule.make first db.nextProduct) first =
        productRule.make first db.nextProduct :=
      (if_pos (productRule.make_key first _)).trans (productRule_self first _)
    rw [MergeRule.mergeRows, List.foldl_cons, hmerge]
    rfl
  obtain ⟨hid, hkey, hlisted, henriched, hseen⟩ :=
    mergeRows_registers (productRule.make first db.nextProduct) (first :: es)
  have hfilter : (first :: es).filter
      (fun e => (productRule.make first db.nextProduct).key = e.row.key) = first :: es := by
    refine List.filter_eq_self.mpr fun e he => decide_eq_true ?_
    exact hfirst.trans (hown e he).symm
  rw [hfilter] at hlisted henriched hseen
  rw [hes, hmake] at htable
  refine ⟨productRule.mergeRows (productRule.make first db.nextProduct) (first :: es), ?_, hid,
    hkey.trans hfirst, hlisted, henriched, hseen⟩
  rw [hself]
  exact congrArg Table.rows htable

theorem exists_split (hdistinct : Distinct es) {newest : ProductEntry} (hmem : newest ∈ es)
    (hlatest : ∀ e ∈ es, e.fetchedAt ≤ newest.fetchedAt) :
    ∃ front back, es = front ++ newest :: back ∧ (∀ e ∈ front, e.fetchedAt ≤ newest.fetchedAt) ∧
      ∀ e ∈ back, e.fetchedAt < newest.fetchedAt := by
  obtain ⟨front, back, rfl⟩ := List.append_of_mem hmem
  refine ⟨front, back, rfl, fun e he => hlatest e (List.mem_append_left _ he), fun e he => ?_⟩
  unfold Distinct at hdistinct
  rw [List.map_append, List.map_cons] at hdistinct
  have hnot := (List.nodup_cons.mp (List.nodup_append.mp hdistinct).2.1).1
  refine lt_of_le_of_ne (hlatest e (List.mem_append_right _ (List.mem_cons_of_mem _ he))) fun heq => ?_
  exact hnot (heq ▸ List.mem_map_of_mem he)

variable {p : SourceProduct}

/-- The registers of a row whose records are full, and were fetched at different times. -/
theorem RowOf.newest {first newest : ProductEntry} (h : RowOf db s k first es p)
    (hfirst : first ∈ es) (hdistinct : Distinct es) (hfull : ∀ e ∈ es, e.priceRefresh = false)
    (hnewest : NewestFull es newest) :
    p.listed = ⟨newest.fetchedAt, newest.row.listing⟩ ∧
      p.enriched = ⟨newest.fetchedAt, newest.row.enrichment⟩ := by
  have hlatest : ∀ e ∈ es, e.fetchedAt ≤ newest.fetchedAt := fun e he =>
    hnewest.latest e he (hfull e he)
  obtain ⟨front, back, hsplit, hfront, hback⟩ := exists_split hdistinct hnewest.mem hlatest
  constructor
  · rw [h.listed, hsplit, List.map_append, List.map_cons]
    refine writes_of_newest rfl rfl (hlatest first hfirst) (fun u hu => ?_) fun u hu => ?_
    · obtain ⟨e, he, rfl⟩ := List.mem_map.mp hu
      exact hfront e he
    · obtain ⟨e, he, rfl⟩ := List.mem_map.mp hu
      exact hback e he
  · have hvalue : newest.enriched.value = some newest.row.enrichment := by
      rw [ProductEntry.enriched, hnewest.full]
      rfl
    rw [h.enriched, hsplit, List.map_append, List.map_cons]
    refine writes_of_newest rfl hvalue (hlatest first hfirst) (fun u hu => ?_) fun u hu => ?_
    · obtain ⟨e, he, rfl⟩ := List.mem_map.mp hu
      exact hfront e he
    · obtain ⟨e, he, rfl⟩ := List.mem_map.mp hu
      exact hback e he

theorem RowOf.oldest (h : RowOf db s k first es p) (hfirst : first ∈ es) :
    (∀ e ∈ es, p.firstSeenAt ≤ e.row.firstSeenAt) ∧ ∀ t, (∀ e ∈ es, t ≤ e.row.firstSeenAt) →
      t ≤ p.firstSeenAt := by
  have hstamp : OrderDual.toDual p.firstSeenAt = (Register.writes
      ⟨OrderDual.toDual first.row.firstSeenAt, ()⟩ (es.map ProductEntry.firstSeen)).stamp :=
    congrArg Register.stamp h.firstSeen
  constructor
  · intro e he
    rw [← OrderDual.toDual_le_toDual, hstamp]
    exact (le_stamp_writes _ _).2 e.firstSeen (List.mem_map_of_mem he)
  · intro t ht
    rw [← OrderDual.toDual_le_toDual, hstamp]
    refine stamp_writes_le (OrderDual.toDual_le_toDual.mpr (ht first hfirst)) fun w hw => ?_
    obtain ⟨e, he, rfl⟩ := List.mem_map.mp hw
    exact OrderDual.toDual_le_toDual.mpr (ht e he)

/-- **Full records leave the same row in every order**: that of the newest one. -/
theorem LoadsOf.order {calls' : List LoadCall} {s' : Catalogue} (h : LoadsOf pg db k calls s)
    (h' : LoadsOf pg db k calls' s') (hperm : calls'.Perm calls) (hdistinct : Distinct (entries pg calls))
    (hfull : ∀ e ∈ entries pg calls, e.priceRefresh = false) : s'.products = s.products := by
  have hentries : (entries pg calls').Perm (entries pg calls) := hperm.filterMap _
  cases hes : entries pg calls with
  | nil =>
    have hes' : entries pg calls' = [] := (hes ▸ hentries).eq_nil
    have htable := productTable_loadCalls h.loads
    have htable' := productTable_loadCalls h'.loads
    rw [hes] at htable
    rw [hes'] at htable'
    exact congrArg Table.rows (htable'.trans htable.symm)
  | cons first es =>
    cases hes' : entries pg calls' with
    | nil =>
      rw [hes', hes] at hentries
      exact absurd hentries.symm.eq_nil (by simp)
    | cons first' es' =>
      obtain ⟨p, hp⟩ := h.exists_row hes
      obtain ⟨p', hp'⟩ := h'.exists_row hes'
      rw [hes, hes'] at hentries
      rw [hes] at hdistinct hfull
      have hdistinct' : Distinct (first' :: es') := (hentries.map _).nodup_iff.mpr hdistinct
      -- The newest record is the same.
      obtain ⟨newest, hmem, hmax⟩ : ∃ newest ∈ first :: es, ∀ e ∈ first :: es,
          e.fetchedAt ≤ newest.fetchedAt := by
        cases hargmax : (first :: es).argmax ProductEntry.fetchedAt with
        | none => exact absurd (List.argmax_eq_none.mp hargmax) (List.cons_ne_nil first es)
        | some newest =>
          exact ⟨newest, List.argmax_mem hargmax, fun e he => List.le_of_mem_argmax he hargmax⟩
      have hnewest : NewestFull (first :: es) newest :=
        ⟨hmem, hfull newest hmem, fun e he _ => hmax e he⟩
      have hnewest' : NewestFull (first' :: es') newest :=
        ⟨hentries.symm.subset hmem, hfull newest hmem, fun e he _ => hmax e (hentries.subset he)⟩
      obtain ⟨hlisted, henriched⟩ := hp.newest List.mem_cons_self hdistinct hfull hnewest
      obtain ⟨hlisted', henriched'⟩ := hp'.newest List.mem_cons_self hdistinct'
        (fun e he => hfull e (hentries.subset he)) hnewest'
      have holdest := hp.oldest List.mem_cons_self
      have holdest' := hp'.oldest List.mem_cons_self
      have hseen : p'.firstSeenAt = p.firstSeenAt := by
        refine le_antisymm (holdest.2 _ fun e he => ?_) (holdest'.2 _ fun e he => ?_)
        · exact holdest'.1 e (hentries.symm.subset he)
        · exact holdest.1 e (hentries.subset he)
      have heq : p' = p := by
        refine SourceProduct.ext_registers (hp'.id_eq.trans hp.id_eq.symm)
          (hp'.key_eq.trans hp.key_eq.symm) (hlisted'.trans hlisted.symm)
          (henriched'.trans henriched.symm) ?_
        rw [SourceProduct.firstSeen, hseen, SourceProduct.firstSeen]
      rw [hp'.products, hp.products, heq]

/-- The enrichment of a row is that of the last full record that was in time. -/
theorem RowOf.enrichment (h : RowOf db s k first (first :: es) p)
    (hfull : first.priceRefresh = false) : lastEnrichment (first :: es) = some p.enrichment := by
  have hvalue : p.enrichment = (lastInTime first.fetchedAt
      ((first :: es).map ProductEntry.enriched)).getD first.row.enrichment :=
    (congrArg Register.value h.enriched).trans (value_writes _ _)
  have hwrite : first.enriched.value = some first.row.enrichment := by
    rw [ProductEntry.enriched, hfull]
    rfl
  have hsome : (lastInTime first.fetchedAt ((first :: es).map ProductEntry.enriched)).isSome =
      true := by
    have hstamp : first.fetchedAt ≤ first.enriched.stamp := le_rfl
    rw [List.map_cons, lastInTime_cons hstamp, hwrite, Option.isSome_or]
    simp
  obtain ⟨v, hv⟩ := Option.isSome_iff_exists.mp hsome
  rw [lastEnrichment, List.head?_cons, Option.bind_some, hv]
  rw [hv] at hvalue
  exact congrArg some hvalue.symm

theorem RowOf.enrichment_of_inTime {first newest : ProductEntry}
    (h : RowOf db s k first (first :: es) p) (hfull : first.priceRefresh = false)
    (hdistinct : Distinct ((first :: es).filter fun e => !e.priceRefresh))
    (hnewest : NewestFull (first :: es) newest) (hintime : InTime (first :: es) newest) :
    p.enrichment = newest.row.enrichment := by
  obtain ⟨front, back, hsplit, hfront⟩ := hintime
  have hback : ∀ e ∈ back, e.priceRefresh = false → e.fetchedAt < newest.fetchedAt := by
    intro e he hefull
    have hmem : e ∈ first :: es := hsplit ▸ List.mem_append_right _ (List.mem_cons_of_mem _ he)
    refine lt_of_le_of_ne (hnewest.latest e hmem hefull) fun heq => ?_
    unfold Distinct at hdistinct
    rw [hsplit, List.filter_append, List.filter_cons, hnewest.full, List.map_append] at hdistinct
    have hnot := (List.nodup_cons.mp (List.nodup_append.mp hdistinct).2.1).1
    refine hnot (heq ▸ List.mem_map_of_mem (List.mem_filter.mpr ⟨he, ?_⟩))
    rw [hefull]
    rfl
  have hvalue : newest.enriched.value = some newest.row.enrichment := by
    rw [ProductEntry.enriched, hnewest.full]
    rfl
  have hstart : first.fetchedAt ≤ newest.fetchedAt := hnewest.latest first List.mem_cons_self hfull
  have hwrites : ∀ r : Register Time Enrichment, r.writes ((first :: es).map ProductEntry.enriched) =
      ((r.writes (front.map ProductEntry.enriched)).write newest.enriched).writes
        (back.map ProductEntry.enriched) := by
    intro r
    rw [hsplit, List.map_append, List.map_cons, Register.writes, List.foldl_append]
    rfl
  have hfound : (Register.writes ⟨first.fetchedAt, first.row.enrichment⟩
      (front.map ProductEntry.enriched)).write newest.enriched =
        ⟨newest.fetchedAt, newest.row.enrichment⟩ := by
    refine (if_pos (stamp_writes_le hstart fun u hu => ?_)).trans ?_
    · obtain ⟨e, he, rfl⟩ := List.mem_map.mp hu
      exact hfront e he
    · rw [hvalue]
      rfl
  have henriched : p.enrichment = _ := congrArg Register.value h.enriched
  rw [henriched, hwrites, hfound]
  refine value_writes_of_stale fun u hu hne => ?_
  obtain ⟨e, he, rfl⟩ := List.mem_map.mp hu
  refine hback e he (Bool.eq_false_iff.mpr fun hrefresh => hne ?_)
  rw [ProductEntry.enriched, hrefresh]
  rfl

/-- **The order of the loads of a product that is new.**  Full records that were fetched at
different times leave the same row in every order, and it has the columns of the newest one.  With
price refreshes behind the first full record, the enrichment is that of the newest full record iff
this one is in time, or the last full record that is in time says the same. -/
theorem load_order (pg : Postgres) {db : Catalogue} {k : String × String} {calls : List LoadCall}
    {s : Catalogue} (h : LoadsOf pg db k calls s) {newest : ProductEntry}
    (hdistinct : Distinct ((entries pg calls).filter fun e => !e.priceRefresh))
    (hnewest : NewestFull (entries pg calls) newest) :
    ((∀ e ∈ entries pg calls, e.priceRefresh = false) →
      (∀ calls' s', calls'.Perm calls → LoadsOf pg db k calls' s' → s'.products = s.products) ∧
      ∃ p, s.products = db.products ++ [p] ∧ p.listing = newest.row.listing ∧
        p.enrichment = newest.row.enrichment ∧ p.lastSeenAt = newest.fetchedAt ∧
        (∀ e ∈ entries pg calls, p.firstSeenAt ≤ e.row.firstSeenAt) ∧
        ∀ t, (∀ e ∈ entries pg calls, t ≤ e.row.firstSeenAt) → t ≤ p.firstSeenAt) ∧
    ((∀ first ∈ (entries pg calls).head?, first.priceRefresh = false) →
      ∃ p, s.products = db.products ++ [p] ∧ (p.enrichment = newest.row.enrichment ↔
        InTime (entries pg calls) newest ∨
          lastEnrichment (entries pg calls) = some newest.row.enrichment)) := by
  cases hes : entries pg calls with
  | nil => exact absurd (hes ▸ hnewest.mem) List.not_mem_nil
  | cons first es =>
    obtain ⟨p, hp⟩ := h.exists_row hes
    rw [hes] at hdistinct hnewest
    refine ⟨fun hfull => ⟨fun calls' s' hperm h' => ?_, p, hp.products, ?_⟩, fun hfirst =>
      ⟨p, hp.products, ?_⟩⟩
    · have hall : (first :: es).filter (fun e => !e.priceRefresh) = first :: es :=
        List.filter_eq_self.mpr fun e he => by rw [hfull e he]; rfl
      rw [hall, ← hes] at hdistinct
      exact h.order h' hperm hdistinct (hes ▸ hfull)
    · have hall : (first :: es).filter (fun e => !e.priceRefresh) = first :: es :=
        List.filter_eq_self.mpr fun e he => by rw [hfull e he]; rfl
      rw [hall] at hdistinct
      obtain ⟨hlisted, henriched⟩ := hp.newest List.mem_cons_self hdistinct hfull hnewest
      exact ⟨congrArg Register.value hlisted, congrArg Register.value henriched,
        congrArg Register.stamp hlisted, hp.oldest List.mem_cons_self⟩
    · have hfull := hfirst first rfl
      have hlast := hp.enrichment hfull
      constructor
      · intro heq
        exact .inr (heq ▸ hlast)
      · rintro (hintime | hsame)
        · exact hp.enrichment_of_inTime hfull hdistinct hnewest hintime
        · exact Option.some.inj (hlast.symm.trans hsame)

/-! ## Runs of the code -/

/-- A record of the blue glaze with a description. -/
def described (description : String) (mode : Option String) (fetchedAt : String) : LoadCall where
  record := { (Loads.blueGlaze "10" fetchedAt).record with
    description := some description, attributes := { collectionMode := mode } }

/-- A full record, a price refresh two days later, and the full record of the day between them. -/
def fullBehindRefresh : List LoadCall :=
  [described "first" none "2026-08-08T00:00:00Z", described "" (some "price") "2026-08-10T00:00:00Z",
    described "second" none "2026-08-09T00:00:00Z"]

/-- Full records of two days. -/
def fullOfTwoDays : List LoadCall :=
  [described "second" none "2026-08-09T00:00:00Z", described "first" none "2026-08-08T00:00:00Z"]

/-- The newest of the two records is in the row. -/
theorem load_order_two_days : ∃ (s : Catalogue) (newest : ProductEntry),
    NewestFull (entries Loads.threeDays fullOfTwoDays) newest ∧
    newest.row.description = some "second" ∧
    ∃ p : SourceProduct, s.products = [p] ∧ p.enrichment = newest.row.enrichment := by
  obtain ⟨s, hs, -⟩ : ∃ s, loadCalls Loads.threeDays {} fullOfTwoDays = .ok s ∧ true = true :=
    Transaction.exists_ok (by decide)
  have hloads : LoadsOf Loads.threeDays {} ("ceradel", "1") fullOfTwoDays s :=
    ⟨fun p hp => absurd hp List.not_mem_nil, by decide, hs⟩
  have hnewest : NewestFull (entries Loads.threeDays fullOfTwoDays)
      ((entries Loads.threeDays fullOfTwoDays).head (by decide)) :=
    ⟨List.head_mem _, by decide, by decide⟩
  obtain ⟨p, hp, -, henrichment, -⟩ :=
    ((load_order Loads.threeDays hloads (by decide) hnewest).1 (by decide)).2
  exact ⟨s, _, hnewest, by decide, p, hp, henrichment⟩

/-- The description of the newest full record is lost behind a price refresh. -/
theorem enrichment_lost : ∃ (s : Catalogue) (newest : ProductEntry),
    LoadsOf Loads.threeDays {} ("ceradel", "1") fullBehindRefresh s ∧
    (∀ first ∈ (entries Loads.threeDays fullBehindRefresh).head?, first.priceRefresh = false) ∧
    Distinct (entries Loads.threeDays fullBehindRefresh) ∧
    NewestFull (entries Loads.threeDays fullBehindRefresh) newest ∧
    ∃ p, s.products = [p] ∧ p.description ≠ newest.row.description := by
  obtain ⟨s, hs, hp⟩ : ∃ s, loadCalls Loads.threeDays {} fullBehindRefresh = .ok s ∧
      (s.products.map SourceProduct.description == [some "first"]) = true :=
    Transaction.exists_ok (by decide)
  have hnewest : NewestFull (entries Loads.threeDays fullBehindRefresh)
      ((entries Loads.threeDays fullBehindRefresh).getLast (by decide)) :=
    ⟨List.getLast_mem _, by decide, by decide⟩
  obtain ⟨p, hproducts, hdescription⟩ := List.map_eq_singleton_iff.mp (beq_iff_eq.mp hp)
  refine ⟨s, _, ⟨fun p hp => absurd hp List.not_mem_nil, by decide, hs⟩, by decide, by decide,
    hnewest, p, hproducts, ?_⟩
  rw [hdescription]
  decide

end Catalogue

end CommerceCollector
