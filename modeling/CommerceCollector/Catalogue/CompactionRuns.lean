import CommerceCollector.Catalogue.CompactionEvidence

/-!
# Compaction beside loads

The invariant of a run: the tables stand beside those of the loads alone (`Twin`), every observation
names a raw record, and every group that waits for its transaction still fits.  A step that meets
the condition keeps it, and moves no moment back (`Inv.step`); so compaction preserves the price
history in every run whose steps meet the condition.

Nothing in the code keeps the condition: the moments of a group are written as they were read, also
when a load has extended the observation meanwhile.
-/

namespace CommerceCollector.Compaction

open Relational Islands

variable {pg : Postgres} {db db' alone : Catalogue}

/-! ## The transaction of a raw group -/

/-- The group is made of raw records with its digest. -/
structure RawFits (pg : Postgres) (db : Catalogue) (g : RawGroup) : Prop where
  nodup : g.ids.Nodup
  bounded : ∀ id ∈ g.ids, id < db.nextRawRecord
  semantic : ∀ r ∈ db.rawRecords, r.id ∈ g.ids → pg.recordSha256 (content r.record) = g.semantic

theorem RawFits.origin {g : RawGroup} {new : List Record} (h : RawFits pg db g)
    (horigin : RawOrigin db db' new) : RawFits pg db' g where
  nodup := h.nodup
  bounded := fun id hid => (h.bounded id hid).trans_le horigin.1
  semantic := fun r' hr' hid => by
    rcases horigin.2 r' hr' with ⟨r, hr, hsame, hrecord⟩ | ⟨hnew, -⟩
    · rw [hrecord]
      exact h.semantic r hr (hsame ▸ hid)
    · exact absurd (h.bounded _ hid) (by rw [hnew]; exact lt_irrefl _)

/-- The groups that `compact_raw` reads. -/
theorem rawFits_of_mem (href : Referenced db) {g : RawGroup} (h : g ∈ rawGroups pg db) :
    RawFits pg db g := by
  obtain ⟨k, -, rfl⟩ := List.mem_map.mp (List.mem_of_mem_filter h)
  have hperm := ((List.perm_insertionSort (fun r s => rawBefore k.2 r s = true)
    (db.rawRecords.filter fun r => rawKey pg r == k)).map RawRecord.id)
  have hmem : ∀ id ∈ (rawGroup pg db k).ids, ∃ r ∈ db.rawRecords, rawKey pg r = k ∧ r.id = id := by
    intro id hid
    obtain ⟨r, hr, rfl⟩ := List.mem_map.mp (hperm.mem_iff.mp hid)
    rw [List.mem_filter, beq_iff_eq] at hr
    exact ⟨r, hr.1, hr.2, rfl⟩
  refine ⟨?_, fun id hid => ?_, fun r hr hid => ?_⟩
  · refine hperm.nodup_iff.mpr ?_
    exact href.rawKeyed.sublist (List.filter_sublist.map _)
  · obtain ⟨r, hr, -, rfl⟩ := hmem id hid
    exact href.rawBounded r hr
  · obtain ⟨x, hx, hkey, hxid⟩ := hmem _ hid
    obtain rfl := href.rawKeyed.eq_of_mem hx hr hxid
    exact congrArg Prod.snd hkey

/-- What the transaction of a raw group does, if no constraint refuses it. -/
structure MergesRaw (db db' : Catalogue) (g : RawGroup) (keeper : ℕ) (duplicates : List ℕ) :
    Prop where
  ids : g.ids = keeper :: duplicates
  foreign : (∃ o ∈ db.offers, o.rawRecordId ∈ duplicates) ∨
    (∃ q ∈ db.outOfOrder, q.rawRecordId ∈ duplicates) → ∃ r ∈ db.rawRecords, r.id = keeper
  offers : db'.offers = update (fun o => duplicates.contains o.rawRecordId)
    (fun o => { o with rawRecordId := keeper }) db.offers
  outOfOrder : db'.outOfOrder = update (fun q => duplicates.contains q.rawRecordId)
    (fun q => { q with rawRecordId := keeper }) db.outOfOrder
  rawRecords : db'.rawRecords = update (fun r => r.id == keeper)
    (fun r => { r with
      recordSha256 := g.semantic, firstSeenAt := g.firstSeenAt, lastSeenAt := g.lastSeenAt })
    (db.rawRecords.filter fun r => !duplicates.contains r.id)
  nextRawRecord : db'.nextRawRecord = db.nextRawRecord
  nextOutOfOrder : db'.nextOutOfOrder = db.nextOutOfOrder
  nextOffer : db'.nextOffer = db.nextOffer
  products : SameProducts db' db

theorem mergeRaw_some {g : RawGroup} (h : mergeRaw db g = some db') :
    db' = db ∨ ∃ keeper duplicates, MergesRaw db db' g keeper duplicates := by
  unfold mergeRaw at h
  cases hids : g.ids with
  | nil =>
    rw [hids] at h
    exact .inl (Option.some.inj h).symm
  | cons keeper duplicates =>
    rw [hids] at h
    dsimp only at h
    split at h
    · exact absurd h (by simp)
    · rename_i hforeign
      split at h
      · exact absurd h (by simp)
      · obtain rfl := Option.some.inj h
        refine .inr ⟨keeper, duplicates, hids, fun hreferenced => ?_, rfl, rfl, rfl, rfl, rfl, rfl,
          ⟨rfl, rfl⟩⟩
        by_contra hmissing
        refine hforeign ?_
        rw [Bool.and_eq_true, Bool.or_eq_true]
        refine ⟨?_, ?_⟩
        · refine hreferenced.imp ?_ ?_
          · rintro ⟨o, ho, hraw⟩
            exact List.any_eq_true.mpr ⟨o, ho, by simpa using hraw⟩
          · rintro ⟨q, hq, hraw⟩
            exact List.any_eq_true.mpr ⟨q, hq, by simpa using hraw⟩
        · simpa using fun r hr heq => hmissing ⟨r, hr, heq⟩

variable {g : RawGroup} {S : List Record} {keeper : ℕ} {duplicates : List ℕ}

section

variable (h : MergesRaw db db' g keeper duplicates)

include h

theorem MergesRaw.stays {r : RawRecord}
    (hr : r ∈ db.rawRecords) (hnot : r.id ∉ duplicates) :
    ∃ r' ∈ db'.rawRecords, r'.id = r.id ∧ r'.record = r.record := by
  rw [h.rawRecords]
  refine ⟨_, mem_update.mpr ⟨r, List.mem_filter.mpr ⟨hr, by simpa using hnot⟩, rfl⟩, ?_⟩
  split <;> exact ⟨rfl, rfl⟩

theorem MergesRaw.rawKeyed (href : Referenced db) :
    Keyed RawRecord.id db'.rawRecords := by
  rw [h.rawRecords]
  refine Keyed.update ?_ fun _ => rfl
  exact href.rawKeyed.sublist (List.filter_sublist.map _)

theorem MergesRaw.content (href : Referenced db)
    (hfits : RawFits pg db g) (hknown : ∀ r ∈ db.rawRecords, content r.record ∈ S)
    (hdigest : ∀ a ∈ S, ∀ b ∈ S, pg.recordSha256 a = pg.recordSha256 b → a = b) {id : ℕ}
    (hid : ∃ r ∈ db.rawRecords, r.id = id)
    (hkeeper : id ∈ duplicates → ∃ r ∈ db.rawRecords, r.id = keeper) :
    (∃ r ∈ db'.rawRecords, r.id = if duplicates.contains id then keeper else id) ∧
      contentOf db' (if duplicates.contains id then keeper else id) = contentOf db id := by
  have hnodup := hfits.nodup
  rw [h.ids, List.nodup_cons] at hnodup
  have hkeyed := h.rawKeyed href
  obtain ⟨r, hr, rfl⟩ := hid
  by_cases hmem : r.id ∈ duplicates
  · obtain ⟨k, hk, rfl⟩ := hkeeper hmem
    obtain ⟨k', hk', hkid, hkrecord⟩ := h.stays hk hnodup.1
    rw [if_pos (by simpa using hmem), ← hkid, contentOf_eq hkeyed hk', hkrecord,
      contentOf_eq href.rawKeyed hr]
    refine ⟨⟨k', hk', rfl⟩, congrArg some ?_⟩
    refine hdigest _ (hknown k hk) _ (hknown r hr) ?_
    rw [hfits.semantic k hk (by rw [h.ids]; exact List.mem_cons_self),
      hfits.semantic r hr (by rw [h.ids]; exact List.mem_cons_of_mem _ hmem)]
  · obtain ⟨r', hr', hrid, hrecord⟩ := h.stays hr hmem
    rw [if_neg (by simpa using hmem), ← hrid, contentOf_eq hkeyed hr', hrecord, hrid,
      contentOf_eq href.rawKeyed hr]
    exact ⟨⟨r', hr', hrid⟩, rfl⟩

end

/-- **The transaction of a raw group keeps the references** and leaves every observation its
content. -/
theorem mergeRaw_evidence (href : Referenced db) (hordered : db.OffersOrdered)
    (hfits : RawFits pg db g) (hknown : ∀ r ∈ db.rawRecords, content r.record ∈ S)
    (hdigest : ∀ a ∈ S, ∀ b ∈ S, pg.recordSha256 a = pg.recordSha256 b → a = b)
    (hseen : ∀ r ∈ db.rawRecords, g.ids.head? = some r.id → r.lastSeenAt ≤ g.lastSeenAt)
    (h : mergeRaw db g = some db') :
    Referenced db' ∧ Advances db db' ∧ RawOrigin db db' [] := by
  rcases mergeRaw_some h with rfl | ⟨keeper, duplicates, hmerges⟩
  · exact ⟨href, .refl hordered.keyed href, .refl _ _⟩
  have hoffer := fun o (ho : o ∈ db.offers) =>
    hmerges.content href hfits hknown hdigest (href.offers o ho)
      fun hmem => hmerges.foreign (.inl ⟨o, ho, hmem⟩)
  have haside := fun q (hq : q ∈ db.outOfOrder) =>
    hmerges.content href hfits hknown hdigest (href.asides q hq)
      fun hmem => hmerges.foreign (.inr ⟨q, hq, hmem⟩)
  have hraw : ∀ r' ∈ db'.rawRecords, ∃ r ∈ db.rawRecords, r'.id = r.id ∧ r'.record = r.record ∧
      r.lastSeenAt ≤ r'.lastSeenAt := by
    intro r' hr'
    rw [hmerges.rawRecords] at hr'
    obtain ⟨r, hr, rfl⟩ := mem_update.mp hr'
    refine ⟨r, List.mem_of_mem_filter hr, ?_⟩
    split
    · rename_i hid
      refine ⟨rfl, rfl, hseen r (List.mem_of_mem_filter hr) ?_⟩
      rw [hmerges.ids, beq_iff_eq.mp hid]
      rfl
    · exact ⟨rfl, rfl, le_rfl⟩
  have hoffers : ∀ o' ∈ db'.offers, ∃ o ∈ db.offers, o'.id = o.id ∧
      o'.lastSeenAt = o.lastSeenAt ∧
      o'.rawRecordId = if duplicates.contains o.rawRecordId then keeper else o.rawRecordId := by
    intro o' ho'
    rw [hmerges.offers] at ho'
    obtain ⟨o, ho, rfl⟩ := mem_update.mp ho'
    refine ⟨o, ho, ?_⟩
    split <;> exact ⟨rfl, rfl, rfl⟩
  have hasides : ∀ q' ∈ db'.outOfOrder, ∃ q ∈ db.outOfOrder, q'.id = q.id ∧
      q'.rawRecordId = if duplicates.contains q.rawRecordId then keeper else q.rawRecordId := by
    intro q' hq'
    rw [hmerges.outOfOrder] at hq'
    obtain ⟨q, hq, rfl⟩ := mem_update.mp hq'
    refine ⟨q, hq, ?_⟩
    split <;> exact ⟨rfl, rfl⟩
  refine ⟨⟨hmerges.rawKeyed href, fun r' hr' => ?_, ?_, fun q' hq' => ?_, fun o' ho' => ?_,
    fun q' hq' => ?_⟩, ⟨fun o ho o' ho' hid => ?_, fun r hr r' hr' hid => ?_,
    fun q hq q' hq' hid => ?_⟩, hmerges.nextRawRecord.ge, fun r' hr' => ?_⟩
  · obtain ⟨r, hr, hid, -, -⟩ := hraw r' hr'
    rw [hid, hmerges.nextRawRecord]
    exact href.rawBounded r hr
  · rw [hmerges.outOfOrder]
    exact href.asideKeyed.update fun _ => rfl
  · obtain ⟨q, hq, hid, -⟩ := hasides q' hq'
    rw [hid, hmerges.nextOutOfOrder]
    exact href.asideBounded q hq
  · obtain ⟨o, ho, -, -, hname⟩ := hoffers o' ho'
    rw [hname]
    exact (hoffer o ho).1
  · obtain ⟨q, hq, -, hname⟩ := hasides q' hq'
    rw [hname]
    exact (haside q hq).1
  · obtain ⟨x, hx, hxid, hlast, hname⟩ := hoffers o' ho'
    obtain rfl := hordered.keyed.eq_of_mem hx ho (hxid.symm.trans hid)
    rw [hname]
    exact ⟨hlast.ge, (hoffer x hx).2⟩
  · obtain ⟨x, hx, hxid, -, hlast⟩ := hraw r' hr'
    obtain rfl := href.rawKeyed.eq_of_mem hx hr (hxid.symm.trans hid)
    exact hlast
  · obtain ⟨x, hx, hxid, hname⟩ := hasides q' hq'
    obtain rfl := href.asideKeyed.eq_of_mem hx hq (hxid.symm.trans hid)
    rw [hname]
    exact (haside x hx).2
  · obtain ⟨r, hr, hid, hrecord, -⟩ := hraw r' hr'
    exact .inl ⟨r, hr, hid, hrecord⟩

theorem Twin.repoint (h : Twin db alone) (hmerges : MergesRaw db db' g keeper duplicates) :
    Twin db' alone := by
  have hident : ∀ (b : Bool) (o : OfferObservation),
      ident (if b then { o with rawRecordId := keeper } else o) = ident o ∧
        (if b then { o with rawRecordId := keeper } else o).lastSeenAt = o.lastSeenAt := by
    intro b o
    cases b <;> exact ⟨rfl, rfl⟩
  have hrows : ∀ q, db'.offersOf q = update (fun o => duplicates.contains o.rawRecordId)
      (fun o => { o with rawRecordId := keeper }) (db.offersOf q) := by
    intro q
    rw [Catalogue.offersOf, hmerges.offers, Catalogue.offersOf, update, update, List.filter_map]
    congr 1
    refine List.filter_congr fun o _ => ?_
    simp only [Function.comp_apply]
    split <;> rfl
  refine ⟨⟨?_, fun o ho => ?_, fun q => ?_⟩, h.aloneOrdered, hmerges.nextOffer.trans h.nextOffer,
    ⟨hmerges.products.products.trans h.products.products,
      hmerges.products.nextProduct.trans h.products.nextProduct⟩, h.seen, fun q => ?_⟩
  · rw [hmerges.offers]
    exact h.ordered.keyed.update fun _ => rfl
  · rw [hmerges.offers] at ho
    obtain ⟨b, hb, rfl⟩ := mem_update.mp ho
    rw [hmerges.nextOffer, (ident_eq (hident _ b).1).1]
    exact h.ordered.bounded b hb
  · rw [hrows, update, List.pairwise_map]
    refine (h.ordered.ordered q).imp fun {a b} hab => ?_
    rw [(ident_eq (hident _ a).1).1, (ident_eq (hident _ a).1).2.2.1, (ident_eq (hident _ b).1).1,
      (ident_eq (hident _ b).1).2.2.1]
    exact hab
  · rw [hrows]
    exact (h.condenses q).map fun o => hident _ o

/-! ## The transaction of an island -/

/-- **The transaction of an island keeps the references** and moves no moment back. -/
theorem mergeOffers_evidence {g : OfferGroup} (href : Referenced db) (hordered : db.OffersOrdered)
    (hseen : ∀ o ∈ db.offers, o.id ∈ g.ids → o.lastSeenAt ≤ g.lastSeenAt) :
    Referenced (mergeOffers db g) ∧ Advances db (mergeOffers db g) ∧
      RawOrigin db (mergeOffers db g) [] := by
  unfold mergeOffers
  cases hids : g.ids with
  | nil => exact ⟨href, .refl hordered.keyed href, .refl _ _⟩
  | cons keeper duplicates =>
    dsimp only
    have hoffers : ∀ o' ∈ update (fun o => o.id == keeper)
        (fun o => { o with observedAt := g.observedAt, lastSeenAt := g.lastSeenAt })
        (db.offers.filter fun o => !duplicates.contains o.id), ∃ o ∈ db.offers, o'.id = o.id ∧
          o.lastSeenAt ≤ o'.lastSeenAt ∧ o'.rawRecordId = o.rawRecordId := by
      intro o' ho'
      obtain ⟨o, ho, rfl⟩ := mem_update.mp ho'
      refine ⟨o, List.mem_of_mem_filter ho, ?_⟩
      split
      · rename_i hid
        refine ⟨rfl, hseen o (List.mem_of_mem_filter ho) ?_, rfl⟩
        rw [hids, beq_iff_eq.mp hid]
        exact List.mem_cons_self
      · exact ⟨rfl, le_rfl, rfl⟩
    refine ⟨⟨href.rawKeyed, href.rawBounded, href.asideKeyed, href.asideBounded, fun o' ho' => ?_,
      href.asides⟩, ⟨fun o ho o' ho' hid => ?_, (Advances.refl hordered.keyed href).raws,
      (Advances.refl hordered.keyed href).asides⟩, le_rfl, fun r hr => .inl ⟨r, hr, rfl, rfl⟩⟩
    · obtain ⟨o, ho, -, -, hraw⟩ := hoffers o' ho'
      rw [hraw]
      exact href.offers o ho
    · obtain ⟨x, hx, hxid, hlast, hraw⟩ := hoffers o' ho'
      obtain rfl := hordered.keyed.eq_of_mem hx ho (hxid.symm.trans hid)
      exact ⟨hlast, by rw [hraw]; rfl⟩

/-- The groups that `compact_offers` reads. -/
theorem Twin.fits_of_mem (h : Twin db alone) {g : OfferGroup} (hg : g ∈ offerGroups db) :
    ∃ k rest duplicates, Fits (alone.offersOf g.product) g k rest duplicates := by
  obtain ⟨q, -, hg⟩ := List.mem_flatMap.mp hg
  obtain ⟨⟨rows, i⟩, hrows, hsome⟩ := List.mem_filterMap.mp hg
  dsimp only at hsome
  split at hsome
  · obtain rfl := Option.some.inj hsome
    have hmem : rows ∈ history db q := List.fst_mem_of_mem_zipIdx hrows
    have htimeline : timeline db q = db.offersOf q :=
      List.Pairwise.insertionSort_eq ((h.ordered.ordered q).imp le_of_lt)
    unfold history at hmem
    rw [htimeline] at hmem
    exact (h.condenses q).fits (pairwise_observedAt h.ordered q) hmem
  · exact absurd hsome (by simp)

/-! ## Runs -/

/-- The groups of a phase wait. -/
def Phase.Waits (pg : Postgres) (db alone : Catalogue) : Phase → Prop
  | .raw todo => ∀ g ∈ todo, RawFits pg db g
  | .offers todo => ∀ g ∈ todo, ∃ k rest duplicates,
      Fits (alone.offersOf g.product) g k rest duplicates
  | .over => True

/-- The invariant of a run. -/
structure Inv (pg : Postgres) (S : List Record) (s : Site) : Prop where
  twin : Twin s.db s.alone
  referenced : Referenced s.db
  known : ∀ r ∈ s.db.rawRecords, content r.record ∈ S
  waits : ∀ run ∈ s.runs, run.phase.Waits pg s.db s.alone

variable {s : Site}

theorem Phase.Waits.mono {alone' : Catalogue} {phase : Phase} {new : List Record}
    (h : phase.Waits pg db alone) (horigin : RawOrigin db db' new) (hgrown : Grown alone alone') :
    phase.Waits pg db' alone' := by
  cases phase with
  | raw todo => exact fun g hg => (h g hg).origin horigin
  | offers todo =>
    intro g hg
    obtain ⟨k, rest, duplicates, hfits⟩ := h g hg
    obtain ⟨k', rest', hfits'⟩ := hfits.grow (hgrown g.product)
    exact ⟨k', rest', duplicates, hfits'⟩
  | _ => trivial

theorem known_of_origin {new : List Record} (h : ∀ r ∈ db.rawRecords, content r.record ∈ S)
    (horigin : RawOrigin db db' new) (hnew : ∀ p ∈ new, content p ∈ S) :
    ∀ r ∈ db'.rawRecords, content r.record ∈ S := by
  intro r' hr'
  rcases horigin.2 r' hr' with ⟨r, hr, -, hrecord⟩ | ⟨-, hmem⟩
  · rw [hrecord]
    exact h r hr
  · exact hnew _ hmem

theorem waits_set {runs : List Run} (h : ∀ run ∈ runs, run.phase.Waits pg db alone) {i : ℕ}
    {new : Run} (hnew : new.phase.Waits pg db alone) :
    ∀ run ∈ runs.set i new, run.phase.Waits pg db alone := by
  intro run hrun
  rcases List.mem_or_eq_of_mem_set hrun with hrun | rfl
  · exact h run hrun
  · exact hnew

theorem Inv.run (h : Inv pg S s) {i : ℕ} {run : Run} (hrun : s.runs[i]? = some run) :
    run.phase.Waits pg s.db s.alone := h.waits run (List.mem_of_getElem? hrun)

/-- **A step that meets the condition** keeps the invariant and moves no moment back. -/
theorem Inv.step (h : Inv pg S s) {a : Act}
    (hdigest : ∀ a ∈ S, ∀ b ∈ S, pg.recordSha256 a = pg.recordSha256 b → a = b)
    (hload : ∀ c, a = .load c → content c.record ∈ S) (hmeets : Meets pg s a) :
    Inv pg S (step pg s a) ∧ Advances s.db (step pg s a).db := by
  have hrefl : Advances s.db s.db := .refl h.twin.ordered.keyed h.referenced
  cases a with
  | load c =>
    obtain ⟨htwin, hgrown⟩ := h.twin.load hmeets
    obtain ⟨href, hadvances, horigin⟩ : Referenced (load pg s.db c) ∧
        Advances s.db (load pg s.db c) ∧ RawOrigin s.db (load pg s.db c) [c.record] :=
      load_evidence h.referenced h.twin.ordered c
    refine ⟨⟨htwin, href, known_of_origin h.known horigin ?_, fun run hrun => ?_⟩, hadvances⟩
    · intro p hp
      rw [List.mem_singleton.mp hp]
      exact hload c rfl
    · exact (h.waits run hrun).mono horigin hgrown
  | readRaw limit order =>
    simp only [Compaction.step]
    split
    · rename_i horder
      refine ⟨⟨h.twin, h.referenced, h.known, fun run hrun => ?_⟩, hrefl⟩
      rcases List.mem_append.mp hrun with hrun | hrun
      · exact h.waits run hrun
      · rw [List.mem_singleton.mp hrun]
        exact fun g hg =>
          rawFits_of_mem h.referenced (horder.1.mem_iff.mp (List.mem_of_mem_take hg))
    · exact ⟨h, hrefl⟩
  | mergeRaw i =>
    simp only [Compaction.step]
    simp only [Meets, meets] at hmeets
    split
    · rename_i limit g gs hrun
      rw [hrun] at hmeets
      dsimp only at hmeets
      have hwaits : ∀ g' ∈ g :: gs, RawFits pg s.db g' := h.run hrun
      cases hmerge : mergeRaw s.db g with
      | none => exact ⟨⟨h.twin, h.referenced, h.known, waits_set h.waits trivial⟩, hrefl⟩
      | some db =>
        dsimp only
        rw [hmerge] at hmeets
        simp only [Option.isNone_some, Bool.false_or, List.all_eq_true, Bool.or_eq_true,
          bne_iff_ne, decide_eq_true_eq] at hmeets
        obtain ⟨href, hadvances, horigin⟩ := mergeRaw_evidence h.referenced h.twin.ordered
          (hwaits g List.mem_cons_self) h.known hdigest
          (fun r hr hhead => (hmeets r hr).resolve_left fun hne => hne hhead) hmerge
        have htwin : Twin db s.alone := by
          rcases mergeRaw_some hmerge with rfl | ⟨keeper, duplicates, hmerges⟩
          · exact h.twin
          · exact h.twin.repoint hmerges
        have hall : ∀ run ∈ s.runs, run.phase.Waits pg db s.alone := fun run hrun =>
          (h.waits run hrun).mono horigin (.refl _)
        refine ⟨⟨htwin, href, known_of_origin h.known horigin (by simp), waits_set hall ?_⟩,
          hadvances⟩
        exact fun g' hg' => (hwaits g' (List.mem_cons_of_mem _ hg')).origin horigin
    · exact ⟨h, hrefl⟩
  | readOffers i order =>
    simp only [Compaction.step]
    split
    · split
      · rename_i horder
        refine ⟨⟨h.twin, h.referenced, h.known, waits_set h.waits ?_⟩, hrefl⟩
        exact fun g hg => h.twin.fits_of_mem (horder.1.mem_iff.mp (List.mem_of_mem_take hg))
      · exact ⟨h, hrefl⟩
    · exact ⟨h, hrefl⟩
  | mergeOffers i =>
    simp only [Compaction.step]
    simp only [Meets, meets] at hmeets
    split
    · rename_i limit g gs hrun
      rw [hrun] at hmeets
      dsimp only at hmeets
      have hseen : ∀ o ∈ s.db.offers, o.id ∈ g.ids → o.lastSeenAt ≤ g.lastSeenAt := by
        intro o ho hid
        have hrow := List.all_eq_true.mp hmeets o ho
        simpa [hid] using hrow
      have hwaits : ∀ g' ∈ g :: gs, ∃ k rest duplicates,
          Fits (s.alone.offersOf g'.product) g' k rest duplicates := h.run hrun
      obtain ⟨k, rest, duplicates, hfits⟩ := hwaits g List.mem_cons_self
      obtain ⟨href, hadvances, horigin⟩ :=
        mergeOffers_evidence h.referenced h.twin.ordered hseen
      have hall : ∀ run ∈ s.runs, run.phase.Waits pg (mergeOffers s.db g) s.alone :=
        fun run hrun => (h.waits run hrun).mono horigin (.refl _)
      refine ⟨⟨h.twin.merge hfits hseen, href, known_of_origin h.known horigin (by simp),
        waits_set hall ?_⟩, hadvances⟩
      exact fun g' hg' => hwaits g' (List.mem_cons_of_mem _ hg')
    · exact ⟨h, hrefl⟩
  | stop i =>
    simp only [Compaction.step]
    split
    · exact ⟨⟨h.twin, h.referenced, h.known, waits_set h.waits trivial⟩, hrefl⟩
    · exact ⟨h, hrefl⟩

/-! ## The law of compaction -/

/-- The content of the tables that the constraints admit, the observations of every product listed
in their order. -/
structure Admissible (db : Catalogue) : Prop where
  ordered : db.OffersOrdered
  /-- `offer_observations_seen_interval_check`. -/
  seen : ∀ o ∈ db.offers, o.observedAt ≤ o.lastSeenAt
  referenced : Referenced db

/-- A run begins. -/
def Site.start (db : Catalogue) : Site := { db := db, alone := db }

/-- The contents of the raw records at the start and of the records that are loaded. -/
def contents (db : Catalogue) (acts : List Act) : List Record :=
  db.rawRecords.map (fun r => content r.record) ++
    acts.filterMap fun
      | .load c => some (content c.record)
      | _ => none

/-- Different contents have different digests. -/
def Distinguished (pg : Postgres) (records : List Record) : Prop :=
  ∀ a ∈ records, ∀ b ∈ records, pg.recordSha256 a = pg.recordSha256 b → a = b

/-- A maximal run of equal states: the state, its first `observed_at` and its greatest
`last_seen_at`. -/
structure Interval where
  terms : Terms Fixed
  observedAt : Time
  lastSeenAt : Time
  deriving DecidableEq, Repr

/-- The interval of a run of observations. -/
def interval (rows : List OfferObservation) : Option Interval :=
  rows.head?.map fun first => ⟨first.terms, first.observedAt, lastSeen rows⟩

/-- What compaction preserves: the history of every product is the one of the loads alone, and every
observation, quarantined ones included, names a raw record. -/
structure Preserved (s : Site) : Prop where
  history : ∀ q, (history s.db q).map interval = (history s.alone q).map interval
  offers : ∀ o ∈ s.db.offers, ∃ r ∈ s.db.rawRecords, r.id = o.rawRecordId
  asides : ∀ q ∈ s.db.outOfOrder, ∃ r ∈ s.db.rawRecords, r.id = q.rawRecordId

theorem Condenses.intervals {rows rows' : List OfferObservation} (h : Condenses rows' rows) :
    (islands OfferObservation.terms rows').map interval =
      (islands OfferObservation.terms rows).map interval := by
  rw [← List.forall₂_eq_eq_eq, List.forall₂_map_left_iff, List.forall₂_map_right_iff]
  refine List.Forall₂.imp (fun g' g hthin => ?_) h
  unfold interval
  rw [hthin.seen]
  have hhead := hthin.head
  cases g' with
  | nil => exact absurd rfl hthin.ne_nil
  | cons k' rest' =>
    cases g with
    | nil => exact absurd hhead (by simp)
    | cons k rest =>
      have hident : ident k' = ident k := by simpa using hhead
      obtain ⟨-, -, hobserved, hterms, -⟩ := ident_eq hident
      simp [hobserved, hterms]

theorem Inv.preserved (h : Inv pg S s) : Preserved s where
  history := fun q => by
    have htimeline : ∀ {db : Catalogue}, db.OffersOrdered → timeline db q = db.offersOf q :=
      fun hordered => List.Pairwise.insertionSort_eq ((hordered.ordered q).imp le_of_lt)
    unfold Compaction.history
    rw [htimeline h.twin.ordered, htimeline h.twin.aloneOrdered]
    exact (h.twin.condenses q).intervals
  offers := h.referenced.offers
  asides := h.referenced.asides

/-- **Compaction preserves the price history** beside loads, in every run in which no record becomes
an observation that the merged observations would have kept out, and no group is written after a
load has extended it: in every state the history is the one of the loads alone and every reference
names a raw record, and no step moves a moment back or changes the content that an observation
names. -/
theorem compaction_preserves (pg : Postgres) {db : Catalogue} {acts : List Act}
    (hadmissible : Admissible db) (hdigest : Distinguished pg (contents db acts))
    (hmeets : Trace.Along (step pg) (Meets pg) (.start db) acts) :
    (∀ pre, pre <+: acts → Preserved (Trace.exec (step pg) (.start db) pre)) ∧
      ∀ pre a, pre ++ [a] <+: acts → Advances (Trace.exec (step pg) (.start db) pre).db
        (step pg (Trace.exec (step pg) (.start db) pre) a).db := by
  have hstart : Inv pg (contents db acts) (.start db) := by
    refine ⟨⟨hadmissible.ordered, hadmissible.ordered, rfl, ⟨rfl, rfl⟩, hadmissible.seen,
      fun q => .refl _⟩, hadmissible.referenced, fun r hr => ?_, nofun⟩
    exact List.mem_append_left _ (List.mem_map_of_mem hr)
  have hloads : ∀ a ∈ acts, ∀ _ : Site, ∀ c, a = .load c → content c.record ∈ contents db acts := by
    rintro a ha - c rfl
    exact List.mem_append_right _ (List.mem_filterMap.mpr ⟨_, ha, rfl⟩)
  have hboth := Trace.Along.and (step pg) hmeets (Trace.along_of_forall (step pg)
    (C := fun _ a => ∀ c, a = .load c → content c.record ∈ contents db acts) hloads (.start db))
  have hinv : ∀ pre, pre <+: acts → Inv pg (contents db acts)
      (Trace.exec (step pg) (.start db) pre) := by
    rintro pre ⟨post, rfl⟩
    exact Trace.exec_invariant_of_along (step pg) (I := Inv pg _)
      (fun s a hc h => (h.step hdigest hc.2 hc.1).1) hstart ((Trace.along_append (step pg)).mp hboth).1
  refine ⟨fun pre hpre => (hinv pre hpre).preserved, ?_⟩
  rintro pre a ⟨post, rfl⟩
  have halong := ((Trace.along_append (step pg)).mp ((Trace.along_append (step pg)).mp hboth).1).2
  exact ((hinv pre ⟨[a] ++ post, by simp⟩).step hdigest halong.1.2 halong.1.1).2

/-! ## A load between the query and the transaction -/

/-- An observation of the glaze for ten euros, as an older loader has repeated it every day. -/
def dailyOffer (id : ℕ) (observedAt : Time) : OfferObservation where
  id := id
  productId := 1
  rawRecordId := 1
  observedAt := observedAt
  lastSeenAt := observedAt
  terms := { price := .micros 10000000 (by decide), currency := "EUR" }
  contextSha256 := 10
  attributes := .object "{}"
  contextVersion := 1

/-- The glaze with two daily observations, of the eighth and the ninth. -/
def dailyGlaze : Catalogue :=
  { load Loads.threeDays {} (Loads.blueGlaze "10" "2026-08-08T00:00:00Z") with
    offers := [dailyOffer 1 1786147200000000, dailyOffer 2 1786233600000000]
    nextOffer := 3 }

/-- A run of compaction reads the two observations. -/
def readDaily : List Act :=
  [.readRaw 100 [], .readOffers 0 [⟨1, 1, [1, 2], 1786147200000000, 1786233600000000⟩]]

/-- The price is seen again on the tenth. -/
def loadTenth : Act := .load (Loads.blueGlaze "10" "2026-08-10T00:00:00Z")

theorem admissible_dailyGlaze : Admissible dailyGlaze where
  ordered := by
    refine ⟨by unfold Keyed; decide, by decide, fun q => ?_⟩
    by_cases hq : q = 1
    · rw [hq]
      decide
    · have hnil : dailyGlaze.offersOf q = [] := by
        simp [Catalogue.offersOf, dailyGlaze, dailyOffer, Ne.symm hq]
      rw [hnil]
      exact .nil
  seen := by decide
  referenced := ⟨by unfold Keyed; decide, by decide, by unfold Keyed; decide, by decide, by decide,
    by decide⟩

theorem compaction_before_load :
    (∀ pre, pre <+: readDaily ++ [.mergeOffers 0, loadTenth] →
        Preserved (Trace.exec (step Loads.threeDays) (.start dailyGlaze) pre)) ∧
      ∀ pre a, pre ++ [a] <+: readDaily ++ [.mergeOffers 0, loadTenth] →
        Advances (Trace.exec (step Loads.threeDays) (.start dailyGlaze) pre).db
          (step Loads.threeDays (Trace.exec (step Loads.threeDays) (.start dailyGlaze) pre) a).db :=
  compaction_preserves Loads.threeDays admissible_dailyGlaze (by unfold Distinguished; decide)
    (by decide)

/-- A load that extends the observation between the query and the transaction is lost: the interval
ends on the ninth, although the price was seen on the tenth. -/
theorem compaction_loses_load :
    ¬ ∀ (db : Catalogue) (acts : List Act), Admissible db →
      Distinguished Loads.threeDays (contents db acts) →
        Preserved (Trace.exec (step Loads.threeDays) (.start db) acts) := by
  intro h
  have hpreserved := h dailyGlaze (readDaily ++ [loadTenth, .mergeOffers 0]) admissible_dailyGlaze
    (by unfold Distinguished; decide)
  exact absurd (hpreserved.history 1) (by decide)

end CommerceCollector.Compaction
