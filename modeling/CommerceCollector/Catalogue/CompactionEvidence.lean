import CommerceCollector.Catalogue.CompactionTwin

/-!
# The raw records behind the observations

Every observation names a raw record.  A load leaves the content of the raw records and adds at most
one; the transaction of a raw group moves the references of the deleted rows to a row of the group,
whose content has the same digest.  `Advances db db'` is what a step does to the rows that it
leaves: no moment moves back, and no observation comes to name another content.
-/

namespace CommerceCollector.Compaction

open Relational Islands

variable {pg : Postgres} {db db' : Catalogue}

/-! ## References -/

/-- The content of a raw record, apart from `fetched_at`. -/
def contentOf (db : Catalogue) (id : ℕ) : Option Record :=
  (db.rawRecords.find? fun r => r.id == id).map fun r => content r.record

/-- The keys of the raw records and of the quarantined observations, and the references to the raw
records. -/
structure Referenced (db : Catalogue) : Prop where
  rawKeyed : Keyed RawRecord.id db.rawRecords
  rawBounded : ∀ r ∈ db.rawRecords, r.id < db.nextRawRecord
  asideKeyed : Keyed OutOfOrderObservation.id db.outOfOrder
  asideBounded : ∀ q ∈ db.outOfOrder, q.id < db.nextOutOfOrder
  offers : ∀ o ∈ db.offers, ∃ r ∈ db.rawRecords, r.id = o.rawRecordId
  asides : ∀ q ∈ db.outOfOrder, ∃ r ∈ db.rawRecords, r.id = q.rawRecordId

/-- What a step does to the rows that it leaves. -/
structure Advances (db db' : Catalogue) : Prop where
  offers : ∀ o ∈ db.offers, ∀ o' ∈ db'.offers, o'.id = o.id →
    o.lastSeenAt ≤ o'.lastSeenAt ∧ contentOf db' o'.rawRecordId = contentOf db o.rawRecordId
  raws : ∀ r ∈ db.rawRecords, ∀ r' ∈ db'.rawRecords, r'.id = r.id → r.lastSeenAt ≤ r'.lastSeenAt
  asides : ∀ q ∈ db.outOfOrder, ∀ q' ∈ db'.outOfOrder, q'.id = q.id →
    contentOf db' q'.rawRecordId = contentOf db q.rawRecordId

theorem contentOf_eq (h : Keyed RawRecord.id db.rawRecords) {r : RawRecord}
    (hr : r ∈ db.rawRecords) : contentOf db r.id = some (content r.record) := by
  unfold contentOf
  rw [h.find?_eq_some hr]
  rfl

theorem Advances.refl (horders : Keyed OfferObservation.id db.offers) (h : Referenced db) :
    Advances db db where
  offers := fun o ho o' ho' hid => by
    obtain rfl := horders.eq_of_mem ho' ho hid
    exact ⟨le_rfl, rfl⟩
  raws := fun r hr r' hr' hid => by
    obtain rfl := h.rawKeyed.eq_of_mem hr' hr hid
    exact le_rfl
  asides := fun q hq q' hq' hid => by
    obtain rfl := h.asideKeyed.eq_of_mem hq' hq hid
    rfl

/-! ## Loads -/

/-- The raw records of a load: every row stays with its content, and at most one is added. -/
structure RawGrows (db db' : Catalogue) (new : Record) : Prop where
  keyed : Keyed RawRecord.id db'.rawRecords
  bounded : ∀ r ∈ db'.rawRecords, r.id < db'.nextRawRecord
  next : db.nextRawRecord ≤ db'.nextRawRecord
  stays : ∀ r ∈ db.rawRecords, ∃ r' ∈ db'.rawRecords, r'.id = r.id ∧ r'.record = r.record ∧
    r.lastSeenAt ≤ r'.lastSeenAt
  origin : ∀ r' ∈ db'.rawRecords, (∃ r ∈ db.rawRecords, r'.id = r.id ∧ r'.record = r.record) ∨
    r'.id = db.nextRawRecord ∧ r'.record = new

theorem upsertRawRecord_grows {db₁ : Catalogue} (hrows : db₁.rawRecords = db.rawRecords)
    (hnext : db₁.nextRawRecord = db.nextRawRecord) (h : Referenced db) {row : RawRecord}
    (hid : row.id = db₁.nextRawRecord) :
    RawGrows db (db₁.upsertRawRecord row).2 row.record ∧
      ∃ r ∈ (db₁.upsertRawRecord row).2.rawRecords, r.id = (db₁.upsertRawRecord row).1 := by
  have hbounded := h.rawBounded
  unfold Catalogue.upsertRawRecord
  dsimp only
  rw [hrows, hnext]
  rw [hnext] at hid
  cases hfound : db.rawRecords.find? fun q =>
      q.productId == row.productId && q.recordSha256 == row.recordSha256 with
  | some old =>
    dsimp only
    have hmem := mem_of_find? hfound
    have hrow : ∀ (b : Bool) (r : RawRecord), (if b then r.merge row else r).id = r.id ∧
        (if b then r.merge row else r).record = r.record ∧
        r.lastSeenAt ≤ (if b then r.merge row else r).lastSeenAt := by
      intro b r
      cases b
      · exact ⟨rfl, rfl, le_rfl⟩
      · exact ⟨rfl, rfl, le_max_left _ _⟩
    refine ⟨⟨h.rawKeyed.update fun _ => rfl, fun r hr => ?_, le_rfl, fun r hr => ?_, fun r hr => ?_⟩,
      old.merge row, mem_update_of_pos hmem.1 hmem.2, rfl⟩
    · obtain ⟨b, hb, rfl⟩ := mem_update.mp hr
      rw [(hrow _ b).1]
      exact hbounded b hb
    · exact ⟨_, mem_update.mpr ⟨r, hr, rfl⟩, hrow _ r⟩
    · obtain ⟨b, hb, rfl⟩ := mem_update.mp hr
      exact .inl ⟨b, hb, (hrow _ b).1, (hrow _ b).2.1⟩
  | none =>
    dsimp only
    refine ⟨⟨h.rawKeyed.append fun r hr => ?_, fun r hr => ?_, Nat.le_succ _, fun r hr => ?_,
      fun r hr => ?_⟩, row, by simp, rfl⟩
    · rw [hid]
      exact (hbounded r hr).ne
    · rcases List.mem_append.mp hr with hr | hr
      · exact (hbounded r hr).trans (Nat.lt_succ_self _)
      · rw [List.mem_singleton.mp hr, hid]
        exact Nat.lt_succ_self _
    · exact ⟨r, List.mem_append_left _ hr, rfl, rfl, le_rfl⟩
    · rcases List.mem_append.mp hr with hr | hr
      · exact .inl ⟨r, hr, rfl, rfl⟩
      · rw [List.mem_singleton.mp hr]
        exact .inr ⟨hid, rfl⟩

theorem RawGrows.contentOf {new : Record} (h : RawGrows db db' new)
    (hkeyed : Keyed RawRecord.id db.rawRecords) {r : RawRecord} (hr : r ∈ db.rawRecords) :
    contentOf db' r.id = contentOf db r.id := by
  obtain ⟨r', hr', hid, hrecord, -⟩ := h.stays r hr
  rw [contentOf_eq hkeyed hr, ← hid, contentOf_eq h.keyed hr', hrecord]

theorem register_grows (h : Referenced db) (v : Values) (f : Time) (c : LoadCall) :
    RawGrows db (db.register pg v f c).2.2 c.record ∧
      (∃ r ∈ (db.register pg v f c).2.2.rawRecords, r.id = (db.register pg v f c).2.1) ∧
      (db.register pg v f c).2.2.outOfOrder = db.outOfOrder ∧
      (db.register pg v f c).2.2.nextOutOfOrder = db.nextOutOfOrder := by
  have hproduct : ∀ (db : Catalogue) (b : Bool) (row : SourceProduct),
      (db.upsertProduct b row).2.rawRecords = db.rawRecords ∧
        (db.upsertProduct b row).2.nextRawRecord = db.nextRawRecord ∧
        (db.upsertProduct b row).2.outOfOrder = db.outOfOrder ∧
        (db.upsertProduct b row).2.nextOutOfOrder = db.nextOutOfOrder := by
    intro db b row
    unfold Catalogue.upsertProduct
    dsimp only
    split <;> exact ⟨rfl, rfl, rfl, rfl⟩
  have hraw : ∀ (db : Catalogue) (row : RawRecord),
      (db.upsertRawRecord row).2.outOfOrder = db.outOfOrder ∧
        (db.upsertRawRecord row).2.nextOutOfOrder = db.nextOutOfOrder := by
    intro db row
    unfold Catalogue.upsertRawRecord
    dsimp only
    split <;> exact ⟨rfl, rfl⟩
  unfold Catalogue.register
  dsimp only
  obtain ⟨hrows, hnext, haside, hnextAside⟩ :=
    hproduct { db with sources := insertNew id v.source db.sources } c.record.priceRefresh
      (v.product pg c.record f db.nextProduct)
  generalize ({ db with sources := insertNew id v.source db.sources : Catalogue }.upsertProduct
    c.record.priceRefresh (v.product pg c.record f db.nextProduct)) = result at *
  obtain ⟨product, db₁⟩ := result
  dsimp only at *
  refine ⟨?_, ?_, (hraw _ _).1.trans haside, (hraw _ _).2.trans hnextAside⟩
  · exact (upsertRawRecord_grows hrows hnext h rfl).1
  · exact (upsertRawRecord_grows hrows hnext h rfl).2

/-- What a load makes of the rows: they stay, and new ones name the raw record of the load. -/
theorem RawGrows.evidence {new : Record} {n : ℕ} (h : RawGrows db db' new) (href : Referenced db)
    (hordered : db.OffersOrdered) (hnamed : ∃ r ∈ db'.rawRecords, r.id = n)
    (hoffers : ∀ o' ∈ db'.offers, (∃ o ∈ db.offers, o'.id = o.id ∧
        o.lastSeenAt ≤ o'.lastSeenAt ∧ o'.rawRecordId = o.rawRecordId) ∨
      o'.id = db.nextOffer ∧ o'.rawRecordId = n)
    (hasides : (db'.outOfOrder = db.outOfOrder ∧ db'.nextOutOfOrder = db.nextOutOfOrder) ∨
      db'.nextOutOfOrder = db.nextOutOfOrder + 1 ∧ (db'.outOfOrder = db.outOfOrder ∨
        ∃ q, q.id = db.nextOutOfOrder ∧ q.rawRecordId = n ∧
          db'.outOfOrder = db.outOfOrder ++ [q])) : Referenced db' ∧ Advances db db' := by
  have hstays : ∀ id, (∃ r ∈ db.rawRecords, r.id = id) → ∃ r ∈ db'.rawRecords, r.id = id := by
    rintro id ⟨r, hr, rfl⟩
    obtain ⟨r', hr', hid, -⟩ := h.stays r hr
    exact ⟨r', hr', hid⟩
  have hcontent : ∀ id, (∃ r ∈ db.rawRecords, r.id = id) →
      Compaction.contentOf db' id = Compaction.contentOf db id := by
    rintro id ⟨r, hr, rfl⟩
    exact h.contentOf href.rawKeyed hr
  have hrows : ∀ q' ∈ db'.outOfOrder, q' ∈ db.outOfOrder ∨
      q'.id = db.nextOutOfOrder ∧ q'.rawRecordId = n := by
    intro q' hq'
    rcases hasides with ⟨heq, -⟩ | ⟨-, heq | ⟨q, hid, hraw, heq⟩⟩
    · exact .inl (heq ▸ hq')
    · exact .inl (heq ▸ hq')
    · rw [heq] at hq'
      rcases List.mem_append.mp hq' with hq' | hq'
      · exact .inl hq'
      · obtain rfl := List.mem_singleton.mp hq'
        exact .inr ⟨hid, hraw⟩
  have hnext : db.nextOutOfOrder ≤ db'.nextOutOfOrder := by
    rcases hasides with ⟨-, heq⟩ | ⟨heq, -⟩ <;> omega
  refine ⟨⟨h.keyed, h.bounded, ?_, fun q' hq' => ?_, fun o' ho' => ?_, fun q' hq' => ?_⟩,
    ⟨fun o ho o' ho' hid => ?_, fun r hr r' hr' hid => ?_, fun q hq q' hq' hid => ?_⟩⟩
  · rcases hasides with ⟨heq, -⟩ | ⟨-, heq | ⟨q, hid, -, heq⟩⟩
    · rw [heq]
      exact href.asideKeyed
    · rw [heq]
      exact href.asideKeyed
    · rw [heq]
      refine href.asideKeyed.append fun x hx => ?_
      rw [hid]
      exact (href.asideBounded x hx).ne
  · rcases hasides with ⟨heq, -⟩ | ⟨hsucc, heq | ⟨q, hid, -, heq⟩⟩
    · exact (href.asideBounded q' (heq ▸ hq')).trans_le hnext
    · exact (href.asideBounded q' (heq ▸ hq')).trans_le hnext
    · rw [heq] at hq'
      rcases List.mem_append.mp hq' with hq' | hq'
      · exact (href.asideBounded q' hq').trans_le hnext
      · rw [List.mem_singleton.mp hq', hid, hsucc]
        exact Nat.lt_succ_self _
  · rcases hoffers o' ho' with ⟨o, ho, -, -, hraw⟩ | ⟨-, hraw⟩
    · rw [hraw]
      exact hstays _ (href.offers o ho)
    · rw [hraw]
      exact hnamed
  · rcases hrows q' hq' with hq | ⟨-, hraw⟩
    · exact hstays _ (href.asides q' hq)
    · rw [hraw]
      exact hnamed
  · rcases hoffers o' ho' with ⟨x, hx, hxid, hseen, hraw⟩ | ⟨hnew, -⟩
    · obtain rfl := hordered.keyed.eq_of_mem hx ho (hxid.symm.trans hid)
      rw [hraw]
      exact ⟨hseen, hcontent _ (href.offers x hx)⟩
    · exact absurd (hid.symm.trans hnew) (hordered.bounded o ho).ne
  · obtain ⟨x, hx, hxid, -, hseen⟩ := h.stays r hr
    obtain rfl := h.keyed.eq_of_mem hx hr' (hxid.trans hid.symm)
    exact hseen
  · rcases hrows q' hq' with hq'' | ⟨hnew, -⟩
    · obtain rfl := href.asideKeyed.eq_of_mem hq'' hq hid
      exact hcontent _ (href.asides q' hq'')
    · exact absurd (hid.symm.trans hnew) (href.asideBounded q hq).ne

/-- The raw records that a step leaves or adds. -/
def RawOrigin (db db' : Catalogue) (new : List Record) : Prop :=
  db.nextRawRecord ≤ db'.nextRawRecord ∧ ∀ r' ∈ db'.rawRecords,
    (∃ r ∈ db.rawRecords, r'.id = r.id ∧ r'.record = r.record) ∨
      r'.id = db.nextRawRecord ∧ r'.record ∈ new

theorem RawOrigin.refl (db : Catalogue) (new : List Record) : RawOrigin db db new :=
  ⟨le_rfl, fun r hr => .inl ⟨r, hr, rfl, rfl⟩⟩

/-- **A load keeps the references**, moves no moment back and leaves every observation its
content. -/
theorem load_evidence (href : Referenced db) (hordered : db.OffersOrdered) (c : LoadCall) :
    Referenced (load pg db c) ∧ Advances db (load pg db c) ∧
      RawOrigin db (load pg db c) [c.record] := by
  have hsame : Referenced db ∧ Advances db db ∧ RawOrigin db db [c.record] :=
    ⟨href, .refl hordered.keyed href, .refl db _⟩
  rw [load_eq]
  cases hparsed : parsed pg c with
  | error e => exact hsame
  | ok part =>
    obtain ⟨v, f, offer⟩ := part
    obtain ⟨hgrows, hnamed, haside, hnextAside⟩ :
        RawGrows db (db.register pg v f c).2.2 c.record ∧
          (∃ r ∈ (db.register pg v f c).2.2.rawRecords, r.id = (db.register pg v f c).2.1) ∧
          (db.register pg v f c).2.2.outOfOrder = db.outOfOrder ∧
          (db.register pg v f c).2.2.nextOutOfOrder = db.nextOutOfOrder :=
      register_grows href v f c
    have hoffers : (db.register pg v f c).2.2.offers = db.offers :=
      (db.register_offers v f c).1
    have hnext : (db.register pg v f c).2.2.nextOffer = db.nextOffer :=
      (db.register_offers v f c).2
    have hregistered : (db.register pg v f c).2.2.OffersOrdered := (hordered.register v f c).1
    generalize hR : (db.register pg v f c).2.2 = R at *
    generalize hn : (db.register pg v f c).2.1 = n at *
    have horigin : ∀ db' : Catalogue, db'.rawRecords = R.rawRecords →
        db'.nextRawRecord = R.nextRawRecord → RawOrigin db db' [c.record] := by
      intro db' hraw hnextRaw
      refine ⟨hnextRaw ▸ hgrows.next, fun r' hr' => ?_⟩
      rw [hraw] at hr'
      exact (hgrows.origin r' hr').imp_right fun h => ⟨h.1, by rw [h.2]; simp⟩
    have hold : ∀ o ∈ R.offers, ∃ x ∈ db.offers, o.id = x.id ∧ x.lastSeenAt ≤ o.lastSeenAt ∧
        o.rawRecordId = x.rawRecordId := fun o ho => ⟨o, hoffers ▸ ho, rfl, le_rfl, rfl⟩
    cases offer with
    | none =>
      obtain ⟨href', hadvances⟩ := hgrows.evidence href hordered hnamed
        (fun o ho => .inl (hold o ho)) (.inl ⟨haside, hnextAside⟩)
      dsimp only
      rw [hR]
      exact ⟨href', hadvances, horigin R rfl rfl⟩
    | some t =>
      dsimp only
      rw [hR, hn]
      cases hv : verdict (R.offersOf (db.productOf v)) f t (pg.contextSha256 t) with
      | keep =>
        rcases observe_keep (n := n) (p := c.record) hregistered hv with hok | hok
        · rw [hok]
          obtain ⟨href', hadvances⟩ := hgrows.evidence href hordered hnamed
            (fun o ho => .inl (hold o ho)) (.inl ⟨haside, hnextAside⟩)
          exact ⟨href', hadvances, horigin R rfl rfl⟩
        · rw [hok]
          have hgrows' : RawGrows db
              (R.putAside (db.productOf v) n f (pg.contextSha256 t) c.record) c.record :=
            ⟨hgrows.keyed, hgrows.bounded, hgrows.next, hgrows.stays, hgrows.origin⟩
          have hadded : (R.putAside (db.productOf v) n f (pg.contextSha256 t) c.record).outOfOrder =
                db.outOfOrder ∨ ∃ q, q.id = db.nextOutOfOrder ∧ q.rawRecordId = n ∧
              (R.putAside (db.productOf v) n f (pg.contextSha256 t) c.record).outOfOrder =
                db.outOfOrder ++ [q] := by
            dsimp only [Catalogue.putAside, insertNew]
            split
            · exact .inl haside
            · exact .inr ⟨_, hnextAside, rfl, by rw [haside]⟩
          obtain ⟨href', hadvances⟩ := hgrows'.evidence href hordered hnamed
            (fun o ho => .inl (hold o ho)) (.inr ⟨congrArg (· + 1) hnextAside, hadded⟩)
          exact ⟨href', hadvances, horigin _ rfl rfl⟩
      | extend =>
        obtain ⟨latest, -, -, hok⟩ := observe_extend (n := n) (p := c.record) hregistered hv
        rw [hok]
        have hgrows' : RawGrows db { R with
            offers := update (fun o => o.id == latest.id) (·.extend f) R.offers } c.record :=
          ⟨hgrows.keyed, hgrows.bounded, hgrows.next, hgrows.stays, hgrows.origin⟩
        have hextended : ∀ o ∈ update (fun o => o.id == latest.id) (·.extend f) R.offers,
            ∃ x ∈ db.offers, o.id = x.id ∧ x.lastSeenAt ≤ o.lastSeenAt ∧
              o.rawRecordId = x.rawRecordId := by
          intro o ho
          obtain ⟨b, hb, rfl⟩ := mem_update.mp ho
          obtain ⟨x, hx, hid, hseen, hraw⟩ := hold b hb
          refine ⟨x, hx, ?_⟩
          split
          · exact ⟨hid, hseen.trans (le_max_left _ _), hraw⟩
          · exact ⟨hid, hseen, hraw⟩
        obtain ⟨href', hadvances⟩ := hgrows'.evidence href hordered hnamed
          (fun o ho => .inl (hextended o ho)) (.inl ⟨haside, hnextAside⟩)
        exact ⟨href', hadvances, horigin _ rfl rfl⟩
      | insert =>
        obtain ⟨hobserve, -⟩ := observe_insert (n := n) (p := c.record) hregistered hv
        rw [hobserve]
        rcases insertOffer_cases R (db.productOf v) n f t (pg.contextSha256 t) c.record with
          ⟨-, e, he⟩ | ⟨terms, -, hok⟩
        · rw [he]
          exact hsame
        · rw [hok]
          have hgrows' : RawGrows db { R with
              offers := R.offers ++ [newOffer R.nextOffer (db.productOf v) n f terms
                (pg.contextSha256 t) c.record]
              nextOffer := R.nextOffer + 1 } c.record :=
            ⟨hgrows.keyed, hgrows.bounded, hgrows.next, hgrows.stays, hgrows.origin⟩
          obtain ⟨href', hadvances⟩ := hgrows'.evidence href hordered hnamed
            (fun o ho => (List.mem_append.mp ho).imp (hold o) fun ho => by
              rw [List.mem_singleton.mp ho]
              exact ⟨hnext, rfl⟩)
            (.inl ⟨haside, hnextAside⟩)
          exact ⟨href', hadvances, horigin _ rfl rfl⟩

end CommerceCollector.Compaction
