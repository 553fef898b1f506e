import CommerceCollector.Catalogue.LocalHistory

/-!
# What the local history records

Of the observations of a product the history has the first one of every price context.  These are
its price changes exactly when no context comes back after another one.  A batch that is appended
twice in a row adds nothing the second time.
-/

namespace CommerceCollector

open JsonText Changes

/-- The price context as it is compared: its text with sorted keys. -/
def contextText (record : HistoryRecord) : List Char := dumpsSorted (priceContext record)

/-- A record has a price. -/
def HistoryRecord.priced (record : HistoryRecord) : Bool :=
  match record.price with
  | .null => false
  | _ => true

/-- The observations of a product among records: those with a price. -/
def observationsOf (records : List (String × HistoryRecord)) (source externalId : String) :
    List HistoryRecord :=
  (records.filter fun r => r.1 == source && (r.2.externalId == externalId && r.2.priced)).map (·.2)

namespace LocalHistory

/-- The row of a product. -/
def productOf (db : LocalHistory) (source externalId : String) : Option HistoryProduct :=
  db.products.find? fun row => row.source = source ∧ row.externalId = externalId

/-- The observations of a product, by its identifier. -/
def recordedFor (db : LocalHistory) (id : ℕ) : List HistoryRecord :=
  (db.observations.filter fun o => o.productId = id).map (·.record)

/-- What is recorded of a product, in order. -/
def recorded (db : LocalHistory) (source externalId : String) : List HistoryRecord :=
  ((db.productOf source externalId).map fun row => db.recordedFor row.id).getD []

/-- The identifiers of the products tell them apart and are not used up, and a fingerprint is that
of its record. -/
structure Consistent (digest : List Char → String) (db : LocalHistory) : Prop where
  ids : ∀ row ∈ db.products, row.id ≤ db.products.length
  apart : ∀ row ∈ db.products, ∀ other ∈ db.products, row.id = other.id →
    row.source = other.source ∧ row.externalId = other.externalId
  known : ∀ o ∈ db.observations, o.productId ≤ db.products.length
  fingerprints : ∀ o ∈ db.observations, o.fingerprint = priceFingerprint digest o.record

variable {digest : List Char → String} {db : LocalHistory} {source externalId : String}
  {record : HistoryRecord}

/-! ## The product of a record -/

theorem productOf_spec {row : HistoryProduct} (h : db.productOf source externalId = some row) :
    row ∈ db.products ∧ row.source = source ∧ row.externalId = externalId := by
  have hfound := List.find?_some h
  simp only [decide_eq_true_eq] at hfound
  exact ⟨List.mem_of_find?_eq_some h, hfound⟩

theorem productOf_map (db : LocalHistory) {f : HistoryProduct → HistoryProduct}
    (hf : ∀ row, (f row).id = row.id ∧ (f row).source = row.source ∧
      (f row).externalId = row.externalId) (s e : String) :
    ({ db with products := db.products.map f } : LocalHistory).productOf s e =
      (db.productOf s e).map f := by
  rw [productOf, productOf, List.find?_map]
  congr 2
  funext row
  obtain ⟨-, hsource, hexternal⟩ := hf row
  rw [Function.comp_apply, hsource, hexternal]

theorem consistent_map (h : db.Consistent digest) {f : HistoryProduct → HistoryProduct}
    (hf : ∀ row, (f row).id = row.id ∧ (f row).source = row.source ∧
      (f row).externalId = row.externalId) :
    ({ db with products := db.products.map f } : LocalHistory).Consistent digest := by
  have hlength : (db.products.map f).length = db.products.length := List.length_map _
  refine ⟨fun row hrow => ?_, fun row hrow other hother hid => ?_, fun o ho => ?_, h.fingerprints⟩
  · obtain ⟨old, hold, rfl⟩ := List.mem_map.mp hrow
    rw [(hf old).1]
    exact (h.ids old hold).trans hlength.ge
  · obtain ⟨old, hold, rfl⟩ := List.mem_map.mp hrow
    obtain ⟨old', hold', rfl⟩ := List.mem_map.mp hother
    rw [(hf old).1, (hf old').1] at hid
    rw [(hf old).2.1, (hf old').2.1, (hf old).2.2, (hf old').2.2]
    exact h.apart old hold old' hold' hid
  · exact (h.known o ho).trans hlength.ge

/-- **What an upsert does**: the record's product has the identifier, and what is recorded stays. -/
theorem upsertProduct_spec (h : db.Consistent digest) (source : String) (record : HistoryRecord) :
    (db.upsertProduct source record).1.Consistent digest ∧
      (db.upsertProduct source record).1.observations = db.observations ∧
      (∃ row, (db.upsertProduct source record).1.productOf source record.externalId = some row ∧
        row.id = (db.upsertProduct source record).2.1) ∧
      ∀ s e, (db.upsertProduct source record).1.recorded s e = db.recorded s e := by
  rw [upsertProduct]
  cases hfound : db.products.find? fun row =>
      row.source = source ∧ row.externalId = record.externalId with
  | some found =>
    have hf : ∀ row : HistoryProduct, (if row.id = found.id then
        { row with identity := record.identity, lastSeenAt := record.fetchedAt } else row).id =
          row.id ∧ (if row.id = found.id then
        { row with identity := record.identity, lastSeenAt := record.fetchedAt } else row).source =
          row.source ∧ (if row.id = found.id then
        { row with identity := record.identity, lastSeenAt := record.fetchedAt }
          else row).externalId = row.externalId := by
      intro row
      split <;> exact ⟨rfl, rfl, rfl⟩
    refine ⟨consistent_map h hf, rfl, ⟨_, ?_, (hf found).1⟩, fun s e => ?_⟩
    · rw [productOf_map db hf, productOf, hfound]
      rfl
    · rw [recorded, recorded, productOf_map db hf, Option.map_map]
      congr 2
      funext row
      exact congrArg db.recordedFor (hf row).1
  | none =>
    have hlength : ∀ row : HistoryProduct,
        (db.products ++ [row]).length = db.products.length + 1 := fun row => by simp
    refine ⟨⟨fun row hrow => ?_, fun row hrow other hother hid => ?_, fun o ho => ?_,
      h.fingerprints⟩, rfl, ⟨newProduct (db.products.length + 1) source record, ?_, rfl⟩,
      fun s e => ?_⟩
    · rw [hlength]
      rcases List.mem_append.mp hrow with hold | hnew
      · exact (h.ids row hold).trans (Nat.le_succ _)
      · exact (List.mem_singleton.mp hnew ▸ rfl : row.id = db.products.length + 1).le
    · rcases List.mem_append.mp hrow with hold | hnew <;>
        rcases List.mem_append.mp hother with hold' | hnew'
      · exact h.apart row hold other hold' hid
      · rw [List.mem_singleton.mp hnew'] at hid
        exact absurd (h.ids row hold) (by rw [hid]; exact Nat.not_succ_le_self _)
      · rw [List.mem_singleton.mp hnew] at hid
        exact absurd (h.ids other hold') (by rw [← hid]; exact Nat.not_succ_le_self _)
      · rw [List.mem_singleton.mp hnew, List.mem_singleton.mp hnew']
        exact ⟨rfl, rfl⟩
    · rw [hlength]
      exact (h.known o ho).trans (Nat.le_succ _)
    · rw [productOf, List.find?_append, hfound]
      simp [newProduct]
    · rw [recorded, recorded, productOf, List.find?_append, ← productOf]
      cases hold : db.productOf s e with
      | some row => rfl
      | none =>
        -- a product that is new has no observations
        rw [Option.none_or]
        by_cases hself : source = s ∧ record.externalId = e
        · have hfind : [newProduct (db.products.length + 1) source record].find?
              (fun row => row.source = s ∧ row.externalId = e) =
                some (newProduct (db.products.length + 1) source record) :=
            List.find?_cons_of_pos (decide_eq_true hself :
              decide ((newProduct (db.products.length + 1) source record).source = s ∧
                (newProduct (db.products.length + 1) source record).externalId = e) = true)
          rw [hfind]
          refine List.map_eq_nil_iff.mpr (List.filter_eq_nil_iff.mpr fun o ho => ?_)
          have hle := h.known o ho
          have hfresh : (newProduct (db.products.length + 1) source record).id =
              db.products.length + 1 := rfl
          simp only [decide_eq_true_eq]
          omega
        · have hfind : [newProduct (db.products.length + 1) source record].find?
              (fun row => row.source = s ∧ row.externalId = e) = none :=
            List.find?_cons_of_neg fun h => hself (of_decide_eq_true h)
          rw [hfind]
          rfl

/-! ## One record -/

theorem observationsOf_single (source : String) (record : HistoryRecord) (s e : String) :
    observationsOf [(source, record)] s e =
      if (source = s ∧ record.externalId = e) ∧ record.priced = true then [record] else [] := by
  by_cases h : (source = s ∧ record.externalId = e) ∧ record.priced = true
  · obtain ⟨⟨rfl, rfl⟩, hpriced⟩ := h
    simp [observationsOf, hpriced]
  · have hnot : (source == s && (record.externalId == e && record.priced)) = false := by
      simpa [and_assoc] using h
    rw [if_neg h, observationsOf, List.filter_cons_of_neg (Bool.not_eq_true _ ▸ hnot), List.filter_nil,
      List.map_nil]

/-- **What an insert does**: the observation is recorded of its product, if its context was not. -/
theorem insertObservation_spec (h : db.Consistent digest) {row : HistoryProduct}
    (hrow : db.productOf source record.externalId = some row) :
    let key := priceFingerprint digest
    let (after, inserted) := db.insertObservation digest row.id record
    after.Consistent digest ∧
      (∀ s e, after.recorded s e = db.recorded s e ++ firsts key ((db.recorded s e).map key)
        (if source = s ∧ record.externalId = e then [record] else [])) ∧
      (key record ∈ (db.recorded source record.externalId).map key →
        after.observations = db.observations ∧ inserted = 0) := by
  intro key
  obtain ⟨hmem, hsource, hexternal⟩ := productOf_spec hrow
  have hrecorded : db.recorded source record.externalId = db.recordedFor row.id := by
    rw [recorded, hrow]
    rfl
  have hknown : (db.observations.any fun o => o.productId = row.id ∧
      o.fingerprint = priceFingerprint digest record) = true ↔
        key record ∈ (db.recorded source record.externalId).map key := by
    rw [hrecorded, recordedFor, List.map_map, List.any_eq_true, List.mem_map]
    constructor
    · rintro ⟨o, ho, hsame⟩
      obtain ⟨hproduct, hfingerprint⟩ := of_decide_eq_true hsame
      exact ⟨o, List.mem_filter.mpr ⟨ho, decide_eq_true hproduct⟩,
        (h.fingerprints o ho).symm.trans hfingerprint⟩
    · rintro ⟨o, ho, hsame⟩
      obtain ⟨ho, hproduct⟩ := List.mem_filter.mp ho
      exact ⟨o, ho, decide_eq_true
        ⟨of_decide_eq_true hproduct, (h.fingerprints o ho).trans hsame⟩⟩
  have heq : db.insertObservation digest row.id record =
      if (db.observations.any fun o => o.productId = row.id ∧
        o.fingerprint = priceFingerprint digest record) = true then (db, 0)
      else ({ db with observations := db.observations ++
        [⟨row.id, record, priceFingerprint digest record⟩] }, 1) := rfl
  rw [heq]
  by_cases hany : (db.observations.any fun o => o.productId = row.id ∧
      o.fingerprint = priceFingerprint digest record) = true
  · have hseen := hknown.mp hany
    rw [if_pos hany]
    refine ⟨h, fun s e => ?_, fun _ => ⟨rfl, rfl⟩⟩
    split
    · rename_i hself
      obtain ⟨rfl, rfl⟩ := hself
      rw [firsts, if_pos hseen, firsts, List.append_nil]
    · rw [firsts, List.append_nil]
  · have hnew : key record ∉ (db.recorded source record.externalId).map key :=
      fun hseen => hany (hknown.mpr hseen)
    rw [if_neg hany]
    refine ⟨⟨h.ids, h.apart, fun o ho => ?_, fun o ho => ?_⟩, fun s e => ?_,
      fun hseen => absurd hseen hnew⟩
    · rcases List.mem_append.mp ho with hold | hlast
      · exact h.known o hold
      · rw [List.mem_singleton.mp hlast]
        exact h.ids row hmem
    · rcases List.mem_append.mp ho with hold | hlast
      · exact h.fingerprints o hold
      · rw [List.mem_singleton.mp hlast]
    · have hfor : ∀ id, LocalHistory.recordedFor { db with observations := db.observations ++
          [{ productId := row.id, record, fingerprint := priceFingerprint digest record }] } id =
            db.recordedFor id ++ if row.id = id then [record] else [] := by
        intro id
        rw [recordedFor, recordedFor, List.filter_append, List.map_append, List.filter_singleton]
        by_cases hid : row.id = id <;> simp [hid]
      rw [recorded, recorded]
      change ((db.productOf s e).map fun row' => LocalHistory.recordedFor _ row'.id).getD [] = _
      simp only [hfor]
      by_cases hself : source = s ∧ record.externalId = e
      · obtain ⟨rfl, rfl⟩ := hself
        rw [hrecorded] at hnew
        rw [hrow, if_pos ⟨rfl, rfl⟩]
        simp only [Option.map_some, Option.getD_some, if_true]
        rw [firsts, if_neg hnew, firsts]
      · rw [if_neg hself, firsts, List.append_nil]
        cases hother : db.productOf s e with
        | none => rfl
        | some other =>
          obtain ⟨hmem', hsource', hexternal'⟩ := productOf_spec hother
          have hne : row.id ≠ other.id := by
            intro hid
            obtain ⟨hs, he⟩ := h.apart row hmem other hmem' hid
            exact hself ⟨hsource.symm.trans (hs.trans hsource'),
              hexternal.symm.trans (he.trans hexternal')⟩
          simp [hne]

/-- **What one record does**: of its product the observation is recorded, if it is one and its
context was not recorded; nothing else is. -/
theorem persistRecord_spec (h : db.Consistent digest) (source : String) (record : HistoryRecord) :
    let key := priceFingerprint digest
    (db.persistRecord digest source record).1.Consistent digest ∧
      (∀ s e, (db.persistRecord digest source record).1.recorded s e = db.recorded s e ++ firsts key ((db.recorded s e).map key)
        (observationsOf [(source, record)] s e)) ∧
      ((record.priced = true → key record ∈ (db.recorded source record.externalId).map key) →
        (db.persistRecord digest source record).1.observations = db.observations ∧
          (db.persistRecord digest source record).2.newPriceObservations = 0) := by
  intro key
  obtain ⟨hconsistent, hobservations, ⟨row, hrow, hid⟩, hrecorded⟩ :=
    upsertProduct_spec h source record
  simp only [observationsOf_single]
  rw [persistRecord]
  cases hprice : record.price with
  | null =>
    have hnot : ¬((source = source ∧ True) ∧ record.priced = true) := by simp [HistoryRecord.priced, hprice]
    refine ⟨hconsistent, fun s e => ?_, fun _ => ⟨hobservations, rfl⟩⟩
    rw [if_neg (fun hall => hnot ⟨⟨rfl, trivial⟩, hall.2⟩), firsts, List.append_nil]
    exact hrecorded s e
  | _ =>
    have hpriced : record.priced = true := by rw [HistoryRecord.priced, hprice]
    obtain ⟨hafter, hrecord, hsame⟩ := insertObservation_spec hconsistent hrow
    rw [hid] at hafter hrecord hsame
    simp only [hpriced, and_true]
    refine ⟨hafter, fun s e => ?_, fun hseen => ?_⟩
    · rw [← hrecorded s e]
      exact hrecord s e
    · rw [← hrecorded] at hseen
      obtain ⟨heq, hcount⟩ := hsame (hseen trivial)
      exact ⟨heq.trans hobservations, hcount⟩

/-! ## Batches -/

theorem observationsOf_append (xs ys : List (String × HistoryRecord)) (s e : String) :
    observationsOf (xs ++ ys) s e = observationsOf xs s e ++ observationsOf ys s e := by
  rw [observationsOf, List.filter_append, List.map_append]
  rfl

theorem persistRecords_spec (h : db.Consistent digest) (records : List (String × HistoryRecord)) :
    let key := priceFingerprint digest
    (db.persistRecords digest records).1.Consistent digest ∧
      ∀ s e, (db.persistRecords digest records).1.recorded s e = db.recorded s e ++
        firsts key ((db.recorded s e).map key) (observationsOf records s e) := by
  intro key
  induction records generalizing db with
  | nil => exact ⟨h, fun s e => by simp [persistRecords, observationsOf, firsts]⟩
  | cons first rest ih =>
    obtain ⟨source, record⟩ := first
    obtain ⟨hconsistent, hrecorded, -⟩ := persistRecord_spec h source record
    obtain ⟨hafter, hrest⟩ := ih hconsistent
    refine ⟨hafter, fun s e => ?_⟩
    have hparts : observationsOf ((source, record) :: rest) s e =
        observationsOf [(source, record)] s e ++ observationsOf rest s e :=
      observationsOf_append [(source, record)] rest s e
    rw [hparts, firsts_append, ← List.append_assoc, ← List.map_append, ← hrecorded s e]
    exact hrest s e

theorem persistRecords_seen (h : db.Consistent digest) {records : List (String × HistoryRecord)}
    (hseen : ∀ r ∈ records, r.2.priced = true → priceFingerprint digest r.2 ∈
      (db.recorded r.1 r.2.externalId).map (priceFingerprint digest)) :
    (db.persistRecords digest records).1.observations = db.observations ∧
      (db.persistRecords digest records).2.newPriceObservations = 0 := by
  induction records generalizing db with
  | nil => exact ⟨rfl, rfl⟩
  | cons first rest ih =>
    obtain ⟨source, record⟩ := first
    obtain ⟨hconsistent, hrecorded, hsame⟩ := persistRecord_spec h source record
    obtain ⟨hobservations, hcount⟩ := hsame (hseen _ List.mem_cons_self)
    have hlater : ∀ r ∈ rest, r.2.priced = true → priceFingerprint digest r.2 ∈
        ((db.persistRecord digest source record).1.recorded r.1 r.2.externalId).map
          (priceFingerprint digest) := by
      intro r hr hpriced
      rw [hrecorded, List.map_append]
      exact List.mem_append_left _ (hseen r (List.mem_cons_of_mem _ hr) hpriced)
    obtain ⟨hrest, hnone⟩ := ih hconsistent hlater
    refine ⟨hrest.trans hobservations, ?_⟩
    exact (congrArg₂ (· + ·) hcount hnone : _ = 0 + 0)

/-- **A batch that is appended twice in a row adds nothing the second time.** -/
theorem persistHistory_again (h : db.Consistent digest) (results : HistoryBatch) :
    let after := (db.persistHistory digest results).1
    (after.persistHistory digest results).1.observations = after.observations ∧
      (after.persistHistory digest results).2.newPriceObservations = 0 := by
  obtain ⟨hconsistent, hrecorded⟩ := persistRecords_spec h (recordsOf results)
  refine persistRecords_seen hconsistent fun r hr hpriced => ?_
  have hmem : r.2 ∈ observationsOf (recordsOf results) r.1 r.2.externalId :=
    List.mem_map.mpr ⟨r, List.mem_filter.mpr ⟨hr, by simp [hpriced]⟩, rfl⟩
  rw [hrecorded, List.map_append]
  exact mem_keys_of_mem hmem

/-- The records of some batches. -/
def recordsOfAll (batches : List HistoryBatch) : List (String × HistoryRecord) :=
  batches.flatMap recordsOf

theorem foldl_spec (batches : List HistoryBatch) (h : db.Consistent digest) :
    let key := priceFingerprint digest
    let after := batches.foldl (fun db results => (db.persistHistory digest results).1) db
    after.Consistent digest ∧ ∀ s e, after.recorded s e = db.recorded s e ++
      firsts key ((db.recorded s e).map key) (observationsOf (recordsOfAll batches) s e) := by
  intro key
  induction batches generalizing db with
  | nil => exact ⟨h, fun s e => by simp [recordsOfAll, observationsOf, firsts]⟩
  | cons results batches ih =>
    obtain ⟨hconsistent, hrecorded⟩ := persistRecords_spec h (recordsOf results)
    obtain ⟨hafter, hrest⟩ := ih hconsistent
    refine ⟨hafter, fun s e => ?_⟩
    rw [recordsOfAll, List.flatMap_cons, observationsOf_append, firsts_append, ← List.append_assoc,
      ← List.map_append, ← hrecorded s e]
    exact hrest s e

/-- **When the local history records every change.**  After any batches the rows of a product are
its observations without those whose price context is that of the observation before, if and only if
none of the contexts that are left comes back.  A batch that is appended twice in a row adds nothing
the second time. -/
theorem history_changes_iff (digest : List Char → String) (hdigest : Function.Injective digest)
    (batches : List HistoryBatch) :
    (∀ source externalId,
      (afterBatches digest batches).recorded source externalId =
          (observationsOf (recordsOfAll batches) source externalId).destutter
            (fun r r' => contextText r ≠ contextText r') ↔
        (((observationsOf (recordsOfAll batches) source externalId).destutter
          fun r r' => contextText r ≠ contextText r').map contextText).Nodup) ∧
    ∀ results : HistoryBatch,
      let after := ((afterBatches digest batches).persistHistory digest results).1
      (after.persistHistory digest results).1.observations = after.observations ∧
        (after.persistHistory digest results).2.newPriceObservations = 0 := by
  have hempty : ({} : LocalHistory).Consistent digest :=
    ⟨fun _ h => (nomatch h), fun _ h => (nomatch h), fun _ h => (nomatch h), fun _ h => nomatch h⟩
  obtain ⟨hconsistent, hrecorded⟩ := foldl_spec batches hempty
  refine ⟨fun source externalId => ?_, fun results => persistHistory_again hconsistent results⟩
  have hkeys : firsts (priceFingerprint digest) [] =
      firsts contextText ([] : List (List Char)) := by
    funext l
    have hcomp : firsts (fun record => digest (contextText record))
        (([] : List (List Char)).map digest) l = firsts contextText [] l := firsts_comp hdigest l
    exact hcomp
  rw [afterBatches, hrecorded source externalId, ← firsts_eq_destutter_iff]
  change [] ++ firsts (priceFingerprint digest) [] _ = _ ↔ _
  rw [List.nil_append, hkeys]

/-- An observation of one product at a price. -/
def observed (fetchedAt : String) (price : ℕ) : HistoryBatch :=
  [("shop", [{ externalId := "clay", fetchedAt, price := .number (Number.ofNat price) }])]

/-- A price that changes once, and is seen twice. -/
theorem history_of_one_change :
    (afterBatches String.ofList [observed "1" 10, observed "2" 10, observed "3" 12]).recorded
        "shop" "clay" =
      (observationsOf (recordsOfAll [observed "1" 10, observed "2" 10, observed "3" 12])
        "shop" "clay").destutter fun r r' => contextText r ≠ contextText r' :=
  ((history_changes_iff String.ofList (fun _ _ h => String.ofList_injective h)
    [observed "1" 10, observed "2" 10, observed "3" 12]).1 "shop" "clay").mpr (by decide +kernel)

/-- A price that returns to an earlier value is not stored again. -/
theorem history_misses_return :
    (afterBatches String.ofList [observed "1" 10, observed "2" 12, observed "3" 10]).recorded
        "shop" "clay" ≠
      (observationsOf (recordsOfAll [observed "1" 10, observed "2" 12, observed "3" 10])
        "shop" "clay").destutter fun r r' => contextText r ≠ contextText r' := by
  intro h
  have hlength := congrArg List.length h
  revert hlength
  decide +kernel

end LocalHistory

end CommerceCollector
