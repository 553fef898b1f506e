import CommerceCollector.Catalogue.LoadRecord
import CommerceCollector.Foundation.Transaction

/-!
# Loading a source

`load_source` (`storage/postgres.py`): the records of one source are staged and loaded by
`catalogue.load_record`, and a whole file retires the products of the source that it does not list.
Only the last step makes a product inactive (`Catalogue.deactivates_loadSource`).
-/

namespace CommerceCollector

open Relational

/-- `SourceReport`, without its samples. -/
structure SourceReport where
  records : ℕ := 0
  rejected : ℕ := 0
  retired : ℕ := 0
  deriving DecidableEq, Repr

namespace Catalogue

variable (pg : Postgres)

/-- `LOAD`: all staged records in one statement. -/
def loadAll (db : Catalogue) (records : List Record) : Except LoadError Catalogue :=
  records.foldlM (fun db r => (loadRecord pg db { record := r }).map Prod.snd) db

/-- `LOAD_ONE` under a savepoint of its own, and the count of the refused records. -/
def loadOne (acc : Catalogue × ℕ) (r : Record) : Catalogue × ℕ :=
  match loadRecord pg acc.1 { record := r } with
  | .ok (_, db) => (db, acc.2)
  | .error _ => (acc.1, acc.2 + 1)

/-- `_load_staged`, and the number of rejected records. -/
def loadStaged (db : Catalogue) (records : List Record) : Catalogue × ℕ :=
  match db.loadAll pg records with
  | .ok db => (db, 0)
  | .error _ => records.foldl (loadOne pg) (db, 0)

/-- The where clause of `RETIRE`. -/
def unlisted (sourceId : String) (records : List Record) (p : SourceProduct) : Bool :=
  p.sourceId == sourceId && p.active && !records.any fun r => r.externalId == some p.externalId

/-- `load_source`. -/
def loadSource (db : Catalogue) (sourceId : String) (records : List Record) (whole : Bool) :
    SourceReport × Catalogue :=
  let (db, rejected) := db.loadStaged pg records
  if whole then
    ({ records := records.length, rejected,
       retired := (db.products.filter (unlisted sourceId records)).length },
      { db with
        products := update (unlisted sourceId records) (fun p => { p with active := false })
          db.products })
  else ({ records := records.length, rejected }, db)

/-- A row of `source_products` becomes inactive; rows keep their places. -/
def Deactivates (db db' : Catalogue) : Prop :=
  ∃ (i : ℕ) (p p' : SourceProduct), db.products[i]? = some p ∧ db'.products[i]? = some p' ∧
    p.active = true ∧ p'.active = false

/-- Every row stays where it is, and an active one stays active. -/
def KeepsActive (db db' : Catalogue) : Prop :=
  ∀ (i : ℕ) (p : SourceProduct), db.products[i]? = some p →
    ∃ p' : SourceProduct, db'.products[i]? = some p' ∧ (p.active = true → p'.active = true)

variable {pg} {db db' : Catalogue}

theorem KeepsActive.refl (db : Catalogue) : KeepsActive db db := fun _ p h => ⟨p, h, id⟩

theorem KeepsActive.trans {db'' : Catalogue} (h : KeepsActive db db') (h' : KeepsActive db' db'') :
    KeepsActive db db'' := by
  intro i p hp
  obtain ⟨p₁, hp₁, hactive₁⟩ := h i p hp
  obtain ⟨p₂, hp₂, hactive₂⟩ := h' i p₁ hp₁
  exact ⟨p₂, hp₂, fun ha => hactive₂ (hactive₁ ha)⟩

theorem KeepsActive.not_deactivates (h : KeepsActive db db') : ¬ Deactivates db db' := by
  rintro ⟨i, p, p', hp, hp', hactive, hinactive⟩
  obtain ⟨p₁, hp₁, hkeep⟩ := h i p hp
  obtain rfl := Option.some.inj (hp'.symm.trans hp₁)
  rw [hkeep hactive] at hinactive
  exact absurd hinactive (by simp)

theorem active_merge {old excluded : SourceProduct} {priceRefresh : Bool}
    (h : old.active = true) : (old.merge priceRefresh excluded).active = true := by
  simp only [SourceProduct.merge]
  split
  · rfl
  · exact h

/-- The product of a record is added behind the others, or merged in its place. -/
theorem keepsActive_upsertProduct (db : Catalogue) (priceRefresh : Bool) (row : SourceProduct) :
    KeepsActive db (db.upsertProduct priceRefresh row).2 := by
  intro i p hp
  unfold upsertProduct
  dsimp only
  split
  · refine ⟨_, by simp only [update, List.getElem?_map, hp, Option.map_some]; rfl, fun hactive => ?_⟩
    split
    · exact active_merge hactive
    · exact hactive
  · exact ⟨p, List.getElem?_append_left (List.getElem?_eq_some_iff.mp hp).1 ▸ hp, id⟩

theorem upsertRawRecord_products (db : Catalogue) (row : RawRecord) :
    (db.upsertRawRecord row).2.products = db.products := by
  unfold upsertRawRecord
  dsimp only
  split <;> rfl

theorem observe_products {product : Uuid} {rawRecord : ℕ} {f : Time} {t : Terms Numeric}
    {sha : Digest} {p : Record} (h : db.observe product rawRecord f t sha p = .ok db') :
    db'.products = db.products := by
  have hinsert : ∀ {db'' : Catalogue}, db.insertOffer product rawRecord f t sha p = .ok db'' →
      db''.products = db.products := by
    intro db'' h
    unfold insertOffer at h
    split at h
    · exact absurd h (by simp)
    · split at h
      · rw [← Except.ok.inj h]
      · exact absurd h (by simp)
  unfold observe at h
  split at h
  · rw [← Except.ok.inj h]
  · split at h
    · exact hinsert h
    · split at h
      · rw [← Except.ok.inj h]
        rfl
      · split at h
        · rw [← Except.ok.inj h]
        · exact hinsert h

theorem keepsActive_register (db : Catalogue) (v : Values) (f : Time) (c : LoadCall) :
    KeepsActive db (db.register pg v f c).2.2 := by
  have hproduct := keepsActive_upsertProduct
    { db with sources := insertNew id v.source db.sources : Catalogue } c.record.priceRefresh
    (v.product pg c.record f db.nextProduct)
  intro i p hp
  obtain ⟨p', hp', hactive⟩ := hproduct i p hp
  refine ⟨p', ?_, hactive⟩
  rw [register, upsertRawRecord_products]
  exact hp'

theorem keepsActive_loadRecord {c : LoadCall} {product : Uuid}
    (h : loadRecord pg db c = .ok (product, db')) : KeepsActive db db' := by
  unfold loadRecord at h
  cases hread : pg.read c.stockTrendsEnabled c.record with
  | error e => rw [hread] at h; exact absurd h (by simp [bind, Except.bind])
  | ok v =>
    rw [hread] at h
    cases hfetched : v.fetchedAt with
    | none => simp [bind, Except.bind, hfetched] at h
    | some f =>
      have hregister : KeepsActive db (db.register pg v f c).2.2 := keepsActive_register db v f c
      simp only [bind, Except.bind, hfetched] at h
      cases hoffer : v.offer with
      | error e => simp [hoffer] at h
      | ok offer =>
        simp only [hoffer] at h
        cases offer with
        | none =>
          obtain ⟨-, rfl⟩ := Prod.mk.inj (Except.ok.inj h)
          exact hregister
        | some t =>
          cases hobserve : (db.register pg v f c).2.2.observe (db.register pg v f c).1
              (db.register pg v f c).2.1 f t (pg.contextSha256 t) c.record with
          | error e => simp [hobserve] at h
          | ok db'' =>
            simp only [hobserve] at h
            obtain ⟨-, rfl⟩ := Prod.mk.inj (Except.ok.inj h)
            intro i p hp
            obtain ⟨p', hp', hactive⟩ := hregister i p hp
            refine ⟨p', ?_, hactive⟩
            rw [observe_products hobserve]
            exact hp'

theorem keepsActive_loadStaged (db : Catalogue) (records : List Record) :
    KeepsActive db (db.loadStaged pg records).1 := by
  unfold loadStaged
  split
  · next db' hall =>
    refine Transaction.foldlM_invariant (I := fun t => KeepsActive db t) ?_ hall (.refl db)
    intro r _ t t' hok ht
    obtain ⟨⟨product, t₁⟩, hload, heq⟩ := Transaction.map_eq_ok.mp hok
    obtain rfl : t₁ = t' := heq
    exact ht.trans (keepsActive_loadRecord hload)
  · have hone : ∀ (acc : Catalogue × ℕ) (r : Record), KeepsActive acc.1 (loadOne pg acc r).1 := by
      intro acc r
      unfold loadOne
      split
      · next product t hload => exact keepsActive_loadRecord hload
      · exact .refl _
    refine Trace.exec_invariant (loadOne pg) (I := fun acc => KeepsActive db acc.1)
      (fun acc r h => h.trans (hone acc r)) (s := (db, 0)) (.refl db) records

/-- **Only a whole file makes a product inactive.** -/
theorem deactivates_loadSource {sourceId : String} {records : List Record} {whole : Bool}
    (h : Deactivates db (db.loadSource pg sourceId records whole).2) : whole = true := by
  by_contra hnot
  rw [Bool.not_eq_true] at hnot
  rw [loadSource, hnot] at h
  exact (keepsActive_loadStaged db records).not_deactivates h

end Catalogue

end CommerceCollector
