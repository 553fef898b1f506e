import CommerceCollector.Catalogue.PriceHistory
import CommerceCollector.Foundation.Islands

/-!
# Compaction

`ops/compaction.py`: `compact` reads groups of raw records with one content apart from `fetched_at`,
and then groups of consecutive observations of a product with one state; each group is merged into
its first row by a transaction of its own, with the moments that were read together with the groups.
Loads go on meanwhile, and any number of runs may be on their way.

Beside the tables the model carries what the same loads alone make of them.
-/

namespace CommerceCollector.Compaction

open Relational Islands

variable (pg : Postgres)

/-! ## The groups -/

/-- `record - 'fetched_at'`. -/
def content (p : Record) : Record := { p with fetchedAt := none }

/-- A row that `compact_raw` reads. -/
structure RawGroup where
  product : Uuid
  semantic : Digest
  ids : List ℕ
  firstSeenAt : Time
  lastSeenAt : Time
  deriving DecidableEq, Repr

/-- `group by source_product_id, digest(…)`. -/
def rawKey (r : RawRecord) : Uuid × Digest := (r.productId, pg.recordSha256 (content r.record))

/-- `order by (record_sha256 = semantic) desc, first_seen_at, id`. -/
def rawBefore (semantic : Digest) (r s : RawRecord) : Bool :=
  decide (toLex ((r.recordSha256 != semantic), toLex (r.firstSeenAt, r.id)) ≤
    toLex ((s.recordSha256 != semantic), toLex (s.firstSeenAt, s.id)))

/-- The group of a key. -/
def rawGroup (db : Catalogue) (k : Uuid × Digest) : RawGroup :=
  let rows := (db.rawRecords.filter fun r => rawKey pg r == k).insertionSort fun r s =>
    rawBefore k.2 r s = true
  { product := k.1, semantic := k.2, ids := rows.map RawRecord.id
    firstSeenAt := (rows.map RawRecord.firstSeenAt).min?.getD 0
    lastSeenAt := (rows.map RawRecord.lastSeenAt).max?.getD 0 }

/-- The groups of `compact_raw`. -/
def rawGroups (db : Catalogue) : List RawGroup :=
  ((db.rawRecords.map (rawKey pg)).dedup.map (rawGroup pg db)).filter fun g =>
    decide (1 < g.ids.length)

/-- A row that `compact_offers` reads. -/
structure OfferGroup where
  product : Uuid
  island : ℕ
  ids : List ℕ
  observedAt : Time
  lastSeenAt : Time
  deriving DecidableEq, Repr

/-- The observations of a product, `order by observed_at, id`. -/
def timeline (db : Catalogue) (product : Uuid) : List OfferObservation :=
  (db.offersOf product).insertionSort fun a b =>
    toLex (a.observedAt, a.id) ≤ toLex (b.observedAt, b.id)

/-- The maximal runs of equal states of a product. -/
def history (db : Catalogue) (product : Uuid) : List (List OfferObservation) :=
  islands OfferObservation.terms (timeline db product)

/-- The greatest `last_seen_at`. -/
def lastSeen (rows : List OfferObservation) : Time :=
  (rows.map OfferObservation.lastSeenAt).foldr max 0

/-- The group of an island. -/
def offerGroup (product : Uuid) (island : ℕ) (rows : List OfferObservation) : OfferGroup where
  product := product
  island := island
  ids := rows.map OfferObservation.id
  observedAt := (rows.map OfferObservation.observedAt).min?.getD 0
  lastSeenAt := lastSeen rows

/-- The groups of `compact_offers`. -/
def offerGroups (db : Catalogue) : List OfferGroup :=
  (db.offers.map OfferObservation.productId).dedup.flatMap fun q =>
    ((history db q).zipIdx 1).filterMap fun g =>
      if 1 < g.1.length then some (offerGroup q g.2 g.1) else none

/-! ## The transactions -/

/-- The transaction of a raw group: the references move to the first row, the others are deleted,
and the first row takes the digest and the moments that were read.  `none` is a violated
constraint. -/
def mergeRaw (db : Catalogue) (g : RawGroup) : Option Catalogue :=
  match g.ids with
  | [] => some db
  | keeper :: duplicates =>
    -- `offer_observations_raw_record_id_fkey` and its sibling
    if ((db.offers.any fun o => duplicates.contains o.rawRecordId) ||
        db.outOfOrder.any fun q => duplicates.contains q.rawRecordId) &&
        !db.rawRecords.any fun r => r.id == keeper then none
    else
      let left := db.rawRecords.filter fun r => !duplicates.contains r.id
      -- `raw_records_source_product_id_record_sha256_key`
      if left.any fun k => k.id == keeper &&
          left.any fun r => r.id != keeper && r.productId == k.productId &&
            r.recordSha256 == g.semantic then none
      else
        some { db with
          offers := update (fun o => duplicates.contains o.rawRecordId)
            (fun o => { o with rawRecordId := keeper }) db.offers
          outOfOrder := update (fun q => duplicates.contains q.rawRecordId)
            (fun q => { q with rawRecordId := keeper }) db.outOfOrder
          rawRecords := update (fun r => r.id == keeper)
            (fun r => { r with
              recordSha256 := g.semantic, firstSeenAt := g.firstSeenAt, lastSeenAt := g.lastSeenAt })
            left }

/-- The transaction of an island: the first row takes the moments that were read, the others are
deleted. -/
def mergeOffers (db : Catalogue) (g : OfferGroup) : Catalogue :=
  match g.ids with
  | [] => db
  | keeper :: duplicates =>
    { db with
      offers := update (fun o => o.id == keeper)
        (fun o => { o with observedAt := g.observedAt, lastSeenAt := g.lastSeenAt })
        (db.offers.filter fun o => !duplicates.contains o.id) }

/-! ## Runs -/

/-- How far a run of `compact` has come: the groups that are left. -/
inductive Phase
  | raw (todo : List RawGroup)
  | offers (todo : List OfferGroup)
  | over
  deriving DecidableEq, Repr

/-- A run of `compact(connection, limit, execute=True)`. -/
structure Run where
  limit : ℕ
  phase : Phase
  deriving DecidableEq, Repr

/-- The tables, what the loads alone make of them, and the runs. -/
structure Site where
  db : Catalogue
  alone : Catalogue
  runs : List Run := []
  deriving DecidableEq, Repr

/-- A load; the first, or the second, query of a run, with the order of the rows that it does not
fix; the next transaction of a run; the end of its process. -/
inductive Act
  | load (c : LoadCall)
  | readRaw (limit : ℕ) (order : List RawGroup)
  | mergeRaw (run : ℕ)
  | readOffers (run : ℕ) (order : List OfferGroup)
  | mergeOffers (run : ℕ)
  | stop (run : ℕ)
  deriving DecidableEq, Repr

/-- A call of `load_record`; a call that raises changes nothing. -/
def load (db : Catalogue) (c : LoadCall) : Catalogue :=
  match loadRecord pg db c with
  | .error _ => db
  | .ok (_, db) => db

/-- One step. -/
def step (s : Site) : Act → Site
  | .load c => { s with db := load pg s.db c, alone := load pg s.alone c }
  | .readRaw limit order =>
    if order.Perm (rawGroups pg s.db) ∧ order.Pairwise fun g h => g.product ≤ h.product then
      { s with runs := s.runs ++ [⟨limit, .raw (order.take limit)⟩] }
    else s
  | .mergeRaw run =>
    match s.runs[run]? with
    | some ⟨limit, .raw (g :: gs)⟩ =>
      match mergeRaw s.db g with
      | some db => { s with db := db, runs := s.runs.set run ⟨limit, .raw gs⟩ }
      | none => { s with runs := s.runs.set run ⟨limit, .over⟩ }
    | _ => s
  | .readOffers run order =>
    match s.runs[run]? with
    | some ⟨limit, .raw []⟩ =>
      if order.Perm (offerGroups s.db) ∧ order.Pairwise (fun g h =>
          toLex (g.product, g.island) ≤ toLex (h.product, h.island)) then
        { s with runs := s.runs.set run ⟨limit, .offers (order.take limit)⟩ }
      else s
    | _ => s
  | .mergeOffers run =>
    match s.runs[run]? with
    | some ⟨limit, .offers (g :: gs)⟩ =>
      { s with db := mergeOffers s.db g, runs := s.runs.set run ⟨limit, .offers gs⟩ }
    | _ => s
  | .stop run =>
    match s.runs[run]? with
    | some r => { s with runs := s.runs.set run ⟨r.limit, .over⟩ }
    | none => s

/-! ## What a step may meet -/

/-- The priced record becomes an observation of its product, if the constraints admit it. -/
def inserts (db : Catalogue) (r : Priced) : Bool :=
  !((db.offersOf r.product).any fun o =>
      o.observedAt == r.fetchedAt && o.contextSha256 == pg.contextSha256 r.terms) &&
    (db.latestOffer r.product).all fun latest =>
      decide (latest.observedAt ≤ r.fetchedAt) && !latest.terms.unchanged r.terms

/-- A record becomes an observation only where it becomes one without compaction too; and no load
has extended the interval of a group since it was read. -/
def meets (s : Site) : Act → Bool
  | .load c => (pg.priced s.db c).all fun r => !inserts pg s.db r || inserts pg s.alone r
  | .mergeRaw run =>
    match s.runs[run]? with
    | some ⟨_, .raw (g :: _)⟩ =>
      (mergeRaw s.db g).isNone || s.db.rawRecords.all fun r =>
        g.ids.head? != some r.id || decide (r.lastSeenAt ≤ g.lastSeenAt)
    | _ => true
  | .mergeOffers run =>
    match s.runs[run]? with
    | some ⟨_, .offers (g :: _)⟩ => s.db.offers.all fun o =>
        !g.ids.contains o.id || decide (o.lastSeenAt ≤ g.lastSeenAt)
    | _ => true
  | _ => true

/-- The step meets the condition. -/
def Meets (s : Site) (a : Act) : Prop := meets pg s a = true

instance (s : Site) (a : Act) : Decidable (Meets pg s a) := inferInstanceAs (Decidable (_ = true))

end CommerceCollector.Compaction
