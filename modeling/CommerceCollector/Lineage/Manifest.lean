import CommerceCollector.Foundation.Transaction
import CommerceCollector.Ops.Schema
import Mathlib.Data.List.Dedup
import Mathlib.Data.List.MinMax
import Mathlib.Data.Prod.Lex
import Mathlib.Data.String.Basic

/-!
# The manifests of checkpointed collections

`ops/outputs.py`: the checkpoint lineages of a job, the pages committed to them with their batches
and outcomes, the requested datasets and the registered artifacts.  Every statement of the module
names the job, so `Manifest` holds the rows of one job.

A function of the source that opens a transaction and raises is a function into `Except String`; the
text of the error is that of the source, or the name of the constraint that the database reports.
Columns that no modelled statement reads (`updated_at`, `committed_at`, the ids of artifacts) are
left out, and a JSON document that is only stored and compared is its canonical text.
-/

namespace CommerceCollector

open Relational Transaction

/-! ## Rows -/

/-- A JSON document, by its canonical text. -/
structure Json where
  text : String
  deriving DecidableEq, Repr

/-- `LineageRuntimeFormat`. -/
inductive RuntimeFormat
  | catalogueV1 | commerceScraperV1
  deriving DecidableEq, Repr

/-- `job_checkpoint_lineages_status_check`. -/
inductive LineageStatus
  | active | completed | limited | rejected | expired
  deriving DecidableEq, Repr

/-- The status as text. -/
def LineageStatus.text : LineageStatus → String
  | .active => "active"
  | .completed => "completed"
  | .limited => "limited"
  | .rejected => "rejected"
  | .expired => "expired"

/-- The columns of a lineage that `create_lineage` writes. -/
structure LineageIdentity where
  sourceId : String
  sourceUrl : String
  connector : String
  connectorVersion : String
  /-- `connector_configuration -> 'partitions'`. -/
  partitions : List String
  connectorConfigFingerprint : Digest
  datasetFingerprint : Digest
  datasetSelection : Json
  runtimeFormat : RuntimeFormat
  collectionRequest : Option Json
  connectorOptions : Option Json
  budgetState : Json
  expiresAt : Option Time
  deriving DecidableEq, Repr

/-- A row of `catalogue.job_checkpoint_lineages`. -/
structure Lineage where
  lineage : Uuid
  identity : LineageIdentity
  status : LineageStatus := .active
  createdAt : Time
  checksum : Option Digest := none
  deriving DecidableEq, Repr

/-- `DatasetKey`. -/
structure DatasetKey where
  dataset : String
  contractVersion : String
  projectorVersion : String
  deriving DecidableEq, Repr

/-- The columns by which batches and outcomes refer to their page. -/
structure PageRef where
  lineage : Uuid
  partitionKey : String
  pageId : String
  sequence : ℕ
  deriving DecidableEq, Repr

/-- A row of `catalogue.job_pages`. -/
structure PageRow where
  ref : PageRef
  resumeAfter : Option Json
  terminal : Bool
  enumerationIntact : Bool
  connectorVersion : String
  deriving DecidableEq, Repr

/-- `PageBatch`. -/
structure PageBatch where
  key : DatasetKey
  objectKey : String
  sha256 : Digest
  size : ℕ
  records : ℕ
  deriving DecidableEq, Repr

/-- The states of an outcome, and any other text. -/
inductive OutcomeState
  | succeeded | failed | skipped
  | invalid (text : String)
  deriving DecidableEq, Repr

/-- The state as text. -/
def OutcomeState.text : OutcomeState → String
  | .succeeded => "succeeded"
  | .failed => "failed"
  | .skipped => "skipped"
  | .invalid text => text

/-- `DatasetOutcome`. -/
structure DatasetOutcome where
  key : DatasetKey
  state : OutcomeState
  records : ℕ := 0
  error : Option String := none
  deriving DecidableEq, Repr

/-- A row of `catalogue.job_page_batches`. -/
structure BatchRow where
  page : PageRef
  batch : PageBatch
  deriving DecidableEq, Repr

/-- A row of `catalogue.job_page_dataset_outcomes`. -/
structure OutcomeRow where
  page : PageRef
  outcome : DatasetOutcome
  deriving DecidableEq, Repr

/-- `job_datasets_state_check`. -/
inductive DatasetState
  | pending | projecting | staged | publishing | published | loading | succeeded | degraded | failed
  | cancelled | skipped
  deriving DecidableEq, Repr

/-- The state as text. -/
def DatasetState.text : DatasetState → String
  | .pending => "pending"
  | .projecting => "projecting"
  | .staged => "staged"
  | .publishing => "publishing"
  | .published => "published"
  | .loading => "loading"
  | .succeeded => "succeeded"
  | .degraded => "degraded"
  | .failed => "failed"
  | .cancelled => "cancelled"
  | .skipped => "skipped"

/-- A row of `catalogue.job_datasets`. -/
structure DatasetRow where
  key : DatasetKey
  state : DatasetState := .pending
  complete : Bool := false
  records : ℕ := 0
  rejected : ℕ := 0
  error : Option String := none
  promotedAt : Option Time := none
  deriving DecidableEq, Repr

/-- A row of `catalogue.job_artifacts`. -/
structure ArtifactRow where
  key : DatasetKey
  kind : String
  location : String
  sha256 : Digest
  size : ℕ
  deriving DecidableEq, Repr

/-- `StoredObject`. -/
structure StoredObject where
  location : String
  sha256 : Digest
  size : ℕ
  records : ℕ
  deriving DecidableEq, Repr

/-- The rows of one job. -/
structure Manifest where
  /-- The job has a row in `catalogue.jobs`. -/
  known : Bool := true
  lineages : List Lineage := []
  pages : List PageRow := []
  batches : List BatchRow := []
  outcomes : List OutcomeRow := []
  datasets : List DatasetRow := []
  artifacts : List ArtifactRow := []
  deriving DecidableEq, Repr

/-! ## Operations on rows -/

/-- The reset of `prepare_dataset_for_collection`. -/
def DatasetRow.reset (d : DatasetRow) : DatasetRow := { key := d.key }

/-- What `prepare_dataset_for_collection` restores of an interrupted dataset. -/
def DatasetRow.restore (d : DatasetRow) : DatasetRow :=
  if d.state = .cancelled ∨ d.state = .degraded then
    { d with
      state := if 0 < d.records then .staged else .pending
      complete := false
      error := none }
  else d

/-- What an outcome does to the row of its dataset. -/
def DatasetRow.record (o : DatasetOutcome) (d : DatasetRow) : DatasetRow :=
  match o.state with
  | .succeeded =>
    if d.state = .failed then d
    else { d with
      state := if d.state = .pending then .staged else d.state
      records := d.records + o.records }
  | .failed => { d with state := .failed, complete := false, error := d.error.or o.error }
  | _ => d

/-- The lineages that `find_recoverable_library_lineage` accepts. -/
def Lineage.recoverable (l : Lineage) (now : Time) (sourceUrl connector connectorVersion : String)
    (connectorConfigFingerprint datasetFingerprint : Digest) : Bool :=
  (l.status == .active || l.status == .completed || l.status == .limited) &&
    l.identity.sourceUrl == sourceUrl && l.identity.runtimeFormat == .commerceScraperV1 &&
    l.identity.connector == connector && l.identity.connectorVersion == connectorVersion &&
    l.identity.connectorConfigFingerprint == connectorConfigFingerprint &&
    l.identity.datasetFingerprint == datasetFingerprint &&
    l.identity.expiresAt.all fun at_ => decide (now < at_)

/-- `order by (status = 'active') desc, created_at desc`. -/
def Lineage.recency (l : Lineage) : Bool ×ₗ Time := toLex (l.status == .active, l.createdAt)

/-- The lineage is active under a runtime. -/
def Lineage.activeFor (runtimeFormat : RuntimeFormat) (l : Lineage) : Bool :=
  l.identity.runtimeFormat == runtimeFormat && l.status == .active

/-- An active lineage is rejected. -/
def Lineage.reject (l : Lineage) : Lineage :=
  if l.status = .active then { l with status := .rejected } else l

/-- The arguments of `commit_page`. -/
structure PageCommit where
  partitionKey : String
  pageId : String
  sequence : ℕ
  resumeAfter : Option Json
  terminal : Bool
  enumerationIntact : Bool
  connectorVersion : String
  batches : List PageBatch
  outcomes : Option (List DatasetOutcome) := none
  declarePartition : Bool := false
  deriving DecidableEq, Repr

namespace PageCommit

/-- The page as its batches and outcomes refer to it. -/
def ref (p : PageCommit) (lineage : Uuid) : PageRef :=
  ⟨lineage, p.partitionKey, p.pageId, p.sequence⟩

/-- The row of the page. -/
def row (p : PageCommit) (lineage : Uuid) : PageRow where
  ref := p.ref lineage
  resumeAfter := p.resumeAfter
  terminal := p.terminal
  enumerationIntact := p.enumerationIntact
  connectorVersion := p.connectorVersion

/-- The outcomes to commit: without any, every batch has succeeded. -/
def committedOutcomes (p : PageCommit) : List DatasetOutcome :=
  p.outcomes.getD (p.batches.map fun b => ⟨b.key, .succeeded, b.records, none⟩)

end PageCommit

/-- The columns name the page: the primary key of `job_pages`. -/
def PageRef.names (r : PageRef) (lineage : Uuid) (p : PageCommit) : Bool :=
  r.lineage == lineage && r.partitionKey == p.partitionKey && r.pageId == p.pageId

/-- `order.get(partition, len(order))` for the partitions of a configuration. -/
def partitionOrder (partitions : List String) (partitionKey : String) : ℕ :=
  if partitionKey ∈ partitions then
    partitions.length - 1 - partitions.reverse.idxOf partitionKey
  else partitions.dedup.length

/-- The rank of a page: partition order, sequence, page id. -/
def PageRef.rank (partitions : List String) (r : PageRef) : ℕ ×ₗ ℕ ×ₗ String :=
  toLex (partitionOrder partitions r.partitionKey, toLex (r.sequence, r.pageId))

/-- A resumable incomplete terminal page, at which a limited lineage ends. -/
def PageRow.limited (q : PageRow) : Bool :=
  q.resumeAfter.isSome && q.terminal && !q.enumerationIntact

namespace Manifest

/-! ## Datasets -/

/-- The row of a requested dataset. -/
def dataset (m : Manifest) (key : DatasetKey) : Option DatasetRow :=
  m.datasets.find? fun d => d.key == key

/-- An update of the row of a dataset. -/
def updateDataset (m : Manifest) (key : DatasetKey) (f : DatasetRow → DatasetRow) : Manifest :=
  { m with datasets := update (fun d => d.key == key) f m.datasets }

/-- `declare_dataset`. -/
def declareDataset (m : Manifest) (key : DatasetKey) : Except String Manifest := do
  require (key.dataset ≠ "") "job_datasets_dataset_check"
  require (key.contractVersion ≠ "") "job_datasets_contract_version_check"
  require (key.projectorVersion ≠ "") "job_datasets_projector_version_check"
  pure { m with datasets := insertNew DatasetRow.key { key } m.datasets }

/-- `prepare_dataset_for_collection`. -/
def prepareDatasetForCollection (m : Manifest) (resuming : Bool) (key : DatasetKey) :
    Except String Manifest := do
  let m ← m.declareDataset key
  pure (m.updateDataset key (if resuming then DatasetRow.restore else DatasetRow.reset))

/-- `finish_dataset`. -/
def finishDataset (m : Manifest) (key : DatasetKey) (state : DatasetState) (complete : Bool)
    (rejected : ℕ) (error : Option String) (promoted : Option Time) : Except String Manifest := do
  require (state ∈ [.succeeded, .degraded, .failed, .cancelled, .skipped])
    ("invalid terminal dataset state '" ++ state.text ++ "'")
  pure (m.updateDataset key fun d =>
    { d with state, complete, rejected, error, promotedAt := promoted.or d.promotedAt })

variable {m m' : Manifest} {key : DatasetKey}

theorem prepareDatasetForCollection_ok {resuming : Bool}
    (h : m.prepareDatasetForCollection resuming key = .ok m') :
    m' = { m with
      datasets := update (fun d => d.key == key)
        (if resuming then DatasetRow.restore else DatasetRow.reset)
        (insertNew DatasetRow.key { key } m.datasets) } := by
  unfold prepareDatasetForCollection declareDataset at h
  simp only [bind_eq_ok, require_eq_ok, pure_eq_ok, exists_const] at h
  obtain ⟨m₁, ⟨-, -, -, rfl⟩, rfl⟩ := h
  rfl

theorem prepareDatasetForCollection_dataset {resuming : Bool}
    (h : m.prepareDatasetForCollection resuming key = .ok m') (other : DatasetKey) :
    m'.dataset other =
      ((m.dataset other).or (if key = other then some { key } else none)).map fun d =>
        if d.key == key then (if resuming then DatasetRow.restore else DatasetRow.reset) d
        else d := by
  have hkeep : ∀ d, ((if resuming then DatasetRow.restore else DatasetRow.reset) d).key = d.key := by
    intro d
    split
    · unfold DatasetRow.restore
      split <;> rfl
    · rfl
  rw [prepareDatasetForCollection_ok h, dataset]
  refine (find?_update hkeep (fun d => d.key == key) _ other).trans ?_
  rw [find?_insertNew, dataset]

theorem finishDataset_ok {state : DatasetState} {complete : Bool} {rejected : ℕ}
    {error : Option String} {promoted : Option Time}
    (h : m.finishDataset key state complete rejected error promoted = .ok m') :
    ∃ f : DatasetRow → DatasetRow, m' = m.updateDataset key f ∧
      ∀ d, (f d).key = d.key ∧ (f d).records = d.records := by
  unfold finishDataset at h
  simp only [bind_eq_ok, require_eq_ok, pure_eq_ok, exists_const] at h
  exact ⟨_, h.2.symm, fun d => ⟨rfl, rfl⟩⟩

/-! ## Lineages -/

/-- The row of a lineage. -/
def lineageRow (m : Manifest) (lineage : Uuid) : Option Lineage :=
  m.lineages.find? fun l => l.lineage == lineage

/-- An update of the row of a lineage. -/
def updateLineage (m : Manifest) (lineage : Uuid) (f : Lineage → Lineage) : Manifest :=
  { m with lineages := update (fun l => l.lineage == lineage) f m.lineages }

/-- `uuid4`: a value that no lineage has. -/
def uuid4 (m : Manifest) : Uuid := m.lineages.foldl (fun u l => max u (l.lineage + 1)) 0

/-- `create_lineage`. -/
def createLineage (m : Manifest) (now : Time) (identity : LineageIdentity)
    (lineage : Option Uuid) : Except String (Uuid × Manifest) := do
  require (identity.runtimeFormat = .commerceScraperV1 →
      identity.collectionRequest.isSome ∧ identity.connectorOptions.isSome)
    "commerce-scraper-v1 lineages require a durable request and connector options"
  let lineage := lineage.getD m.uuid4
  match m.lineageRow lineage with
  | some existing =>
    require (existing.identity = identity) "checkpoint lineage identity changed"
    pure (lineage, m)
  | none =>
    require (identity.sourceId ≠ "") "job_checkpoint_lineages_source_id_check"
    require (identity.sourceUrl ≠ "") "job_checkpoint_lineages_source_url_check"
    require (identity.connector ≠ "") "job_checkpoint_lineages_connector_check"
    require (identity.connectorVersion ≠ "") "job_checkpoint_lineages_connector_version_check"
    require (∀ at_ ∈ identity.expiresAt, now < at_) "job_checkpoint_lineages_check"
    let row : Lineage := { lineage, identity, createdAt := now }
    pure (lineage, { m with lineages := m.lineages ++ [row] })

theorem lt_uuid4 {m : Manifest} {l : Lineage} (hl : l ∈ m.lineages) : l.lineage < m.uuid4 := by
  have hlt : l.lineage < freshKey Lineage.lineage m.lineages := key_lt_freshKey hl
  exact hlt

theorem lineageRow_uuid4 (m : Manifest) : m.lineageRow m.uuid4 = none := by
  refine List.find?_eq_none.mpr fun l hl => ?_
  have hlt := lt_uuid4 hl
  simp [hlt.ne]

theorem createLineage_ok {now : Time} {identity : LineageIdentity} {lineage : Option Uuid}
    {created : Uuid} (h : m.createLineage now identity lineage = .ok (created, m')) :
    created = lineage.getD m.uuid4 ∧
      ((m' = m ∧ ∃ l, m.lineageRow created = some l ∧ l.identity = identity) ∨
        m.lineageRow created = none ∧ m' = { m with
          lineages := m.lineages ++ [{ lineage := created, identity, createdAt := now }] }) := by
  unfold createLineage at h
  simp only [bind_eq_ok, require_eq_ok, exists_const] at h
  obtain ⟨-, h⟩ := h
  split at h
  · next existing hfind =>
    simp only [bind_eq_ok, require_eq_ok, pure_eq_ok, exists_const, Prod.mk.injEq] at h
    obtain ⟨hsame, rfl, rfl⟩ := h
    exact ⟨rfl, Or.inl ⟨rfl, existing, hfind, hsame⟩⟩
  · next hfind =>
    simp only [bind_eq_ok, require_eq_ok, pure_eq_ok, exists_const, Prod.mk.injEq] at h
    obtain ⟨-, -, -, -, -, rfl, rfl⟩ := h
    exact ⟨rfl, Or.inr ⟨hfind, rfl⟩⟩

/-- `find_recoverable_library_lineage`. -/
def findRecoverableLibraryLineage (m : Manifest) (now : Time)
    (sourceUrl connector connectorVersion : String)
    (connectorConfigFingerprint datasetFingerprint : Digest) : Option Uuid :=
  ((m.lineages.filter fun l => l.recoverable now sourceUrl connector connectorVersion
    connectorConfigFingerprint datasetFingerprint).argmax Lineage.recency).map Lineage.lineage

/-- `active_lineages_for_runtime`, which also locks the job. -/
def activeLineagesForRuntime (m : Manifest) (runtimeFormat : RuntimeFormat) :
    Except String (List Uuid) := do
  require (m.known = true) "unknown checkpoint job"
  pure (((m.lineages.filter (Lineage.activeFor runtimeFormat)).insertionSort fun a b =>
    toLex (a.createdAt, a.lineage) ≤ toLex (b.createdAt, b.lineage)).map Lineage.lineage)

/-- `reject_lineage`, and whether the lineage was active. -/
def rejectLineage (m : Manifest) (lineage : Uuid) : Bool × Manifest :=
  (m.lineages.any fun l => l.lineage == lineage && l.status == .active,
    m.updateLineage lineage Lineage.reject)

/-! ## Committing a page -/

/-- The pages of a lineage. -/
def pagesOf (m : Manifest) (lineage : Uuid) : List PageRow :=
  m.pages.filter fun q => q.ref.lineage == lineage

/-- The pages of a partition. -/
def partitionPages (m : Manifest) (lineage : Uuid) (partitionKey : String) : List PageRow :=
  m.pages.filter fun q => q.ref.lineage == lineage && q.ref.partitionKey == partitionKey

/-- The partition enters the configuration of the lineage unless it is there. -/
def declarePartition (m : Manifest) (lineage : Uuid) (partitionKey : String) : Manifest :=
  m.updateLineage lineage fun l =>
    if partitionKey ∈ l.identity.partitions then l
    else { l with
      identity := { l.identity with partitions := l.identity.partitions ++ [partitionKey] } }

/-- The first part of `commit_page`: the lineage must accept pages of the connector. -/
def openLineage (m : Manifest) (lineage : Uuid) (p : PageCommit) : Except String Manifest := do
  let row ← getRow (m.lineageRow lineage) "unknown checkpoint lineage"
  require (row.status = .active) ("checkpoint lineage is " ++ row.status.text)
  require (row.identity.connectorVersion = p.connectorVersion)
    "connector version does not match checkpoint lineage"
  pure (if p.declarePartition then m.declarePartition lineage p.partitionKey else m)

/-- `_verify_replay`.  Rows and arguments are sorted before they are compared. -/
def verifyReplay (m : Manifest) (lineage : Uuid) (p : PageCommit) (existing : PageRow) :
    Except String Unit := do
  require (existing = p.row lineage) "page replay differs from committed manifest"
  require (((m.batches.filter fun b => b.page.names lineage p).map BatchRow.batch).Perm
    p.batches) "page replay differs from committed dataset batches"
  require (((m.outcomes.filter fun o => o.page.names lineage p).map OutcomeRow.outcome).Perm
    p.committedOutcomes) "page replay differs from committed dataset outcomes"

/-- The page must come after the pages of its partition. -/
def checkPosition (m : Manifest) (lineage : Uuid) (p : PageCommit) : Except String Unit := do
  require (∀ q ∈ m.partitionPages lineage p.partitionKey, q.terminal = false)
    "cannot append after a terminal page"
  require (∀ q ∈ m.partitionPages lineage p.partitionKey, q.ref.sequence < p.sequence)
    "page sequence must increase monotonically"

/-- The insert of the page.  Its unique constraints follow from the checks before it. -/
def insertPage (m : Manifest) (lineage : Uuid) (p : PageCommit) : Except String Manifest := do
  require (p.connectorVersion ≠ "") "job_pages_connector_version_check"
  require (p.pageId ≠ "") "job_pages_page_id_check"
  require (p.partitionKey ≠ "") "job_pages_partition_key_check"
  pure { m with pages := m.pages ++ [p.row lineage] }

/-- The insert of a batch. -/
def insertBatch (page : PageRef) (m : Manifest) (batch : PageBatch) : Except String Manifest := do
  require (batch.objectKey ≠ "") "job_page_batches_object_key_check"
  require (∀ b ∈ m.batches, b.page = page → b.batch.key ≠ batch.key) "job_page_batches_pkey"
  require (∀ b ∈ m.batches, b.batch.objectKey ≠ batch.objectKey) "job_page_batches_object_key_key"
  require ((m.dataset batch.key).isSome = true) "job_page_batches_job_id_dataset_fkey"
  pure { m with batches := m.batches ++ [BatchRow.mk page batch] }

/-- The body of the loop of `_record_outcomes`. -/
def recordOutcome (batches : List PageBatch) (page : PageRef) (m : Manifest) (o : DatasetOutcome) :
    Except String Manifest := do
  require (o.state = .succeeded ∨ o.state = .failed ∨ o.state = .skipped)
    ("invalid dataset page outcome '" ++ o.state.text ++ "'")
  require (o.state = .failed → ∃ e ∈ o.error, e ≠ "") "failed dataset outcome requires an error"
  require (o.state = .succeeded → ∀ b ∈ batches, b.key = o.key → b.records = o.records)
    "successful outcome record count differs from its batch"
  require (∀ r ∈ m.outcomes, r.page = page → r.outcome.key ≠ o.key)
    "job_page_dataset_outcomes_pkey"
  let d ← getRow (m.dataset o.key) "job_page_dataset_outcomes_job_id_dataset_fkey"
  require (o.state = .skipped → d.state = .failed) "a skipped projector must already be failed"
  pure (({ m with outcomes := m.outcomes ++ [OutcomeRow.mk page o] }).updateDataset o.key
    (DatasetRow.record o))

/-- `_record_outcomes`. -/
def recordOutcomes (m : Manifest) (page : PageRef) (batches : List PageBatch)
    (outcomes : List DatasetOutcome) : Except String Manifest := do
  require ((∀ b ∈ batches, ∃ o ∈ outcomes, o.state = .succeeded ∧ o.key = b.key) ∧
      ∀ o ∈ outcomes, o.state = .succeeded → ∃ b ∈ batches, b.key = o.key)
    "successful outcomes and staged batches do not match"
  outcomes.foldlM (recordOutcome batches page) m

/-- `commit_page`: `True` for a new page and `False` for an exact replay. -/
def commitPage (m : Manifest) (lineage : Uuid) (p : PageCommit) :
    Except String (Bool × Manifest) := do
  let m ← m.openLineage lineage p
  match m.pages.find? fun q => q.ref.names lineage p with
  | some existing =>
    m.verifyReplay lineage p existing
    pure (false, m)
  | none =>
    m.checkPosition lineage p
    let m ← m.insertPage lineage p
    let m ← p.batches.foldlM (insertBatch (p.ref lineage)) m
    let m ← m.recordOutcomes (p.ref lineage) p.batches p.committedOutcomes
    pure (true, m)

/-! ## Sealing a lineage -/

/-- The last page of a lineage in the order of its partitions. -/
def latestPage (m : Manifest) (l : Lineage) : Option PageRow :=
  (m.pagesOf l.lineage).argmax fun q => q.ref.rank l.identity.partitions

/-- `declared_partitions`. -/
def declaredPartitions (m : Manifest) (lineage : Uuid) : Except String (List String) := do
  let row ← getRow (m.lineageRow lineage) "unknown checkpoint lineage"
  pure row.identity.partitions.dedup

/-- The sealed lineage. -/
def sealLineage (m : Manifest) (lineage : Uuid) (status : LineageStatus) (checksum : Digest) :
    Manifest :=
  m.updateLineage lineage fun l => { l with status, checksum := some checksum }

/-- `complete_lineage`. -/
def completeLineage (m : Manifest) (lineage : Uuid) (expectedPartitions : List String)
    (checksum : Digest) : Except String (Bool × Manifest) := do
  let current ← getRow (m.lineageRow lineage) "unknown checkpoint lineage"
  if current.status = .completed then
    require (current.checksum = some checksum) "completed checkpoint checksum changed"
    pure (false, m)
  else
    require (current.status = .active) ("checkpoint lineage is " ++ current.status.text)
    require expectedPartitions.Nodup "checkpoint partition manifest contains duplicates"
    require ((∀ q ∈ m.pagesOf lineage, q.ref.partitionKey ∈ expectedPartitions) ∧
        ∀ k ∈ expectedPartitions, ∃ q ∈ m.pagesOf lineage, q.ref.partitionKey = k)
      "checkpoint partition manifest is incomplete"
    require ((∀ q ∈ m.pagesOf lineage, q.enumerationIntact = true) ∧
        ∀ q ∈ m.pagesOf lineage,
          ∃ t ∈ m.partitionPages lineage q.ref.partitionKey, t.terminal = true)
      "checkpoint enumeration is not intact and terminal"
    pure (true, m.sealLineage lineage .completed checksum)

/-- `complete_limited_lineage`. -/
def completeLimitedLineage (m : Manifest) (lineage : Uuid) (checksum : Digest) :
    Except String (Bool × Manifest) := do
  let current ← getRow (m.lineageRow lineage) "unknown checkpoint lineage"
  if current.status = .limited then
    require (current.checksum = some checksum) "limited checkpoint checksum changed"
    pure (false, m)
  else
    require (current.status = .active) ("checkpoint lineage is " ++ current.status.text)
    let latest ← getRow (m.latestPage current) "limited checkpoint lineage has no committed page"
    require (latest.limited = true)
      "limited checkpoint lineage must end at a resumable incomplete terminal page"
    pure (true, m.sealLineage lineage .limited checksum)

/-- What completing a lineage does: nothing to a completed one, and otherwise every page is intact,
every expected partition has a terminal page, and the lineage is sealed. -/
theorem completeLineage_ok {lineage : Uuid} {expected : List String} {checksum : Digest}
    {new : Bool} (h : m.completeLineage lineage expected checksum = .ok (new, m')) :
    ∃ l, m.lineageRow lineage = some l ∧
      ((l.status = .completed ∧ l.checksum = some checksum ∧ m' = m) ∨
        l.status = .active ∧ expected.Nodup ∧
          (∀ q ∈ m.pagesOf lineage, q.ref.partitionKey ∈ expected) ∧
          (∀ k ∈ expected, ∃ q ∈ m.pagesOf lineage, q.ref.partitionKey = k) ∧
          (∀ q ∈ m.pagesOf lineage, q.enumerationIntact = true) ∧
          (∀ q ∈ m.pagesOf lineage,
            ∃ t ∈ m.partitionPages lineage q.ref.partitionKey, t.terminal = true) ∧
          m' = m.sealLineage lineage .completed checksum) := by
  unfold completeLineage at h
  simp only [bind_eq_ok, getRow_eq_ok] at h
  obtain ⟨l, hl, h⟩ := h
  refine ⟨l, hl, ?_⟩
  split at h
  · next hcompleted =>
    simp only [bind_eq_ok, require_eq_ok, pure_eq_ok, exists_const, Prod.mk.injEq] at h
    exact Or.inl ⟨hcompleted, h.1, h.2.2.symm⟩
  · simp only [bind_eq_ok, require_eq_ok, pure_eq_ok, exists_const, Prod.mk.injEq] at h
    obtain ⟨hactive, hnodup, ⟨hin, hall⟩, ⟨hintact, hterminal⟩, -, hm⟩ := h
    exact Or.inr ⟨hactive, hnodup, hin, hall, hintact, hterminal, hm.symm⟩

theorem completeLimitedLineage_ok {lineage : Uuid} {checksum : Digest} {new : Bool}
    (h : m.completeLimitedLineage lineage checksum = .ok (new, m')) :
    ∃ l, m.lineageRow lineage = some l ∧
      ((l.status = .limited ∧ l.checksum = some checksum ∧ m' = m) ∨
        l.status = .active ∧ (∃ latest, m.latestPage l = some latest ∧ latest.limited = true) ∧
          m' = m.sealLineage lineage .limited checksum) := by
  unfold completeLimitedLineage at h
  simp only [bind_eq_ok, getRow_eq_ok] at h
  obtain ⟨l, hl, h⟩ := h
  refine ⟨l, hl, ?_⟩
  split at h
  · next hlimited =>
    simp only [bind_eq_ok, require_eq_ok, pure_eq_ok, exists_const, Prod.mk.injEq] at h
    exact Or.inl ⟨hlimited, h.1, h.2.2.symm⟩
  · simp only [bind_eq_ok, getRow_eq_ok, require_eq_ok, pure_eq_ok, exists_const,
      Prod.mk.injEq] at h
    obtain ⟨hactive, latest, hlatest, hpage, -, hm⟩ := h
    exact Or.inr ⟨hactive, ⟨latest, hlatest, hpage⟩, hm.symm⟩

/-! ## The order of the batches -/

/-- `reconstruct_batches`: the batches of a dataset in the order of their pages. -/
def reconstructBatches (m : Manifest) (lineage : Uuid) (key : DatasetKey) :
    Except String (List BatchRow) := do
  let row ← getRow (m.lineageRow lineage) "unknown checkpoint lineage"
  pure ((m.batches.filter fun b => b.page.lineage == lineage && b.batch.key == key).insertionSort
    fun a b => a.page.rank row.identity.partitions ≤ b.page.rank row.identity.partitions)

/-! ## Publications -/

/-- `register_artifact`. -/
def registerArtifact (m : Manifest) (key : DatasetKey) (artifact : StoredObject) (kind : String) :
    Except String Manifest :=
  match m.artifacts.find? fun a => a.key == key && a.kind == kind with
  | some existing => do
    require (existing.location = artifact.location ∧ existing.sha256 = artifact.sha256 ∧
      existing.size = artifact.size) "published artifact identity changed"
    pure m
  | none => do
    require (∀ a ∈ m.artifacts, a.location ≠ artifact.location) "job_artifacts_location_key"
    require ((m.dataset key).isSome = true) "job_artifacts_job_id_dataset_fkey"
    pure { m with
      artifacts := m.artifacts ++
        [{ key, kind, location := artifact.location, sha256 := artifact.sha256,
           size := artifact.size }] }

/-- The check of `publish_dataset`: only a sealed lineage can be published. -/
def requireSealed (m : Manifest) (lineage : Uuid) : Except String Unit :=
  require (∃ l ∈ m.lineageRow lineage, l.status = .completed ∨ l.status = .limited)
    "only a completed or limited checkpoint lineage can be published"

/-- The statements of `publish_dataset` behind the store. -/
def recordPublication (m : Manifest) (key : DatasetKey) (artifact : StoredObject) (kind : String) :
    Except String Manifest := do
  let m ← m.registerArtifact key artifact kind
  pure (m.updateDataset key fun d =>
    if d.state = .failed then d else { d with state := .published, complete := true })

theorem recordPublication_ok {artifact : StoredObject} {kind : String}
    (h : m.recordPublication key artifact kind = .ok m') :
    ∃ (artifacts : List ArtifactRow) (f : DatasetRow → DatasetRow),
      m' = ({ m with artifacts }).updateDataset key f ∧
        ∀ d, (f d).key = d.key ∧ (f d).records = d.records ∧
          (d.state = .failed → f d = d) := by
  have hf : ∀ d : DatasetRow,
      (if d.state = .failed then d else { d with state := .published, complete := true }).key =
          d.key ∧
        (if d.state = .failed then d else { d with state := .published, complete := true }).records =
          d.records ∧
        (d.state = .failed →
          (if d.state = .failed then d else { d with state := .published, complete := true }) =
            d) := by
    intro d
    split
    · exact ⟨rfl, rfl, fun _ => rfl⟩
    · next hfailed => exact ⟨rfl, rfl, fun h => absurd h hfailed⟩
  unfold recordPublication registerArtifact at h
  rw [bind_eq_ok] at h
  obtain ⟨m₁, hregister, h⟩ := h
  rw [pure_eq_ok] at h
  split at hregister
  · simp only [bind_eq_ok, require_eq_ok, pure_eq_ok, exists_const] at hregister
    obtain ⟨-, rfl⟩ := hregister
    exact ⟨m.artifacts, _, h.symm, hf⟩
  · simp only [bind_eq_ok, require_eq_ok, pure_eq_ok, exists_const] at hregister
    obtain ⟨-, -, rfl⟩ := hregister
    exact ⟨_, _, h.symm, hf⟩

end Manifest

end CommerceCollector
