import CommerceCollector.Lineage.Manifest

/-!
# Resolving a lineage

`lineage_progress` (`ops/outputs.py`) classifies a lineage by its latest page, and
`resolve_library_lineage` (`ops/library_lineages.py`) finds the lineage on which a collection goes
on, or creates a new one.  What the scraper library computes on requests, checkpoints and manifests
is a parameter `Library`.

`Manifest.step` is the transition system of the manifests of a job: resolutions, commits, sealings
and the updates of datasets, in any order.  A call that raises is rolled back.
-/

namespace CommerceCollector

open Relational Transaction

/-! ## The scraper library -/

/-- `CollectionRequest` of the library. -/
structure CollectionRequest where
  sourceId : String
  baseUrl : String
  partitions : List String := []
  /-- The fields that only the library reads. -/
  fields : Json
  deriving DecidableEq, Repr

/-- `ConnectorCheckpoint`; that of the library has a fingerprint. -/
structure Checkpoint where
  connector : String
  connectorVersion : String
  sourceId : String
  lineage : Uuid
  resumeAfter : Json
  collectionFingerprint : Option Digest
  deriving DecidableEq, Repr

/-- What the library computes. -/
structure Library where
  /-- `collection_fingerprint`, unless it raises. -/
  collectionFingerprint : CollectionRequest → String → Json → Option Digest
  /-- `CollectionRequest.model_validate`, unless it raises. -/
  validateRequest : Json → Option CollectionRequest
  /-- `model_dump(mode="json")`. -/
  dumpRequest : CollectionRequest → Json
  /-- The fields are accepted by `model_validate` of the checkpoint. -/
  acceptsCheckpoint : Checkpoint → Bool
  /-- The digest of the manifest of a lineage. -/
  manifestDigest : List PageRow → List BatchRow → List OutcomeRow → Digest

/-! ## The progress of a lineage -/

/-- `LineageProgressState`. -/
inductive LineageProgressState
  | empty | resumable | terminalIntact | terminalLimited | terminalIncomplete
  deriving DecidableEq, Repr

/-- `LineageProgress`. -/
structure LineageProgress where
  state : LineageProgressState
  checkpoint : Option Checkpoint := none
  deriving DecidableEq, Repr

namespace Manifest

/-- The checkpoint behind a page of a lineage. -/
def checkpointAt (l : Lineage) (cursor : Json) : Checkpoint where
  connector := l.identity.connector
  connectorVersion := l.identity.connectorVersion
  sourceId := l.identity.sourceId
  lineage := l.lineage
  resumeAfter := cursor
  collectionFingerprint :=
    if l.identity.runtimeFormat = .commerceScraperV1 then
      some l.identity.connectorConfigFingerprint
    else none

/-- The classification of a lineage by its latest page. -/
def classify (lib : Library) (l : Lineage) (latest : PageRow) : Except String LineageProgress :=
  match latest.resumeAfter with
  | some cursor => do
    require (lib.acceptsCheckpoint (checkpointAt l cursor) = true) "invalid checkpoint"
    pure { state := .resumable, checkpoint := some (checkpointAt l cursor) }
  | none =>
    if latest.terminal then
      if latest.enumerationIntact then .ok { state := .terminalIntact }
      else .ok { state := .terminalIncomplete }
    else .ok { state := .empty }

/-- `lineage_progress`. -/
def lineageProgress (lib : Library) (m : Manifest) (lineage : Uuid) :
    Except String LineageProgress := do
  let row ← getRow (m.lineageRow lineage) "unknown checkpoint lineage"
  require (row.status ≠ .rejected ∧ row.status ≠ .expired)
    ("checkpoint lineage is " ++ row.status.text)
  match m.latestPage row with
  | none =>
    require (row.status ≠ .limited) "limited checkpoint lineage has no committed page"
    pure { state := .empty }
  | some latest =>
    if row.status = .limited then pure { state := .terminalLimited }
    else classify lib row latest

/-- The rank of a batch or outcome: that of its page, then its dataset. -/
def keyRank (partitions : List String) (page : PageRef) (key : DatasetKey) :
    (ℕ ×ₗ ℕ ×ₗ String) ×ₗ String ×ₗ String ×ₗ String :=
  toLex (page.rank partitions,
    toLex (key.dataset, toLex (key.contractVersion, key.projectorVersion)))

/-- `lineage_checksum`. -/
def lineageChecksum (lib : Library) (m : Manifest) (lineage : Uuid) : Except String Digest := do
  let row ← getRow (m.lineageRow lineage) "unknown checkpoint lineage"
  let partitions := row.identity.partitions
  pure (lib.manifestDigest
    ((m.pagesOf lineage).insertionSort fun a b => a.ref.rank partitions ≤ b.ref.rank partitions)
    ((m.batches.filter fun b => b.page.lineage == lineage).insertionSort fun a b =>
      keyRank partitions a.page a.batch.key ≤ keyRank partitions b.page b.batch.key)
    ((m.outcomes.filter fun o => o.page.lineage == lineage).insertionSort fun a b =>
      keyRank partitions a.page a.outcome.key ≤ keyRank partitions b.page b.outcome.key))

end Manifest

/-! ## The resolution -/

/-- `CheckpointRestartReason`. -/
inductive CheckpointRestartReason
  | malformedCheckpoint | durableConfigurationUnavailable | durableConfigurationInvalid
  | checkpointIdentityMismatch | collectionConfigurationChanged | incompleteTerminalCheckpoint
  deriving DecidableEq, Repr

/-- `LibraryLineageSpec`. -/
structure LibraryLineageSpec where
  request : CollectionRequest
  connector : String
  connectorVersion : String
  connectorOptions : Json
  datasetFingerprint : Digest
  datasetSelection : Json
  /-- `connector_configuration["partitions"]`. -/
  partitions : List String := []
  budgetState : Json
  expiresAt : Option Time := none
  deriving DecidableEq, Repr

/-- `ResolvedLibraryLineage`. -/
structure ResolvedLibraryLineage where
  lineage : Uuid
  checkpoint : Option Checkpoint
  resuming : Bool
  restartReason : Option CheckpointRestartReason := none
  progress : LineageProgressState := .empty
  deriving DecidableEq, Repr

namespace LibraryLineageSpec

/-- `connector_config_fingerprint`, unless it raises. -/
def connectorConfigFingerprint (lib : Library) (spec : LibraryLineageSpec) : Option Digest :=
  lib.collectionFingerprint spec.request spec.connector spec.connectorOptions

/-- The identity of a lineage that is created for the specification. -/
def identity (lib : Library) (spec : LibraryLineageSpec) (fingerprint : Digest) :
    LineageIdentity where
  sourceId := spec.request.sourceId
  sourceUrl := spec.request.baseUrl
  connector := spec.connector
  connectorVersion := spec.connectorVersion
  partitions := spec.partitions
  connectorConfigFingerprint := fingerprint
  datasetFingerprint := spec.datasetFingerprint
  datasetSelection := spec.datasetSelection
  runtimeFormat := .commerceScraperV1
  collectionRequest := some (lib.dumpRequest spec.request)
  connectorOptions := some spec.connectorOptions
  budgetState := spec.budgetState
  expiresAt := spec.expiresAt

end LibraryLineageSpec

/-- `_validated_resume_checkpoint`: the reason not to accept the checkpoint. -/
def validatedResumeCheckpoint (persisted : Checkpoint) (spec : LibraryLineageSpec)
    (fingerprint : Digest) : Option CheckpointRestartReason :=
  match persisted.collectionFingerprint with
  | none => some .malformedCheckpoint
  | some collectionFingerprint =>
    if persisted.connector ≠ spec.connector ∨ persisted.connectorVersion ≠ spec.connectorVersion ∨
        persisted.sourceId ≠ spec.request.sourceId ∨ collectionFingerprint ≠ fingerprint then
      some .checkpointIdentityMismatch
    else none

/-- `_durable_request`, with the options beside the request. -/
def durableRequest (lib : Library) (l : LineageIdentity) :
    Except CheckpointRestartReason (CollectionRequest × Json) := do
  require (l.runtimeFormat = .commerceScraperV1) .durableConfigurationUnavailable
  let request ← getRow l.collectionRequest .durableConfigurationUnavailable
  let options ← getRow l.connectorOptions .durableConfigurationUnavailable
  let request ← getRow (lib.validateRequest request) .durableConfigurationInvalid
  pure (request, options)

/-- `_configuration_restart_reason`. -/
def configurationRestartReason (lib : Library) (request : CollectionRequest) (options : Json)
    (spec : LibraryLineageSpec) (fingerprint : Digest) : Option CheckpointRestartReason :=
  if request.sourceId ≠ spec.request.sourceId then some .checkpointIdentityMismatch
  else
    match lib.collectionFingerprint request spec.connector options with
    | none => some .durableConfigurationInvalid
    | some durableFingerprint =>
      if durableFingerprint ≠ fingerprint then some .collectionConfigurationChanged else none

/-- What is found out about the lineage that may go on. -/
structure Recovery where
  progress : LineageProgressState := .empty
  checkpoint : Option Checkpoint := none
  restartReason : Option CheckpointRestartReason := none
  deriving DecidableEq, Repr

/-- The validation of a durable cursor, for a lineage whose configuration is unchanged. -/
def Recovery.ofProgress (progress : LineageProgress) (spec : LibraryLineageSpec)
    (fingerprint : Digest) : Recovery :=
  match progress.state, progress.checkpoint with
  | .resumable, some checkpoint =>
    match validatedResumeCheckpoint checkpoint spec fingerprint with
    | none => { progress := .resumable, checkpoint := some checkpoint }
    | some reason => { progress := .resumable, restartReason := some reason }
  | .terminalIncomplete, _ =>
    { progress := .terminalIncomplete, restartReason := some .incompleteTerminalCheckpoint }
  | state, _ => { progress := state }

namespace Manifest

/-- The second part of `resolve_library_lineage`: the progress of the candidate, and the reason to
restart. -/
def recovery (lib : Library) (m : Manifest) (spec : LibraryLineageSpec) (fingerprint : Digest)
    (candidate : Uuid) : Recovery :=
  match m.lineageProgress lib candidate, m.lineageRow candidate with
  | .error _, _ => { restartReason := some .malformedCheckpoint }
  | .ok progress, none =>
    { progress := progress.state, restartReason := some .durableConfigurationInvalid }
  | .ok progress, some row =>
    match durableRequest lib row.identity with
    | .error reason => { progress := progress.state, restartReason := some reason }
    | .ok (request, options) =>
      match configurationRestartReason lib request options spec fingerprint with
      | some reason =>
        { progress := progress.state
          restartReason :=
            if progress.state = .terminalIncomplete then some .incompleteTerminalCheckpoint
            else some reason }
      | none => .ofProgress progress spec fingerprint

/-- Lineages are rejected one after another; each must be active. -/
def rejectAll (m : Manifest) (lineages : List Uuid) : Except String Manifest :=
  lineages.foldlM (fun m lineage => do
    require ((m.rejectLineage lineage).1 = true) "checkpoint lineage was no longer active"
    pure (m.rejectLineage lineage).2) m

/-- The third part of `resolve_library_lineage`: the candidate goes on, or a new lineage is
created. -/
def settle (lib : Library) (m : Manifest) (now : Time) (spec : LibraryLineageSpec)
    (fingerprint : Digest) (active : List Uuid) (candidate : Option Uuid) :
    Except String (ResolvedLibraryLineage × Manifest) :=
  let recovery := candidate.elim {} (m.recovery lib spec fingerprint)
  match candidate, recovery.restartReason with
  | some lineage, none =>
    .ok ({ lineage, checkpoint := recovery.checkpoint, resuming := true,
           progress := recovery.progress }, m)
  | _, reason => do
    let m ← m.rejectAll (active.filter fun l => candidate == some l)
    let (lineage, m) ← m.createLineage now (spec.identity lib fingerprint) none
    pure ({ lineage, checkpoint := none, resuming := false, restartReason := reason }, m)

/-- `resolve_library_lineage`. -/
def resolveLibraryLineage (lib : Library) (m : Manifest) (now : Time) (spec : LibraryLineageSpec)
    (datasets : List DatasetKey) : Except String (ResolvedLibraryLineage × Manifest) := do
  let active ← m.activeLineagesForRuntime .commerceScraperV1
  let fingerprint ← getRow (spec.connectorConfigFingerprint lib) "invalid collection configuration"
  let candidate := m.findRecoverableLibraryLineage now spec.request.baseUrl spec.connector
    spec.connectorVersion fingerprint spec.datasetFingerprint
  let m ← m.rejectAll (active.filter fun l => candidate != some l)
  let (resolved, m) ← m.settle lib now spec fingerprint active candidate
  let m ← datasets.foldlM (fun m key => m.prepareDatasetForCollection resolved.resuming key) m
  pure (resolved, m)

end Manifest

/-! ## What the resolution leaves alone -/

namespace Manifest

variable {lib : Library} {m m' : Manifest}

/-- Pages, batches and outcomes are those of the other manifests. -/
structure SameContent (m m' : Manifest) : Prop where
  pages : m'.pages = m.pages
  batches : m'.batches = m.batches
  outcomes : m'.outcomes = m.outcomes

theorem SameContent.refl (m : Manifest) : SameContent m m := ⟨rfl, rfl, rfl⟩

theorem SameContent.trans {m'' : Manifest} (h : SameContent m m') (h' : SameContent m' m'') :
    SameContent m m'' :=
  ⟨h'.pages.trans h.pages, h'.batches.trans h.batches, h'.outcomes.trans h.outcomes⟩

theorem rejectAll_ok {lineages : List Uuid} (h : m.rejectAll lineages = .ok m') :
    m' = { m with
      lineages := update (fun l => decide (l.lineage ∈ lineages)) Lineage.reject m.lineages } := by
  induction lineages generalizing m with
  | nil =>
    rw [rejectAll, List.foldlM_nil, pure_eq_ok] at h
    simp [h, update]
  | cons lineage lineages ih =>
    rw [rejectAll, List.foldlM_cons, bind_eq_ok] at h
    obtain ⟨t, hfirst, hrest⟩ := h
    simp only [bind_eq_ok, require_eq_ok, pure_eq_ok, exists_const] at hfirst
    obtain ⟨-, rfl⟩ := hfirst
    rw [ih hrest]
    simp only [rejectLineage, updateLineage, update, List.map_map]
    congr 1
    refine List.map_congr_left fun l _ => ?_
    by_cases hfirst : l.lineage = lineage <;> by_cases hrest : l.lineage ∈ lineages <;>
      by_cases hactive : l.status = .active <;>
      simp [hfirst, hrest, hactive, Lineage.reject]

variable {datasets : List DatasetKey}

theorem prepareAll_ok {resuming : Bool}
    (h : datasets.foldlM (fun m key => m.prepareDatasetForCollection resuming key) m = .ok m') :
    m' = { m with datasets := m'.datasets } :=
  foldlM_invariant (I := fun t => t = { m with datasets := t.datasets })
    (fun key _ t t' hok ht => by rw [prepareDatasetForCollection_ok hok, ht]) h rfl

theorem prepareAll_reset {key : DatasetKey} (hkey : key ∈ datasets)
    (h : datasets.foldlM (fun m key => m.prepareDatasetForCollection false key) m = .ok m') :
    m'.dataset key = some { key } := by
  refine foldlM_establish (I := fun t => t.dataset key = some { key }) hkey ?_ ?_ h
  · intro t t' hok
    rw [prepareDatasetForCollection_dataset hok]
    cases hfind : t.dataset key with
    | none => simp [DatasetRow.reset]
    | some d =>
      have hd : d.key = key := by simpa using List.find?_some hfind
      simp [DatasetRow.reset, hd]
  · intro other t t' hok ht
    rw [prepareDatasetForCollection_dataset hok, ht]
    by_cases hother : key = other <;> simp [DatasetRow.reset, hother]

variable {resolved : ResolvedLibraryLineage} {spec : LibraryLineageSpec}

/-- What `settle` returns: the candidate goes on unchanged, or a new lineage is created. -/
theorem settle_ok {now : Time} {fingerprint : Digest} {active : List Uuid} {candidate : Option Uuid}
    (h : m.settle lib now spec fingerprint active candidate = .ok (resolved, m')) :
    (candidate = some resolved.lineage ∧ resolved.resuming = true ∧ m' = m ∧
        (m.recovery lib spec fingerprint resolved.lineage).restartReason = none ∧
        resolved.checkpoint =
          (m.recovery lib spec fingerprint resolved.lineage).checkpoint ∧
        resolved.progress =
          (m.recovery lib spec fingerprint resolved.lineage).progress) ∨
      ∃ m₁, m.rejectAll (active.filter fun l => candidate == some l) = .ok m₁ ∧
        m₁.createLineage now (spec.identity lib fingerprint) none = .ok (resolved.lineage, m') ∧
        resolved.resuming = false ∧ resolved.checkpoint = none ∧ resolved.progress = .empty := by
  unfold settle at h
  dsimp only at h
  split at h
  · next lineage hreason =>
    obtain ⟨rfl, rfl⟩ := Prod.mk.inj (Except.ok.inj h)
    exact Or.inl ⟨rfl, rfl, rfl, hreason, rfl, rfl⟩
  · simp only [bind_eq_ok, pure_eq_ok] at h
    obtain ⟨m₁, hreject, ⟨lineage, m₂⟩, hcreate, heq⟩ := h
    obtain ⟨rfl, rfl⟩ := Prod.mk.inj heq
    exact Or.inr ⟨m₁, hreject, hcreate, rfl, rfl, rfl⟩

section

variable {now : Time} (h : m.resolveLibraryLineage lib now spec datasets = .ok (resolved, m'))

include h

/-- **What a resolution does**, statement by statement. -/
theorem resolveLibraryLineage_ok :
    ∃ active fingerprint candidate m₁ m₂,
      m.activeLineagesForRuntime .commerceScraperV1 = .ok active ∧
      spec.connectorConfigFingerprint lib = some fingerprint ∧
      candidate = m.findRecoverableLibraryLineage now spec.request.baseUrl spec.connector
        spec.connectorVersion fingerprint spec.datasetFingerprint ∧
      m.rejectAll (active.filter fun l => candidate != some l) = .ok m₁ ∧
      m₁.settle lib now spec fingerprint active candidate = .ok (resolved, m₂) ∧
      datasets.foldlM (fun m key => m.prepareDatasetForCollection resolved.resuming key) m₂ =
        .ok m' := by
  unfold resolveLibraryLineage at h
  simp only [bind_eq_ok, getRow_eq_ok, pure_eq_ok] at h
  obtain ⟨active, hactive, fingerprint, hfingerprint, m₁, hreject, ⟨r, m₂⟩, hsettle, m₃, hprepare,
    heq⟩ := h
  obtain ⟨rfl, rfl⟩ := Prod.mk.inj heq
  exact ⟨active, fingerprint, _, m₁, m₂, hactive, hfingerprint, rfl, hreject, hsettle, hprepare⟩

/-- **Invariant rule of a resolution.**  What rejections, a new lineage and prepared datasets
preserve is preserved by a resolution. -/
theorem resolve_induction {P : Manifest → Prop}
    (hm : P m)
    (hreject : ∀ {t t' lineages}, t.rejectAll lineages = .ok t' → P t → P t')
    (hcreate : ∀ {t t' identity created},
      t.createLineage now identity none = .ok (created, t') → P t → P t')
    (hprepare : ∀ {t rows}, P t → P { t with datasets := rows }) : P m' := by
  obtain ⟨active, fingerprint, candidate, m₁, m₂, -, -, -, hfirst, hsettle, hlast⟩ :=
    resolveLibraryLineage_ok h
  rw [prepareAll_ok hlast]
  apply hprepare
  rcases settle_ok hsettle with ⟨-, -, rfl, -⟩ | ⟨m₃, hsecond, hnew, -⟩
  · exact hreject hfirst hm
  · exact hcreate hnew (hreject hsecond (hreject hfirst hm))

theorem sameContent_resolve :
    SameContent m m' := by
  refine resolve_induction h (.refl m) (fun hreject hsame => hsame.trans ?_)
    (fun hcreate hsame => hsame.trans ?_) fun hsame => hsame.trans ⟨rfl, rfl, rfl⟩
  · rw [rejectAll_ok hreject]
    exact ⟨rfl, rfl, rfl⟩
  · rcases (createLineage_ok hcreate).2 with ⟨rfl, -⟩ | ⟨-, rfl⟩
    · exact .refl _
    · exact ⟨rfl, rfl, rfl⟩

end

end Manifest

/-! ## Runs -/

/-- A call on the manifests of a job. -/
inductive ManifestAction
  | resolve (now : Time) (spec : LibraryLineageSpec) (datasets : List DatasetKey)
  | create (now : Time) (identity : LineageIdentity) (lineage : Option Uuid)
  | prepare (resuming : Bool) (key : DatasetKey)
  | commit (lineage : Uuid) (p : PageCommit)
  | complete (lineage : Uuid) (expectedPartitions : List String) (checksum : Digest)
  | completeLimited (lineage : Uuid) (checksum : Digest)
  | publish (key : DatasetKey) (artifact : StoredObject) (kind : String)
  | finish (key : DatasetKey) (state : DatasetState) (complete : Bool) (rejected : ℕ)
      (error : Option String) (promoted : Option Time)
  deriving DecidableEq, Repr

namespace Manifest

/-- The effect of a call. -/
def step (lib : Library) (m : Manifest) : ManifestAction → Manifest
  | .resolve now spec datasets => attempt m (m.resolveLibraryLineage lib now spec datasets)
  | .create now identity lineage => attempt m (m.createLineage now identity lineage)
  | .prepare resuming key =>
    attempt m ((m.prepareDatasetForCollection resuming key).map fun m => ((), m))
  | .commit lineage p => attempt m (m.commitPage lineage p)
  | .complete lineage expectedPartitions checksum =>
    attempt m (m.completeLineage lineage expectedPartitions checksum)
  | .completeLimited lineage checksum => attempt m (m.completeLimitedLineage lineage checksum)
  | .publish key artifact kind =>
    attempt m ((m.recordPublication key artifact kind).map fun m => ((), m))
  | .finish key state complete rejected error promoted =>
    attempt m
      ((m.finishDataset key state complete rejected error promoted).map fun m => ((), m))

/-- A call that declares, publishes or finishes a dataset. -/
def OnDataset : ManifestAction → Prop
  | .prepare .. => True
  | .publish .. => True
  | .finish .. => True
  | _ => False

theorem onDataset_induction {lib : Library} {P : Manifest → Prop} {m : Manifest}
    {a : ManifestAction} (ha : OnDataset a)
    (h : ∀ datasets artifacts, P { m with datasets, artifacts }) : P (m.step lib a) := by
  have hsame : P m := h m.datasets m.artifacts
  cases a with
  | prepare resuming key =>
    refine attempt_induction hsame fun _ m' hok => ?_
    rw [prepareDatasetForCollection_ok (ok_of_map hok)]
    exact h _ m.artifacts
  | publish key artifact kind =>
    refine attempt_induction hsame fun _ m' hok => ?_
    obtain ⟨artifacts, f, rfl, -⟩ := recordPublication_ok (ok_of_map hok)
    exact h _ artifacts
  | finish key state complete rejected error promoted =>
    refine attempt_induction hsame fun _ m' hok => ?_
    obtain ⟨f, rfl, -⟩ := finishDataset_ok (ok_of_map hok)
    exact h _ m.artifacts
  | _ => exact ha.elim

/-- The manifests after a run of a job that has no manifests. -/
def after (lib : Library) (actions : List ManifestAction) : Manifest :=
  Trace.exec (step lib) {} actions

end Manifest

end CommerceCollector
