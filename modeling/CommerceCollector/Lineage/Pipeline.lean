import CommerceCollector.Lineage.Resolve

/-!
# Staging and committing pages

The pages of a connector (`connectors/base.py`), the store of the projected batches
(`LocalArtifactStore` in `pipeline/outputs.py`), one round of `ConnectorPipeline.run`
(`pipeline/runner.py`) and `PostgresPageCommitter` (`ops/outputs.py`).

A file of the store is the list of the JSON lines it was written from.  A file is put under its name
by one rename, and never replaced, so the store only grows; temporary files, and errors of the file
system, are left out.
-/

namespace CommerceCollector

open Relational Transaction

/-! ## Pages of a connector -/

/-- `DiagnosticCode`. -/
inductive DiagnosticCode
  | resultLimitReached
  | other (code : String)
  deriving DecidableEq, Repr

/-- What the pipeline reads of a `Diagnostic`. -/
structure Diagnostic where
  code : DiagnosticCode
  affectsCompleteness : Bool
  deriving DecidableEq, Repr

/-- `EntityPage`, with what its validators admit. -/
structure EntityPage where
  pageId : String
  partitionKey : String := "main"
  sequence : ℕ
  items : List Json
  resumeAfter : Option Json := none
  terminal : Bool
  partitionTerminal : Bool := false
  enumerationIntact : Bool := true
  discovered : ℕ
  diagnostics : List Diagnostic := []
  pageId_ne : pageId ≠ ""
  partitionKey_ne : partitionKey ≠ ""
  /-- A successful terminal page cannot have a resume cursor. -/
  terminal_cursor : terminal = true → enumerationIntact = true → resumeAfter = none
  /-- An intermediate partition terminal requires a resume cursor. -/
  partition_cursor : partitionTerminal = true → terminal = false → resumeAfter.isSome = true
  /-- An incomplete enumeration must be terminal. -/
  incomplete_terminal : enumerationIntact = false → terminal = true
  /-- An incomplete enumeration requires a completeness diagnostic. -/
  incomplete_diagnostic : enumerationIntact = false →
    ∃ d ∈ diagnostics, d.affectsCompleteness = true
  discovered_le : items.length ≤ discovered
  deriving DecidableEq

/-- The page reports that the result limit was reached. -/
def EntityPage.limited (page : EntityPage) : Bool :=
  page.diagnostics.any fun d => decide (d.code = .resultLimitReached)

/-- The checks that `ConnectorPipeline.run` makes on a result-limit page. -/
def EntityPage.checkLimit (page : EntityPage) : Except String Unit := do
  require (page.limited = true → page.terminal = true ∧ page.enumerationIntact = false)
    "a result-limit page must be terminal with an incomplete enumeration"
  require (page.limited = true → page.resumeAfter.isSome = true)
    "a result-limit page must retain a resumable checkpoint cursor"

/-! ## The store -/

/-- `BatchIdentity`. -/
structure BatchIdentity where
  jobId : String
  checkpointLineage : String
  partitionKey : String
  pageId : String
  pageSequence : ℕ
  dataset : String
  contractVersion : String
  projectorVersion : String
  deriving DecidableEq, Repr

/-- What Python computes on names and contents. -/
structure ArtifactCodec where
  /-- `str` of a UUID. -/
  uuidText : Uuid → String
  /-- `hashlib.sha256(value.encode("utf-8")).hexdigest()`. -/
  hexdigest : String → String
  /-- `repr`. -/
  repr : String → String
  identityRepr : BatchIdentity → String
  /-- The SHA-256 of the compressed file that holds the lines. -/
  fileSha256 : List Json → Digest
  /-- The size of that file. -/
  fileSize : List Json → ℕ
  digestText : Digest → String

/-- A file of the store. -/
structure StoredFile where
  location : String
  lines : List Json
  deriving DecidableEq, Repr

/-- `StoredBatch`. -/
structure StoredBatch extends StoredObject where
  identity : BatchIdentity
  deriving DecidableEq, Repr

/-- `SAFE_COMPONENT`. -/
def safeComponent (value : String) : Bool :=
  match value.toList with
  | [] => false
  | c :: cs =>
    c.isAlphanum && cs.all (fun c => c.isAlphanum || c == '.' || c == '_' || c == '-') &&
      decide (cs.length ≤ 199)

namespace ArtifactCodec

variable (codec : ArtifactCodec)

/-- `_component`. -/
def component (value : String) : Except String Unit :=
  require (safeComponent value = true) ("unsafe artifact component: " ++ codec.repr value)

/-- `_opaque_component`, without its digest. -/
def opaqueComponent (value : String) : Except String Unit :=
  require (value ≠ "" ∧ value.utf8ByteSize ≤ 2048)
    "opaque artifact identity must contain 1..2048 UTF-8 bytes"

/-- The checks of `BatchIdentity.components`. -/
def components (b : BatchIdentity) : Except String Unit := do
  codec.component b.jobId
  codec.component b.checkpointLineage
  opaqueComponent b.partitionKey
  opaqueComponent b.pageId
  codec.component b.dataset
  codec.component b.contractVersion
  codec.component b.projectorVersion

/-- The name of a staged batch below the root of the store. -/
def stagedLocation (b : BatchIdentity) : String :=
  "staging/" ++ b.jobId ++ "/" ++ b.checkpointLineage ++ "/" ++ codec.hexdigest b.partitionKey ++
    "/" ++ String.ofList (List.leftpad 12 '0' (Nat.toDigits 10 b.pageSequence)) ++ "-" ++
    codec.hexdigest b.pageId ++ "/" ++ b.dataset ++ "." ++ b.contractVersion ++ "." ++
    b.projectorVersion ++ ".ndjson.gz"

/-- The name of a publication below the root of the store. -/
def publishedLocation (jobId dataset contractVersion : String) (sha256 : Digest) : String :=
  "published/" ++ jobId ++ "/" ++ dataset ++ "." ++ contractVersion ++ "." ++
    codec.digestText sha256 ++ ".ndjson.gz"

/-- The object at a location that holds the lines. -/
def object (location : String) (lines : List Json) : StoredObject where
  location := location
  sha256 := codec.fileSha256 lines
  size := codec.fileSize lines
  records := lines.length

end ArtifactCodec

/-- The file at a location. -/
def fileAt (files : List StoredFile) (location : String) : Option StoredFile :=
  files.find? fun f => f.location == location

/-- `LocalArtifactStore.stage_batch`. -/
def stageBatch (codec : ArtifactCodec) (files : List StoredFile) (identity : BatchIdentity)
    (records : Except String (List Json)) : Except String (StoredBatch × List StoredFile) := do
  codec.components identity
  let lines ← records
  let target := codec.stagedLocation identity
  match fileAt files target with
  | some existing =>
    require (codec.fileSha256 existing.lines = codec.fileSha256 lines)
      ("staged batch changed for " ++ codec.identityRepr identity)
    pure (⟨⟨target, codec.fileSha256 existing.lines, codec.fileSize existing.lines, lines.length⟩,
      identity⟩, files)
  | none => pure (⟨codec.object target lines, identity⟩, files ++ [⟨target, lines⟩])

/-- The body of the loop of `LocalArtifactStore._records`. -/
def readBatch (codec : ArtifactCodec) (files : List StoredFile)
    (acc : List BatchIdentity × List Json) (batch : StoredBatch) :
    Except String (List BatchIdentity × List Json) := do
  require (batch.identity ∉ acc.1) ("duplicate page batch: " ++ codec.identityRepr batch.identity)
  let file ← getRow (fileAt files batch.location) "FileNotFoundError"
  require (codec.fileSha256 file.lines = batch.sha256 ∧ codec.fileSize file.lines = batch.size)
    ("staged batch checksum mismatch: " ++ batch.location)
  pure (acc.1 ++ [batch.identity], acc.2 ++ file.lines)

/-- `LocalArtifactStore.publish_dataset`. -/
def publishObject (codec : ArtifactCodec) (files : List StoredFile)
    (jobId dataset contractVersion : String) (batches : List StoredBatch) :
    Except String (StoredObject × List StoredFile) := do
  codec.component jobId
  codec.component dataset
  codec.component contractVersion
  let (_, lines) ← batches.foldlM (readBatch codec files) ([], [])
  let target := codec.publishedLocation jobId dataset contractVersion (codec.fileSha256 lines)
  match fileAt files target with
  | some existing =>
    require (codec.fileSha256 existing.lines = codec.fileSha256 lines)
      ("published artifact checksum mismatch at " ++ target)
    pure (⟨target, codec.fileSha256 existing.lines, codec.fileSize existing.lines, lines.length⟩,
      files)
  | none => pure (codec.object target lines, files ++ [⟨target, lines⟩])

/-! ## One round of the pipeline -/

/-- What `ConnectorPipeline` is given for a job. -/
structure Projection where
  jobId : String
  /-- `project_validated` of a dataset on one entity: its records, unless it raises. -/
  project : DatasetKey → Json → Except String (List Json)

/-- `_records`: the records of the items of a page. -/
def Projection.records (projection : Projection) (key : DatasetKey) (items : List Json) :
    Except String (List Json) :=
  (items.mapM (projection.project key)).map List.flatten

/-- The identity of the batch of a dataset page. -/
def EntityPage.identity (page : EntityPage) (jobId lineage : String) (key : DatasetKey) :
    BatchIdentity where
  jobId := jobId
  checkpointLineage := lineage
  partitionKey := page.partitionKey
  pageId := page.pageId
  pageSequence := page.sequence
  dataset := key.dataset
  contractVersion := key.contractVersion
  projectorVersion := key.projectorVersion

/-- The locals of a round: the store, the datasets whose projector has failed, and what has been
staged of the page. -/
structure Staged where
  files : List StoredFile
  failed : List DatasetKey
  batches : List StoredBatch := []
  outcomes : List DatasetOutcome := []
  deriving DecidableEq, Repr

/-- The body of the loop over the selected datasets. -/
def stageDataset (codec : ArtifactCodec) (projection : Projection) (lineage : String)
    (page : EntityPage) (s : Staged) (key : DatasetKey) : Staged :=
  if key ∈ s.failed then { s with outcomes := s.outcomes ++ [⟨key, .skipped, 0, none⟩] }
  else
    match stageBatch codec s.files (page.identity projection.jobId lineage key)
        (projection.records key page.items) with
    | .error e =>
      { s with
        failed := s.failed ++ [key]
        outcomes := s.outcomes ++ [⟨key, .failed, 0, some e⟩] }
    | .ok (batch, files) =>
      { s with
        files := files
        batches := s.batches ++ [batch]
        outcomes := s.outcomes ++ [⟨key, .succeeded, batch.records, none⟩] }

/-- The datasets of a page are staged one after another. -/
def stagePage (codec : ArtifactCodec) (projection : Projection) (lineage : String)
    (datasets : List DatasetKey) (page : EntityPage) (files : List StoredFile)
    (failed : List DatasetKey) : Staged :=
  datasets.foldl (stageDataset codec projection lineage page) { files, failed }

/-- A batch as `commit_page` takes it. -/
def StoredBatch.pageBatch (b : StoredBatch) : PageBatch where
  key := ⟨b.identity.dataset, b.identity.contractVersion, b.identity.projectorVersion⟩
  objectKey := b.location
  sha256 := b.sha256
  size := b.size
  records := b.records

/-- The arguments that `PostgresPageCommitter.commit_page` hands on. -/
def EntityPage.commit (page : EntityPage) (connectorVersion : String) (dynamicPartitions : Bool)
    (batches : List StoredBatch) (outcomes : List DatasetOutcome) : PageCommit where
  partitionKey := page.partitionKey
  pageId := page.pageId
  sequence := page.sequence
  resumeAfter := page.resumeAfter
  terminal := page.partitionTerminal || page.terminal
  enumerationIntact := page.enumerationIntact
  connectorVersion := connectorVersion
  batches := batches.map StoredBatch.pageBatch
  outcomes := some outcomes
  declarePartition := dynamicPartitions

/-- `PipelineResult`. -/
structure PipelineResult where
  pages : ℕ
  terminal : Bool
  enumerationIntact : Bool
  limited : Bool
  /-- The datasets whose state is `failed`. -/
  failed : List DatasetKey
  deriving DecidableEq, Repr

/-- `_connector_load_is_whole`. -/
def PipelineResult.whole (r : PipelineResult) : Bool := r.terminal && r.enumerationIntact

/-- The locals of `ConnectorPipeline.run` between two pages. -/
structure PipelineRun where
  failed : List DatasetKey
  pages : ℕ := 0
  terminal : Bool := false
  intact : Bool := true
  limited : Bool := false
  deriving DecidableEq, Repr

namespace PipelineRun

/-- The locals after a page was committed. -/
def next (r : PipelineRun) (page : EntityPage) (staged : Staged) : PipelineRun where
  failed := staged.failed
  pages := r.pages + 1
  terminal := page.terminal
  intact := r.intact && page.enumerationIntact
  limited := r.limited || page.limited

/-- The result of a run, with the check of `PipelineResult.__post_init__`. -/
def result (r : PipelineRun) : Except String PipelineResult := do
  require (r.limited = true → r.terminal = true ∧ r.intact = false)
    "a result-limited pipeline must terminate with an incomplete enumeration"
  pure { pages := r.pages, terminal := r.terminal, enumerationIntact := r.intact,
         limited := r.limited, failed := r.failed }

end PipelineRun

/-! ## The store only grows -/

variable {codec : ArtifactCodec} {files files' : List StoredFile}

/-- Every file is still there. -/
def Extends (files files' : List StoredFile) : Prop :=
  ∀ location f, fileAt files location = some f → fileAt files' location = some f

theorem Extends.refl (files : List StoredFile) : Extends files files := fun _ _ h => h

theorem Extends.trans {files'' : List StoredFile} (h : Extends files files')
    (h' : Extends files' files'') : Extends files files'' :=
  fun location f hf => h' location f (h location f hf)

theorem extends_append (files : List StoredFile) (f : StoredFile) : Extends files (files ++ [f]) := by
  intro location g hg
  rw [fileAt, List.find?_append]
  have hold : files.find? (fun f => f.location == location) = some g := hg
  rw [hold]
  rfl

theorem fileAt_append {location : String} (hnone : fileAt files location = none)
    (lines : List Json) :
    fileAt (files ++ [⟨location, lines⟩]) location = some ⟨location, lines⟩ := by
  have hold : files.find? (fun f => f.location == location) = none := hnone
  rw [fileAt, List.find?_append, hold]
  simp

/-- **What staging a batch does.**  The records are written, or a file with their digest is found;
the batch describes the file under its name. -/
theorem stageBatch_ok {identity : BatchIdentity} {records : Except String (List Json)}
    {batch : StoredBatch} (h : stageBatch codec files identity records = .ok (batch, files')) :
    ∃ lines f, records = .ok lines ∧ Extends files files' ∧ batch.identity = identity ∧
      batch.location = codec.stagedLocation identity ∧ batch.records = lines.length ∧
      fileAt files' batch.location = some f ∧ batch.sha256 = codec.fileSha256 f.lines ∧
      batch.size = codec.fileSize f.lines ∧ codec.fileSha256 f.lines = codec.fileSha256 lines ∧
      (fileAt files batch.location = none → f.lines = lines) := by
  unfold stageBatch at h
  simp only [bind_eq_ok] at h
  obtain ⟨-, -, lines, hlines, h⟩ := h
  split at h
  · next existing hfile =>
    simp only [bind_eq_ok, require_eq_ok, pure_eq_ok, exists_const, Prod.mk.injEq] at h
    obtain ⟨hsame, rfl, rfl⟩ := h
    refine ⟨lines, existing, hlines, .refl _, rfl, rfl, rfl, hfile, rfl, rfl, hsame, fun hnone => ?_⟩
    rw [hfile] at hnone
    exact absurd hnone (by simp)
  · next hnone =>
    obtain ⟨rfl, rfl⟩ := Prod.mk.inj (pure_eq_ok.mp h)
    exact ⟨lines, _, hlines, extends_append _ _, rfl, rfl, rfl, fileAt_append hnone lines, rfl, rfl,
      rfl, fun _ => rfl⟩

theorem extends_stagePage (projection : Projection) (lineage : String)
    (datasets : List DatasetKey) (page : EntityPage) (files : List StoredFile)
    (failed : List DatasetKey) :
    Extends files (stagePage codec projection lineage datasets page files failed).files := by
  refine Trace.exec_invariant (stageDataset codec projection lineage page)
    (I := fun s => Extends files s.files) (fun s key h => ?_) (.refl files) datasets
  unfold stageDataset
  split
  · exact h
  · split
    · exact h
    · next batch files' hok =>
      obtain ⟨-, -, -, hextends, -⟩ := stageBatch_ok hok
      exact h.trans hextends

/-- The lines of the file at a location. -/
def linesAt (files : List StoredFile) (location : String) : List Json :=
  ((fileAt files location).map StoredFile.lines).getD []

theorem Extends.linesAt_eq (h : Extends files files') {location : String}
    (hfile : (fileAt files location).isSome = true) : linesAt files' location = linesAt files location := by
  obtain ⟨f, hf⟩ := Option.isSome_iff_exists.mp hfile
  rw [linesAt, linesAt, hf, h location f hf]

/-- The file of a batch is there and has the digest and the size of the batch. -/
structure Intact (codec : ArtifactCodec) (files : List StoredFile) (location : String)
    (sha256 : Digest) (size : ℕ) : Prop where
  present : (fileAt files location).isSome = true
  sha256 : codec.fileSha256 (linesAt files location) = sha256
  size : codec.fileSize (linesAt files location) = size

theorem Intact.mono (h : Extends files files') {location : String} {sha256 : Digest} {size : ℕ}
    (hi : Intact codec files location sha256 size) : Intact codec files' location sha256 size := by
  obtain ⟨f, hf⟩ := Option.isSome_iff_exists.mp hi.present
  refine ⟨?_, ?_, ?_⟩
  · rw [h location f hf]
    rfl
  · rw [h.linesAt_eq hi.present]
    exact hi.sha256
  · rw [h.linesAt_eq hi.present]
    exact hi.size

/-- Reading the batches checks every file and returns all lines in order. -/
theorem readBatches_ok {batches : List StoredBatch} {acc acc' : List BatchIdentity × List Json}
    (h : batches.foldlM (readBatch codec files) acc = .ok acc') :
    acc'.2 = acc.2 ++ batches.flatMap (fun b => linesAt files b.location) ∧
      ∀ b ∈ batches, Intact codec files b.location b.sha256 b.size := by
  induction batches generalizing acc with
  | nil =>
    rw [List.foldlM_nil, pure_eq_ok] at h
    simp [h]
  | cons b batches ih =>
    rw [List.foldlM_cons, bind_eq_ok] at h
    obtain ⟨t, hfirst, hrest⟩ := h
    unfold readBatch at hfirst
    simp only [bind_eq_ok, getRow_eq_ok, require_eq_ok, pure_eq_ok, exists_const] at hfirst
    obtain ⟨-, f, hf, ⟨hsha, hsize⟩, rfl⟩ := hfirst
    have hlines : linesAt files b.location = f.lines := by rw [linesAt, hf]; rfl
    obtain ⟨hacc, hall⟩ := ih hrest
    refine ⟨?_, fun b' hb' => ?_⟩
    · rw [hacc, List.flatMap_cons, hlines, List.append_assoc]
    · rcases List.mem_cons.mp hb' with rfl | htail
      · exact ⟨by rw [hf]; rfl, by rw [hlines, hsha], by rw [hlines, hsize]⟩
      · exact hall b' htail

/-- **What a publication does.**  Every batch is read from an intact file, and the object describes
a file with the digest of all their lines. -/
theorem publishObject_ok {jobId dataset contractVersion : String} {batches : List StoredBatch}
    {object : StoredObject}
    (h : publishObject codec files jobId dataset contractVersion batches = .ok (object, files')) :
    Extends files files' ∧ (∀ b ∈ batches, Intact codec files b.location b.sha256 b.size) ∧
      (fileAt files' object.location).isSome = true ∧
      codec.fileSha256 (linesAt files' object.location) =
        codec.fileSha256 (batches.flatMap fun b => linesAt files b.location) := by
  unfold publishObject at h
  simp only [bind_eq_ok] at h
  obtain ⟨-, -, -, -, -, -, ⟨seen, lines⟩, hread, h⟩ := h
  obtain ⟨hlines, hall⟩ := readBatches_ok hread
  rw [List.nil_append] at hlines
  obtain rfl : lines = batches.flatMap fun b => linesAt files b.location := hlines
  dsimp only at h
  split at h
  · next existing hfile =>
    simp only [bind_eq_ok, require_eq_ok, pure_eq_ok, exists_const, Prod.mk.injEq] at h
    obtain ⟨hsame, rfl, rfl⟩ := h
    refine ⟨.refl _, hall, by rw [hfile]; rfl, ?_⟩
    rw [linesAt, hfile]
    exact hsame
  · next hnone =>
    obtain ⟨rfl, rfl⟩ := Prod.mk.inj (pure_eq_ok.mp h)
    have hnew := fileAt_append hnone (batches.flatMap fun b => linesAt files b.location)
    refine ⟨extends_append _ _, hall, ?_, ?_⟩
    · rw [ArtifactCodec.object, hnew]
      rfl
    · rw [linesAt, ArtifactCodec.object, hnew]
      rfl

end CommerceCollector
