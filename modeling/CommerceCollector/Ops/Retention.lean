import CommerceCollector.Lineage.Manifest

/-!
# Artifact retention

`ops/retention.py`: `SELECT_CANDIDATES` over the tables `jobs`, `job_datasets` and `job_artifacts`,
`select`, which turns the selected rows into targets below the artifact directory, and `execute`,
which for one target after another commits the reference change and then unlinks the file.

An output is an artifact of a usable dataset, or the `artifact_path` of a job without datasets.  The
outputs of a source and dataset are ranked from the newest on; outputs of one job that share the
moment come in any order, and `Ranking` is the order that the database has chosen.
-/

namespace CommerceCollector.Retention

open Relational

/-! ## The tables -/

/-- The members of `jobs.summary` that retention reads and writes. -/
structure Summary where
  writeStatus : Option String := none
  truncated : Option Bool := none
  interrupted : Option Bool := none
  artifactUnavailable : Bool := false
  artifactRetainedSha256 : Option Digest := none
  deriving DecidableEq, Repr

/-- The columns of `catalogue.jobs` that retention and the backup read. -/
structure Job where
  id : Uuid
  sourceId : String
  state : JobState
  finishedAt : Option Time
  artifactPath : Option String
  artifactSha256 : Option Digest := none
  summary : Summary := {}
  deriving DecidableEq, Repr

/-- The columns of `catalogue.job_datasets` that retention reads. -/
structure JobDataset where
  jobId : Uuid
  key : DatasetKey
  state : DatasetState
  complete : Bool
  deriving DecidableEq, Repr

/-- The columns of `catalogue.job_artifacts` that retention and the backup read. -/
structure JobArtifact where
  id : Uuid
  jobId : Uuid
  key : DatasetKey
  location : String
  sha256 : Digest
  available : Bool := true
  retainedAt : Option Time := none
  deriving DecidableEq, Repr

/-- The three tables with their keys. -/
structure Tables where
  jobs : List Job
  datasets : List JobDataset
  artifacts : List JobArtifact
  /-- `jobs_pkey`. -/
  jobs_keyed : Keyed Job.id jobs
  /-- `job_datasets_pkey`. -/
  datasets_keyed : Keyed (fun d => (d.jobId, d.key)) datasets
  /-- `job_artifacts_pkey`. -/
  artifacts_keyed : Keyed JobArtifact.id artifacts

/-- `make_interval(days => n)`. -/
def days (n : ℕ) : Time := secs (n * 86400)

/-! ## References -/

/-- The row that records a path. -/
inductive RefId
  | artifact (id : Uuid)
  | job (id : Uuid)
  deriving DecidableEq, Repr

/-- A recorded path with its digest. -/
structure Reference where
  ref : RefId
  path : String
  sha256 : Option Digest
  deriving DecidableEq, Repr

/-- The available artifacts and the artifacts of the jobs, `ARTIFACT_REFERENCES` with the rows they
come from. -/
def references (db : Tables) : List Reference :=
  (db.jobs.filterMap fun j => j.artifactPath.map fun path => ⟨.job j.id, path, j.artifactSha256⟩) ++
    (db.artifacts.filter JobArtifact.available).map fun a =>
      ⟨.artifact a.id, a.location, some a.sha256⟩

/-! ## `SELECT_CANDIDATES` -/

/-- A row of `outputs`. -/
structure Output where
  id : Uuid
  sourceId : String
  state : JobState
  finishedAt : Option Time
  artifactPath : String
  artifactId : Option Uuid
  dataset : String
  usable : Bool
  deriving DecidableEq, Repr

/-- The output of an artifact; its job and its dataset are found by their primary keys. -/
def datasetOutput (db : Tables) (a : JobArtifact) : Option Output :=
  match db.jobs.find? fun j => j.id == a.jobId,
    db.datasets.find? fun d => d.jobId == a.jobId && d.key == a.key with
  | some j, some d =>
    if a.available && (d.state == .succeeded || d.state == .degraded) && d.complete then
      some
        { id := j.id, sourceId := j.sourceId, state := j.state, finishedAt := j.finishedAt,
          artifactPath := a.location, artifactId := some a.id, dataset := d.key.dataset, usable := true }
    else none
  | _, _ => none

/-- A job whose artifact counts as a success. -/
def Job.legacyUsable (j : Job) : Bool :=
  j.state == .succeeded ||
    j.state == .degraded && j.summary.writeStatus == some "replaced" &&
      !j.summary.truncated.getD false && !j.summary.interrupted.getD false

/-- The output of a job without datasets. -/
def legacyOutput (db : Tables) (j : Job) : Option Output :=
  match j.artifactPath with
  | some path =>
    if db.datasets.any fun d => d.jobId == j.id then none
    else
      some
        { id := j.id, sourceId := j.sourceId, state := j.state, finishedAt := j.finishedAt,
          artifactPath := path, artifactId := none, dataset := "legacy", usable := j.legacyUsable }
  | none => none

/-- `outputs`. -/
def outputs (db : Tables) : List Output :=
  db.artifacts.filterMap (datasetOutput db) ++ db.jobs.filterMap (legacyOutput db)

/-- `order by o.finished_at desc nulls last, o.id desc`. -/
def Newer (o p : Output) : Prop :=
  match o.finishedAt, p.finishedAt with
  | some s, some t => t < s ∨ s = t ∧ p.id ≤ o.id
  | some _, none => True
  | none, some _ => False
  | none, none => p.id ≤ o.id

instance : DecidableRel Newer := fun o p => by
  unfold Newer
  split <;> infer_instance

/-- An order of the outputs in which the window functions may count. -/
structure Ranking (db : Tables) where
  order : List Output
  perm : order.Perm (outputs db)
  sorted : order.Pairwise Newer

/-- A row of `ranked`: an output and its `successful_rank`. -/
structure Ranked where
  output : Output
  successfulRank : ℕ
  deriving DecidableEq, Repr

/-- The outputs behind some outputs, with their ranks. -/
def rankFrom (seen : List Output) : List Output → List Ranked
  | [] => []
  | o :: os =>
    { output := o
      successfulRank := (seen ++ [o]).countP fun p =>
        p.usable && p.sourceId == o.sourceId && p.dataset == o.dataset } ::
      rankFrom (seen ++ [o]) os

/-- `ranked`. -/
def ranked {db : Tables} (r : Ranking db) : List Ranked := rankFrom [] r.order

/-- The `where` clause of `candidates`. -/
def Ranked.expired (now : Time) (c : Ranked) : Bool :=
  c.output.finishedAt.any fun finished =>
    c.output.usable && decide (2 < c.successfulRank) && decide (finished + days 14 < now) ||
      [JobState.degraded, .failed, .cancelled].contains c.output.state &&
        decide (finished + days 30 < now)

/-- `candidates`. -/
def candidates {db : Tables} (r : Ranking db) (now : Time) : List Ranked :=
  (ranked r).filter (Ranked.expired now)

/-- Another job that loses nothing records the same path. -/
def shielded {db : Tables} (r : Ranking db) (now : Time) (c : Ranked) : Bool :=
  (ranked r).any fun retained =>
    retained.output.artifactPath == c.output.artifactPath && retained.output.id != c.output.id &&
      !(candidates r now).any fun c2 => c2.output.id == retained.output.id

/-- `order by c.finished_at, c.id`. -/
def older (c d : Ranked) : Bool :=
  decide (c.output.finishedAt.getD 0 < d.output.finishedAt.getD 0) ||
    decide (c.output.finishedAt.getD 0 = d.output.finishedAt.getD 0) &&
      decide (c.output.id ≤ d.output.id)

/-- `SELECT_CANDIDATES`. -/
def selectCandidates {db : Tables} (r : Ranking db) (now : Time) : List Ranked :=
  ((candidates r now).filter fun c => !shielded r now c).insertionSort fun c d => older c d = true

/-! ## Targets -/

/-- A file system with the artifact directory: where a recorded path leads, which paths lie below
the directory, the size and the digest of a content. -/
structure Host (γ : Type*) where
  resolve : String → String
  inside : String → Bool
  size : γ → ℕ
  sha256 : γ → Digest

/-- The files with their contents. -/
abbrev Files (γ : Type*) := List (String × γ)

/-- `path.read_bytes()`, if the file exists. -/
def Files.read {γ : Type*} (files : Files γ) (path : String) : Option γ := files.lookup path

/-- `path.unlink(missing_ok=True)`. -/
def Files.unlink {γ : Type*} (files : Files γ) (path : String) : Files γ :=
  files.filter fun f => f.1 != path

/-- `RetentionTarget`. -/
structure Target where
  jobId : Uuid
  sourceId : String
  path : String
  bytes : ℕ
  artifactId : Option Uuid
  deriving DecidableEq, Repr

/-- `RetentionReport`. -/
structure Report where
  targets : List Target
  missing : ℕ
  deriving DecidableEq, Repr

variable {γ : Type*}

/-- The target of a selected row. -/
def target (host : Host γ) (files : Files γ) (c : Ranked) : Target :=
  let path := host.resolve c.output.artifactPath
  { jobId := c.output.id, sourceId := c.output.sourceId, path := path
    bytes := ((files.read path).map host.size).getD 0, artifactId := c.output.artifactId }

/-- `select(connection, root)`. -/
def select (host : Host γ) (files : Files γ) {db : Tables} (r : Ranking db) (now : Time) :
    Except String Report :=
  let rows := selectCandidates r now
  match rows.find? fun c => !host.inside (host.resolve c.output.artifactPath) with
  | some c => .error s!"artifact path is outside retention root: {c.output.artifactPath}"
  | none =>
    .ok
      { targets := rows.map (target host files)
        missing := rows.countP fun c =>
          (files.read (host.resolve c.output.artifactPath)).isNone }

/-! ## Execution -/

/-- `available = false, retained_at = now()`. -/
def JobArtifact.retire (now : Time) (a : JobArtifact) : JobArtifact :=
  { a with available := false, retainedAt := some now }

/-- `artifact_path = null`, with the digest kept in the summary. -/
def Job.retire (j : Job) : Job :=
  { j with
    artifactPath := none
    summary :=
      { j.summary with artifactUnavailable := true, artifactRetainedSha256 := j.artifactSha256 } }

/-- The rows that the update of a target selects. -/
def Tables.named (db : Tables) (t : Target) : ℕ :=
  match t.artifactId with
  | some id => db.artifacts.countP fun a => a.id == id && a.available
  | none => db.jobs.countP fun j => j.id == t.jobId && j.artifactPath.isSome

/-- The reference change of a target. -/
def Tables.retire (db : Tables) (now : Time) (t : Target) : Tables :=
  match t.artifactId with
  | some id =>
    { db with
      artifacts := update (fun a => a.id == id && a.available) (JobArtifact.retire now) db.artifacts
      artifacts_keyed := db.artifacts_keyed.update fun _ => rfl }
  | none =>
    { db with
      jobs := update (fun j => j.id == t.jobId && j.artifactPath.isSome) Job.retire db.jobs
      jobs_keyed := db.jobs_keyed.update fun _ => rfl }

/-- What `execute` leaves: the tables, the files, the paths it has unlinked, and its error. -/
structure Swept (γ : Type*) where
  tables : Tables
  files : Files γ
  unlinked : List String := []
  error : Option String := none

/-- `execute(connection, report)`. -/
def execute (now : Time) (s : Swept γ) : List Target → Swept γ
  | [] => s
  | t :: ts =>
    if s.tables.named t = 1 then
      execute now
        { s with
          tables := s.tables.retire now t
          files := s.files.unlink t.path
          unlinked := s.unlinked ++ [t.path] } ts
    else { s with error := some s!"artifact retention target changed: {t.jobId}" }

/-- `select` and, if it returns, `execute`. -/
def sweep (host : Host γ) (files : Files γ) {db : Tables} (r : Ranking db) (now : Time) : Swept γ :=
  match select host files r now with
  | .ok report => execute now { tables := db, files := files } report.targets
  | .error message => { tables := db, files := files, error := some message }

end CommerceCollector.Retention
