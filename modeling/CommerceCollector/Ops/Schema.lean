import CommerceCollector.Foundation.Table
import CommerceCollector.Foundation.Trace

/-!
# The operational schema

The rows of the `catalogue` schema that the job queue reads and writes (`catalogue.runs`,
`catalogue.jobs`, `catalogue.queue_outbox`, `catalogue.source_settings`, `catalogue.hosts`,
`catalogue.host_leases`, `catalogue.event_log`) and the database `Db` made of these tables.

Identifiers drawn by `gen_random_uuid()` and `uuid4()` are natural numbers; a nullable column is an
`Option`, and a comparison with a null column is false as in SQL.  Timestamps count microseconds.
Columns that no modelled statement reads (artifact paths, proxy snapshots, run parameters, event
payloads) are left out.
-/

namespace CommerceCollector

/-- A `uuid` value. -/
abbrev Uuid := ℕ

/-- A `timestamp with time zone`, in microseconds. -/
abbrev Time := ℕ

/-- A `sha256` digest. -/
abbrev Digest := BitVec 256

/-- `make_interval(secs => n)`. -/
def secs (n : ℕ) : Time := n * 1000000

/-! ## Enumerations -/

/-- `jobs_state_check`. -/
inductive JobState
  | queued | leased | running | paused | succeeded | degraded | failed | cancelled | skipped
  deriving DecidableEq, Repr

/-- `TERMINAL`: succeeded, degraded, failed, cancelled and skipped. -/
def JobState.terminal : JobState → Bool
  | .succeeded | .degraded | .failed | .cancelled | .skipped => true
  | .queued | .leased | .running | .paused => false

/-- `runs_status_check`. -/
inductive RunStatus
  | queued | running | complete | degraded | failed | cancelled
  deriving DecidableEq, Repr

/-- The statuses `_close_run_if_done` writes. -/
def RunStatus.closed : RunStatus → Bool
  | .complete | .degraded | .failed | .cancelled => true
  | .queued | .running => false

/-- `BrowserBackendName`. -/
inductive BrowserBackend
  | camoufox | cdpExtensionProxy
  deriving DecidableEq, Repr

/-- An advertised or required capability: `browser`, `browser:<backend>`, or any other text. -/
inductive Capability
  | browser
  | backend (b : BrowserBackend)
  | other (text : String)
  deriving DecidableEq, Repr

/-- `ROUTES`: `plain.normal`, `browser.auto.normal` and `browser.<backend>.normal`. -/
inductive Route
  | plain
  | browserAuto
  | browser (b : BrowserBackend)
  deriving DecidableEq, Repr

/-! ## Rows -/

/-- The part of `catalogue.jobs.summary` that closing a run adds up. -/
structure JobSummary where
  records : Option ℕ := none
  requests : Option ℕ := none
  deriving DecidableEq, Repr

/-- A row of `catalogue.jobs`. -/
structure Job where
  id : Uuid
  runId : Uuid
  sourceId : String
  host : String
  state : JobState
  priority : ℕ
  attempt : ℕ
  maxAttempts : ℕ
  requires : List Capability
  requiresAny : List Capability
  scheduledFor : Time
  leaseOwner : Option Uuid
  leaseExpiresAt : Option Time
  cancelRequested : Bool
  pauseRequested : Bool
  resumeWithoutAttempt : Bool
  startedAt : Option Time
  finishedAt : Option Time
  error : Option String
  traceId : Option String
  summary : Option JobSummary
  selectedBrowserBackend : Option BrowserBackend
  deliveryGeneration : ℕ
  executionToken : Option Uuid
  pausedBySource : Bool
  deriving DecidableEq, Repr

/-- The counts `_close_run_if_done` computes and stores as `catalogue.runs.summary`. -/
structure RunSummary where
  succeeded : ℕ
  degraded : ℕ
  failed : ℕ
  cancelled : ℕ
  skipped : ℕ
  records : ℕ
  requests : ℕ
  deriving DecidableEq, Repr

/-- A row of `catalogue.runs`; `occurrence` is `(schedule_id, scheduled_fire_at)`. -/
structure Run where
  id : Uuid
  occurrence : Option (String × Time)
  status : RunStatus
  startedAt : Option Time
  finishedAt : Option Time
  summary : Option RunSummary
  deriving DecidableEq, Repr

/-- `JobEnvelope`: what a broker message carries. -/
structure JobEnvelope where
  jobId : Uuid
  runId : Uuid
  sourceId : String
  generation : ℕ
  route : Route
  priority : ℕ
  enqueuedAt : Time
  deriving DecidableEq, Repr

/-- `JobEnvelope.deduplication_key`: the job and its generation. -/
def JobEnvelope.deduplicationKey (e : JobEnvelope) : Uuid × ℕ := (e.jobId, e.generation)

/-- A row of `catalogue.queue_outbox`. -/
structure OutboxRow where
  id : ℕ
  jobId : Uuid
  generation : ℕ
  payload : JobEnvelope
  availableAt : Time
  publishedAt : Option Time
  cancelledAt : Option Time
  publishAttempts : ℕ
  lastError : Option String
  deriving DecidableEq, Repr

/-- The key of `queue_outbox_job_id_generation_key`. -/
def OutboxRow.key (o : OutboxRow) : Uuid × ℕ := (o.jobId, o.generation)

/-- A row of `catalogue.source_settings`. -/
structure SourceSetting where
  sourceId : String
  enabled : Bool
  paused : Bool
  deriving DecidableEq, Repr

/-- A row of `catalogue.hosts`. -/
structure Host where
  host : String
  maxConcurrency : ℕ
  deriving DecidableEq, Repr

/-- A row of `catalogue.host_leases`. -/
structure HostLease where
  host : String
  slot : ℕ
  leasedBy : Option Uuid
  jobId : Option Uuid
  leasedUntil : Option Time
  executionToken : Option Uuid
  deriving DecidableEq, Repr

/-- The primary key of `catalogue.host_leases`. -/
def HostLease.key (l : HostLease) : String × ℕ := (l.host, l.slot)

/-- The four actions of `job_action`. -/
inductive JobAction
  | pause | resume | cancel | retry
  deriving DecidableEq, Repr

/-- `event_log.type`. -/
inductive EventType
  | runCreated
  | runPlanned
  | runStarted
  | runClosed (status : RunStatus)
  | jobLeased
  | jobStarted
  | jobReleased
  | jobRequeued
  | jobPaused
  | jobEnded (state : JobState)
  | jobRequested (action : JobAction)
  | sourceChanged
  deriving DecidableEq, Repr

/-- A row of `catalogue.event_log`. -/
structure Event where
  type : EventType
  runId : Option Uuid := none
  jobId : Option Uuid := none
  workerId : Option Uuid := none
  sourceId : Option String := none
  deriving DecidableEq, Repr

/-- A catalogue load committed by `Worker._load_fenced`, under the token it was fenced with. -/
structure CatalogueLoad where
  jobId : Uuid
  executionToken : Uuid
  deriving DecidableEq, Repr

/-- The tables of the queue. -/
structure Db where
  runs : List Run := []
  jobs : List Job := []
  outbox : List OutboxRow := []
  sourceSettings : List SourceSetting := []
  hosts : List Host := []
  hostLeases : List HostLease := []
  eventLog : List Event := []
  loads : List CatalogueLoad := []
  deriving DecidableEq, Repr

/-! ## Reading the tables -/

namespace Db

/-- The row of `catalogue.jobs` with a given id. -/
def job? (db : Db) (jobId : Uuid) : Option Job := db.jobs.find? fun j => j.id == jobId

/-- The jobs of one run. -/
def runJobs (db : Db) (runId : Uuid) : List Job := db.jobs.filter fun j => j.runId == runId

/-- The settings of a source, if it has any. -/
def setting? (db : Db) (sourceId : String) : Option SourceSetting :=
  db.sourceSettings.find? fun s => s.sourceId == sourceId

/-- `coalesce(s.enabled, true)`. -/
def sourceEnabled (db : Db) (sourceId : String) : Bool :=
  ((db.setting? sourceId).map SourceSetting.enabled).getD true

/-- `coalesce(s.paused, false)`. -/
def sourcePaused (db : Db) (sourceId : String) : Bool :=
  ((db.setting? sourceId).map SourceSetting.paused).getD false

/-- `events.emit`. -/
def emit (db : Db) (e : Event) : Db := { db with eventLog := db.eventLog ++ [e] }

/-- `update catalogue.jobs set f where p`. -/
def updateJobs (db : Db) (p : Job → Bool) (f : Job → Job) : Db :=
  { db with jobs := Relational.update p f db.jobs }

/-- `update catalogue.host_leases set f where p`. -/
def updateLeases (db : Db) (p : HostLease → Bool) (f : HostLease → HostLease) : Db :=
  { db with hostLeases := Relational.update p f db.hostLeases }

/-! ### Frame lemmas -/

section Frame

variable (db : Db) (e : Event) (p : Job → Bool) (f : Job → Job) (q : HostLease → Bool)
  (g : HostLease → HostLease)

@[simp] theorem emit_runs : (db.emit e).runs = db.runs := rfl

@[simp] theorem emit_jobs : (db.emit e).jobs = db.jobs := rfl

@[simp] theorem emit_outbox : (db.emit e).outbox = db.outbox := rfl

@[simp] theorem emit_hostLeases : (db.emit e).hostLeases = db.hostLeases := rfl

@[simp] theorem emit_eventLog : (db.emit e).eventLog = db.eventLog ++ [e] := rfl

@[simp] theorem updateJobs_jobs : (db.updateJobs p f).jobs = Relational.update p f db.jobs := rfl

@[simp] theorem updateJobs_outbox : (db.updateJobs p f).outbox = db.outbox := rfl

@[simp] theorem updateJobs_hostLeases : (db.updateJobs p f).hostLeases = db.hostLeases := rfl

@[simp] theorem updateLeases_jobs : (db.updateLeases q g).jobs = db.jobs := rfl

@[simp] theorem updateLeases_outbox : (db.updateLeases q g).outbox = db.outbox := rfl

@[simp] theorem updateLeases_hostLeases :
    (db.updateLeases q g).hostLeases = Relational.update q g db.hostLeases := rfl

end Frame

end Db

/-! ## Job rows -/

namespace Job

/-- `lease_owner = null, lease_expires_at = null, execution_token = null`. -/
def dropLease (j : Job) : Job :=
  { j with leaseOwner := none, leaseExpiresAt := none, executionToken := none }

/-- `state in ('leased', 'running')`. -/
def executing (j : Job) : Bool := j.state == .leased || j.state == .running

/-- `state in ('queued', 'leased', 'running')`: the job still waits for work on its current
generation. -/
def live (j : Job) : Bool := j.state == .queued || j.state == .leased || j.state == .running

/-- `state in ('queued', 'leased', 'paused')`: an operator can end the job at once. -/
def idle (j : Job) : Bool := j.state == .queued || j.state == .leased || j.state == .paused

/-- `lease_expires_at > now()`. -/
def leaseLive (j : Job) (now : Time) : Bool := j.leaseExpiresAt.any fun t => decide (now < t)

/-- `attempt >= max_attempts and not resume_without_attempt`. -/
def exhausted (j : Job) : Bool := decide (j.maxAttempts ≤ j.attempt) && !j.resumeWithoutAttempt

/-- `lease_owner = worker and execution_token = token`. -/
def ownedBy (j : Job) (worker token : Uuid) : Bool :=
  j.leaseOwner == some worker && j.executionToken == some token

/-- `(job_id, delivery_generation)`, the key under which the current generation is delivered. -/
def deliveryKey (j : Job) : Uuid × ℕ := (j.id, j.deliveryGeneration)

end Job

end CommerceCollector
