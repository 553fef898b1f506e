import CommerceCollector.Ops.Runs

/-!
# Reserving, executing and repairing jobs

PostgreSQL job state and fencing for broker-delivered work (`ops/queue.py`).  Workers never scan for
work: they reserve the exact generation named by a delivery, and every execution-owned mutation
compares a random execution token.

`reserve` first decides (`reserveBranch`, one constructor for each `return` of the source) and then
acts on the decision.  The remaining statements are one update each: a where clause and a set
clause on the job row, named after the source function.
-/

namespace CommerceCollector

/-- `LEASE_SECONDS`. -/
def leaseSeconds : ℕ := 300

/-- `HOST_BACKOFF_SECONDS`. -/
def hostBackoffSeconds : ℕ := 30

/-- `TRANSIENT_BACKOFF_SECONDS`. -/
def transientBackoffSeconds : ℕ := 300

/-- `ClaimedJob`: what a worker remembers of the row it reserved. -/
structure ClaimedJob where
  id : Uuid
  runId : Uuid
  sourceId : String
  host : String
  attempt : ℕ
  maxAttempts : ℕ
  requires : List Capability
  requiresAny : List Capability
  deliveryGeneration : ℕ
  executionToken : Uuid
  selectedBrowserBackend : Option BrowserBackend
  deriving DecidableEq, Repr

/-- `ClaimedJob.from_row`, for a row reserved under `token`. -/
def Job.claimed (j : Job) (token : Uuid) : ClaimedJob where
  id := j.id
  runId := j.runId
  sourceId := j.sourceId
  host := j.host
  attempt := j.attempt
  maxAttempts := j.maxAttempts
  requires := j.requires
  requiresAny := j.requiresAny
  deliveryGeneration := j.deliveryGeneration
  executionToken := token
  selectedBrowserBackend := j.selectedBrowserBackend

/-- `Reservation`: run the claimed job, acknowledge the delivery, or retry it later. -/
inductive Reservation
  | run (job : ClaimedJob)
  | ack
  | retry (after : Time)
  deriving DecidableEq, Repr

/-- How the broker answered one `publish` of the dispatcher. -/
inductive PublishOutcome
  | confirmed
  | raised (error : String)
  deriving DecidableEq, Repr

/-! ## Deciding a reservation -/

/-- The ways `reserve` can return. -/
inductive ReserveBranch
  /-- No such job, or the delivery names another generation. -/
  | stale
  /-- The job has already ended. -/
  | terminal
  /-- The source is disabled or a cancellation was requested: the job ends in `state`. -/
  | withdrawn (row : Job) (state : JobState)
  /-- The source or the job is paused. -/
  | held
  /-- The job is scheduled for later. -/
  | early (after : Time)
  /-- Another execution holds a live lease. -/
  | conflict (after : Time)
  /-- No attempt is left. -/
  | exhausted (row : Job)
  /-- The worker lacks a required capability, or the selected backend. -/
  | incapable
  /-- No advertised backend matches, or the delivery names another backend. -/
  | unmatched
  /-- The delivery came over another route than the row asks for now. -/
  | reroute (row : Job) (selected : Option BrowserBackend)
  /-- The job is claimed. -/
  | claim (row : Job) (selected : Option BrowserBackend)
  deriving DecidableEq, Repr

/-- The backend a delivery selects: `none` when the delivery is acknowledged unmatched. -/
def selectBackend (row : Job) (route : Route) (capabilities : List Capability) :
    Option (Option BrowserBackend) :=
  match route, row.selectedBrowserBackend with
  | .browserAuto, none =>
    -- `sorted(...)[0]`: camoufox sorts before cdp_extension_proxy
    if .backend .camoufox ∈ capabilities ∧ .backend .camoufox ∈ row.requiresAny then
      some (some .camoufox)
    else if .backend .cdpExtensionProxy ∈ capabilities ∧
        .backend .cdpExtensionProxy ∈ row.requiresAny then
      some (some .cdpExtensionProxy)
    else none
  | .browser b, some selected => if selected = b then some (some selected) else none
  | .browser b, none => some (some b)
  | _, selected => some selected

/-- `f"browser:{selected}" in available`, when a backend is selected. -/
def backendAvailable (selected : Option BrowserBackend) (capabilities : List Capability) : Bool :=
  match selected with
  | none => true
  | some b => decide (.backend b ∈ capabilities)

/-- The part of `reserve` after the attempt check: capabilities, backend and route. -/
def routeBranch (row : Job) (route : Route) (capabilities : List Capability) : ReserveBranch :=
  if !row.requires.all fun c => decide (c ∈ capabilities) then .incapable
  else
    match selectBackend row route capabilities with
    | none => .unmatched
    | some selected =>
      if !backendAvailable selected capabilities then .incapable
      else if routeFor row.requires row.requiresAny selected ≠ route then .reroute row selected
      else .claim row selected

/-- What `reserve` decides for a delivery. -/
def Db.reserveBranch (db : Db) (now : Time) (env : JobEnvelope) (capabilities : List Capability) :
    ReserveBranch :=
  match db.job? env.jobId with
  | none => .stale
  | some row =>
    if row.deliveryGeneration ≠ env.generation then .stale
    else if row.state.terminal then .terminal
    else if !db.sourceEnabled row.sourceId || row.cancelRequested then
      .withdrawn row (if !db.sourceEnabled row.sourceId then .skipped else .cancelled)
    else if db.sourcePaused row.sourceId || row.pauseRequested || row.state == .paused then .held
    else if now < row.scheduledFor then .early (row.scheduledFor - now)
    else if row.executing && row.leaseLive now then
      .conflict (min (row.leaseExpiresAt.getD 0 - now) (secs 30))
    else if row.exhausted then .exhausted row
    else routeBranch row env.route capabilities

/-! ### What a decision means -/

/-- The row `reserve` has in hand once nothing holds the job back: the delivered generation, live,
and neither cancelled nor paused. -/
structure Job.Reservable (j : Job) (env : JobEnvelope) : Prop where
  generation : j.deliveryGeneration = env.generation
  live : j.live = true
  cancel : j.cancelRequested = false
  pause : j.pauseRequested = false

/-- The routing half of `reserve` decides about the row it was given. -/
theorem routeBranch_spec (row : Job) (route : Route) (caps : List Capability) :
    routeBranch row route caps = .incapable ∨ routeBranch row route caps = .unmatched ∨
      (∃ s, routeBranch row route caps = .reroute row s) ∨
      (∃ s, routeBranch row route caps = .claim row s) := by
  unfold routeBranch
  split
  · exact Or.inl rfl
  split
  · exact Or.inr (Or.inl rfl)
  · next s _ =>
    split
    · exact Or.inl rfl
    split
    · exact Or.inr (Or.inr (Or.inl ⟨s, rfl⟩))
    · exact Or.inr (Or.inr (Or.inr ⟨s, rfl⟩))

theorem Job.live_of_not_terminal {j : Job} (ht : j.state.terminal = false)
    (hp : j.state ≠ .paused) : j.live = true := by
  unfold Job.live
  cases hs : j.state <;> simp_all [JobState.terminal]

/-- What each decision of `reserve` that touches a row says about this row. -/
def ReserveBranch.Sound (db : Db) (env : JobEnvelope) : ReserveBranch → Prop
  | .withdrawn row state =>
    db.job? env.jobId = some row ∧ row.state.terminal = false ∧
      (state = .skipped ∨ state = .cancelled)
  | .exhausted row =>
    db.job? env.jobId = some row ∧ row.Reservable env ∧ row.exhausted = true
  | .reroute row _ | .claim row _ =>
    db.job? env.jobId = some row ∧ row.Reservable env ∧ row.exhausted = false
  | _ => True

/-- Every decision of `reserve` is sound. -/
theorem Db.reserveBranch_sound (db : Db) (now : Time) (env : JobEnvelope)
    (caps : List Capability) : (db.reserveBranch now env caps).Sound db env := by
  unfold Db.reserveBranch
  split
  · trivial
  next row hrow =>
  split
  · trivial
  next hgen =>
  split
  · trivial
  next hterm =>
  have hopen : row.state.terminal = false := by simpa using hterm
  split
  · refine ⟨hrow, hopen, ?_⟩
    split
    · exact Or.inl rfl
    · exact Or.inr rfl
  next hwith =>
  split
  · trivial
  next hheld =>
  simp only [Bool.or_eq_true, not_or, beq_iff_eq] at hwith hheld
  have hres : row.Reservable env :=
    { generation := by simpa using hgen
      live := Job.live_of_not_terminal hopen hheld.2
      cancel := by simpa using hwith.2
      pause := by simpa using hheld.1.2 }
  split
  · trivial
  split
  · trivial
  split
  · next hex => exact ⟨hrow, hres, hex⟩
  next hex =>
  have hex' : row.exhausted = false := by simpa using hex
  rcases routeBranch_spec row env.route caps with h | h | ⟨s, h⟩ | ⟨s, h⟩
  · rw [h]; trivial
  · rw [h]; trivial
  · rw [h]; exact ⟨hrow, hres, hex'⟩
  · rw [h]; exact ⟨hrow, hres, hex'⟩

/-! ## Set clauses of `reserve` -/

namespace Job

/-- End a job that its source or its operator withdrew. -/
def withdraw (j : Job) (now : Time) (state : JobState) : Job :=
  { j.dropLease with state := state, finishedAt := some now }

/-- End a job without attempts, keeping an earlier error. -/
def exhaust (j : Job) (now : Time) : Job :=
  { j.dropLease with
    state := .failed, finishedAt := some now,
    error := j.error.or (some "lease expired with no attempts remaining") }

/-- Send a job to the route of its selected backend, under a new generation. -/
def reroute (j : Job) (selected : Option BrowserBackend) : Job :=
  { j with
    selectedBrowserBackend := selected, deliveryGeneration := j.deliveryGeneration + 1 }

/-- Lease a job to a worker under a fresh token. -/
def claim (j : Job) (now : Time) (worker token : Uuid) (selected : Option BrowserBackend)
    (lease : Time) : Job :=
  { j with
    state := .leased, leaseOwner := some worker, executionToken := some token,
    selectedBrowserBackend := j.selectedBrowserBackend.or selected,
    leaseExpiresAt := some (now + lease) }

end Job

namespace Db

/-- `_emit_terminal`. -/
def emitTerminal (db : Db) (row : Job) (state : JobState) : Db :=
  db.emit { type := .jobEnded state, runId := some row.runId, jobId := some row.id,
            sourceId := some row.sourceId }

/-- `reserve`: reserve precisely the delivered generation; `token` is the drawn `uuid4()`. -/
def reserve (db : Db) (now : Time) (env : JobEnvelope) (worker : Uuid)
    (capabilities : List Capability) (token : Uuid) (lease : Time := secs leaseSeconds) :
    Db × Reservation :=
  match db.reserveBranch now env capabilities with
  | .stale | .terminal | .held | .unmatched => (db, .ack)
  | .early after | .conflict after => (db, .retry after)
  | .incapable => (db, .retry (secs 30))
  | .withdrawn row state =>
    (((db.updateJobs (fun j => j.id == env.jobId) fun j => j.withdraw now state).emitTerminal
      row state).closeRunIfDone now row.runId, .ack)
  | .exhausted row =>
    ((db.updateJobs (fun j => j.id == env.jobId) fun j => j.exhaust now).emitTerminal
      row .failed, .ack)
  | .reroute _ selected =>
    ((db.updateJobs (fun j => j.id == env.jobId) fun j => j.reroute selected).enqueueJob
      now env.jobId, .ack)
  | .claim row selected =>
    ((db.updateJobs (fun j => j.id == env.jobId && j.deliveryGeneration == env.generation)
        fun j => j.claim now worker token selected lease).emit
      { type := .jobLeased, runId := some row.runId, jobId := some row.id,
        workerId := some worker, sourceId := some row.sourceId },
      .run ((row.claim now worker token selected lease).claimed token))

end Db

/-! ## Execution-owned statements -/

namespace Job

/-- The where clause of `start`. -/
def startable (j : Job) (now : Time) (job : ClaimedJob) (worker : Uuid) : Bool :=
  j.id == job.id && j.deliveryGeneration == job.deliveryGeneration &&
    j.ownedBy worker job.executionToken && j.state == .leased && j.leaseLive now &&
    !j.cancelRequested && !j.pauseRequested

/-- The set clause of `start`: an attempt is spent unless the job was resumed. -/
def start (j : Job) (now : Time) (trace : Option String) (lease : Time) : Job :=
  { j with
    state := .running, attempt := j.attempt + (if j.resumeWithoutAttempt then 0 else 1),
    resumeWithoutAttempt := false, startedAt := some (j.startedAt.getD now),
    traceId := trace.or j.traceId, leaseExpiresAt := some (now + lease) }

/-- The where clause of `renew`. -/
def renewable (j : Job) (job : ClaimedJob) (worker : Uuid) : Bool :=
  j.id == job.id && j.ownedBy worker job.executionToken && j.executing

/-- The set clause of `renew`. -/
def renew (j : Job) (now : Time) (lease : Time) : Job :=
  { j with leaseExpiresAt := some (now + lease) }

/-- The where clause of `release`. -/
def releasable (j : Job) (job : ClaimedJob) (worker : Uuid) : Bool :=
  j.id == job.id && j.ownedBy worker job.executionToken

/-- The set clause of `release`. -/
def release (j : Job) (now : Time) (delay : Time) : Job :=
  { j.dropLease with state := .queued, scheduledFor := now + delay }

/-- The where clause of `require_capability`. -/
def escalatable (j : Job) (job : ClaimedJob) (worker : Uuid) (capability : Capability) : Bool :=
  j.id == job.id && j.ownedBy worker job.executionToken && decide (capability ∉ j.requires)

/-- The set clause of `require_capability`.  The SQL also sorts the array; only membership in it is
ever read. -/
def escalate (j : Job) (capability : Capability) : Job :=
  { j.dropLease with
    state := .queued, requires := (j.requires ++ [capability]).dedup,
    requiresAny := if capability = .browser then
        [.backend .camoufox, .backend .cdpExtensionProxy] else j.requiresAny,
    selectedBrowserBackend := none, resumeWithoutAttempt := true,
    deliveryGeneration := j.deliveryGeneration + 1 }

/-- The where clause of `reconcile`. -/
def expired (j : Job) (now : Time) : Bool :=
  j.executing && j.leaseExpiresAt.any fun t => decide (t < now)

/-- The set clause of `reconcile`. -/
def repair (j : Job) (now : Time) : Job :=
  if j.exhausted then j.exhaust now else { j.dropLease with state := .queued }

/-- The where clause of the pause branch of `Worker._finish`. -/
def heldUnder (j : Job) (job : ClaimedJob) : Bool :=
  j.id == job.id && j.executionToken == some job.executionToken

/-- The set clause of the pause branch of `Worker._finish`. -/
def pauseFinish (j : Job) (summary : Option JobSummary) : Job :=
  { j.dropLease with state := .paused, pauseRequested := false, summary := summary.or j.summary }

end Job

namespace Db

/-- `start`. -/
def start (db : Db) (now : Time) (job : ClaimedJob) (worker : Uuid) (trace : Option String)
    (lease : Time := secs leaseSeconds) : Db :=
  if db.jobs.any fun j => j.startable now job worker then
    (db.updateJobs (fun j => j.startable now job worker) fun j => j.start now trace lease).emit
      { type := .jobStarted, runId := some job.runId, jobId := some job.id,
        workerId := some worker, sourceId := some job.sourceId }
  else db

/-- `renew`, for one of the jobs of the heartbeat. -/
def renew (db : Db) (now : Time) (job : ClaimedJob) (worker : Uuid)
    (lease : Time := secs leaseSeconds) : Db :=
  db.updateJobs (fun j => j.renewable job worker) fun j => j.renew now lease

/-- `release`. -/
def release (db : Db) (now : Time) (job : ClaimedJob) (worker : Uuid) (delay : Time) : Db :=
  if db.jobs.any fun j => j.releasable job worker then
    (db.updateJobs (fun j => j.releasable job worker) fun j => j.release now delay).emit
      { type := .jobReleased, runId := some job.runId, jobId := some job.id,
        workerId := some worker, sourceId := some job.sourceId }
  else db

/-- `require_capability`. -/
def requireCapability (db : Db) (now : Time) (job : ClaimedJob) (worker : Uuid)
    (capability : Capability) : Db :=
  if db.jobs.any fun j => j.escalatable job worker capability then
    ((db.updateJobs (fun j => j.escalatable job worker capability)
        fun j => j.escalate capability).enqueueJob now job.id).emit
      { type := .jobRequeued, runId := some job.runId, jobId := some job.id,
        workerId := some worker, sourceId := some job.sourceId }
  else db

/-- The pause branch of `Worker._finish`. -/
def pauseFinish (db : Db) (job : ClaimedJob) (summary : Option JobSummary) : Db :=
  match db.jobs.find? fun j => j.heldUnder job with
  | none => db
  | some row =>
    (db.updateJobs (fun j => j.heldUnder job) fun j => j.pauseFinish summary).emit
      { type := .jobPaused, runId := some row.runId, jobId := some job.id,
        sourceId := some row.sourceId }

/-- `Worker._load_fenced`: the catalogue is loaded only while the token is the row's and the job is
running; otherwise it raises. -/
def loadFenced (db : Db) (job : ClaimedJob) : Db :=
  if db.jobs.any fun j => j.heldUnder job && j.state == .running then
    { db with loads := db.loads ++ [⟨job.id, job.executionToken⟩] }
  else db

/-! ## Repair of expired executions -/

/-- The ids `reconcile` repairs, by the moment their lease ran out. -/
def expiredIds (db : Db) (now : Time) : List Uuid :=
  ((db.jobs.filter fun j => j.expired now).insertionSort
    fun a b => a.leaseExpiresAt.getD 0 ≤ b.leaseExpiresAt.getD 0).map Job.id

/-- The rows `reconcile` failed, in the order of its updates. -/
def failedJobs (db : Db) (now : Time) : List Job :=
  (db.expiredIds now).filterMap fun id =>
    (db.job? id).bind fun j => if j.exhausted then some (j.repair now) else none

/-- The terminal event and the closing of the run for one row `reconcile` failed. -/
def closeFailed (now : Time) (db : Db) (row : Job) : Db :=
  (db.emitTerminal row .failed).closeRunIfDone now row.runId

/-- `reconcile`: repair every expired execution, expire host slots, then close the runs of the jobs
that had no attempt left. -/
def reconcile (db : Db) (now : Time) : Db :=
  let repaired := db.updateJobs (fun j => j.expired now) fun j => j.repair now
  let expired := repaired.updateLeases
    (fun l => l.leasedUntil.any fun t => decide (t < now)) HostLease.vacate
  (db.failedJobs now).foldl (closeFailed now) expired

/-! ## One dispatcher tick -/

/-- The bookkeeping of one published row. -/
def markOutcome (now : Time) (outcome : ℕ → PublishOutcome) (db : Db) (row : OutboxRow) : Db :=
  match outcome row.id with
  | .confirmed => db.markPublished now row.id
  | .raised error => db.markFailed now row.id error

/-- The transaction of `Dispatcher.tick`, with the rows it published. -/
def tick (db : Db) (now : Time) (locked : List ℕ) (outcome : ℕ → PublishOutcome) :
    Db × List OutboxRow :=
  let db := (db.reconstructMissing now).reconcile now
  let rows := db.pending now locked
  (rows.foldl (markOutcome now outcome) db, rows.filter fun o => outcome o.id == .confirmed)

/-! ### Frame lemmas -/

section Frame

variable (db : Db) (now : Time)

@[simp] theorem emitTerminal_jobs (row : Job) (state : JobState) :
    (db.emitTerminal row state).jobs = db.jobs := rfl

@[simp] theorem foldl_closeFailed_jobs (rows : List Job) :
    (rows.foldl (closeFailed now) db).jobs = db.jobs :=
  Trace.foldl_keep (fun d row => by simp [closeFailed]) db rows

/-- `reconcile` rewrites the expired executions and no other job. -/
@[simp] theorem reconcile_jobs :
    (db.reconcile now).jobs = Relational.update (fun j => j.expired now) (fun j => j.repair now)
      db.jobs := by
  simp [reconcile]

@[simp] theorem markOutcome_jobs (outcome : ℕ → PublishOutcome) (row : OutboxRow) :
    (markOutcome now outcome db row).jobs = db.jobs := by
  unfold markOutcome
  split <;> rfl

@[simp] theorem foldl_markOutcome_jobs (outcome : ℕ → PublishOutcome) (rows : List OutboxRow) :
    (rows.foldl (markOutcome now outcome) db).jobs = db.jobs :=
  Trace.foldl_keep (fun d row => markOutcome_jobs d now outcome row) db rows

@[simp] theorem tick_jobs (locked : List ℕ) (outcome : ℕ → PublishOutcome) :
    (db.tick now locked outcome).1.jobs =
      Relational.update (fun j => j.expired now) (fun j => j.repair now) db.jobs := by
  simp [tick]

end Frame

end Db

end CommerceCollector
