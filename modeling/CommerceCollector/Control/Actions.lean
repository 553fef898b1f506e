import CommerceCollector.Ops.Queue

/-!
# Operator actions

The statements the control service runs on jobs, runs and sources (`catalogue_control/queries.py`
and the handlers of `catalogue_control/app.py`).  `job_action` and `update_source` are one
transaction each.  `cancel_run` has no transaction of its own: the pool is in autocommit mode, so
`CANCEL_RUN` commits before `close_run_if_done` reads, and its reads commit before its update.
-/

namespace CommerceCollector

namespace Job

/-- The set clause of `PAUSE_JOB` and `PAUSE_SOURCE_JOBS`: a waiting job is paused at once under a
new generation, a running one is asked to stop. -/
def pause (j : Job) (bySource : Bool) : Job :=
  let waiting := j.state == .queued || j.state == .leased
  { j with
    pauseRequested := j.state == .running
    state := if waiting then .paused else j.state
    pausedBySource := bySource
    leaseOwner := if j.state == .leased then none else j.leaseOwner
    leaseExpiresAt := if j.state == .leased then none else j.leaseExpiresAt
    executionToken := if j.state == .leased then none else j.executionToken
    deliveryGeneration := j.deliveryGeneration + if waiting then 1 else 0 }

/-- The where clause of `RESUME_JOB`. -/
def resumable (j : Job) : Bool := j.state == .paused || j.pauseRequested

/-- The set clause of `RESUME_JOB`. -/
def resume (j : Job) (now : Time) : Job :=
  { j with
    pauseRequested := false
    state := if j.state == .paused then .queued else j.state
    resumeWithoutAttempt := j.state == .paused
    scheduledFor := now
    leaseOwner := if j.state == .paused then none else j.leaseOwner
    executionToken := if j.state == .paused then none else j.executionToken
    deliveryGeneration := j.deliveryGeneration + if j.state == .paused then 1 else 0
    pausedBySource := false }

/-- The where clause of `CANCEL_JOB`, `CANCEL_RUN` and `DISABLE_SOURCE_JOBS`. -/
def cancellable (j : Job) : Bool := j.live || j.state == .paused

/-- The set clause of `CANCEL_JOB` and `CANCEL_RUN` (ending in `cancelled`) and of
`DISABLE_SOURCE_JOBS` (ending in `skipped`). -/
def cancel (j : Job) (now : Time) (ending : JobState) : Job :=
  { j with
    cancelRequested := true
    state := if j.idle then ending else j.state
    finishedAt := if j.idle then some now else j.finishedAt
    leaseOwner := if j.idle then none else j.leaseOwner
    leaseExpiresAt := if j.idle then none else j.leaseExpiresAt
    executionToken := if j.idle then none else j.executionToken
    deliveryGeneration := j.deliveryGeneration + if j.idle then 1 else 0 }

/-- The set clause of `RETRY_JOB`; its where clause is `state in TERMINAL`. -/
def retry (j : Job) (now : Time) : Job :=
  { j.dropLease with
    state := .queued, cancelRequested := false, pauseRequested := false, attempt := 0,
    error := none, deliveryGeneration := j.deliveryGeneration + 1, finishedAt := none,
    scheduledFor := now }

/-- The where clause of `RESUME_SOURCE_JOBS`. -/
def resumableWith (j : Job) (sourceId : String) : Bool :=
  j.sourceId == sourceId && j.state == .paused && j.pausedBySource

/-- The set clause of `RESUME_SOURCE_JOBS`. -/
def resumeWithSource (j : Job) (now : Time) : Job :=
  { j.dropLease with
    state := .queued, pauseRequested := false, pausedBySource := false,
    resumeWithoutAttempt := true, scheduledFor := now,
    deliveryGeneration := j.deliveryGeneration + 1 }

/-- The where clause of the statement behind a `job_action`. -/
def admits (j : Job) : JobAction → Bool
  | .pause => j.live
  | .resume => j.resumable
  | .cancel => j.cancellable
  | .retry => j.state.terminal

/-- The set clause of the statement behind a `job_action`. -/
def act (j : Job) (now : Time) : JobAction → Job
  | .pause => j.pause false
  | .resume => j.resume now
  | .cancel => j.cancel now .cancelled
  | .retry => j.retry now

end Job

namespace Db

/-- `job_action`: pause, resume, cancel or retry one job. -/
def jobAction (db : Db) (now : Time) (action : JobAction) (jobId : Uuid) : Db :=
  match db.jobs.find? fun j => j.id == jobId && j.admits action with
  | none => db
  | some row =>
    let db := (db.updateJobs (fun j => j.id == jobId && j.admits action)
        fun j => j.act now action).emit
      { type := .jobRequested action, runId := some row.runId, jobId := some jobId,
        sourceId := some row.sourceId }
    match action with
    | .cancel => db.closeRunIfDone now row.runId
    | .resume | .retry =>
      if (row.act now action).state = .queued then db.enqueueJob now jobId else db
    | .pause => db

/-- `CANCEL_RUN` and the events of `cancel_run`. -/
def cancelRun (db : Db) (now : Time) (runId : Uuid) : Db :=
  let cancelled := db.jobs.filter fun j => j.runId == runId && j.cancellable
  cancelled.foldl
    (fun d j => d.emit { type := .jobRequested .cancel, runId := some runId, jobId := some j.id,
                         sourceId := some j.sourceId })
    (db.updateJobs (fun j => j.runId == runId && j.cancellable) fun j => j.cancel now .cancelled)

/-- The event and the closing that `update_source` adds for one row of `DISABLE_SOURCE_JOBS`. -/
def closeDisabled (now : Time) (sourceId : String) (db : Db) (row : Job) : Db :=
  let db := db.emit
    { type := if row.state = .skipped then .jobEnded .skipped else .jobRequested .cancel,
      runId := some row.runId, jobId := some row.id, sourceId := some sourceId }
  if row.state = .skipped then db.closeRunIfDone now row.runId else db

/-- The disabling half of `update_source`. -/
def disableSourceJobs (db : Db) (now : Time) (sourceId : String) : Db :=
  let disabled := (db.jobs.filter fun j => j.sourceId == sourceId && j.cancellable).map
    fun j => j.cancel now .skipped
  disabled.foldl (closeDisabled now sourceId)
    (db.updateJobs (fun j => j.sourceId == sourceId && j.cancellable)
      fun j => j.cancel now .skipped)

/-- `PAUSE_SOURCE_JOBS`. -/
def pauseSourceJobs (db : Db) (sourceId : String) : Db :=
  db.updateJobs (fun j => j.sourceId == sourceId && j.live) fun j => j.pause true

/-- `RESUME_SOURCE_JOBS` and the enqueueing of the resumed jobs. -/
def resumeSourceJobs (db : Db) (now : Time) (sourceId : String) : Db :=
  (db.updateJobs (fun j => j.resumableWith sourceId) fun j => j.resumeWithSource now).enqueueJobs
    now ((db.jobs.filter fun j => j.resumableWith sourceId).map Job.id)

/-- `UPSERT_SOURCE`. -/
def upsertSource (db : Db) (setting : SourceSetting) : Db :=
  { db with
    sourceSettings := Relational.update (fun s => s.sourceId == setting.sourceId)
      (fun _ => setting)
      (Relational.insertNew SourceSetting.sourceId setting db.sourceSettings) }

/-- `update_source`: change the settings of a source and carry its jobs along.  A field absent from
the request keeps its current value. -/
def updateSource (db : Db) (now : Time) (sourceId : String) (enabled paused : Option Bool) : Db :=
  let wasPaused := db.sourcePaused sourceId
  let desiredEnabled := enabled.getD (db.sourceEnabled sourceId)
  let desiredPaused := paused.getD wasPaused
  let db := db.upsertSource ⟨sourceId, desiredEnabled, desiredPaused⟩
  let db := if desiredEnabled then db else db.disableSourceJobs now sourceId
  let db :=
    if desiredEnabled && desiredPaused then db.pauseSourceJobs sourceId
    else if desiredEnabled && wasPaused then db.resumeSourceJobs now sourceId
    else db
  db.emit { type := .sourceChanged, sourceId := some sourceId }

/-! ### Frame lemmas -/

section Frame

variable (db : Db) (now : Time) (sourceId : String)

@[simp] theorem upsertSource_jobs (setting : SourceSetting) :
    (db.upsertSource setting).jobs = db.jobs := rfl

/-- `job_action` rewrites the addressed row, if the action's statement selects it. -/
theorem jobAction_jobs (action : JobAction) (jobId : Uuid) :
    (db.jobAction now action jobId).jobs =
      Relational.update (fun j => j.id == jobId && j.admits action)
        (fun j => j.act now action) db.jobs := by
  unfold jobAction
  split
  · next hnone =>
    rw [Relational.update_eq_self]
    intro j hj
    simpa using List.find?_eq_none.mp hnone j hj
  · cases action with
    | pause => rfl
    | cancel => simp
    | resume => dsimp only; split <;> simp
    | retry => dsimp only; split <;> simp

/-- `CANCEL_RUN` rewrites the run's open jobs; the events it is followed by touch no job. -/
@[simp] theorem cancelRun_jobs (runId : Uuid) :
    (db.cancelRun now runId).jobs =
      Relational.update (fun j => j.runId == runId && j.cancellable)
        (fun j => j.cancel now .cancelled) db.jobs := by
  unfold cancelRun
  dsimp only
  rw [Trace.foldl_keep (g := Db.jobs) fun d j => emit_jobs d _, updateJobs_jobs]

@[simp] theorem closeDisabled_jobs (row : Job) :
    (closeDisabled now sourceId db row).jobs = db.jobs := by
  unfold closeDisabled
  split <;> simp

@[simp] theorem foldl_closeDisabled_jobs (rows : List Job) :
    (rows.foldl (closeDisabled now sourceId) db).jobs = db.jobs :=
  Trace.foldl_keep (fun d row => closeDisabled_jobs d now sourceId row) db rows

@[simp] theorem disableSourceJobs_jobs :
    (db.disableSourceJobs now sourceId).jobs =
      Relational.update (fun j => j.sourceId == sourceId && j.cancellable)
        (fun j => j.cancel now .skipped) db.jobs := by
  simp [disableSourceJobs]

@[simp] theorem pauseSourceJobs_jobs :
    (db.pauseSourceJobs sourceId).jobs =
      Relational.update (fun j => j.sourceId == sourceId && j.live) (fun j => j.pause true)
        db.jobs := rfl

@[simp] theorem resumeSourceJobs_jobs :
    (db.resumeSourceJobs now sourceId).jobs =
      Relational.update (fun j => j.resumableWith sourceId) (fun j => j.resumeWithSource now)
        db.jobs := by
  simp [resumeSourceJobs]

end Frame

end Db

end CommerceCollector
