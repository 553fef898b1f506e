import CommerceCollector.Ops.Schema

/-!
# The transactional outbox

Publication and recovery of job generations (`ops/outbox.py`).  A generation is published by
inserting one row into `catalogue.queue_outbox` in the transaction that creates the generation; the
dispatcher later hands the pending rows to the broker.

The lemmas describe `enqueueJob`, the one function that inserts rows, and the columns that the
marking statements leave alone.
-/

namespace CommerceCollector

/-- `route_for`: the single disjoint delivery route for a job snapshot. -/
def routeFor (requires requiresAny : List Capability)
    (selectedBrowserBackend : Option BrowserBackend) : Route :=
  match selectedBrowserBackend with
  | some b => .browser b
  | none =>
    if requiresAny ≠ [] then .browserAuto
    else if .browser ∈ requires then .browser .camoufox
    else .plain

/-- `job_route`, on the row it reads. -/
def Job.route (j : Job) : Route := routeFor j.requires j.requiresAny j.selectedBrowserBackend

/-- The payload `enqueue_job` builds for the current generation of a job. -/
def Job.envelope (j : Job) (now : Time) : JobEnvelope where
  jobId := j.id
  runId := j.runId
  sourceId := j.sourceId
  generation := j.deliveryGeneration
  route := j.route
  priority := j.priority
  enqueuedAt := now

/-- The outbox row `enqueue_job` inserts; `id` is drawn from `queue_outbox_id_seq`. -/
def Job.outboxRow (j : Job) (now : Time) (id : ℕ) (availableAt : Option Time) : OutboxRow where
  id := id
  jobId := j.id
  generation := j.deliveryGeneration
  payload := j.envelope now
  availableAt := availableAt.getD j.scheduledFor
  publishedAt := none
  cancelledAt := none
  publishAttempts := 0
  lastError := none

namespace Db

/-- `enqueue_job`: insert one generation of a job that is not terminal into the outbox. -/
def enqueueJob (db : Db) (now : Time) (jobId : Uuid) (availableAt : Option Time := none) : Db :=
  match db.jobs.find? fun j => j.id == jobId && !j.state.terminal with
  | none => db
  | some j =>
    { db with
      outbox := Relational.insertNew OutboxRow.key
        (j.outboxRow now (db.outbox.length + 1) availableAt) db.outbox }

/-- `enqueue_job` for each id in turn. -/
def enqueueJobs (db : Db) (now : Time) (ids : List Uuid) : Db :=
  ids.foldl (fun d id => d.enqueueJob now id) db

/-- The publication batch `pending` locks, oldest first; `locked` are the rows that
`for update skip locked` skips because another transaction holds them. -/
def pending (db : Db) (now : Time) (locked : List ℕ) (limit : ℕ := 100) : List OutboxRow :=
  ((db.outbox.filter fun o => o.publishedAt.isNone && o.cancelledAt.isNone &&
      decide (o.availableAt ≤ now) && !locked.contains o.id).insertionSort
    fun a b => a.availableAt < b.availableAt ∨ a.availableAt = b.availableAt ∧ a.id ≤ b.id).take
    limit

/-- `mark_published`. -/
def markPublished (db : Db) (now : Time) (outboxId : ℕ) : Db :=
  { db with
    outbox := Relational.update (fun o => o.id == outboxId && o.publishedAt.isNone)
      (fun o => { o with
        publishedAt := some now, publishAttempts := o.publishAttempts + 1, lastError := none })
      db.outbox }

/-- `mark_failed`: the row is offered again five seconds later. -/
def markFailed (db : Db) (now : Time) (outboxId : ℕ) (error : String) : Db :=
  { db with
    outbox := Relational.update (fun o => o.id == outboxId && o.publishedAt.isNone)
      (fun o => { o with
        publishAttempts := o.publishAttempts + 1, lastError := some (error.take 2000).toString,
        availableAt := now + secs 5 })
      db.outbox }

/-- The condition that `reconstruct_missing` and `republish_current` share: live, neither cancelled
nor paused, and of a source that is enabled and not paused. -/
def eligible (db : Db) (j : Job) : Bool :=
  j.live && !j.cancelRequested && !j.pauseRequested && db.sourceEnabled j.sourceId &&
    !db.sourcePaused j.sourceId

/-- `reconstruct_missing`: create the outbox rows of eligible generations that have none. -/
def reconstructMissing (db : Db) (now : Time) : Db :=
  db.enqueueJobs now
    ((db.jobs.filter fun j =>
      db.eligible j && !db.outbox.any fun o => o.key == j.deliveryKey).map Job.id)

/-- `republish_current`: offer every current eligible generation again. -/
def republishCurrent (db : Db) (now : Time) : Db :=
  let db := db.reconstructMissing now
  { db with
    outbox := Relational.update
      (fun o => db.jobs.any fun j => o.key == j.deliveryKey && db.eligible j)
      (fun o => { o with
        publishedAt := none, cancelledAt := none, availableAt := now, lastError := none })
      db.outbox }

/-- `redrive_exhausted`: a new generation when the provider exhausted the current one. -/
def redriveExhausted (db : Db) (now : Time) (exhausted : JobEnvelope) : Db :=
  match db.job? exhausted.jobId with
  | none => db
  | some row =>
    if row.deliveryGeneration ≠ exhausted.generation || !db.eligible row then db
    else
      (db.updateJobs (fun j => j.id == exhausted.jobId)
        fun j => { j with deliveryGeneration := j.deliveryGeneration + 1 }).enqueueJob
        now exhausted.jobId

/-! ## What `enqueueJob` changes -/

section Enqueue

variable (db : Db) (now : Time)

theorem enqueueJob_eq (jobId : Uuid) (at? : Option Time) :
    db.enqueueJob now jobId at? = { db with outbox := (db.enqueueJob now jobId at?).outbox } := by
  unfold enqueueJob
  split <;> rfl

@[simp] theorem enqueueJob_jobs (jobId : Uuid) (at? : Option Time) :
    (db.enqueueJob now jobId at?).jobs = db.jobs := by
  rw [enqueueJob_eq]

theorem enqueueJobs_eq (ids : List Uuid) :
    db.enqueueJobs now ids = { db with outbox := (db.enqueueJobs now ids).outbox } := by
  induction ids generalizing db with
  | nil => rfl
  | cons id ids ih =>
    have hcons : db.enqueueJobs now (id :: ids) = (db.enqueueJob now id).enqueueJobs now ids := rfl
    rw [hcons, ih, enqueueJob_eq]

@[simp] theorem enqueueJobs_jobs (ids : List Uuid) : (db.enqueueJobs now ids).jobs = db.jobs := by
  rw [enqueueJobs_eq]

@[simp] theorem reconstructMissing_jobs : (db.reconstructMissing now).jobs = db.jobs :=
  enqueueJobs_jobs _ _ _

end Enqueue

end Db

end CommerceCollector
