import CommerceCollector.Ops.Outbox
import Mathlib.Algebra.Order.Ring.Nat

/-!
# Creating and finishing runs and jobs

A run is the unit an operator asks for, a job is one source's share of it (`ops/runs.py`).
`closeRunIfDone` closes a run once none of its jobs is outstanding; every statement that ends a job
is followed, or should be followed, by a call of it in the same transaction.
-/

namespace CommerceCollector

/-- What `create_jobs` reads of one selected source: its name, the host of its URL and the
capabilities its adapter requires; `id` is the `gen_random_uuid()` of the inserted row. -/
structure NewJob where
  id : Uuid
  sourceId : String
  host : String
  requires : List Capability
  deriving DecidableEq, Repr

/-- The row `create_jobs` inserts; sources that share a host are staggered by thirty seconds. -/
def NewJob.toJob (n : NewJob) (now : Time) (runId : Uuid) (position priority maxAttempts : ℕ) :
    Job where
  id := n.id
  runId := runId
  sourceId := n.sourceId
  host := n.host
  state := .queued
  priority := priority
  attempt := 0
  maxAttempts := maxAttempts
  requires := n.requires
  requiresAny := []
  scheduledFor := now + secs (position * 30)
  leaseOwner := none
  leaseExpiresAt := none
  cancelRequested := false
  pauseRequested := false
  resumeWithoutAttempt := false
  startedAt := none
  finishedAt := none
  error := none
  traceId := none
  summary := none
  selectedBrowserBackend := none
  deliveryGeneration := 1
  executionToken := none
  pausedBySource := false

/-- The row `create_run` inserts. -/
def Run.new (id : Uuid) (occurrence : Option (String × Time)) : Run where
  id := id
  occurrence := occurrence
  status := .queued
  startedAt := none
  finishedAt := none
  summary := none

/-- The where clause of `start_run`. -/
def Run.startable (runId : Uuid) (r : Run) : Bool := r.id == runId && r.status == .queued

/-- The counts over the jobs of a run. -/
def tally (jobs : List Job) : RunSummary where
  succeeded := jobs.countP fun j => j.state == .succeeded
  degraded := jobs.countP fun j => j.state == .degraded
  failed := jobs.countP fun j => j.state == .failed
  cancelled := jobs.countP fun j => j.state == .cancelled
  skipped := jobs.countP fun j => j.state == .skipped
  records := (jobs.map fun j => (j.summary.bind JobSummary.records).getD 0).sum
  requests := (jobs.map fun j => (j.summary.bind JobSummary.requests).getD 0).sum

/-- The status of a run whose jobs have all ended. -/
def RunSummary.status (s : RunSummary) : RunStatus :=
  let usable := s.succeeded + s.degraded
  if s.cancelled ≠ 0 ∧ usable = 0 ∧ s.failed = 0 then .cancelled
  else if usable ≠ 0 ∧ (s.degraded ≠ 0 ∨ s.failed ≠ 0 ∨ s.cancelled ≠ 0) then .degraded
  else if s.failed ≠ 0 then .failed
  else .complete

/-- The set clause of `_close_run_if_done`. -/
def Run.close (r : Run) (now : Time) (summary : RunSummary) : Run :=
  { r with status := summary.status, finishedAt := some now, summary := some summary }

/-- The set clause of `start_run`. -/
def Run.start (r : Run) (now : Time) : Run :=
  { r with status := .running, startedAt := some (r.startedAt.getD now) }

theorem RunSummary.status_closed (s : RunSummary) : s.status.closed = true := by
  unfold RunSummary.status
  dsimp only
  split
  · rfl
  split
  · rfl
  split <;> rfl

namespace Db

/-! ## Closing a run -/

/-- No job of the run is outside `TERMINAL`: the count of `_close_run_if_done` is zero. -/
def runDone (db : Db) (runId : Uuid) : Bool := (db.runJobs runId).all fun j => j.state.terminal

/-- The last two statements of `_close_run_if_done`: write the outcome and announce it. -/
def writeClose (db : Db) (now : Time) (runId : Uuid) (summary : RunSummary) : Db :=
  ({ db with
    runs := Relational.update (fun r => r.id == runId) (fun r => r.close now summary)
      db.runs }).emit { type := .runClosed summary.status, runId := some runId }

/-- `_close_run_if_done` and `close_run_if_done`. -/
def closeRunIfDone (db : Db) (now : Time) (runId : Uuid) : Db :=
  if db.runDone runId then db.writeClose now runId (tally (db.runJobs runId)) else db

/-! ### Frame lemmas -/

section Frame

variable (db : Db) (now : Time) (runId : Uuid) (summary : RunSummary)

theorem closeRunIfDone_eq :
    db.closeRunIfDone now runId =
      { db with
        runs := (db.closeRunIfDone now runId).runs
        eventLog := (db.closeRunIfDone now runId).eventLog } := by
  unfold closeRunIfDone
  split <;> rfl

@[simp] theorem closeRunIfDone_jobs : (db.closeRunIfDone now runId).jobs = db.jobs := by
  rw [closeRunIfDone_eq]

@[simp] theorem closeRunIfDone_outbox : (db.closeRunIfDone now runId).outbox = db.outbox := by
  rw [closeRunIfDone_eq]

@[simp] theorem closeRunIfDone_hostLeases :
    (db.closeRunIfDone now runId).hostLeases = db.hostLeases := by
  rw [closeRunIfDone_eq]

end Frame

/-! ## Creating a run -/

/-- `create_run`: insert a run, unless its scheduled occurrence already exists. -/
def createRun (db : Db) (runId : Uuid) (occurrence : Option (String × Time)) : Option Db :=
  if occurrence.isSome && db.runs.any fun r => r.occurrence == occurrence then none
  else
    some (({ db with runs := db.runs ++ [Run.new runId occurrence] }).emit
      { type := .runCreated, runId := some runId })

/-- One source of `create_jobs`: insert the job unless the run already has one for the source, and
enqueue it. -/
def createJob (now : Time) (runId : Uuid) (priority maxAttempts : ℕ) (db : Db)
    (n : NewJob × ℕ) : Db :=
  if db.jobs.any fun j => j.runId == runId && j.sourceId == n.1.sourceId then db
  else
    ({ db with jobs := db.jobs ++ [n.1.toJob now runId n.2 priority maxAttempts] }).enqueueJob
      now n.1.id

/-- The sources `create_jobs` does not leave out, each with its position on its host. -/
def plannedJobs (db : Db) (selected : List NewJob) : List (NewJob × ℕ) :=
  let enabled := selected.filter fun n => db.sourceEnabled n.sourceId
  enabled.zipIdx.map fun p => (p.1, (enabled.take p.2).countP fun n => n.host == p.1.host)

/-- `create_jobs`: one job for each selected source that is not disabled. -/
def createJobs (db : Db) (now : Time) (runId : Uuid) (selected : List NewJob)
    (priority : ℕ := 100) (maxAttempts : ℕ := 3) : Db :=
  let filled := ((db.plannedJobs selected).foldl (createJob now runId priority maxAttempts) db).emit
    { type := .runPlanned, runId := some runId }
  -- nothing was created, so no job's finish would ever close the run
  if filled.jobs.length = db.jobs.length then filled.closeRunIfDone now runId else filled

/-- The transaction of the control API's `create_run` and of the scheduler's `_fire`: a run and its
jobs.  A drawn id that is already a primary key makes the insert raise and the transaction roll
back. -/
def planRun (db : Db) (now : Time) (runId : Uuid) (occurrence : Option (String × Time))
    (selected : List NewJob) (priority maxAttempts : ℕ) : Db :=
  if runId ∈ db.runs.map Run.id || (selected.any fun n => n.id ∈ db.jobs.map Job.id) ||
      !decide (selected.map NewJob.id).Nodup then db
  else
    match db.createRun runId occurrence with
    | none => db
    | some created => created.createJobs now runId selected priority maxAttempts

/-! ### What a planned run inserts -/

theorem plannedJobs_ids (db : Db) (selected : List NewJob) :
    ((db.plannedJobs selected).map fun p => p.1.id).Sublist (selected.map NewJob.id) := by
  have hmap : (db.plannedJobs selected).map (fun p => p.1.id) =
      (selected.filter fun n => db.sourceEnabled n.sourceId).map NewJob.id := by
    unfold plannedJobs
    rw [List.map_map]
    conv_rhs => rw [← List.zipIdx_map_fst 0 (selected.filter fun n => db.sourceEnabled n.sourceId)]
    rw [List.map_map]
    rfl
  rw [hmap]
  exact List.filter_sublist.map _

theorem mem_selected_of_mem_plannedJobs {db : Db} {selected : List NewJob} {p : NewJob × ℕ}
    (hp : p ∈ db.plannedJobs selected) : p.1 ∈ selected := by
  unfold plannedJobs at hp
  obtain ⟨q, hq, rfl⟩ := List.mem_map.mp hp
  have hfst : q.1 ∈ selected.filter fun n => db.sourceEnabled n.sourceId :=
    List.fst_mem_of_mem_zipIdx hq
  exact List.mem_of_mem_filter hfst

/-- `create_jobs` appends rows for some of the planned sources, in their order. -/
theorem foldl_createJob_jobs (now : Time) (runId : Uuid) (priority maxAttempts : ℕ)
    (planned : List (NewJob × ℕ)) (db : Db) :
    ∃ new : List (NewJob × ℕ), new.Sublist planned ∧
      (planned.foldl (createJob now runId priority maxAttempts) db).jobs =
        db.jobs ++ new.map fun p => p.1.toJob now runId p.2 priority maxAttempts := by
  induction planned generalizing db with
  | nil => exact ⟨[], List.Sublist.slnil, by simp⟩
  | cons p planned ih =>
    obtain ⟨new, hsub, hjobs⟩ := ih (createJob now runId priority maxAttempts db p)
    rw [List.foldl_cons, hjobs]
    unfold createJob
    split
    · exact ⟨new, hsub.cons p, rfl⟩
    · exact ⟨p :: new, hsub.cons_cons p, by simp⟩

/-- `create_jobs` leaves the jobs of other runs alone and appends those of the new one. -/
theorem createJobs_jobs (db : Db) (now : Time) (runId : Uuid) (selected : List NewJob)
    (priority maxAttempts : ℕ) :
    ∃ new : List (NewJob × ℕ), new.Sublist (db.plannedJobs selected) ∧
      (db.createJobs now runId selected priority maxAttempts).jobs =
        db.jobs ++ new.map fun p => p.1.toJob now runId p.2 priority maxAttempts := by
  obtain ⟨new, hsub, hjobs⟩ :=
    foldl_createJob_jobs now runId priority maxAttempts (db.plannedJobs selected) db
  refine ⟨new, hsub, ?_⟩
  unfold createJobs
  simp only
  split <;> simp [hjobs]

/-- `start_run`: the first job that starts moves the run out of `queued`. -/
def startRun (db : Db) (now : Time) (runId : Uuid) : Db :=
  if db.runs.any (Run.startable runId) then
    ({ db with
      runs := Relational.update (Run.startable runId) (fun r => r.start now)
        db.runs }).emit { type := .runStarted, runId := some runId }
  else db

end Db

/-! ## Finishing a job -/

/-- The set clause of `finish_job`. -/
def Job.finish (j : Job) (now : Time) (state : JobState) (summary : Option JobSummary)
    (error : Option String) : Job :=
  { j.dropLease with
    state := state, finishedAt := some now, error := error, summary := summary.or j.summary,
    pauseRequested := false, resumeWithoutAttempt := false }

/-- The where clause of `finish_job`: `id = … and (token is null or execution_token = token)`. -/
def Job.finishable (j : Job) (jobId : Uuid) (token : Option Uuid) : Bool :=
  j.id == jobId && (token.isNone || j.executionToken == token)

/-- `job_id = null, leased_by = null, leased_until = null, execution_token = null`. -/
def HostLease.vacate (l : HostLease) : HostLease :=
  { l with leasedBy := none, jobId := none, leasedUntil := none, executionToken := none }

/-- `finish_job`: end a job, give back its host slots and close its run if it was the last.  A state
outside `TERMINAL` raises before the transaction. -/
def Db.finishJob (db : Db) (now : Time) (jobId : Uuid) (state : JobState)
    (summary : Option JobSummary) (error : Option String) (token : Option Uuid) : Db :=
  if !state.terminal then db
  else
    match db.jobs.find? fun j => j.finishable jobId token with
    | none => db
    | some row =>
      ((db.updateJobs (fun j => j.finishable jobId token)
          fun j => j.finish now state summary error).updateLeases
        (fun l => l.jobId == some jobId && (token.isNone || l.executionToken == token))
        HostLease.vacate).emit
          { type := .jobEnded state, runId := some row.runId, jobId := some jobId,
            sourceId := some row.sourceId }
        |>.closeRunIfDone now row.runId

end CommerceCollector
