import CommerceCollector.Control.Generations
import Mathlib.Logic.Function.Basic

/-!
# Broker, dispatcher and workers

The queue as a whole: the database, the broker, and the executions the workers carry
(`Worker.tick` and `Worker.execute`).  The broker keeps one message for each deduplication key and
delivers it, any number of times, until it is acknowledged.

An execution is a `Task` with a program counter, `Stage`.  Between two stages lies at most one
transaction of the worker or one call to the broker, so a run of `System.step` contains every
interleaving of executions with each other, with the dispatcher and with the control service.
`Worker._deliveries` is keyed by the job alone, so an acknowledgement at the end of an execution
concerns whatever delivery the worker holds for the job at that moment.
-/

namespace CommerceCollector

open Relational

/-! ## Executions -/

/-- What the crawl of a started job does next, in `Worker._crawl_and_load` and around it. -/
inductive Crawl
  /-- The catalogue is loaded under the token. -/
  | load
  /-- The host refused the source, and `_retry_transient` is tried. -/
  | transient
  /-- `BrowserUnavailable` is raised. -/
  | browserUnavailable (error : String)
  /-- `_finish` is called; a failed crawl finishes as `failed`. -/
  | finish (state : JobState) (summary : Option JobSummary) (error : Option String)
  /-- The task is cancelled, or the statement at hand raises. -/
  | interrupted

/-- The program counter of one execution. -/
inductive Stage
  /-- `reserve` answered `ack`. -/
  | disposing
  /-- The politeness keys that are still to be acquired. -/
  | acquiring (job : ClaimedJob) (keys : List String)
  /-- A key was busy: `release_all`, then `release`, then `retry`. -/
  | hostBusy (job : ClaimedJob)
  | handingBack (job : ClaimedJob)
  | starting (job : ClaimedJob)
  /-- `start` failed: `release_all`, then `acknowledge`. -/
  | startFailed (job : ClaimedJob)
  | startAck (job : ClaimedJob)
  | startingRun (job : ClaimedJob)
  | crawling (job : ClaimedJob)
  /-- `_retry_transient` has given the slots back. -/
  | retrying (job : ClaimedJob)
  /-- `_retry_transient` has released the row: `retry`, then `_forget`. -/
  | retried (job : ClaimedJob)
  /-- `_finish` has read the flags of the row. -/
  | finishing (job : ClaimedJob) (state : JobState) (pause : Bool) (summary : Option JobSummary)
      (error : Option String)
  /-- The `finally` clause: `release_all`, then `acknowledge`. -/
  | leaving (job : ClaimedJob)
  | finalAck (job : ClaimedJob)
  /-- `_forget`, at the end of an execution. -/
  | forgetting (job : ClaimedJob)

/-- An execution: its worker, the message it was delivered, and where it stands. -/
structure Task where
  worker : Uuid
  envelope : JobEnvelope
  stage : Stage

/-- One move of an execution: at most one transaction, the next stage unless it is over, the
delivery it acknowledges, and the job it forgets. -/
structure Move where
  txn : Option Txn := none
  stage : Option Stage := none
  ack : Option JobEnvelope := none
  forget : Option Uuid := none

/-- `Worker._deliveries` of all workers. -/
abbrev Deliveries := Uuid × Uuid → Option JobEnvelope

/-- The next move of an execution.  `locked` are the slots that `skip locked` skips, `trace` is the
trace id, and `crawl` what the crawl does if it is its turn. -/
def Task.move (task : Task) (db : Db) (deliveries : Deliveries) (now : Time) (locked : List ℕ)
    (trace : Option String) (crawl : Crawl) : Move :=
  match task.stage with
  | .disposing => { ack := some task.envelope }
  | .acquiring job [] => { stage := some (.starting job) }
  | .acquiring job (key :: keys) =>
    { txn := some (.acquire now key job.id task.worker job.executionToken locked (secs slotSeconds))
      stage :=
        if (db.acquire now key job.id task.worker job.executionToken locked).2.isSome then
          some (.acquiring job keys)
        else some (.hostBusy job) }
  | .hostBusy job =>
    { txn := some (.releaseAll job.id job.executionToken), stage := some (.handingBack job) }
  | .handingBack job =>
    { txn := some (.release now job task.worker (secs hostBackoffSeconds))
      stage := some (.forgetting job) }
  | .starting job =>
    { txn := some (.start now job task.worker trace (secs leaseSeconds))
      stage :=
        match db.jobs.find? fun j => j.startable now job task.worker with
        | none => some (.startFailed job)
        | some row =>
          let started := row.start now trace (secs leaseSeconds)
          some (.startingRun { job with attempt := started.attempt }) }
  | .startFailed job =>
    { txn := some (.releaseAll job.id job.executionToken), stage := some (.startAck job) }
  | .startAck job =>
    { ack := deliveries (task.worker, job.id), stage := some (.forgetting job) }
  | .startingRun job => { txn := some (.startRun now job.runId), stage := some (.crawling job) }
  | .crawling job =>
    match crawl with
    | .load => { txn := some (.loadFenced job), stage := some (.crawling job) }
    | .transient =>
      if job.maxAttempts ≤ job.attempt then { stage := some (.crawling job) }
      else { txn := some (.releaseAll job.id job.executionToken), stage := some (.retrying job) }
    | .browserUnavailable error =>
      { txn := some (.requireCapability now job task.worker .browser)
        stage :=
          if db.jobs.any fun j => j.escalatable job task.worker .browser then some (.leaving job)
          else some (.finishing job .failed false none (some error)) }
    | .finish state summary error =>
      let pause := ((db.job? job.id).map Job.pauseRequested).getD false
      { stage := some (.finishing job state pause summary error) }
    | .interrupted => { stage := some (.leaving job) }
  -- an error goes to the clauses behind the crawl
  | .retrying job =>
    match crawl with
    | .interrupted => { stage := some (.crawling job) }
    | _ =>
      { txn := some (.release now job task.worker (secs (transientBackoffSeconds * job.attempt)))
        stage :=
          -- a released row goes back with its message; otherwise the failure is recorded as before
          if db.jobs.any fun j => j.releasable job task.worker then some (.retried job)
          else some (.crawling job) }
  | .retried job =>
    match crawl with
    | .interrupted => { stage := some (.crawling job) }
    | _ => { stage := some (.leaving job), forget := some job.id }
  | .finishing job state pause summary error =>
    match crawl with
    | .interrupted => { stage := some (.crawling job) }
    | _ =>
      { txn :=
          if state = .cancelled ∧ pause = true then some (.pauseFinish job summary)
          else some (.finishJob now job.id state summary error (some job.executionToken))
        stage := some (.leaving job) }
  | .leaving job =>
    { txn := some (.releaseAll job.id job.executionToken), stage := some (.finalAck job) }
  | .finalAck job =>
    { ack := deliveries (task.worker, job.id), stage := some (.forgetting job) }
  | .forgetting job => { forget := some job.id }

/-! ## The system -/

/-- The database, the messages of the broker and the acknowledged keys, the executions in flight,
and the deliveries the workers hold. -/
structure System where
  db : Db := {}
  messages : List JobEnvelope := []
  acked : List (Uuid × ℕ) := []
  tasks : List Task := []
  deliveries : Deliveries := fun _ => none

/-- A step of the system. -/
inductive Action
  /-- A transaction outside the executions: the control service, the scheduler, the dispatcher, a
  heartbeat, a shutdown.  A dispatcher tick also publishes. -/
  | commit (t : Txn)
  /-- The broker stores the message of an outbox row, but the dispatcher does not learn of it or
  rolls back. -/
  | stray (now : Time) (row : OutboxRow)
  /-- `Worker.tick`: the broker delivers a message, and the worker reserves it; `edge` is the shared
  edge of the source, if it has one. -/
  | deliver (now : Time) (env : JobEnvelope) (worker : Uuid) (capabilities : List Capability)
      (token : Uuid) (edge : Option String)
  /-- An execution makes its next move. -/
  | advance (task : ℕ) (now : Time) (locked : List ℕ) (trace : Option String) (crawl : Crawl)
  /-- An execution dies with its process, or an error leaves it before its `try`. -/
  | crash (task : ℕ)

namespace System

/-- A transaction commits; a dispatcher tick has published the rows it marks as published. -/
def commit (s : System) (t : Txn) : System :=
  { s with
    db := s.db.step t
    messages := insertAll JobEnvelope.deduplicationKey
      ((s.db.publishes t).map OutboxRow.payload) s.messages }

/-- The move of the execution at a position. -/
def moveOf (s : System) (task : Task) (now : Time) (locked : List ℕ) (trace : Option String)
    (crawl : Crawl) : Move := task.move s.db s.deliveries now locked trace crawl

/-- The transaction of a move, if it has one, commits. -/
def transact (s : System) : Option Txn → System
  | none => s
  | some t => s.commit t

/-- An execution makes a move. -/
def perform (s : System) (i : ℕ) (task : Task) (m : Move) : System :=
  { s.transact m.txn with
    acked := s.acked ++ m.ack.toList.map JobEnvelope.deduplicationKey
    tasks := match m.stage with
      | none => s.tasks.eraseIdx i
      | some stage => s.tasks.set i { task with stage := stage }
    deliveries := match m.forget with
      | none => s.deliveries
      | some jobId => Function.update s.deliveries (task.worker, jobId) none }

/-- A message is delivered to a worker, which reserves it. -/
def receive (s : System) (now : Time) (env : JobEnvelope) (worker : Uuid)
    (capabilities : List Capability) (token : Uuid) (edge : Option String) : System :=
  let next := s.commit (.reserve now env worker capabilities token (secs leaseSeconds))
  match (s.db.reserve now env worker capabilities token).2 with
  | .ack => { next with tasks := next.tasks ++ [⟨worker, env, .disposing⟩] }
  | .retry _ => next
  | .run job =>
    { next with
      tasks := next.tasks ++ [⟨worker, env, .acquiring job (job.host :: edge.toList)⟩]
      deliveries := Function.update next.deliveries (worker, job.id) (some env) }

/-- The effect of an action. -/
def step (s : System) : Action → System
  | .commit t => s.commit t
  | .stray now row =>
    if row ∈ (s.db.reconstructMissing now).outbox ∧ row.publishedAt = none then
      { s with messages := insertNew JobEnvelope.deduplicationKey row.payload s.messages }
    else s
  | .deliver now env worker capabilities token edge =>
    if env ∈ s.messages then s.receive now env worker capabilities token edge else s
  | .advance i now locked trace crawl =>
    match s.tasks[i]? with
    | none => s
    | some task => s.perform i task (s.moveOf task now locked trace crawl)
  | .crash i => { s with tasks := s.tasks.eraseIdx i }

/-- The system reached from empty tables and an empty broker. -/
def after (actions : List Action) : System := Trace.exec System.step {} actions

/-- The delivery that an action acknowledges. -/
def acknowledges (s : System) : Action → Option JobEnvelope
  | .advance i now locked trace crawl =>
    s.tasks[i]?.bind fun task => (s.moveOf task now locked trace crawl).ack
  | _ => none

/-- A generation can still reach a worker: its outbox row is not yet published, or its message is
not yet acknowledged. -/
def Deliverable (s : System) (key : Uuid × ℕ) : Prop :=
  (∃ row ∈ s.db.outbox, row.key = key ∧ row.publishedAt = none) ∨
    (key ∈ s.messages.map JobEnvelope.deduplicationKey ∧ key ∉ s.acked)

instance (s : System) (key : Uuid × ℕ) : Decidable (s.Deliverable key) :=
  inferInstanceAs (Decidable (_ ∨ _))

/-! ## The database of the system -/

/-- The transaction that an action commits, if it commits one. -/
def txnOf (s : System) : Action → Option Txn
  | .commit t => some t
  | .deliver now env worker capabilities token _ =>
    if env ∈ s.messages then some (.reserve now env worker capabilities token (secs leaseSeconds))
    else none
  | .advance i now locked trace crawl =>
    s.tasks[i]?.bind fun task => (s.moveOf task now locked trace crawl).txn
  | .stray .. | .crash _ => none

end System

end CommerceCollector
