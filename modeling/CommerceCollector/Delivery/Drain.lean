import CommerceCollector.Delivery.NoLoss
import Mathlib.Data.List.Dedup

/-!
# The drain of a worker

`Worker.run` leaves its loop, cancels the job tasks that are still running, waits for them and calls
`shutdown`.  One of these executions is taken out of the system and followed to its end; the other
executions, those of the same worker among them, go on as they like.

The cancellation is raised where the execution is suspended.  It leaves `execute` if that is before
its `try` or in its `finally`; otherwise the clauses behind the crawl run, and they take the
cancellation for the end of the job.  `Worker.state.current_jobs` and `Worker._deliveries` hold the
same jobs while an execution runs, so `shutdown` goes through the deliveries.
-/

namespace CommerceCollector

open Relational

/-- Where a started execution is suspended. -/
inductive Await
  /-- In `set_status`, before the `try` of `execute`. -/
  | announcing
  /-- In `outcome = await task` of the legacy path, with the records collected so far and the pause
  flag that `_finish` will find, which can still be raised until then. -/
  | collecting (records : ℕ) (pause : Bool)
  /-- In an `await` under `suppress(CancelledError)`. -/
  | suppressed
  /-- In any other `await` of `_crawl_and_load`, of the connector path or of the clauses behind
  them. -/
  | elsewhere

/-- The job of an execution, once it has one. -/
def Stage.job : Stage → Option ClaimedJob
  | .disposing => none
  | .acquiring job _ | .hostBusy job | .handingBack job | .starting job | .startFailed job
  | .startAck job | .startingRun job | .crawling job | .retrying job | .retried job
  | .finishing job _ _ _ _ | .leaving job | .finalAck job | .forgetting job => some job

/-- Where the execution goes on when it is cancelled; nowhere if the cancellation leaves
`execute`. -/
def Stage.cancelled (at_ : Await) : Stage → Option Stage
  | .crawling job =>
    match at_ with
    | .announcing => none
    | .collecting records pause =>
      some (.finishing job .cancelled pause (some { records := some records }) none)
    | .suppressed => some (.crawling job)
    | .elsewhere => some (.leaving job)
  | .retrying job | .retried job | .finishing job _ _ _ _ => some (.leaving job)
  | _ => none

/-- How far the drain of one execution has come. -/
inductive Leg
  /-- The execution runs to its end. -/
  | unwinding (stage : Stage)
  /-- The execution has ended; `shutdown` comes to its job. -/
  | gathered
  /-- `shutdown` has given the slots back. -/
  | releasing
  | stopped

/-- The drain of an execution that goes on at a stage, or has ended. -/
def Leg.of : Option Stage → Leg
  | some stage => .unwinding stage
  | none => .gathered

/-- The system without the execution, and the drain of the execution. -/
structure Drain where
  system : System
  leg : Leg

/-- A step of the drain, or of anything else. -/
inductive DrainStep
  | own (now : Time) (locked : List ℕ) (trace : Option String) (crawl : Crawl)
  | other (a : Action)

/-- The choices of the crawl in a drain. -/
def DrainStep.crawl? : DrainStep → Option Crawl
  | .own _ _ _ crawl => some crawl
  | .other _ => none

/-- An execution outside the tasks of the system makes a move. -/
def System.carry (s : System) (worker : Uuid) (m : Move) : System :=
  { s.transact m.txn with
    acked := s.acked ++ m.ack.toList.map JobEnvelope.deduplicationKey
    deliveries := match m.forget with
      | none => s.deliveries
      | some jobId => Function.update s.deliveries (worker, jobId) none }

namespace Drain

variable (worker : Uuid) (env : JobEnvelope) (job : ClaimedJob)

/-- The drain after a step. -/
def step (d : Drain) : DrainStep → Drain
  | .other a => { d with system := d.system.step a }
  | .own now locked trace crawl =>
    match d.leg with
    | .unwinding stage =>
      let m := (⟨worker, env, stage⟩ : Task).move d.system.db d.system.deliveries now locked trace
        crawl
      { system := d.system.carry worker m, leg := .of m.stage }
    | .gathered =>
      if (d.system.deliveries (worker, job.id)).isSome then
        { system := d.system.commit (.releaseAll job.id job.executionToken), leg := .releasing }
      else { d with leg := .stopped }
    | .releasing =>
      -- the delivery is then handed back to the broker, which has kept the message
      { system := d.system.commit (.release now job worker 0), leg := .stopped }
    | .stopped => d

/-- The drain after several steps. -/
def after (d : Drain) (steps : List DrainStep) : Drain := Trace.exec (step worker env job) d steps

end Drain

/-- The execution at a position is cancelled, and the drain of it begins. -/
def System.drain (s : System) (i : ℕ) (stage : Stage) (at_ : Await) : Drain where
  system := { s with tasks := s.tasks.eraseIdx i }
  leg := .of (stage.cancelled at_)

/-! ## The standing of a job -/

/-- What a drain reads and writes of its job: the row, the delivery the worker holds, and whether
the current generation is acknowledged. -/
structure Standing where
  state : JobState
  leaseOwner : Option Uuid
  executionToken : Option Uuid
  generation : ℕ
  needsBrowser : Bool
  delivery : Option JobEnvelope
  acked : Bool
  deriving DecidableEq

/-- The standing of a row. -/
def Job.standing (row : Job) (delivery : Option JobEnvelope) (acked : List (Uuid × ℕ)) :
    Standing where
  state := row.state
  leaseOwner := row.leaseOwner
  executionToken := row.executionToken
  generation := row.deliveryGeneration
  needsBrowser := decide (.browser ∈ row.requires)
  delivery := delivery
  acked := decide (row.deliveryKey ∈ acked)

/-- The standing of a job with its worker. -/
def System.standing (s : System) (worker jobId : Uuid) : Option Standing :=
  (s.db.job? jobId).map fun row => row.standing (s.deliveries (worker, jobId)) s.acked

/-- The held delivery is that of the current generation. -/
def Standing.current (job : ClaimedJob) (st : Standing) : Bool :=
  st.delivery.any fun env => env.deduplicationKey == (job.id, st.generation)

/-- The worker holds the token of an unfinished job, and the unacknowledged delivery of its current
generation. -/
structure Standing.Holds (worker : Uuid) (job : ClaimedJob) (st : Standing) : Prop where
  unfinished : st.state = .leased ∨ st.state = .running
  owner : st.leaseOwner = some worker
  token : st.executionToken = some job.executionToken
  current : st.current job = true
  unacked : st.acked = false

/-- The job waits for work, and its delivery is not acknowledged. -/
def System.HandedBack (s : System) (worker jobId : Uuid) : Prop :=
  ∃ st, s.standing worker jobId = some st ∧ st.state = .queued ∧ st.acked = false

/-- The worker holds the job and its delivery. -/
def System.Holds (s : System) (worker : Uuid) (job : ClaimedJob) : Prop :=
  ∃ st, s.standing worker job.id = some st ∧ st.Holds worker job

/-- The job already needs a browser. -/
def System.needsBrowser (s : System) (jobId : Uuid) : Bool :=
  (s.db.job? jobId).any fun row => decide (.browser ∈ row.requires)

/-- What else happens during the drain leaves the job to it. -/
def Drain.LeavesAlone (worker : Uuid) (job : ClaimedJob) (d : Drain) : DrainStep → Prop
  | .own .. => True
  | .other a => (d.system.step a).standing worker job.id = d.system.standing worker job.id

instance (worker : Uuid) (job : ClaimedJob) (d : Drain) :
    ∀ a, Decidable (Drain.LeavesAlone worker job d a)
  | .own .. => inferInstanceAs (Decidable True)
  | .other _ => inferInstanceAs (Decidable (_ = _))

namespace Standing

variable (worker : Uuid) (job : ClaimedJob) (st : Standing)

/-- The row is under the worker and its token. -/
def owned : Bool :=
  st.leaseOwner == some worker && st.executionToken == some job.executionToken

/-- `lease_owner = null, execution_token = null`, with a new state. -/
def drop (state : JobState) : Standing :=
  { st with state := state, leaseOwner := none, executionToken := none }

/-- `release`. -/
def release : Standing := if st.owned worker job then st.drop .queued else st

/-- `require_capability`, for the browser. -/
def escalate : Standing :=
  if st.owned worker job && !st.needsBrowser then
    { st.drop .queued with
      generation := st.generation + 1, needsBrowser := true, acked := false }
  else st

/-- `finish_job` or the pause branch of `_finish`. -/
def finish (state : JobState) (pause : Bool) : Standing :=
  if st.executionToken = some job.executionToken then
    if state = .cancelled ∧ pause = true then st.drop .paused
    else if state.terminal then st.drop state else st
  else st

/-- The held delivery is acknowledged. -/
def acknowledge : Standing := { st with acked := st.acked || st.current job }

/-- The worker forgets the job. -/
def forget : Standing := { st with delivery := none }

/-- What a move of the execution does to the standing of its job. -/
def move (crawl : Crawl) : Stage → Standing
  | .crawling _ =>
    match crawl with
    | .browserUnavailable _ => st.escalate worker job
    | _ => st
  | .retrying _ =>
    match crawl with
    | .interrupted => st
    | _ => st.release worker job
  | .retried _ =>
    match crawl with
    | .interrupted => st
    | _ => st.forget
  | .finishing _ state pause _ _ =>
    match crawl with
    | .interrupted => st
    | _ => st.finish job state pause
  | .finalAck _ => st.acknowledge job
  | .forgetting _ => st.forget
  | _ => st

end Standing

/-- The stages behind the `try` of `execute`. -/
def Stage.unwinds (job : ClaimedJob) : Stage → Prop
  | .crawling j | .retrying j | .retried j | .finishing j _ _ _ _ | .leaving j | .finalAck j
  | .forgetting j => j = job
  | _ => False

/-- An execution that still holds its job goes on at a stage, makes these choices, and hands the job
back itself: it releases the row for a later attempt and forgets the delivery, or it reroutes the
job to a worker with a browser. -/
def Stage.handsBack (needsBrowser : Bool) : Stage → List Crawl → Bool
  | _, [] => false
  | .crawling job, crawl :: rest =>
    match crawl with
    | .load => handsBack needsBrowser (.crawling job) rest
    | .transient =>
      if job.maxAttempts ≤ job.attempt then handsBack needsBrowser (.crawling job) rest
      else handsBack needsBrowser (.retrying job) rest
    | .browserUnavailable error =>
      !needsBrowser || handsBack needsBrowser (.finishing job .failed false none (some error)) rest
    | .finish state summary error =>
      handsBack needsBrowser (.finishing job state false summary error) rest
    | .interrupted => false
  | .retrying job, crawl :: rest =>
    match crawl with
    | .interrupted => handsBack needsBrowser (.crawling job) rest
    | _ => handsBack needsBrowser (.retried job) rest
  | .retried _, crawl :: _ =>
    match crawl with
    | .interrupted => false
    | _ => true
  | .finishing job _ _ _ _, crawl :: rest =>
    match crawl with
    | .interrupted => handsBack needsBrowser (.crawling job) rest
    | _ => false
  | _, _ :: _ => false

/-! ## The rows after the transactions of a drain -/

namespace Db

theorem job?_of_update {db db' : Db} {p : Job → Bool} {f : Job → Job} (hf : ∀ j, (f j).id = j.id)
    (h : db'.jobs = Relational.update p f db.jobs) (jobId : Uuid) :
    db'.job? jobId = (db.job? jobId).map fun j => if p j then f j else j := by
  rw [job?, h, find?_update hf, job?]

theorem update_of_not_any {rows : List Job} {p : Job → Bool} (h : ¬ rows.any p = true)
    (f : Job → Job) : Relational.update p f rows = rows := by
  refine update_eq_self fun j hj => ?_
  rw [Bool.eq_false_iff]
  exact fun hp => h (List.any_eq_true.mpr ⟨j, hj, hp⟩)

variable (db : Db) (now : Time) (job : ClaimedJob) (worker : Uuid)

/-- `release` rewrites the rows it selects. -/
theorem release_jobs (delay : Time) :
    (db.release now job worker delay).jobs =
      Relational.update (fun j => j.releasable job worker) (fun j => j.release now delay)
        db.jobs := by
  unfold release
  split
  · rfl
  · next hnone => exact (update_of_not_any hnone _).symm

/-- `require_capability` rewrites the rows it selects. -/
theorem requireCapability_jobs (capability : Capability) :
    (db.requireCapability now job worker capability).jobs =
      Relational.update (fun j => j.escalatable job worker capability)
        (fun j => j.escalate capability) db.jobs := by
  unfold requireCapability
  split
  · simp
  · next hnone => exact (update_of_not_any hnone _).symm

/-- The pause branch of `_finish` rewrites the rows it selects. -/
theorem pauseFinish_jobs (summary : Option JobSummary) :
    (db.pauseFinish job summary).jobs =
      Relational.update (fun j => j.heldUnder job) (fun j => j.pauseFinish summary) db.jobs := by
  unfold pauseFinish
  split
  · next hnone =>
    refine (update_of_not_any (fun hany => ?_) _).symm
    obtain ⟨j, hj, hp⟩ := List.any_eq_true.mp hany
    exact List.find?_eq_none.mp hnone j hj hp
  · rfl

/-- `finish_job` rewrites the rows it selects, if the state is a terminal one. -/
theorem finishJob_jobs (state : JobState) (summary : Option JobSummary) (error : Option String)
    (jobId : Uuid) (token : Option Uuid) :
    (db.finishJob now jobId state summary error token).jobs =
      if state.terminal then
        Relational.update (fun j => j.finishable jobId token)
          (fun j => j.finish now state summary error) db.jobs
      else db.jobs := by
  unfold finishJob
  cases hstate : state.terminal with
  | false => simp
  | true =>
    simp only [Bool.not_true, Bool.false_eq_true, if_false, if_true]
    split
    · next hnone =>
      refine (update_of_not_any (fun hany => ?_) _).symm
      obtain ⟨j, hj, hp⟩ := List.any_eq_true.mp hany
      exact List.find?_eq_none.mp hnone j hj hp
    · simp

end Db

namespace System

variable {s : System} {worker : Uuid} {job : ClaimedJob}

theorem standing_commit {t : Txn} {p : Job → Bool} {f : Job → Job}
    (h : (s.db.step t).jobs = update p f s.db.jobs) (hf : ∀ j, (f j).id = j.id)
    (worker jobId : Uuid) :
    (s.commit t).standing worker jobId = (s.db.job? jobId).map fun row =>
      (if p row then f row else row).standing (s.deliveries (worker, jobId)) s.acked := by
  unfold standing
  have hrow : (s.commit t).db.job? jobId = (s.db.job? jobId).map fun j => if p j then f j else j :=
    Db.job?_of_update hf h jobId
  rw [hrow, Option.map_map]
  rfl

theorem standing_commit_of_jobs {t : Txn} (h : (s.db.step t).jobs = s.db.jobs)
    (worker jobId : Uuid) : (s.commit t).standing worker jobId = s.standing worker jobId := by
  have hrow : (s.commit t).db.job? jobId = s.db.job? jobId := by
    have hjobs : (s.commit t).db.jobs = s.db.jobs := h
    rw [Db.job?, hjobs, Db.job?]
  rw [standing, hrow]
  rfl

theorem standing_releaseAll (id token jobId : Uuid) :
    (s.commit (.releaseAll id token)).standing worker jobId = s.standing worker jobId :=
  standing_commit_of_jobs rfl worker jobId

theorem standing_loadFenced (jobId : Uuid) :
    (s.commit (.loadFenced job)).standing worker jobId = s.standing worker jobId := by
  refine standing_commit_of_jobs ?_ worker jobId
  simp only [Db.step, Db.loadFenced]
  split <;> rfl

/-- The standing after `release`. -/
theorem standing_release (now delay : Time) :
    (s.commit (.release now job worker delay)).standing worker job.id =
      (s.standing worker job.id).map (Standing.release worker job) := by
  have hjobs : (s.db.step (.release now job worker delay)).jobs = _ :=
    Db.release_jobs s.db now job worker delay
  rw [standing_commit hjobs (fun j => rfl), standing, Option.map_map]
  refine Option.map_congr fun row hrow => ?_
  have hid : row.id = job.id := beq_iff_eq.mp (mem_of_find? hrow).2
  have hsel : row.releasable job worker = row.ownedBy worker job.executionToken := by
    simp [Job.releasable, hid]
  have howned : (row.standing (s.deliveries (worker, job.id)) s.acked).owned worker job =
      row.ownedBy worker job.executionToken := rfl
  rw [hsel, Function.comp_apply, Standing.release, howned]
  split <;> rfl

/-- The standing after `require_capability`, which draws a generation that nobody has seen. -/
theorem standing_requireCapability (h : s.StoresInv) (now : Time) :
    (s.commit (.requireCapability now job worker .browser)).standing worker job.id =
      (s.standing worker job.id).map (Standing.escalate worker job) := by
  have hjobs : (s.db.step (.requireCapability now job worker .browser)).jobs = _ :=
    Db.requireCapability_jobs s.db now job worker .browser
  rw [standing_commit hjobs (fun j => rfl), standing, Option.map_map]
  refine Option.map_congr fun row hrow => ?_
  obtain ⟨hmem, hid⟩ := mem_of_find? hrow
  rw [beq_iff_eq] at hid
  have hsel : row.escalatable job worker .browser =
      (row.ownedBy worker job.executionToken && !decide (.browser ∈ row.requires)) := by
    simp [Job.escalatable, hid]
  have howned : ((row.standing (s.deliveries (worker, job.id)) s.acked).owned worker job &&
      !(row.standing (s.deliveries (worker, job.id)) s.acked).needsBrowser) =
      (row.ownedBy worker job.executionToken && !decide (.browser ∈ row.requires)) := rfl
  rw [hsel, Function.comp_apply, Standing.escalate, howned]
  split
  · have hnew : (row.escalate .browser).deliveryKey ∉ s.acked := by
      refine h.not_mem_acked fun j hj hsame => ?_
      obtain rfl := h.keyed.eq_of_mem hj hmem hsame
      exact Nat.lt_succ_self _
    have hbrowser : Capability.browser ∈ (row.escalate .browser).requires := by
      simp [Job.escalate, List.mem_dedup]
    simp only [Job.standing, hnew, hbrowser, decide_true, decide_false]
    rfl
  · rfl

/-- The standing after the transaction of `_finish`. -/
theorem standing_finish (now : Time) (state : JobState) (pause : Bool)
    (summary : Option JobSummary) (error : Option String) :
    (s.commit (if state = .cancelled ∧ pause = true then .pauseFinish job summary
      else .finishJob now job.id state summary error (some job.executionToken))).standing worker
        job.id = (s.standing worker job.id).map fun st => st.finish job state pause := by
  by_cases hpause : state = .cancelled ∧ pause = true
  · have hjobs : (s.db.step (.pauseFinish job summary)).jobs = _ :=
      Db.pauseFinish_jobs s.db job summary
    rw [if_pos hpause, standing_commit hjobs (fun j => rfl), standing, Option.map_map]
    refine Option.map_congr fun row hrow => ?_
    have hid : row.id = job.id := beq_iff_eq.mp (mem_of_find? hrow).2
    have hsel : row.heldUnder job = decide (row.executionToken = some job.executionToken) := by
      rw [Bool.eq_iff_iff]
      simp [Job.heldUnder, hid]
    rw [hsel, Function.comp_apply, Standing.finish, if_pos hpause]
    by_cases htoken : row.executionToken = some job.executionToken
    · simp only [htoken, decide_true, if_true, Job.standing]
      rfl
    · simp only [htoken, decide_false, Bool.false_eq_true, if_false, Job.standing]
  · rw [if_neg hpause]
    have hjobs : (s.db.step (.finishJob now job.id state summary error
        (some job.executionToken))).jobs = _ :=
      Db.finishJob_jobs s.db now state summary error job.id (some job.executionToken)
    cases hterminal : state.terminal with
    | false =>
      rw [hterminal, if_neg (by simp)] at hjobs
      rw [standing_commit_of_jobs hjobs]
      unfold Standing.finish
      simp [hpause, hterminal]
    | true =>
      rw [hterminal, if_pos rfl] at hjobs
      rw [standing_commit hjobs (fun j => rfl), standing, Option.map_map]
      refine Option.map_congr fun row hrow => ?_
      have hid : row.id = job.id := beq_iff_eq.mp (mem_of_find? hrow).2
      have hsel : row.finishable job.id (some job.executionToken) =
          decide (row.executionToken = some job.executionToken) := by
        rw [Bool.eq_iff_iff]
        simp [Job.finishable, hid]
      rw [hsel, Function.comp_apply, Standing.finish, if_neg hpause, hterminal]
      by_cases htoken : row.executionToken = some job.executionToken
      · simp only [htoken, decide_true, if_true, Job.standing]
        rfl
      · simp only [htoken, decide_false, Bool.false_eq_true, if_false, Job.standing]

theorem standing_carry_txn (t : Txn) (stage : Option Stage) (jobId : Uuid) :
    (s.carry worker { txn := some t, stage := stage }).standing worker jobId =
      (s.commit t).standing worker jobId := by
  simp [carry, transact, standing, commit]

theorem standing_carry_stage (stage : Option Stage) (jobId : Uuid) :
    (s.carry worker { stage := stage }).standing worker jobId = s.standing worker jobId := by
  simp [carry, transact, standing]

theorem standing_carry_forget (stage : Option Stage) :
    (s.carry worker { stage := stage, forget := some job.id }).standing worker job.id =
      (s.standing worker job.id).map Standing.forget := by
  rw [standing, standing, Option.map_map]
  refine Option.map_congr fun row hrow => ?_
  simp [carry, transact, Job.standing, Standing.forget]

theorem standing_carry_ack (stage : Option Stage) :
    (s.carry worker { stage := stage, ack := s.deliveries (worker, job.id) }).standing worker
        job.id = (s.standing worker job.id).map (Standing.acknowledge job) := by
  rw [standing, standing, Option.map_map]
  refine Option.map_congr fun row hrow => ?_
  have hid : row.id = job.id := beq_iff_eq.mp (mem_of_find? hrow).2
  have hacked : decide (row.deliveryKey ∈ s.acked ++
        (s.deliveries (worker, job.id)).toList.map JobEnvelope.deduplicationKey) =
      (decide (row.deliveryKey ∈ s.acked) || (s.deliveries (worker, job.id)).any fun env =>
        env.deduplicationKey == (job.id, row.deliveryGeneration)) := by
    rw [Bool.eq_iff_iff]
    cases s.deliveries (worker, job.id) with
    | none => simp
    | some env => simp [Job.deliveryKey, hid, eq_comm (a := env.deduplicationKey)]
  exact congrArg (fun acked => { row.standing (s.deliveries (worker, job.id)) s.acked with
    acked := acked }) hacked

/-- A move of an execution outside the tasks keeps the invariant, if it acknowledges a message. -/
theorem StoresInv.carry (h : s.StoresInv) {m : Move}
    (hack : ∀ env, m.ack = some env → env ∈ s.messages) : (s.carry worker m).StoresInv := by
  have hnext := h.transact m.txn
  refine ⟨hnext.keyed, hnext.owned, hnext.outbox, hnext.messages, hnext.tasks, fun k env henv => ?_,
    fun key hkey => ?_, hnext.published, hnext.enqueued⟩
  · cases hforget : m.forget with
    | none =>
      simp only [System.carry, hforget] at henv
      exact mem_transact_messages (h.deliveries k env henv) m.txn
    | some jobId =>
      simp only [System.carry, hforget] at henv
      by_cases hk : k = (worker, jobId)
      · rw [hk, Function.update_self] at henv
        exact absurd henv (by simp)
      · rw [Function.update_of_ne hk] at henv
        exact mem_transact_messages (h.deliveries k env henv) m.txn
  · rcases List.mem_append.mp hkey with hold | hnew
    · exact hnext.acked key (by rwa [transact_acked])
    · obtain ⟨env, henv, rfl⟩ := List.mem_map.mp hnew
      exact hnext.messages env (mem_transact_messages (hack env (Option.mem_toList.mp henv)) m.txn)

/-- What a move behind the `try` does to the standing of its job. -/
theorem standing_carry_move (h : s.StoresInv) {stage : Stage} (hstage : stage.unwinds job)
    (env : JobEnvelope) (now : Time) (locked : List ℕ) (trace : Option String) (crawl : Crawl) :
    (s.carry worker ((⟨worker, env, stage⟩ : Task).move s.db s.deliveries now locked trace
        crawl)).standing worker job.id =
      (s.standing worker job.id).map fun st => st.move worker job crawl stage := by
  have hkeep : s.standing worker job.id = (s.standing worker job.id).map fun st => st :=
    Option.map_id'.symm
  cases stage with
  | crawling j =>
    obtain rfl : j = job := hstage
    cases crawl with
    | load => exact (standing_carry_txn ..).trans ((standing_loadFenced j.id).trans hkeep)
    | transient =>
      by_cases hspent : j.maxAttempts ≤ j.attempt
      · simp only [Task.move, if_pos hspent]
        exact (standing_carry_stage _ j.id).trans hkeep
      · simp only [Task.move, if_neg hspent]
        exact (standing_carry_txn ..).trans ((standing_releaseAll ..).trans hkeep)
    | browserUnavailable error =>
      exact (standing_carry_txn ..).trans (standing_requireCapability h now)
    | finish state summary error => exact (standing_carry_stage _ j.id).trans hkeep
    | interrupted => exact (standing_carry_stage _ j.id).trans hkeep
  | retrying j =>
    obtain rfl : j = job := hstage
    cases crawl with
    | interrupted => exact (standing_carry_stage _ j.id).trans hkeep
    | load | transient | browserUnavailable error | finish state summary error =>
      exact (standing_carry_txn ..).trans (standing_release now _)
  | retried j =>
    obtain rfl : j = job := hstage
    cases crawl with
    | interrupted => exact (standing_carry_stage _ j.id).trans hkeep
    | load | transient | browserUnavailable error | finish state summary error =>
      exact standing_carry_forget _
  | finishing j state pause summary error =>
    obtain rfl : j = job := hstage
    cases crawl with
    | interrupted => exact (standing_carry_stage _ j.id).trans hkeep
    | load | transient | browserUnavailable _ | finish _ _ _ =>
      simp only [Task.move, ← apply_ite some]
      exact (standing_carry_txn ..).trans (standing_finish now state pause summary error)
  | leaving j =>
    obtain rfl : j = job := hstage
    exact (standing_carry_txn ..).trans ((standing_releaseAll ..).trans hkeep)
  | finalAck j =>
    obtain rfl : j = job := hstage
    exact standing_carry_ack _
  | forgetting j =>
    obtain rfl : j = job := hstage
    exact standing_carry_forget _
  | _ => exact hstage.elim

end System

end CommerceCollector
