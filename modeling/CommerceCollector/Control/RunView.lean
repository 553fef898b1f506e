import CommerceCollector.Control.Transactions

/-!
# Runs, their jobs and their closings

`RunView` is the part of the database that closing a run reads and writes: the runs, the jobs, and
from the event log the runs that were planned and the closings that were announced.  On it
`_close_run_if_done` is the function `RunView.close`.

The central result is `step_viewStep`.  A transaction that neither creates nor starts a run rewrites
the jobs and then closes, one after another, the runs of a list.  The lemma says which runs these
are, in both directions: every one of them has a job, and a job that the transaction ends puts its
run on the list, except in the two places of the source where the call is missing or comes later.
-/

namespace CommerceCollector

open Relational

/-- The run that a `run.planned` event names. -/
def Event.plannedRun (e : Event) : Option Uuid :=
  match e.type with
  | .runPlanned => e.runId
  | _ => none

/-- The run that a `run.<status>` event of a closing names. -/
def Event.closedRun (e : Event) : Option Uuid :=
  match e.type with
  | .runClosed _ => e.runId
  | _ => none

/-- What closing a run reads and writes. -/
structure RunView where
  runs : List Run
  jobs : List Job
  /-- The runs of the `run.planned` events, in order. -/
  planned : List Uuid
  /-- The runs of the closing events, in order. -/
  closings : List Uuid

namespace RunView

/-- No job of the run is open. -/
def done (v : RunView) (runId : Uuid) : Bool :=
  (v.jobs.filter fun j => j.runId == runId).all fun j => j.state.terminal

/-- The outcome of the run is written and announced. -/
def write (v : RunView) (now : Time) (runId : Uuid) (summary : RunSummary) : RunView :=
  { v with
    runs := update (fun r => r.id == runId) (fun r => r.close now summary) v.runs
    closings := v.closings ++ [runId] }

/-- `_close_run_if_done`. -/
def close (now : Time) (v : RunView) (runId : Uuid) : RunView :=
  if v.done runId then v.write now runId (tally (v.jobs.filter fun j => j.runId == runId)) else v

theorem done_iff {v : RunView} {runId : Uuid} :
    v.done runId = true ↔ ∀ j ∈ v.jobs, j.runId = runId → j.state.terminal = true := by
  simp only [done, List.all_eq_true, List.mem_filter, beq_iff_eq, and_imp]

theorem exists_open_of_not_done {v : RunView} {runId : Uuid} (h : v.done runId = false) :
    ∃ j ∈ v.jobs, j.runId = runId ∧ j.state.terminal = false := by
  by_contra hnone
  push Not at hnone
  have hdone : v.done runId = true :=
    done_iff.mpr fun j hj hrun => by simpa using hnone j hj hrun
  rw [h] at hdone
  exact absurd hdone (by simp)

@[simp] theorem close_jobs (now : Time) (v : RunView) (runId : Uuid) :
    (v.close now runId).jobs = v.jobs := by
  unfold close
  split <;> rfl

@[simp] theorem close_done (now : Time) (v : RunView) (runId other : Uuid) :
    (v.close now runId).done other = v.done other := by
  simp [done]

theorem close_runIds (now : Time) (v : RunView) (runId : Uuid) :
    (v.close now runId).runs.map Run.id = v.runs.map Run.id := by
  unfold close
  split
  · have hid : ∀ (summary : RunSummary) (r : Run), (r.close now summary).id = r.id :=
      fun _ _ => rfl
    exact map_update (hid _) _
  · rfl

theorem foldl_close_closings (now : Time) (ids : List Uuid) (v : RunView) :
    (ids.foldl (close now) v).closings = v.closings ++ ids.filter v.done := by
  induction ids generalizing v with
  | nil => simp
  | cons x ids ih =>
    have hsame : (v.close now x).done = v.done := funext fun y => close_done now v x y
    rw [List.foldl_cons, ih, hsame]
    cases hx : v.done x with
    | true => simp [close, hx, write]
    | false => simp [close, hx]

end RunView

/-! ## The view of a database -/

namespace Db

/-- The view of a database. -/
def runView (db : Db) : RunView where
  runs := db.runs
  jobs := db.jobs
  planned := db.eventLog.filterMap Event.plannedRun
  closings := db.eventLog.filterMap Event.closedRun

section Frame

variable (db : Db) (now : Time)

theorem emit_runView {e : Event} (hp : e.plannedRun = none) (hc : e.closedRun = none) :
    (db.emit e).runView = db.runView := by
  simp [runView, hp, hc]

theorem enqueueJob_runView (jobId : Uuid) (at? : Option Time) :
    (db.enqueueJob now jobId at?).runView = db.runView := by
  rw [enqueueJob_eq]
  rfl

theorem enqueueJobs_runView (ids : List Uuid) :
    (db.enqueueJobs now ids).runView = db.runView := by
  rw [enqueueJobs_eq]
  rfl

theorem writeClose_runView (runId : Uuid) (summary : RunSummary) :
    (db.writeClose now runId summary).runView = db.runView.write now runId summary := by
  simp [runView, writeClose, RunView.write, Event.plannedRun, Event.closedRun]

/-- On the view, `closeRunIfDone` is `RunView.close`. -/
theorem closeRunIfDone_runView (runId : Uuid) :
    (db.closeRunIfDone now runId).runView = db.runView.close now runId := by
  have hdone : db.runDone runId = db.runView.done runId := rfl
  unfold closeRunIfDone RunView.close
  rw [hdone]
  split
  · exact writeClose_runView db now runId _
  · rfl

theorem foldl_runView {α : Type*} {f : Db → α → Db} {run : α → Uuid}
    (hf : ∀ d a, (f d a).runView = d.runView.close now (run a)) (as : List α) :
    (as.foldl f db).runView = (as.map run).foldl (RunView.close now) db.runView := by
  induction as generalizing db with
  | nil => rfl
  | cons a as ih => rw [List.foldl_cons, ih, hf, List.map_cons, List.foldl_cons]

end Frame

end Db

/-! ## Transactions on the view -/

/-- `finish_job` called without a token, which also matches a job that has already ended. -/
def Txn.tokenless : Txn → Bool
  | .finishJob _ _ _ _ _ token => token.isNone
  | _ => false

namespace Db

/-- The transaction ends the open job without closing its run in the same transaction: `reserve` on
a job without attempts, and `CANCEL_RUN`, which commits before the closing that follows it. -/
def EndsSilently (db : Db) (j : Job) : Txn → Prop
  | .reserve now env _ capabilities _ _ => db.reserveBranch now env capabilities = .exhausted j
  | .cancelRun _ runId => j.runId = runId ∧ j.state ≠ .running
  | _ => False

/-- The transaction rewrites the jobs and then closes the listed runs. -/
structure ViewStep (db : Db) (t : Txn) (now : Time) (ids : List Uuid) : Prop where
  /-- What the transaction does to the view. -/
  view : (db.step t).runView =
    ids.foldl (RunView.close now) { db.runView with jobs := (db.step t).jobs }
  /-- A run is only closed for one of its jobs, which was open unless the finish had no token. -/
  justified : ∀ x ∈ ids, ∃ j ∈ db.jobs, j.runId = x ∧
    (t.tokenless = true ∨ j.state.terminal = false)
  /-- A job that is open stays open, or its run is on the list, or the job ends silently. -/
  complete : ∀ j ∈ db.jobs, j.state.terminal = false →
    j.runId ∈ ids ∨ db.EndsSilently j t ∨
      ∃ j' ∈ (db.step t).jobs, j'.runId = j.runId ∧ j'.state.terminal = false

end Db

/-- The transactions that write a run row directly. -/
def Txn.writesRun : Txn → Bool
  | .planRun .. | .startRun .. | .cancelRunClose .. => true
  | _ => false

/-- The transactions that can end a job. -/
def Txn.mayEnd : Txn → Bool
  | .reserve .. | .tick .. | .finishJob .. | .jobAction _ .cancel _ | .cancelRun ..
  | .updateSource .. => true
  | _ => false

theorem Job.pause_open {j : Job} (h : j.state.terminal = false) (bySource : Bool) :
    (j.pause bySource).state.terminal = false := by
  unfold Job.pause
  dsimp only
  split
  · rfl
  · exact h

theorem JobStep.stays_open {t : Txn} {j j' : Job} (hs : JobStep t j j') (ht : t.mayEnd = false)
    (h : j.state.terminal = false) : j'.state.terminal = false := by
  cases hs with
  | start | release | escalate | pauseFinish => rfl
  | renew | redrive => exact h
  | act =>
    rename_i now action _
    cases action with
    | cancel => exact absurd ht (by simp [Txn.mayEnd])
    | retry => rfl
    | pause => exact Job.pause_open h false
    | resume =>
      simp only [Job.act, Job.resume]
      split
      · rfl
      · exact h
  | _ => exact absurd ht (by simp [Txn.mayEnd])

namespace Db

variable {db : Db}

/-- A transaction that keeps the rest of the view and ends jobs only silently closes no run. -/
theorem viewStep_of_quiet (hkey : Keyed Job.id db.jobs) {t : Txn}
    (hview : (db.step t).runView = { db.runView with jobs := (db.step t).jobs })
    (hopen : ∀ j ∈ db.jobs, ∀ j', JobStep t j j' → j.state.terminal = false →
      j'.state.terminal = false ∨ db.EndsSilently j t) :
    db.ViewStep t 0 [] := by
  refine ⟨hview, by simp, fun j hj hterm => ?_⟩
  obtain ⟨rows, new, hjobs, hrows, -, -⟩ := step_jobs hkey t
  obtain ⟨j', hj', hrw⟩ := hrows.exists_new hj
  have hmem : j' ∈ (db.step t).jobs := by
    rw [hjobs]
    exact List.mem_append_left _ hj'
  rcases hrw with rfl | hs
  · exact Or.inr (Or.inr ⟨j', hmem, rfl, hterm⟩)
  rcases hopen j hj j' hs hterm with hstill | hsilent
  · exact Or.inr (Or.inr ⟨j', hmem, hs.fixed.2.1, hstill⟩)
  · exact Or.inr (Or.inl hsilent)

/-! ### The dispatcher -/

/-- The rows `reconcile` fails are the expired ones without attempts. -/
theorem mem_failedJobs (hkey : Keyed Job.id db.jobs) {now : Time} {row : Job} :
    row ∈ db.failedJobs now ↔
      ∃ j ∈ db.jobs, j.expired now = true ∧ j.exhausted = true ∧ row = j.repair now := by
  have hids : ∀ id, id ∈ db.expiredIds now ↔ ∃ j ∈ db.jobs, j.expired now = true ∧ j.id = id := by
    intro id
    simp only [expiredIds, List.mem_map, List.mem_insertionSort, List.mem_filter, and_assoc]
  unfold failedJobs
  rw [List.mem_filterMap]
  constructor
  · rintro ⟨id, hid, hrow⟩
    obtain ⟨j, hj, hexp, rfl⟩ := (hids id).mp hid
    have hfind : db.job? j.id = some j := hkey.find?_eq_some hj
    rw [hfind, Option.bind_some] at hrow
    cases hex : j.exhausted with
    | true => exact ⟨j, hj, hexp, hex, by simpa [hex, eq_comm] using hrow⟩
    | false => simp [hex] at hrow
  · rintro ⟨j, hj, hexp, hex, rfl⟩
    have hfind : db.job? j.id = some j := hkey.find?_eq_some hj
    exact ⟨j.id, (hids j.id).mpr ⟨j, hj, hexp, rfl⟩, by simp [hfind, hex]⟩

/-- The effect of `reconcile` on the view. -/
theorem reconcile_runView (db : Db) (now : Time) :
    (db.reconcile now).runView = ((db.failedJobs now).map Job.runId).foldl (RunView.close now)
      { db.runView with jobs := (db.reconcile now).jobs } := by
  have hclose : ∀ (d : Db) (row : Job),
      (closeFailed now d row).runView = d.runView.close now row.runId := by
    intro d row
    unfold closeFailed
    rw [closeRunIfDone_runView, emitTerminal, emit_runView _ rfl rfl]
  rw [reconcile_jobs]
  exact foldl_runView _ now hclose _

theorem tick_runView (db : Db) (now : Time) (locked : List ℕ) (outcome : ℕ → PublishOutcome) :
    (db.tick now locked outcome).1.runView =
      ((db.failedJobs now).map Job.runId).foldl (RunView.close now)
        { db.runView with jobs := (db.tick now locked outcome).1.jobs } := by
  have hmark : ∀ (d : Db) row, (markOutcome now outcome d row).runView = d.runView := by
    intro d row
    unfold markOutcome
    split <;> rfl
  have hmissing : (db.reconstructMissing now).runView = db.runView := enqueueJobs_runView _ _ _
  have hfailed : (db.reconstructMissing now).failedJobs now = db.failedJobs now := by
    simp only [failedJobs, expiredIds, job?, reconstructMissing_jobs]
  rw [tick_jobs]
  unfold tick
  dsimp only
  rw [Trace.foldl_keep hmark, reconcile_runView, hmissing, hfailed, reconcile_jobs,
    reconstructMissing_jobs]

/-- A dispatcher tick closes the runs of the jobs that `reconcile` failed. -/
theorem tick_viewStep (hkey : Keyed Job.id db.jobs) (now : Time) (locked : List ℕ)
    (outcome : ℕ → PublishOutcome) :
    db.ViewStep (.tick now locked outcome) now ((db.failedJobs now).map Job.runId) := by
  refine ⟨tick_runView db now locked outcome, fun x hx => ?_, fun j hj hopen => ?_⟩
  · obtain ⟨row, hrow, rfl⟩ := List.mem_map.mp hx
    obtain ⟨j, hj, hexp, hex, rfl⟩ := (mem_failedJobs hkey).mp hrow
    refine ⟨j, hj, ?_, Or.inr ?_⟩
    · simp [Job.repair, hex, Job.exhaust, Job.dropLease]
    · simp only [Job.expired, Job.executing, Bool.and_eq_true, Bool.or_eq_true, beq_iff_eq] at hexp
      rcases hexp.1 with hs | hs <;> simp [hs, JobState.terminal]
  · rw [Db.step, tick_jobs]
    cases hexp : j.expired now with
    | false => exact Or.inr (Or.inr ⟨j, mem_update_of_neg hj hexp, rfl, hopen⟩)
    | true =>
      cases hex : j.exhausted with
      | true =>
        refine Or.inl (List.mem_map.mpr ⟨j.repair now, ?_, ?_⟩)
        · exact (mem_failedJobs hkey).mpr ⟨j, hj, hexp, hex, rfl⟩
        · simp [Job.repair, hex, Job.exhaust, Job.dropLease]
      | false =>
        refine Or.inr (Or.inr ⟨j.repair now, mem_update_of_pos hj hexp, ?_, ?_⟩)
        · simp [Job.repair, hex, Job.dropLease]
        · simp [Job.repair, hex, JobState.terminal]

/-! ### Workers -/

/-- `reserve` closes the run of a job that it withdraws, and no other run. -/
theorem reserve_viewStep (hkey : Keyed Job.id db.jobs) (now : Time) (env : JobEnvelope)
    (worker : Uuid) (caps : List Capability) (token : Uuid) (lease : Time) :
    ∃ ids, db.ViewStep (.reserve now env worker caps token lease) now ids := by
  have hsound := db.reserveBranch_sound now env caps
  have hquiet : ∀ {d : Db}, (db.step (.reserve now env worker caps token lease)) = d →
      d.runView = { db.runView with jobs := d.jobs } →
      (∀ j ∈ db.jobs, j.state.terminal = false →
        db.EndsSilently j (.reserve now env worker caps token lease) ∨
          ∃ j' ∈ d.jobs, j'.runId = j.runId ∧ j'.state.terminal = false) →
      db.ViewStep (.reserve now env worker caps token lease) now [] := by
    rintro d rfl hview hopen
    exact ⟨hview, by simp, fun j hj ht => Or.inr (hopen j hj ht)⟩
  have hsame : db.step (.reserve now env worker caps token lease) = db →
      db.ViewStep (.reserve now env worker caps token lease) now [] := by
    intro heq
    exact hquiet heq rfl fun j hj ht => Or.inr ⟨j, hj, rfl, ht⟩
  cases hb : db.reserveBranch now env caps with
  | stale | terminal | held | unmatched | early | conflict | incapable =>
    exact ⟨[], hsame (by simp [Db.step, reserve, hb])⟩
  | withdrawn row state =>
    rw [hb] at hsound
    obtain ⟨hrow, hopen, -⟩ := hsound
    obtain ⟨hmem, -⟩ := mem_of_find? hrow
    refine ⟨[row.runId], ?_, ?_, ?_⟩
    · simp only [Db.step, reserve, hb, closeRunIfDone_runView, List.foldl_cons, List.foldl_nil,
        closeRunIfDone_jobs]
      rw [emitTerminal, emit_runView _ rfl rfl]
      rfl
    · intro x hx
      obtain rfl := List.mem_singleton.mp hx
      exact ⟨row, hmem, rfl, Or.inr hopen⟩
    · intro j hj ht
      by_cases hid : j.id = env.jobId
      · exact Or.inl (by rw [eq_of_job? hkey hrow hj hid]; simp)
      · refine Or.inr (Or.inr ⟨j, ?_, rfl, ht⟩)
        simp only [Db.step, reserve, hb, closeRunIfDone_jobs, emitTerminal_jobs, updateJobs_jobs]
        exact mem_update_of_neg hj (by simpa using hid)
  | exhausted row =>
    rw [hb] at hsound
    obtain ⟨hrow, -, -⟩ := hsound
    refine ⟨[], hquiet rfl ?_ fun j hj ht => ?_⟩
    · simp only [Db.step, reserve, hb]
      rw [emitTerminal, emit_runView _ rfl rfl]
      rfl
    · by_cases hid : j.id = env.jobId
      · exact Or.inl (by rw [eq_of_job? hkey hrow hj hid]; exact hb)
      · refine Or.inr ⟨j, ?_, rfl, ht⟩
        simp only [Db.step, reserve, hb, emitTerminal_jobs, updateJobs_jobs]
        exact mem_update_of_neg hj (by simpa using hid)
  | reroute row selected =>
    refine ⟨[], hquiet rfl ?_ fun j hj ht => Or.inr ?_⟩
    · simp only [Db.step, reserve, hb]
      rw [enqueueJob_runView, enqueueJob_jobs]
      rfl
    · simp only [Db.step, reserve, hb, enqueueJob_jobs, updateJobs_jobs]
      exact ⟨_, mem_update.mpr ⟨j, hj, rfl⟩, by split <;> rfl, by split <;> exact ht⟩
  | claim row selected =>
    refine ⟨[], hquiet rfl ?_ fun j hj ht => Or.inr ?_⟩
    · simp only [Db.step, reserve, hb]
      rw [emit_runView _ rfl rfl]
      rfl
    · simp only [Db.step, reserve, hb, emit_jobs, updateJobs_jobs]
      refine ⟨_, mem_update.mpr ⟨j, hj, rfl⟩, by split <;> rfl, ?_⟩
      split
      · rfl
      · exact ht

/-- `finish_job` closes the run of the job that it ends. -/
theorem finishJob_viewStep (hkey : Keyed Job.id db.jobs) (now : Time) (jobId : Uuid)
    (state : JobState) (summary : Option JobSummary) (error : Option String)
    (token : Option Uuid) (howned : ∀ j ∈ db.jobs, j.executionToken.isSome = true →
      j.state.terminal = false) :
    ∃ ids, db.ViewStep (.finishJob now jobId state summary error token) now ids := by
  have hsame : db.step (.finishJob now jobId state summary error token) = db →
      ∃ ids, db.ViewStep (.finishJob now jobId state summary error token) now ids := by
    intro heq
    refine ⟨[], ?_, by simp, fun j hj ht => Or.inr (Or.inr ?_)⟩
    · rw [heq]
      rfl
    · rw [heq]
      exact ⟨j, hj, rfl, ht⟩
  cases hstate : state.terminal with
  | false => exact hsame (by simp [Db.step, finishJob, hstate])
  | true =>
    cases hrow : db.jobs.find? fun j => j.finishable jobId token with
    | none => exact hsame (by simp [Db.step, finishJob, hstate, hrow])
    | some row =>
      obtain ⟨hmem, hfin⟩ := mem_of_find? hrow
      have hid : ∀ j : Job, j.finishable jobId token = true → j.id = jobId := by
        intro j hj
        simp only [Job.finishable, Bool.and_eq_true, beq_iff_eq] at hj
        exact hj.1
      refine ⟨[row.runId], ?_, ?_, ?_⟩
      · simp only [Db.step, finishJob, hstate, hrow, Bool.not_true, Bool.false_eq_true, if_false,
          closeRunIfDone_runView, List.foldl_cons, List.foldl_nil, closeRunIfDone_jobs]
        rw [emit_runView _ rfl rfl]
        rfl
      · intro x hx
        obtain rfl := List.mem_singleton.mp hx
        refine ⟨row, hmem, rfl, ?_⟩
        simp only [Job.finishable, Bool.and_eq_true, Bool.or_eq_true, beq_iff_eq] at hfin
        rcases hfin.2 with hnone | htoken
        · exact Or.inl hnone
        · cases token with
          | none => exact Or.inl rfl
          | some T => exact Or.inr (howned row hmem (by rw [htoken]; rfl))
      · intro j hj ht
        cases hsel : j.finishable jobId token with
        | true =>
          have heq : j = row := hkey.eq_of_mem hj hmem (by rw [hid j hsel, hid row hfin])
          exact Or.inl (by simp [heq])
        | false =>
          refine Or.inr (Or.inr ⟨j, ?_, rfl, ht⟩)
          simp only [Db.step, finishJob, hstate, hrow, Bool.not_true, Bool.false_eq_true, if_false,
            closeRunIfDone_jobs, emit_jobs, updateLeases_jobs, updateJobs_jobs]
          exact mem_update_of_neg hj hsel

/-! ### Operators -/

/-- The effect of `job_action` on the view. -/
theorem jobAction_runView (db : Db) (now : Time) (action : JobAction) (jobId : Uuid) :
    ∃ ids, (db.jobAction now action jobId).runView =
        ids.foldl (RunView.close now)
          { db.runView with jobs := (db.jobAction now action jobId).jobs } ∧
      (action ≠ .cancel → ids = []) ∧
      ∀ row, (db.jobs.find? fun j => j.id == jobId && j.admits action) = some row →
        action = .cancel → ids = [row.runId] := by
  unfold jobAction
  cases hrow : db.jobs.find? fun j => j.id == jobId && j.admits action with
  | none => exact ⟨[], rfl, fun _ => rfl, fun row h => absurd h (by simp)⟩
  | some row =>
    cases action with
    | cancel =>
      refine ⟨[row.runId], ?_, fun h => absurd rfl h, fun row' h _ => ?_⟩
      · dsimp only
        rw [closeRunIfDone_runView, emit_runView _ rfl rfl, closeRunIfDone_jobs]
        rfl
      · rw [Option.some.inj h]
    | pause =>
      refine ⟨[], ?_, fun _ => rfl, fun _ _ h => absurd h (by simp)⟩
      exact emit_runView _ rfl rfl
    | resume =>
      refine ⟨[], ?_, fun _ => rfl, fun _ _ h => absurd h (by simp)⟩
      dsimp only
      split
      · rw [enqueueJob_runView, enqueueJob_jobs]
        exact emit_runView _ rfl rfl
      · exact emit_runView _ rfl rfl
    | retry =>
      refine ⟨[], ?_, fun _ => rfl, fun _ _ h => absurd h (by simp)⟩
      dsimp only
      split
      · rw [enqueueJob_runView, enqueueJob_jobs]
        exact emit_runView _ rfl rfl
      · exact emit_runView _ rfl rfl

/-- `job_action` closes the run of a job that it cancels. -/
theorem jobAction_viewStep (hkey : Keyed Job.id db.jobs) (now : Time) (action : JobAction)
    (jobId : Uuid) : ∃ ids, db.ViewStep (.jobAction now action jobId) now ids := by
  obtain ⟨ids, hview, hquiet, hcancel⟩ := jobAction_runView db now action jobId
  by_cases haction : action = .cancel
  · subst haction
    cases hrow : db.jobs.find? fun j => j.id == jobId && j.admits .cancel with
    | none =>
      have hsame : db.step (.jobAction now .cancel jobId) = db := by
        simp [Db.step, jobAction, hrow]
      refine ⟨[], ⟨by rw [hsame]; rfl, by simp, fun j hj ht => Or.inr (Or.inr ?_)⟩⟩
      rw [hsame]
      exact ⟨j, hj, rfl, ht⟩
    | some row =>
      obtain ⟨hmem, hadm⟩ := mem_of_find? hrow
      simp only [Bool.and_eq_true, beq_iff_eq] at hadm
      obtain rfl : ids = [row.runId] := hcancel row hrow rfl
      refine ⟨[row.runId], hview, fun x hx => ?_, fun j hj ht => ?_⟩
      · obtain rfl := List.mem_singleton.mp hx
        refine ⟨row, hmem, rfl, Or.inr ?_⟩
        have hcan := hadm.2
        simp only [Job.admits, Job.cancellable, Job.live, Bool.or_eq_true, beq_iff_eq] at hcan
        rcases hcan with ((hs | hs) | hs) | hs <;> simp [hs, JobState.terminal]
      · by_cases hid : j.id = jobId
        · have heq : j = row := hkey.eq_of_mem hj hmem (by rw [hid, hadm.1])
          exact Or.inl (by simp [heq])
        · refine Or.inr (Or.inr ⟨j, ?_, rfl, ht⟩)
          simp only [Db.step, jobAction, hrow, closeRunIfDone_jobs, emit_jobs, updateJobs_jobs]
          exact mem_update_of_neg hj (by simp [hid])
  · obtain rfl := hquiet haction
    have hq := viewStep_of_quiet hkey (t := .jobAction now action jobId) hview
      fun j _ j' hs ht => Or.inl (hs.stays_open (by cases action <;> simp_all [Txn.mayEnd]) ht)
    exact ⟨[], hq.view, hq.justified, hq.complete⟩

/-- `CANCEL_RUN` closes no run; the closing is a later transaction. -/
theorem cancelRun_viewStep (now : Time) (runId : Uuid) :
    db.ViewStep (.cancelRun now runId) now [] := by
  refine ⟨?_, by simp, fun j hj ht => Or.inr ?_⟩
  · have hjobs := cancelRun_jobs db now runId
    simp only [Db.step, List.foldl_nil]
    rw [hjobs]
    unfold cancelRun
    dsimp only
    rw [Trace.foldl_keep (g := runView) fun d j => emit_runView d rfl rfl]
    rfl
  · rw [Db.step, cancelRun_jobs]
    by_cases hrun : j.runId = runId
    · by_cases hstate : j.state = .running
      · refine Or.inr ⟨_, mem_update.mpr ⟨j, hj, rfl⟩, by split <;> rfl, ?_⟩
        split
        · simp [Job.cancel, Job.idle, hstate, JobState.terminal]
        · exact ht
      · exact Or.inl ⟨hrun, hstate⟩
    · exact Or.inr ⟨j, mem_update_of_neg hj (by simp [hrun]), rfl, ht⟩

/-- The jobs that the disabling half of `update_source` ended. -/
def skippedJobs (db : Db) (now : Time) (sourceId : String) : List Job :=
  ((db.jobs.filter fun j => j.sourceId == sourceId && j.cancellable).map
    fun j => j.cancel now .skipped).filter fun row => decide (row.state = .skipped)

/-- The effect of the disabling half of `update_source` on the view. -/
theorem disableSourceJobs_runView (db : Db) (now : Time) (sourceId : String) :
    (db.disableSourceJobs now sourceId).runView =
      ((db.skippedJobs now sourceId).map Job.runId).foldl (RunView.close now)
        { db.runView with jobs := (db.disableSourceJobs now sourceId).jobs } := by
  have hfold : ∀ (rows : List Job) (d : Db),
      (rows.foldl (closeDisabled now sourceId) d).runView =
        ((rows.filter fun row => decide (row.state = .skipped)).map Job.runId).foldl
          (RunView.close now) d.runView := by
    intro rows
    induction rows with
    | nil => exact fun _ => rfl
    | cons row rows ih =>
      intro d
      rw [List.foldl_cons, ih]
      by_cases hs : row.state = .skipped
      · simp only [closeDisabled, hs, List.filter_cons, decide_true, if_true,
          List.map_cons, List.foldl_cons]
        rw [closeRunIfDone_runView, emit_runView _ rfl rfl]
      · simp only [closeDisabled, List.filter_cons, hs, decide_false,
          Bool.false_eq_true, if_false]
        rw [emit_runView _ rfl rfl]
  rw [disableSourceJobs_jobs]
  exact hfold _ _

/-- `update_source` closes the runs of the jobs that it ends. -/
theorem updateSource_viewStep (now : Time) (sourceId : String) (enabled paused : Option Bool) :
    ∃ ids, db.ViewStep (.updateSource now sourceId enabled paused) now ids := by
  cases hen : enabled.getD (db.sourceEnabled sourceId) with
  | true =>
    refine ⟨[], ⟨?_, by simp, fun j hj ht => Or.inr (Or.inr ?_)⟩⟩
    · simp only [Db.step, updateSource, hen, if_true, Bool.true_and, List.foldl_nil]
      rw [emit_runView _ rfl rfl, emit_jobs]
      split
      · rfl
      split
      · unfold resumeSourceJobs
        rw [enqueueJobs_runView, enqueueJobs_jobs]
        rfl
      · rfl
    · simp only [Db.step, updateSource, hen, if_true, Bool.true_and, emit_jobs]
      split
      · simp only [pauseSourceJobs_jobs, upsertSource_jobs]
        refine ⟨_, mem_update.mpr ⟨j, hj, rfl⟩, by split <;> rfl, ?_⟩
        split
        · exact Job.pause_open ht true
        · exact ht
      split
      · simp only [resumeSourceJobs_jobs, upsertSource_jobs]
        refine ⟨_, mem_update.mpr ⟨j, hj, rfl⟩, by split <;> rfl, ?_⟩
        split
        · rfl
        · exact ht
      · exact ⟨j, hj, rfl, ht⟩
  | false =>
    have hstep : db.step (.updateSource now sourceId enabled paused) =
        ((db.upsertSource ⟨sourceId, false, paused.getD (db.sourcePaused sourceId)⟩).disableSourceJobs
          now sourceId).emit { type := .sourceChanged, sourceId := some sourceId } := by
      simp only [Db.step, updateSource, hen, Bool.false_eq_true, if_false, Bool.false_and]
    refine ⟨(db.skippedJobs now sourceId).map Job.runId, ⟨?_, fun x hx => ?_, fun j hj ht => ?_⟩⟩
    · rw [hstep, emit_runView _ rfl rfl, emit_jobs]
      exact disableSourceJobs_runView _ now sourceId
    · obtain ⟨row, hrow, rfl⟩ := List.mem_map.mp hx
      obtain ⟨hmap, -⟩ := List.mem_filter.mp hrow
      obtain ⟨j, hj, rfl⟩ := List.mem_map.mp hmap
      obtain ⟨hmem, hsel⟩ := List.mem_filter.mp hj
      refine ⟨j, hmem, rfl, Or.inr ?_⟩
      simp only [Job.cancellable, Job.live, Bool.and_eq_true, Bool.or_eq_true, beq_iff_eq] at hsel
      rcases hsel.2 with ((hs | hs) | hs) | hs <;> simp [hs, JobState.terminal]
    · rw [hstep]
      simp only [emit_jobs, disableSourceJobs_jobs, upsertSource_jobs]
      cases hsel : (j.sourceId == sourceId && j.cancellable) with
      | false => exact Or.inr (Or.inr ⟨j, mem_update_of_neg hj hsel, rfl, ht⟩)
      | true =>
        by_cases hskip : (j.cancel now .skipped).state = .skipped
        · refine Or.inl (List.mem_map.mpr ⟨j.cancel now .skipped, ?_, rfl⟩)
          refine List.mem_filter.mpr ⟨List.mem_map.mpr ⟨j, ?_, rfl⟩, by simpa using hskip⟩
          exact List.mem_filter.mpr ⟨hj, hsel⟩
        · refine Or.inr (Or.inr ⟨_, mem_update_of_pos hj hsel, rfl, ?_⟩)
          have hidle : j.idle = false := by
            by_contra hi
            exact hskip (by simp [Job.cancel, hi])
          simpa [Job.cancel, hidle] using ht

/-! ### Every transaction -/

/-- **What a transaction does to runs.**  It rewrites jobs and then closes the runs of a list. -/
theorem step_viewStep (hkey : Keyed Job.id db.jobs)
    (howned : ∀ j ∈ db.jobs, j.executionToken.isSome = true → j.state.terminal = false) {t : Txn}
    (ht : t.writesRun = false) : ∃ now ids, db.ViewStep t now ids := by
  have hquiet : ∀ {u : Txn}, u.mayEnd = false →
      (db.step u).runView = { db.runView with jobs := (db.step u).jobs } →
      ∃ now ids, db.ViewStep u now ids := fun hu hview =>
    ⟨0, [], viewStep_of_quiet hkey hview fun _ _ _ hs h => Or.inl (hs.stays_open hu h)⟩
  cases t with
  | planRun | startRun | cancelRunClose => exact absurd ht (by simp [Txn.writesRun])
  | tick now => exact ⟨now, _, tick_viewStep hkey _ _ _⟩
  | reserve now => exact ⟨now, reserve_viewStep hkey _ _ _ _ _ _⟩
  | finishJob now => exact ⟨now, finishJob_viewStep hkey _ _ _ _ _ _ howned⟩
  | jobAction now => exact ⟨now, jobAction_viewStep hkey _ _ _⟩
  | cancelRun now => exact ⟨now, [], cancelRun_viewStep _ _⟩
  | updateSource now => exact ⟨now, updateSource_viewStep _ _ _ _⟩
  | start =>
    refine hquiet rfl ?_
    simp only [Db.step, Db.start]
    split
    · exact emit_runView _ rfl rfl
    · rfl
  | release =>
    refine hquiet rfl ?_
    simp only [Db.step, Db.release]
    split
    · exact emit_runView _ rfl rfl
    · rfl
  | requireCapability =>
    refine hquiet rfl ?_
    simp only [Db.step, Db.requireCapability]
    split
    · rw [emit_runView _ rfl rfl, enqueueJob_runView, emit_jobs, enqueueJob_jobs]
      rfl
    · rfl
  | pauseFinish =>
    refine hquiet rfl ?_
    simp only [Db.step, Db.pauseFinish]
    split
    · rfl
    · exact emit_runView _ rfl rfl
  | loadFenced =>
    refine hquiet rfl ?_
    simp only [Db.step, Db.loadFenced]
    split <;> rfl
  | acquire =>
    refine hquiet rfl ?_
    simp only [Db.step]
    rw [acquire_eq]
    rfl
  | configure =>
    refine hquiet rfl ?_
    simp only [Db.step]
    rw [configure_eq]
    rfl
  | redriveExhausted =>
    refine hquiet rfl ?_
    simp only [Db.step, redriveExhausted]
    split
    · rfl
    split
    · rfl
    · rw [enqueueJob_runView, enqueueJob_jobs]
      rfl
  | republishCurrent now =>
    refine hquiet rfl ?_
    have hmissing : (db.reconstructMissing now).runView = db.runView := enqueueJobs_runView _ _ _
    exact hmissing.trans (by simp only [Db.step, republishCurrent, reconstructMissing_jobs]; rfl)
  | renew | releaseSlot | releaseAll | renewSlots => exact hquiet rfl rfl

end Db

end CommerceCollector
