import CommerceCollector.Control.AttemptBudget
import CommerceCollector.Control.Fencing
import CommerceCollector.Control.RunView

/-!
# Closing runs

Two results about the status of a run.  A planned run whose jobs have all ended is closed, as long
as no transaction ends the last open job of a run without closing it; the transactions that can do
so are a redelivery that finds no attempt left, and `CANCEL_RUN`, whose closing is a later
transaction.  Conversely, a job of a closed run is terminal unless it was retried since: no
statement reopens the run of a retried job.
-/

namespace CommerceCollector

open Relational

/-! ## Closings on the view -/

/-- The transaction is the late closing of `cancel_run`. -/
def Txn.isCancelClose : Txn → Bool
  | .cancelRunClose .. => true
  | _ => false

namespace RunView

/-- Every planned run without open jobs is closed, the listed runs excepted. -/
def ClosedExcept (S : List Uuid) (v : RunView) : Prop :=
  ∀ r ∈ v.runs, r.id ∈ v.planned → v.done r.id = true → r.status.closed = true ∨ r.id ∈ S

/-- Every closed run was announced. -/
def Announced (v : RunView) : Prop := ∀ r ∈ v.runs, r.status.closed = true → r.id ∈ v.closings

theorem mem_write_runs {v : RunView} {now : Time} {runId : Uuid} {summary : RunSummary} {r' : Run}
    (h : r' ∈ (v.write now runId summary).runs) :
    ∃ r ∈ v.runs, r'.id = r.id ∧
      (r.id = runId ∧ r'.status.closed = true ∨ r.id ≠ runId ∧ r' = r) := by
  obtain ⟨r, hr, rfl⟩ := mem_update.mp h
  by_cases hid : r.id = runId
  · refine ⟨r, hr, by simp [hid, Run.close], Or.inl ⟨hid, ?_⟩⟩
    simp [hid, Run.close, RunSummary.status_closed]
  · exact ⟨r, hr, by simp [hid], Or.inr ⟨hid, by simp [hid]⟩⟩

theorem ClosedExcept.close {S : List Uuid} {v : RunView} {x : Uuid} (now : Time)
    (h : ClosedExcept (x :: S) v) : ClosedExcept S (v.close now x) := by
  unfold RunView.close
  cases hdone : v.done x with
  | false =>
    intro r hr hplan hrdone
    rcases h r hr hplan hrdone with hclosed | hmem
    · exact Or.inl hclosed
    · rcases List.mem_cons.mp hmem with rfl | hS
      · exact absurd hrdone (by simp [hdone])
      · exact Or.inr hS
  | true =>
    intro r' hr' hplan hrdone
    obtain ⟨r, hr, hid, ⟨-, hclosed⟩ | ⟨hne, rfl⟩⟩ := mem_write_runs hr'
    · exact Or.inl hclosed
    · rcases h r' hr hplan hrdone with hclosed | hmem
      · exact Or.inl hclosed
      · rcases List.mem_cons.mp hmem with heq | hS
        · exact absurd heq hne
        · exact Or.inr hS

theorem ClosedExcept.foldl_close {ids : List Uuid} {v : RunView} (now : Time)
    (h : ClosedExcept ids v) : ClosedExcept [] (ids.foldl (RunView.close now) v) := by
  induction ids generalizing v with
  | nil => exact h
  | cons x ids ih => exact ih (h.close now)

theorem Announced.write {v : RunView} (h : Announced v) (now : Time) (runId : Uuid)
    (summary : RunSummary) : Announced (v.write now runId summary) := by
  intro r' hr' hclosed
  have hold : ∀ x ∈ v.closings, x ∈ (v.write now runId summary).closings :=
    fun x hx => List.mem_append_left _ hx
  obtain ⟨r, hr, hid, ⟨hrun, -⟩ | ⟨-, rfl⟩⟩ := mem_write_runs hr'
  · rw [hid, hrun]
    exact List.mem_append_right _ (by simp)
  · exact hold _ (h r' hr hclosed)

theorem Announced.foldl_close {v : RunView} (h : Announced v) (now : Time) (ids : List Uuid) :
    Announced (ids.foldl (RunView.close now) v) := by
  induction ids generalizing v with
  | nil => exact h
  | cons x ids ih =>
    refine ih ?_
    unfold RunView.close
    split
    · exact h.write now x _
    · exact h

theorem foldl_close_runIds (now : Time) (ids : List Uuid) (v : RunView) :
    (ids.foldl (RunView.close now) v).runs.map Run.id = v.runs.map Run.id :=
  Trace.foldl_keep (g := fun u : RunView => u.runs.map Run.id) (fun u x => close_runIds now u x) v
    ids

end RunView

/-! ## Creating and starting a run -/

namespace Db

variable {db : Db}

theorem foldl_createJob_control (now : Time) (runId : Uuid) (priority maxAttempts : ℕ)
    (planned : List (NewJob × ℕ)) (db : Db) :
    (planned.foldl (createJob now runId priority maxAttempts) db).runs = db.runs ∧
      (planned.foldl (createJob now runId priority maxAttempts) db).eventLog = db.eventLog := by
  have hone : ∀ (d : Db) (n : NewJob × ℕ),
      ((createJob now runId priority maxAttempts d n).runs,
        (createJob now runId priority maxAttempts d n).eventLog) = (d.runs, d.eventLog) := by
    intro d n
    unfold createJob
    split
    · rfl
    · rw [enqueueJob_eq]
  have hfold := Trace.foldl_keep (g := fun d : Db => (d.runs, d.eventLog)) hone db planned
  exact ⟨congrArg Prod.fst hfold, congrArg Prod.snd hfold⟩

/-- The view after a run was planned: the run and its open jobs are added, and a run without jobs is
closed at once. -/
theorem planRun_runView (db : Db) (now : Time) (runId : Uuid) (occurrence : Option (String × Time))
    (selected : List NewJob) (priority maxAttempts : ℕ) :
    db.planRun now runId occurrence selected priority maxAttempts = db ∨
      runId ∉ db.runs.map Run.id ∧ ∃ new : List Job,
        (∀ j ∈ new, j.runId = runId ∧ j.state.terminal = false) ∧
        (db.planRun now runId occurrence selected priority maxAttempts).runView =
          (if new = [] then [runId] else []).foldl (RunView.close now)
            { runs := db.runs ++ [Run.new runId occurrence], jobs := db.jobs ++ new,
              planned := db.runView.planned ++ [runId], closings := db.runView.closings } := by
  unfold planRun
  split
  · exact Or.inl rfl
  next hguard =>
  simp only [Bool.or_eq_true, not_or, decide_eq_true_eq] at hguard
  unfold createRun
  split
  · exact Or.inl rfl
  next created hcreated =>
  split at hcreated
  · exact absurd hcreated (by simp)
  obtain rfl := Option.some.inj hcreated
  refine Or.inr ⟨hguard.1.1, ?_⟩
  generalize hbase : (({ db with runs := db.runs ++ [Run.new runId occurrence] }).emit
    { type := .runCreated, runId := some runId }) = base
  have hjobs : base.jobs = db.jobs := by rw [← hbase]; rfl
  obtain ⟨rows, -, hrows⟩ := foldl_createJob_jobs now runId priority maxAttempts
    (base.plannedJobs selected) base
  obtain ⟨hruns, hlog⟩ := foldl_createJob_control now runId priority maxAttempts
    (base.plannedJobs selected) base
  refine ⟨rows.map fun p => p.1.toJob now runId p.2 priority maxAttempts, ?_, ?_⟩
  · intro j hj
    obtain ⟨p, -, rfl⟩ := List.mem_map.mp hj
    exact ⟨rfl, rfl⟩
  · have hfilled : (((base.plannedJobs selected).foldl (createJob now runId priority maxAttempts)
        base).emit { type := .runPlanned, runId := some runId }).runView =
        { runs := db.runs ++ [Run.new runId occurrence],
          jobs := db.jobs ++ rows.map fun p => p.1.toJob now runId p.2 priority maxAttempts,
          planned := db.runView.planned ++ [runId], closings := db.runView.closings } := by
      have hbaseRuns : base.runs = db.runs ++ [Run.new runId occurrence] := by rw [← hbase]; rfl
      have hbaseLog : base.eventLog =
          db.eventLog ++ [{ type := .runCreated, runId := some runId }] := by rw [← hbase]; rfl
      unfold runView
      rw [emit_runs, emit_jobs, emit_eventLog, hruns, hrows, hlog, hjobs, hbaseRuns, hbaseLog]
      simp [Event.plannedRun, Event.closedRun]
      rfl
    have hlen : ((((base.plannedJobs selected).foldl (createJob now runId priority maxAttempts)
        base).emit { type := .runPlanned, runId := some runId }).jobs.length = base.jobs.length) ↔
        (rows.map fun p => p.1.toJob now runId p.2 priority maxAttempts) = [] := by
      rw [emit_jobs, hrows]
      simp
    unfold createJobs
    dsimp only
    by_cases hempty : (rows.map fun p => p.1.toJob now runId p.2 priority maxAttempts) = []
    · rw [if_pos (hlen.mpr hempty), if_pos hempty, closeRunIfDone_runView, hfilled]
      rfl
    · rw [if_neg (mt hlen.mp hempty), if_neg hempty, hfilled]
      rfl

/-- The view after `start_run`: a queued run is running. -/
theorem startRun_runView (db : Db) (now : Time) (runId : Uuid) :
    (db.startRun now runId).runView =
      { db.runView with
        runs := update (Run.startable runId) (fun r => r.start now) db.runs } := by
  unfold startRun
  split
  · exact emit_runView _ rfl rfl
  · next hnone =>
    rw [update_eq_self]
    · rfl
    · intro r hr
      by_contra hsel
      exact hnone (List.any_eq_true.mpr ⟨r, hr, by simpa using hsel⟩)

/-! ## A run without open jobs is closed -/

/-- The run is closed. -/
def RunClosed (db : Db) (runId : Uuid) : Prop :=
  ∀ r ∈ db.runs, r.id = runId → r.status.closed = true

/-- The transaction does not end the last open job of a run that stays unclosed: `reserve` finds no
attempt left only for a job whose run has another open job or is closed already, and `CANCEL_RUN`
meets a running job, which it does not end, or a closed run. -/
def LeavesNoneBehind (db : Db) : Txn → Prop
  | .reserve now env _ capabilities _ _ =>
    match db.reserveBranch now env capabilities with
    | .exhausted row =>
      (∃ i ∈ db.jobs, i.runId = row.runId ∧ i.id ≠ row.id ∧ i.state.terminal = false) ∨
        db.RunClosed row.runId
    | _ => True
  | .cancelRun _ runId =>
    (∃ i ∈ db.jobs, i.runId = runId ∧ i.state = .running) ∨ db.RunClosed runId
  | _ => True

/-- Under the condition, a job that ends silently leaves another open job behind that does not, or
its run is closed. -/
theorem exists_open_of_endsSilently {t : Txn} (hcond : db.LeavesNoneBehind t) {j : Job}
    (h : db.EndsSilently j t) :
    db.RunClosed j.runId ∨ ∃ i ∈ db.jobs, i.runId = j.runId ∧ i.state.terminal = false ∧
      ¬ db.EndsSilently i t := by
  cases t with
  | reserve now env worker caps token lease =>
    have hbranch : db.reserveBranch now env caps = .exhausted j := h
    simp only [LeavesNoneBehind, hbranch] at hcond
    rcases hcond with ⟨i, hi, hrun, hne, hopen⟩ | hclosed
    · refine Or.inr ⟨i, hi, hrun, hopen, fun hsilent => ?_⟩
      have hsame : ReserveBranch.exhausted i = .exhausted j := hsilent.symm.trans hbranch
      exact hne (by rw [ReserveBranch.exhausted.inj hsame])
    · exact Or.inl hclosed
  | cancelRun now runId =>
    obtain ⟨rfl, -⟩ := h
    rcases hcond with ⟨i, hi, hrun, hrunning⟩ | hclosed
    · exact Or.inr ⟨i, hi, hrun, by simp [hrunning, JobState.terminal], fun hs => hs.2 hrunning⟩
    · exact Or.inl hclosed
  | _ => exact absurd h (by simp [EndsSilently])

/-- A transaction that rewrites jobs and closes runs leaves every finished run closed. -/
theorem closedExcept_of_viewStep {t : Txn} {now : Time} {ids : List Uuid}
    (hstep : db.ViewStep t now ids) (hcond : db.LeavesNoneBehind t)
    (h : db.runView.ClosedExcept []) : (db.step t).runView.ClosedExcept [] := by
  rw [hstep.view]
  refine RunView.ClosedExcept.foldl_close now fun r hr hplan hdone => ?_
  have hall := RunView.done_iff.mp hdone
  cases hbefore : db.runView.done r.id with
  | true =>
    rcases h r hr hplan hbefore with hclosed | hmem
    · exact Or.inl hclosed
    · exact absurd hmem (by simp)
  | false =>
    -- some job of the run was open, and all its jobs have ended now
    obtain ⟨j, hj, hrun, hopen⟩ := RunView.exists_open_of_not_done hbefore
    have hlisted : ∀ i ∈ db.jobs, i.runId = r.id → i.state.terminal = false →
        r.id ∈ ids ∨ db.EndsSilently i t := by
      intro i hi hirun hiopen
      rcases hstep.complete i hi hiopen with hmem | hsilent | ⟨i', hi', hrun', hstill⟩
      · exact Or.inl (hirun ▸ hmem)
      · exact Or.inr hsilent
      · have := hall i' hi' (hrun'.trans hirun)
        rw [hstill] at this
        exact absurd this (by simp)
    rcases hlisted j hj hrun hopen with hmem | hsilent
    · exact Or.inr hmem
    rcases exists_open_of_endsSilently hcond hsilent with hclosed | ⟨i, hi, hirun, hiopen, hnot⟩
    · exact Or.inl (hclosed r hr hrun.symm)
    · rcases hlisted i hi (hirun.trans hrun) hiopen with hmem | hs
      · exact Or.inr hmem
      · exact absurd hs hnot

/-- A planned run has open jobs or is closed at once; the other runs are as before. -/
theorem planRun_closedExcept (now : Time) (runId : Uuid) (occurrence : Option (String × Time))
    (selected : List NewJob) (priority maxAttempts : ℕ) (h : db.runView.ClosedExcept []) :
    (db.planRun now runId occurrence selected priority maxAttempts).runView.ClosedExcept [] := by
  rcases planRun_runView db now runId occurrence selected priority maxAttempts with
    heq | ⟨hfresh, new, hnew, hview⟩
  · rw [heq]
    exact h
  rw [hview]
  refine RunView.ClosedExcept.foldl_close now fun r hr hplan hdone => ?_
  have hall := RunView.done_iff.mp hdone
  rcases List.mem_append.mp hr with hold | hr
  · have hne : r.id ≠ runId := fun heq => hfresh (heq ▸ List.mem_map_of_mem hold)
    have hplan' : r.id ∈ db.runView.planned := by
      rcases List.mem_append.mp hplan with hp | hp
      · exact hp
      · exact absurd (List.mem_singleton.mp hp) hne
    have hdone' : db.runView.done r.id = true :=
      RunView.done_iff.mpr fun j hj hrun => hall j (List.mem_append_left _ hj) hrun
    rcases h r hold hplan' hdone' with hclosed | hmem
    · exact Or.inl hclosed
    · exact absurd hmem (by simp)
  · obtain rfl := List.mem_singleton.mp hr
    cases new with
    | nil => exact Or.inr (by simp [Run.new])
    | cons j new =>
      obtain ⟨hrun, hopen⟩ := hnew j (by simp)
      have := hall j (by simp) hrun
      rw [hopen] at this
      exact absurd this (by simp)

/-- Starting a run does not touch a run without open jobs, which is closed. -/
theorem startRun_closedExcept (now : Time) (runId : Uuid) (h : db.runView.ClosedExcept []) :
    (db.startRun now runId).runView.ClosedExcept [] := by
  rw [startRun_runView]
  intro r' hr' hplan hdone
  obtain ⟨r, hr, rfl⟩ := mem_update.mp hr'
  cases hsel : r.startable runId with
  | false =>
    simp only [hsel, Bool.false_eq_true, if_false] at hplan hdone ⊢
    exact h r hr hplan hdone
  | true =>
    simp only [hsel, if_true] at hplan hdone
    have hqueued : r.status = .queued := by
      simp only [Run.startable, Bool.and_eq_true, beq_iff_eq] at hsel
      exact hsel.2
    rcases h r hr hplan hdone with hclosed | hmem
    · rw [hqueued] at hclosed
      exact absurd hclosed (by decide)
    · exact absurd hmem (by simp)

theorem writeClose_closedExcept (now : Time) (runId : Uuid) (summary : RunSummary)
    (h : db.runView.ClosedExcept []) :
    (db.writeClose now runId summary).runView.ClosedExcept [] := by
  rw [writeClose_runView]
  intro r' hr' hplan hdone
  obtain ⟨r, hr, hid, ⟨-, hclosed⟩ | ⟨-, rfl⟩⟩ := RunView.mem_write_runs hr'
  · exact Or.inl hclosed
  · exact h r' hr hplan hdone

theorem open_of_token {j : Job} (h : j.OwnedIffExecuting)
    (htoken : j.executionToken.isSome = true) :
    j.state.terminal = false := by
  have hexec : j.executing = true := h.token ▸ htoken
  simp only [Job.executing, Bool.or_eq_true, beq_iff_eq] at hexec
  rcases hexec with hs | hs <;> rw [hs] <;> rfl

/-- Every transaction that meets the condition leaves every finished run closed. -/
theorem step_closedExcept (hkey : Keyed Job.id db.jobs)
    (howned : ∀ j ∈ db.jobs, j.OwnedIffExecuting) {t : Txn} (hcond : db.LeavesNoneBehind t)
    (h : db.runView.ClosedExcept []) : (db.step t).runView.ClosedExcept [] := by
  cases ht : t.writesRun with
  | false =>
    obtain ⟨now, ids, hstep⟩ :=
      step_viewStep hkey (fun j hj htoken => open_of_token (howned j hj) htoken) ht
    exact closedExcept_of_viewStep hstep hcond h
  | true =>
    cases t with
    | planRun => exact planRun_closedExcept _ _ _ _ _ _ h
    | startRun => exact startRun_closedExcept _ _ h
    | cancelRunClose => exact writeClose_closedExcept _ _ _ h
    | _ => exact absurd ht (by simp [Txn.writesRun])

/-- **Finished runs are closed.**  In every run of transactions that never end the last open job of
an unclosed run silently, every planned run whose jobs are all terminal is closed, in every database
reached. -/
theorem run_closed_of_jobs_terminal (txns : List Txn)
    (hcond : Trace.Along Db.step LeavesNoneBehind {} txns) :
    ∀ r ∈ (Db.after txns).runs, r.id ∈ (Db.after txns).runView.planned →
      (∀ j ∈ (Db.after txns).jobs, j.runId = r.id → j.state.terminal = true) →
      r.status.closed = true := by
  have hinv := Trace.exec_invariant_of_along Db.step (C := LeavesNoneBehind)
    (I := fun db => Keyed Job.id db.jobs ∧ (∀ j ∈ db.jobs, j.OwnedIffExecuting) ∧
      db.runView.ClosedExcept [])
    (fun db t hc h => ⟨step_keyed h.1 t, step_ownedIffExecuting h.1 h.2.1 t,
      step_closedExcept h.1 h.2.1 hc h.2.2⟩)
    (s := ({} : Db)) ⟨List.nodup_nil, by simp, fun r hr => absurd hr (by simp [runView])⟩ hcond
  intro r hr hplan hterm
  rcases hinv.2.2 r hr hplan (RunView.done_iff.mpr hterm) with hclosed | hmem
  · exact hclosed
  · exact absurd hmem (by simp)

/-- A job with one attempt that is planned, reserved and started. -/
def startedRun : List Txn :=
  [ .planRun 0 1 none [⟨10, "shop", "shop.example", []⟩] 100 1,
    .reserve (secs 1) ⟨10, 1, "shop", 1, .plain, 100, 0⟩ 1 [] 101 (secs leaseSeconds),
    .start (secs 2) ⟨10, 1, "shop", "shop.example", 0, 1, [], [], 1, 101, none⟩ 1 none
      (secs leaseSeconds),
    .startRun (secs 2) 1 ]

/-- The started job is finished by its worker. -/
def firstFinish : Txn := .finishJob (secs 3) 10 .succeeded none none (some 101)

/-- The run of the finished job is closed. -/
theorem finished_run_closed :
    ∃ r ∈ (Db.after (startedRun ++ [firstFinish])).runs, r.status.closed = true := by
  obtain ⟨r, hr, hplanned, hdone⟩ : ∃ r ∈ (Db.after (startedRun ++ [firstFinish])).runs,
      r.id ∈ (Db.after (startedRun ++ [firstFinish])).runView.planned ∧
      ∀ j ∈ (Db.after (startedRun ++ [firstFinish])).jobs, j.runId = r.id →
        j.state.terminal = true := by decide
  exact ⟨r, hr, run_closed_of_jobs_terminal (startedRun ++ [firstFinish])
    ⟨trivial, trivial, trivial, trivial, trivial, trivial⟩ r hr hplanned hdone⟩

/-- The worker of the started job is gone; its lease runs out, and the broker delivers the job again
before the dispatcher repairs the row. -/
def redeliveredRun : List Txn :=
  startedRun ++
    [.reserve (secs 400) ⟨10, 1, "shop", 1, .plain, 100, 0⟩ 2 [] 102 (secs leaseSeconds)]

/-- The redelivery fails the only job of the run, and the run stays open. -/
theorem redelivered_run_left_open :
    ∃ r ∈ (Db.after redeliveredRun).runs, r.id ∈ (Db.after redeliveredRun).runView.planned ∧
      (∀ j ∈ (Db.after redeliveredRun).jobs, j.runId = r.id → j.state.terminal = true) ∧
      r.status.closed = false := by
  decide

/-! ## Jobs of a closed run -/

/-- The transaction announces a closing of the run. -/
def Closes (db : Db) (runId : Uuid) (t : Txn) : Prop :=
  runId ∈ (db.step t).runView.closings.drop db.runView.closings.length

/-- The runs of all jobs exist. -/
def RunsExist (db : Db) : Prop := ∀ j ∈ db.jobs, j.runId ∈ db.runs.map Run.id

theorem step_runIds (hkey : Keyed Job.id db.jobs) (howned : ∀ j ∈ db.jobs, j.OwnedIffExecuting)
    (t : Txn) : ∀ x ∈ db.runs.map Run.id, x ∈ (db.step t).runs.map Run.id := by
  intro x hx
  have hsame : (db.step t).runView.runs.map Run.id = db.runs.map Run.id →
      x ∈ (db.step t).runs.map Run.id := fun heq => heq.symm ▸ hx
  cases ht : t.writesRun with
  | false =>
    obtain ⟨now, ids, hstep⟩ :=
      step_viewStep hkey (fun j hj htoken => open_of_token (howned j hj) htoken) ht
    refine hsame ?_
    rw [hstep.view, RunView.foldl_close_runIds]
    rfl
  | true =>
    cases t with
    | planRun now runId occurrence selected priority maxAttempts =>
      rcases planRun_runView db now runId occurrence selected priority maxAttempts with
        heq | ⟨-, new, -, hview⟩
      · rwa [Db.step, heq]
      · have hids : (db.planRun now runId occurrence selected priority maxAttempts).runs.map Run.id =
            (db.runs ++ [Run.new runId occurrence]).map Run.id :=
          (congrArg (fun v => v.runs.map Run.id) hview).trans (RunView.foldl_close_runIds _ _ _)
        rw [Db.step, hids, List.map_append]
        exact List.mem_append_left _ hx
    | startRun now runId =>
      have hkeep : ∀ r : Run, (r.start now).id = r.id := fun _ => rfl
      refine hsame ?_
      rw [Db.step, startRun_runView]
      exact map_update hkeep _
    | cancelRunClose now runId summary =>
      have hkeep : ∀ r : Run, (r.close now summary).id = r.id := fun _ => rfl
      exact hsame (map_update hkeep _)
    | _ => exact absurd ht (by simp [Txn.writesRun])

theorem runId_mem_of_jobNew {t : Txn} {j : Job} (hnew : JobNew db t j) (hj : j ∈ (db.step t).jobs) :
    j.runId ∈ (db.step t).runs.map Run.id := by
  cases hnew with
  | planRun hn hrun hid =>
    rename_i now runId occurrence selected priority maxAttempts n position
    rcases planRun_runView db now runId occurrence selected priority maxAttempts with
      heq | ⟨-, new, -, hview⟩
    · rw [Db.step, heq] at hj
      exact absurd (List.mem_map_of_mem hj) hid
    · have hids : (db.planRun now runId occurrence selected priority maxAttempts).runs.map Run.id =
          (db.runs ++ [Run.new runId occurrence]).map Run.id :=
        (congrArg (fun v => v.runs.map Run.id) hview).trans (RunView.foldl_close_runIds _ _ _)
      rw [Db.step, hids, List.map_append]
      exact List.mem_append_right _ (by simp [Run.new, NewJob.toJob])

theorem step_runsExist (hkey : Keyed Job.id db.jobs) (howned : ∀ j ∈ db.jobs, j.OwnedIffExecuting)
    (h : db.RunsExist) (t : Txn) : (db.step t).RunsExist := by
  intro j' hj'
  obtain ⟨rows, new, hjobs, hrows, hnew, -⟩ := step_jobs hkey t
  have hmem := hj'
  rw [hjobs, List.mem_append] at hmem
  rcases hmem with hold | hfresh
  · obtain ⟨j, hj, hrw⟩ := hrows.exists_old hold
    have hrun : j'.runId = j.runId := by
      rcases hrw with rfl | hs
      · rfl
      · exact hs.fixed.2.1
    rw [hrun]
    exact step_runIds hkey howned t _ (h j hj)
  · exact runId_mem_of_jobNew (hnew j' hfresh) hj'

/-- What the results about closed runs use of a reachable database. -/
structure Regular (db : Db) : Prop where
  keyed : Keyed Job.id db.jobs
  owned : ∀ j ∈ db.jobs, j.OwnedIffExecuting
  runs : db.RunsExist
  announced : db.runView.Announced

theorem step_announced (hreg : db.Regular) (t : Txn) : (db.step t).runView.Announced := by
  cases ht : t.writesRun with
  | false =>
    obtain ⟨now, ids, hstep⟩ :=
      step_viewStep hreg.keyed (fun j hj htoken => open_of_token (hreg.owned j hj) htoken) ht
    rw [hstep.view]
    exact RunView.Announced.foldl_close (v := { db.runView with jobs := (db.step t).jobs })
      hreg.announced now ids
  | true =>
    cases t with
    | planRun now runId occurrence selected priority maxAttempts =>
      rcases planRun_runView db now runId occurrence selected priority maxAttempts with
        heq | ⟨-, new, -, hview⟩
      · rw [Db.step, heq]
        exact hreg.announced
      · rw [Db.step, hview]
        refine RunView.Announced.foldl_close (fun r hr hclosed => ?_) now _
        rcases List.mem_append.mp hr with hold | hr
        · exact hreg.announced r hold hclosed
        · rw [List.mem_singleton.mp hr] at hclosed
          exact absurd hclosed (by simp [Run.new, RunStatus.closed])
    | startRun now runId =>
      rw [Db.step, startRun_runView]
      intro r' hr' hclosed
      obtain ⟨r, hr, rfl⟩ := mem_update.mp hr'
      cases hsel : r.startable runId with
      | false =>
        simp only [hsel, Bool.false_eq_true, if_false] at hclosed ⊢
        exact hreg.announced r hr hclosed
      | true =>
        simp only [hsel, if_true] at hclosed
        exact absurd hclosed (by simp [Run.start, RunStatus.closed])
    | cancelRunClose now runId summary =>
      rw [Db.step, writeClose_runView]
      exact hreg.announced.write now runId summary
    | _ => exact absurd ht (by simp [Txn.writesRun])

theorem Regular.step (h : db.Regular) (t : Txn) : (db.step t).Regular where
  keyed := step_keyed h.keyed t
  owned := step_ownedIffExecuting h.keyed h.owned t
  runs := step_runsExist h.keyed h.owned h.runs t
  announced := step_announced h t

theorem Regular.exec (h : db.Regular) (txns : List Txn) : (Trace.exec Db.step db txns).Regular :=
  Trace.exec_invariant Db.step (fun _ t h => h.step t) h txns

theorem after_regular (txns : List Txn) : (Db.after txns).Regular := by
  have hempty : ({} : Db).Regular :=
    ⟨List.nodup_nil, by simp, fun j hj => absurd hj (by simp),
      fun r hr => absurd hr (by simp [runView])⟩
  exact hempty.exec txns

/-- A closing other than the late one of `cancel_run` finds every job of the run ended.  It is
written for a new run, for a job that was open, or by a finish without a token. -/
theorem closes_cases (hreg : db.Regular) {t : Txn} {runId : Uuid} (h : db.Closes runId t)
    (hlate : t.isCancelClose = false) :
    (db.step t).runView.done runId = true ∧ runId ∈ (db.step t).runs.map Run.id ∧
      (runId ∉ db.runs.map Run.id ∨
        ∃ j ∈ db.jobs, j.runId = runId ∧ (t.tokenless = true ∨ j.state.terminal = false)) := by
  unfold Closes at h
  cases ht : t.writesRun with
  | false =>
    obtain ⟨now, ids, hstep⟩ :=
      step_viewStep hreg.keyed (fun j hj htoken => open_of_token (hreg.owned j hj) htoken) ht
    rw [hstep.view, RunView.foldl_close_closings] at h
    have hmem : runId ∈ ids.filter
        ({ db.runView with jobs := (db.step t).jobs } : RunView).done := by
      simpa using h
    obtain ⟨hids, hdone⟩ := List.mem_filter.mp hmem
    obtain ⟨j, hj, hrun, hwhy⟩ := hstep.justified runId hids
    refine ⟨hdone, ?_, Or.inr ⟨j, hj, hrun, hwhy⟩⟩
    exact step_runIds hreg.keyed hreg.owned t _ (hrun ▸ hreg.runs j hj)
  | true =>
    cases t with
    | planRun now run occurrence selected priority maxAttempts =>
      rcases planRun_runView db now run occurrence selected priority maxAttempts with
        heq | ⟨hfresh, new, hnew, hview⟩
      · rw [Db.step, heq] at h
        exact absurd h (by simp)
      · rw [Db.step, hview, RunView.foldl_close_closings] at h
        have hmem : runId ∈ (if new = [] then [run] else []).filter
            ({ runs := db.runs ++ [Run.new run occurrence], jobs := db.jobs ++ new,
               planned := db.runView.planned ++ [run],
               closings := db.runView.closings } : RunView).done := by
          simpa using h
        obtain ⟨hids, hdone⟩ := List.mem_filter.mp hmem
        obtain rfl : runId = run := by
          split at hids
          · exact List.mem_singleton.mp hids
          · exact absurd hids (by simp)
        refine ⟨?_, ?_, Or.inl hfresh⟩
        · rw [Db.step, hview, RunView.done_iff]
          intro j hj hrun
          have hjobs : j ∈ db.jobs ++ new := by
            rwa [Trace.foldl_keep (g := RunView.jobs) fun u x => RunView.close_jobs now u x] at hj
          exact RunView.done_iff.mp hdone j hjobs hrun
        · have hids : (db.planRun now runId occurrence selected priority maxAttempts).runs.map
              Run.id = (db.runs ++ [Run.new runId occurrence]).map Run.id :=
            (congrArg (fun v => v.runs.map Run.id) hview).trans (RunView.foldl_close_runIds _ _ _)
          rw [Db.step, hids, List.map_append]
          exact List.mem_append_right _ (by simp [Run.new])
    | startRun now run =>
      rw [Db.step, startRun_runView] at h
      exact absurd h (by simp)
    | cancelRunClose => exact absurd hlate (by simp [Txn.isCancelClose])
    | _ => exact absurd ht (by simp [Txn.writesRun])

end Db

/-! ### Leaving a terminal state -/

theorem Job.OwnedIffExecuting.not_terminal_of_ownedBy {j : Job} (h : j.OwnedIffExecuting)
    {token : Uuid} (htoken : j.executionToken = some token) : j.state.terminal ≠ true := by
  rw [Db.open_of_token h (by rw [htoken]; rfl)]
  exact Bool.false_ne_true

/-- Only `RETRY_JOB` takes a job out of a terminal state. -/
theorem JobStep.retry_of_reopened {t : Txn} {j j' : Job} (hs : JobStep t j j')
    (howned : j.OwnedIffExecuting) (hterm : j.state.terminal = true)
    (hopen : j'.state.terminal = false) : ∃ now, t = .jobAction now .retry j.id := by
  have hlive : j.live = true → False := by
    intro hl
    simp only [Job.live, Bool.or_eq_true, beq_iff_eq] at hl
    rcases hl with (h | h) | h <;> rw [h] at hterm <;> exact absurd hterm (by decide)
  have hcan : j.cancellable = true → False := by
    intro hc
    simp only [Job.cancellable, Bool.or_eq_true, beq_iff_eq] at hc
    rcases hc with h | h
    · exact hlive h
    · rw [h] at hterm
      exact absurd hterm (by decide)
  have hheld : ∀ {token : Uuid}, j.executionToken = some token → False :=
    fun htoken => howned.not_terminal_of_ownedBy htoken hterm
  cases hs with
  | withdraw _ hop => exact absurd hterm (by simp [hop])
  | exhaust _ hl => exact (hlive hl).elim
  | reroute _ hl => exact (hlive hl).elim
  | claim _ hl => exact (hlive hl).elim
  | start h =>
    simp only [Job.startable, Job.ownedBy, Bool.and_eq_true, beq_iff_eq] at h
    exact (hheld h.1.1.1.1.2.2).elim
  | renew h =>
    simp only [Job.renewable, Job.ownedBy, Bool.and_eq_true, beq_iff_eq] at h
    exact (hheld h.1.2.2).elim
  | release h =>
    simp only [Job.releasable, Job.ownedBy, Bool.and_eq_true, beq_iff_eq] at h
    exact (hheld h.2.2).elim
  | escalate h =>
    simp only [Job.escalatable, Job.ownedBy, Bool.and_eq_true, beq_iff_eq] at h
    exact (hheld h.1.2.2).elim
  | repair h =>
    simp only [Job.expired, Bool.and_eq_true] at h
    exact (hlive (by
      have := h.1
      simp only [Job.executing, Bool.or_eq_true] at this
      rcases this with h | h <;> simp [Job.live, h])).elim
  | finish hstate => exact absurd hopen (by simp [Job.finish, hstate])
  | pauseFinish h =>
    simp only [Job.heldUnder, Bool.and_eq_true, beq_iff_eq] at h
    exact (hheld h.2).elim
  | act hadm =>
    rename_i now action
    cases action with
    | pause => exact (hlive hadm).elim
    | cancel => exact (hcan hadm).elim
    | retry => exact ⟨now, rfl⟩
    | resume =>
      -- a pause request on an ended job is dropped, and the state kept
      have hnot : (j.state == .paused) = false := by
        cases hs : j.state <;> simp_all [JobState.terminal]
      exact absurd hopen (by simp [Job.act, Job.resume, hnot, hterm])
  | cancelRun h => exact (hcan h).elim
  | disable h => exact (hcan h).elim
  | pauseSource h => exact (hlive h).elim
  | resumeSource h =>
    simp only [Job.resumableWith, Bool.and_eq_true, beq_iff_eq] at h
    rw [h.1.2] at hterm
    exact absurd hterm (by decide)
  | redrive _ hl => exact (hlive hl).elim

namespace Db

variable {db : Db}

/-- A job whose run existed before the transactions existed before them: jobs are only created with
their run. -/
theorem exists_of_exec {txns : List Txn} (hreg : db.Regular) {j' : Job}
    (hj' : j' ∈ (Trace.exec Db.step db txns).jobs) (hrun : j'.runId ∈ db.runs.map Run.id) :
    ∃ j ∈ db.jobs, j.id = j'.id ∧ j.runId = j'.runId := by
  induction txns generalizing db with
  | nil => exact ⟨j', hj', rfl, rfl⟩
  | cons t ts ih =>
    obtain ⟨i, hi, hid, hirun⟩ := ih (hreg.step t) hj' (step_runIds hreg.keyed hreg.owned t _ hrun)
    obtain ⟨rows, new, hjobs, hrows, hnew, -⟩ := step_jobs hreg.keyed t
    rw [hjobs, List.mem_append] at hi
    rcases hi with hold | hfresh
    · obtain ⟨j, hj, rfl | hs⟩ := hrows.exists_old hold
      · exact ⟨i, hj, hid, hirun⟩
      · exact ⟨j, hj, hs.fixed.1.symm.trans hid, hs.fixed.2.1.symm.trans hirun⟩
    · cases hnew i hfresh with
      | planRun _ hnone _ =>
        rw [← hirun] at hrun
        exact absurd hrun hnone

/-- The job has ended. -/
def JobEnded (jobId : Uuid) (db : Db) : Prop :=
  ∃ j ∈ db.jobs, j.id = jobId ∧ j.state.terminal = true

theorem retriesJob_of_reopened (hreg : db.Regular) {t : Txn} {jobId : Uuid}
    (hended : db.JobEnded jobId) (hlost : ¬ (db.step t).JobEnded jobId) :
    db.retriesJob jobId t = true := by
  obtain ⟨j, hj, rfl, hterm⟩ := hended
  obtain ⟨rows, new, hjobs, hrows, -, -⟩ := step_jobs hreg.keyed t
  obtain ⟨j', hj', hrw⟩ := hrows.exists_new hj
  have hmem : j' ∈ (db.step t).jobs := by
    rw [hjobs]
    exact List.mem_append_left _ hj'
  rcases hrw with rfl | hs
  · exact absurd ⟨j', hmem, rfl, hterm⟩ hlost
  · have hopen : j'.state.terminal = false := by
      by_contra hstill
      exact hlost ⟨j', hmem, hs.fixed.1, by simpa using hstill⟩
    obtain ⟨now, rfl⟩ := hs.retry_of_reopened (hreg.owned j hj) hterm hopen
    rw [retriesJob_retry hreg.keyed hj]
    simp [hterm]

/-- **Reopening.**  If every job of an existing run has ended and later one of its jobs is open,
then this job was retried in between. -/
theorem retried_of_open {txns : List Txn} {runId : Uuid} (hreg : db.Regular)
    (hrun : runId ∈ db.runs.map Run.id) (hdone : db.runView.done runId = true) {j' : Job}
    (hj' : j' ∈ (Trace.exec Db.step db txns).jobs) (hrun' : j'.runId = runId)
    (hopen : j'.state.terminal = false) :
    ∃ mid t rest, txns = mid ++ t :: rest ∧
      (Trace.exec Db.step db mid).retriesJob j'.id t = true := by
  obtain ⟨j, hj, hid, hjrun⟩ := exists_of_exec hreg hj' (hrun' ▸ hrun)
  have hstart : db.JobEnded j'.id :=
    ⟨j, hj, hid, RunView.done_iff.mp hdone j hj (hjrun.trans hrun')⟩
  have hend : ¬ (Trace.exec Db.step db txns).JobEnded j'.id := by
    rintro ⟨i, hi, hiid, hterm⟩
    rw [(hreg.exec txns).keyed.eq_of_mem hi hj' hiid, hopen] at hterm
    exact absurd hterm (by simp)
  obtain ⟨mid, t, rest, rfl, hbefore, hlost⟩ :=
    Trace.exists_step_of_change Db.step (P := JobEnded j'.id) hstart hend
  exact ⟨mid, t, rest, rfl, retriesJob_of_reopened (hreg.exec mid) hbefore hlost⟩

/-- **Jobs of closed runs.**  A closed run was announced as closed.  After a closing, that of
`cancel_run` excepted, every job of the run that is open was retried since.  And before a later
closing that is neither one of `cancel_run` nor a finish without a token, some job of the run was
retried since the earlier one. -/
theorem closed_run_reopened_only_by_retry :
    (∀ (txns : List Txn), ∀ r ∈ (Db.after txns).runs, r.status.closed = true →
      r.id ∈ (Db.after txns).runView.closings) ∧
    (∀ (pre post : List Txn) (c : Txn) (runId : Uuid), c.isCancelClose = false →
      (Db.after pre).Closes runId c → ∀ j ∈ (Db.after (pre ++ c :: post)).jobs, j.runId = runId →
      j.state.terminal = true ∨ ∃ mid t rest, post = mid ++ t :: rest ∧
        (Db.after (pre ++ c :: mid)).retriesJob j.id t = true) ∧
    ∀ (pre mid : List Txn) (c d : Txn) (runId : Uuid), c.isCancelClose = false →
      d.isCancelClose = false → d.tokenless = false → (Db.after pre).Closes runId c →
      (Db.after (pre ++ c :: mid)).Closes runId d →
      ∃ j ∈ (Db.after (pre ++ c :: mid)).jobs, j.runId = runId ∧
        ∃ front t rest, mid = front ++ t :: rest ∧
          (Db.after (pre ++ c :: front)).retriesJob j.id t = true := by
  have hsplit : ∀ (pre post : List Txn) (c : Txn),
      Db.after (pre ++ c :: post) = Trace.exec Db.step ((Db.after pre).step c) post := by
    intro pre post c
    rw [Db.after, Trace.exec_append, Trace.exec_cons]
    rfl
  refine ⟨fun txns => (after_regular txns).announced, ?_, ?_⟩
  · intro pre post c runId hlate hcloses j hj hrun
    obtain ⟨hdone, hexists, -⟩ := closes_cases (after_regular pre) hcloses hlate
    cases hterm : j.state.terminal with
    | true => exact Or.inl rfl
    | false =>
      rw [hsplit] at hj
      obtain ⟨mid, t, rest, rfl, hretry⟩ :=
        retried_of_open ((after_regular pre).step c) hexists hdone hj hrun hterm
      exact Or.inr ⟨mid, t, rest, rfl, by rw [hsplit]; exact hretry⟩
  · intro pre mid c d runId hlate hlate' htoken hcloses hagain
    obtain ⟨hdone, hexists, -⟩ := closes_cases (after_regular pre) hcloses hlate
    have hstill : runId ∈ (Db.after (pre ++ c :: mid)).runs.map Run.id := by
      rw [hsplit]
      have hreg := (after_regular pre).step c
      exact (Trace.exec_invariant Db.step (I := fun db => db.Regular ∧ runId ∈ db.runs.map Run.id)
        (fun db t h => ⟨h.1.step t, step_runIds h.1.keyed h.1.owned t runId h.2⟩)
        ⟨hreg, hexists⟩ mid).2
    obtain ⟨-, -, hnew | ⟨j, hj, hrun, hwhy⟩⟩ :=
      closes_cases (after_regular (pre ++ c :: mid)) hagain hlate'
    · exact absurd hstill hnew
    · have hopen : j.state.terminal = false := by
        rcases hwhy with htok | hopen
        · exact absurd htok (by simp [htoken])
        · exact hopen
      refine ⟨j, hj, hrun, ?_⟩
      rw [hsplit] at hj
      obtain ⟨front, t, rest, rfl, hretry⟩ :=
        retried_of_open ((after_regular pre).step c) hexists hdone hj hrun hopen
      exact ⟨front, t, rest, rfl, by rw [hsplit]; exact hretry⟩

/-- An operator retries the finished job, and a worker reserves and starts it. -/
def secondAttempt : List Txn :=
  [ .jobAction (secs 10) .retry 10,
    .reserve (secs 11) ⟨10, 1, "shop", 2, .plain, 100, secs 10⟩ 1 [] 102 (secs leaseSeconds),
    .start (secs 12) ⟨10, 1, "shop", "shop.example", 0, 1, [], [], 2, 102, none⟩ 1 none
      (secs leaseSeconds) ]

/-- Behind the running job of the closed run, and before its second closing, stands the retry. -/
theorem reopened_by_retry :
    (∀ j ∈ (Db.after (startedRun ++ firstFinish :: secondAttempt)).jobs, j.runId = 1 →
      j.state.terminal = true ∨ ∃ mid t rest, secondAttempt = mid ++ t :: rest ∧
        (Db.after (startedRun ++ firstFinish :: mid)).retriesJob j.id t = true) ∧
    ∃ j ∈ (Db.after (startedRun ++ firstFinish :: secondAttempt)).jobs, j.runId = 1 ∧
      ∃ front t rest, secondAttempt = front ++ t :: rest ∧
        (Db.after (startedRun ++ firstFinish :: front)).retriesJob j.id t = true := by
  have hfirst : (Db.after startedRun).Closes 1 firstFinish := by
    unfold Closes
    decide
  have hsecond : (Db.after (startedRun ++ firstFinish :: secondAttempt)).Closes 1
      (.finishJob (secs 13) 10 .succeeded none none (some 102)) := by
    unfold Closes
    decide
  exact ⟨closed_run_reopened_only_by_retry.2.1 startedRun secondAttempt firstFinish 1 rfl hfirst,
    closed_run_reopened_only_by_retry.2.2 startedRun secondAttempt firstFinish _ 1 rfl rfl rfl hfirst
      hsecond⟩

/-- A retried job is queued again while its run stays closed. -/
theorem closed_run_with_queued_job :
    (∃ r ∈ (Db.after (startedRun ++ [firstFinish, .jobAction (secs 10) .retry 10])).runs,
        r.id = 1 ∧ r.status = .complete) ∧
      ∃ j ∈ (Db.after (startedRun ++ [firstFinish, .jobAction (secs 10) .retry 10])).jobs,
        j.runId = 1 ∧ j.state = .queued := by
  decide

end Db

end CommerceCollector
