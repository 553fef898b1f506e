import CommerceCollector.Control.Transactions

/-!
# The attempt budget

`reserve` refuses a job without attempts, but the attempt is only spent later, by `start`, in
another transaction; in between four statements set or clear `resume_without_attempt`.  The row
invariant that carries the budget across is `Job.Budget`: a leased row has an attempt left or need
not spend one, and no pause is pending on it, so that `RESUME_JOB` cannot take the exemption away.
-/

namespace CommerceCollector

open Relational

/-! ## The row invariant -/

/-- The budget of a job row. -/
structure Job.Budget (j : Job) : Prop where
  /-- No more attempts were spent than allowed. -/
  within : j.attempt ≤ j.maxAttempts
  /-- A leased job can be started. -/
  armed : j.state = .leased → j.exhausted = false
  /-- A leased job is not asked to pause. -/
  unpaused : j.state = .leased → j.pauseRequested = false

theorem Job.budget_of_not_leased {j : Job} (hwithin : j.attempt ≤ j.maxAttempts)
    (hstate : j.state ≠ .leased) : j.Budget :=
  ⟨hwithin, fun h => absurd h hstate, fun h => absurd h hstate⟩

/-- A terminal state is not `leased`. -/
theorem JobState.ne_leased_of_terminal {s : JobState} (h : s.terminal = true) : s ≠ .leased := by
  rintro rfl
  exact absurd h (by decide)

theorem Job.cancel_state_ne_leased (j : Job) (now : Time) {ending : JobState}
    (hend : ending.terminal = true) : (j.cancel now ending).state ≠ .leased := by
  have hne := JobState.ne_leased_of_terminal hend
  unfold Job.cancel Job.idle
  cases hs : j.state <;> simp [hne]

theorem Job.pause_state_ne_leased (j : Job) (bySource : Bool) :
    (j.pause bySource).state ≠ .leased := by
  unfold Job.pause
  cases hs : j.state <;> simp

/-- Resuming keeps the budget: a leased job is not asked to pause, so the statement does not apply
to it. -/
theorem Job.Budget.resume {j : Job} (h : j.Budget) (now : Time) (hadm : j.resumable = true) :
    (j.resume now).Budget := by
  refine Job.budget_of_not_leased h.within ?_
  intro hleased
  have hstate : j.state = .leased := by
    cases hs : j.state <;> simp [Job.resume, hs] at hleased ⊢
  have hpause := h.unpaused hstate
  exact absurd hadm (by simp [Job.resumable, hstate, hpause])

theorem JobStep.budget {t : Txn} {j j' : Job} (hs : JobStep t j j') (h : j.Budget) : j'.Budget := by
  cases hs with
  | withdraw _ _ hstate =>
    refine Job.budget_of_not_leased h.within (JobState.ne_leased_of_terminal ?_)
    rcases hstate with rfl | rfl <;> rfl
  | exhaust => exact Job.budget_of_not_leased h.within (by simp [Job.exhaust])
  | reroute => exact ⟨h.within, h.armed, h.unpaused⟩
  | claim _ _ hex hpause => exact ⟨h.within, fun _ => hex, fun _ => hpause⟩
  | start hst =>
    refine Job.budget_of_not_leased ?_ (by simp [Job.start])
    simp only [Job.startable, Bool.and_eq_true, beq_iff_eq] at hst
    have harmed := h.armed hst.1.1.1.2
    simp only [Job.exhausted, Bool.and_eq_false_iff, decide_eq_false_iff_not, not_le,
      Bool.not_eq_false'] at harmed
    have hwithin := h.within
    unfold Job.start
    dsimp only
    rcases harmed with hleft | hresumed
    · split <;> omega
    · rw [if_pos hresumed]
      omega
  | renew => exact ⟨h.within, h.armed, h.unpaused⟩
  | release => exact Job.budget_of_not_leased h.within (by simp [Job.release])
  | escalate => exact Job.budget_of_not_leased h.within (by simp [Job.escalate])
  | repair =>
    unfold Job.repair
    split
    · exact Job.budget_of_not_leased h.within (by simp [Job.exhaust])
    · exact Job.budget_of_not_leased h.within (by simp)
  | finish hstate =>
    exact Job.budget_of_not_leased h.within (JobState.ne_leased_of_terminal hstate)
  | pauseFinish => exact Job.budget_of_not_leased h.within (by simp [Job.pauseFinish])
  | act hadm =>
    rename_i now action
    cases action with
    | pause => exact Job.budget_of_not_leased h.within (j.pause_state_ne_leased false)
    | resume => exact h.resume now hadm
    | cancel => exact Job.budget_of_not_leased h.within (j.cancel_state_ne_leased now rfl)
    | retry => exact Job.budget_of_not_leased (Nat.zero_le _) (by simp [Job.act, Job.retry])
  | cancelRun => exact Job.budget_of_not_leased h.within (j.cancel_state_ne_leased _ rfl)
  | disable => exact Job.budget_of_not_leased h.within (j.cancel_state_ne_leased _ rfl)
  | pauseSource => exact Job.budget_of_not_leased h.within (j.pause_state_ne_leased true)
  | resumeSource => exact Job.budget_of_not_leased h.within (by simp [Job.resumeWithSource])
  | redrive => exact ⟨h.within, h.armed, h.unpaused⟩

theorem Db.after_budget (txns : List Txn) : ∀ j ∈ (Db.after txns).jobs, j.Budget := by
  refine Db.after_rows (fun db t j hnew => ?_) (fun t j j' hs h => hs.budget h) txns
  cases hnew with
  | planRun => exact Job.budget_of_not_leased (Nat.zero_le _) (by simp [NewJob.toJob])

/-! ## Counting starts -/

/-- The transactions that write the `attempt` column. -/
def Txn.writesAttempt : Txn → Bool
  | .start .. | .jobAction _ .retry _ => true
  | _ => false

/-- Only `start` and `RETRY_JOB` change the attempts of a row. -/
theorem JobStep.attempt_eq {t : Txn} {j j' : Job} (hs : JobStep t j j')
    (ht : t.writesAttempt = false) : j'.attempt = j.attempt := by
  cases hs with
  | start => exact absurd ht (by simp [Txn.writesAttempt])
  | act =>
    rename_i action _
    cases action with
    | retry => exact absurd ht (by simp [Txn.writesAttempt])
    | _ => rfl
  | repair =>
    unfold Job.repair
    split <;> rfl
  | _ => rfl

namespace Db

variable {db : Db}

/-- The transaction is a `start` of the job, and it succeeds. -/
def startsJob (db : Db) (jobId : Uuid) : Txn → Bool
  | .start now job worker _ _ =>
    job.id == jobId && db.jobs.any fun j => j.startable now job worker
  | _ => false

/-- The transaction is a `start` of the job that succeeds with `resume_without_attempt` false. -/
def spendsAttempt (db : Db) (jobId : Uuid) : Txn → Bool
  | .start now job worker _ _ =>
    job.id == jobId && db.jobs.any fun j => j.startable now job worker && !j.resumeWithoutAttempt
  | _ => false

/-- The transaction is a `RETRY_JOB` of the job, and it succeeds. -/
def retriesJob (db : Db) (jobId : Uuid) : Txn → Bool
  | .jobAction _ .retry id => id == jobId && db.jobs.any fun j => j.id == jobId && j.state.terminal
  | _ => false

/-- The count of spent attempts after one transaction. -/
def nextAttempt (db : Db) (jobId : Uuid) (t : Txn) (n : ℕ) : ℕ :=
  if db.retriesJob jobId t then 0 else if db.spendsAttempt jobId t then n + 1 else n

/-- The starts of a job that spent an attempt since its last retry, added to those counted
before. -/
def spentSince (jobId : Uuid) : Db → List Txn → ℕ → ℕ
  | _, [], n => n
  | db, t :: ts, n => (db.step t).spentSince jobId ts (db.nextAttempt jobId t n)

/-- A start spends an attempt of a row iff it selects the row and the row is not exempt. -/
theorem spendsAttempt_start (hkey : Keyed Job.id db.jobs) {j : Job} (hj : j ∈ db.jobs) (now : Time)
    (job : ClaimedJob) (worker : Uuid) (trace : Option String) (lease : Time) :
    db.spendsAttempt j.id (.start now job worker trace lease) =
      (j.startable now job worker && !j.resumeWithoutAttempt) := by
  by_cases hid : job.id = j.id
  · have hany := hkey.any_eq hj
      (p := fun i => i.startable now job worker && !i.resumeWithoutAttempt) fun i hi => by
        simp only [Job.startable, Bool.and_eq_true, beq_iff_eq] at hi
        rw [hi.1.1.1.1.1.1.1, hid]
    simp only [spendsAttempt, hid, beq_self_eq_true, Bool.true_and, hany]
  · have hnot : j.startable now job worker = false := by
      simp [Job.startable, Ne.symm hid]
    simp [spendsAttempt, hid, hnot]

theorem retriesJob_retry (hkey : Keyed Job.id db.jobs) {j : Job} (hj : j ∈ db.jobs) (now : Time)
    (id : Uuid) :
    db.retriesJob j.id (.jobAction now .retry id) = (j.id == id && j.state.terminal) := by
  have hany := hkey.any_eq hj (p := fun i => i.id == j.id && i.state.terminal) fun i hi => by
    simp only [Bool.and_eq_true, beq_iff_eq] at hi
    exact hi.1
  simp only [retriesJob, hany, beq_self_eq_true, Bool.true_and]
  rw [Bool.beq_comm]

/-- `start` rewrites the startable row, if there is one. -/
theorem start_jobs (db : Db) (now : Time) (job : ClaimedJob) (worker : Uuid)
    (trace : Option String) (lease : Time) :
    (db.start now job worker trace lease).jobs =
      update (fun j => j.startable now job worker) (fun j => j.start now trace lease) db.jobs := by
  unfold Db.start
  split
  · rfl
  · next hnone =>
    rw [update_eq_self]
    intro j hj
    by_contra hsel
    exact hnone (List.any_eq_true.mpr ⟨j, hj, by simpa using hsel⟩)

theorem nextAttempt_of_not_writesAttempt {t : Txn} (ht : t.writesAttempt = false) (jobId : Uuid)
    (n : ℕ) : db.nextAttempt jobId t n = n := by
  cases t with
  | start => exact absurd ht (by simp [Txn.writesAttempt])
  | jobAction now action id =>
    cases action with
    | retry => exact absurd ht (by simp [Txn.writesAttempt])
    | _ => rfl
  | _ => rfl

/-- What `start` does to the attempts. -/
theorem start_attempt (hkey : Keyed Job.id db.jobs) (now : Time) (job : ClaimedJob)
    (worker : Uuid) (trace : Option String) (lease : Time) :
    ∀ j' ∈ (db.step (.start now job worker trace lease)).jobs, ∃ j ∈ db.jobs, j.id = j'.id ∧
      j'.attempt = db.nextAttempt j.id (.start now job worker trace lease) j.attempt := by
  intro j' hj'
  rw [Db.step, start_jobs] at hj'
  obtain ⟨j, hj, rfl⟩ := mem_update.mp hj'
  have hspends := spendsAttempt_start hkey hj now job worker trace lease
  refine ⟨j, hj, ?_, ?_⟩
  · split <;> rfl
  · unfold nextAttempt
    rw [hspends]
    cases j.startable now job worker with
    | false => simp [retriesJob]
    | true => cases hwo : j.resumeWithoutAttempt <;> simp [retriesJob, hwo, Job.start]

/-- What `RETRY_JOB` does to the attempts. -/
theorem retry_attempt (hkey : Keyed Job.id db.jobs) (now : Time) (id : Uuid) :
    ∀ j' ∈ (db.step (.jobAction now .retry id)).jobs, ∃ j ∈ db.jobs, j.id = j'.id ∧
      j'.attempt = db.nextAttempt j.id (.jobAction now .retry id) j.attempt := by
  intro j' hj'
  rw [Db.step, jobAction_jobs] at hj'
  obtain ⟨j, hj, rfl⟩ := mem_update.mp hj'
  have hretries := retriesJob_retry hkey hj now id
  refine ⟨j, hj, ?_, ?_⟩
  · split <;> rfl
  · unfold nextAttempt
    rw [hretries, Job.admits]
    cases (j.id == id && j.state.terminal) with
    | false => simp [spendsAttempt]
    | true => simp [Job.act, Job.retry]

/-- **What a transaction does to the attempts.**  A row comes from a row with the same id, its
attempts counted on, or it is new, without attempts. -/
theorem step_attempt (hkey : Keyed Job.id db.jobs) (t : Txn) :
    ∀ j' ∈ (db.step t).jobs,
      (∃ j ∈ db.jobs, j.id = j'.id ∧ j'.attempt = db.nextAttempt j.id t j.attempt) ∨
        (j'.id ∉ db.jobs.map Job.id ∧ j'.attempt = 0) := by
  intro j' hj'
  cases ht : t.writesAttempt with
  | false =>
    obtain ⟨rows, new, hjobs, hrows, hnew, -⟩ := step_jobs hkey t
    rw [hjobs, List.mem_append] at hj'
    rcases hj' with hj' | hj'
    · obtain ⟨j, hj, hrw⟩ := hrows.exists_old hj'
      refine Or.inl ⟨j, hj, ?_, ?_⟩
      · rcases hrw with rfl | hs
        · rfl
        · exact hs.fixed.1.symm
      · rw [nextAttempt_of_not_writesAttempt ht]
        rcases hrw with rfl | hs
        · rfl
        · exact hs.attempt_eq ht
    · cases hnew j' hj' with
      | planRun _ _ hid => exact Or.inr ⟨hid, rfl⟩
  | true =>
    cases t with
    | start => exact Or.inl (start_attempt hkey _ _ _ _ _ j' hj')
    | jobAction now action id =>
      cases action with
      | retry => exact Or.inl (retry_attempt hkey now id j' hj')
      | _ => exact absurd ht (by simp [Txn.writesAttempt])
    | _ => exact absurd ht (by simp [Txn.writesAttempt])

theorem nextAttempt_of_not_mem {jobId : Uuid} (h : jobId ∉ db.jobs.map Job.id) (t : Txn) (n : ℕ) :
    db.nextAttempt jobId t n = n := by
  have hany : ∀ p : Job → Bool, (∀ j, p j = true → j.id = jobId) → db.jobs.any p = false := by
    intro p hp
    rw [Bool.eq_false_iff]
    intro hsel
    obtain ⟨j, hj, hpj⟩ := List.any_eq_true.mp hsel
    exact h (List.mem_map.mpr ⟨j, hj, hp j hpj⟩)
  cases t with
  | start now job worker trace lease =>
    have hspends : db.spendsAttempt jobId (.start now job worker trace lease) = false := by
      by_cases hid : job.id = jobId
      · simp only [spendsAttempt, Bool.and_eq_false_iff]
        refine Or.inr (hany _ fun j hj => ?_)
        simp only [Job.startable, Bool.and_eq_true, beq_iff_eq] at hj
        rw [hj.1.1.1.1.1.1.1, hid]
      · simp [spendsAttempt, hid]
    simp [nextAttempt, retriesJob, hspends]
  | jobAction now action id =>
    cases action with
    | retry =>
      have hretries : db.retriesJob jobId (.jobAction now .retry id) = false := by
        simp only [retriesJob, Bool.and_eq_false_iff]
        refine Or.inr (hany _ fun j hj => ?_)
        simp only [Bool.and_eq_true, beq_iff_eq] at hj
        exact hj.1
      simp [nextAttempt, spendsAttempt, hretries]
    | _ => rfl
  | _ => rfl

/-- The starts of a job counted along a run, from the attempts the rows have at its beginning. -/
theorem exec_attempt {n : Uuid → ℕ} (hkey : Keyed Job.id db.jobs)
    (hrows : ∀ j ∈ db.jobs, j.attempt = n j.id) (habsent : ∀ id ∉ db.jobs.map Job.id, n id = 0)
    (txns : List Txn) :
    ∀ j ∈ (Trace.exec Db.step db txns).jobs, j.attempt = db.spentSince j.id txns (n j.id) := by
  induction txns generalizing db n with
  | nil => exact hrows
  | cons t ts ih =>
    have hsub : ∀ id, id ∈ db.jobs.map Job.id → id ∈ (db.step t).jobs.map Job.id := by
      intro id hid
      obtain ⟨rows, new, hjobs, hrw, -, -⟩ := step_jobs hkey t
      rw [hjobs, List.map_append, hrw.map_eq fun _ _ h => h.fixed.1]
      exact List.mem_append_left _ hid
    refine ih (n := fun id => db.nextAttempt id t (n id)) (step_keyed hkey t) ?_ ?_
    · intro j' hj'
      rcases step_attempt hkey t j' hj' with ⟨j, hj, hid, hatt⟩ | ⟨hnew, hzero⟩
      · rw [hatt, hrows j hj, hid]
      · rw [hzero, nextAttempt_of_not_mem hnew, habsent j'.id hnew]
    · intro id hid
      have hold : id ∉ db.jobs.map Job.id := fun h => hid (hsub id h)
      rw [nextAttempt_of_not_mem hold, habsent id hold]

end Db

/-! ## Running out of attempts -/

/-- Every attempt is spent, and the next start would spend one. -/
def Job.Spent (j : Job) : Prop := j.attempt = j.maxAttempts ∧ j.resumeWithoutAttempt = false

/-- The transactions that set `resume_without_attempt` on some row: `RESUME_JOB`,
`RESUME_SOURCE_JOBS` and `require_capability`. -/
def Txn.exempts : Txn → Bool
  | .jobAction _ .resume _ | .updateSource .. | .requireCapability .. => true
  | _ => false

theorem JobStep.spent {t : Txn} {j j' : Job} (hs : JobStep t j j') (hbudget : j.Budget)
    (h : j.Spent) :
    j'.Spent ∨ (∃ now, t = .jobAction now .retry j.id ∧ j.state.terminal = true) ∨
      (t.exempts = true ∧ j'.resumeWithoutAttempt = true) := by
  obtain ⟨hatt, hwo⟩ := h
  cases hs with
  | start hst =>
    -- a leased row has an attempt left
    simp only [Job.startable, Bool.and_eq_true, beq_iff_eq] at hst
    have harmed := hbudget.armed hst.1.1.1.2
    exact absurd harmed (by simp [Job.exhausted, hatt, hwo])
  | escalate => exact Or.inr (Or.inr ⟨rfl, rfl⟩)
  | resumeSource => exact Or.inr (Or.inr ⟨rfl, rfl⟩)
  | act hadm =>
    rename_i now action
    cases action with
    | retry => exact Or.inr (Or.inl ⟨now, rfl, hadm⟩)
    | resume =>
      cases hp : j.state == .paused with
      | true => exact Or.inr (Or.inr ⟨rfl, by simpa [Job.act, Job.resume] using hp⟩)
      | false => exact Or.inl ⟨hatt, by simpa [Job.act, Job.resume] using hp⟩
    | pause => exact Or.inl ⟨hatt, hwo⟩
    | cancel => exact Or.inl ⟨hatt, hwo⟩
  | finish => exact Or.inl ⟨hatt, rfl⟩
  | repair =>
    unfold Job.repair
    split <;> exact Or.inl ⟨hatt, hwo⟩
  | _ => exact Or.inl ⟨hatt, hwo⟩

/-- The transaction is a `RETRY_JOB`, of whichever job. -/
def Txn.isRetry : Txn → Bool
  | .jobAction _ .retry _ => true
  | _ => false

namespace Db

/-- The job exists and is spent. -/
def JobSpent (jobId : Uuid) (db : Db) : Prop := ∃ j ∈ db.jobs, j.id = jobId ∧ j.Spent

theorem not_jobSpent_of_startsJob {db : Db} (hkey : Keyed Job.id db.jobs)
    (hbudget : ∀ j ∈ db.jobs, j.Budget) {jobId : Uuid} {t : Txn} (h : db.startsJob jobId t = true) :
    ¬ db.JobSpent jobId := by
  rintro ⟨j, hj, hid, hatt, hwo⟩
  cases t with
  | start now job worker trace lease =>
    simp only [startsJob, Bool.and_eq_true, beq_iff_eq, List.any_eq_true] at h
    obtain ⟨hjob, i, hi, hst⟩ := h
    simp only [Job.startable, Bool.and_eq_true, beq_iff_eq] at hst
    have hsame : i.id = j.id := by rw [hst.1.1.1.1.1.1, hjob, hid]
    obtain rfl := hkey.eq_of_mem hi hj hsame
    have harmed := (hbudget i hi).armed hst.1.1.1.2
    exact absurd harmed (by simp [Job.exhausted, hatt, hwo])
  | _ => exact absurd h (by simp [startsJob])

/-- A transaction after which a spent job is no longer spent retries it or makes it exempt. -/
theorem retried_or_exempt_of_step {db : Db} (hkey : Keyed Job.id db.jobs)
    (hbudget : ∀ j ∈ db.jobs, j.Budget) {jobId : Uuid} {t : Txn} (h : db.JobSpent jobId)
    (hlost : ¬ (db.step t).JobSpent jobId) :
    db.retriesJob jobId t = true ∨
      (t.exempts = true ∧
        ∃ j ∈ (db.step t).jobs, j.id = jobId ∧ j.resumeWithoutAttempt = true) := by
  obtain ⟨j, hj, rfl, hspent⟩ := h
  obtain ⟨rows, new, hjobs, hrows, -, -⟩ := step_jobs hkey t
  obtain ⟨j', hj', hrw⟩ := hrows.exists_new hj
  have hmem : j' ∈ (db.step t).jobs := by
    rw [hjobs]
    exact List.mem_append_left _ hj'
  rcases hrw with rfl | hs
  · exact absurd ⟨j', hmem, rfl, hspent⟩ hlost
  rcases hs.spent (hbudget j hj) hspent with hstill | ⟨now, rfl, hterm⟩ | ⟨hexempt, hwo⟩
  · exact absurd ⟨j', hmem, hs.fixed.1, hstill⟩ hlost
  · refine Or.inl ?_
    rw [retriesJob_retry hkey hj]
    simp [hterm]
  · exact Or.inr ⟨hexempt, j', hmem, hs.fixed.1, hwo⟩

/-- **Attempt budget.**  In every reachable database a job has spent at most its allowed attempts,
and `attempt` is the number of starts since its last retry that were not exempt.  A job with no
attempt left and no exemption is only started again after a retry of it or after a statement that
exempted it. -/
theorem attempt_budget :
    (∀ (txns : List Txn), ∀ j ∈ (Db.after txns).jobs,
      j.attempt ≤ j.maxAttempts ∧ j.attempt = ({} : Db).spentSince j.id txns 0) ∧
    ∀ (pre post : List Txn) (jobId : Uuid) (t : Txn),
      (Db.after pre).JobSpent jobId → (Db.after (pre ++ post)).startsJob jobId t = true →
      ∃ mid u rest, post = mid ++ u :: rest ∧
        ((Db.after (pre ++ mid)).retriesJob jobId u = true ∨
          (u.exempts = true ∧ ∃ j ∈ (Db.after (pre ++ mid ++ [u])).jobs,
            j.id = jobId ∧ j.resumeWithoutAttempt = true)) := by
  constructor
  · intro txns j hj
    refine ⟨(after_budget txns j hj).within, ?_⟩
    have hempty : Keyed Job.id ({} : Db).jobs := List.nodup_nil
    exact exec_attempt (n := fun _ => 0) hempty (by simp) (fun _ _ => rfl) txns j hj
  · intro pre post jobId t hspent hstarts
    have hend : ¬ (Trace.exec Db.step (Db.after pre) post).JobSpent jobId := by
      have hnot := not_jobSpent_of_startsJob (after_keyed (pre ++ post))
        (after_budget (pre ++ post)) hstarts
      rwa [Db.after, Trace.exec_append] at hnot
    obtain ⟨mid, u, rest, rfl, hbefore, hlost⟩ :=
      Trace.exists_step_of_change Db.step (P := JobSpent jobId) hspent hend
    have hmid : Trace.exec Db.step (Db.after pre) mid = Db.after (pre ++ mid) :=
      (Trace.exec_append Db.step {} pre mid).symm
    have hstep : (Db.after (pre ++ mid)).step u = Db.after (pre ++ mid ++ [u]) :=
      (Trace.exec_append Db.step {} (pre ++ mid) [u]).symm
    rw [hmid] at hbefore hlost
    have hcause := retried_or_exempt_of_step (after_keyed (pre ++ mid)) (after_budget (pre ++ mid))
      hbefore hlost
    rw [hstep] at hcause
    exact ⟨mid, u, rest, rfl, hcause⟩

/-! ## A pause in the last attempt -/

/-- A job with one attempt is planned, reserved and started. -/
def lastAttemptRun : List Txn :=
  [ .planRun 0 1 none [⟨10, "shop", "shop.example", []⟩] 100 1,
    .reserve (secs 1) ⟨10, 1, "shop", 1, .plain, 100, 0⟩ 1 [] 101 (secs leaseSeconds),
    .start (secs 2) ⟨10, 1, "shop", "shop.example", 0, 1, [], [], 1, 101, none⟩ 1 none
      (secs leaseSeconds) ]

/-- An operator pauses the running job and resumes it, and a worker reserves it again. -/
def pauseResumeRun : List Txn :=
  [ .jobAction (secs 10) .pause 10,
    .pauseFinish ⟨10, 1, "shop", "shop.example", 0, 1, [], [], 1, 101, none⟩ none,
    .jobAction (secs 20) .resume 10,
    .reserve (secs 21) ⟨10, 1, "shop", 2, .plain, 100, secs 20⟩ 2 [] 102 (secs leaseSeconds) ]

/-- The job whose only attempt is spent is started a second time without a retry. -/
theorem spent_job_restarted_without_retry :
    ((Db.after lastAttemptRun).job? 10).any
        (fun j => j.attempt == j.maxAttempts && !j.resumeWithoutAttempt) = true ∧
      (pauseResumeRun.all fun t => !t.isRetry) = true ∧
      (Db.after (lastAttemptRun ++ pauseResumeRun)).startsJob 10
        (.start (secs 22) ⟨10, 1, "shop", "shop.example", 1, 1, [], [], 2, 102, none⟩ 2 none
          (secs leaseSeconds)) = true := by
  decide

/-- Behind this second start stands a statement that exempted the job. -/
theorem exempted_before_restart :
    ∃ mid u rest, pauseResumeRun = mid ++ u :: rest ∧
      ((Db.after (lastAttemptRun ++ mid)).retriesJob 10 u = true ∨
        (u.exempts = true ∧ ∃ j ∈ (Db.after (lastAttemptRun ++ mid ++ [u])).jobs,
          j.id = 10 ∧ j.resumeWithoutAttempt = true)) := by
  refine attempt_budget.2 lastAttemptRun pauseResumeRun 10
    (.start (secs 22) ⟨10, 1, "shop", "shop.example", 1, 1, [], [], 2, 102, none⟩ 2 none
      (secs leaseSeconds)) ?_ (by decide)
  show ∃ j ∈ (Db.after lastAttemptRun).jobs,
    j.id = 10 ∧ j.attempt = j.maxAttempts ∧ j.resumeWithoutAttempt = false
  decide

end Db

end CommerceCollector
