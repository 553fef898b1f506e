import CommerceCollector.Control.Actions
import CommerceCollector.Ops.Leases

/-!
# The transactions on the queue

`Txn` lists the transactions that workers, the dispatcher and the control service commit on the
queue's tables, and `Db.step` is the effect of one of them.  The arguments are arbitrary: any worker
may present any claimed job, token or timestamp, so a run of `Db.step` contains every interleaving
of every number of workers.  Each transaction carries the `now()` it reads.

`JobStep` says once what a transaction can do to a job row, guards included, and `step_jobs` is the
theorem that no transaction does anything else.  The row invariants of the later modules are case
analyses over `JobStep`.
-/

namespace CommerceCollector

open Relational

/-- A committed transaction. -/
inductive Txn
  /-- `create_run` and `create_jobs`, as the control API and the scheduler call them. -/
  | planRun (now : Time) (runId : Uuid) (occurrence : Option (String × Time))
      (selected : List NewJob) (priority maxAttempts : ℕ)
  /-- `Dispatcher.tick`. -/
  | tick (now : Time) (locked : List ℕ) (outcome : ℕ → PublishOutcome)
  | reserve (now : Time) (env : JobEnvelope) (worker : Uuid) (capabilities : List Capability)
      (token : Uuid) (lease : Time)
  | start (now : Time) (job : ClaimedJob) (worker : Uuid) (trace : Option String) (lease : Time)
  | startRun (now : Time) (runId : Uuid)
  | renew (now : Time) (job : ClaimedJob) (worker : Uuid) (lease : Time)
  | release (now : Time) (job : ClaimedJob) (worker : Uuid) (delay : Time)
  | requireCapability (now : Time) (job : ClaimedJob) (worker : Uuid) (capability : Capability)
  | finishJob (now : Time) (jobId : Uuid) (state : JobState) (summary : Option JobSummary)
      (error : Option String) (token : Option Uuid)
  /-- The pause branch of `Worker._finish`. -/
  | pauseFinish (job : ClaimedJob) (summary : Option JobSummary)
  | loadFenced (job : ClaimedJob)
  | acquire (now : Time) (host : String) (job worker token : Uuid) (locked : List ℕ)
      (seconds : Time)
  | releaseSlot (host : String) (job token : Uuid)
  | releaseAll (job token : Uuid)
  | renewSlots (now : Time) (worker : Uuid) (tokens : List Uuid) (seconds : Time)
  | configure (host : String) (maxConcurrency : ℕ)
  | jobAction (now : Time) (action : JobAction) (jobId : Uuid)
  /-- The `CANCEL_RUN` statement of `cancel_run`. -/
  | cancelRun (now : Time) (runId : Uuid)
  /-- The last update of the `close_run_if_done` that `cancel_run` calls, with the summary it read
  in an earlier transaction. -/
  | cancelRunClose (now : Time) (runId : Uuid) (summary : RunSummary)
  | updateSource (now : Time) (sourceId : String) (enabled paused : Option Bool)
  | redriveExhausted (now : Time) (env : JobEnvelope)
  | republishCurrent (now : Time)

/-- The effect of a transaction on the tables. -/
def Db.step (db : Db) : Txn → Db
  | .planRun now runId occurrence selected priority maxAttempts =>
    db.planRun now runId occurrence selected priority maxAttempts
  | .tick now locked outcome => (db.tick now locked outcome).1
  | .reserve now env worker capabilities token lease =>
    (db.reserve now env worker capabilities token lease).1
  | .start now job worker trace lease => db.start now job worker trace lease
  | .startRun now runId => db.startRun now runId
  | .renew now job worker lease => db.renew now job worker lease
  | .release now job worker delay => db.release now job worker delay
  | .requireCapability now job worker capability => db.requireCapability now job worker capability
  | .finishJob now jobId state summary error token =>
    db.finishJob now jobId state summary error token
  | .pauseFinish job summary => db.pauseFinish job summary
  | .loadFenced job => db.loadFenced job
  | .acquire now host job worker token locked seconds =>
    (db.acquire now host job worker token locked seconds).1
  | .releaseSlot host job token => db.releaseSlot host job token
  | .releaseAll job token => db.releaseAll job token
  | .renewSlots now worker tokens seconds => db.renewSlots now worker tokens seconds
  | .configure host maxConcurrency => db.configure host maxConcurrency
  | .jobAction now action jobId => db.jobAction now action jobId
  | .cancelRun now runId => db.cancelRun now runId
  | .cancelRunClose now runId summary => db.writeClose now runId summary
  | .updateSource now sourceId enabled paused => db.updateSource now sourceId enabled paused
  | .redriveExhausted now env => db.redriveExhausted now env
  | .republishCurrent now => db.republishCurrent now

/-- The database reached from empty tables by a sequence of transactions. -/
def Db.after (txns : List Txn) : Db := Trace.exec Db.step {} txns

/-! ## What a transaction can do to a job row -/

/-- `JobStep t j j'`: the transaction `t` rewrites the row `j` to `j'`. -/
inductive JobStep : Txn → Job → Job → Prop
  | withdraw {now env worker caps token lease state j}
      (hid : j.id = env.jobId) (hopen : j.state.terminal = false)
      (hstate : state = .skipped ∨ state = .cancelled) :
      JobStep (.reserve now env worker caps token lease) j (j.withdraw now state)
  | exhaust {now env worker caps token lease j}
      (hid : j.id = env.jobId) (hlive : j.live = true) (hex : j.exhausted = true) :
      JobStep (.reserve now env worker caps token lease) j (j.exhaust now)
  | reroute {now env worker caps token lease selected j}
      (hid : j.id = env.jobId) (hlive : j.live = true) (hex : j.exhausted = false) :
      JobStep (.reserve now env worker caps token lease) j (j.reroute selected)
  | claim {now env worker caps token lease selected j}
      (hid : j.id = env.jobId) (hlive : j.live = true) (hex : j.exhausted = false)
      (hpause : j.pauseRequested = false) :
      JobStep (.reserve now env worker caps token lease) j (j.claim now worker token selected lease)
  | start {now job worker trace lease j} (h : j.startable now job worker = true) :
      JobStep (.start now job worker trace lease) j (j.start now trace lease)
  | renew {now job worker lease j} (h : j.renewable job worker = true) :
      JobStep (.renew now job worker lease) j (j.renew now lease)
  | release {now job worker delay j} (h : j.releasable job worker = true) :
      JobStep (.release now job worker delay) j (j.release now delay)
  | escalate {now job worker capability j} (h : j.escalatable job worker capability = true) :
      JobStep (.requireCapability now job worker capability) j (j.escalate capability)
  | repair {now locked outcome j} (h : j.expired now = true) :
      JobStep (.tick now locked outcome) j (j.repair now)
  | finish {now jobId state summary error token j}
      (hstate : state.terminal = true) (h : j.finishable jobId token = true) :
      JobStep (.finishJob now jobId state summary error token) j (j.finish now state summary error)
  | pauseFinish {job summary j} (h : j.heldUnder job = true) :
      JobStep (.pauseFinish job summary) j (j.pauseFinish summary)
  | act {now action j} (h : j.admits action = true) :
      JobStep (.jobAction now action j.id) j (j.act now action)
  | cancelRun {now j} (h : j.cancellable = true) :
      JobStep (.cancelRun now j.runId) j (j.cancel now .cancelled)
  | disable {now enabled paused j} (h : j.cancellable = true) :
      JobStep (.updateSource now j.sourceId enabled paused) j (j.cancel now .skipped)
  | pauseSource {now enabled paused j} (h : j.live = true) :
      JobStep (.updateSource now j.sourceId enabled paused) j (j.pause true)
  | resumeSource {now enabled paused j} (h : j.resumableWith j.sourceId = true) :
      JobStep (.updateSource now j.sourceId enabled paused) j (j.resumeWithSource now)
  | redrive {now env j} (hid : j.id = env.jobId) (hlive : j.live = true) :
      JobStep (.redriveExhausted now env) j
        { j with deliveryGeneration := j.deliveryGeneration + 1 }

/-- `JobNew db t j`: the transaction `t` inserts the row `j`, with a new run and a new id. -/
inductive JobNew (db : Db) : Txn → Job → Prop
  | planRun {now runId occurrence selected priority maxAttempts n position}
      (hn : n ∈ selected) (hrun : runId ∉ db.runs.map Run.id) (hid : n.id ∉ db.jobs.map Job.id) :
      JobNew db (.planRun now runId occurrence selected priority maxAttempts)
        (n.toJob now runId position priority maxAttempts)

namespace Db

variable {db : Db}

theorem eq_of_job? (hkey : Keyed Job.id db.jobs) {jobId : Uuid} {row j : Job}
    (hrow : db.job? jobId = some row) (hj : j ∈ db.jobs) (hid : j.id = jobId) : j = row := by
  obtain ⟨hmem, hrid⟩ := mem_of_find? hrow
  exact hkey.eq_of_mem hj hmem (by rw [hid]; simpa using (eq_comm.mp (beq_iff_eq.mp hrid)))

/-- `reserve` rewrites only the delivered row, and only as it decided. -/
theorem reserve_rewrites (hkey : Keyed Job.id db.jobs) (now : Time) (env : JobEnvelope)
    (worker : Uuid) (caps : List Capability) (token : Uuid) (lease : Time) :
    Rewrites (JobStep (.reserve now env worker caps token lease)) db.jobs
      (db.reserve now env worker caps token lease).1.jobs := by
  have hsound := db.reserveBranch_sound now env caps
  unfold reserve
  cases hb : db.reserveBranch now env caps with
  | stale => exact Rewrites.refl _ _
  | terminal => exact Rewrites.refl _ _
  | held => exact Rewrites.refl _ _
  | unmatched => exact Rewrites.refl _ _
  | early => exact Rewrites.refl _ _
  | conflict => exact Rewrites.refl _ _
  | incapable => exact Rewrites.refl _ _
  | withdrawn row state =>
    rw [hb] at hsound
    obtain ⟨hrow, hopen, hstate⟩ := hsound
    simp only [closeRunIfDone_jobs, emitTerminal_jobs, updateJobs_jobs]
    refine rewrites_update fun j hj hid => ?_
    have hid' : j.id = env.jobId := by simpa using hid
    obtain rfl := eq_of_job? hkey hrow hj hid'
    exact .withdraw hid' hopen hstate
  | exhausted row =>
    rw [hb] at hsound
    obtain ⟨hrow, hres, hex⟩ := hsound
    simp only [emitTerminal_jobs, updateJobs_jobs]
    refine rewrites_update fun j hj hid => ?_
    have hid' : j.id = env.jobId := by simpa using hid
    obtain rfl := eq_of_job? hkey hrow hj hid'
    exact .exhaust hid' hres.live hex
  | reroute row selected =>
    rw [hb] at hsound
    obtain ⟨hrow, hres, hex⟩ := hsound
    simp only [enqueueJob_jobs, updateJobs_jobs]
    refine rewrites_update fun j hj hid => ?_
    have hid' : j.id = env.jobId := by simpa using hid
    obtain rfl := eq_of_job? hkey hrow hj hid'
    exact .reroute hid' hres.live hex
  | claim row selected =>
    rw [hb] at hsound
    obtain ⟨hrow, hres, hex⟩ := hsound
    simp only [emit_jobs, updateJobs_jobs]
    refine rewrites_update fun j hj hid => ?_
    have hid' : j.id = env.jobId := by
      simp only [Bool.and_eq_true, beq_iff_eq] at hid
      exact hid.1
    obtain rfl := eq_of_job? hkey hrow hj hid'
    exact .claim hid' hres.live hex hres.pause

/-- `job_action` rewrites only the addressed row, by the statement of the action. -/
theorem jobAction_rewrites (now : Time) (action : JobAction) (jobId : Uuid) :
    Rewrites (JobStep (.jobAction now action jobId)) db.jobs
      (db.jobAction now action jobId).jobs := by
  rw [jobAction_jobs]
  refine rewrites_update fun j _ hj => ?_
  simp only [Bool.and_eq_true, beq_iff_eq] at hj
  obtain ⟨rfl, hadm⟩ := hj
  exact .act hadm

/-- `update_source` disables, pauses or resumes the jobs of the source, or leaves them alone. -/
theorem updateSource_rewrites (now : Time) (sourceId : String) (enabled paused : Option Bool) :
    Rewrites (JobStep (.updateSource now sourceId enabled paused)) db.jobs
      (db.updateSource now sourceId enabled paused).jobs := by
  unfold updateSource
  simp only [emit_jobs]
  cases hen : enabled.getD (db.sourceEnabled sourceId) with
  | false =>
    simp only [Bool.false_eq_true, if_false, Bool.false_and, disableSourceJobs_jobs,
      upsertSource_jobs]
    refine rewrites_update fun j _ hj => ?_
    simp only [Bool.and_eq_true, beq_iff_eq] at hj
    obtain ⟨rfl, hc⟩ := hj
    exact .disable hc
  | true =>
    simp only [if_true, Bool.true_and]
    split
    · simp only [pauseSourceJobs_jobs, upsertSource_jobs]
      refine rewrites_update fun j _ hj => ?_
      simp only [Bool.and_eq_true, beq_iff_eq] at hj
      obtain ⟨rfl, hl⟩ := hj
      exact .pauseSource hl
    split
    · simp only [resumeSourceJobs_jobs, upsertSource_jobs]
      refine rewrites_update fun j _ hj => ?_
      have hsource : j.sourceId = sourceId := by
        simp only [Job.resumableWith, Bool.and_eq_true, beq_iff_eq] at hj
        exact hj.1.1
      subst hsource
      exact .resumeSource hj
    · exact Rewrites.refl _ _

/-- `redrive_exhausted` moves only the exhausted row to a new generation. -/
theorem redriveExhausted_rewrites (hkey : Keyed Job.id db.jobs) (now : Time) (env : JobEnvelope) :
    Rewrites (JobStep (.redriveExhausted now env)) db.jobs (db.redriveExhausted now env).jobs := by
  unfold redriveExhausted
  split
  · exact Rewrites.refl _ _
  next row hrow =>
  split
  · exact Rewrites.refl _ _
  next hcond =>
  simp only [enqueueJob_jobs, updateJobs_jobs]
  refine rewrites_update fun j hj hid => ?_
  have hid' : j.id = env.jobId := by simpa using hid
  obtain rfl := eq_of_job? hkey hrow hj hid'
  refine .redrive hid' ?_
  simp only [Bool.or_eq_true, not_or, eligible] at hcond
  have hel := hcond.2
  simp only [Bool.not_eq_true', Bool.not_eq_false] at hel
  simp only [Bool.and_eq_true] at hel
  exact hel.1.1.1.1

/-- A planned run inserts new jobs with new ids and changes no other row. -/
theorem planRun_jobs (db : Db) (now : Time) (runId : Uuid) (occurrence : Option (String × Time))
    (selected : List NewJob) (priority maxAttempts : ℕ) :
    ∃ new : List Job,
      (db.planRun now runId occurrence selected priority maxAttempts).jobs = db.jobs ++ new ∧
      (∀ j ∈ new, JobNew db (.planRun now runId occurrence selected priority maxAttempts) j) ∧
      (new.map Job.id).Nodup := by
  unfold planRun
  split
  · exact ⟨[], by simp, by simp, by simp⟩
  next hguard =>
  simp only [Bool.or_eq_true, not_or, decide_eq_true_eq, List.any_eq_true, not_exists, not_and,
    Bool.not_eq_true', decide_eq_false_iff_not, not_not] at hguard
  obtain ⟨⟨hrun, hids⟩, hnodup⟩ := hguard
  unfold createRun
  split
  · exact ⟨[], by simp, by simp, by simp⟩
  next created hcreated =>
  split at hcreated
  · exact absurd hcreated (by simp)
  obtain rfl := Option.some.inj hcreated
  obtain ⟨new, hsub, hjobs⟩ := createJobs_jobs
    (({ db with runs := db.runs ++ [Run.new runId occurrence] }).emit
      { type := .runCreated, runId := some runId }) now runId selected priority maxAttempts
  refine ⟨new.map fun p : NewJob × ℕ => p.1.toJob now runId p.2 priority maxAttempts, hjobs, ?_, ?_⟩
  · intro j hj
    obtain ⟨p, hp, rfl⟩ := List.mem_map.mp hj
    have hsel : p.1 ∈ selected := mem_selected_of_mem_plannedJobs (hsub.subset hp)
    exact .planRun hsel hrun (hids p.1 hsel)
  · rw [List.map_map]
    exact (((hsub.map _).trans (plannedJobs_ids _ _)).nodup hnodup)

/-- **What a transaction does to the jobs.**  It rewrites existing rows as `JobStep` allows, and a
planned run appends new ones. -/
theorem step_jobs (hkey : Keyed Job.id db.jobs) (t : Txn) :
    ∃ rows new, (db.step t).jobs = rows ++ new ∧ Rewrites (JobStep t) db.jobs rows ∧
      (∀ j ∈ new, JobNew db t j) ∧ (new.map Job.id).Nodup := by
  have hkeep : ∀ {d : Db}, Rewrites (JobStep t) db.jobs d.jobs →
      ∃ rows new, d.jobs = rows ++ new ∧ Rewrites (JobStep t) db.jobs rows ∧
        (∀ j ∈ new, JobNew db t j) ∧ (new.map Job.id).Nodup :=
    fun h => ⟨_, [], (List.append_nil _).symm, h, by simp, by simp⟩
  cases t with
  | planRun now runId occurrence selected priority maxAttempts =>
    obtain ⟨new, hjobs, hnew, hnodup⟩ :=
      planRun_jobs db now runId occurrence selected priority maxAttempts
    exact ⟨db.jobs, new, hjobs, Rewrites.refl _ _, hnew, hnodup⟩
  | tick now locked outcome =>
    refine hkeep ?_
    rw [Db.step, tick_jobs]
    exact rewrites_update fun j _ hj => .repair hj
  | reserve => exact hkeep (reserve_rewrites hkey _ _ _ _ _ _)
  | start now job worker trace lease =>
    refine hkeep ?_
    simp only [Db.step, Db.start]
    split
    · exact rewrites_update fun j _ hj => .start hj
    · exact Rewrites.refl _ _
  | startRun now runId =>
    refine hkeep ?_
    simp only [Db.step, Db.startRun]
    split <;> exact Rewrites.refl _ _
  | renew => exact hkeep (rewrites_update fun j _ hj => .renew hj)
  | release now job worker delay =>
    refine hkeep ?_
    simp only [Db.step, Db.release]
    split
    · exact rewrites_update fun j _ hj => .release hj
    · exact Rewrites.refl _ _
  | requireCapability now job worker capability =>
    refine hkeep ?_
    simp only [Db.step, Db.requireCapability]
    split
    · simp only [emit_jobs, enqueueJob_jobs, updateJobs_jobs]
      exact rewrites_update fun j _ hj => .escalate hj
    · exact Rewrites.refl _ _
  | finishJob now jobId state summary error token =>
    refine hkeep ?_
    simp only [Db.step, Db.finishJob]
    split
    · exact Rewrites.refl _ _
    next hstate =>
    split
    · exact Rewrites.refl _ _
    · simp only [closeRunIfDone_jobs, emit_jobs, updateLeases_jobs, updateJobs_jobs]
      exact rewrites_update fun j _ hj => .finish (by simpa using hstate) hj
  | pauseFinish job summary =>
    refine hkeep ?_
    simp only [Db.step, Db.pauseFinish]
    split
    · exact Rewrites.refl _ _
    · exact rewrites_update fun j _ hj => .pauseFinish hj
  | loadFenced job =>
    refine hkeep ?_
    simp only [Db.step, Db.loadFenced]
    split <;> exact Rewrites.refl _ _
  | acquire =>
    refine hkeep ?_
    rw [Db.step, acquire_jobs]
    exact Rewrites.refl _ _
  | releaseSlot => exact hkeep (Rewrites.refl _ _)
  | releaseAll => exact hkeep (Rewrites.refl _ _)
  | renewSlots => exact hkeep (Rewrites.refl _ _)
  | configure =>
    refine hkeep ?_
    rw [Db.step, configure_jobs]
    exact Rewrites.refl _ _
  | jobAction => exact hkeep (jobAction_rewrites _ _ _)
  | cancelRun now runId =>
    refine hkeep ?_
    rw [Db.step, cancelRun_jobs]
    refine rewrites_update fun j _ hj => ?_
    simp only [Bool.and_eq_true, beq_iff_eq] at hj
    obtain ⟨rfl, hc⟩ := hj
    exact .cancelRun hc
  | cancelRunClose => exact hkeep (Rewrites.refl _ _)
  | updateSource => exact hkeep (updateSource_rewrites _ _ _ _)
  | redriveExhausted => exact hkeep (redriveExhausted_rewrites hkey _ _)
  | republishCurrent now =>
    refine hkeep ?_
    simp only [Db.step, republishCurrent, reconstructMissing_jobs]
    exact Rewrites.refl _ _

end Db

/-! ## Columns no transaction changes -/

/-- No transaction changes the id, the run, the source, the host or the attempt limit of a job. -/
theorem JobStep.fixed {t : Txn} {j j' : Job} (h : JobStep t j j') :
    j'.id = j.id ∧ j'.runId = j.runId ∧ j'.sourceId = j.sourceId ∧ j'.host = j.host ∧
      j'.maxAttempts = j.maxAttempts := by
  cases h with
  | act h => rename_i action; cases action <;> exact ⟨rfl, rfl, rfl, rfl, rfl⟩
  | repair h =>
    unfold Job.repair
    split <;> exact ⟨rfl, rfl, rfl, rfl, rfl⟩
  | _ => exact ⟨rfl, rfl, rfl, rfl, rfl⟩

namespace Db

variable {db : Db}

theorem step_keyed (hkey : Keyed Job.id db.jobs) (t : Txn) :
    Keyed Job.id (db.step t).jobs := by
  obtain ⟨rows, new, hjobs, hrows, hnew, hnodup⟩ := step_jobs hkey t
  have hids : rows.map Job.id = db.jobs.map Job.id := hrows.map_eq fun _ _ h => h.fixed.1
  unfold Keyed
  rw [hjobs, List.map_append, hids, List.nodup_append]
  refine ⟨hkey, hnodup, ?_⟩
  intro a ha b hb
  obtain ⟨j, hj, rfl⟩ := List.mem_map.mp hb
  cases hnew j hj with
  | planRun _ _ hid =>
    rintro rfl
    exact hid ha

theorem after_keyed (txns : List Txn) : Keyed Job.id (Db.after txns).jobs :=
  Trace.exec_invariant Db.step (I := fun db => Keyed Job.id db.jobs) (s := ({} : Db))
    (fun _ t h => step_keyed h t) List.nodup_nil txns

/-- **Row invariant rule.**  A property of single rows that new rows have and every `JobStep` keeps
is kept by every transaction. -/
theorem step_rows {P : Job → Prop} (hkey : Keyed Job.id db.jobs) {t : Txn}
    (hnew : ∀ j, JobNew db t j → P j) (hstep : ∀ j j', JobStep t j j' → P j → P j')
    (h : ∀ j ∈ db.jobs, P j) : ∀ j ∈ (db.step t).jobs, P j := by
  obtain ⟨rows, new, hjobs, hrows, hnew', -⟩ := step_jobs hkey t
  intro j' hj'
  rw [hjobs, List.mem_append] at hj'
  rcases hj' with hj' | hj'
  · obtain ⟨j, hj, rfl | hs⟩ := hrows.exists_old hj'
    · exact h _ hj
    · exact hstep j j' hs (h j hj)
  · exact hnew j' (hnew' j' hj')

/-- A row property that new rows have and every `JobStep` keeps holds in every reachable
database. -/
theorem after_rows {P : Job → Prop} (hnew : ∀ db t j, JobNew db t j → P j)
    (hstep : ∀ t j j', JobStep t j j' → P j → P j') (txns : List Txn) :
    ∀ j ∈ (Db.after txns).jobs, P j := by
  have hboth : Keyed Job.id (Db.after txns).jobs ∧ ∀ j ∈ (Db.after txns).jobs, P j :=
    Trace.exec_invariant Db.step (s := ({} : Db))
      (I := fun db => Keyed Job.id db.jobs ∧ ∀ j ∈ db.jobs, P j)
      (fun db t h => ⟨step_keyed h.1 t, step_rows h.1 (hnew db t) (hstep t) h.2⟩)
      ⟨List.nodup_nil, by simp⟩ txns
  exact hboth.2

end Db

end CommerceCollector
