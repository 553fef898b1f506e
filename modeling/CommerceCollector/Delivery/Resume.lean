import CommerceCollector.Delivery.NoLoss

/-!
# Resuming

The two ways back to work: `update_source` with `paused=false`, and `job_action` with `resume`.  A
job that either of them takes out of `paused` is given a new generation, which is always delivered.
A job that waits in `queued` behind a pause keeps its generation, and `enqueue_job` does nothing for
a generation that has a row.  Such a job is resumed exactly if its generation is not `Spent`; but
`reserve` answers `ack` to every delivery that arrives during the pause.
-/

namespace CommerceCollector

open Relational

/-- The job waits, and only because its source is paused: it was paused with the source, or it is
queued and neither cancelled nor paused by an operator. -/
def Job.heldBySource (j : Job) (sourceId : String) : Bool :=
  j.sourceId == sourceId && !j.cancelRequested &&
    (j.state == .paused && j.pausedBySource ||
      j.state == .queued && (!j.pauseRequested || j.pausedBySource))

theorem Enqueues.mem_of_key {jobs : List Job} {rows rows' : List OutboxRow}
    (h : Enqueues jobs rows rows') {row : OutboxRow} (hrow : row ∈ rows')
    (hkey : row.key ∈ rows.map OutboxRow.key) : row ∈ rows := by
  induction h with
  | refl => exact hrow
  | add hadd _ hnew ih =>
    rcases List.mem_append.mp hrow with hold | hfresh
    · exact ih hold
    · obtain ⟨old, hold, hsame⟩ := List.mem_map.mp hkey
      rw [List.mem_singleton.mp hfresh] at hsame
      exact absurd (List.mem_map.mpr ⟨old, hadd.mem_of_mem hold, hsame⟩) hnew

namespace System

variable {s : System}

/-! ## What a transaction leaves deliverable -/

/-- A transaction that marks no row spends no generation that has a row, and restores none. -/
theorem StoresInv.spent_commit_iff (h : s.StoresInv) {t : Txn} (ht : t.marks = false)
    {key : Uuid × ℕ} (hrow : key ∈ s.db.outbox.map OutboxRow.key) :
    (s.commit t).Spent key ↔ s.Spent key := by
  have hadd := Db.step_enqueues h.keyed ht
  refine and_congr_right fun _ => ⟨fun hall row hmem hk => ?_, fun hall row hmem hk => ?_⟩
  · exact hall row (hadd.mem_of_mem hmem) hk
  · exact hall row (hadd.mem_of_key hmem (hk.symm ▸ hrow)) hk

/-- A live job that keeps its generation can be delivered iff the generation was not spent. -/
theorem StoresInv.deliverable_commit_iff (h : s.StoresInv) {t : Txn} (ht : t.marks = false)
    {j j' : Job} (hj : j ∈ s.db.jobs) (hlive : j.live = true) (hj' : j' ∈ (s.commit t).db.jobs)
    (hlive' : j'.live = true) (hkey : j'.deliveryKey = j.deliveryKey) :
    (s.commit t).Deliverable j'.deliveryKey ↔ ¬ s.Spent j.deliveryKey := by
  have hrow : j.deliveryKey ∈ s.db.outbox.map OutboxRow.key :=
    List.mem_map.mpr (h.enqueued j hj hlive)
  have hnext := h.commit t
  rw [hnext.deliverable_iff (hnext.enqueued j' hj' hlive'), hkey, h.spent_commit_iff ht hrow]

theorem StoresInv.deliverable_of_new (h : s.StoresInv) (t : Txn) {j' : Job}
    (hj' : j' ∈ (s.commit t).db.jobs) (hlive' : j'.live = true)
    (hnew : ∀ j ∈ s.db.jobs, j.id = j'.id → j.deliveryGeneration < j'.deliveryGeneration) :
    (s.commit t).Deliverable j'.deliveryKey := by
  have hnext := h.commit t
  refine (hnext.deliverable_iff (hnext.enqueued j' hj' hlive')).mpr fun hspent => ?_
  exact h.not_mem_acked hnew hspent.1

/-! ## Resuming a source -/

theorem resumeSource_jobs {db : Db} {now : Time} {sourceId : String} {enabled : Option Bool}
    (hpaused : db.sourcePaused sourceId = true)
    (henabled : enabled.getD (db.sourceEnabled sourceId) = true) :
    (db.step (.updateSource now sourceId enabled (some false))).jobs =
      update (fun j => j.resumableWith sourceId) (fun j => j.resumeWithSource now) db.jobs := by
  simp [Db.step, Db.updateSource, hpaused, henabled]

/-- The job is queued and can be delivered. -/
def Redelivered (s : System) (jobId : Uuid) : Prop :=
  ∃ j ∈ s.db.jobs, j.id = jobId ∧ j.state = .queued ∧ s.Deliverable j.deliveryKey

instance (s : System) (jobId : Uuid) : Decidable (s.Redelivered jobId) :=
  inferInstanceAs (Decidable (∃ j ∈ s.db.jobs, _))

/-- After its source is resumed, a job that only the source held back is queued and can be
delivered iff it does not wait in `queued` under a spent generation. -/
theorem StoresInv.redelivered_with_source_iff (h : s.StoresInv) (now : Time) {sourceId : String}
    {enabled : Option Bool} (hpaused : s.db.sourcePaused sourceId = true)
    (henabled : enabled.getD (s.db.sourceEnabled sourceId) = true) {j : Job} (hj : j ∈ s.db.jobs)
    (hheld : j.heldBySource sourceId = true) :
    (s.commit (.updateSource now sourceId enabled (some false))).Redelivered j.id ↔
      (j.state = .queued → ¬ s.Spent j.deliveryKey) := by
  generalize ht : Txn.updateSource now sourceId enabled (some false) = t
  have hjobs : (s.commit t).db.jobs =
      update (fun j => j.resumableWith sourceId) (fun j => j.resumeWithSource now) s.db.jobs := by
    rw [← ht]
    exact resumeSource_jobs hpaused henabled
  have hmarks : t.marks = false := by rw [← ht]; rfl
  simp only [Job.heldBySource, Bool.and_eq_true, Bool.or_eq_true, beq_iff_eq] at hheld
  obtain ⟨⟨hsource, -⟩, ⟨hstate, hby⟩ | ⟨hstate, -⟩⟩ := hheld
  · -- taken out of `paused`: the generation is new
    have hsel : j.resumableWith sourceId = true := by simp [Job.resumableWith, hsource, hstate, hby]
    have hj' : j.resumeWithSource now ∈ (s.commit t).db.jobs := by
      rw [hjobs]
      exact mem_update_of_pos hj hsel
    refine iff_of_true ⟨_, hj', rfl, rfl, h.deliverable_of_new t hj' rfl ?_⟩ ?_
    · intro i hi hid
      rw [h.keyed.eq_of_mem hi hj hid]
      exact Nat.lt_succ_self _
    · intro hqueued
      exact absurd (hstate.symm.trans hqueued) (by simp)
  · -- left in `queued`: nothing changes for its generation
    have hlive : j.live = true := by simp [Job.live, hstate]
    have hj' : j ∈ (s.commit t).db.jobs := by
      rw [hjobs]
      exact mem_update_of_neg hj (by simp [Job.resumableWith, hstate])
    have hiff := h.deliverable_commit_iff hmarks hj hlive hj' hlive rfl
    constructor
    · rintro ⟨j', hmem, hid, -, hdel⟩ -
      rw [(h.commit t).keyed.eq_of_mem hmem hj' hid] at hdel
      exact hiff.mp hdel
    · intro hfresh
      exact ⟨j, hj', rfl, hstate, hiff.mpr (hfresh hstate)⟩

/-- **Resuming a source.**  After a run in which no delivery was acknowledged while its job was live
under the delivered generation, resuming a paused source leaves every job that only the source held
back queued and deliverable.  After any run, it does so for exactly the jobs that do not wait in
`queued` under a spent generation. -/
theorem source_resume_redelivers (actions : List Action) (now : Time) (sourceId : String)
    (enabled : Option Bool) (hpaused : (System.after actions).db.sourcePaused sourceId = true)
    (henabled : enabled.getD ((System.after actions).db.sourceEnabled sourceId) = true) :
    (Trace.Along System.step AcksObsolete {} actions →
      ∀ j ∈ (System.after actions).db.jobs, j.heldBySource sourceId = true →
        ((System.after actions).step
          (.commit (.updateSource now sourceId enabled (some false)))).Redelivered j.id) ∧
    ∀ j ∈ (System.after actions).db.jobs, j.heldBySource sourceId = true →
      (((System.after actions).step
          (.commit (.updateSource now sourceId enabled (some false)))).Redelivered j.id ↔
        (j.state = .queued → ¬ (System.after actions).Spent j.deliveryKey)) := by
  have hinv := after_storesInv actions
  have hiff : ∀ j ∈ (System.after actions).db.jobs, j.heldBySource sourceId = true →
      (((System.after actions).step
          (.commit (.updateSource now sourceId enabled (some false)))).Redelivered j.id ↔
        (j.state = .queued → ¬ (System.after actions).Spent j.deliveryKey)) :=
    fun j hj hheld => hinv.redelivered_with_source_iff now hpaused henabled hj hheld
  refine ⟨fun hack j hj hheld => (hiff j hj hheld).mpr fun hqueued hspent => ?_, hiff⟩
  exact after_unacked hack j hj (by simp [Job.live, hqueued]) hspent.1

/-- The source of a published job is paused. -/
def pausedSource : List Action :=
  publishedJob ++ [.commit (.updateSource (secs 2) "shop" none (some true))]

/-- The job that was paused with its source is resumed with it. -/
theorem paused_source_resumed :
    ∃ j ∈ (System.after pausedSource).db.jobs, j.heldBySource "shop" = true ∧
      ((System.after pausedSource).step
        (.commit (.updateSource (secs 3) "shop" none (some false)))).Redelivered j.id := by
  obtain ⟨j, hj, hheld⟩ :
      ∃ j ∈ (System.after pausedSource).db.jobs, j.heldBySource "shop" = true := by decide
  refine ⟨j, hj, hheld, ?_⟩
  exact (source_resume_redelivers pausedSource (secs 3) "shop" none (by decide) (by decide)).1
    (by decide) j hj hheld

/-- A run is planned while the source is paused, and its message is published and delivered:
`reserve` answers `ack`, and the worker acknowledges. -/
def plannedWhilePaused : List Action :=
  [ .commit (.updateSource 0 "shop" none (some true)),
    .commit (.planRun (secs 1) 1 none [⟨10, "shop", "shop.example", []⟩] 100 3),
    .commit (.tick (secs 2) [] fun _ => .confirmed),
    .deliver (secs 3) ⟨10, 1, "shop", 1, .plain, 100, secs 1⟩ 1 [] 101 none,
    .advance 0 (secs 3) [] none .load ]

/-- The job that was planned while its source was paused is not delivered after the resume. -/
theorem planned_while_paused_lost :
    (System.after plannedWhilePaused).db.sourcePaused "shop" = true ∧
      (System.after plannedWhilePaused).db.sourceEnabled "shop" = true ∧
      ∃ j ∈ (System.after plannedWhilePaused).db.jobs, j.heldBySource "shop" = true ∧
        ¬ ((System.after plannedWhilePaused).step
          (.commit (.updateSource (secs 4) "shop" none (some false)))).Redelivered j.id := by
  decide

/-! ## Resuming a job -/

/-- Every job of this id that is queued can be delivered. -/
def DeliverableIfQueued (s : System) (jobId : Uuid) : Prop :=
  ∀ j ∈ s.db.jobs, j.id = jobId → j.state = .queued → s.Deliverable j.deliveryKey

instance (s : System) (jobId : Uuid) : Decidable (s.DeliverableIfQueued jobId) :=
  inferInstanceAs (Decidable (∀ j ∈ s.db.jobs, _))

theorem resumeJob_row {db : Db} (hkey : Keyed Job.id db.jobs) (now : Time) {j j' : Job}
    (hj : j ∈ db.jobs) (hres : j.resumable = true)
    (hj' : j' ∈ (db.step (.jobAction now .resume j.id)).jobs) (hid : j'.id = j.id) :
    j' = j.resume now := by
  rw [Db.step, Db.jobAction_jobs] at hj'
  obtain ⟨i, hi, rfl⟩ := mem_update.mp hj'
  have hsame : i = j := by
    refine hkey.eq_of_mem hi hj ?_
    split at hid <;> exact hid
  subst hsame
  rw [if_pos (by simp [Job.admits, hres])]
  rfl

/-- After an operator resumes a job, it can be delivered if it is queued, iff it did not wait in
`queued` under a spent generation. -/
theorem StoresInv.deliverable_resumed_iff (h : s.StoresInv) (now : Time) {j : Job}
    (hj : j ∈ s.db.jobs) (hres : j.resumable = true) :
    (s.commit (.jobAction now .resume j.id)).DeliverableIfQueued j.id ↔
      (j.state = .queued → ¬ s.Spent j.deliveryKey) := by
  have hrow : ∀ j' ∈ (s.commit (.jobAction now .resume j.id)).db.jobs, j'.id = j.id →
      j' = j.resume now := fun j' hj' hid => resumeJob_row h.keyed now hj hres hj' hid
  have hmem : j.resume now ∈ (s.commit (.jobAction now .resume j.id)).db.jobs := by
    obtain ⟨j', hj', hid, -⟩ := Db.step_generation h.keyed (.jobAction now .resume j.id) hj
    exact hrow j' hj' hid ▸ hj'
  by_cases hpaused : j.state = .paused
  · -- the generation is new
    refine iff_of_true (fun j' hj' hid hqueued => ?_) fun hqueued => ?_
    · refine h.deliverable_of_new _ hj' (by simp [Job.live, hqueued]) fun i hi hsame => ?_
      rw [h.keyed.eq_of_mem hi hj (hsame.trans hid), hrow j' hj' hid]
      simp [Job.resume, hpaused]
    · exact absurd (hpaused.symm.trans hqueued) (by simp)
  · have hstate : (j.resume now).state = j.state := by simp [Job.resume, hpaused]
    have hkey : (j.resume now).deliveryKey = j.deliveryKey := by
      simp [Job.resume, Job.deliveryKey, hpaused]
    have hiff : j.state = .queued →
        ((s.commit (.jobAction now .resume j.id)).Deliverable (j.resume now).deliveryKey ↔
          ¬ s.Spent j.deliveryKey) := by
      intro hqueued
      refine h.deliverable_commit_iff rfl hj ?_ hmem ?_ hkey
      · simp [Job.live, hqueued]
      · simp [Job.live, hstate, hqueued]
    constructor
    · intro hdel hqueued
      exact (hiff hqueued).mp (hdel _ hmem rfl (hstate.trans hqueued))
    · intro hfresh j' hj' hid hqueued'
      rw [hrow j' hj' hid] at hqueued' ⊢
      have hqueued : j.state = .queued := hstate.symm.trans hqueued'
      exact (hiff hqueued).mpr (hfresh hqueued)

/-- **Resuming a job.**  After a run in which no delivery was acknowledged while its job was live
under the delivered generation, an operator's resume of a job that is paused or asked to pause
leaves it deliverable if it is queued.  After any run, the resume does so exactly for a job that
does not wait in `queued` under a spent generation. -/
theorem operator_resume_redelivers (actions : List Action) (now : Time) {j : Job}
    (hj : j ∈ (System.after actions).db.jobs) (hres : j.resumable = true) :
    (Trace.Along System.step AcksObsolete {} actions →
      ((System.after actions).step
        (.commit (.jobAction now .resume j.id))).DeliverableIfQueued j.id) ∧
    (((System.after actions).step
        (.commit (.jobAction now .resume j.id))).DeliverableIfQueued j.id ↔
      (j.state = .queued → ¬ (System.after actions).Spent j.deliveryKey)) := by
  have hiff := (after_storesInv actions).deliverable_resumed_iff now hj hres
  refine ⟨fun hack => hiff.mpr fun hqueued hspent => ?_, hiff⟩
  exact after_unacked hack j hj (by simp [Job.live, hqueued]) hspent.1

/-- The published job is paused by an operator. -/
def pausedJob : List Action := publishedJob ++ [.commit (.jobAction (secs 2) .pause 10)]

/-- The paused job is resumed by the operator, and it is queued and can be delivered. -/
theorem paused_job_resumed :
    ∃ j ∈ (System.after pausedJob).db.jobs, j.state = .paused ∧
      ((System.after pausedJob).step
        (.commit (.jobAction (secs 3) .resume j.id))).DeliverableIfQueued j.id := by
  obtain ⟨j, hj, hstate, hres⟩ : ∃ j ∈ (System.after pausedJob).db.jobs,
      j.state = .paused ∧ j.resumable = true := by decide
  refine ⟨j, hj, hstate, ?_⟩
  exact (operator_resume_redelivers pausedJob (secs 3) hj hres).1 (by decide)

/-- A running job is asked to pause; its worker dies, the dispatcher puts the row back to `queued`
with the request still set, and the message is delivered again: `reserve` answers `ack`, and the
worker acknowledges. -/
def repairedWhilePausing : List Action :=
  runningJob ++
    [ .commit (.jobAction (secs 4) .pause 10),
      .crash 0,
      .commit (.tick (secs 400) [] fun _ => .confirmed),
      .deliver (secs 401) ⟨10, 1, "shop", 1, .plain, 100, 0⟩ 2 [] 102 none,
      .advance 0 (secs 401) [] none .load ]

/-- The resumed job is queued, and its only delivery is already acknowledged. -/
theorem repaired_while_pausing_lost :
    ∃ j ∈ (System.after repairedWhilePausing).db.jobs, j.resumable = true ∧
      ¬ ((System.after repairedWhilePausing).step
        (.commit (.jobAction (secs 402) .resume j.id))).DeliverableIfQueued j.id := by
  decide

end System

end CommerceCollector
