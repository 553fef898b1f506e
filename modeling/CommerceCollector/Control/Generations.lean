import CommerceCollector.Control.Fencing

/-!
# Generations and their outbox rows

Every generation of a job is published by one row of the outbox.  Transactions only add rows, each
for the current generation of a job (`Enqueues`); the dispatcher and the disaster recovery mark rows
but never remove one.  A job that is live after a transaction was live before it under the same
generation, or the transaction gave it a new generation and enqueued it (`step_live`).
-/

namespace CommerceCollector

open Relational

/-! ## Adding outbox rows -/

/-- The outbox grows by rows for the current generation of some of the jobs. -/
inductive Enqueues (jobs : List Job) (rows : List OutboxRow) : List OutboxRow → Prop
  | refl : Enqueues jobs rows rows
  | add {rows' : List OutboxRow} {j : Job} {now : Time} {at? : Option Time}
      (h : Enqueues jobs rows rows') (hj : j ∈ jobs)
      (hnew : j.deliveryKey ∉ rows'.map OutboxRow.key) :
      Enqueues jobs rows (rows' ++ [j.outboxRow now (rows'.length + 1) at?])

namespace Enqueues

variable {jobs jobs' : List Job} {rows rows' rows'' : List OutboxRow}

section

variable (h : Enqueues jobs rows rows')

include h

theorem mono (hsub : ∀ j ∈ jobs, j ∈ jobs') :
    Enqueues jobs' rows rows' := by
  induction h with
  | refl => exact .refl
  | add _ hj hnew ih => exact .add ih (hsub _ hj) hnew

theorem trans (h' : Enqueues jobs rows' rows'') :
    Enqueues jobs rows rows'' := by
  induction h' with
  | refl => exact h
  | add _ hj hnew ih => exact .add ih hj hnew

theorem mem_of_mem {row : OutboxRow} (hrow : row ∈ rows) :
    row ∈ rows' := by
  induction h with
  | refl => exact hrow
  | add _ _ _ ih => exact List.mem_append_left _ ih

theorem mem_cases {row : OutboxRow} (hrow : row ∈ rows') :
    row ∈ rows ∨ ∃ j ∈ jobs, ∃ now id at?, row = j.outboxRow now id at? := by
  induction h with
  | refl => exact Or.inl hrow
  | add _ hj _ ih =>
    rcases List.mem_append.mp hrow with hold | hnew
    · exact ih hold
    · exact Or.inr ⟨_, hj, _, _, _, List.mem_singleton.mp hnew⟩

end

end Enqueues

namespace Db

variable {db : Db}

/-- `enqueue_job` adds at most one row. -/
theorem enqueueJob_enqueues (db : Db) (now : Time) (jobId : Uuid) (at? : Option Time) :
    Enqueues db.jobs db.outbox (db.enqueueJob now jobId at?).outbox := by
  unfold enqueueJob
  split
  · exact .refl
  next j hfind =>
  obtain ⟨hj, -⟩ := mem_of_find? hfind
  dsimp only [insertNew]
  split
  · exact .refl
  · next hnew => exact .add .refl hj hnew

/-- `enqueue_job` for each id of a list adds rows. -/
theorem enqueueJobs_enqueues (db : Db) (now : Time) (ids : List Uuid) :
    Enqueues db.jobs db.outbox (db.enqueueJobs now ids).outbox := by
  induction ids generalizing db with
  | nil => exact .refl
  | cons id ids ih =>
    have hfirst := enqueueJob_enqueues db now id none
    have hrest := ih (db.enqueueJob now id)
    rw [enqueueJob_jobs] at hrest
    exact hfirst.trans hrest

/-- After `enqueue_job` of an open job the outbox has a row for its generation. -/
theorem exists_row_of_enqueueJob (hkey : Keyed Job.id db.jobs) {j : Job} (hj : j ∈ db.jobs)
    (hopen : j.state.terminal = false) (now : Time) (at? : Option Time) :
    ∃ row ∈ (db.enqueueJob now j.id at?).outbox, row.key = j.deliveryKey := by
  have hfind : (db.jobs.find? fun i => i.id == j.id && !i.state.terminal) = some j := by
    refine hkey.find?_of_key hj (by simp [hopen]) fun i hsel => ?_
    simp only [Bool.and_eq_true, beq_iff_eq] at hsel
    exact hsel.1
  unfold enqueueJob
  rw [hfind]
  exact exists_key_insertNew OutboxRow.key _ _

/-- After `enqueue_job` for a list of ids every open job of the list has a row. -/
theorem exists_row_of_enqueueJobs (hkey : Keyed Job.id db.jobs) {j : Job} (hj : j ∈ db.jobs)
    (hopen : j.state.terminal = false) (now : Time) {ids : List Uuid} (hid : j.id ∈ ids) :
    ∃ row ∈ (db.enqueueJobs now ids).outbox, row.key = j.deliveryKey := by
  induction ids generalizing db with
  | nil => exact absurd hid (by simp)
  | cons id ids ih =>
    have hjobs : (db.enqueueJob now id).jobs = db.jobs := enqueueJob_jobs _ _ _ _
    rcases List.mem_cons.mp hid with rfl | hid
    · obtain ⟨row, hrow, hk⟩ := exists_row_of_enqueueJob hkey hj hopen now none
      have hkept := (enqueueJobs_enqueues (db.enqueueJob now j.id) now ids).mem_of_mem hrow
      exact ⟨row, hkept, hk⟩
    · exact ih (by rw [hjobs]; exact hkey) (by rw [hjobs]; exact hj) hid

/-! ## Every transaction on the outbox -/

/-- One source of `create_jobs` keeps the jobs and adds rows for the jobs it leaves. -/
theorem createJob_spec (now : Time) (runId : Uuid) (priority maxAttempts : ℕ) (db : Db)
    (p : NewJob × ℕ) :
    (∀ j ∈ db.jobs, j ∈ (createJob now runId priority maxAttempts db p).jobs) ∧
      Enqueues (createJob now runId priority maxAttempts db p).jobs db.outbox
        (createJob now runId priority maxAttempts db p).outbox := by
  unfold createJob
  split
  · exact ⟨fun _ hj => hj, .refl⟩
  · constructor
    · intro j hj
      rw [enqueueJob_jobs]
      exact List.mem_append_left _ hj
    · rw [enqueueJob_jobs]
      exact enqueueJob_enqueues _ now p.1.id none

/-- `create_jobs` keeps the jobs and adds rows for the jobs it leaves. -/
theorem foldl_createJob_spec (now : Time) (runId : Uuid) (priority maxAttempts : ℕ)
    (planned : List (NewJob × ℕ)) (db : Db) :
    (∀ j ∈ db.jobs, j ∈ (planned.foldl (createJob now runId priority maxAttempts) db).jobs) ∧
      Enqueues (planned.foldl (createJob now runId priority maxAttempts) db).jobs db.outbox
        (planned.foldl (createJob now runId priority maxAttempts) db).outbox := by
  induction planned generalizing db with
  | nil => exact ⟨fun _ hj => hj, .refl⟩
  | cons p planned ih =>
    obtain ⟨hkeep, hadd⟩ := createJob_spec now runId priority maxAttempts db p
    obtain ⟨hkeep', hadd'⟩ := ih (createJob now runId priority maxAttempts db p)
    rw [List.foldl_cons]
    exact ⟨fun j hj => hkeep' j (hkeep j hj), (hadd.mono hkeep').trans hadd'⟩

/-- Every job that `create_jobs` inserts has an outbox row. -/
theorem exists_row_of_foldl_createJob (now : Time) (runId : Uuid) (priority maxAttempts : ℕ)
    (planned : List (NewJob × ℕ)) (hkey : Keyed Job.id db.jobs)
    (hnodup : (planned.map fun p => p.1.id).Nodup)
    (hfresh : ∀ p ∈ planned, p.1.id ∉ db.jobs.map Job.id) :
    ∀ j ∈ (planned.foldl (createJob now runId priority maxAttempts) db).jobs,
      j ∈ db.jobs ∨ ∃ row ∈ (planned.foldl (createJob now runId priority maxAttempts) db).outbox,
        row.key = j.deliveryKey := by
  induction planned generalizing db with
  | nil => exact fun j hj => Or.inl hj
  | cons p planned ih =>
    rw [List.map_cons, List.nodup_cons] at hnodup
    rw [List.foldl_cons]
    by_cases hskip : db.jobs.any fun j => j.runId == runId && j.sourceId == p.1.sourceId
    · have hsame : createJob now runId priority maxAttempts db p = db := if_pos hskip
      rw [hsame]
      exact ih hkey hnodup.2 fun q hq => hfresh q (List.mem_cons_of_mem _ hq)
    · have hadd : createJob now runId priority maxAttempts db p =
          ({ db with jobs := db.jobs ++ [p.1.toJob now runId p.2 priority maxAttempts] }).enqueueJob
            now p.1.id := if_neg hskip
      have hjobs : (createJob now runId priority maxAttempts db p).jobs =
          db.jobs ++ [p.1.toJob now runId p.2 priority maxAttempts] := by
        rw [hadd, enqueueJob_jobs]
      have hkey' : Keyed Job.id (db.jobs ++ [p.1.toJob now runId p.2 priority maxAttempts]) := by
        unfold Keyed
        rw [List.map_append, List.nodup_append]
        refine ⟨hkey, by simp, fun a ha b hb => ?_⟩
        rw [List.map_singleton, List.mem_singleton] at hb
        rintro rfl
        rw [hb] at ha
        exact hfresh p (by simp) ha
      have hfresh' : ∀ q ∈ planned,
          q.1.id ∉ (db.jobs ++ [p.1.toJob now runId p.2 priority maxAttempts]).map Job.id := by
        intro q hq hmem
        rw [List.map_append, List.mem_append, List.map_singleton, List.mem_singleton] at hmem
        rcases hmem with hold | hsame
        · exact hfresh q (List.mem_cons_of_mem _ hq) hold
        · exact hnodup.1 (List.mem_map.mpr ⟨q, hq, hsame⟩)
      intro j hj
      rcases ih (by rw [hjobs]; exact hkey') hnodup.2 (by rw [hjobs]; exact hfresh') j hj with
        hd | hrow
      · rw [hjobs, List.mem_append, List.mem_singleton] at hd
        rcases hd with hold | rfl
        · exact Or.inl hold
        · refine Or.inr ?_
          have hdb : Keyed Job.id
              { db with jobs := db.jobs ++ [p.1.toJob now runId p.2 priority maxAttempts] }.jobs :=
            hkey'
          obtain ⟨row, hrow, hk⟩ := exists_row_of_enqueueJob hdb
            (List.mem_append_right db.jobs (List.mem_singleton_self _)) rfl now none
          have hmem : row ∈ (createJob now runId priority maxAttempts db p).outbox := by
            rw [hadd]
            exact hrow
          have hadds := (foldl_createJob_spec now runId priority maxAttempts planned
            (createJob now runId priority maxAttempts db p)).2
          exact ⟨row, hadds.mem_of_mem hmem, hk⟩
      · exact Or.inr hrow

/-- What a planned run does to the outbox: rows for its jobs are added, and no new job is without
one. -/
theorem planRun_outbox (hkey : Keyed Job.id db.jobs) (now : Time) (runId : Uuid)
    (occurrence : Option (String × Time)) (selected : List NewJob) (priority maxAttempts : ℕ) :
    Enqueues (db.planRun now runId occurrence selected priority maxAttempts).jobs db.outbox
        (db.planRun now runId occurrence selected priority maxAttempts).outbox ∧
      ∀ j ∈ (db.planRun now runId occurrence selected priority maxAttempts).jobs,
        j ∈ db.jobs ∨ (j.id ∉ db.jobs.map Job.id ∧
          ∃ row ∈ (db.planRun now runId occurrence selected priority maxAttempts).outbox,
            row.key = j.deliveryKey) := by
  have hnew : ∀ j ∈ (db.planRun now runId occurrence selected priority maxAttempts).jobs,
      j ∈ db.jobs ∨ j.id ∉ db.jobs.map Job.id := by
    obtain ⟨new, hjobs, hnew, -⟩ :=
      planRun_jobs db now runId occurrence selected priority maxAttempts
    intro j hj
    rw [hjobs, List.mem_append] at hj
    rcases hj with hold | hfresh
    · exact Or.inl hold
    · cases hnew j hfresh with
      | planRun _ _ hid => exact Or.inr hid
  have hboth : Enqueues (db.planRun now runId occurrence selected priority maxAttempts).jobs
        db.outbox (db.planRun now runId occurrence selected priority maxAttempts).outbox ∧
      ∀ j ∈ (db.planRun now runId occurrence selected priority maxAttempts).jobs,
        j ∈ db.jobs ∨
          ∃ row ∈ (db.planRun now runId occurrence selected priority maxAttempts).outbox,
            row.key = j.deliveryKey := by
    unfold planRun
    split
    · exact ⟨.refl, fun j hj => Or.inl hj⟩
    next hguard =>
    simp only [Bool.or_eq_true, not_or, decide_eq_true_eq, List.any_eq_true, not_exists, not_and,
      Bool.not_eq_true', decide_eq_false_iff_not, not_not] at hguard
    obtain ⟨⟨-, hids⟩, hnodup⟩ := hguard
    unfold createRun
    split
    · exact ⟨.refl, fun j hj => Or.inl hj⟩
    next created hcreated =>
    split at hcreated
    · exact absurd hcreated (by simp)
    obtain rfl := Option.some.inj hcreated
    generalize hbase : (({ db with runs := db.runs ++ [Run.new runId occurrence] }).emit
      { type := .runCreated, runId := some runId }) = base
    have hjobs : base.jobs = db.jobs := by rw [← hbase]; rfl
    have houtbox : base.outbox = db.outbox := by rw [← hbase]; rfl
    obtain ⟨-, hadd⟩ := foldl_createJob_spec now runId priority maxAttempts
      (base.plannedJobs selected) base
    have hrows := exists_row_of_foldl_createJob now runId priority maxAttempts
      (base.plannedJobs selected) (by rw [hjobs]; exact hkey)
      ((plannedJobs_ids base selected).nodup hnodup) (by
        intro p hp
        rw [hjobs]
        exact hids p.1 (mem_selected_of_mem_plannedJobs hp))
    unfold createJobs
    dsimp only
    split
    · simpa [hjobs, houtbox] using And.intro hadd hrows
    · simpa [hjobs, houtbox] using And.intro hadd hrows
  refine ⟨hboth.1, fun j hj => ?_⟩
  rcases hnew j hj with hold | hid
  · exact Or.inl hold
  · rcases hboth.2 j hj with hold | hrow
    · exact Or.inl hold
    · exact Or.inr ⟨hid, hrow⟩

end Db

/-! ## Marking outbox rows -/

/-- A row keeps its id, its key and its payload, and becomes published only if it is listed. -/
structure Marked (ids : List ℕ) (row row' : OutboxRow) : Prop where
  id : row'.id = row.id
  key : row'.key = row.key
  payload : row'.payload = row.payload
  published : row'.publishedAt.isSome = true → row.publishedAt.isSome = true ∨ row.id ∈ ids

theorem Marked.trans {ids : List ℕ} {a b c : OutboxRow} (h : Marked ids a b) (h' : Marked ids b c) :
    Marked ids a c := by
  refine ⟨h'.id.trans h.id, h'.key.trans h.key, h'.payload.trans h.payload, fun hc => ?_⟩
  rcases h'.published hc with hb | hids
  · exact h.published hb
  · exact Or.inr (h.id ▸ hids)

/-- The transactions that mark outbox rows. -/
def Txn.marks : Txn → Bool
  | .tick .. | .republishCurrent .. => true
  | _ => false

namespace Db

variable {db : Db}

/-- The rows that a transaction hands to the broker: those a dispatcher tick saw confirmed. -/
def publishes (db : Db) : Txn → List OutboxRow
  | .tick now locked outcome => (db.tick now locked outcome).2
  | _ => []

/-- The bookkeeping of a publication batch marks the confirmed rows as published, and no other. -/
theorem foldl_markOutcome_rewrites (now : Time) (outcome : ℕ → PublishOutcome)
    (rows : List OutboxRow) (ids : List ℕ)
    (hids : ∀ row ∈ rows, outcome row.id = .confirmed → row.id ∈ ids) (db : Db) :
    Rewrites (Marked ids) db.outbox (rows.foldl (markOutcome now outcome) db).outbox := by
  induction rows generalizing db with
  | nil => exact Rewrites.refl _ _
  | cons row rows ih =>
    have hfirst : Rewrites (Marked ids) db.outbox (markOutcome now outcome db row).outbox := by
      unfold markOutcome
      cases hout : outcome row.id with
      | confirmed =>
        refine rewrites_update fun o _ ho => ⟨rfl, rfl, rfl, fun _ => Or.inr ?_⟩
        simp only [Bool.and_eq_true, beq_iff_eq] at ho
        rw [ho.1]
        exact hids row (by simp) hout
      | raised error => exact rewrites_update fun o _ _ => ⟨rfl, rfl, rfl, fun ho => Or.inl ho⟩
    exact hfirst.trans (fun _ _ _ => Marked.trans)
      (ih (fun r hr => hids r (List.mem_cons_of_mem _ hr)) _)

@[simp] theorem reconcile_outbox (db : Db) (now : Time) :
    (db.reconcile now).outbox = db.outbox := by
  have hclose : ∀ (d : Db) (row : Job), (closeFailed now d row).outbox = d.outbox := by
    intro d row
    simp [closeFailed, emitTerminal]
  unfold reconcile
  dsimp only
  rw [Trace.foldl_keep hclose]
  rfl

/-- A dispatcher tick adds the missing rows and marks those whose publication was confirmed. -/
theorem tick_outbox (db : Db) (now : Time) (locked : List ℕ) (outcome : ℕ → PublishOutcome) :
    Rewrites (Marked ((db.tick now locked outcome).2.map OutboxRow.id))
        (db.reconstructMissing now).outbox (db.tick now locked outcome).1.outbox ∧
      ∀ row ∈ (db.tick now locked outcome).2, row ∈ (db.reconstructMissing now).outbox := by
  constructor
  · have hmark := foldl_markOutcome_rewrites now outcome
      (((db.reconstructMissing now).reconcile now).pending now locked)
      ((db.tick now locked outcome).2.map OutboxRow.id) (by
        intro row hrow hout
        exact List.mem_map.mpr ⟨row, List.mem_filter.mpr ⟨hrow, by simp [hout]⟩, rfl⟩)
      ((db.reconstructMissing now).reconcile now)
    rwa [reconcile_outbox] at hmark
  · intro row hrow
    have hpending := (List.mem_filter.mp hrow).1
    have hmem := List.mem_of_mem_take hpending
    rw [List.mem_insertionSort, List.mem_filter, reconcile_outbox] at hmem
    exact hmem.1

/-- A transaction other than those of the dispatcher and of the disaster recovery only adds rows,
for jobs that it leaves. -/
theorem step_enqueues (hkey : Keyed Job.id db.jobs) {t : Txn} (ht : t.marks = false) :
    Enqueues (db.step t).jobs db.outbox (db.step t).outbox := by
  have hsame : ∀ {d : Db}, d.outbox = db.outbox → Enqueues d.jobs db.outbox d.outbox :=
    fun h => h ▸ .refl
  have henqueue : ∀ (d : Db) (now : Time) (jobId : Uuid), d.outbox = db.outbox →
      Enqueues (d.enqueueJob now jobId).jobs db.outbox (d.enqueueJob now jobId).outbox := by
    intro d now jobId hd
    have h := enqueueJob_enqueues d now jobId none
    rwa [hd, ← enqueueJob_jobs d now jobId none] at h
  cases t with
  | planRun => exact (planRun_outbox hkey _ _ _ _ _ _).1
  | reserve now env worker caps token lease =>
    cases hb : db.reserveBranch now env caps with
    | reroute row selected =>
      simp only [Db.step, reserve, hb]
      exact henqueue _ now env.jobId rfl
    | _ => exact hsame (by simp [Db.step, reserve, hb, emitTerminal])
  | start => exact hsame (by simp only [Db.step, Db.start]; split <;> rfl)
  | startRun => exact hsame (by simp only [Db.step, Db.startRun]; split <;> rfl)
  | release => exact hsame (by simp only [Db.step, Db.release]; split <;> rfl)
  | requireCapability now job worker capability =>
    simp only [Db.step, Db.requireCapability]
    split
    · exact henqueue _ now job.id rfl
    · exact .refl
  | finishJob =>
    refine hsame ?_
    simp only [Db.step, Db.finishJob]
    split
    · rfl
    split
    · rfl
    · simp
  | pauseFinish => exact hsame (by simp only [Db.step, Db.pauseFinish]; split <;> rfl)
  | loadFenced => exact hsame (by simp only [Db.step, Db.loadFenced]; split <;> rfl)
  | acquire => exact hsame (by simp only [Db.step]; rw [acquire_eq])
  | configure => exact hsame (by simp only [Db.step]; rw [configure_eq])
  | jobAction now action jobId =>
    simp only [Db.step, jobAction]
    split
    · exact .refl
    · cases action with
      | pause => exact .refl
      | cancel =>
        dsimp only
        rw [closeRunIfDone_outbox]
        exact .refl
      | resume =>
        dsimp only
        split
        · exact henqueue _ now jobId rfl
        · exact .refl
      | retry =>
        dsimp only
        split
        · exact henqueue _ now jobId rfl
        · exact .refl
  | cancelRun now runId =>
    refine hsame ?_
    simp only [Db.step, cancelRun]
    rw [Trace.foldl_keep (g := Db.outbox) fun d j => emit_outbox d _, updateJobs_outbox]
  | updateSource now sourceId enabled paused =>
    simp only [Db.step, updateSource]
    cases enabled.getD (db.sourceEnabled sourceId) with
    | false =>
      have hclose : ∀ (d : Db) (row : Job),
          (closeDisabled now sourceId d row).outbox = d.outbox := by
        intro d row
        unfold closeDisabled
        split <;> simp
      simp only [Bool.false_eq_true, if_false, Bool.false_and, emit_outbox, disableSourceJobs]
      rw [Trace.foldl_keep hclose]
      exact .refl
    | true =>
      simp only [if_true, Bool.true_and, emit_outbox, emit_jobs]
      split
      · exact .refl
      split
      · have h := enqueueJobs_enqueues
          ((db.upsertSource ⟨sourceId, true, paused.getD (db.sourcePaused sourceId)⟩).updateJobs
            (fun j => j.resumableWith sourceId) fun j => j.resumeWithSource now) now
          ((db.jobs.filter fun j => j.resumableWith sourceId).map Job.id)
        rw [resumeSourceJobs_jobs]
        exact h
      · exact .refl
  | redriveExhausted now env =>
    simp only [Db.step, redriveExhausted]
    split
    · exact .refl
    split
    · exact .refl
    · exact henqueue _ now env.jobId rfl
  | tick | republishCurrent => exact absurd ht (by simp [Txn.marks])
  | renew | releaseSlot | releaseAll | renewSlots | cancelRunClose => exact hsame rfl

/-- **What a transaction does to the outbox.**  It adds rows for current generations and then marks
rows; it publishes none that it did not hand to the broker. -/
theorem step_outbox (hkey : Keyed Job.id db.jobs) (t : Txn) :
    ∃ mid, Enqueues (db.jobs ++ (db.step t).jobs) db.outbox mid ∧
      Rewrites (Marked ((db.publishes t).map OutboxRow.id)) mid (db.step t).outbox ∧
      ∀ row ∈ db.publishes t, row ∈ mid := by
  cases ht : t.marks with
  | false =>
    have hnone : db.publishes t = [] := by
      cases t with
      | tick => exact absurd ht (by simp [Txn.marks])
      | _ => rfl
    refine ⟨_, (step_enqueues hkey ht).mono fun j hj => List.mem_append_right _ hj,
      Rewrites.refl _ _, ?_⟩
    rw [hnone]
    simp
  | true =>
    cases t with
    | tick now locked outcome =>
      obtain ⟨hmark, hpub⟩ := tick_outbox db now locked outcome
      have hmissing := enqueueJobs_enqueues db now ((db.jobs.filter fun j =>
        db.eligible j && !db.outbox.any fun o => o.key == j.deliveryKey).map Job.id)
      exact ⟨_, hmissing.mono fun j hj => List.mem_append_left _ hj, hmark, hpub⟩
    | republishCurrent now =>
      have hmissing := enqueueJobs_enqueues db now ((db.jobs.filter fun j =>
        db.eligible j && !db.outbox.any fun o => o.key == j.deliveryKey).map Job.id)
      refine ⟨_, hmissing.mono fun j hj => List.mem_append_left _ hj, ?_, by simp [publishes]⟩
      exact rewrites_update fun o _ _ => ⟨rfl, rfl, rfl, fun h => absurd h (by simp)⟩
    | _ => exact absurd ht (by simp [Txn.marks])

end Db

/-! ## Live jobs -/

theorem JobStep.generation_le {t : Txn} {j j' : Job} (hs : JobStep t j j') :
    j.deliveryGeneration ≤ j'.deliveryGeneration := by
  cases hs with
  | act =>
    rename_i action _
    cases action with
    | retry => exact Nat.le_succ _
    | _ => exact Nat.le_add_right _ _
  | repair =>
    unfold Job.repair
    split <;> exact le_rfl
  | reroute | escalate | resumeSource | redrive => exact Nat.le_succ _
  | cancelRun | disable | pauseSource => exact Nat.le_add_right _ _
  | _ => exact le_rfl

/-- The transactions that can give a live job a new generation. -/
def Txn.renewsGeneration : Txn → Bool
  | .planRun .. | .reserve .. | .requireCapability .. | .jobAction _ .resume _
  | .jobAction _ .retry _ | .updateSource .. | .redriveExhausted .. => true
  | _ => false

theorem Job.OwnedIffExecuting.live {j : Job} (h : j.OwnedIffExecuting) {token : Uuid}
    (htoken : j.executionToken = some token) : j.live = true := by
  have hexec : j.executing = true := by
    rw [← h.token, htoken]
    rfl
  simp only [Job.executing, Bool.or_eq_true, beq_iff_eq] at hexec
  rcases hexec with hs | hs <;> simp [Job.live, hs]

theorem Job.open_of_live {j : Job} (h : j.live = true) : j.state.terminal = false := by
  simp only [Job.live, Bool.or_eq_true, beq_iff_eq] at h
  rcases h with (hs | hs) | hs <;> rw [hs] <;> rfl

/-- A paused row is not live, whoever paused it; a running one keeps its generation. -/
theorem Job.pause_live {j : Job} {bySource : Bool} (h : (j.pause bySource).live = true) :
    j.live = true ∧ (j.pause bySource).deliveryGeneration = j.deliveryGeneration := by
  cases hs : j.state <;> simp_all [Job.pause, Job.live]

theorem Job.cancel_live {j : Job} {now : Time} {ending : JobState} (hend : ending.terminal = true)
    (h : (j.cancel now ending).live = true) :
    j.live = true ∧ (j.cancel now ending).deliveryGeneration = j.deliveryGeneration := by
  have hnot : (ending == .queued || ending == .leased || ending == .running) = false := by
    cases ending <;> simp_all [JobState.terminal]
  cases hidle : j.idle with
  | true => simp [Job.cancel, Job.live, hidle, hnot] at h
  | false =>
    refine ⟨by simpa [Job.cancel, Job.live, hidle] using h, ?_⟩
    simp [Job.cancel, hidle]

/-- A resumed or retried row is queued under a new generation, or keeps its state and its
generation. -/
theorem Job.act_generation (now : Time) {action : JobAction}
    (haction : action = .resume ∨ action = .retry) (j : Job) :
    ((j.act now action).state = .queued ∧
        j.deliveryGeneration < (j.act now action).deliveryGeneration) ∨
      ((j.act now action).state = j.state ∧
        (j.act now action).deliveryGeneration = j.deliveryGeneration) := by
  rcases haction with rfl | rfl
  · cases hpaused : j.state == .paused with
    | true => exact Or.inl (by simp [Job.act, Job.resume, hpaused])
    | false => exact Or.inr (by simp [Job.act, Job.resume, hpaused])
  · exact Or.inl ⟨rfl, Nat.lt_succ_self _⟩

/-- Under a transaction that renews no generation, a live row was live under the same generation. -/
theorem JobStep.live_of_live {t : Txn} {j j' : Job} (hs : JobStep t j j')
    (ht : t.renewsGeneration = false) (howned : j.OwnedIffExecuting) (h : j'.live = true) :
    j.live = true ∧ j'.deliveryGeneration = j.deliveryGeneration := by
  have hnot : ∀ {i : Job}, i.live = true → i.state.terminal = true → False := by
    intro i hi hterm
    rw [Job.open_of_live hi] at hterm
    exact absurd hterm (by simp)
  cases hs with
  | withdraw | exhaust | reroute | claim | escalate | disable | pauseSource | resumeSource
  | redrive => exact absurd ht (by simp [Txn.renewsGeneration])
  | start hg =>
    simp only [Job.startable, Job.ownedBy, Bool.and_eq_true, beq_iff_eq] at hg
    exact ⟨howned.live hg.1.1.1.1.2.2, rfl⟩
  | renew hg =>
    simp only [Job.renewable, Job.ownedBy, Bool.and_eq_true, beq_iff_eq] at hg
    exact ⟨howned.live hg.1.2.2, rfl⟩
  | release hg =>
    simp only [Job.releasable, Job.ownedBy, Bool.and_eq_true, beq_iff_eq] at hg
    exact ⟨howned.live hg.2.2, rfl⟩
  | repair hg =>
    refine ⟨?_, ?_⟩
    · simp only [Job.expired, Job.executing, Bool.and_eq_true, Bool.or_eq_true, beq_iff_eq] at hg
      rcases hg.1 with hs | hs <;> simp [Job.live, hs]
    · unfold Job.repair
      split <;> rfl
  | finish hstate => exact (hnot h hstate).elim
  | pauseFinish => exact absurd h (by simp [Job.pauseFinish, Job.live])
  | act =>
    rename_i action _
    cases action with
    | pause => exact Job.pause_live h
    | cancel => exact Job.cancel_live rfl h
    | _ => exact absurd ht (by simp [Txn.renewsGeneration])
  | cancelRun => exact Job.cancel_live rfl h

namespace Db

variable {db : Db}

/-- Where a live row after a transaction comes from: it was live under the same generation, or its
generation is new and has an outbox row. -/
def LiveFrom (db d : Db) (j' : Job) : Prop :=
  (∃ j ∈ db.jobs, j.id = j'.id ∧ j.live = true ∧ j.deliveryGeneration = j'.deliveryGeneration) ∨
    (∃ row ∈ d.outbox, row.key = j'.deliveryKey) ∧
      ∀ j ∈ db.jobs, j.id = j'.id → j.deliveryGeneration < j'.deliveryGeneration

theorem liveFrom_self {d : Db} {j : Job} (hj : j ∈ db.jobs) (h : j.live = true) :
    db.LiveFrom d j := Or.inl ⟨j, hj, rfl, h, rfl⟩

theorem liveFrom_enqueued {d : Db} (hkey : Keyed Job.id db.jobs) (hdkey : Keyed Job.id d.jobs)
    {j j' : Job} (hj : j ∈ db.jobs) (hj' : j' ∈ d.jobs) (hid : j'.id = j.id)
    (hgen : j.deliveryGeneration < j'.deliveryGeneration) (hlive : j'.live = true) (now : Time) :
    db.LiveFrom (d.enqueueJob now j'.id) j' := by
  refine Or.inr ⟨exists_row_of_enqueueJob hdkey hj' (Job.open_of_live hlive) now none, ?_⟩
  intro i hi hi'
  rwa [hkey.eq_of_mem hi hj (hi'.trans hid)]

theorem updateJobs_keyed (hkey : Keyed Job.id db.jobs) {p : Job → Bool} {f : Job → Job}
    (hf : ∀ j, (f j).id = j.id) : Keyed Job.id (db.updateJobs p f).jobs := hkey.update hf

/-- The live rows after an update of job rows: it is enough to account for the selected ones. -/
theorem liveFrom_update {d : Db} {p : Job → Bool} {f : Job → Job} {j' : Job}
    (hj' : j' ∈ update p f db.jobs) (hlive : j'.live = true)
    (hsel : ∀ j ∈ db.jobs, p j = true → (f j).live = true → db.LiveFrom d (f j)) :
    db.LiveFrom d j' := by
  obtain ⟨j, hj, rfl⟩ := mem_update.mp hj'
  by_cases hp : p j = true
  · rw [if_pos hp] at hlive ⊢
    exact hsel j hj hp hlive
  · rw [if_neg hp] at hlive ⊢
    exact liveFrom_self hj hlive

section

variable (hkey : Keyed Job.id db.jobs)

include hkey

/-- The live rows after `reserve`. -/
theorem reserve_live (now : Time) (env : JobEnvelope)
    (worker : Uuid) (caps : List Capability) (token : Uuid) (lease : Time) {j' : Job}
    (hj' : j' ∈ (db.step (.reserve now env worker caps token lease)).jobs)
    (hlive : j'.live = true) :
    db.LiveFrom (db.step (.reserve now env worker caps token lease)) j' := by
  have hsound := db.reserveBranch_sound now env caps
  cases hb : db.reserveBranch now env caps with
  | stale | terminal | held | unmatched | early | conflict | incapable =>
    simp only [Db.step, reserve, hb] at hj' ⊢
    exact liveFrom_self hj' hlive
  | withdrawn row state =>
    rw [hb] at hsound
    simp only [Db.step, reserve, hb, closeRunIfDone_jobs, emitTerminal_jobs, updateJobs_jobs] at hj'
    refine liveFrom_update hj' hlive fun j _ _ hended => ?_
    have hterm : state.terminal = true := by rcases hsound.2.2 with rfl | rfl <;> rfl
    have hopen := Job.open_of_live hended
    exact absurd (hterm.symm.trans hopen) (by simp)
  | exhausted row =>
    simp only [Db.step, reserve, hb, emitTerminal_jobs, updateJobs_jobs] at hj'
    refine liveFrom_update hj' hlive fun j _ _ hended => ?_
    exact absurd hended (by simp [Job.exhaust, Job.live])
  | reroute row selected =>
    have hmoved : ∀ j : Job, (j.reroute selected).id = j.id := fun _ => rfl
    simp only [Db.step, reserve, hb, enqueueJob_jobs, updateJobs_jobs] at hj' ⊢
    refine liveFrom_update hj' hlive fun j hj hsel hopen => ?_
    have hid : env.jobId = (j.reroute selected).id := (beq_iff_eq.mp hsel).symm
    rw [hid]
    rw [hid] at hsel
    exact liveFrom_enqueued hkey (updateJobs_keyed hkey hmoved) hj (mem_update_of_pos hj hsel) rfl
      (Nat.lt_succ_self _) hopen now
  | claim row selected =>
    rw [hb] at hsound
    obtain ⟨hrow, hres, -⟩ := hsound
    simp only [Db.step, reserve, hb, emit_jobs, updateJobs_jobs] at hj'
    refine liveFrom_update hj' hlive fun j hj hsel _ => ?_
    simp only [Bool.and_eq_true, beq_iff_eq] at hsel
    obtain rfl := eq_of_job? hkey hrow hj hsel.1
    exact Or.inl ⟨j, hj, rfl, hres.live, rfl⟩

/-- The live rows after `require_capability`. -/
theorem requireCapability_live (now : Time) (job : ClaimedJob)
    (worker : Uuid) (capability : Capability) {j' : Job}
    (hj' : j' ∈ (db.step (.requireCapability now job worker capability)).jobs)
    (hlive : j'.live = true) :
    db.LiveFrom (db.step (.requireCapability now job worker capability)) j' := by
  have hmoved : ∀ j : Job, (j.escalate capability).id = j.id := fun _ => rfl
  simp only [Db.step, Db.requireCapability] at hj' ⊢
  split at hj'
  · next hany =>
    rw [if_pos hany]
    simp only [emit_jobs, enqueueJob_jobs, updateJobs_jobs] at hj'
    refine liveFrom_update hj' hlive fun j hj hsel hopen => ?_
    have hid : job.id = (j.escalate capability).id := by
      simp only [Job.escalatable, Bool.and_eq_true, beq_iff_eq] at hsel
      exact hsel.1.1.symm
    rw [hid]
    exact liveFrom_enqueued hkey (updateJobs_keyed hkey hmoved) hj (mem_update_of_pos hj hsel) rfl
      (Nat.lt_succ_self _) hopen now
  · next hany =>
    rw [if_neg hany]
    exact liveFrom_self hj' hlive

theorem jobAction_live (now : Time) {action : JobAction}
    (haction : action = .resume ∨ action = .retry) (jobId : Uuid) {j' : Job}
    (hj' : j' ∈ (db.step (.jobAction now action jobId)).jobs) (hlive : j'.live = true) :
    db.LiveFrom (db.step (.jobAction now action jobId)) j' := by
  have hmoved : ∀ j : Job, (j.act now action).id = j.id := by
    intro j
    rcases haction with rfl | rfl <;> rfl
  rw [Db.step, jobAction_jobs] at hj'
  refine liveFrom_update hj' hlive fun j hj hsel hopen => ?_
  have hmem : j.act now action ∈ update (fun i => i.id == jobId && i.admits action)
      (fun i => i.act now action) db.jobs := mem_update_of_pos hj hsel
  simp only [Bool.and_eq_true, beq_iff_eq] at hsel
  obtain ⟨rfl, hadm⟩ := hsel
  rcases Job.act_generation now haction j with ⟨hqueued, hgen⟩ | ⟨hsame, hgen⟩
  · -- a new generation goes with the state `queued`, so the job was enqueued
    have hrow : (db.jobs.find? fun i => i.id == j.id && i.admits action) = some j := by
      refine hkey.find?_of_key hj (by simp [hadm]) fun i hi => ?_
      simp only [Bool.and_eq_true, beq_iff_eq] at hi
      exact hi.1
    have hstep : db.step (.jobAction now action j.id) =
        ((db.updateJobs (fun i => i.id == j.id && i.admits action) fun i => i.act now action).emit
          { type := .jobRequested action, runId := some j.runId, jobId := some j.id,
            sourceId := some j.sourceId }).enqueueJob now (j.act now action).id := by
      rw [hmoved j]
      rcases haction with rfl | rfl <;> simp only [Db.step, jobAction, hrow, hqueued, if_true]
    rw [hstep]
    refine liveFrom_enqueued (d := Db.emit _ _) hkey ?_ hj hmem (hmoved j) hgen hopen now
    exact updateJobs_keyed hkey hmoved
  · exact Or.inl ⟨j, hj, (hmoved j).symm, by rwa [Job.live, ← hsame], hgen.symm⟩

/-- The live rows after `update_source`. -/
theorem updateSource_live (now : Time) (sourceId : String)
    (enabled paused : Option Bool) {j' : Job}
    (hj' : j' ∈ (db.step (.updateSource now sourceId enabled paused)).jobs)
    (hlive : j'.live = true) :
    db.LiveFrom (db.step (.updateSource now sourceId enabled paused)) j' := by
  simp only [Db.step, updateSource] at hj' ⊢
  cases hen : enabled.getD (db.sourceEnabled sourceId) with
  | false =>
    simp only [hen, Bool.false_eq_true, if_false, Bool.false_and, emit_jobs, disableSourceJobs_jobs,
      upsertSource_jobs] at hj'
    refine liveFrom_update hj' hlive fun j hj _ hopen => ?_
    obtain ⟨hl, hgen⟩ := Job.cancel_live rfl hopen
    exact Or.inl ⟨j, hj, rfl, hl, hgen.symm⟩
  | true =>
    simp only [hen, if_true, Bool.true_and] at hj' ⊢
    split at hj'
    · next hpause =>
      rw [if_pos hpause]
      simp only [emit_jobs, pauseSourceJobs_jobs, upsertSource_jobs] at hj'
      refine liveFrom_update hj' hlive fun j hj _ hopen => ?_
      obtain ⟨hl, hgen⟩ := Job.pause_live hopen
      exact Or.inl ⟨j, hj, rfl, hl, hgen.symm⟩
    · next hpause =>
      rw [if_neg hpause]
      split at hj'
      · next hwas =>
        rw [if_pos hwas]
        have hmoved : ∀ j : Job, (j.resumeWithSource now).id = j.id := fun _ => rfl
        have hset : Keyed Job.id
            (db.upsertSource ⟨sourceId, true, paused.getD (db.sourcePaused sourceId)⟩).jobs := hkey
        have hupd := updateJobs_keyed (p := fun j => j.resumableWith sourceId) hset hmoved
        rw [emit_jobs, resumeSourceJobs_jobs, upsertSource_jobs] at hj'
        refine liveFrom_update hj' hlive fun j hj hsel _ => Or.inr ⟨?_, ?_⟩
        · refine exists_row_of_enqueueJobs hupd (mem_update_of_pos hj hsel) rfl now ?_
          exact List.mem_map.mpr ⟨j, List.mem_filter.mpr ⟨hj, hsel⟩, rfl⟩
        · intro i hi hid
          rw [hkey.eq_of_mem hi hj hid]
          exact Nat.lt_succ_self _
      · next hwas =>
        rw [if_neg hwas]
        exact liveFrom_self hj' hlive

/-- The live rows after `redrive_exhausted`. -/
theorem redriveExhausted_live (now : Time) (env : JobEnvelope)
    {j' : Job} (hj' : j' ∈ (db.step (.redriveExhausted now env)).jobs) (hlive : j'.live = true) :
    db.LiveFrom (db.step (.redriveExhausted now env)) j' := by
  have hmoved : ∀ j : Job, { j with deliveryGeneration := j.deliveryGeneration + 1 }.id = j.id :=
    fun _ => rfl
  simp only [Db.step, redriveExhausted] at hj' ⊢
  cases hrow : db.job? env.jobId with
  | none =>
    rw [hrow] at hj'
    exact liveFrom_self hj' hlive
  | some row =>
    rw [hrow] at hj'
    dsimp only at hj' ⊢
    split at hj'
    · next hskip =>
      rw [if_pos hskip]
      exact liveFrom_self hj' hlive
    · next hskip =>
      rw [if_neg hskip]
      rw [enqueueJob_jobs, updateJobs_jobs] at hj'
      refine liveFrom_update hj' hlive fun j hj hsel hopen => ?_
      have hid : env.jobId = { j with deliveryGeneration := j.deliveryGeneration + 1 }.id :=
        (beq_iff_eq.mp hsel).symm
      rw [hid]
      rw [hid] at hsel
      exact liveFrom_enqueued hkey (updateJobs_keyed hkey hmoved) hj (mem_update_of_pos hj hsel) rfl
        (Nat.lt_succ_self _) hopen now

/-- **Live jobs.**  A job that is live after a transaction was live before it under the same
generation, or its generation is new and has an outbox row. -/
theorem step_live (howned : ∀ j ∈ db.jobs, j.OwnedIffExecuting)
    (t : Txn) {j' : Job} (hj' : j' ∈ (db.step t).jobs) (hlive : j'.live = true) :
    db.LiveFrom (db.step t) j' := by
  cases ht : t.renewsGeneration with
  | false =>
    obtain ⟨rows, new, hjobs, hrows, hnew, -⟩ := step_jobs hkey t
    rw [hjobs, List.mem_append] at hj'
    rcases hj' with hold | hfresh
    · obtain ⟨j, hj, rfl | hs⟩ := hrows.exists_old hold
      · exact liveFrom_self hj hlive
      · obtain ⟨hl, hgen⟩ := hs.live_of_live ht (howned j hj) hlive
        exact Or.inl ⟨j, hj, hs.fixed.1.symm, hl, hgen.symm⟩
    · cases hnew j' hfresh with
      | planRun => exact absurd ht (by simp [Txn.renewsGeneration])
  | true =>
    cases t with
    | planRun now runId occurrence selected priority maxAttempts =>
      rcases (planRun_outbox hkey now runId occurrence selected priority maxAttempts).2 j' hj' with
        hold | ⟨hid, hrow⟩
      · exact liveFrom_self hold hlive
      · exact Or.inr ⟨hrow, fun j hj hsame => absurd (List.mem_map.mpr ⟨j, hj, hsame⟩) hid⟩
    | reserve => exact reserve_live hkey _ _ _ _ _ _ hj' hlive
    | requireCapability => exact requireCapability_live hkey _ _ _ _ hj' hlive
    | jobAction now action jobId =>
      cases action with
      | resume => exact jobAction_live hkey now (Or.inl rfl) jobId hj' hlive
      | retry => exact jobAction_live hkey now (Or.inr rfl) jobId hj' hlive
      | _ => exact absurd ht (by simp [Txn.renewsGeneration])
    | updateSource => exact updateSource_live hkey _ _ _ _ hj' hlive
    | redriveExhausted => exact redriveExhausted_live hkey _ _ hj' hlive
    | _ => exact absurd ht (by simp [Txn.renewsGeneration])

/-- Every job is still there after a transaction, with a generation at least as high. -/
theorem step_generation (t : Txn) {j : Job} (hj : j ∈ db.jobs) :
    ∃ j' ∈ (db.step t).jobs, j'.id = j.id ∧ j.deliveryGeneration ≤ j'.deliveryGeneration := by
  obtain ⟨rows, new, hjobs, hrows, -, -⟩ := step_jobs hkey t
  obtain ⟨j', hj', hrw⟩ := hrows.exists_new hj
  have hmem : j' ∈ (db.step t).jobs := by
    rw [hjobs]
    exact List.mem_append_left _ hj'
  rcases hrw with rfl | hs
  · exact ⟨j', hmem, rfl, le_rfl⟩
  · exact ⟨j', hmem, hs.fixed.1, hs.generation_le⟩

end

end Db

end CommerceCollector
