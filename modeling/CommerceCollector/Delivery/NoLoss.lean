import CommerceCollector.Delivery.System

/-!
# No lost delivery

A job that waits for work can always be delivered: the row of its generation is unpublished, or the
message of its generation is not acknowledged.  This holds along every run in which no delivery is
acknowledged while its job is still live under the delivered generation (`AcksObsolete`).  The
source breaks the condition in several places, each of which then loses the job: an execution whose
`start` fails or whose lease was lost acknowledges although `reconcile` puts the row back to
`queued` under the same generation, and `reserve` answers `ack` for a row that it holds back.

The invariant `StoresInv` couples the three stores and holds along every run: no key runs ahead of
its job, every published row has a message, and every live job has an outbox row.  Under it a live
job can be delivered unless its generation is `Spent`, that is published and acknowledged.  That no
live job is (`Unacked`) needs the condition.
-/

namespace CommerceCollector

open Relational

/-! ## The outbox alone -/

namespace Db

/-- The key belongs to a job and to one of its generations so far. -/
def KnownKey (db : Db) (key : Uuid × ℕ) : Prop :=
  ∃ j ∈ db.jobs, j.id = key.1 ∧ key.2 ≤ j.deliveryGeneration

/-- The rows of the outbox are well formed. -/
structure RowsInv (rows : List OutboxRow) : Prop where
  /-- `queue_outbox_pkey`. -/
  ids : Keyed OutboxRow.id rows
  /-- The sequence has not been drawn ahead. -/
  bound : ∀ row ∈ rows, row.id ≤ rows.length
  /-- The payload names the job and the generation of the row. -/
  payload : ∀ row ∈ rows, row.payload.deduplicationKey = row.key

/-- The outbox is well formed, and no row runs ahead of its job. -/
structure OutboxInv (db : Db) : Prop extends RowsInv db.outbox where
  known : ∀ row ∈ db.outbox, db.KnownKey row.key

theorem RowsInv.enqueues {jobs : List Job} {rows rows' : List OutboxRow} (h : RowsInv rows)
    (hadd : Enqueues jobs rows rows') : RowsInv rows' := by
  induction hadd with
  | refl => exact h
  | add _ hj hnew ih =>
    rename_i rows' j now at? _
    refine ⟨?_, ?_, ?_⟩
    · unfold Keyed
      rw [List.map_append, List.nodup_append]
      refine ⟨ih.ids, by simp, fun a ha b hb => ?_⟩
      obtain ⟨row, hrow, rfl⟩ := List.mem_map.mp ha
      have hle := ih.bound row hrow
      rw [List.map_singleton, List.mem_singleton] at hb
      simp only [hb, Job.outboxRow]
      omega
    · intro row hrow
      rw [List.length_append, List.length_singleton]
      rcases List.mem_append.mp hrow with hold | hfresh
      · have hle := ih.bound row hold
        omega
      · rw [List.mem_singleton.mp hfresh]
        exact le_rfl
    · intro row hrow
      rcases List.mem_append.mp hrow with hold | hfresh
      · exact ih.payload row hold
      · rw [List.mem_singleton.mp hfresh]
        rfl

theorem RowsInv.marked {ids : List ℕ} {rows rows' : List OutboxRow} (h : RowsInv rows)
    (hmark : Rewrites (Marked ids) rows rows') : RowsInv rows' := by
  have hids : rows'.map OutboxRow.id = rows.map OutboxRow.id := hmark.map_eq fun _ _ hm => hm.id
  have hlength : rows'.length = rows.length := by
    have := congrArg List.length hids
    simpa using this
  refine ⟨?_, fun row' hrow' => ?_, fun row' hrow' => ?_⟩
  · unfold Keyed
    rw [hids]
    exact h.ids
  · obtain ⟨row, hrow, rfl | hm⟩ := hmark.exists_old hrow'
    · rw [hlength]
      exact h.bound row' hrow
    · rw [hlength, hm.id]
      exact h.bound row hrow
  · obtain ⟨row, hrow, rfl | hm⟩ := hmark.exists_old hrow'
    · exact h.payload row' hrow
    · rw [hm.payload, hm.key]
      exact h.payload row hrow

variable {db : Db}

section

variable (hkey : Keyed Job.id db.jobs)

include hkey

theorem KnownKey.step {key : Uuid × ℕ} (h : db.KnownKey key)
    (t : Txn) : (db.step t).KnownKey key := by
  obtain ⟨j, hj, hid, hle⟩ := h
  obtain ⟨j', hj', hid', hle'⟩ := step_generation hkey t hj
  exact ⟨j', hj', hid'.trans hid, hle.trans hle'⟩

theorem knownKey_of_enqueues (t : Txn) {mid : List OutboxRow}
    (hadd : Enqueues (db.jobs ++ (db.step t).jobs) db.outbox mid)
    (h : ∀ row ∈ db.outbox, db.KnownKey row.key) :
    ∀ row ∈ mid, (db.step t).KnownKey row.key := by
  intro row hrow
  rcases hadd.mem_cases hrow with hold | ⟨j, hj, now, id, at?, rfl⟩
  · exact (h row hold).step hkey t
  · rcases List.mem_append.mp hj with hj | hj
    · have hknown : db.KnownKey j.deliveryKey := ⟨j, hj, rfl, le_rfl⟩
      exact hknown.step hkey t
    · exact ⟨j, hj, rfl, le_rfl⟩

theorem OutboxInv.step (h : db.OutboxInv) (t : Txn) :
    (db.step t).OutboxInv := by
  obtain ⟨mid, hadd, hmark, -⟩ := step_outbox hkey t
  have hrows : RowsInv mid := h.toRowsInv.enqueues hadd
  have hfinal := hrows.marked hmark
  refine ⟨hfinal, fun row' hrow' => ?_⟩
  have hknown := knownKey_of_enqueues hkey t hadd h.known
  obtain ⟨row, hrow, rfl | hm⟩ := hmark.exists_old hrow'
  · exact hknown row' hrow
  · rw [hm.key]
    exact hknown row hrow

theorem exists_row_step (t : Txn) {row : OutboxRow}
    (hrow : row ∈ db.outbox) : ∃ row' ∈ (db.step t).outbox, row'.key = row.key := by
  obtain ⟨mid, hadd, hmark, -⟩ := step_outbox hkey t
  obtain ⟨row', hrow', rfl | hm⟩ := hmark.exists_new (hadd.mem_of_mem hrow)
  · exact ⟨row', hrow', rfl⟩
  · exact ⟨row', hrow', hm.key⟩

theorem knownKey_of_publishes (h : db.OutboxInv) (t : Txn) :
    ∀ row ∈ db.publishes t, (db.step t).KnownKey row.payload.deduplicationKey := by
  obtain ⟨mid, hadd, -, hsent⟩ := step_outbox hkey t
  intro row hrow
  rw [(h.toRowsInv.enqueues hadd).payload row (hsent row hrow)]
  exact knownKey_of_enqueues hkey t hadd h.known row (hsent row hrow)

/-- A row that is published after a transaction was published before it, or its payload was handed
to the broker. -/
theorem published_of_step (h : db.OutboxInv) (t : Txn)
    {row' : OutboxRow} (hrow' : row' ∈ (db.step t).outbox) (hpub : row'.publishedAt.isSome = true) :
    (∃ row ∈ db.outbox, row.key = row'.key ∧ row.publishedAt.isSome = true) ∨
      ∃ row ∈ db.publishes t, row.payload.deduplicationKey = row'.key := by
  obtain ⟨mid, hadd, hmark, hsent⟩ := step_outbox hkey t
  have hrows : RowsInv mid := h.toRowsInv.enqueues hadd
  have hold : ∀ row ∈ mid, row.publishedAt.isSome = true → row ∈ db.outbox := by
    intro row hrow hp
    rcases hadd.mem_cases hrow with hold | ⟨j, -, now, id, at?, rfl⟩
    · exact hold
    · exact absurd hp (by simp [Job.outboxRow])
  obtain ⟨row, hrow, rfl | hm⟩ := hmark.exists_old hrow'
  · exact Or.inl ⟨row', hold row' hrow hpub, rfl, hpub⟩
  · rcases hm.published hpub with hp | hid
    · exact Or.inl ⟨row, hold row hrow hp, hm.key.symm, hp⟩
    · obtain ⟨sent, hmem, hsame⟩ := List.mem_map.mp hid
      obtain rfl := hrows.ids.eq_of_mem (hsent sent hmem) hrow hsame
      exact Or.inr ⟨sent, hmem, (hrows.payload sent hrow).trans hm.key.symm⟩

end

end Db

/-! ## The coupling of the stores -/

namespace System

/-- The invariant of the database, the broker and the executions. -/
structure StoresInv (s : System) : Prop where
  keyed : Keyed Job.id s.db.jobs
  owned : ∀ j ∈ s.db.jobs, j.OwnedIffExecuting
  outbox : s.db.OutboxInv
  /-- No message runs ahead of its job. -/
  messages : ∀ m ∈ s.messages, s.db.KnownKey m.deduplicationKey
  /-- Executions were delivered a message. -/
  tasks : ∀ task ∈ s.tasks, task.envelope ∈ s.messages
  /-- Workers hold deliveries of messages. -/
  deliveries : ∀ k env, s.deliveries k = some env → env ∈ s.messages
  /-- No acknowledged key runs ahead of its job. -/
  acked : ∀ key ∈ s.acked, s.db.KnownKey key
  /-- A published row has a message. -/
  published : ∀ row ∈ s.db.outbox, row.publishedAt.isSome = true →
    row.key ∈ s.messages.map JobEnvelope.deduplicationKey
  /-- The current generation of a live job has an outbox row. -/
  enqueued : ∀ j ∈ s.db.jobs, j.live = true → ∃ row ∈ s.db.outbox, row.key = j.deliveryKey

/-- The generation is published and its message is acknowledged. -/
def Spent (s : System) (key : Uuid × ℕ) : Prop :=
  key ∈ s.acked ∧ ∀ row ∈ s.db.outbox, row.key = key → row.publishedAt.isSome = true

variable {s : System}

/-- A generation with an outbox row can be delivered iff it is not spent. -/
theorem StoresInv.deliverable_iff (h : s.StoresInv) {key : Uuid × ℕ}
    (hrow : ∃ row ∈ s.db.outbox, row.key = key) : s.Deliverable key ↔ ¬ s.Spent key := by
  constructor
  · rintro (⟨row, hmem, hkey, hnone⟩ | ⟨-, hacked⟩) hspent
    · have hsome := hspent.2 row hmem hkey
      rw [hnone] at hsome
      exact absurd hsome (by simp)
    · exact hacked hspent.1
  · intro hnot
    obtain ⟨row, hmem, hkey⟩ := hrow
    by_cases hall : ∀ row ∈ s.db.outbox, row.key = key → row.publishedAt.isSome = true
    · have hsent := h.published row hmem (hall row hmem hkey)
      rw [hkey] at hsent
      exact Or.inr ⟨hsent, fun hacked => hnot ⟨hacked, hall⟩⟩
    · push Not at hall
      obtain ⟨row', hmem', hkey', hnone⟩ := hall
      exact Or.inl ⟨row', hmem', hkey', Option.not_isSome_iff_eq_none.mp hnone⟩

theorem storesInv_empty : ({} : System).StoresInv where
  keyed := List.nodup_nil
  owned := by simp
  outbox := ⟨⟨List.nodup_nil, by simp, by simp⟩, by simp⟩
  messages := by simp
  tasks := by simp
  deliveries := by simp
  acked := by simp
  published := by simp
  enqueued := by simp

theorem StoresInv.commit (h : s.StoresInv) (t : Txn) : (s.commit t).StoresInv where
  keyed := Db.step_keyed h.keyed t
  owned := Db.step_ownedIffExecuting h.keyed h.owned t
  outbox := h.outbox.step h.keyed t
  messages := by
    intro m hm
    rcases mem_insertAll hm with hold | hnew
    · exact (h.messages m hold).step h.keyed t
    · obtain ⟨row, hrow, rfl⟩ := List.mem_map.mp hnew
      exact Db.knownKey_of_publishes h.keyed h.outbox t row hrow
  tasks := fun task htask => mem_insertAll_of_mem (h.tasks task htask)
  deliveries := fun k env henv => mem_insertAll_of_mem (h.deliveries k env henv)
  acked := fun key hkey => (h.acked key hkey).step h.keyed t
  published := by
    intro row' hrow' hpub
    rcases Db.published_of_step h.keyed h.outbox t hrow' hpub with
      ⟨row, hrow, hkey, hp⟩ | ⟨row, hrow, hkey⟩
    · obtain ⟨m, hm, hmkey⟩ := List.mem_map.mp (h.published row hrow hp)
      rw [← hkey, ← hmkey]
      exact List.mem_map_of_mem (mem_insertAll_of_mem hm)
    · obtain ⟨m, hm, hmkey⟩ : ∃ m ∈ insertAll JobEnvelope.deduplicationKey
          ((s.db.publishes t).map OutboxRow.payload) s.messages,
          m.deduplicationKey = row.payload.deduplicationKey :=
        exists_key_insertAll (List.mem_map_of_mem hrow)
      rw [← hkey, ← hmkey]
      exact List.mem_map_of_mem hm
  enqueued := by
    intro j' hj' hlive
    rcases Db.step_live h.keyed h.owned t hj' hlive with ⟨j, hj, hid, hl, hgen⟩ | ⟨hrow, -⟩
    · obtain ⟨row, hrow, hkey⟩ := h.enqueued j hj hl
      obtain ⟨row', hrow', hkey'⟩ := Db.exists_row_step h.keyed t hrow
      exact ⟨row', hrow', hkey'.trans (hkey.trans (Prod.ext hid hgen))⟩
    · exact hrow

theorem StoresInv.transact (h : s.StoresInv) (txn : Option Txn) : (s.transact txn).StoresInv := by
  cases txn with
  | none => exact h
  | some t => exact h.commit t

theorem mem_transact_messages {m : JobEnvelope} (hm : m ∈ s.messages) (txn : Option Txn) :
    m ∈ (s.transact txn).messages := by
  cases txn with
  | none => exact hm
  | some t => exact mem_insertAll_of_mem hm

@[simp] theorem transact_acked (txn : Option Txn) : (s.transact txn).acked = s.acked := by
  cases txn <;> rfl

/-- A move that acknowledges commits nothing, and it acknowledges a delivery that the worker has. -/
theorem move_ack {task : Task} {db : Db} {deliveries : Deliveries} {now : Time} {locked : List ℕ}
    {trace : Option String} {crawl : Crawl} {env : JobEnvelope}
    (h : (task.move db deliveries now locked trace crawl).ack = some env) :
    (task.move db deliveries now locked trace crawl).txn = none ∧
      (env = task.envelope ∨ ∃ k, deliveries k = some env) := by
  unfold Task.move at h ⊢
  cases hstage : task.stage with
  | disposing =>
    rw [hstage] at h
    exact ⟨rfl, Or.inl (Option.some.inj h).symm⟩
  | startAck job =>
    rw [hstage] at h
    exact ⟨rfl, Or.inr ⟨_, h⟩⟩
  | finalAck job =>
    rw [hstage] at h
    exact ⟨rfl, Or.inr ⟨_, h⟩⟩
  | acquiring job keys =>
    rw [hstage] at h
    cases keys <;> exact absurd h (by simp)
  | crawling job =>
    rw [hstage] at h
    cases crawl with
    | transient =>
      dsimp only at h
      split at h <;> exact absurd h (by simp)
    | _ => exact absurd h (by simp)
  | retrying job | retried job =>
    rw [hstage] at h
    cases crawl <;> exact absurd h (by simp)
  | finishing job state pause summary error =>
    rw [hstage] at h
    cases crawl <;> exact absurd h (by simp)
  | _ =>
    rw [hstage] at h
    exact absurd h (by simp)

/-- An execution that is in flight after a move was delivered the message of an execution that was
in flight before it. -/
theorem exists_task_of_perform {i : ℕ} {task : Task} {m : Move} (htask : task ∈ s.tasks) :
    ∀ t ∈ (s.perform i task m).tasks, ∃ u ∈ s.tasks, t.envelope = u.envelope := by
  intro t ht
  simp only [System.perform] at ht
  cases hm : m.stage with
  | none =>
    rw [hm] at ht
    exact ⟨t, List.mem_of_mem_eraseIdx ht, rfl⟩
  | some stage =>
    rw [hm] at ht
    rcases List.mem_or_eq_of_mem_set ht with hold | rfl
    · exact ⟨t, hold, rfl⟩
    · exact ⟨task, htask, rfl⟩

theorem deliveries_of_perform {i : ℕ} {task : Task} {m : Move} {k : Uuid × Uuid} {env : JobEnvelope}
    (henv : (s.perform i task m).deliveries k = some env) : s.deliveries k = some env := by
  simp only [System.perform] at henv
  cases hf : m.forget with
  | none =>
    rw [hf] at henv
    exact henv
  | some jobId =>
    simp only [hf] at henv
    by_cases hk : k = (task.worker, jobId)
    · rw [hk, Function.update_self] at henv
      exact absurd henv (by simp)
    · rwa [Function.update_of_ne hk] at henv

/-- An acknowledged key was acknowledged before the move or is acknowledged by it. -/
theorem mem_acked_perform {i : ℕ} {task : Task} {m : Move} {key : Uuid × ℕ}
    (hkey : key ∈ (s.perform i task m).acked) :
    key ∈ s.acked ∨ ∃ env, m.ack = some env ∧ key = env.deduplicationKey := by
  rcases List.mem_append.mp hkey with hold | hnew
  · exact Or.inl hold
  · obtain ⟨env, henv, rfl⟩ := List.mem_map.mp hnew
    exact Or.inr ⟨env, Option.mem_toList.mp henv, rfl⟩

theorem StoresInv.perform (h : s.StoresInv) {i : ℕ} {task : Task} (htask : task ∈ s.tasks)
    {m : Move} (hack : ∀ env, m.ack = some env → env ∈ s.messages) :
    (s.perform i task m).StoresInv := by
  have hnext := h.transact m.txn
  refine ⟨hnext.keyed, hnext.owned, hnext.outbox, hnext.messages, ?_, ?_, ?_, hnext.published,
    hnext.enqueued⟩
  · intro t ht
    obtain ⟨u, hu, henv⟩ := exists_task_of_perform htask t ht
    rw [henv]
    exact mem_transact_messages (h.tasks u hu) m.txn
  · intro k env henv
    exact mem_transact_messages (h.deliveries k env (deliveries_of_perform henv)) m.txn
  · intro key hkey
    rcases mem_acked_perform hkey with hold | ⟨env, henv, rfl⟩
    · exact hnext.acked key (by rwa [transact_acked])
    · exact hnext.messages env (mem_transact_messages (hack env henv) m.txn)

theorem StoresInv.receive (h : s.StoresInv) (now : Time) {env : JobEnvelope}
    (henv : env ∈ s.messages) (worker : Uuid) (capabilities : List Capability) (token : Uuid)
    (edge : Option String) : (s.receive now env worker capabilities token edge).StoresInv := by
  unfold System.receive
  dsimp only
  generalize hnext : s.commit (.reserve now env worker capabilities token (secs leaseSeconds)) = next
  have hinv : next.StoresInv := hnext ▸ h.commit _
  have hmem : env ∈ next.messages := by
    rw [← hnext]
    exact mem_insertAll_of_mem henv
  have hadd : ∀ (stage : Stage), ∀ t ∈ next.tasks ++ [⟨worker, env, stage⟩],
      t.envelope ∈ next.messages := by
    intro stage t ht
    rcases List.mem_append.mp ht with hold | hnew
    · exact hinv.tasks t hold
    · rw [List.mem_singleton.mp hnew]
      exact hmem
  cases (s.db.reserve now env worker capabilities token).2 with
  | ack => exact { hinv with tasks := hadd _ }
  | retry after => exact hinv
  | run job =>
    refine { hinv with tasks := hadd _, deliveries := fun k e he => ?_ }
    dsimp only at he
    by_cases hk : k = (worker, job.id)
    · rw [hk, Function.update_self] at he
      rw [← Option.some.inj he]
      exact hmem
    · rw [Function.update_of_ne hk] at he
      exact hinv.deliveries k e he

/-- A stored message whose publication was not recorded keeps the invariant. -/
theorem StoresInv.stray (h : s.StoresInv) (now : Time) {row : OutboxRow}
    (hrow : row ∈ (s.db.reconstructMissing now).outbox) :
    ({ s with messages := insertNew JobEnvelope.deduplicationKey row.payload s.messages } :
      System).StoresInv := by
  have hadd : Enqueues s.db.jobs s.db.outbox (s.db.reconstructMissing now).outbox :=
    Db.enqueueJobs_enqueues _ _ _
  have hpayload := (h.outbox.toRowsInv.enqueues hadd).payload row hrow
  have hknown : s.db.KnownKey row.key := by
    rcases hadd.mem_cases hrow with hold | ⟨j, hj, _, _, _, rfl⟩
    · exact h.outbox.known row hold
    · exact ⟨j, hj, rfl, le_rfl⟩
  refine { h with
    messages := fun m hm => ?_
    tasks := fun task htask => mem_insertNew_of_mem (h.tasks task htask)
    deliveries := fun k env henv => mem_insertNew_of_mem (h.deliveries k env henv)
    published := fun r hr hp => ?_ }
  · rcases mem_insertNew hm with hold | rfl
    · exact h.messages m hold
    · rw [hpayload]
      exact hknown
  · obtain ⟨m, hm, hmkey⟩ := List.mem_map.mp (h.published r hr hp)
    rw [← hmkey]
    exact List.mem_map_of_mem (mem_insertNew_of_mem hm)

theorem StoresInv.step (h : s.StoresInv) (a : Action) : (s.step a).StoresInv := by
  cases a with
  | commit t => exact h.commit t
  | stray now row =>
    simp only [System.step]
    split
    · next hrow => exact h.stray now hrow.1
    · exact h
  | deliver now env worker capabilities token edge =>
    simp only [System.step]
    split
    · next henv => exact h.receive now henv worker capabilities token edge
    · exact h
  | advance i now locked trace crawl =>
    simp only [System.step]
    cases htask : s.tasks[i]? with
    | none => exact h
    | some task =>
      have hmem : task ∈ s.tasks := List.mem_of_getElem? htask
      refine h.perform hmem fun env henv => ?_
      rcases (move_ack henv).2 with rfl | ⟨k, hk⟩
      · exact h.tasks task hmem
      · exact h.deliveries k env hk
  | crash i =>
    exact { h with tasks := fun task htask => h.tasks task (List.mem_of_mem_eraseIdx htask) }

theorem after_storesInv (actions : List Action) : (System.after actions).StoresInv :=
  Trace.exec_invariant System.step (I := StoresInv) (fun _ a h => h.step a) storesInv_empty actions

/-! ## Acknowledgements -/

/-- No live job is acknowledged under its current generation. -/
def Unacked (s : System) : Prop := ∀ j ∈ s.db.jobs, j.live = true → j.deliveryKey ∉ s.acked

/-- The acknowledged delivery, if there is one, is obsolete: its job is not live under the delivered
generation. -/
def AcksObsolete (s : System) (a : Action) : Prop :=
  ∀ env ∈ s.acknowledges a, ∀ j ∈ s.db.jobs,
    j.deliveryKey = env.deduplicationKey → j.live = false

instance (s : System) (a : Action) : Decidable (s.AcksObsolete a) :=
  decidable_of_iff (∀ env ∈ s.acknowledges a, ∀ j ∈ s.db.jobs,
    j.deliveryKey = env.deduplicationKey → j.live = false) Iff.rfl

theorem StoresInv.not_mem_acked (h : s.StoresInv) {key : Uuid × ℕ}
    (hnew : ∀ j ∈ s.db.jobs, j.id = key.1 → j.deliveryGeneration < key.2) : key ∉ s.acked := by
  intro hmem
  obtain ⟨j, hj, hid, hle⟩ := h.acked key hmem
  exact absurd hle (not_le.mpr (hnew j hj hid))

/-- A transaction acknowledges nothing, and a new generation is ahead of every acknowledged key. -/
theorem Unacked.commit (hu : s.Unacked) (h : s.StoresInv) (t : Txn) : (s.commit t).Unacked := by
  intro j' hj' hlive
  rcases Db.step_live h.keyed h.owned t hj' hlive with ⟨j, hj, hid, hl, hgen⟩ | ⟨-, hnew⟩
  · have hsame : j.deliveryKey = j'.deliveryKey := Prod.ext hid hgen
    exact hsame ▸ hu j hj hl
  · exact h.not_mem_acked hnew

/-- A move acknowledges no live job, if what it acknowledges is obsolete. -/
theorem Unacked.perform (hu : s.Unacked) (h : s.StoresInv) {i : ℕ} {task : Task} {m : Move}
    (hack : ∀ env, m.ack = some env → m.txn = none ∧
      ∀ j ∈ s.db.jobs, j.deliveryKey = env.deduplicationKey → j.live = false) :
    (s.perform i task m).Unacked := by
  have hnext : (s.transact m.txn).Unacked := by
    cases m.txn with
    | none => exact hu
    | some t => exact hu.commit h t
  intro j hj hlive hmem
  rcases mem_acked_perform hmem with hold | ⟨env, henv, hkey⟩
  · exact hnext j hj hlive (by rwa [transact_acked])
  · -- nothing else happens in a move that acknowledges
    obtain ⟨htxn, hdead⟩ := hack env henv
    have hjobs : j ∈ s.db.jobs := by
      have hj' : j ∈ (s.transact m.txn).db.jobs := hj
      rwa [htxn] at hj'
    rw [hdead j hjobs hkey] at hlive
    exact absurd hlive (by simp)

/-- An action that acknowledges only an obsolete delivery acknowledges no live job. -/
theorem Unacked.step (hu : s.Unacked) (h : s.StoresInv) {a : Action} (hack : s.AcksObsolete a) :
    (s.step a).Unacked := by
  cases a with
  | commit t => exact hu.commit h t
  | stray now row =>
    simp only [System.step]
    split <;> exact hu
  | deliver now env worker capabilities token edge =>
    simp only [System.step]
    split
    · have hnext := hu.commit h (.reserve now env worker capabilities token (secs leaseSeconds))
      unfold System.receive
      dsimp only
      split <;> exact hnext
    · exact hu
  | advance i now locked trace crawl =>
    simp only [System.step]
    cases htask : s.tasks[i]? with
    | none => exact hu
    | some task =>
      refine hu.perform h fun env henv => ⟨(move_ack henv).1, hack env ?_⟩
      simp only [acknowledges, htask, Option.bind_some]
      exact henv
  | crash i => exact hu

/-- Along every run that acknowledges only obsolete deliveries no live job is acknowledged. -/
theorem after_unacked {actions : List Action}
    (hack : Trace.Along System.step AcksObsolete {} actions) : (System.after actions).Unacked := by
  have hboth := Trace.exec_invariant_of_along System.step (I := fun s => s.StoresInv ∧ s.Unacked)
    (fun _ a hc h => ⟨h.1.step a, h.2.step h.1 hc⟩) ⟨storesInv_empty, by simp [Unacked]⟩ hack
  exact hboth.2

/-- Along every run that acknowledges only obsolete deliveries every live job can be delivered. -/
theorem live_job_deliverable {actions : List Action}
    (hack : Trace.Along System.step AcksObsolete {} actions) {j : Job}
    (hj : j ∈ (System.after actions).db.jobs) (hlive : j.live = true) :
    (System.after actions).Deliverable j.deliveryKey := by
  have hinv := after_storesInv actions
  refine (hinv.deliverable_iff (hinv.enqueued j hj hlive)).mpr fun hspent => ?_
  exact after_unacked hack j hj hlive hspent.1

/-- **No lost delivery.**  Along every run in which no delivery is acknowledged while its job is
live under the delivered generation, every queued job that is neither cancelled nor paused and
whose source is enabled and not paused can be delivered: the outbox row of its generation is not yet
published, or the message of its generation is not yet acknowledged. -/
theorem queued_job_deliverable {actions : List Action}
    (hack : Trace.Along System.step AcksObsolete {} actions) :
    ∀ j ∈ (System.after actions).db.jobs, j.state = .queued → j.cancelRequested = false →
      j.pauseRequested = false → (System.after actions).db.sourceEnabled j.sourceId = true →
      (System.after actions).db.sourcePaused j.sourceId = false →
      (System.after actions).Deliverable j.deliveryKey := by
  intro j hj hqueued _ _ _ _
  exact live_job_deliverable hack hj (by simp [Job.live, hqueued])

/-- A planned job whose message the dispatcher has published. -/
def publishedJob : List Action :=
  [ .commit (.planRun 0 1 none [⟨10, "shop", "shop.example", []⟩] 100 3),
    .commit (.tick (secs 1) [] fun _ => .confirmed) ]

/-- The published job is delivered and claimed. -/
def claimedJob : List Action :=
  publishedJob ++ [.deliver (secs 2) ⟨10, 1, "shop", 1, .plain, 100, 0⟩ 1 [] 101 none]

/-- The claimed job is started. -/
def runningJob : List Action :=
  claimedJob ++
    [ .advance 0 (secs 3) [] none .load, .advance 0 (secs 3) [] none .load,
      .advance 0 (secs 3) [] none .load, .advance 0 (secs 3) [] none .load ]

/-- The running job is finished, and its delivery is acknowledged.  A second job is claimed by a
worker that dies, and the dispatcher repairs its row. -/
def abandonedJob : List Action :=
  runningJob ++
    [ .advance 0 (secs 4) [] none (.finish .succeeded none none),
      .advance 0 (secs 4) [] none .load, .advance 0 (secs 4) [] none .load,
      .advance 0 (secs 4) [] none .load, .advance 0 (secs 4) [] none .load,
      .commit (.planRun (secs 10) 2 none [⟨20, "shop", "shop.example", []⟩] 100 3),
      .commit (.tick (secs 11) [] fun _ => .confirmed),
      .deliver (secs 12) ⟨20, 2, "shop", 1, .plain, 100, secs 10⟩ 1 [] 102 none,
      .crash 0,
      .commit (.tick (secs 400) [] fun _ => .confirmed) ]

/-- The first delivery is acknowledged, and the abandoned job is queued and can be delivered. -/
theorem abandoned_job_deliverable :
    (System.after abandonedJob).acked = [(10, 1)] ∧
      ∃ j ∈ (System.after abandonedJob).db.jobs, j.id = 20 ∧ j.state = .queued ∧
        (System.after abandonedJob).Deliverable j.deliveryKey := by
  obtain ⟨j, hj, hid, hqueued, hcancel, hpause, henabled, hpaused⟩ :
      ∃ j ∈ (System.after abandonedJob).db.jobs, j.id = 20 ∧ j.state = .queued ∧
        j.cancelRequested = false ∧ j.pauseRequested = false ∧
        (System.after abandonedJob).db.sourceEnabled j.sourceId = true ∧
        (System.after abandonedJob).db.sourcePaused j.sourceId = false := by decide
  exact ⟨by decide, j, hj, hid, hqueued,
    queued_job_deliverable (by decide) j hj hqueued hcancel hpause henabled hpaused⟩

/-- The lease of the running job runs out, and the dispatcher puts the row back; then the crawl
ends, its `finish_job` is fenced off, and the `finally` clause acknowledges the delivery. -/
def overtakenJob : List Action :=
  runningJob ++
    [ .commit (.tick (secs 400) [] fun _ => .confirmed),
      .advance 0 (secs 401) [] none (.finish .succeeded none none),
      .advance 0 (secs 401) [] none .load, .advance 0 (secs 401) [] none .load,
      .advance 0 (secs 401) [] none .load ]

/-- The job waits for work, its row is published and its message is acknowledged. -/
theorem overtaken_job_lost :
    ∃ j ∈ (System.after overtakenJob).db.jobs, j.state = .queued ∧ j.cancelRequested = false ∧
      j.pauseRequested = false ∧ (System.after overtakenJob).db.sourceEnabled j.sourceId = true ∧
      (System.after overtakenJob).db.sourcePaused j.sourceId = false ∧
      ¬ (System.after overtakenJob).Deliverable j.deliveryKey := by
  decide

end System

end CommerceCollector
