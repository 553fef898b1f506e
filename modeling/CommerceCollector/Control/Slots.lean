import CommerceCollector.Control.Transactions

/-!
# Host slots under every transaction

`LeaseStep` says what a transaction can do to one row of `catalogue.host_leases`, and `step_leases`
that nothing else happens to the slots: `acquire` and `configure` first reconcile the slots of their
host, which keeps every slot that a job holds and adds idle ones, and then the slots are rewritten
in place.  The transactions that touch neither slots nor committed loads are dealt with once, by the
frame lemmas on `Db.resources`.
-/

namespace CommerceCollector

open Relational

/-! ## Transactions that leave the slots alone -/

/-- The tables of the politeness mechanism and the committed loads. -/
def Db.resources (db : Db) : List Host × List HostLease × List CatalogueLoad :=
  (db.hosts, db.hostLeases, db.loads)

/-- The transactions that write one of these tables. -/
def Txn.writesResources : Txn → Bool
  | .tick .. | .finishJob .. | .loadFenced .. | .acquire .. | .releaseSlot .. | .releaseAll ..
  | .renewSlots .. | .configure .. => true
  | _ => false

namespace Db

section Frame

variable (db : Db) (now : Time)

@[simp] theorem emit_resources (e : Event) : (db.emit e).resources = db.resources := rfl

@[simp] theorem updateJobs_resources (p : Job → Bool) (f : Job → Job) :
    (db.updateJobs p f).resources = db.resources := rfl

@[simp] theorem upsertSource_resources (setting : SourceSetting) :
    (db.upsertSource setting).resources = db.resources := rfl

@[simp] theorem pauseSourceJobs_resources (sourceId : String) :
    (db.pauseSourceJobs sourceId).resources = db.resources := rfl

@[simp] theorem enqueueJob_resources (jobId : Uuid) (at? : Option Time) :
    (db.enqueueJob now jobId at?).resources = db.resources := by
  rw [enqueueJob_eq]
  rfl

@[simp] theorem enqueueJobs_resources (ids : List Uuid) :
    (db.enqueueJobs now ids).resources = db.resources := by
  rw [enqueueJobs_eq]
  rfl

@[simp] theorem closeRunIfDone_resources (runId : Uuid) :
    (db.closeRunIfDone now runId).resources = db.resources := by
  rw [closeRunIfDone_eq]
  rfl

@[simp] theorem planRun_resources (runId : Uuid) (occurrence : Option (String × Time))
    (selected : List NewJob) (priority maxAttempts : ℕ) :
    (db.planRun now runId occurrence selected priority maxAttempts).resources = db.resources := by
  have hcreate : ∀ (d : Db) n, (createJob now runId priority maxAttempts d n).resources =
      d.resources := by
    intro d n
    unfold createJob
    split
    · rfl
    · rw [enqueueJob_resources]
      rfl
  unfold planRun createRun
  split
  · rfl
  split
  · rfl
  next created hcreated =>
  split at hcreated
  · exact absurd hcreated (by simp)
  obtain rfl := Option.some.inj hcreated
  unfold createJobs
  simp only
  split
  · rw [closeRunIfDone_resources, emit_resources, Trace.foldl_keep hcreate]
    rfl
  · rw [emit_resources, Trace.foldl_keep hcreate]
    rfl

@[simp] theorem reserve_resources (env : JobEnvelope) (worker : Uuid) (caps : List Capability)
    (token : Uuid) (lease : Time) :
    (db.reserve now env worker caps token lease).1.resources = db.resources := by
  unfold reserve
  split <;> simp [emitTerminal]

@[simp] theorem jobAction_resources (action : JobAction) (jobId : Uuid) :
    (db.jobAction now action jobId).resources = db.resources := by
  unfold jobAction
  split
  · rfl
  · cases action with
    | pause => rfl
    | cancel => simp
    | resume => dsimp only; split <;> simp
    | retry => dsimp only; split <;> simp

@[simp] theorem cancelRun_resources (runId : Uuid) :
    (db.cancelRun now runId).resources = db.resources := by
  unfold cancelRun
  dsimp only
  rw [Trace.foldl_keep (g := resources) fun d j => emit_resources d _, updateJobs_resources]

@[simp] theorem disableSourceJobs_resources (sourceId : String) :
    (db.disableSourceJobs now sourceId).resources = db.resources := by
  unfold disableSourceJobs
  dsimp only
  rw [Trace.foldl_keep (g := resources), updateJobs_resources]
  intro d row
  unfold closeDisabled
  dsimp only
  split <;> simp

@[simp] theorem updateSource_resources (sourceId : String) (enabled paused : Option Bool) :
    (db.updateSource now sourceId enabled paused).resources = db.resources := by
  unfold updateSource
  cases enabled.getD (db.sourceEnabled sourceId) with
  | false => simp
  | true =>
    simp only [if_true, Bool.true_and, emit_resources]
    split
    · simp
    split
    · simp [resumeSourceJobs]
    · simp

@[simp] theorem redriveExhausted_resources (env : JobEnvelope) :
    (db.redriveExhausted now env).resources = db.resources := by
  unfold redriveExhausted
  split
  · rfl
  split
  · rfl
  · simp

@[simp] theorem reconstructMissing_resources :
    (db.reconstructMissing now).resources = db.resources := by
  unfold reconstructMissing
  rw [enqueueJobs_resources]

@[simp] theorem republishCurrent_resources :
    (db.republishCurrent now).resources = db.resources :=
  reconstructMissing_resources db now

/-- A transaction that is not listed in `writesResources` writes none of these tables. -/
theorem step_resources {t : Txn} (h : t.writesResources = false) :
    (db.step t).resources = db.resources := by
  cases t with
  | planRun => exact planRun_resources _ _ _ _ _ _ _
  | reserve => exact reserve_resources _ _ _ _ _ _ _
  | start => simp only [Db.step, Db.start]; split <;> rfl
  | startRun => simp only [Db.step, Db.startRun]; split <;> rfl
  | renew => rfl
  | release => simp only [Db.step, Db.release]; split <;> rfl
  | requireCapability => simp only [Db.step, Db.requireCapability]; split <;> simp
  | pauseFinish => simp only [Db.step, Db.pauseFinish]; split <;> rfl
  | jobAction => exact jobAction_resources _ _ _ _
  | cancelRun => exact cancelRun_resources _ _ _
  | cancelRunClose => rfl
  | updateSource => exact updateSource_resources _ _ _ _ _
  | redriveExhausted => exact redriveExhausted_resources _ _ _
  | republishCurrent => exact republishCurrent_resources _ _
  | tick | finishJob | loadFenced | acquire | releaseSlot | releaseAll | renewSlots | configure =>
    exact absurd h (by simp [Txn.writesResources])

/-- A transaction that is not listed in `writesResources` keeps the slots. -/
theorem step_hostLeases {t : Txn} (h : t.writesResources = false) :
    (db.step t).hostLeases = db.hostLeases :=
  congrArg (fun r => r.2.1) (db.step_resources h)

end Frame

end Db

/-! ## What a transaction can do to a slot -/

/-- `LeaseStep t l l'`: the transaction `t` rewrites the slot `l` to `l'`. -/
inductive LeaseStep : Txn → HostLease → HostLease → Prop
  | expire {now locked outcome l} (h : l.lapsed now = true) :
      LeaseStep (.tick now locked outcome) l l.vacate
  | finish {now jobId state summary error token l} (hjob : l.jobId = some jobId)
      (htoken : token.isNone = true ∨ l.executionToken = token) :
      LeaseStep (.finishJob now jobId state summary error token) l l.vacate
  | release {host job token l} (hjob : l.jobId = some job)
      (htoken : l.executionToken = some token) :
      LeaseStep (.releaseSlot host job token) l l.vacate
  | releaseAll {job token l} (hjob : l.jobId = some job) (htoken : l.executionToken = some token) :
      LeaseStep (.releaseAll job token) l l.vacate
  | renew {now worker tokens seconds l} (h : l.renewable worker tokens = true) :
      LeaseStep (.renewSlots now worker tokens seconds) l
        { l with leasedUntil := some (now + seconds) }
  | grant {now host job worker token locked seconds l} (hhost : l.host = host)
      (h : l.claimable now = true) :
      LeaseStep (.acquire now host job worker token locked seconds) l
        (l.grant job worker token (now + seconds))

theorem LeaseStep.key_eq {t : Txn} {l l' : HostLease} (h : LeaseStep t l l') : l'.key = l.key := by
  cases h <;> rfl

namespace Db

variable {db : Db}

/-- The slots after `reconcile_host_slots` are old slots and idle ones within the limit; an idle
slot above the limit is gone. -/
theorem mem_reconcileHostSlots {host : String} {l : HostLease}
    (h : l ∈ (db.reconcileHostSlots host).hostLeases) :
    (l ∈ db.hostLeases ∨ ∃ n, 1 ≤ n ∧ n ≤ db.hostLimit host ∧ l = HostLease.new host n) ∧
      (l.host = host → l.jobId.isNone = true → l.slot ≤ db.hostLimit host) := by
  obtain ⟨hfilled, hkept⟩ := List.mem_filter.mp h
  constructor
  · rcases mem_insertAll hfilled with hold | hnew
    · exact Or.inl hold
    · obtain ⟨n, hn, rfl⟩ := List.mem_map.mp hnew
      obtain ⟨hone, hlimit⟩ := List.mem_range'_1.mp hn
      exact Or.inr ⟨n, hone, by omega, rfl⟩
  · intro hhost hidle
    by_contra hgt
    simp [hhost, hidle, not_le.mp hgt] at hkept

/-- `reconcile_host_slots` keeps every slot that a job holds. -/
theorem mem_reconcileHostSlots_of_held {host : String} {l : HostLease} (hl : l ∈ db.hostLeases)
    (hjob : l.jobId.isSome = true) : l ∈ (db.reconcileHostSlots host).hostLeases := by
  refine List.mem_filter.mpr ⟨mem_insertAll_of_mem hl, ?_⟩
  cases hj : l.jobId with
  | none => rw [hj] at hjob; exact absurd hjob (by simp)
  | some j => simp

/-- After `reconcile_host_slots` every number within the limit is a slot. -/
theorem exists_slot_reconcileHostSlots {host : String} {n : ℕ} (hone : 1 ≤ n)
    (hn : n ≤ db.hostLimit host) :
    ∃ l ∈ (db.reconcileHostSlots host).hostLeases, l.key = (host, n) := by
  have hmem : HostLease.new host n ∈ (List.range' 1 (db.hostLimit host)).map (HostLease.new host) :=
    List.mem_map_of_mem (List.mem_range'_1.mpr ⟨hone, by omega⟩)
  obtain ⟨l, hl, hkey⟩ : ∃ l ∈ insertAll HostLease.key
      ((List.range' 1 (db.hostLimit host)).map (HostLease.new host)) db.hostLeases,
      l.key = (HostLease.new host n).key := exists_key_insertAll hmem
  refine ⟨l, List.mem_filter.mpr ⟨hl, ?_⟩, hkey⟩
  have hslot : l.slot = n := congrArg Prod.snd hkey
  simp [hslot, Nat.not_lt.mpr hn]

/-- `reconcile_host_slots` keeps the primary key of the slots. -/
theorem reconcileHostSlots_keyed (host : String) (hkey : Keyed HostLease.key db.hostLeases) :
    Keyed HostLease.key (db.reconcileHostSlots host).hostLeases :=
  (List.filter_sublist.map _).nodup hkey.insertAll

/-- The slot that `ACQUIRE` picks is the claimable one with the least number. -/
theorem freeSlot_eq_some {now : Time} {host : String} {locked : List ℕ} {l : HostLease}
    (h : db.freeSlot now host locked = some l) :
    l ∈ db.hostLeases ∧ l.host = host ∧ l.claimable now = true ∧ l.slot ∉ locked ∧
      ∀ m ∈ db.hostLeases, m.host = host → m.claimable now = true → m.slot ∉ locked →
        l.slot ≤ m.slot := by
  obtain ⟨hmem, hfree, hleast⟩ := firstBy_eq_some h
  obtain ⟨hl, hhost⟩ := List.mem_filter.mp hmem
  simp only [Bool.and_eq_true, Bool.not_eq_true', List.contains_eq_mem,
    decide_eq_false_iff_not] at hfree
  refine ⟨hl, by simpa using hhost, hfree.1, hfree.2, fun m hm hmhost hmfree hmlock => ?_⟩
  refine hleast m (List.mem_filter.mpr ⟨hm, by simp [hmhost]⟩) ?_
  simp [hmfree, hmlock]

/-- `ACQUIRE` finds a slot as soon as one is claimable and not locked. -/
theorem exists_freeSlot {now : Time} {host : String} {locked : List ℕ} {m : HostLease}
    (hm : m ∈ db.hostLeases) (hhost : m.host = host) (hfree : m.claimable now = true)
    (hlock : m.slot ∉ locked) :
    ∃ l, db.freeSlot now host locked = some l ∧ l.slot ≤ m.slot := by
  refine exists_firstBy (List.mem_filter.mpr ⟨hm, by simp [hhost]⟩) ?_
  simp [hfree, hlock]

theorem acquire_of_freeSlot {now : Time} {host : String} {job worker token : Uuid}
    {locked : List ℕ} {seconds : Time} {free : HostLease}
    (h : (db.reconcileHostSlots host).freeSlot now host locked = some free) :
    db.acquire now host job worker token locked seconds =
      ((db.reconcileHostSlots host).updateLeases
        (fun l => l.host == free.host && l.slot == free.slot)
        fun l => l.grant job worker token (now + seconds), some free.slot) := by
  simp [acquire, h]

theorem acquire_of_busy {now : Time} {host : String} {job worker token : Uuid}
    {locked : List ℕ} {seconds : Time}
    (h : (db.reconcileHostSlots host).freeSlot now host locked = none) :
    db.acquire now host job worker token locked seconds = (db.reconcileHostSlots host, none) := by
  simp [acquire, h]

theorem acquire_rewrites {now : Time} {host : String} {job worker token : Uuid} {locked : List ℕ}
    {seconds : Time} (hkey : Keyed HostLease.key db.hostLeases) :
    Rewrites (LeaseStep (.acquire now host job worker token locked seconds))
      (db.reconcileHostSlots host).hostLeases
      (db.acquire now host job worker token locked seconds).1.hostLeases := by
  cases hfree : (db.reconcileHostSlots host).freeSlot now host locked with
  | none =>
    rw [acquire_of_busy hfree]
    exact Rewrites.refl _ _
  | some free =>
    rw [acquire_of_freeSlot hfree]
    obtain ⟨hmem, hhost, hclaim, -, -⟩ := freeSlot_eq_some hfree
    refine rewrites_update fun l hl hsel => ?_
    simp only [Bool.and_eq_true, beq_iff_eq] at hsel
    have hsame : l.key = free.key := Prod.ext hsel.1 hsel.2
    obtain rfl := (reconcileHostSlots_keyed host hkey).eq_of_mem hl hmem hsame
    exact .grant hhost hclaim

@[simp] theorem foldl_closeFailed_hostLeases (db : Db) (now : Time) (rows : List Job) :
    (rows.foldl (closeFailed now) db).hostLeases = db.hostLeases :=
  Trace.foldl_keep (fun d row => by simp [closeFailed, emitTerminal]) db rows

theorem tick_hostLeases (db : Db) (now : Time) (locked : List ℕ) (outcome : ℕ → PublishOutcome) :
    (db.tick now locked outcome).1.hostLeases =
      update (fun l => l.lapsed now) HostLease.vacate db.hostLeases := by
  have hmark : ∀ (d : Db) row, (markOutcome now outcome d row).hostLeases = d.hostLeases := by
    intro d row
    unfold markOutcome
    split <;> rfl
  have hmissing : (db.reconstructMissing now).hostLeases = db.hostLeases :=
    congrArg (fun r => r.2.1) (db.reconstructMissing_resources now)
  unfold tick
  dsimp only
  rw [Trace.foldl_keep hmark]
  unfold reconcile
  dsimp only
  rw [foldl_closeFailed_hostLeases, updateLeases_hostLeases, updateJobs_hostLeases, hmissing]
  rfl

/-- The tables that a transaction starts from once the host's slots are reconciled; only `acquire`
and `configure` do that. -/
def slotsBefore (db : Db) : Txn → List HostLease
  | .acquire _ host _ _ _ _ _ => (db.reconcileHostSlots host).hostLeases
  | .configure host maxConcurrency => (db.configure host maxConcurrency).hostLeases
  | _ => db.hostLeases

/-- **What a transaction does to the slots.**  Once the slots of the host are reconciled, it
rewrites them as `LeaseStep` allows. -/
theorem step_leases (hkey : Keyed HostLease.key db.hostLeases) (t : Txn) :
    Rewrites (LeaseStep t) (db.slotsBefore t) (db.step t).hostLeases := by
  by_cases hw : t.writesResources = false
  · have hsame : db.slotsBefore t = db.hostLeases := by
      cases t <;> first | rfl | exact absurd hw (by simp [Txn.writesResources])
    rw [hsame, step_hostLeases db hw]
    exact Rewrites.refl _ _
  cases t with
  | tick now locked outcome =>
    rw [Db.step, tick_hostLeases]
    exact rewrites_update fun l _ hl => .expire hl
  | finishJob now jobId state summary error token =>
    simp only [Db.step, Db.finishJob]
    split
    · exact Rewrites.refl _ _
    split
    · exact Rewrites.refl _ _
    · simp only [closeRunIfDone_hostLeases, emit_hostLeases, updateLeases_hostLeases,
        updateJobs_hostLeases]
      refine rewrites_update fun l _ hl => ?_
      simp only [Bool.and_eq_true, Bool.or_eq_true, beq_iff_eq] at hl
      exact .finish hl.1 hl.2
  | loadFenced job =>
    simp only [Db.step, Db.loadFenced]
    split <;> exact Rewrites.refl _ _
  | acquire => exact acquire_rewrites hkey
  | releaseSlot host job token =>
    refine rewrites_update fun l _ hl => ?_
    simp only [Bool.and_eq_true, beq_iff_eq] at hl
    exact .release hl.1.2 hl.2
  | releaseAll job token =>
    refine rewrites_update fun l _ hl => ?_
    simp only [Bool.and_eq_true, beq_iff_eq] at hl
    exact .releaseAll hl.1 hl.2
  | renewSlots => exact rewrites_update fun l _ hl => .renew hl
  | configure => exact Rewrites.refl _ _
  | _ => exact absurd rfl hw

/-- Reconciling keeps the slots that a job holds, adds idle ones numbered from one, and keeps the
primary key. -/
theorem slotsBefore_spec (db : Db) (t : Txn) :
    (∀ l ∈ db.hostLeases, l.jobId.isSome = true → l ∈ db.slotsBefore t) ∧
      (∀ l ∈ db.slotsBefore t, l ∈ db.hostLeases ∨ ∃ host n, 1 ≤ n ∧ l = HostLease.new host n) ∧
      (Keyed HostLease.key db.hostLeases → Keyed HostLease.key (db.slotsBefore t)) := by
  have hrec : ∀ (d : Db) (host : String), d.hostLeases = db.hostLeases →
      (∀ l ∈ db.hostLeases, l.jobId.isSome = true → l ∈ (d.reconcileHostSlots host).hostLeases) ∧
      (∀ l ∈ (d.reconcileHostSlots host).hostLeases,
        l ∈ db.hostLeases ∨ ∃ host n, 1 ≤ n ∧ l = HostLease.new host n) ∧
      (Keyed HostLease.key db.hostLeases →
        Keyed HostLease.key (d.reconcileHostSlots host).hostLeases) := by
    intro d host hd
    refine ⟨fun l hl hjob => mem_reconcileHostSlots_of_held (hd ▸ hl) hjob, fun l hl => ?_,
      fun hkey => reconcileHostSlots_keyed host (hd ▸ hkey)⟩
    rcases (mem_reconcileHostSlots hl).1 with hold | ⟨n, hone, -, rfl⟩
    · exact Or.inl (hd ▸ hold)
    · exact Or.inr ⟨host, n, hone, rfl⟩
  have hid : (∀ l ∈ db.hostLeases, l.jobId.isSome = true → l ∈ db.hostLeases) ∧
      (∀ l ∈ db.hostLeases, l ∈ db.hostLeases ∨ ∃ host n, 1 ≤ n ∧ l = HostLease.new host n) ∧
      (Keyed HostLease.key db.hostLeases → Keyed HostLease.key db.hostLeases) :=
    ⟨fun _ hl _ => hl, fun _ hl => Or.inl hl, id⟩
  cases t with
  | acquire now host => exact hrec db host rfl
  | configure host maxConcurrency =>
    simp only [slotsBefore, configure]
    split
    · exact hid
    · exact hrec (db.setLimit host maxConcurrency) host rfl
  | _ => exact hid

/-- The key `(host, slot)` stays a primary key. -/
theorem step_leases_keyed (hkey : Keyed HostLease.key db.hostLeases) (t : Txn) :
    Keyed HostLease.key (db.step t).hostLeases := by
  have hsame := (step_leases hkey t).map_eq (g := HostLease.key) fun _ _ h => h.key_eq
  unfold Keyed
  rw [hsame]
  exact (slotsBefore_spec db t).2.2 hkey

/-- **Slot invariant rule.**  A property of single slots that idle slots have and every `LeaseStep`
keeps holds in every reachable database, where `(host, slot)` is a primary key. -/
theorem after_leases {P : HostLease → Prop} (hnew : ∀ host n, 1 ≤ n → P (HostLease.new host n))
    (hstep : ∀ t l l', LeaseStep t l l' → P l → P l') (txns : List Txn) :
    Keyed HostLease.key (Db.after txns).hostLeases ∧ ∀ l ∈ (Db.after txns).hostLeases, P l := by
  refine Trace.exec_invariant Db.step (s := ({} : Db))
    (I := fun db => Keyed HostLease.key db.hostLeases ∧ ∀ l ∈ db.hostLeases, P l)
    (fun db t h => ?_) ⟨List.nodup_nil, by simp⟩ txns
  refine ⟨step_leases_keyed h.1 t, fun l' hl' => ?_⟩
  obtain ⟨l, hl, hrw⟩ := (step_leases h.1 t).exists_old hl'
  have hPl : P l := by
    rcases (slotsBefore_spec db t).2.1 l hl with hold | ⟨host, n, hone, rfl⟩
    · exact h.2 l hold
    · exact hnew host n hone
  rcases hrw with rfl | hs
  · exact hPl
  · exact hstep t l l' hs hPl

/-- A slot that a job holds is still there after a transaction, kept or rewritten. -/
theorem step_lease_of_held (hkey : Keyed HostLease.key db.hostLeases) (t : Txn) {l : HostLease}
    (hl : l ∈ db.hostLeases) (hjob : l.jobId.isSome = true) :
    ∃ l' ∈ (db.step t).hostLeases, l' = l ∨ LeaseStep t l l' :=
  (step_leases hkey t).exists_new ((slotsBefore_spec db t).1 l hl hjob)

end Db

end CommerceCollector
