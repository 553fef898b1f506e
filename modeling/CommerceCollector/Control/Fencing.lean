import CommerceCollector.Control.Slots

/-!
# Execution tokens

Every execution of a job runs under a random token that `reserve` draws and writes into the row.
The statements an execution owns compare this token, so an execution that lost its row can no longer
touch it.  The module proves that the token and the owner of a row are set exactly while the job is
leased or running, and that once a later token was issued for the job, an operation that presents
the earlier one changes no job, commits no load, and neither frees nor renews a slot that is held
under the later one.
-/

namespace CommerceCollector

open Relational

/-! ## Ownership columns -/

/-- The token and the owner are set exactly while the job is leased or running. -/
structure Job.OwnedIffExecuting (j : Job) : Prop where
  /-- `execution_token is not null`. -/
  token : j.executionToken.isSome = j.executing
  /-- `lease_owner is not null`. -/
  owner : j.leaseOwner.isSome = j.executing

/-- A row without lease in a state that is neither leased nor running has its ownership columns
right. -/
theorem Job.ownedIffExecuting_of_idle {j : Job} (htoken : j.executionToken = none)
    (howner : j.leaseOwner = none) (hstate : j.executing = false) : j.OwnedIffExecuting :=
  ⟨by rw [htoken, hstate]; rfl, by rw [howner, hstate]; rfl⟩

theorem Job.executing_of_terminal {j : Job} (h : j.state.terminal = true) :
    j.executing = false := by
  unfold Job.executing
  cases hs : j.state <;> simp_all [JobState.terminal]

theorem Job.OwnedIffExecuting.act {j : Job} (h : j.OwnedIffExecuting) (now : Time)
    (action : JobAction) : (j.act now action).OwnedIffExecuting := by
  obtain ⟨htoken, howner⟩ := h
  unfold Job.executing at htoken howner
  cases action with
  | pause =>
    constructor <;> cases hs : j.state <;> simp_all [Job.act, Job.pause, Job.executing] <;> rfl
  | resume =>
    constructor <;> cases hs : j.state <;> simp_all [Job.act, Job.resume, Job.executing]
  | cancel =>
    constructor <;> cases hs : j.state <;> simp_all [Job.act, Job.cancel, Job.executing, Job.idle]
  | retry => exact Job.ownedIffExecuting_of_idle rfl rfl rfl

theorem Job.OwnedIffExecuting.pause {j : Job} (h : j.OwnedIffExecuting) (bySource : Bool) :
    (j.pause bySource).OwnedIffExecuting :=
  ⟨(h.act 0 .pause).token, (h.act 0 .pause).owner⟩

/-- Ending the open jobs of a run or a source keeps the ownership columns right. -/
theorem Job.OwnedIffExecuting.cancel {j : Job} (h : j.OwnedIffExecuting) (now : Time)
    {ending : JobState} (hend : ending.terminal = true) :
    (j.cancel now ending).OwnedIffExecuting := by
  obtain ⟨htoken, howner⟩ := h
  unfold Job.executing at htoken howner
  cases hidle : j.idle with
  | true =>
    refine Job.ownedIffExecuting_of_idle ?_ ?_ (Job.executing_of_terminal ?_) <;>
      simp [Job.cancel, hidle, hend]
  | false => exact ⟨by simpa [Job.cancel, hidle, Job.executing] using htoken,
      by simpa [Job.cancel, hidle, Job.executing] using howner⟩

theorem JobStep.ownedIffExecuting {t : Txn} {j j' : Job} (hs : JobStep t j j')
    (h : j.OwnedIffExecuting) : j'.OwnedIffExecuting := by
  cases hs with
  | withdraw _ _ hstate =>
    refine Job.ownedIffExecuting_of_idle rfl rfl (Job.executing_of_terminal ?_)
    rcases hstate with rfl | rfl <;> rfl
  | exhaust => exact Job.ownedIffExecuting_of_idle rfl rfl rfl
  | reroute => exact ⟨h.token, h.owner⟩
  | claim => exact ⟨rfl, rfl⟩
  | start hst =>
    simp only [Job.startable, Job.ownedBy, Bool.and_eq_true, beq_iff_eq] at hst
    obtain ⟨howner, htoken⟩ := hst.1.1.1.1.2
    exact ⟨by simp [Job.start, htoken, Job.executing], by simp [Job.start, howner, Job.executing]⟩
  | renew => exact ⟨h.token, h.owner⟩
  | release => exact Job.ownedIffExecuting_of_idle rfl rfl rfl
  | escalate => exact Job.ownedIffExecuting_of_idle rfl rfl rfl
  | repair =>
    unfold Job.repair
    split <;> exact Job.ownedIffExecuting_of_idle rfl rfl rfl
  | finish hstate => exact Job.ownedIffExecuting_of_idle rfl rfl (Job.executing_of_terminal hstate)
  | pauseFinish => exact Job.ownedIffExecuting_of_idle rfl rfl rfl
  | act => exact h.act _ _
  | cancelRun => exact h.cancel _ rfl
  | disable => exact h.cancel _ rfl
  | pauseSource => exact h.pause true
  | resumeSource => exact Job.ownedIffExecuting_of_idle rfl rfl rfl
  | redrive => exact ⟨h.token, h.owner⟩

theorem Db.step_ownedIffExecuting {db : Db} (hkey : Keyed Job.id db.jobs)
    (howned : ∀ j ∈ db.jobs, j.OwnedIffExecuting) (t : Txn) :
    ∀ j ∈ (db.step t).jobs, j.OwnedIffExecuting := by
  refine Db.step_rows hkey (fun j hnew => ?_) (fun j j' hs h => hs.ownedIffExecuting h) howned
  cases hnew with
  | planRun => exact Job.ownedIffExecuting_of_idle rfl rfl rfl

theorem Db.after_ownedIffExecuting (txns : List Txn) :
    ∀ j ∈ (Db.after txns).jobs, j.OwnedIffExecuting := by
  refine Db.after_rows (fun db t j hnew => ?_) (fun t j j' hs h => hs.ownedIffExecuting h) txns
  cases hnew with
  | planRun => exact Job.ownedIffExecuting_of_idle rfl rfl rfl

/-! ## Issued, drawn and presented tokens -/

/-- The job and the token of the reservation that a transaction made, if it made one. -/
def Db.issued (db : Db) : Txn → Option (Uuid × Uuid)
  | .reserve now env worker capabilities token lease =>
    match (db.reserve now env worker capabilities token lease).2 with
    | .run job => some (job.id, job.executionToken)
    | .ack | .retry _ => none
  | _ => none

/-- The `uuid4()` that a transaction draws. -/
def Txn.drawn : Txn → Option Uuid
  | .reserve _ _ _ _ token _ => some token
  | _ => none

/-- The tokens drawn by a run, in order. -/
def drawnTokens (txns : List Txn) : List Uuid := txns.filterMap Txn.drawn

/-- The execution tokens that the caller of a transaction presents. -/
def Txn.presented : Txn → List Uuid
  | .start _ job _ _ _ | .renew _ job _ _ | .release _ job _ _ | .requireCapability _ job _ _
  | .pauseFinish job _ | .loadFenced job => [job.executionToken]
  | .finishJob _ _ _ _ _ token => token.toList
  | .acquire _ _ _ _ token _ _ | .releaseSlot _ _ token | .releaseAll _ token => [token]
  | .renewSlots _ _ tokens _ => tokens
  | _ => []

/-- The statements on slots, which compare the token of the slot and not that of the job. -/
def Txn.onSlots : Txn → Bool
  | .acquire .. | .releaseSlot .. | .releaseAll .. | .renewSlots .. => true
  | _ => false

/-- The operation is a claim made when the lease of the slot had already lapsed. -/
def Txn.TakesOverLapsed : Txn → HostLease → Prop
  | .acquire now _ _ _ _ _ _, l => l.lapsed now = true
  | _, _ => False

/-- A token that a rewritten row carries was there before or was drawn by this transaction. -/
theorem JobStep.token_eq_some {t : Txn} {j j' : Job} (hs : JobStep t j j') {token : Uuid}
    (h : j'.executionToken = some token) :
    j.executionToken = some token ∨ t.drawn = some token := by
  have hif : ∀ {c : Bool}, (if c = true then none else j.executionToken) = some token →
      j.executionToken = some token := by
    intro c hc
    cases c <;> simp_all
  cases hs with
  | withdraw | exhaust | release | escalate | finish | pauseFinish | resumeSource =>
    exact absurd h (by simp [Job.withdraw, Job.exhaust, Job.release, Job.escalate, Job.finish,
      Job.pauseFinish, Job.resumeWithSource, Job.dropLease])
  | repair =>
    unfold Job.repair at h
    split at h <;> exact absurd h (by simp [Job.exhaust, Job.dropLease])
  | claim => exact Or.inr h
  | act =>
    rename_i action _
    cases action with
    | retry => exact absurd h (by simp [Job.act, Job.retry, Job.dropLease])
    | _ => exact Or.inl (hif h)
  | cancelRun | disable | pauseSource => exact Or.inl (hif h)
  | reroute | start | renew | redrive => exact Or.inl h

namespace Db

variable {db : Db}

/-! ## Who holds a token -/

/-- No row holds the token. -/
def Unheld (token : Uuid) (db : Db) : Prop := ∀ j ∈ db.jobs, j.executionToken ≠ some token

/-- At most the given job holds the token. -/
def HeldOnlyBy (jobId token : Uuid) (db : Db) : Prop :=
  ∀ j ∈ db.jobs, j.executionToken = some token → j.id = jobId

theorem step_unheld {token : Uuid} (hkey : Keyed Job.id db.jobs) {t : Txn}
    (ht : t.drawn ≠ some token) (h : Unheld token db) : Unheld token (db.step t) := by
  refine step_rows (P := fun j => j.executionToken ≠ some token) hkey (fun j hnew => ?_)
    (fun j j' hs hj hj' => ?_) h
  · cases hnew with
    | planRun => simp [NewJob.toJob]
  · rcases hs.token_eq_some hj' with hold | hdrawn
    · exact hj hold
    · exact ht hdrawn

theorem step_heldOnlyBy {jobId token : Uuid} (hkey : Keyed Job.id db.jobs) {t : Txn}
    (ht : t.drawn ≠ some token) (h : HeldOnlyBy jobId token db) :
    HeldOnlyBy jobId token (db.step t) := by
  refine step_rows (P := fun j => j.executionToken = some token → j.id = jobId) hkey
    (fun j hnew => ?_) (fun j j' hs hj hj' => ?_) h
  · cases hnew with
    | planRun => simp [NewJob.toJob]
  · rcases hs.token_eq_some hj' with hold | hdrawn
    · rw [hs.fixed.1]
      exact hj hold
    · exact absurd hdrawn ht

theorem issued_eq_some {t : Txn} {jobId token : Uuid} (h : db.issued t = some (jobId, token)) :
    ∃ now env worker caps lease row selected,
      t = .reserve now env worker caps token lease ∧ env.jobId = jobId ∧
        db.reserveBranch now env caps = .claim row selected := by
  cases t with
  | reserve now env worker caps drawn lease =>
    have hsound := db.reserveBranch_sound now env caps
    cases hb : db.reserveBranch now env caps with
    | claim row selected =>
      rw [hb] at hsound
      have hid : row.id = env.jobId := by simpa using (mem_of_find? hsound.1).2
      simp only [issued, reserve, hb, Job.claimed, Job.claim, Option.some.injEq,
        Prod.mk.injEq] at h
      obtain ⟨hjob, rfl⟩ := h
      exact ⟨now, env, worker, caps, lease, row, selected, rfl, by rw [← hid, hjob], hb⟩
    | _ => simp [issued, reserve, hb] at h
  | _ => exact absurd h (by simp [issued])

theorem drawn_of_issued {t : Txn} {jobId token : Uuid} (h : db.issued t = some (jobId, token)) :
    t.drawn = some token := by
  obtain ⟨_, _, _, _, _, _, _, rfl, -, -⟩ := issued_eq_some h
  rfl

theorem heldOnlyBy_of_issued {t : Txn} {jobId token : Uuid} (hkey : Keyed Job.id db.jobs)
    (h : db.issued t = some (jobId, token)) (hfree : Unheld token db) :
    HeldOnlyBy jobId token (db.step t) := by
  obtain ⟨now, env, worker, caps, lease, row, selected, rfl, hid, -⟩ := issued_eq_some h
  refine step_rows (P := fun j => j.executionToken = some token → j.id = jobId) hkey
    (fun j hnew => by cases hnew) (fun j j' hs hj _ => ?_) (fun j hj hheld => ?_)
  · rw [hs.fixed.1, ← hid]
    cases hs <;> assumption
  · exact absurd hheld (hfree j hj)

theorem token_of_issued {t : Txn} {jobId token : Uuid} (hkey : Keyed Job.id db.jobs)
    (h : db.issued t = some (jobId, token)) :
    ∀ j ∈ (db.step t).jobs, j.id = jobId → j.executionToken = some token := by
  obtain ⟨now, env, worker, caps, lease, row, selected, rfl, rfl, hb⟩ := issued_eq_some h
  have hsound := db.reserveBranch_sound now env caps
  rw [hb] at hsound
  obtain ⟨hrow, hres, -⟩ := hsound
  simp only [Db.step, reserve, hb, emit_jobs, updateJobs_jobs]
  intro j' hj' hid
  obtain ⟨j, hj, rfl⟩ := mem_update.mp hj'
  split at hid
  · next hsel => simp [hsel, Job.claim]
  · next hsel =>
    -- the reserved row has the delivered generation, so the update selects it
    obtain rfl := eq_of_job? hkey hrow hj hid
    exact absurd hsel (by simp [hid, hres.generation])

/-! ## A run with two reservations -/

/-- A property that every transaction keeps as long as a token is not drawn is kept by a run that
does not draw it. -/
theorem exec_of_not_drawn {token : Uuid} {I : Db → Prop}
    (hstep : ∀ d t, Keyed Job.id d.jobs → t.drawn ≠ some token → I d → I (d.step t))
    {txns : List Txn} (hkey : Keyed Job.id db.jobs) (hI : I db) (h : token ∉ drawnTokens txns) :
    I (Trace.exec Db.step db txns) := by
  have hnot : ∀ t ∈ txns, ∀ _ : Db, t.drawn ≠ some token := by
    intro t ht _ hd
    exact h (List.mem_filterMap.mpr ⟨t, ht, hd⟩)
  have hboth := Trace.exec_invariant_of_along Db.step (C := fun _ t => t.drawn ≠ some token)
    (I := fun d => Keyed Job.id d.jobs ∧ I d)
    (fun d t ht hd => ⟨step_keyed hd.1 t, hstep d t hd.1 ht hd.2⟩) ⟨hkey, hI⟩
    (Trace.along_of_forall Db.step hnot db)
  exact hboth.2

/-- Once a second token was issued for a job, the first one is in no row any more, whatever
follows. -/
theorem unheld_after_two_issues {pre mid post : List Txn} {r₁ r₂ : Txn} {jobId T₁ T₂ : Uuid}
    (hfresh : (drawnTokens (pre ++ r₁ :: (mid ++ r₂ :: post))).Nodup)
    (h₁ : (Db.after pre).issued r₁ = some (jobId, T₁))
    (h₂ : (Db.after (pre ++ r₁ :: mid)).issued r₂ = some (jobId, T₂)) :
    T₁ ≠ T₂ ∧ Unheld T₁ (Db.after (pre ++ r₁ :: (mid ++ r₂ :: post))) := by
  have hd₁ := drawn_of_issued h₁
  have hd₂ := drawn_of_issued h₂
  simp only [drawnTokens, List.filterMap_append, List.filterMap_cons_some hd₁,
    List.filterMap_cons_some hd₂] at hfresh
  obtain ⟨-, hrest, hpre⟩ := List.nodup_append.mp hfresh
  have hlater := (List.nodup_cons.mp hrest).1
  simp only [List.mem_append, List.mem_cons, not_or] at hlater
  have hnotpre : T₁ ∉ drawnTokens pre := fun hmem => hpre T₁ hmem T₁ (by simp) rfl
  have hnotmid : T₁ ∉ drawnTokens mid := hlater.1
  have hnotpost : T₁ ∉ drawnTokens post := hlater.2.2
  refine ⟨hlater.2.1, ?_⟩
  -- nobody holds the token before it is issued
  have hbefore : Unheld T₁ (Db.after pre) :=
    exec_of_not_drawn (fun d t hkey ht => step_unheld hkey ht)
      (show Keyed Job.id ({} : Db).jobs from List.nodup_nil) (fun j hj => by simp at hj) hnotpre
  -- then only the reserved job holds it, up to the second reservation
  have hheld : HeldOnlyBy jobId T₁ (Db.after (pre ++ r₁ :: mid)) := by
    have hstart := heldOnlyBy_of_issued (after_keyed pre) h₁ hbefore
    have hrun := exec_of_not_drawn (fun d t hkey ht => step_heldOnlyBy hkey ht)
      (step_keyed (after_keyed pre) r₁) hstart hnotmid
    rwa [Db.after, Trace.exec_append, Trace.exec_cons]
  -- which overwrites it
  have hover : Unheld T₁ ((Db.after (pre ++ r₁ :: mid)).step r₂) := by
    intro j hj hheldj
    have hid : j.id = jobId := by
      have hkept := step_heldOnlyBy (after_keyed (pre ++ r₁ :: mid)) (t := r₂)
        (by rw [hd₂]; simpa using Ne.symm hlater.2.1) hheld
      exact hkept j hj hheldj
    have htoken := token_of_issued (after_keyed (pre ++ r₁ :: mid)) h₂ j hj hid
    rw [htoken] at hheldj
    exact hlater.2.1 (Option.some.inj hheldj).symm
  have hend := exec_of_not_drawn (fun d t hkey ht => step_unheld hkey ht)
    (step_keyed (after_keyed (pre ++ r₁ :: mid)) r₂) hover hnotpost
  have hsplit : pre ++ r₁ :: (mid ++ r₂ :: post) = (pre ++ r₁ :: mid) ++ r₂ :: post := by simp
  rw [hsplit, Db.after, Trace.exec_append, Trace.exec_cons]
  exact hend

/-! ## The fence -/

/-- An operation on a job that presents a token nobody holds does nothing. -/
theorem step_eq_self_of_unheld {op : Txn} {token : Uuid} (hfree : Unheld token db)
    (hop : token ∈ op.presented) (hslots : op.onSlots = false) : db.step op = db := by
  have hnone : ∀ p : Job → Bool, (∀ j, p j = true → j.executionToken = some token) →
      ∀ j ∈ db.jobs, p j = false := by
    intro p hp j hj
    by_contra hsel
    exact hfree j hj (hp j (by simpa using hsel))
  have hany : ∀ p : Job → Bool, (∀ j, p j = true → j.executionToken = some token) →
      ¬ db.jobs.any p = true := by
    intro p hp hsel
    obtain ⟨j, hj, hpj⟩ := List.any_eq_true.mp hsel
    exact hfree j hj (hp j hpj)
  have hfind : ∀ p : Job → Bool, (∀ j, p j = true → j.executionToken = some token) →
      db.jobs.find? p = none := by
    intro p hp
    exact List.find?_eq_none.mpr fun j hj hsel => hfree j hj (hp j hsel)
  cases op with
  | start now job worker trace lease =>
    obtain rfl : token = job.executionToken := by simpa [Txn.presented] using hop
    exact if_neg (hany _ fun j hj => by
      simp only [Job.startable, Job.ownedBy, Bool.and_eq_true, beq_iff_eq] at hj
      exact hj.1.1.1.1.2.2)
  | renew now job worker lease =>
    obtain rfl : token = job.executionToken := by simpa [Txn.presented] using hop
    have hsame := update_eq_self (f := fun j : Job => j.renew now lease)
      (hnone (fun j => j.renewable job worker) fun j hj => by
        simp only [Job.renewable, Job.ownedBy, Bool.and_eq_true, beq_iff_eq] at hj
        exact hj.1.2.2)
    simp only [Db.step, Db.renew, updateJobs, hsame]
  | release now job worker delay =>
    obtain rfl : token = job.executionToken := by simpa [Txn.presented] using hop
    exact if_neg (hany _ fun j hj => by
      simp only [Job.releasable, Job.ownedBy, Bool.and_eq_true, beq_iff_eq] at hj
      exact hj.2.2)
  | requireCapability now job worker capability =>
    obtain rfl : token = job.executionToken := by simpa [Txn.presented] using hop
    exact if_neg (hany _ fun j hj => by
      simp only [Job.escalatable, Job.ownedBy, Bool.and_eq_true, beq_iff_eq] at hj
      exact hj.1.2.2)
  | finishJob now jobId state summary error given =>
    obtain rfl : given = some token := by simpa [Txn.presented] using hop
    have hrow : db.jobs.find? (fun j => j.finishable jobId (some token)) = none :=
      hfind _ fun j hj => by
        simp only [Job.finishable, Bool.and_eq_true, beq_iff_eq, Bool.or_eq_true,
          Option.isNone_some, Bool.false_eq_true, false_or] at hj
        exact hj.2
    simp only [Db.step, Db.finishJob, hrow]
    split <;> rfl
  | pauseFinish job summary =>
    obtain rfl : token = job.executionToken := by simpa [Txn.presented] using hop
    have hrow : db.jobs.find? (fun j => j.heldUnder job) = none := hfind _ fun j hj => by
      simp only [Job.heldUnder, Bool.and_eq_true, beq_iff_eq] at hj
      exact hj.2
    simp only [Db.step, Db.pauseFinish, hrow]
  | loadFenced job =>
    obtain rfl : token = job.executionToken := by simpa [Txn.presented] using hop
    exact if_neg (hany _ fun j hj => by
      simp only [Job.heldUnder, Bool.and_eq_true, beq_iff_eq] at hj
      exact hj.1.2)
  | acquire | releaseSlot | releaseAll | renewSlots =>
    exact absurd hslots (by simp [Txn.onSlots])
  | _ => exact absurd hop (by simp [Txn.presented])

theorem step_of_onSlots (db : Db) {op : Txn} (h : op.onSlots = true) :
    (db.step op).jobs = db.jobs ∧ (db.step op).loads = db.loads := by
  cases op with
  | acquire => simp only [Db.step]; rw [acquire_eq]; exact ⟨rfl, rfl⟩
  | releaseSlot | releaseAll | renewSlots => exact ⟨rfl, rfl⟩
  | _ => exact absurd h (by simp [Txn.onSlots])

/-- A slot under a token belongs to a job and has an expiry, in every reachable database. -/
theorem after_slot_of_token (txns : List Txn) :
    ∀ l ∈ (Db.after txns).hostLeases, l.executionToken.isSome = true →
      l.jobId.isSome = true ∧ l.leasedUntil.isSome = true := by
  refine (after_leases (P := fun l => l.executionToken.isSome = true →
    l.jobId.isSome = true ∧ l.leasedUntil.isSome = true) ?_ ?_ txns).2
  · intro host n _ h
    exact absurd h (by simp [HostLease.new])
  · intro t l l' hs hl h
    cases hs with
    | expire | finish | release | releaseAll => exact absurd h (by simp [HostLease.vacate])
    | renew => exact ⟨(hl h).1, rfl⟩
    | grant => exact ⟨rfl, rfl⟩

/-- What an operation that presents an outdated token leaves alone, once `token` was issued. -/
structure Fenced (db : Db) (op : Txn) (token : Uuid) : Prop where
  /-- No job row changes. -/
  jobs : (db.step op).jobs = db.jobs
  /-- No slot under the issued token is freed or renewed; only a claim can take it over, and only
  after its lease has lapsed. -/
  slots : ∀ l ∈ db.hostLeases, l.executionToken = some token →
    l ∈ (db.step op).hostLeases ∨ op.TakesOverLapsed l
  /-- No catalogue load is committed. -/
  loads : (db.step op).loads = db.loads

/-- A slot operation that does not present the token of a slot leaves this slot alone. -/
theorem slot_kept_of_not_presented (hkey : Keyed HostLease.key db.hostLeases) {op : Txn}
    (hop : op.onSlots = true) {l : HostLease} {token : Uuid} (hl : l ∈ db.hostLeases)
    (htoken : l.executionToken = some token) (hjob : l.jobId.isSome = true)
    (huntil : l.leasedUntil.isSome = true) (hnot : token ∉ op.presented) :
    l ∈ (db.step op).hostLeases ∨ op.TakesOverLapsed l := by
  obtain ⟨l', hl', rfl | hs⟩ := step_lease_of_held hkey op hl hjob
  · exact Or.inl hl'
  cases hs with
  | expire | finish => exact absurd hop (by simp [Txn.onSlots])
  | release _ hsame =>
    rw [htoken] at hsame
    exact absurd hnot (by simp [Txn.presented, Option.some.inj hsame])
  | releaseAll _ hsame =>
    rw [htoken] at hsame
    exact absurd hnot (by simp [Txn.presented, Option.some.inj hsame])
  | renew hren =>
    simp only [HostLease.renewable, htoken, Option.any_some, Bool.and_eq_true,
      decide_eq_true_eq] at hren
    exact absurd hren.2 hnot
  | grant _ hclaim =>
    refine Or.inr ?_
    cases hj : l.jobId with
    | none => rw [hj] at hjob; exact absurd hjob (by simp)
    | some j =>
      cases hu : l.leasedUntil with
      | none => rw [hu] at huntil; exact absurd huntil (by simp)
      | some u => simpa [HostLease.claimable, hj, hu, Txn.TakesOverLapsed] using hclaim

/-- **Execution-token fencing.**  In every reachable database the token and the owner of a job are
set exactly while it is leased or running.  If a run draws fresh tokens and issues `T₁` and later
`T₂` for a job, then any later operation that presents `T₁` and not `T₂` changes no job row, commits
no load, and neither frees nor renews a slot held under `T₂`. -/
theorem execution_token_fencing :
    (∀ (txns : List Txn), ∀ j ∈ (Db.after txns).jobs, j.OwnedIffExecuting) ∧
    ∀ (pre mid post : List Txn) (r₁ r₂ op : Txn) (jobId T₁ T₂ : Uuid),
      (drawnTokens (pre ++ r₁ :: (mid ++ r₂ :: post))).Nodup →
      (Db.after pre).issued r₁ = some (jobId, T₁) →
      (Db.after (pre ++ r₁ :: mid)).issued r₂ = some (jobId, T₂) →
      T₁ ∈ op.presented → T₂ ∉ op.presented →
      (Db.after (pre ++ r₁ :: (mid ++ r₂ :: post))).Fenced op T₂ := by
  refine ⟨after_ownedIffExecuting, ?_⟩
  intro pre mid post r₁ r₂ op jobId T₁ T₂ hfresh h₁ h₂ hT₁ hT₂
  obtain ⟨-, hfree⟩ := unheld_after_two_issues hfresh h₁ h₂
  generalize hrun : pre ++ r₁ :: (mid ++ r₂ :: post) = txns at hfree ⊢
  cases hop : op.onSlots with
  | false =>
    have hsame := step_eq_self_of_unheld hfree hT₁ hop
    exact ⟨by rw [hsame], fun l hl _ => Or.inl (by rwa [hsame]), by rw [hsame]⟩
  | true =>
    obtain ⟨hjobs, hloads⟩ := step_of_onSlots (Db.after txns) hop
    refine ⟨hjobs, fun l hl htoken => ?_, hloads⟩
    have hkey := (after_leases (P := fun _ => True) (fun _ _ _ => trivial)
      (fun _ _ _ _ _ => trivial) txns).1
    obtain ⟨hjob, huntil⟩ := after_slot_of_token txns l hl (by rw [htoken]; rfl)
    exact slot_kept_of_not_presented hkey hop hl htoken hjob huntil hT₂

/-- A worker whose lease ran out finishes its job after another worker reserved it again. -/
theorem late_finish_fenced :
    let planned : Txn := .planRun 0 1 none [⟨10, "shop", "shop.example", []⟩] 100 3
    let env : JobEnvelope := ⟨10, 1, "shop", 1, .plain, 100, 0⟩
    let first : Txn := .reserve (secs 1) env 1 [] 101 (secs leaseSeconds)
    let second : Txn := .reserve (secs 400) env 2 [] 102 (secs leaseSeconds)
    (Db.after ([planned] ++ first :: ([] ++ second :: []))).Fenced
      (.finishJob (secs 401) 10 .succeeded none none (some 101)) 102 := by
  intro planned env first second
  exact execution_token_fencing.2 [planned] [] [] first second
    (.finishJob (secs 401) 10 .succeeded none none (some 101)) 10 101 102
    (by decide) (by decide) (by decide) (by decide) (by decide)

end Db

end CommerceCollector
