import CommerceCollector.Ops.Queue

/-!
# Host slots

Politeness across workers (`ops/leases.py` and `catalogue.reconcile_host_slots`).  A slot is a row
of `catalogue.host_leases`; before crawling a worker claims one free or expired slot of the host.
-/

namespace CommerceCollector

/-- `SLOT_SECONDS`. -/
def slotSeconds : ℕ := 180

namespace HostLease

/-- A slot as `reconcile_host_slots` inserts it. -/
def new (host : String) (slot : ℕ) : HostLease where
  host := host
  slot := slot
  leasedBy := none
  jobId := none
  leasedUntil := none
  executionToken := none

/-- `leased_until < now()`. -/
def lapsed (l : HostLease) (now : Time) : Bool := l.leasedUntil.any fun t => decide (t < now)

/-- The slot can be claimed: `job_id is null or leased_until is null or leased_until < now()`. -/
def claimable (l : HostLease) (now : Time) : Bool :=
  l.jobId.isNone || l.leasedUntil.isNone || l.lapsed now

/-- The set clause of `ACQUIRE`. -/
def grant (l : HostLease) (job worker token : Uuid) (until_ : Time) : HostLease :=
  { l with
    jobId := some job, leasedBy := some worker, executionToken := some token,
    leasedUntil := some until_ }

/-- The where clause of `RENEW`. -/
def renewable (l : HostLease) (worker : Uuid) (tokens : List Uuid) : Bool :=
  l.leasedBy == some worker && l.jobId.isSome && l.executionToken.any fun t => decide (t ∈ tokens)

end HostLease

namespace Db

/-- `max_concurrency` of a host; a host without a row gets the column's default. -/
def hostLimit (db : Db) (host : String) : ℕ :=
  ((db.hosts.find? fun h => h.host == host).map Host.maxConcurrency).getD 1

/-- The slots of one host. -/
def hostSlots (db : Db) (host : String) : List HostLease :=
  db.hostLeases.filter fun l => l.host == host

/-- `catalogue.reconcile_host_slots`: create the host and its slots, drop idle slots above the
limit. -/
def reconcileHostSlots (db : Db) (host : String) : Db :=
  let limit := db.hostLimit host
  let filled := Relational.insertAll HostLease.key ((List.range' 1 limit).map (HostLease.new host))
    db.hostLeases
  { db with
    hosts := Relational.insertNew Host.host ⟨host, 1⟩ db.hosts
    hostLeases := filled.filter fun l =>
      !(l.host == host && decide (limit < l.slot) && l.jobId.isNone) }

/-- The slot `ACQUIRE` picks: the first claimable one that no other transaction has locked. -/
def freeSlot (db : Db) (now : Time) (host : String) (locked : List ℕ) : Option HostLease :=
  Relational.firstBy (fun l => l.claimable now && !locked.contains l.slot) HostLease.slot
    (db.hostSlots host)

/-- `leases.acquire`: one of the host's slots, or `none` when they are all busy. -/
def acquire (db : Db) (now : Time) (host : String) (job worker token : Uuid) (locked : List ℕ)
    (seconds : Time := secs slotSeconds) : Db × Option ℕ :=
  let db := db.reconcileHostSlots host
  match db.freeSlot now host locked with
  | none => (db, none)
  | some free =>
    (db.updateLeases (fun l => l.host == free.host && l.slot == free.slot)
      fun l => l.grant job worker token (now + seconds), some free.slot)

/-- `leases.release`. -/
def releaseSlot (db : Db) (host : String) (job token : Uuid) : Db :=
  db.updateLeases
    (fun l => l.host == host && l.jobId == some job && l.executionToken == some token)
    HostLease.vacate

/-- `leases.release_all`. -/
def releaseAll (db : Db) (job token : Uuid) : Db :=
  db.updateLeases (fun l => l.jobId == some job && l.executionToken == some token)
    HostLease.vacate

/-- `leases.renew`. -/
def renewSlots (db : Db) (now : Time) (worker : Uuid) (tokens : List Uuid)
    (seconds : Time := secs slotSeconds) : Db :=
  db.updateLeases (fun l => l.renewable worker tokens)
    fun l => { l with leasedUntil := some (now + seconds) }

/-- The upsert of `leases.configure`. -/
def setLimit (db : Db) (host : String) (maxConcurrency : ℕ) : Db :=
  { db with
    hosts := Relational.update (fun h => h.host == host)
      (fun h => { h with maxConcurrency := maxConcurrency })
      (Relational.insertNew Host.host ⟨host, maxConcurrency⟩ db.hosts) }

/-- `leases.configure`: set a host's bound and reconcile its slots.  A bound of zero violates
`hosts_max_concurrency_check` and rolls back. -/
def configure (db : Db) (host : String) (maxConcurrency : ℕ) : Db :=
  if maxConcurrency = 0 then db
  else (db.setLimit host maxConcurrency).reconcileHostSlots host

/-! ### Frame lemmas -/

section Frame

variable (db : Db) (now : Time) (host : String)

theorem acquire_eq (job worker token : Uuid) (locked : List ℕ) (seconds : Time) :
    (db.acquire now host job worker token locked seconds).1 =
      { db with
        hosts := (db.acquire now host job worker token locked seconds).1.hosts
        hostLeases := (db.acquire now host job worker token locked seconds).1.hostLeases } := by
  unfold acquire
  simp only
  split <;> rfl

@[simp] theorem acquire_jobs (job worker token : Uuid) (locked : List ℕ) (seconds : Time) :
    (db.acquire now host job worker token locked seconds).1.jobs = db.jobs := by
  rw [acquire_eq]

theorem configure_eq (maxConcurrency : ℕ) :
    db.configure host maxConcurrency =
      { db with
        hosts := (db.configure host maxConcurrency).hosts
        hostLeases := (db.configure host maxConcurrency).hostLeases } := by
  unfold configure
  split <;> rfl

@[simp] theorem configure_jobs (maxConcurrency : ℕ) :
    (db.configure host maxConcurrency).jobs = db.jobs := by
  rw [configure_eq]

end Frame

end Db

end CommerceCollector
