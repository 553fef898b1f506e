import CommerceCollector.Foundation.Total
import CommerceCollector.Foundation.Transaction
import CommerceCollector.Ops.Schema

/-!
# The ledger of paid proxy traffic

`proxy.py`, `close_stale_reservations` of `proxy_control.py` and `kill_switch` of `proxy_api.py`:
the billing cycles of the providers, the reservations charged to them, and the authorizations of
single attempts.

A function of the source that raises is a function into `Except String`, with the text of the error
or the name of the constraint that the database reports.  `now` is the clock of the database and
`workerNow` that of the process that reserves.  A day is counted from midnight UTC, and a difference
of times is exact.  Columns that none of these functions reads (`purchased_bytes`,
`unmanaged_allocation_bytes`, the audit columns) are left out.
-/

namespace CommerceCollector

open Relational Transaction

/-! ## Rows -/

/-- `proxy_budget_cycles_lifecycle_check`. -/
inductive CycleLifecycle
  | proposed | active | closed | rejected
  deriving DecidableEq, Repr

/-- A row of `catalogue.proxy_budget_cycles`. -/
structure BudgetCycle where
  provider : String
  cycleStart : Time
  cycleEnd : Time
  operationalBytes : ℕ
  dailyBytes : ℕ
  pilotBytes : ℕ
  pilotActive : Bool
  providerReportedBytes : ℕ
  applicationBytes : ℕ
  reconciledAt : Option Time
  reconciliationOk : Bool
  killSwitch : Bool
  lifecycle : CycleLifecycle
  deriving DecidableEq, Repr

/-- `proxy_reservations_state_check`. -/
inductive ReservationState
  | active | closed | cancelled | revocationRequested
  deriving DecidableEq, Repr

/-- A row of `catalogue.proxy_reservations`. -/
structure ProxyReservation where
  id : Uuid
  jobId : Option Uuid
  probeId : Option Uuid
  provider : String
  profile : String
  profileId : Uuid
  routeId : Uuid
  cycleStart : Time
  reservedBytes : ℕ
  estimatedBytes : ℕ := 0
  requestCount : ℕ := 0
  pilot : Bool
  secretGeneration : ℕ
  state : ReservationState := .active
  revocationRequested : Bool := false
  createdAt : Time
  closedAt : Option Time := none
  deriving DecidableEq, Repr

/-- `proxy_attempt_authorizations_state_check`. -/
inductive AuthorizationState
  | authorized | reconciled | released
  deriving DecidableEq, Repr

/-- A row of `catalogue.proxy_attempt_authorizations`. -/
structure AttemptAuthorization where
  id : Uuid
  reservationId : Uuid
  estimatedBytes : ℕ
  actualBytes : Option ℕ := none
  physicalRequests : Option ℕ := none
  state : AuthorizationState := .authorized
  deriving DecidableEq, Repr

/-- `proxy_profiles_lifecycle_check`. -/
inductive ProfileLifecycle
  | pending | enabled | draining | disabled | retired | providerChangedLocalFailed
  deriving DecidableEq, Repr

/-- A row of `catalogue.proxy_profiles`. -/
structure ProxyProfileRow where
  id : Uuid
  provider : String
  logicalName : String
  secretGeneration : ℕ
  enabled : Bool
  lifecycle : ProfileLifecycle
  deriving DecidableEq, Repr

/-- A row of `catalogue.proxy_routes`. -/
structure ProxyRouteRow where
  id : Uuid
  provider : String
  profileId : Uuid
  enabled : Bool
  retiredAt : Option Time
  deriving DecidableEq, Repr

/-- A row of `catalogue.proxy_profile_allocations`. -/
structure ProfileAllocation where
  provider : String
  cycleStart : Time
  profileId : Uuid
  allocatedBytes : ℕ
  deriving DecidableEq, Repr

/-- `proxy_probes_state_check`. -/
inductive ProbeState
  | pending | running | succeeded | failed | cancelled
  deriving DecidableEq, Repr

/-- A row of `catalogue.proxy_probes`. -/
structure ProxyProbe where
  id : Uuid
  profileId : Uuid
  routeId : Uuid
  state : ProbeState
  requestedAt : Time
  completedAt : Option Time
  errorCategory : Option String
  deriving DecidableEq, Repr

/-- The columns of `catalogue.jobs` that the ledger reads. -/
structure ReservationJob where
  id : Uuid
  state : JobState
  leaseExpiresAt : Option Time
  deriving DecidableEq, Repr

/-- A row of `catalogue.proxy_reconcile_requests`. -/
structure ReconcileRequest where
  provider : String
  reason : String
  reservationId : Uuid
  dedupKey : String
  deriving DecidableEq, Repr

/-- The tables of the proxy ledger, and what they refer to. -/
structure ProxyLedger where
  cycles : List BudgetCycle := []
  reservations : List ProxyReservation := []
  authorizations : List AttemptAuthorization := []
  reconcileRequests : List ReconcileRequest := []
  profiles : List ProxyProfileRow := []
  routes : List ProxyRouteRow := []
  allocations : List ProfileAllocation := []
  probes : List ProxyProbe := []
  jobs : List ReservationJob := []
  deriving DecidableEq, Repr

/-! ## Operations on rows -/

/-- The primary key of `catalogue.proxy_budget_cycles`. -/
def BudgetCycle.key (c : BudgetCycle) : String × Time := (c.provider, c.cycleStart)

/-- `lifecycle = 'active' and cycle_start <= now() and cycle_end > now()`. -/
def BudgetCycle.current (c : BudgetCycle) (now : Time) : Bool :=
  c.lifecycle == .active && decide (c.cycleStart ≤ now) && decide (now < c.cycleEnd)

/-- `kill_switch or not reconciliation_ok or reconciled_at is None`. -/
def BudgetCycle.unsafeToSpend (c : BudgetCycle) : Bool :=
  c.killSwitch || !c.reconciliationOk || c.reconciledAt.isNone

/-- The settled bytes of a cycle are written to its row. -/
def BudgetCycle.advance (bytes : ℕ) (c : BudgetCycle) : BudgetCycle :=
  { c with
    applicationBytes := max c.applicationBytes bytes
    killSwitch := c.killSwitch || decide (c.operationalBytes ≤ bytes) }

/-- `max(provider_reported_bytes, application_bytes)`. -/
def BudgetCycle.accounted (c : BudgetCycle) : ℕ := max c.providerReportedBytes c.applicationBytes

namespace ProxyReservation

/-- `(provider, cycle_start)`, the cycle the reservation is charged to. -/
def cycleKey (r : ProxyReservation) : String × Time := (r.provider, r.cycleStart)

/-- The reservation is charged to a cycle. -/
def chargedTo (r : ProxyReservation) (key : String × Time) : Bool := r.cycleKey == key

/-- `state in ('active', 'revocation_requested')`. -/
def held (r : ProxyReservation) : Bool := r.state == .active || r.state == .revocationRequested

/-- `state in ('closed', 'cancelled')`. -/
def settled (r : ProxyReservation) : Bool := r.state == .closed || r.state == .cancelled

/-- `revocation_requested or state = 'revocation_requested'`. -/
def revoked (r : ProxyReservation) : Bool :=
  r.revocationRequested || r.state == .revocationRequested

/-- The counters are raised to those of a lease. -/
def raise (usedBytes requests : ℕ) (r : ProxyReservation) : ProxyReservation :=
  { r with
    estimatedBytes := max r.estimatedBytes usedBytes
    requestCount := max r.requestCount requests }

/-- The actuals of an attempt are added. -/
def spend (actualBytes physicalRequests : ℕ) (r : ProxyReservation) : ProxyReservation :=
  { r with
    estimatedBytes := r.estimatedBytes + actualBytes
    requestCount := r.requestCount + physicalRequests }

end ProxyReservation

/-- The authorization is pending on a reservation. -/
def AttemptAuthorization.pendingOn (a : AttemptAuthorization) (reservationId : Uuid) : Bool :=
  a.reservationId == reservationId && a.state == .authorized

/-- `enabled and lifecycle = 'enabled'`. -/
def ProxyProfileRow.usable (p : ProxyProfileRow) : Bool := p.enabled && p.lifecycle == .enabled

/-- `enabled and retired_at is null`. -/
def ProxyRouteRow.usable (r : ProxyRouteRow) : Bool := r.enabled && r.retiredAt.isNone

/-- `STALE_PROBE_TIMEOUT_SECONDS`. -/
def staleProbeTimeoutSeconds : ℕ := 5 * 60

/-- The job of a reservation has ended, or its lease has expired. -/
def ReservationJob.abandoned (now : Time) (j : ReservationJob) : Bool :=
  j.state.terminal ||
    (j.state == .leased || j.state == .running) &&
      j.leaseExpiresAt.any fun at_ => decide (at_ < now)

/-- `state in ('pending', 'running')`. -/
def ProxyProbe.pending (p : ProxyProbe) : Bool := p.state == .pending || p.state == .running

/-- A paid probe that has been out for too long. -/
def ProxyProbe.stale (now : Time) (r : ProxyReservation) (p : ProxyProbe) : Bool :=
  p.pending && decide (max p.requestedAt r.createdAt + secs staleProbeTimeoutSeconds < now)

/-- `_validated_provider`: `[a-z][a-z0-9_-]{0,63}`. -/
def validProvider (provider : String) : Bool :=
  match provider.toList with
  | [] => false
  | c :: rest =>
    c.isLower && decide (rest.length ≤ 63) &&
      rest.all fun c => c.isLower || c.isDigit || c == '_' || c == '-'

/-- One day. -/
def day : Time := secs 86400

/-- `max(1, math.ceil((cycle_end - now).total_seconds() / 86_400))`. -/
def remainingDays (cycleEnd now : Time) : ℕ := max 1 ((cycleEnd - now + (day - 1)) / day)

/-- The arguments of `reserve`. -/
structure ReserveRequest where
  jobId : Option Uuid
  probeId : Option Uuid
  profile : String
  profileId : Option Uuid
  routeId : Option Uuid
  cycleStart : Option Time
  cycleEnd : Option Time
  requestedBytes : ℤ
  pilot : Bool
  secretGeneration : ℕ
  provider : String
  deriving DecidableEq, Repr

/-- `ProxyReservationUsage`. -/
structure ProxyReservationUsage where
  estimatedBytes : ℕ
  requestCount : ℕ
  revoked : Bool
  exhausted : Bool
  deriving DecidableEq, Repr

namespace ProxyLedger

/-! ## Reading the tables -/

/-- The row of a reservation. -/
def reservation (s : ProxyLedger) (id : Uuid) : Option ProxyReservation :=
  s.reservations.find? fun r => r.id == id

/-- The row of an authorization. -/
def authorization (s : ProxyLedger) (id : Uuid) : Option AttemptAuthorization :=
  s.authorizations.find? fun a => a.id == id

/-- The row of a cycle. -/
def cycle (s : ProxyLedger) (key : String × Time) : Option BudgetCycle :=
  s.cycles.find? fun c => c.key == key

/-- The bytes that the closed and cancelled reservations of a cycle have used. -/
def settledBytes (s : ProxyLedger) (key : String × Time) : ℕ :=
  total (fun r => r.chargedTo key && r.settled) ProxyReservation.estimatedBytes s.reservations

/-- The bytes that the reservations of a cycle hold. -/
def heldBytes (s : ProxyLedger) (key : String × Time) : ℕ :=
  total (fun r => r.chargedTo key && r.held) ProxyReservation.reservedBytes s.reservations

/-- The bytes that the pending attempts of a reservation may still use. -/
def pendingBytes (s : ProxyLedger) (reservationId : Uuid) : ℕ :=
  total (fun a => a.pendingOn reservationId) AttemptAuthorization.estimatedBytes s.authorizations

/-- The pending attempts of a reservation. -/
def pendingRequests (s : ProxyLedger) (reservationId : Uuid) : ℕ :=
  s.authorizations.countP fun a => a.pendingOn reservationId

/-- `update catalogue.proxy_reservations set f where p`. -/
def updateReservations (s : ProxyLedger) (p : ProxyReservation → Bool)
    (f : ProxyReservation → ProxyReservation) : ProxyLedger :=
  { s with reservations := update p f s.reservations }

/-- `update catalogue.proxy_budget_cycles set f where p`. -/
def updateCycles (s : ProxyLedger) (p : BudgetCycle → Bool) (f : BudgetCycle → BudgetCycle) :
    ProxyLedger :=
  { s with cycles := update p f s.cycles }

/-- The statement with which a settlement advances the application bytes of its cycle. -/
def advanceApplication (s : ProxyLedger) (key : String × Time) : ProxyLedger :=
  s.updateCycles (fun c => c.key == key) (BudgetCycle.advance (s.settledBytes key))

/-- `insert into catalogue.proxy_reconcile_requests … on conflict (dedup_key) do nothing`. -/
def requestReconcile (s : ProxyLedger) (row : ReconcileRequest) : ProxyLedger :=
  { s with reconcileRequests := insertNew ReconcileRequest.dedupKey row s.reconcileRequests }

end ProxyLedger

end CommerceCollector
