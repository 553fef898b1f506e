import CommerceCollector.Proxy.Ledger
import Mathlib.Data.List.Dedup

/-!
# The transactions of paid traffic

`reserve`, `close_reservation`, the three transactions of an attempt, `close_stale_reservations`,
`reconcile` and `kill_switch`, each as a function of the ledger, and the runs of the ledger in which
these transactions are taken in any order, by any number of workers, while the rest of the database
changes at will.
-/

namespace CommerceCollector

open Relational Transaction

namespace ProxyLedger

/-! ## The transactions of a reservation -/

/-- The one active cycle of a provider. -/
def activeCycle (s : ProxyLedger) (now : Time) (provider : String) : Except String BudgetCycle :=
  match s.cycles.filter fun c => c.provider == provider && c.current now with
  | [] => .error (provider ++ " billing cycle has not been reconciled and opened")
  | [row] => .ok row
  | _ => .error ("multiple active " ++ provider ++ " billing cycles exist")

/-- `reserve`. -/
def reserve (s : ProxyLedger) (now workerNow : Time) (request : ReserveRequest) :
    Except String (Uuid × ProxyLedger) := do
  require (request.jobId.isNone ≠ request.probeId.isNone)
    "a proxy reservation requires exactly one job or probe"
  require (0 < request.requestedBytes) "proxy reservation bytes must be positive"
  let provider := request.provider
  require (validProvider provider = true) "proxy provider is invalid"
  let profileId ← getRow request.profileId
    "durable proxy reservation requires profile and route identities"
  let routeId ← getRow request.routeId
    "durable proxy reservation requires profile and route identities"
  let row ← s.activeCycle now provider
  require (∀ start ∈ request.cycleStart, row.cycleStart = start)
    "configured billing-cycle start disagrees with the active ledger"
  require (∀ end_ ∈ request.cycleEnd, row.cycleEnd = end_)
    "configured billing-cycle end disagrees with the active ledger"
  require (row.cycleStart ≤ workerNow ∧ workerNow < row.cycleEnd)
    "active proxy billing cycle does not cover the current time"
  require (row.unsafeToSpend = false)
    (provider ++ " reconciliation is unsafe or the kill switch is active")
  require (∃ p ∈ s.profiles, p.id = profileId ∧ p.provider = provider ∧
      p.logicalName = request.profile ∧ p.secretGeneration = request.secretGeneration ∧
      p.usable = true ∧
      ∃ r ∈ s.routes, r.id = routeId ∧ r.profileId = p.id ∧ r.usable = true)
    "proxy profile or route snapshot is no longer active"
  let requestedBytes := request.requestedBytes.toNat
  let allocation ← getRow (s.allocations.find? fun a => a.provider == provider &&
    a.cycleStart == row.cycleStart && a.profileId == profileId)
    "proxy profile allocation would be exceeded"
  let allocated := total (fun r => r.chargedTo row.key && r.profileId == profileId && r.held)
    ProxyReservation.reservedBytes s.reservations
  require (allocated + requestedBytes ≤ allocation.allocatedBytes)
    "proxy profile allocation would be exceeded"
  let active := s.heldBytes row.key
  let daily := total (fun r => r.chargedTo row.key && decide (now - now % day ≤ r.createdAt))
    ProxyReservation.estimatedBytes s.reservations
  let pilotUsed := total (fun r => r.chargedTo row.key && r.pilot)
    ProxyReservation.estimatedBytes s.reservations
  require (row.accounted + active + requestedBytes ≤ row.operationalBytes)
    (provider ++ " operational billing-cycle ceiling would be exceeded")
  let dynamicDaily := min row.dailyBytes
    ((row.operationalBytes - row.accounted - active) / remainingDays row.cycleEnd workerNow)
  require (daily + active + requestedBytes ≤ dynamicDaily)
    (provider ++ " daily allocation would be exceeded")
  require (request.pilot = true → row.pilotActive = true)
    (provider ++ " pilot is not active on this billing cycle")
  require (request.pilot = true → pilotUsed + active + requestedBytes ≤ row.pilotBytes)
    (provider ++ " pilot allocation would be exceeded")
  require (∀ jobId ∈ request.jobId, ∃ j ∈ s.jobs, j.id = jobId)
    "proxy_reservations_job_id_fkey"
  require (∀ jobId ∈ request.jobId, ∀ r ∈ s.reservations, r.jobId = some jobId → r.held = false)
    "proxy_reservations_one_active_job"
  require (∀ probeId ∈ request.probeId,
      ∃ p ∈ s.probes, p.id = probeId ∧ p.profileId = profileId ∧ p.routeId = routeId)
    "proxy_reservations_probe_identity_fkey"
  require (∀ probeId ∈ request.probeId, ∀ r ∈ s.reservations, r.probeId ≠ some probeId)
    "proxy_reservations_probe_id_key"
  let id := freshKey ProxyReservation.id s.reservations
  let inserted : ProxyReservation :=
    { id, jobId := request.jobId, probeId := request.probeId, provider,
      profile := request.profile, profileId, routeId, cycleStart := row.cycleStart,
      reservedBytes := requestedBytes, pilot := request.pilot,
      secretGeneration := request.secretGeneration, createdAt := now }
  pure (id, { s with reservations := s.reservations ++ [inserted] })

/-- `close_reservation`, with the counters of the lease. -/
def closeReservation (s : ProxyLedger) (now : Time) (id : Uuid) (usedBytes requests : ℕ) :
    ProxyLedger :=
  match s.reservation id with
  | none => s
  | some identity =>
    let open_ := fun r : ProxyReservation =>
      r.id == id && r.chargedTo identity.cycleKey && r.held
    let late := fun r : ProxyReservation =>
      r.id == id && r.chargedTo identity.cycleKey && r.state == .cancelled &&
        (decide (r.estimatedBytes < usedBytes) || decide (r.requestCount < requests))
    let dedup := "reservation:" ++ toString id
    if s.reservations.any open_ then
      ((s.updateReservations open_ fun r =>
        { r.raise usedBytes requests with state := .closed, closedAt := some now
        }).advanceApplication identity.cycleKey).requestReconcile
          ⟨identity.provider, "reservation_closed", id, dedup⟩
    else if s.reservations.any late then
      ((s.updateReservations late (ProxyReservation.raise usedBytes requests)).advanceApplication
        identity.cycleKey).requestReconcile
          ⟨identity.provider, "reservation_late_settled", id, dedup ++ ":late-settlement"⟩
    else s

/-- The reservations that `close_stale_reservations` cancels. -/
def abandoned (s : ProxyLedger) (now : Time) (r : ProxyReservation) : Bool :=
  r.held &&
    ((s.jobs.any fun j => r.jobId == some j.id && j.abandoned now) ||
      s.probes.any fun p => r.probeId == some p.id && p.stale now r)

/-- `close_stale_reservations`. -/
def closeStaleReservations (s : ProxyLedger) (now : Time) : ProxyLedger :=
  let rows := s.reservations.filter (s.abandoned now)
  let cancelled := s.updateReservations (s.abandoned now) fun r =>
    { r with state := .cancelled, closedAt := some now }
  let settledCycles := (rows.map ProxyReservation.cycleKey).dedup
  let advanced := settledCycles.foldl advanceApplication cancelled
  let closed := { advanced with
    probes := update (fun p => (rows.any fun r => r.probeId == some p.id) && p.pending)
      (fun p => { p with
        state := .cancelled
        completedAt := p.completedAt.or (some now)
        errorCategory := p.errorCategory.or (some "stale_timeout") }) advanced.probes }
  rows.foldl (fun s r => s.requestReconcile
    ⟨r.provider, "stale_reservation", r.id, "reservation:" ++ toString r.id⟩) closed

/-! ## The transactions of an attempt -/

/-- `authorize_reservation_attempt`. -/
def authorizeReservationAttempt (s : ProxyLedger) (now : Time) (reservationId : Uuid)
    (estimatedBytes : ℤ) (maximumRequests : Option ℤ) :
    Except String (Option Uuid × ProxyLedger) := do
  require (0 ≤ estimatedBytes) "proxy attempt estimate must be non-negative"
  require (∀ n ∈ maximumRequests, 1 ≤ n) "proxy request cap must be positive"
  let reservation ← getRow (s.reservation reservationId) "proxy reservation has no billing cycle"
  let cycle ← getRow (s.cycle reservation.cycleKey) "proxy reservation has no billing cycle"
  require (cycle.current now = true ∧ cycle.unsafeToSpend = false)
    "proxy billing cycle does not authorize new paid traffic"
  let profile ← getRow (s.profiles.find? fun p => p.id == reservation.profileId &&
    p.provider == reservation.provider && p.logicalName == reservation.profile)
    "proxy profile does not authorize new paid traffic"
  require (profile.usable = true ∧ profile.secretGeneration = reservation.secretGeneration)
    "proxy profile does not authorize new paid traffic"
  let route ← getRow (s.routes.find? fun r => r.id == reservation.routeId &&
    r.provider == reservation.provider && r.profileId == reservation.profileId)
    "proxy route does not authorize new paid traffic"
  require (route.usable = true) "proxy route does not authorize new paid traffic"
  -- the profile and the route are locked, so the joins of the last query find them again
  require (reservation.held = true) "proxy reservation is not active"
  require (reservation.revoked = false) "proxy reservation was revoked"
  if reservation.reservedBytes <
        reservation.estimatedBytes + s.pendingBytes reservationId + estimatedBytes.toNat ∨
      ∃ n ∈ maximumRequests, n ≤ reservation.requestCount + s.pendingRequests reservationId then
    pure (none, s)
  else
    let id := freshKey AttemptAuthorization.id s.authorizations
    let inserted : AttemptAuthorization :=
      { id, reservationId, estimatedBytes := estimatedBytes.toNat }
    pure (some id, { s with authorizations := s.authorizations ++ [inserted] })

/-- What `reconcile_reservation_attempt` reads back. -/
def usage (s : ProxyLedger) (reservationId : Uuid) : Except String ProxyReservationUsage := do
  let row ← getRow (s.reservation reservationId) "proxy reservation does not exist"
  pure ⟨row.estimatedBytes, row.requestCount, row.revoked,
    decide (row.reservedBytes < row.estimatedBytes)⟩

/-- The actuals of a pending attempt are recorded on it and added to its reservation. -/
def resolveAttempt (s : ProxyLedger) (b : AttemptAuthorization)
    (actualBytes physicalRequests : ℕ) : ProxyLedger :=
  { s with
    authorizations := update (fun a => a.id == b.id)
      (fun a => { a with
        state := .reconciled
        actualBytes := some actualBytes
        physicalRequests := some physicalRequests }) s.authorizations
    reservations := update (fun r => r.id == b.reservationId)
      (ProxyReservation.spend actualBytes physicalRequests) s.reservations }

/-- `reconcile_reservation_attempt`. -/
def reconcileReservationAttempt (s : ProxyLedger) (authorizationId : Uuid)
    (actualBytes physicalRequests : ℤ) : Except String (ProxyReservationUsage × ProxyLedger) := do
  require (0 ≤ actualBytes ∧ 0 ≤ physicalRequests)
    "proxy attempt actual counters must be non-negative"
  let authorization ← getRow (s.authorization authorizationId)
    "proxy attempt authorization does not exist"
  match authorization.state with
  | .released => .error "proxy attempt authorization was released"
  | .authorized =>
    let spent := s.resolveAttempt authorization actualBytes.toNat physicalRequests.toNat
    pure (← spent.usage authorization.reservationId, spent)
  | .reconciled =>
    require (authorization.actualBytes = some actualBytes.toNat ∧
        authorization.physicalRequests = some physicalRequests.toNat)
      "proxy attempt was already reconciled with different actuals"
    pure (← s.usage authorization.reservationId, s)

/-- `release_reservation_attempt`. -/
def releaseReservationAttempt (s : ProxyLedger) (authorizationId : Uuid) :
    Except String (Unit × ProxyLedger) := do
  let open_ := fun a : AttemptAuthorization => a.id == authorizationId && a.state == .authorized
  if s.authorizations.any open_ then
    pure ((), { s with
      authorizations := update open_ (fun a => { a with state := .released }) s.authorizations })
  else
    let authorization ← getRow (s.authorization authorizationId)
      "proxy attempt authorization does not exist"
    require (authorization.state = .released) "a dispatched proxy attempt cannot be released"
    pure ((), s)

/-! ## The control plane -/

/-- `reconcile`. -/
def reconcile (s : ProxyLedger) (now : Time) (key : String × Time) (reportedBytes : ℤ)
    (successful : Bool) : Except String (Unit × ProxyLedger) := do
  require (validProvider key.1 = true) "proxy provider is invalid"
  pure ((), s.updateCycles (fun c => c.key == key) fun c =>
    { c with
      providerReportedBytes := max c.providerReportedBytes reportedBytes.toNat
      reconciledAt := if successful then some now else c.reconciledAt
      reconciliationOk := successful
      killSwitch := c.killSwitch ||
        decide (c.operationalBytes ≤ max c.providerReportedBytes reportedBytes.toNat) })

/-- The actions of `kill_switch`. -/
inductive KillSwitch
  | activate | revoke | clear
  deriving DecidableEq, Repr

/-- The cycle passes the gates for clearing its switch. -/
def clearable (s : ProxyLedger) (now : Time) (c : BudgetCycle) : Bool :=
  c.reconciliationOk &&
    (c.reconciledAt.any fun at_ => decide (now < at_ + secs (20 * 60))) &&
    decide (c.accounted < c.operationalBytes) &&
    s.profiles.any fun p => p.provider == c.provider && p.enabled

/-- `kill_switch`. -/
def killSwitch (s : ProxyLedger) (now : Time) (provider : String) (action : KillSwitch) :
    ProxyLedger :=
  let active := fun c : BudgetCycle => c.provider == provider && c.lifecycle == .active
  match action with
  | .activate => s.updateCycles active fun c => { c with killSwitch := true }
  | .revoke =>
    (s.updateCycles active fun c => { c with killSwitch := true }).updateReservations
      (fun r => r.provider == provider && r.state == .active)
      fun r => { r with revocationRequested := true, state := .revocationRequested }
  | .clear =>
    s.updateCycles (fun c => active c && s.clearable now c) fun c => { c with killSwitch := false }

/-! ## Runs -/

/-- What the control plane may set on the row of a cycle beside its ledger. -/
structure CycleSettings where
  cycleEnd : Time
  dailyBytes : ℕ
  pilotBytes : ℕ
  pilotActive : Bool
  lifecycle : CycleLifecycle
  deriving DecidableEq, Repr

/-- The tables that other transactions write: any content. -/
structure Surroundings where
  profiles : List ProxyProfileRow
  routes : List ProxyRouteRow
  allocations : List ProfileAllocation
  probes : List ProxyProbe
  jobs : List ReservationJob
  deriving DecidableEq, Repr

/-- A transaction on the ledger, or a change around it. -/
inductive Step
  | reserve (now workerNow : Time) (request : ReserveRequest)
  | authorize (now : Time) (reservationId : Uuid) (estimatedBytes : ℤ)
      (maximumRequests : Option ℤ)
  | reconcileAttempt (authorizationId : Uuid) (actualBytes physicalRequests : ℤ)
  | releaseAttempt (authorizationId : Uuid)
  | close (now : Time) (reservationId : Uuid) (usedBytes requests : ℕ)
  | closeStale (now : Time)
  | reconcile (now : Time) (key : String × Time) (reportedBytes : ℤ) (successful : Bool)
  | killSwitch (now : Time) (provider : String) (action : KillSwitch)
  | administer (key : String × Time) (settings : CycleSettings)
  | surround (around : Surroundings)
  deriving DecidableEq, Repr

/-- The ledger after a transaction; one that raises is rolled back. -/
def step (s : ProxyLedger) : Step → ProxyLedger
  | .reserve now workerNow request => attempt s (s.reserve now workerNow request)
  | .authorize now id estimatedBytes maximumRequests =>
    attempt s (s.authorizeReservationAttempt now id estimatedBytes maximumRequests)
  | .reconcileAttempt id actualBytes physicalRequests =>
    attempt s (s.reconcileReservationAttempt id actualBytes physicalRequests)
  | .releaseAttempt id => attempt s (s.releaseReservationAttempt id)
  | .close now id usedBytes requests => s.closeReservation now id usedBytes requests
  | .closeStale now => s.closeStaleReservations now
  | .reconcile now key reportedBytes successful =>
    attempt s (s.reconcile now key reportedBytes successful)
  | .killSwitch now provider action => s.killSwitch now provider action
  | .administer key settings => s.updateCycles (fun c => c.key == key) fun c =>
    { c with
      cycleEnd := settings.cycleEnd, dailyBytes := settings.dailyBytes,
      pilotBytes := settings.pilotBytes, pilotActive := settings.pilotActive,
      lifecycle := settings.lifecycle }
  | .surround around => { s with
      profiles := around.profiles, routes := around.routes, allocations := around.allocations,
      probes := around.probes, jobs := around.jobs }

/-- The ledger after a run. -/
def after (s : ProxyLedger) (run : List Step) : ProxyLedger := Trace.exec step s run

/-! ## What a transaction does -/

/-- What the control plane does to the row of a cycle: its switch opens only below the ceiling. -/
def Administered (c c' : BudgetCycle) : Prop :=
  c'.key = c.key ∧ c'.operationalBytes = c.operationalBytes ∧
    c'.applicationBytes = c.applicationBytes ∧
    (c.killSwitch = true → c'.killSwitch = true ∨ c.applicationBytes < c.operationalBytes)

/-- What a revocation does to a reservation. -/
def Revoked (r r' : ProxyReservation) : Prop :=
  r.state = .active ∧ r' = { r with revocationRequested := true, state := .revocationRequested }

/-- The selected reservations are settled, and with each of them its cycle. -/
structure Settles (s : ProxyLedger) (p : ProxyReservation → Bool)
    (f : ProxyReservation → ProxyReservation) (s' : ProxyLedger) : Prop where
  ending : ∀ r, p r = true → r.held = true ∨ r.state = .cancelled
  settled : ∀ r, p r = true → (f r).settled = true
  keeps : ∀ r, (f r).id = r.id ∧ (f r).cycleKey = r.cycleKey ∧
    (f r).reservedBytes = r.reservedBytes
  grows : ∀ r, r.estimatedBytes ≤ (f r).estimatedBytes
  reservations : s'.reservations = update p f s.reservations
  authorizations : s'.authorizations = s.authorizations
  cycles : s'.cycles = update (fun c => s.reservations.any fun r => p r && r.chargedTo c.key)
    (fun c => c.advance (s'.settledBytes c.key)) s.cycles

/-- What each transaction may do to the cycles, the reservations and the authorizations. -/
inductive Move (s : ProxyLedger) : Step → ProxyLedger → Prop
  | controlled {a : Step} {s' : ProxyLedger} (hcycles : Rewrites Administered s.cycles s'.cycles)
      (hreservations : Rewrites Revoked s.reservations s'.reservations)
      (hauthorizations : s'.authorizations = s.authorizations) : Move s a s'
  | reserved {a : Step} (c : BudgetCycle) (r : ProxyReservation) (hc : c ∈ s.cycles)
      (hid : r.id = freshKey ProxyReservation.id s.reservations) (hkey : r.cycleKey = c.key)
      (hstate : r.state = .active) (hnew : r.estimatedBytes = 0)
      (hroom : c.accounted + s.heldBytes c.key + r.reservedBytes ≤ c.operationalBytes) :
      Move s a { s with reservations := s.reservations ++ [r] }
  | authorized {a : Step} (r : ProxyReservation) (b : AttemptAuthorization)
      (hr : r ∈ s.reservations) (hheld : r.held = true) (hb : b.reservationId = r.id)
      (hid : b.id = freshKey AttemptAuthorization.id s.authorizations)
      (hroom : r.estimatedBytes + s.pendingBytes r.id + b.estimatedBytes ≤ r.reservedBytes) :
      Move s a { s with authorizations := s.authorizations ++ [b] }
  | reconciled (b : AttemptAuthorization) (actualBytes physicalRequests : ℤ)
      (hb : s.authorization b.id = some b) (hstate : b.state = .authorized)
      (hactual : 0 ≤ actualBytes ∧ 0 ≤ physicalRequests) :
      Move s (.reconcileAttempt b.id actualBytes physicalRequests)
        (s.resolveAttempt b actualBytes.toNat physicalRequests.toNat)
  | released {a : Step} (id : Uuid) :
      Move s a { s with
        authorizations := update (fun x => x.id == id && x.state == .authorized)
          (fun x => { x with state := .released }) s.authorizations }
  | closed {s' : ProxyLedger} (now : Time) (id : Uuid) (usedBytes requests : ℕ)
      (p : ProxyReservation → Bool) (f : ProxyReservation → ProxyReservation)
      (h : Settles s p f s') (hid : ∀ r, p r = true → r.id = id)
      (hf : ∀ r, (f r).estimatedBytes = max r.estimatedBytes usedBytes) :
      Move s (.close now id usedBytes requests) s'
  | cancelled {a : Step} {s' : ProxyLedger} (p : ProxyReservation → Bool)
      (f : ProxyReservation → ProxyReservation) (h : Settles s p f s')
      (hf : ∀ r, (f r).estimatedBytes = r.estimatedBytes) : Move s a s'

theorem Move.refl (s : ProxyLedger) (a : Step) : Move s a s :=
  .controlled (Rewrites.refl _ _) (Rewrites.refl _ _) rfl

theorem activeCycle_ok {s : ProxyLedger} {now : Time} {provider : String} {row : BudgetCycle}
    (h : s.activeCycle now provider = .ok row) : row ∈ s.cycles ∧ row.provider = provider := by
  unfold activeCycle at h
  split at h
  · exact absurd h (by simp)
  · next c hfilter =>
    obtain rfl : c = row := by simpa using h
    have hmem : c ∈ s.cycles.filter fun c => c.provider == provider && c.current now := by
      rw [hfilter]
      simp
    rw [List.mem_filter, Bool.and_eq_true, beq_iff_eq] at hmem
    exact ⟨hmem.1, hmem.2.1⟩
  · exact absurd h (by simp)

variable {s s' : ProxyLedger}

theorem reserve_row {now workerNow : Time} {request : ReserveRequest} {id : Uuid}
    (h : s.reserve now workerNow request = .ok (id, s')) :
    ∃ row r, s.activeCycle now request.provider = .ok row ∧
      s' = { s with reservations := s.reservations ++ [r] } ∧
      r.id = freshKey ProxyReservation.id s.reservations ∧ r.cycleKey = row.key ∧
      request.profileId = some r.profileId ∧ r.reservedBytes = request.requestedBytes.toNat ∧
      r.estimatedBytes = 0 ∧ r.state = .active ∧ r.requestCount = 0 := by
  unfold reserve at h
  simp only [bind_eq_ok, require_eq_ok, getRow_eq_ok, pure_eq_ok, exists_const,
    Prod.mk.injEq] at h
  obtain ⟨-, -, -, profileId, hprofile, routeId, -, row, hrow, -, -, -, -, -, allocation, -, -, -,
    -, -, -, -, -, -, -, -, rfl⟩ := h
  refine ⟨row, _, hrow, rfl, rfl, ?_, hprofile, rfl, rfl, rfl, rfl⟩
  simp [ProxyReservation.cycleKey, BudgetCycle.key, (activeCycle_ok hrow).2]

theorem authorize_rows {now : Time} {reservationId : Uuid} {estimatedBytes : ℤ}
    {maximumRequests : Option ℤ} {id : Option Uuid}
    (h : s.authorizeReservationAttempt now reservationId estimatedBytes maximumRequests =
      .ok (id, s')) : s' = s ∨ ∃ b, s' = { s with authorizations := s.authorizations ++ [b] } := by
  unfold authorizeReservationAttempt at h
  simp only [bind_eq_ok, require_eq_ok, getRow_eq_ok, exists_const] at h
  obtain ⟨-, -, r, -, cycle, -, -, profile, -, -, route, -, -, -, -, h⟩ := h
  split at h
  · exact Or.inl (Prod.mk.inj (pure_eq_ok.mp h)).2.symm
  · exact Or.inr ⟨_, (Prod.mk.inj (pure_eq_ok.mp h)).2.symm⟩

variable {actualBytes physicalRequests : ℤ}

theorem reconcileAttempt_rows {id : Uuid} {u : ProxyReservationUsage}
    (h : s.reconcileReservationAttempt id actualBytes physicalRequests = .ok (u, s')) :
    s' = s ∨ ∃ b, b.id = id ∧ s.authorization b.id = some b ∧ b.state = .authorized ∧
      (0 ≤ actualBytes ∧ 0 ≤ physicalRequests) ∧ s' = s.resolveAttempt b actualBytes.toNat physicalRequests.toNat := by
  unfold reconcileReservationAttempt at h
  simp only [bind_eq_ok, require_eq_ok, getRow_eq_ok, exists_const] at h
  obtain ⟨hactual, b, hb, h⟩ := h
  obtain rfl : b.id = id := beq_iff_eq.mp (mem_of_find? hb).2
  cases hstate : b.state with
  | authorized =>
    rw [hstate] at h
    simp only [bind_eq_ok, pure_eq_ok, Prod.mk.injEq] at h
    obtain ⟨-, -, -, rfl⟩ := h
    exact Or.inr ⟨b, rfl, hb, hstate, hactual, rfl⟩
  | reconciled =>
    rw [hstate] at h
    simp only [bind_eq_ok, require_eq_ok, pure_eq_ok, exists_const, Prod.mk.injEq] at h
    obtain ⟨-, -, -, -, rfl⟩ := h
    exact Or.inl rfl
  | released =>
    rw [hstate] at h
    exact absurd h (by simp)

theorem releaseAttempt_rows {id : Uuid} {u : Unit}
    (h : s.releaseReservationAttempt id = .ok (u, s')) :
    ∃ authorizations, s' = { s with authorizations } := by
  unfold releaseReservationAttempt at h
  dsimp only at h
  split at h
  · exact ⟨_, (Prod.mk.inj (pure_eq_ok.mp h)).2.symm⟩
  · simp only [bind_eq_ok, require_eq_ok, getRow_eq_ok, pure_eq_ok, exists_const,
      Prod.mk.injEq] at h
    obtain ⟨-, -, -, -, rfl⟩ := h
    exact ⟨s.authorizations, rfl⟩

theorem reconcile_rows {now : Time} {key : String × Time} {reportedBytes : ℤ} {successful : Bool}
    {u : Unit} (h : s.reconcile now key reportedBytes successful = .ok (u, s')) :
    s' = { s with cycles := s'.cycles } := by
  unfold reconcile at h
  simp only [bind_eq_ok, require_eq_ok, pure_eq_ok, exists_const, Prod.mk.injEq] at h
  obtain ⟨-, -, rfl⟩ := h
  rfl

theorem reserve_move {now workerNow : Time} {request : ReserveRequest} {id : Uuid}
    (h : s.reserve now workerNow request = .ok (id, s')) (a : Step) : Move s a s' := by
  unfold reserve at h
  simp only [bind_eq_ok, require_eq_ok, getRow_eq_ok, pure_eq_ok, exists_const,
    Prod.mk.injEq] at h
  obtain ⟨-, -, -, profileId, -, routeId, -, row, hrow, -, -, -, -, -, allocation, -, -, hroom, -,
    -, -, -, -, -, -, -, rfl⟩ := h
  obtain ⟨hmem, hprovider⟩ := activeCycle_ok hrow
  exact .reserved row _ hmem rfl (by simp [ProxyReservation.cycleKey, BudgetCycle.key, hprovider])
    rfl rfl hroom

theorem authorize_move {now : Time} {reservationId : Uuid} {estimatedBytes : ℤ}
    {maximumRequests : Option ℤ} {id : Option Uuid}
    (h : s.authorizeReservationAttempt now reservationId estimatedBytes maximumRequests =
      .ok (id, s')) (a : Step) : Move s a s' := by
  unfold authorizeReservationAttempt at h
  simp only [bind_eq_ok, require_eq_ok, getRow_eq_ok, exists_const] at h
  obtain ⟨-, -, r, hr, cycle, -, -, profile, -, -, route, -, -, hheld, -, h⟩ := h
  split at h
  · obtain ⟨-, rfl⟩ := Prod.mk.inj (pure_eq_ok.mp h)
    exact Move.refl s a
  · next hroom =>
    obtain ⟨-, rfl⟩ := Prod.mk.inj (pure_eq_ok.mp h)
    obtain ⟨hmem, hid⟩ := mem_of_find? hr
    obtain rfl := beq_iff_eq.mp hid
    refine .authorized r _ hmem hheld rfl rfl ?_
    simp only [not_or] at hroom
    exact not_lt.mp hroom.1

theorem reconcileAttempt_move {authorizationId : Uuid} {u : ProxyReservationUsage}
    (h : s.reconcileReservationAttempt authorizationId actualBytes physicalRequests =
      .ok (u, s')) :
    Move s (.reconcileAttempt authorizationId actualBytes physicalRequests) s' := by
  rcases reconcileAttempt_rows h with rfl | ⟨b, rfl, hb, hstate, hactual, rfl⟩
  · exact Move.refl _ _
  · exact .reconciled b actualBytes physicalRequests hb hstate hactual

theorem step_reconcileAttempt {s : ProxyLedger} {b : AttemptAuthorization} {r : ProxyReservation}
    (hb : s.authorization b.id = some b) (hstate : b.state = .authorized)
    (hr : s.reservation b.reservationId = some r)
    (hactual : 0 ≤ actualBytes ∧ 0 ≤ physicalRequests) :
    s.step (.reconcileAttempt b.id actualBytes physicalRequests) =
      s.resolveAttempt b actualBytes.toNat physicalRequests.toNat := by
  have hkeep : ∀ r : ProxyReservation,
      (r.spend actualBytes.toNat physicalRequests.toNat).id = r.id := fun r => rfl
  have hfound : ∃ r', (s.resolveAttempt b actualBytes.toNat physicalRequests.toNat).reservation
      b.reservationId = some r' := by
    rw [reservation] at hr
    rw [reservation, resolveAttempt, find?_update hkeep, hr]
    exact ⟨_, rfl⟩
  obtain ⟨r', hr'⟩ := hfound
  have hok : s.reconcileReservationAttempt b.id actualBytes physicalRequests =
      .ok (⟨r'.estimatedBytes, r'.requestCount, r'.revoked,
        decide (r'.reservedBytes < r'.estimatedBytes)⟩,
        s.resolveAttempt b actualBytes.toNat physicalRequests.toNat) := by
    unfold reconcileReservationAttempt usage
    simp only [bind_eq_ok, require_eq_ok, getRow_eq_ok, exists_const]
    refine ⟨hactual, b, hb, ?_⟩
    rw [hstate]
    simp only [hr', getRow]
    rfl
  rw [step, hok, attempt]

theorem releaseAttempt_move {authorizationId : Uuid} {u : Unit}
    (h : s.releaseReservationAttempt authorizationId = .ok (u, s')) (a : Step) : Move s a s' := by
  unfold releaseReservationAttempt at h
  dsimp only at h
  split at h
  · obtain ⟨-, rfl⟩ := Prod.mk.inj (pure_eq_ok.mp h)
    exact .released authorizationId
  · simp only [bind_eq_ok, require_eq_ok, getRow_eq_ok, pure_eq_ok, exists_const,
      Prod.mk.injEq] at h
    obtain ⟨-, -, -, -, rfl⟩ := h
    exact Move.refl s a

/-- Settling the cycles one after another settles each of them with its own sum. -/
theorem foldl_advanceApplication {keys : List (String × Time)} (hkeys : keys.Nodup)
    (s : ProxyLedger) :
    keys.foldl advanceApplication s =
      { s with
        cycles := update (fun c => decide (c.key ∈ keys))
          (fun c => c.advance (s.settledBytes c.key)) s.cycles } := by
  induction keys generalizing s with
  | nil =>
    rw [List.foldl_nil, update_eq_self]
    simp
  | cons k keys ih =>
    obtain ⟨hk, hrest⟩ := List.nodup_cons.mp hkeys
    have hsums : (s.advanceApplication k).settledBytes = s.settledBytes := rfl
    rw [List.foldl_cons, ih hrest, hsums]
    unfold advanceApplication updateCycles
    simp only [update, List.map_map, mk.injEq, and_true]
    refine List.map_congr_left fun c _ => ?_
    by_cases hc : c.key = k
    · have hout : (c.advance (s.settledBytes k)).key ∉ keys := by
        have hsame : (c.advance (s.settledBytes k)).key = c.key := rfl
        rw [hsame, hc]
        exact hk
      simp [hc, hout]
    · simp [hc]

theorem settles_close {s : ProxyLedger} {p : ProxyReservation → Bool}
    {f : ProxyReservation → ProxyReservation} {key : String × Time} {row : ReconcileRequest}
    (hsome : s.reservations.any p = true) (hkey : ∀ r, p r = true → r.cycleKey = key)
    (hending : ∀ r, p r = true → r.held = true ∨ r.state = .cancelled)
    (hsettled : ∀ r, p r = true → (f r).settled = true)
    (hkeeps : ∀ r, (f r).id = r.id ∧ (f r).cycleKey = r.cycleKey ∧
      (f r).reservedBytes = r.reservedBytes)
    (hgrows : ∀ r, r.estimatedBytes ≤ (f r).estimatedBytes) :
    Settles s p f (((s.updateReservations p f).advanceApplication key).requestReconcile row) := by
  refine ⟨hending, hsettled, hkeeps, hgrows, rfl, rfl, ?_⟩
  have hcharged : ∀ c : BudgetCycle,
      (s.reservations.any fun r => p r && r.chargedTo c.key) = (c.key == key) := by
    intro c
    rw [Bool.eq_iff_iff, List.any_eq_true, beq_iff_eq]
    constructor
    · rintro ⟨r, -, hr⟩
      rw [Bool.and_eq_true, ProxyReservation.chargedTo, beq_iff_eq] at hr
      exact hr.2.symm.trans (hkey r hr.1)
    · intro hc
      obtain ⟨r, hr, hpr⟩ := List.any_eq_true.mp hsome
      refine ⟨r, hr, ?_⟩
      rw [Bool.and_eq_true, ProxyReservation.chargedTo, beq_iff_eq, hc]
      exact ⟨hpr, hkey r hpr⟩
  refine update_congr (fun c _ => (hcharged c).symm) fun c _ hc => ?_
  rw [beq_iff_eq] at hc
  rw [hc]
  rfl

theorem closeReservation_move (s : ProxyLedger) (now : Time) (id : Uuid) (usedBytes requests : ℕ) :
    Move s (.close now id usedBytes requests) (s.closeReservation now id usedBytes requests) := by
  unfold closeReservation
  split
  · exact Move.refl s _
  · next identity hfind =>
    dsimp only
    split
    · next hopen =>
      refine .closed now id usedBytes requests _ _ (settles_close hopen ?_ ?_ ?_ ?_ ?_) ?_ ?_
      · intro r hr
        simp only [Bool.and_eq_true, ProxyReservation.chargedTo, beq_iff_eq] at hr
        exact hr.1.2
      · intro r hr
        simp only [Bool.and_eq_true] at hr
        exact Or.inl hr.2
      · exact fun r _ => rfl
      · exact fun r => ⟨rfl, rfl, rfl⟩
      · exact fun r => le_max_left _ _
      · intro r hr
        simp only [Bool.and_eq_true, beq_iff_eq] at hr
        exact hr.1.1
      · exact fun r => rfl
    · split
      · next hlate =>
        have hcancelled : ∀ r : ProxyReservation, (r.id == id && r.chargedTo identity.cycleKey &&
            r.state == .cancelled && (decide (r.estimatedBytes < usedBytes) ||
              decide (r.requestCount < requests))) = true →
            r.id = id ∧ r.cycleKey = identity.cycleKey ∧ r.state = .cancelled := by
          intro r hr
          simp only [Bool.and_eq_true, ProxyReservation.chargedTo, beq_iff_eq] at hr
          exact ⟨hr.1.1.1, hr.1.1.2, hr.1.2⟩
        refine .closed now id usedBytes requests _ _ (settles_close hlate ?_ ?_ ?_ ?_ ?_) ?_ ?_
        · exact fun r hr => (hcancelled r hr).2.1
        · exact fun r hr => Or.inr (hcancelled r hr).2.2
        · intro r hr
          simp [ProxyReservation.settled, ProxyReservation.raise, (hcancelled r hr).2.2]
        · exact fun r => ⟨rfl, rfl, rfl⟩
        · exact fun r => le_max_left _ _
        · exact fun r hr => (hcancelled r hr).1
        · exact fun r => rfl
      · exact Move.refl s _

theorem closeStaleReservations_reservations (s : ProxyLedger) (now : Time) :
    (s.closeStaleReservations now).reservations =
      update (s.abandoned now) (fun r => { r with state := .cancelled, closedAt := some now })
        s.reservations := by
  have hkeep : ∀ (rows : List ProxyReservation) (t : ProxyLedger),
      (rows.foldl (fun s r => s.requestReconcile
        ⟨r.provider, "stale_reservation", r.id, "reservation:" ++ toString r.id⟩) t).reservations =
          t.reservations := by
    have hone : ∀ (t : ProxyLedger) (r : ProxyReservation), (t.requestReconcile
        ⟨r.provider, "stale_reservation", r.id, "reservation:" ++ toString r.id⟩).reservations =
          t.reservations := fun _ _ => rfl
    exact fun rows t => Trace.foldl_keep hone t rows
  unfold closeStaleReservations
  dsimp only
  rw [hkeep, foldl_advanceApplication (List.nodup_dedup _)]
  rfl

theorem closeStaleReservations_move (s : ProxyLedger) (now : Time) (a : Step) :
    Move s a (s.closeStaleReservations now) := by
  have hkeep : ∀ {γ : Type} (g : ProxyLedger → γ),
      (∀ s row, g (requestReconcile s row) = g s) → ∀ (rows : List ProxyReservation) (t),
      g (rows.foldl (fun s r => s.requestReconcile
        ⟨r.provider, "stale_reservation", r.id, "reservation:" ++ toString r.id⟩) t) = g t :=
    fun g hg rows t => Trace.foldl_keep (fun s r => hg s _) t rows
  refine .cancelled (s.abandoned now) (fun r => { r with state := .cancelled, closedAt := some now })
    ⟨?_, ?_, ?_, ?_, ?_, ?_, ?_⟩ fun r => rfl
  · intro r hr
    rw [abandoned, Bool.and_eq_true] at hr
    exact Or.inl hr.1
  · exact fun r _ => rfl
  · exact fun r => ⟨rfl, rfl, rfl⟩
  · exact fun r => le_rfl
  · exact closeStaleReservations_reservations s now
  · unfold closeStaleReservations
    dsimp only
    rw [hkeep authorizations fun _ _ => rfl, foldl_advanceApplication (List.nodup_dedup _)]
    rfl
  · have hsums : (s.closeStaleReservations now).settledBytes = (s.updateReservations
        (s.abandoned now) fun r => { r with state := .cancelled, closedAt := some now
        }).settledBytes := by
      unfold settledBytes
      rw [closeStaleReservations_reservations]
      rfl
    rw [hsums]
    unfold closeStaleReservations
    dsimp only
    rw [hkeep cycles fun _ _ => rfl, foldl_advanceApplication (List.nodup_dedup _)]
    refine update_congr (fun c _ => ?_) fun c _ _ => rfl
    rw [Bool.eq_iff_iff, decide_eq_true_eq, List.mem_dedup, List.mem_map, List.any_eq_true]
    simp only [List.mem_filter, Bool.and_eq_true, ProxyReservation.chargedTo, beq_iff_eq,
      and_assoc]

/-- **Every transaction is one of the moves.** -/
theorem step_move (s : ProxyLedger) (a : Step) : Move s a (s.step a) := by
  have hrefl := Rewrites.refl Revoked s.reservations
  cases a with
  | reserve now workerNow request =>
    exact attempt_induction (Move.refl s _) fun _ _ hok => reserve_move hok _
  | authorize now id estimatedBytes maximumRequests =>
    exact attempt_induction (Move.refl s _) fun _ _ hok => authorize_move hok _
  | reconcileAttempt id actualBytes physicalRequests =>
    exact attempt_induction (Move.refl s _) fun _ _ hok => reconcileAttempt_move hok
  | releaseAttempt id =>
    exact attempt_induction (Move.refl s _) fun _ _ hok => releaseAttempt_move hok _
  | close now id usedBytes requests => exact closeReservation_move s now id usedBytes requests
  | closeStale now => exact closeStaleReservations_move s now _
  | reconcile now key reportedBytes successful =>
    refine attempt_induction (Move.refl s _) fun _ s' hok => ?_
    unfold reconcile at hok
    simp only [bind_eq_ok, require_eq_ok, pure_eq_ok, exists_const, Prod.mk.injEq] at hok
    obtain ⟨-, -, rfl⟩ := hok
    refine .controlled (rewrites_update fun c _ _ => ⟨rfl, rfl, rfl, fun hkill => ?_⟩) hrefl rfl
    simp [hkill]
  | killSwitch now provider action =>
    cases action with
    | activate =>
      exact .controlled (rewrites_update fun c _ _ => ⟨rfl, rfl, rfl, fun _ => Or.inl rfl⟩) hrefl
        rfl
    | revoke =>
      refine .controlled (rewrites_update fun c _ _ => ⟨rfl, rfl, rfl, fun _ => Or.inl rfl⟩)
        (rewrites_update fun r _ hr => ?_) rfl
      rw [Bool.and_eq_true, beq_iff_eq, beq_iff_eq] at hr
      exact ⟨hr.2, rfl⟩
    | clear =>
      refine .controlled (rewrites_update fun c _ hc => ⟨rfl, rfl, rfl, fun _ => Or.inr ?_⟩) hrefl
        rfl
      simp only [clearable, Bool.and_eq_true, decide_eq_true_eq] at hc
      exact lt_of_le_of_lt (le_max_right _ _) hc.2.1.2
  | administer key settings =>
    exact .controlled (rewrites_update fun c _ _ => ⟨rfl, rfl, rfl, fun hkill => Or.inl hkill⟩)
      hrefl rfl
  | surround around => exact .controlled (Rewrites.refl _ _) hrefl rfl

end ProxyLedger

end CommerceCollector
