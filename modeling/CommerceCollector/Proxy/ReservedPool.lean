import CommerceCollector.Foundation.Tasks
import CommerceCollector.Proxy.Ledger
import Mathlib.Data.Finset.Basic
import Mathlib.Logic.Function.Basic

/-!
# The durable proxy pool, await by await

`PostgresReservedProxyPool` of `commerce_scraper_proxy.py`, used by any number of tasks.  A call
under way is a `PoolTask`: the await at which it is suspended.  The database and the inner pool
answer as they like: a call returns, raises or is cancelled, and a call of the database may raise or
be cancelled when it has already committed.  What they decide is in the reply, what the database
records is in the state.

Every entry of the pool's lock is an await of its own: a task that is resumed there goes on if the
lock is free and waits otherwise.  A lease is passed by its reservation and generation.
-/

namespace CommerceCollector

open Relational Tasks

/-- What the methods read of the pool's identity and limit. -/
structure DurablePoolConfig where
  provider : String
  routeId : String
  maximumBytes : ℤ
  deriving DecidableEq, Repr

/-- What the pool reads of a `ProxyRequest`. -/
structure ProxyRequest where
  targetHost : String
  maximumRequests : Option ℤ := none
  maximumBytes : Option ℤ := none
  deriving DecidableEq, Repr

/-- `ProxyOutcome`. -/
structure ProxyOutcome where
  targetHost : String
  status : Option ℤ := none
  physicalRequests : ℕ := 1
  transmittedBytes : ℕ := 0
  receivedBytes : ℕ := 0
  classification : String
  deriving DecidableEq, Repr

/-- What the pool reads of a lease of the inner pool. -/
structure InnerLease where
  leaseId : String
  provider : String
  routeProvider : String
  endpointId : String
  deriving DecidableEq, Repr

/-- A lease by its identity: the `lease_id` is made of the reservation and the generation. -/
structure LeaseRef where
  reservationId : Uuid
  generation : ℕ
  deriving DecidableEq, Repr

/-- `ReservedProxyLease`.  One that is not among the leases of the pool is invalidated. -/
structure ReservedProxyLease where
  ref : LeaseRef
  request : ProxyRequest
  inner : InnerLease
  maximumBytes : ℤ
  deriving DecidableEq, Repr

/-- `_DurableReservationState`, as it is created. -/
structure DurableReservationState where
  usedBytes : ℕ := 0
  requests : ℕ := 0
  pendingAuthorizations : Finset Uuid := ∅
  inFlight : ℤ := 0
  reportingFailed : Bool := false
  durableClosed : Bool := false
  innerReleased : Bool := false
  released : Bool := false

/-- `_ReservedAttemptAuthorization`. -/
structure ReservedToken where
  authorizationId : Uuid
  lease : ReservedProxyLease
  resolved : Bool := false
  deriving DecidableEq, Repr

/-- What the pool needs of a row of `catalogue.proxy_reservations`. -/
structure DurableReservation where
  id : Uuid
  reservedBytes : ℤ
  closed : Bool := false
  deriving DecidableEq, Repr

/-- What a call of the pool raises. -/
inductive PoolError
  | cancelled
  /-- What the database or the inner pool raised. -/
  | raised
  | valueError (message : String)
  | runtimeError (message : String)
  | denied (message : String)
  | budgetExhausted (maximumRequests : Option ℤ) (maximumBytes : ℤ) (usedRequests usedBytes : ℕ)
  deriving DecidableEq, Repr

/-- How a token is resolved. -/
inductive Resolution
  | reconcile (outcome : ProxyOutcome)
  | release
  deriving DecidableEq, Repr

/-- A call of the pool or of one of its tokens. -/
inductive PoolCall
  | acquire (request : ProxyRequest)
  | rotate (lease : LeaseRef)
  | authorize (lease : LeaseRef) (estimatedBytes : ℤ)
  | report (lease : LeaseRef) (outcome : ProxyOutcome)
  | release (lease : LeaseRef)
  | resolve (authorizationId : Uuid) (how : Resolution)
  deriving DecidableEq, Repr

/-- What a call of the pool returns. -/
inductive PoolAnswer
  | lease (ref : LeaseRef)
  | token (authorizationId : Option Uuid)
  | done
  deriving DecidableEq, Repr

/-- The await at which a call is suspended.  `current` is the lease that `_owned` has returned. -/
inductive PoolTask
  /-- The call has not begun. -/
  | called (c : PoolCall)
  /-- `acquire`: the inner pool's `acquire`. -/
  | acquiring (request : ProxyRequest)
  /-- `acquire`: the database's `reserve`. -/
  | reserving (request : ProxyRequest) (inner : InnerLease)
  /-- `acquire`: the inner lease is released before an error is raised. -/
  | droppingLease (request : ProxyRequest) (error : PoolError)
  /-- `acquire`: the lock, before the lease is kept. -/
  | recording (lease : ReservedProxyLease)
  /-- `rotate`: the lock. -/
  | rotateLock (lease : LeaseRef)
  /-- `rotate`: the inner pool's `rotate`, with the lock. -/
  | innerRotate (current : ReservedProxyLease)
  /-- `rotate`: the new inner lease is released before an error is raised, with the lock. -/
  | rotateDrop (current : ReservedProxyLease) (error : PoolError)
  /-- `authorize`: the lock. -/
  | authorizeLock (lease : LeaseRef) (estimatedBytes : ℤ)
  /-- `authorize`: the inner pool's `authorize`, with the lock. -/
  | innerAuthorize (current : ReservedProxyLease) (estimatedBytes : ℤ)
  /-- `authorize`: the database's `authorize_reservation_attempt`. -/
  | durableAuthorize (current : ReservedProxyLease) (estimatedBytes : ℤ)
  /-- `authorize`: the lock, after the database has raised. -/
  | authorizeFailed (current : ReservedProxyLease) (estimatedBytes : ℤ) (error : PoolError)
  /-- `authorize`: the lock, after the database has answered `None`. -/
  | authorizeDenied (current : ReservedProxyLease) (estimatedBytes : ℤ)
  /-- `authorize`: the lock, after the database has authorized the attempt. -/
  | authorizeRecord (current : ReservedProxyLease) (estimatedBytes : ℤ) (authorizationId : Uuid)
  /-- `_discard_inner_authorization`, with the saved flag and the error to raise afterwards. -/
  | discarding (current : ReservedProxyLease) (estimatedBytes : ℤ) (previousFailure : Bool)
    (error : Option PoolError)
  /-- `_reconcile` and `_release_authorization`: the first lock. -/
  | resolveLock (lease : ReservedProxyLease) (authorizationId : Uuid) (how : Resolution)
  /-- `_reconcile` and `_release_authorization`: the database's transaction. -/
  | durableResolve (lease : ReservedProxyLease) (authorizationId : Uuid) (how : Resolution)
  /-- `_reconcile` and `_release_authorization`: the second lock. -/
  | resolveRecord (lease : ReservedProxyLease) (authorizationId : Uuid) (how : Resolution)
    (usage : ProxyReservationUsage)
  /-- The inner token's `reconcile` or `release`. -/
  | innerResolve (lease : ReservedProxyLease) (authorizationId : Uuid) (how : Resolution)
    (usage : ProxyReservationUsage)
  /-- `report`: the lock. -/
  | reportLock (lease : LeaseRef) (outcome : ProxyOutcome)
  /-- `report`: the inner pool's `report`, with the lock. -/
  | innerReport (current : ReservedProxyLease) (outcome : ProxyOutcome)
  /-- `release`: the lock. -/
  | releaseLock (lease : LeaseRef)
  /-- `release`: the database's `close_reservation`, with the lock. -/
  | durableClose (current : ReservedProxyLease)
  /-- `release`: the inner pool's `release`, with the lock. -/
  | innerRelease (current : ReservedProxyLease)
  deriving DecidableEq, Repr

/-- What a call of the inner pool or of the database returns. -/
structure Returned where
  innerLease : InnerLease := ⟨"", "", "", ""⟩
  authorized : Bool := true
  usage : ProxyReservationUsage := ⟨0, 0, false, false⟩
  deriving DecidableEq, Repr

/-- How an await ends; a transaction of the database may be committed although it does not
return. -/
inductive PoolReply
  | cancelled (committed : Bool)
  | raised (committed : Bool)
  | returned (answer : Returned)
  deriving DecidableEq, Repr

namespace PoolReply

/-- What the call that is awaited returns or raises. -/
def outcome : PoolReply → Except PoolError Returned
  | cancelled _ => .error .cancelled
  | raised _ => .error .raised
  | returned answer => .ok answer

/-- The transaction that is awaited is committed. -/
def committed : PoolReply → Bool
  | cancelled committed | raised committed => committed
  | returned _ => true

end PoolReply

/-- The pool with its database.  A reservation that is not recorded yet has the state that it is
created with; `failures` are the reservations for which an accounting call has raised, and `answers`
what the calls have returned. -/
structure ReservedProxyPool where
  locked : Bool := false
  leases : List ReservedProxyLease := []
  states : Uuid → DurableReservationState := fun _ => {}
  tokens : List ReservedToken := []
  reservations : List DurableReservation := []
  authorizations : List AttemptAuthorization := []
  failures : List Uuid := []
  answers : List (PoolCall × Except PoolError PoolAnswer) := []

namespace ReservedProxyPool

/-! ## Writes -/

/-- The state of a reservation is rewritten. -/
def setState (s : ReservedProxyPool) (id : Uuid)
    (f : DurableReservationState → DurableReservationState) : ReservedProxyPool :=
  { s with states := Function.update s.states id (f (s.states id)) }

@[simp] theorem setState_self (s : ReservedProxyPool) (id : Uuid)
    (f : DurableReservationState → DurableReservationState) :
    (s.setState id f).states id = f (s.states id) := by
  simp [setState]

@[simp] theorem setState_other (s : ReservedProxyPool) {id other : Uuid} (h : other ≠ id)
    (f : DurableReservationState → DurableReservationState) :
    (s.setState id f).states other = s.states other := by
  simp [setState, h]

/-- `state.reporting_failed = True`, because an accounting call has raised. -/
def fail (s : ReservedProxyPool) (id : Uuid) : ReservedProxyPool :=
  { s.setState id (fun r => { r with reportingFailed := true }) with failures := id :: s.failures }

/-- The database inserts a reservation. -/
def reserve (s : ReservedProxyPool) (bytes : ℤ) : Uuid × ReservedProxyPool :=
  let id := freshKey DurableReservation.id s.reservations
  (id, { s with reservations := s.reservations ++ [{ id, reservedBytes := bytes }] })

/-- The database closes a reservation. -/
def close (s : ReservedProxyPool) (id : Uuid) : ReservedProxyPool :=
  { s with
    reservations := update (fun r => r.id == id) (fun r => { r with closed := true })
      s.reservations }

/-- The database inserts an authorization. -/
def insertAuthorization (s : ReservedProxyPool) (reservationId : Uuid) (estimatedBytes : ℤ) :
    Uuid × ReservedProxyPool :=
  let id := freshKey AttemptAuthorization.id s.authorizations
  (id, { s with
    authorizations := s.authorizations ++
      [{ id, reservationId, estimatedBytes := estimatedBytes.toNat }] })

/-- The row of a resolved authorization. -/
def resolvedRow (how : Resolution) (row : AttemptAuthorization) : AttemptAuthorization :=
  match how with
  | .reconcile outcome =>
    { row with
      state := .reconciled
      actualBytes := some (outcome.transmittedBytes + outcome.receivedBytes)
      physicalRequests := some outcome.physicalRequests }
  | .release => { row with state := .released }

/-- The database resolves an authorization that is pending. -/
def settle (s : ReservedProxyPool) (id : Uuid) (how : Resolution) : ReservedProxyPool :=
  { s with
    authorizations := update (fun row => row.id == id && row.state == .authorized)
      (resolvedRow how) s.authorizations }

/-- A token is used up. -/
def spendToken (s : ReservedProxyPool) (id : Uuid) : ReservedProxyPool :=
  { s with
    tokens := update (fun t => t.authorizationId == id) (fun t => { t with resolved := true })
      s.tokens }

/-- A call ends. -/
def finish (s : ReservedProxyPool) (c : PoolCall) (answer : Except PoolError PoolAnswer) :
    ReservedProxyPool × Option PoolTask :=
  ({ s with answers := s.answers ++ [(c, answer)] }, none)

/-- The lock is given up. -/
def unlock (s : ReservedProxyPool) : ReservedProxyPool := { s with locked := false }

/-- The lock is taken, and a call is awaited with it. -/
def hold (s : ReservedProxyPool) (t : PoolTask) : ReservedProxyPool × Option PoolTask :=
  ({ s with locked := true }, some t)

/-- `async with self._lock`, up to the next await. -/
def withLock (s : ReservedProxyPool) (t : PoolTask) (c : PoolCall) (reply : PoolReply)
    (body : ReservedProxyPool × Option PoolTask) : ReservedProxyPool × Option PoolTask :=
  match reply with
  | .cancelled _ => s.finish c (.error .cancelled)
  | _ => if s.locked = true then (s, some t) else body

/-! ## Checks -/

/-- `_owned`. -/
def owned (s : ReservedProxyPool) (lease : LeaseRef) : Option ReservedProxyLease :=
  if (s.states lease.reservationId).released = true then none
  else s.leases.find? fun l => l.ref == lease

/-- `_owned`, or the error that it raises. -/
def ifOwned (s : ReservedProxyPool) (lease : LeaseRef) (c : PoolCall)
    (body : ReservedProxyLease → ReservedProxyPool × Option PoolTask) :
    ReservedProxyPool × Option PoolTask :=
  match s.owned lease with
  | none => s.finish c (.error (.denied "proxy lease is not active"))
  | some current => body current

/-- `_validate_inner`. -/
def validateInner (config : DurablePoolConfig) (lease : InnerLease) : Except PoolError Unit :=
  if lease.provider ≠ config.provider ∨ lease.routeProvider ≠ config.provider then
    .error (.denied "proxy data-plane provider does not match durable identity")
  else if lease.endpointId ≠ config.routeId then
    .error (.denied "proxy data-plane route does not match durable identity")
  else .ok ()

/-- The limit of a reservation. -/
def maximumBytes (config : DurablePoolConfig) (request : ProxyRequest) : ℤ :=
  match request.maximumBytes with
  | none | some 0 => config.maximumBytes
  | some n => min config.maximumBytes n

/-- Attempts of the reservation are pending or being authorized. -/
def Busy (s : ReservedProxyPool) (id : Uuid) : Prop :=
  (s.states id).pendingAuthorizations ≠ ∅ ∨ (s.states id).inFlight ≠ 0

instance (s : ReservedProxyPool) (id : Uuid) : Decidable (s.Busy id) :=
  inferInstanceAs (Decidable (_ ∨ _))

/-- The error of `_raise_if_exhausted`. -/
def exhaustion (lease : ReservedProxyLease) (usage : ProxyReservationUsage) : Option PoolError :=
  if usage.revoked = true then some (.denied "proxy reservation was revoked")
  else if usage.exhausted = true ∨ ∃ n ∈ lease.request.maximumRequests, n < usage.requestCount then
    some (.budgetExhausted lease.request.maximumRequests lease.maximumBytes usage.requestCount
      usage.estimatedBytes)
  else none

/-! ## The calls -/

/-- A call begins. -/
def begin (s : ReservedProxyPool) (c : PoolCall) : ReservedProxyPool × Option PoolTask :=
  match c with
  | .acquire request => (s, some (.acquiring request))
  | .rotate lease => (s, some (.rotateLock lease))
  | .authorize lease n =>
    if n < 0 then s.finish c (.error (.valueError "estimated_bytes must be non-negative"))
    else (s, some (.authorizeLock lease n))
  | .report lease outcome => (s, some (.reportLock lease outcome))
  | .release lease => (s, some (.releaseLock lease))
  | .resolve id how =>
    match s.tokens.find? fun t => t.authorizationId == id with
    -- There is no such token to call.
    | none => (s, none)
    | some token =>
      if token.resolved = true then
        s.finish c (.error (.runtimeError "proxy attempt authorization already resolved"))
      else (s, some (.resolveLock token.lease id how))

/-- `rotate`, once the inner pool has a new lease. -/
def replaceLease (s : ReservedProxyPool) (current : ReservedProxyLease) (inner : InnerLease) :
    LeaseRef × ReservedProxyPool :=
  let ref := { current.ref with generation := current.ref.generation + 1 }
  (ref, { s with
    leases := update (fun l => l.ref == current.ref) (fun _ => { current with ref, inner })
      s.leases })

/-- `authorize`, after the check of the lease. -/
def beginAuthorize (s : ReservedProxyPool) (c : PoolCall) (current : ReservedProxyLease) (n : ℤ) :
    ReservedProxyPool × Option PoolTask :=
  if (s.states current.ref.reservationId).reportingFailed = true then
    s.finish c (.ok (.token none))
  else s.hold (.innerAuthorize current n)

/-- `_discard_inner_authorization` begins. -/
def discard (s : ReservedProxyPool) (current : ReservedProxyLease) (n : ℤ)
    (error : Option PoolError) : ReservedProxyPool × Option PoolTask :=
  (s.setState current.ref.reservationId fun r => { r with reportingFailed := true },
    some (.discarding current n (s.states current.ref.reservationId).reportingFailed error))

/-- The authorization is pending, and its token is returned. -/
def issueToken (s : ReservedProxyPool) (current : ReservedProxyLease) (id : Uuid) :
    ReservedProxyPool :=
  { s.setState current.ref.reservationId (fun r =>
      { r with pendingAuthorizations := insert id r.pendingAuthorizations }) with
    tokens := s.tokens ++ [{ authorizationId := id, lease := current }] }

/-- `_reconcile` and `_release_authorization`, after the check of the lease. -/
def beginResolve (s : ReservedProxyPool) (current : ReservedProxyLease) (id : Uuid)
    (how : Resolution) : ReservedProxyPool × Option PoolTask :=
  if id ∉ (s.states current.ref.reservationId).pendingAuthorizations then
    s.finish (.resolve id how) (.error (.denied "proxy attempt authorization is not active"))
  else
    match how with
    | .reconcile outcome =>
      if outcome.targetHost ≠ current.request.targetHost then
        s.finish (.resolve id how)
          (.error (.denied "proxy outcome target does not match the lease"))
      else (s, some (.durableResolve current id how))
    | .release => (s, some (.durableResolve current id how))

/-- An authorization is no longer pending. -/
def settledState (id : Uuid) (how : Resolution) (usage : ProxyReservationUsage)
    (r : DurableReservationState) : DurableReservationState :=
  match how with
  | .reconcile _ =>
    { r with
      pendingAuthorizations := r.pendingAuthorizations.erase id
      usedBytes := usage.estimatedBytes
      requests := usage.requestCount }
  | .release => { r with pendingAuthorizations := r.pendingAuthorizations.erase id }

/-- The inner token has answered. -/
def endResolve (s : ReservedProxyPool) (lease : ReservedProxyLease) (id : Uuid) (how : Resolution)
    (usage : ProxyReservationUsage) (reply : PoolReply) :
    ReservedProxyPool × Option PoolTask :=
  match reply.outcome, how with
  | .error e, _ =>
    ((s.spendToken id).fail lease.ref.reservationId).finish (.resolve id how) (.error e)
  | .ok _, .release => (s.spendToken id).finish (.resolve id how) (.ok .done)
  | .ok _, .reconcile _ =>
    match exhaustion lease usage with
    | none => (s.spendToken id).finish (.resolve id how) (.ok .done)
    | some e =>
      ((s.spendToken id).fail lease.ref.reservationId).finish (.resolve id how) (.error e)

/-- `release`, once nothing is left to do for the lease. -/
def dropLease (s : ReservedProxyPool) (current : ReservedProxyLease) : ReservedProxyPool :=
  { s.setState current.ref.reservationId (fun r => { r with released := true }) with
    leases := s.leases.filter fun l => l.ref != current.ref }

/-- `release`, after the check of the lease. -/
def beginRelease (s : ReservedProxyPool) (current : ReservedProxyLease) :
    ReservedProxyPool × Option PoolTask :=
  let state := s.states current.ref.reservationId
  if s.Busy current.ref.reservationId then
    s.finish (.release current.ref)
      (.error (.denied "proxy lease has unreconciled authorized requests"))
  else if state.durableClosed = false then s.hold (.durableClose current)
  else if state.innerReleased = false then s.hold (.innerRelease current)
  else (s.dropLease current).finish (.release current.ref) (.ok .done)

/-- A call goes on to its next await. -/
def run (config : DurablePoolConfig) (s : ReservedProxyPool) (t : PoolTask) (reply : PoolReply) :
    ReservedProxyPool × Option PoolTask :=
  match t with
  | .called c =>
    match reply with
    | .cancelled _ => s.finish c (.error .cancelled)
    | _ => s.begin c
  | .acquiring request =>
    match reply.outcome with
    | .error e => s.finish (.acquire request) (.error e)
    | .ok a =>
      match validateInner config a.innerLease with
      | .error e => (s, some (.droppingLease request e))
      | .ok _ => (s, some (.reserving request a.innerLease))
  | .reserving request inner =>
    let bytes := maximumBytes config request
    let s' := if reply.committed = true then (s.reserve bytes).2 else s
    match reply.outcome with
    | .error e => (s', some (.droppingLease request e))
    | .ok _ => (s', some (.recording
      { ref := ⟨(s.reserve bytes).1, 0⟩, request, inner, maximumBytes := bytes }))
  | .droppingLease request e => s.finish (.acquire request) (.error e)
  | .recording lease =>
    s.withLock t (.acquire lease.request) reply
      ({ s with leases := s.leases ++ [lease] }.finish (.acquire lease.request)
        (.ok (.lease lease.ref)))
  | .rotateLock lease =>
    s.withLock t (.rotate lease) reply <| s.ifOwned lease (.rotate lease) fun current =>
      if s.Busy current.ref.reservationId then
        s.finish (.rotate lease)
          (.error (.denied "proxy identity cannot rotate with authorized requests"))
      else s.hold (.innerRotate current)
  | .innerRotate current =>
    match reply.outcome with
    | .error e => s.unlock.finish (.rotate current.ref) (.error e)
    | .ok a =>
      match validateInner config a.innerLease with
      | .error e => (s, some (.rotateDrop current e))
      | .ok _ =>
        (s.replaceLease current a.innerLease).2.unlock.finish (.rotate current.ref)
          (.ok (.lease (s.replaceLease current a.innerLease).1))
  | .rotateDrop current e => s.unlock.finish (.rotate current.ref) (.error e)
  | .authorizeLock lease n =>
    s.withLock t (.authorize lease n) reply <| s.ifOwned lease (.authorize lease n) fun current =>
      s.beginAuthorize (.authorize lease n) current n
  | .innerAuthorize current n =>
    match reply.outcome with
    | .error e => s.unlock.finish (.authorize current.ref n) (.error e)
    | .ok a =>
      if a.authorized = false then s.unlock.finish (.authorize current.ref n) (.ok (.token none))
      else (s.unlock.setState current.ref.reservationId (fun r =>
        { r with inFlight := r.inFlight + 1 }), some (.durableAuthorize current n))
  | .durableAuthorize current n =>
    let inserted := s.insertAuthorization current.ref.reservationId n
    match reply.outcome with
    | .error e =>
      (if reply.committed = true then inserted.2 else s, some (.authorizeFailed current n e))
    | .ok a =>
      if a.authorized = false then (s, some (.authorizeDenied current n))
      else (inserted.2, some (.authorizeRecord current n inserted.1))
  | .authorizeFailed current n e =>
    s.withLock t (.authorize current.ref n) reply <|
      ((s.setState current.ref.reservationId fun r => { r with inFlight := r.inFlight - 1 }).fail
        current.ref.reservationId).discard current n (some e)
  | .authorizeDenied current n =>
    s.withLock t (.authorize current.ref n) reply <|
      (s.setState current.ref.reservationId fun r =>
        { r with inFlight := r.inFlight - 1 }).discard current n none
  | .authorizeRecord current n id =>
    s.withLock t (.authorize current.ref n) reply <|
      ((s.issueToken current id).setState current.ref.reservationId fun r =>
        { r with inFlight := r.inFlight - 1 }).finish (.authorize current.ref n)
          (.ok (.token (some id)))
  | .discarding current n previous error =>
    match reply.outcome with
    | .error e =>
      { s with failures := current.ref.reservationId :: s.failures }.finish
        (.authorize current.ref n) (.error e)
    | .ok _ =>
      (s.setState current.ref.reservationId fun r =>
        { r with reportingFailed := previous }).finish (.authorize current.ref n)
          (match error with
          | some e => .error e
          | none => .ok (.token none))
  | .resolveLock lease id how =>
    s.withLock t (.resolve id how) reply <| s.ifOwned lease.ref (.resolve id how) fun current =>
      s.beginResolve current id how
  | .durableResolve lease id how =>
    let s' := if reply.committed = true then s.settle id how else s
    match reply.outcome with
    | .error e => (s'.fail lease.ref.reservationId).finish (.resolve id how) (.error e)
    | .ok a => (s', some (.resolveRecord lease id how a.usage))
  | .resolveRecord lease id how usage =>
    s.withLock t (.resolve id how) reply
      (s.setState lease.ref.reservationId (settledState id how usage),
        some (.innerResolve lease id how usage))
  | .innerResolve lease id how usage => s.endResolve lease id how usage reply
  | .reportLock lease outcome =>
    s.withLock t (.report lease outcome) reply <|
      s.ifOwned lease (.report lease outcome) fun current =>
        if outcome.targetHost ≠ current.request.targetHost then
          s.finish (.report lease outcome)
            (.error (.denied "proxy outcome target does not match the lease"))
        else s.hold (.innerReport current outcome)
  | .innerReport current outcome =>
    s.unlock.finish (.report current.ref outcome) (reply.outcome.map fun _ => .done)
  | .releaseLock lease =>
    s.withLock t (.release lease) reply <|
      if (s.states lease.reservationId).released = true then s.finish (.release lease) (.ok .done)
      else s.ifOwned lease (.release lease) fun current => s.beginRelease current
  | .durableClose current =>
    let s' := if reply.committed = true then s.close current.ref.reservationId else s
    match reply.outcome with
    | .error e =>
      (s'.fail current.ref.reservationId).unlock.finish (.release current.ref) (.error e)
    | .ok _ => (s'.setState current.ref.reservationId (fun r => { r with durableClosed := true }),
        some (.innerRelease current))
  | .innerRelease current =>
    match reply.outcome with
    | .error e =>
      (s.fail current.ref.reservationId).unlock.finish (.release current.ref) (.error e)
    | .ok _ =>
      ((s.setState current.ref.reservationId fun r =>
        { r with innerReleased := true }).dropLease current).unlock.finish (.release current.ref)
          (.ok .done)

/-! ## Rules for the steps -/

section Rules

variable {s : ReservedProxyPool} {t : PoolTask} {c : PoolCall} {reply : PoolReply}
  {P : ReservedProxyPool × Option PoolTask → Prop}

theorem withLock_rule {body : ReservedProxyPool × Option PoolTask}
    (hcancelled : ∀ b, reply = .cancelled b → P (s.finish c (.error .cancelled)))
    (hwait : P (s, some t)) (hbody : P body) : P (s.withLock t c reply body) := by
  cases reply with
  | cancelled b => exact hcancelled b rfl
  | raised b =>
    change P (if s.locked = true then (s, some t) else body)
    split
    · exact hwait
    · exact hbody
  | returned a =>
    change P (if s.locked = true then (s, some t) else body)
    split
    · exact hwait
    · exact hbody

theorem ifOwned_rule {lease : LeaseRef}
    {body : ReservedProxyLease → ReservedProxyPool × Option PoolTask}
    (hdenied : P (s.finish c (.error (.denied "proxy lease is not active"))))
    (hbody : ∀ current, s.owned lease = some current → P (body current)) :
    P (s.ifOwned lease c body) := by
  unfold ifOwned
  split
  · exact hdenied
  · next current howned => exact hbody current howned

theorem ref_of_owned {lease : LeaseRef} {current : ReservedProxyLease}
    (h : s.owned lease = some current) : current.ref = lease ∧ current ∈ s.leases := by
  unfold owned at h
  split at h
  · cases h
  · obtain ⟨hmem, href⟩ := mem_of_find? h
    exact ⟨beq_iff_eq.mp href, hmem⟩

end Rules

end ReservedProxyPool

/-- The calls of the pool. -/
def reservedPoolProgram (config : DurablePoolConfig) :
    Program ReservedProxyPool PoolTask PoolCall PoolReply where
  start := .called
  run := ReservedProxyPool.run config

/-- The pool after a run, from its creation. -/
def reservedPoolAfter (config : DurablePoolConfig) (turns : List (Turn PoolCall PoolReply)) :
    Pool ReservedProxyPool PoolTask :=
  (reservedPoolProgram config).after ⟨{}, []⟩ turns

/-! ## Parts of runs -/

/-- A lease of a pool with one reservation is acquired. -/
def acquireLease : List (Turn PoolCall PoolReply) :=
  .spawn (.acquire { targetHost := "shop" }) ::
    List.replicate 4 (.resume 0 (.returned { innerLease := ⟨"inner", "p", "p", "r"⟩ }))

/-- An authorization is begun and comes to the database, as the task at a position. -/
def beginAttempt (i : ℕ) : List (Turn PoolCall PoolReply) :=
  .spawn (.authorize ⟨0, 0⟩ 10) :: List.replicate 3 (.resume i (.returned {}))

/-- The identity of the pool in the runs. -/
def runConfig : DurablePoolConfig := ⟨"p", "r", 100⟩

end CommerceCollector
