import CommerceCollector.Foundation.Tasks
import CommerceCollector.Proxy.Traffic

/-!
# The attempts of a reservation, statement by statement

`authorize_reservation_attempt`, `reconcile_reservation_attempt` and `release_reservation_attempt`
of `proxy.py`, called by any number of workers.  A call that is under way is an `AttemptTask`: the
statement that it runs next, with the rows that it has read.  The shared state is what is committed
and which rows are locked.  A statement that needs a locked row waits; the writes of a transaction
are published, and its locks given up, by its commit, which here goes with its last statement.  A
call may also be lost: its transaction is rolled back.

The other transactions of the ledger run in between, each as a whole, and wait if they would change
a locked reservation.  The locks of an authorization on the cycle, the profile and the route are
left out: they only keep other transactions waiting.
-/

namespace CommerceCollector

open Relational Transaction Tasks

/-- The arguments of `authorize_reservation_attempt`. -/
structure AuthorizeCall where
  reservationId : Uuid
  estimatedBytes : ℤ
  maximumRequests : Option ℤ
  deriving DecidableEq, Repr

/-- The arguments of `reconcile_reservation_attempt`. -/
structure ReconcileCall where
  authorizationId : Uuid
  actualBytes : ℤ
  physicalRequests : ℤ
  deriving DecidableEq, Repr

/-- A call of one of the three functions. -/
inductive AttemptCall
  | authorize (c : AuthorizeCall)
  | reconcile (c : ReconcileCall)
  | release (authorizationId : Uuid)
  deriving DecidableEq, Repr

/-- What a call returns. -/
inductive AttemptAnswer
  | authorized (id : Option Uuid)
  | reconciled (usage : ProxyReservationUsage)
  | released
  deriving DecidableEq, Repr

/-- A call under way, by the statement that it runs next. -/
inductive AttemptTask
  /-- Nothing is run yet. -/
  | called (c : AttemptCall)
  /-- An authorization has found its cycle. -/
  | checkProfile (c : AuthorizeCall)
  /-- An authorization has found its profile. -/
  | checkRoute (c : AuthorizeCall)
  /-- An authorization has found its route. -/
  | lockReservation (c : AuthorizeCall)
  /-- The reservation is locked and read. -/
  | sumPending (c : AuthorizeCall) (row : ProxyReservation)
  /-- The attempt fits beside the pending ones. -/
  | insertAttempt (c : AuthorizeCall) (row : ProxyReservation)
  /-- The authorization is locked and pending. -/
  | recordActuals (c : ReconcileCall) (row : AttemptAuthorization)
  /-- The authorization is updated. -/
  | spendActuals (c : ReconcileCall) (row : AttemptAuthorization)
  /-- The reservation is locked and updated, too. -/
  | readUsage (c : ReconcileCall) (row : AttemptAuthorization)
  /-- The authorization is locked and was reconciled before. -/
  | replay (c : ReconcileCall) (row : AttemptAuthorization)
  /-- There is no pending authorization to release. -/
  | readState (authorizationId : Uuid)
  /-- Another transaction of the ledger. -/
  | other (a : ProxyLedger.Step)
  deriving DecidableEq, Repr

/-- A worker starts a call, or another transaction is started. -/
inductive AttemptRequest
  | call (c : AttemptCall)
  | other (a : ProxyLedger.Step)
  deriving DecidableEq, Repr

/-- A call goes on at a time of the database, or is lost. -/
inductive AttemptReply
  | lost
  | next (now : Time)
  deriving DecidableEq, Repr

namespace AttemptTask

/-- The reservation that the transaction has locked. -/
def reservationLock : AttemptTask → Option Uuid
  | .sumPending _ row | .insertAttempt _ row => some row.id
  | .readUsage _ row => some row.reservationId
  | _ => none

/-- The authorization that the transaction has locked. -/
def authorizationLock : AttemptTask → Option Uuid
  | .recordActuals _ row | .spendActuals _ row | .readUsage _ row | .replay _ row => some row.id
  | _ => none

end AttemptTask

/-- What is committed, which rows are locked, and what the calls have returned. -/
structure AttemptStore where
  ledger : ProxyLedger
  reservationLocks : List Uuid := []
  authorizationLocks : List Uuid := []
  answers : List (AttemptCall × Except String AttemptAnswer) := []
  deriving Repr

/-- The transactions that are not calls of the three functions. -/
def ProxyLedger.Step.isOther : ProxyLedger.Step → Bool
  | .authorize _ _ _ _ | .reconcileAttempt _ _ _ | .releaseAttempt _ => false
  | _ => true

namespace ProxyLedger

/-! ## The statements of an authorization -/

/-- The checks of the arguments, and of the cycle of the reservation. -/
def checkCycle (l : ProxyLedger) (now : Time) (c : AuthorizeCall) : Except String Unit := do
  require (0 ≤ c.estimatedBytes) "proxy attempt estimate must be non-negative"
  require (∀ n ∈ c.maximumRequests, 1 ≤ n) "proxy request cap must be positive"
  let reservation ← getRow (l.reservation c.reservationId) "proxy reservation has no billing cycle"
  let cycle ← getRow (l.cycle reservation.cycleKey) "proxy reservation has no billing cycle"
  require (cycle.current now = true ∧ cycle.unsafeToSpend = false)
    "proxy billing cycle does not authorize new paid traffic"

/-- The check of the profile. -/
def checkProfile (l : ProxyLedger) (c : AuthorizeCall) : Except String Unit := do
  let error := "proxy profile does not authorize new paid traffic"
  let reservation ← getRow (l.reservation c.reservationId) error
  let profile ← getRow (l.profiles.find? fun p => p.id == reservation.profileId &&
    p.provider == reservation.provider && p.logicalName == reservation.profile) error
  require (profile.usable = true ∧ profile.secretGeneration = reservation.secretGeneration) error

/-- The check of the route. -/
def checkRoute (l : ProxyLedger) (c : AuthorizeCall) : Except String Unit := do
  let error := "proxy route does not authorize new paid traffic"
  let reservation ← getRow (l.reservation c.reservationId) error
  let route ← getRow (l.routes.find? fun r => r.id == reservation.routeId &&
    r.provider == reservation.provider && r.profileId == reservation.profileId) error
  require (route.usable = true) error

/-- The reservation of an authorization, once it is locked. -/
def openReservation (l : ProxyLedger) (c : AuthorizeCall) : Except String ProxyReservation := do
  let reservation ← getRow (l.reservation c.reservationId) "proxy reservation is not active"
  require (reservation.held = true ∧
    (l.profiles.any fun p => p.id == reservation.profileId &&
      p.provider == reservation.provider && p.logicalName == reservation.profile &&
      p.secretGeneration == reservation.secretGeneration && p.usable) = true ∧
    (l.routes.any fun r => r.id == reservation.routeId && r.provider == reservation.provider &&
      r.profileId == reservation.profileId && r.usable) = true) "proxy reservation is not active"
  require (reservation.revoked = false) "proxy reservation was revoked"
  pure reservation

/-- The attempt does not fit beside the pending ones. -/
def Exceeds (l : ProxyLedger) (c : AuthorizeCall) (row : ProxyReservation) : Prop :=
  row.reservedBytes <
      row.estimatedBytes + l.pendingBytes c.reservationId + c.estimatedBytes.toNat ∨
    ∃ n ∈ c.maximumRequests, n ≤ row.requestCount + l.pendingRequests c.reservationId

instance (l : ProxyLedger) (c : AuthorizeCall) (row : ProxyReservation) :
    Decidable (l.Exceeds c row) :=
  inferInstanceAs (Decidable (_ ∨ _))

/-- The authorization is inserted. -/
def insertAuthorization (l : ProxyLedger) (c : AuthorizeCall) : Uuid × ProxyLedger :=
  let id := freshKey AttemptAuthorization.id l.authorizations
  (id, { l with
    authorizations := l.authorizations ++
      [{ id, reservationId := c.reservationId, estimatedBytes := c.estimatedBytes.toNat }] })

end ProxyLedger

namespace AttemptStore

/-- The locks of a transaction are given up. -/
def unlock (s : AttemptStore) (t : AttemptTask) : AttemptStore :=
  { s with
    reservationLocks := s.reservationLocks.filter fun id => t.reservationLock != some id
    authorizationLocks := s.authorizationLocks.filter fun id => t.authorizationLock != some id }

/-- A call ends. -/
def finish (s : AttemptStore) (t : AttemptTask) (c : AttemptCall)
    (answer : Except String AttemptAnswer) : AttemptStore × Option AttemptTask :=
  ({ s.unlock t with answers := s.answers ++ [(c, answer)] }, none)

/-- A call goes on unless the statement raises. -/
def goOn {ε : Type} (s : AttemptStore) (t : AttemptTask) (c : AttemptCall) (r : Except String ε)
    (next : ε → AttemptStore × Option AttemptTask) : AttemptStore × Option AttemptTask :=
  match r with
  | .ok a => next a
  | .error e => s.finish t c (.error e)

/-- The first statement of `reconcile_reservation_attempt`: the authorization is locked. -/
def lockAuthorization (s : AttemptStore) (t : AttemptTask) (c : ReconcileCall) :
    AttemptStore × Option AttemptTask :=
  if c.actualBytes < 0 ∨ c.physicalRequests < 0 then
    s.finish t (.reconcile c) (.error "proxy attempt actual counters must be non-negative")
  else if c.authorizationId ∈ s.authorizationLocks then (s, some t)
  else
    match s.ledger.authorization c.authorizationId with
    | none => s.finish t (.reconcile c) (.error "proxy attempt authorization does not exist")
    | some row =>
      let locked := { s with authorizationLocks := c.authorizationId :: s.authorizationLocks }
      match row.state with
      | .released =>
        s.finish t (.reconcile c) (.error "proxy attempt authorization was released")
      | .authorized => (locked, some (.recordActuals c row))
      | .reconciled => (locked, some (.replay c row))

/-- The first statement of `release_reservation_attempt`: a transaction of its own. -/
def releasePending (s : AttemptStore) (t : AttemptTask) (authorizationId : Uuid) :
    AttemptStore × Option AttemptTask :=
  if authorizationId ∈ s.authorizationLocks then (s, some t)
  else
    let open_ := fun a : AttemptAuthorization => a.id == authorizationId && a.state == .authorized
    if s.ledger.authorizations.any open_ then
      { s with ledger := { s.ledger with
        authorizations := update open_ (fun a => { a with state := .released })
          s.ledger.authorizations } }.finish t (.release authorizationId) (.ok .released)
    else (s, some (.readState authorizationId))

/-- A call runs its next statement. -/
def proceed (s : AttemptStore) (now : Time) (t : AttemptTask) : AttemptStore × Option AttemptTask :=
  match t with
  | .called (.authorize c) =>
    s.goOn t (.authorize c) (s.ledger.checkCycle now c) fun _ => (s, some (.checkProfile c))
  | .called (.reconcile c) => s.lockAuthorization t c
  | .called (.release id) => s.releasePending t id
  | .checkProfile c =>
    s.goOn t (.authorize c) (s.ledger.checkProfile c) fun _ => (s, some (.checkRoute c))
  | .checkRoute c =>
    s.goOn t (.authorize c) (s.ledger.checkRoute c) fun _ => (s, some (.lockReservation c))
  | .lockReservation c =>
    if c.reservationId ∈ s.reservationLocks then (s, some t)
    else s.goOn t (.authorize c) (s.ledger.openReservation c) fun row =>
      ({ s with reservationLocks := c.reservationId :: s.reservationLocks },
        some (.sumPending c row))
  | .sumPending c row =>
    if s.ledger.Exceeds c row then s.finish t (.authorize c) (.ok (.authorized none))
    else (s, some (.insertAttempt c row))
  | .insertAttempt c _ =>
    { s with ledger := (s.ledger.insertAuthorization c).2 }.finish t (.authorize c)
      (.ok (.authorized (some (s.ledger.insertAuthorization c).1)))
  | .recordActuals c row => (s, some (.spendActuals c row))
  | .spendActuals c row =>
    if row.reservationId ∈ s.reservationLocks then (s, some t)
    else ({ s with reservationLocks := row.reservationId :: s.reservationLocks },
      some (.readUsage c row))
  | .readUsage c row =>
    let spent := s.ledger.resolveAttempt row c.actualBytes.toNat c.physicalRequests.toNat
    s.goOn t (.reconcile c) (spent.usage row.reservationId) fun usage =>
      { s with ledger := spent }.finish t (.reconcile c) (.ok (.reconciled usage))
  | .replay c row =>
    if row.actualBytes = some c.actualBytes.toNat ∧
        row.physicalRequests = some c.physicalRequests.toNat then
      s.goOn t (.reconcile c) (s.ledger.usage row.reservationId) fun usage =>
        s.finish t (.reconcile c) (.ok (.reconciled usage))
    else s.finish t (.reconcile c)
      (.error "proxy attempt was already reconciled with different actuals")
  | .readState id =>
    match s.ledger.authorization id with
    | none => s.finish t (.release id) (.error "proxy attempt authorization does not exist")
    | some row =>
      if row.state = .released then s.finish t (.release id) (.ok .released)
      else s.finish t (.release id) (.error "a dispatched proxy attempt cannot be released")
  | .other a =>
    if a.isOther = true ∧ ∀ id ∈ s.reservationLocks,
        (s.ledger.step a).reservation id = s.ledger.reservation id then
      ({ s with ledger := s.ledger.step a }, none)
    else (s, some t)

/-- A call runs its next statement, or its transaction is rolled back. -/
def run (s : AttemptStore) (t : AttemptTask) : AttemptReply → AttemptStore × Option AttemptTask
  | .lost => (s.unlock t, none)
  | .next now => s.proceed now t

end AttemptStore

/-- The calls of the workers. -/
def attemptProgram : Program AttemptStore AttemptTask AttemptRequest AttemptReply where
  start
    | .call c => .called c
    | .other a => .other a
  run := AttemptStore.run

end CommerceCollector
