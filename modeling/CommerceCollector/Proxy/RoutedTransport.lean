import CommerceCollector.Proxy.ReservedPool

/-!
# Routing over one sticky proxy lease, await by await

`RoutedTransport` of `transport.py`, used by any number of tasks.  A call under way is a
`RoutedTask`: the await at which it is suspended.  The pool, the transports and the factory answer
as they like, and a task may be cancelled at every await.

The lock of `_state_changed` is never held across an await other than its own `wait`, so entering it
does not suspend: what a call does between two awaits is one step.  A task that waits for the
condition may be resumed at any time and looks again.  A shielded check-in runs as a task of its
own: when its caller is cancelled, it is left behind.

Leases are numbered in the order in which the pool returns them; `lease` stands for the lease that
the transport owns together with the proxy transport that is built for it.  The lists record what
was called: they are read by no code.
-/

namespace CommerceCollector

open Relational Tasks

/-- `ProxyMode`. -/
inductive ProxyMode
  | never | always | fallback | failover | roundRobin
  deriving DecidableEq, Repr

/-- `RotationReason`. -/
inductive RotationReason
  | explicit | blocked | rateLimited | captcha | transportFailure | sessionExpired | budgetExhausted
  deriving DecidableEq, Repr

/-- `TransportAccounting`. -/
structure TransportAccounting where
  physicalRequests : ℕ := 1
  transmittedBytes : ℕ := 0
  receivedBytes : ℕ := 0
  deriving DecidableEq, Repr

/-- The policy and the target of the transport. -/
structure RoutingConfig where
  mode : ProxyMode
  targetHost : String
  deriving DecidableEq, Repr

/-- What the transport reads of a request; `ownsBrowserAuthorization` says that the browser
transport authorizes its requests one by one. -/
structure RoutedRequest where
  transmittedBytes : ℕ
  ownsBrowserAuthorization : Bool := false
  deriving DecidableEq, Repr

/-- What a call raises. -/
inductive RoutedError
  | cancelled
  | closed
  | budgetExhausted
  | transportFailure
  | bodyTooLarge
  | other
  deriving DecidableEq, Repr

/-- A call of the transport.  A rotation that a failed attempt asks for carries the generation on
which the attempt was dispatched, if it was dispatched on a lease. -/
inductive RoutedCall
  | request (r : RoutedRequest)
  | rotateIdentity (reason : RotationReason) (observed : Option ℕ)
  | aclose
  deriving DecidableEq, Repr

/-- How a call ends; `generation` is the one on which a request was dispatched. -/
inductive RoutedResult
  | response (status : ℕ) (generation : Option ℕ)
  | failed (error : RoutedError) (generation : Option ℕ)
  | done
  deriving DecidableEq, Repr

/-- `_CheckedOutRoute`, with a number of its own. -/
structure CheckedOutRoute where
  id : ℕ
  generation : ℕ
  lease : ℕ
  deriving DecidableEq, Repr

/-- What has become of a route that was checked out: whether the pool has authorized an attempt on
it and the attempt was dispatched, the outcomes with which the authorization was reconciled, how
often it was released, and how often the route was checked in. -/
structure ProxyAttempt where
  route : CheckedOutRoute
  authorized : Bool := false
  dispatched : Bool := false
  reconciled : List ProxyOutcome := []
  released : ℕ := 0
  checkedIn : ℕ := 0
  deriving DecidableEq, Repr

/-- A call of the pool's `rotate`; `observed` is the generation on which the failure that asked for
it was observed. -/
structure PoolRotation where
  lease : ℕ
  generation : ℕ
  reason : RotationReason
  observed : Option ℕ
  deriving DecidableEq, Repr

/-- Who wants a route. -/
inductive RouteUser
  | request (r : RoutedRequest)
  | rotation
  deriving DecidableEq, Repr

/-- The await at which a call is suspended. -/
inductive RoutedTask
  /-- The call has not begun. -/
  | called (c : RoutedCall)
  /-- The direct transport's `request`. -/
  | direct
  /-- `_rotate_identity` waits for the end of a transition. -/
  | rotationWait (reason : RotationReason) (observed : Option ℕ)
  /-- `_checkout_proxy_route` waits. -/
  | routeWait (user : RouteUser)
  /-- `_replace_route`: the pool's `acquire`. -/
  | acquiring (user : RouteUser)
  /-- `_replace_route`: the old proxy transport is closed. -/
  | closingOld (user : RouteUser) (old : ℕ) (rotation : PoolRotation)
  /-- `_replace_route`: the pool's `rotate`. -/
  | rotating (user : RouteUser) (old : ℕ)
  /-- `_replace_route`: a lease is released before an error is raised. -/
  | dropping (user : RouteUser) (lease : ℕ) (error : RoutedError)
  /-- The pool's `authorize`. -/
  | authorizing (r : RoutedRequest) (route : CheckedOutRoute)
  /-- The proxy transport's `request`. -/
  | dispatched (r : RoutedRequest) (route : CheckedOutRoute) (authorized : Bool)
  /-- `_report`: the pool's `report`. -/
  | reporting (r : RoutedRequest) (route : CheckedOutRoute) (authorized : Bool)
    (outcome : ProxyOutcome) (result : RoutedResult)
  /-- The authorization is reconciled or released, shielded. -/
  | resolving (route : CheckedOutRoute) (result : RoutedResult)
  /-- The route is checked in, shielded. -/
  | checkingIn (route : CheckedOutRoute) (result : RoutedResult)
  /-- The check-in is done, and the call goes on. -/
  | returning (result : RoutedResult)
  /-- A check-in whose call was cancelled. -/
  | leftCheckIn (route : CheckedOutRoute)
  /-- `aclose` waits for the transition and the active requests to end. -/
  | closeWait
  /-- `aclose`: the proxy transport is closed. -/
  | closingProxy (lease : ℕ)
  /-- `aclose`: the pool's `release`. -/
  | releasing (lease : ℕ) (error : Option RoutedError)
  deriving DecidableEq, Repr

/-- What a call that is awaited returns: whether the pool authorizes, whether the factory then
builds a transport for the lease, and the response. -/
structure RoutedAnswer where
  authorized : Bool := true
  built : Bool := true
  status : ℕ := 200
  contentBytes : ℕ := 0
  accounting : Option TransportAccounting := none
  deriving DecidableEq, Repr

/-- How an await ends; the accounting of an error is the one that it carries. -/
inductive RoutedReply
  | cancelled (accounting : Option TransportAccounting)
  | raised (error : RoutedError) (receivedBytes : ℕ) (accounting : Option TransportAccounting)
  | returned (answer : RoutedAnswer)
  deriving DecidableEq, Repr

/-- How a call goes on: to another await, to its end, or to its end with a task left behind. -/
inductive RoutedNext
  | goOn (t : RoutedTask)
  | ended (result : RoutedResult)
  | endedLeaving (result : RoutedResult) (t : RoutedTask)
  deriving DecidableEq, Repr

/-- The task that is left. -/
def RoutedNext.task : RoutedNext → Option RoutedTask
  | goOn t | endedLeaving _ t => some t
  | ended _ => none

/-- The transport with the history of its calls. -/
structure RoutedTransport where
  lease : Option ℕ := none
  pendingRotation : Option RotationReason := none
  active : ℤ := 0
  transitioning : Bool := false
  generation : ℕ := 0
  closed : Bool := false
  /-- The generation on which the failure behind `pendingRotation` was observed. -/
  pendingObserved : Option ℕ := none
  /-- How many leases the pool has returned. -/
  leases : ℕ := 0
  attempts : List ProxyAttempt := []
  rotations : List PoolRotation := []
  /-- The leases for which the pool's `rotate` has returned another one. -/
  replaced : List ℕ := []
  /-- The leases that were given to the pool's `release`. -/
  released : List ℕ := []
  deriving DecidableEq, Repr

namespace RoutedReply

/-- What the call raises, if it does not return. -/
def error? : RoutedReply → Option RoutedError
  | cancelled _ => some .cancelled
  | raised e _ _ => some e
  | returned _ => none

end RoutedReply

namespace RoutedTransport

variable (config : RoutingConfig)

/-! ## Accounting -/

/-- `_attempt_accounting`. -/
def attemptAccounting (r : RoutedRequest) (accounting : Option TransportAccounting)
    (receivedBytes : ℕ) : TransportAccounting :=
  match accounting with
  | some a =>
    { physicalRequests := max 1 a.physicalRequests
      transmittedBytes := max r.transmittedBytes a.transmittedBytes
      receivedBytes := max receivedBytes a.receivedBytes }
  | none =>
    { physicalRequests := 1, transmittedBytes := r.transmittedBytes, receivedBytes }

/-- The outcome of an attempt. -/
def attemptOutcome (a : TransportAccounting) (classification : String)
    (status : Option ℤ) : ProxyOutcome :=
  { targetHost := config.targetHost
    status
    physicalRequests := a.physicalRequests
    transmittedBytes := a.transmittedBytes
    receivedBytes := a.receivedBytes
    classification }

/-- The classification of a response. -/
def classification (status : ℕ) : String :=
  if status = 403 then "blocked"
  else if status = 429 then "rate_limited"
  else if status < 400 then "success"
  else "http_error"

/-! ## Writes of the history -/

/-- The history of a checked out route is rewritten. -/
def record (s : RoutedTransport) (route : CheckedOutRoute) (f : ProxyAttempt → ProxyAttempt) :
    RoutedTransport :=
  { s with attempts := update (fun a => a.route.id == route.id) f s.attempts }

/-- The pool's `release` is called. -/
def release (s : RoutedTransport) (lease : ℕ) : RoutedTransport :=
  { s with released := lease :: s.released }

/-! ## The transition -/

/-- The next await of a task that has a route. -/
def useRoute (s : RoutedTransport) (user : RouteUser) (route : CheckedOutRoute) :
    RoutedTransport × RoutedNext :=
  match user with
  | .rotation => (s, .goOn (.checkingIn route .done))
  | .request r =>
    if r.ownsBrowserAuthorization = true then
      (s.record route fun a => { a with dispatched := true },
        .goOn (.dispatched r route false))
    else (s, .goOn (.authorizing r route))

/-- `_checkout_proxy_route`, up to the next await. -/
def checkoutRoute (s : RoutedTransport) (user : RouteUser) : RoutedTransport × RoutedNext :=
  if s.closed = true then (s, .ended (.failed .closed none))
  else if s.transitioning = true then (s, .goOn (.routeWait user))
  else
    match s.lease, s.pendingRotation with
    | some lease, none =>
      let route : CheckedOutRoute := ⟨s.attempts.length, s.generation, lease⟩
      useRoute { s with active := s.active + 1, attempts := s.attempts ++ [{ route }] } user route
    | old, reason =>
      if s.active ≠ 0 then (s, .goOn (.routeWait user))
      else
        let s' := { s with
          transitioning := true, lease := none, pendingRotation := none, pendingObserved := none }
        match old with
        | none => (s', .goOn (.acquiring user))
        | some lease =>
          (s', .goOn (.closingOld user lease
            ⟨lease, s.generation, reason.getD .explicit, s.pendingObserved⟩))

/-- A transition fails. -/
def failTransition (s : RoutedTransport) (error : RoutedError) : RoutedTransport × RoutedNext :=
  ({ s with transitioning := false }, .ended (.failed error none))

/-- The pool has returned a lease, for which a transport is built. -/
def install (s : RoutedTransport) (user : RouteUser) (built : Bool) :
    RoutedTransport × RoutedNext :=
  let lease := s.leases
  let s' := { s with leases := s.leases + 1 }
  if built = true then
    checkoutRoute
      { s' with lease := some lease, generation := s.generation + 1, transitioning := false } user
  else (s'.release lease, .goOn (.dropping user lease .other))

/-! ## The calls -/

/-- `_schedule_rotation`, of an attempt that was dispatched on a generation. -/
def scheduleRotation (s : RoutedTransport) (reason : RotationReason) (generation : ℕ) :
    RoutedTransport :=
  if s.closed = true ∨ s.transitioning = true then s
  else if generation ≠ s.generation then s
  else
    match s.pendingRotation with
    | none => { s with pendingRotation := some reason, pendingObserved := some generation }
    | some _ => s

/-- `_rotate_identity`, when no transition is under way. -/
def requestRotation (s : RoutedTransport) (reason : RotationReason) (observed : Option ℕ) :
    RoutedTransport × RoutedNext :=
  match s.pendingRotation with
  | none =>
    checkoutRoute { s with pendingRotation := some reason, pendingObserved := observed } .rotation
  | some _ => checkoutRoute s .rotation

/-- `aclose`, when it looks at the state. -/
def closeRoute (s : RoutedTransport) : RoutedTransport × RoutedNext :=
  if s.transitioning = true ∨ s.active ≠ 0 then (s, .goOn .closeWait)
  else
    match s.lease with
    -- Without a lease there is nothing to await before the flag is reset.
    | none => (s, .ended .done)
    | some lease => ({ s with transitioning := true, lease := none }, .goOn (.closingProxy lease))

/-- A call begins. -/
def begin (s : RoutedTransport) : RoutedCall → RoutedTransport × RoutedNext
  | .request r =>
    if s.closed = true then (s, .ended (.failed .closed none))
    else if config.mode = .never then (s, .goOn .direct)
    else if config.mode = .fallback ∧ s.lease = none ∧ s.pendingRotation = none ∧
        s.transitioning = false then (s, .goOn .direct)
    else checkoutRoute s (.request r)
  | .rotateIdentity reason observed =>
    if s.closed = true then (s, .ended (.failed .closed none))
    else if s.transitioning = true then (s, .goOn (.rotationWait reason observed))
    else requestRotation s reason observed
  | .aclose =>
    if s.closed = true then (s, .ended .done) else closeRoute { s with closed := true }

/-- The `finally` of an attempt: its authorization is resolved, if it has one. -/
def settleAttempt (s : RoutedTransport) (route : CheckedOutRoute) (authorized dispatched : Bool)
    (outcome : ProxyOutcome) (result : RoutedResult) : RoutedTransport × RoutedNext :=
  if authorized = true then
    if dispatched = true then
      (s.record route fun a => { a with reconciled := outcome :: a.reconciled },
        .goOn (.resolving route result))
    else
      (s.record route fun a => { a with released := a.released + 1 }, .goOn (.resolving route result))
  else (s, .goOn (.checkingIn route result))

/-- The proxy transport has answered. -/
def answered (s : RoutedTransport) (r : RoutedRequest) (route : CheckedOutRoute)
    (authorized : Bool) (reply : RoutedReply) : RoutedTransport × RoutedNext :=
  let failed := fun e => RoutedResult.failed e (some route.generation)
  match reply with
  | .cancelled accounting =>
    settleAttempt s route authorized true
      (attemptOutcome config (attemptAccounting r accounting 0) "cancelled" none)
      (failed .cancelled)
  | .raised .bodyTooLarge received accounting =>
    (s, .goOn (.reporting r route authorized
      (attemptOutcome config (attemptAccounting r accounting received) "response_body_too_large"
        none) (failed .bodyTooLarge)))
  | .raised .transportFailure _ accounting =>
    (s, .goOn (.reporting r route authorized
      (attemptOutcome config (attemptAccounting r accounting 0) "transport_failure" none)
      (failed .transportFailure)))
  | .raised e _ _ =>
    settleAttempt s route authorized true
      (attemptOutcome config (attemptAccounting r none 0) "backend_failure" none) (failed e)
  | .returned answer =>
    (s, .goOn (.reporting r route authorized
      (attemptOutcome config (attemptAccounting r answer.accounting answer.contentBytes)
        (classification answer.status) (some answer.status))
      (.response answer.status (some route.generation))))

/-- What follows a report in failover mode: `_schedule_rotation` after a transport failure and
`_remember_blocked_route` after a response. -/
def afterReport (s : RoutedTransport) (route : CheckedOutRoute) (result : RoutedResult) :
    RoutedTransport :=
  if config.mode = .failover then
    match result with
    | .failed .transportFailure _ => s.scheduleRotation .transportFailure route.generation
    | .response 403 _ => s.scheduleRotation .blocked route.generation
    | .response 429 _ => s.scheduleRotation .rateLimited route.generation
    | _ => s
  else s

/-- `_checkin_proxy_route`. -/
def checkIn (s : RoutedTransport) (route : CheckedOutRoute) : RoutedTransport :=
  { s.record route (fun a => { a with checkedIn := a.checkedIn + 1 }) with active := s.active - 1 }

/-- A call goes on to its next await. -/
def run (s : RoutedTransport) (t : RoutedTask) (reply : RoutedReply) :
    RoutedTransport × RoutedNext :=
  match t with
  | .called c =>
    match reply with
    | .cancelled _ => (s, .ended (.failed .cancelled none))
    | _ => begin config s c
  | .direct =>
    match reply with
    | .returned answer => (s, .ended (.response answer.status none))
    | .cancelled _ => (s, .ended (.failed .cancelled none))
    | .raised e _ _ => (s, .ended (.failed e none))
  | .rotationWait reason observed =>
    match reply with
    | .cancelled _ => (s, .ended (.failed .cancelled none))
    | _ =>
      if s.closed = true then (s, .ended (.failed .closed none))
      else if s.transitioning = true then (s, .goOn t)
      else if s.lease.isSome = true then (s, .ended .done)
      else requestRotation s reason observed
  | .routeWait user =>
    match reply with
    | .cancelled _ => (s, .ended (.failed .cancelled none))
    | _ => checkoutRoute s user
  | .acquiring user =>
    match reply with
    | .cancelled _ => s.failTransition .cancelled
    | .raised e _ _ => s.failTransition e
    | .returned answer => s.install user answer.built
  | .closingOld user old rotation =>
    match reply with
    | .cancelled _ => (s.release old, .goOn (.dropping user old .cancelled))
    | .raised e _ _ => (s.release old, .goOn (.dropping user old e))
    | .returned _ =>
      ({ s with rotations := s.rotations ++ [rotation] }, .goOn (.rotating user old))
  | .rotating user old =>
    match reply with
    | .cancelled _ => (s.release old, .goOn (.dropping user old .cancelled))
    | .raised e _ _ => (s.release old, .goOn (.dropping user old e))
    | .returned answer =>
      { s with replaced := old :: s.replaced }.install user answer.built
  | .dropping _ _ error =>
    match reply with
    | .cancelled _ => s.failTransition .cancelled
    | _ => s.failTransition error
  | .authorizing r route =>
    match reply with
    | .cancelled _ => (s, .goOn (.checkingIn route (.failed .cancelled none)))
    | .raised e _ _ => (s, .goOn (.checkingIn route (.failed e none)))
    | .returned answer =>
      if answer.authorized = true then
        (s.record route fun a => { a with authorized := true, dispatched := true },
          .goOn (.dispatched r route true))
      else (s, .goOn (.checkingIn route (.failed .budgetExhausted none)))
  | .dispatched r route authorized => answered config s r route authorized reply
  | .reporting _ route authorized outcome result =>
    match reply with
    | .cancelled _ =>
      settleAttempt s route authorized true outcome (.failed .cancelled (some route.generation))
    | .raised e _ _ =>
      settleAttempt s route authorized true outcome (.failed e (some route.generation))
    | .returned _ =>
      settleAttempt (afterReport config s route result) route authorized true outcome result
  | .resolving route result =>
    match reply with
    | .cancelled _ =>
      (s, .goOn (.checkingIn route (.failed .cancelled (some route.generation))))
    | .raised e _ _ => (s, .goOn (.checkingIn route (.failed e (some route.generation))))
    | .returned _ => (s, .goOn (.checkingIn route result))
  | .checkingIn route result =>
    match reply with
    | .cancelled _ => (s, .endedLeaving (.failed .cancelled none) (.leftCheckIn route))
    | _ => (s.checkIn route, .goOn (.returning result))
  | .returning result =>
    match reply with
    | .cancelled _ => (s, .ended (.failed .cancelled none))
    | _ => (s, .ended result)
  | .leftCheckIn route => (s.checkIn route, .ended .done)
  | .closeWait =>
    match reply with
    | .cancelled _ => (s, .ended (.failed .cancelled none))
    | _ => s.closeRoute
  | .closingProxy lease => (s.release lease, .goOn (.releasing lease reply.error?))
  | .releasing _ error =>
    ({ s with transitioning := false },
      .ended (((reply.error?.or error).map fun e => .failed e none).getD .done))

end RoutedTransport

/-- The calls of the transport. -/
def routedProgram (config : RoutingConfig) :
    Program RoutedTransport RoutedTask RoutedCall RoutedReply where
  start := .called
  run s t reply := ((s.run config t reply).1, (s.run config t reply).2.task)

/-- The transport after a run, from its creation. -/
def routedAfter (config : RoutingConfig) (turns : List (Turn RoutedCall RoutedReply)) :
    Pool RoutedTransport RoutedTask :=
  (routedProgram config).after ⟨{}, []⟩ turns

end CommerceCollector
