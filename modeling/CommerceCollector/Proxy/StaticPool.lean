import CommerceCollector.Proxy.RoutedTransport
import Mathlib.Data.PNat.Basic
import Mathlib.Logic.Function.Basic

/-!
# The static proxy pool

`StaticProxyPool` of `static.py`.  Neither lock of the pool is held across an await, so that every
operation is one step.  A lease refers to its usage, and a rotation hands the usage of the old lease
to the new one.

The clock and the states of `InMemoryProxyHealth` decide which routes are available: `available` is
the answer that they give to an operation.  The attempts are the record of what was authorized; no
code reads them.
-/

namespace CommerceCollector

open Relational

/-- `ProxyKind`. -/
inductive ProxyKind
  | residential | mobile | datacenter
  deriving DecidableEq, Repr

/-- `ProxyEndpoint`, as far as the pool selects by it. -/
structure ProxyEndpoint where
  provider : String
  endpointId : String
  kind : ProxyKind
  countries : List String := []
  deriving DecidableEq, Repr

/-- `StaticRoute`. -/
structure StaticRoute where
  endpoint : ProxyEndpoint
  weight : ℕ+ := 1
  deriving DecidableEq, Repr

/-- The identity of a route. -/
def StaticRoute.key (r : StaticRoute) : String × String :=
  (r.endpoint.provider, r.endpoint.endpointId)

/-- `ProxyRequest`, with all that the static pool reads. -/
structure StaticProxyRequest where
  targetHost : String
  kind : ProxyKind := .residential
  country : Option String := none
  region : Option String := none
  city : Option String := none
  sessionTtlSeconds : Option ℕ+ := none
  maximumRequests : Option ℕ+ := none
  maximumBytes : Option ℕ+ := none
  preferredProviders : List String := []
  excludedProviders : List String := []
  deriving DecidableEq, Repr

/-- `_StaticProxyUsage`; `authorizations` is the dictionary of the estimates. -/
structure StaticProxyUsage where
  maximumRequests : Option ℕ+
  maximumBytes : Option ℕ+
  requests : ℤ := 0
  usedBytes : ℤ := 0
  reservedBytes : ℤ := 0
  nextAuthorizationId : ℕ := 0
  authorizations : List (ℕ × ℤ) := []
  deriving DecidableEq, Repr

/-- `StaticProxyLease`; `usage` is the number of its usage. -/
structure StaticProxyLease where
  leaseId : ℕ
  provider : String
  route : ProxyEndpoint
  request : StaticProxyRequest
  usage : ℕ
  maximumBytes : Option ℕ+
  deriving DecidableEq, Repr

/-- `_StaticProxyAuthorization`. -/
structure StaticProxyAuthorization where
  usage : ℕ
  authorizationId : ℕ
  deriving DecidableEq, Repr

/-- What an operation raises. -/
inductive StaticPoolError
  /-- `static proxy routes cannot prove requested constraints`. -/
  | unsupported (names : List String)
  /-- `no healthy proxy route satisfies the request`. -/
  | noRoute
  /-- `proxy lease is not active`. -/
  | notActive
  /-- `estimated_bytes must be non-negative`. -/
  | negativeEstimate
  /-- `proxy attempt authorization already resolved`. -/
  | alreadyResolved
  /-- `ProxyBudgetExhausted`. -/
  | budgetExhausted (maximumRequests maximumBytes : Option ℕ+) (usedRequests usedBytes : ℤ)
  deriving DecidableEq, Repr

/-- What has become of an authorized attempt. -/
inductive AttemptFate
  | pending
  | reconciled (outcome : ProxyOutcome)
  | released
  deriving DecidableEq, Repr

/-- The record of an authorized attempt. -/
structure StaticAttempt where
  token : StaticProxyAuthorization
  estimatedBytes : ℕ
  fate : AttemptFate := .pending
  deriving DecidableEq, Repr

/-- The answer of the health to a route and a target. -/
abbrev Available := String → String → String → Bool

/-- `StaticProxyPool`; the leases are those that are active, and `usages` is how many usages there
are. -/
structure StaticProxyPool where
  routes : List StaticRoute
  counter : ℕ := 1
  routingScores : List (List (String × String) × List ((String × String) × ℤ)) := []
  leases : List StaticProxyLease := []
  usages : ℕ := 0
  usage : ℕ → StaticProxyUsage := fun _ => { maximumRequests := none, maximumBytes := none }
  attempts : List StaticAttempt := []

namespace StaticProxyPool

/-! ## The choice of a route -/

/-- `_eligible`. -/
def eligible (available : Available) (request : StaticProxyRequest) (route : StaticRoute) : Bool :=
  !request.excludedProviders.contains route.endpoint.provider &&
    route.endpoint.kind == request.kind &&
    (match request.country with
      | none => true
      | some country => route.endpoint.countries.isEmpty || route.endpoint.countries.contains country) &&
    available route.endpoint.provider route.endpoint.endpointId request.targetHost

/-- `_preferred_tier`. -/
def preferredTier (candidates : List StaticRoute) : List String → List StaticRoute
  | [] => candidates
  | provider :: providers =>
    let preferred := candidates.filter fun route => route.endpoint.provider == provider
    if preferred = [] then preferredTier candidates providers else preferred

/-- The first candidate with the highest score. -/
def best (scored : StaticRoute × ℤ) : List (StaticRoute × ℤ) → StaticRoute × ℤ
  | [] => scored
  | next :: rest => if scored.2 < next.2 then best next rest else best scored rest

/-- `_select_weighted`. -/
def selectWeighted (s : StaticProxyPool) (first : StaticRoute) (rest : List StaticRoute) :
    StaticProxyPool × StaticRoute :=
  let candidates := first :: rest
  let signature := candidates.map StaticRoute.key
  let scores := (s.routingScores.lookup signature).getD (signature.map fun key => (key, 0))
  let scored := candidates.map fun route =>
    (route, (scores.lookup route.key).getD 0 + (route.weight : ℕ))
  let totalWeight := (candidates.map fun route => (route.weight : ℕ)).sum
  let selected := (best (first, (scores.lookup first.key).getD 0 + (first.weight : ℕ)) scored.tail).1
  let scores' := scored.map fun entry =>
    (entry.1.key, if entry.1.key = selected.key then entry.2 - (totalWeight : ℤ) else entry.2)
  ({ s with
      routingScores := (signature, scores') :: s.routingScores.filter fun entry => entry.1 != signature },
    selected)

/-! ## Leases -/

/-- The constraints that static routes cannot prove. -/
def unsupported (request : StaticProxyRequest) : List String :=
  (if request.region.isSome then ["region"] else []) ++
    (if request.city.isSome then ["city"] else []) ++
    (if request.sessionTtlSeconds.isSome then ["session_ttl_seconds"] else [])

/-- A lease with a usage of its own is entered. -/
def enter (s : StaticProxyPool) (request : StaticProxyRequest) (selected : StaticRoute) :
    StaticProxyPool × StaticProxyLease :=
  let lease : StaticProxyLease :=
    { leaseId := s.counter
      provider := selected.endpoint.provider
      route := selected.endpoint
      request
      usage := s.usages
      maximumBytes := request.maximumBytes }
  ({ s with
      counter := s.counter + 1
      leases := s.leases ++ [lease]
      usages := s.usages + 1
      usage := Function.update s.usage s.usages
        { maximumRequests := request.maximumRequests, maximumBytes := request.maximumBytes } },
    lease)

/-- `acquire`. -/
def acquire (s : StaticProxyPool) (request : StaticProxyRequest) (available : Available) :
    StaticProxyPool × Except StaticPoolError StaticProxyLease :=
  if unsupported request ≠ [] then (s, .error (.unsupported (unsupported request)))
  else
    let candidates := s.routes.filter (eligible available request)
    match preferredTier candidates request.preferredProviders with
    | [] => (s, .error .noRoute)
    | first :: rest =>
      let chosen := s.selectWeighted first rest
      let entered := chosen.1.enter request chosen.2
      (entered.1, .ok entered.2)

/-- `_owned`. -/
def owned (s : StaticProxyPool) (leaseId : ℕ) : Option StaticProxyLease :=
  s.leases.find? fun lease => lease.leaseId == leaseId

/-- `release`. -/
def release (s : StaticProxyPool) (leaseId : ℕ) : StaticProxyPool :=
  { s with leases := s.leases.filter fun lease => lease.leaseId != leaseId }

/-- The replacement takes over a usage. -/
def handUsage (s : StaticProxyPool) (leaseId usage : ℕ) : StaticProxyPool :=
  { s with
    leases := update (fun lease => lease.leaseId == leaseId) (fun lease => { lease with usage })
      s.leases }

/-- `rotate`. -/
def rotate (s : StaticProxyPool) (leaseId : ℕ) (available : Available) :
    StaticProxyPool × Except StaticPoolError StaticProxyLease :=
  match s.owned leaseId with
  | none => (s, .error .notActive)
  | some current =>
    match (s.release leaseId).acquire current.request available with
    | (s', .error e) => (s', .error e)
    | (s', .ok replacement) =>
      (s'.handUsage replacement.leaseId current.usage,
        .ok { replacement with usage := current.usage })

/-! ## Attempts -/

/-- The usage has no room for another attempt. -/
def exhausted (usage : StaticProxyUsage) (estimatedBytes : ℤ) : Prop :=
  (∃ m ∈ usage.maximumRequests, (m : ℤ) ≤ usage.requests) ∨
    ∃ m ∈ usage.maximumBytes, (m : ℤ) < usage.usedBytes + usage.reservedBytes + estimatedBytes

instance (usage : StaticProxyUsage) (estimatedBytes : ℤ) :
    Decidable (exhausted usage estimatedBytes) :=
  inferInstanceAs (Decidable ((∃ m ∈ usage.maximumRequests, (m : ℤ) ≤ usage.requests) ∨
    ∃ m ∈ usage.maximumBytes, (m : ℤ) < usage.usedBytes + usage.reservedBytes + estimatedBytes))

/-- An attempt is entered. -/
def grant (s : StaticProxyPool) (u : ℕ) (estimatedBytes : ℤ) : StaticProxyPool :=
  let usage := s.usage u
  { s with
    usage := Function.update s.usage u { usage with
      nextAuthorizationId := usage.nextAuthorizationId + 1
      requests := usage.requests + 1
      reservedBytes := usage.reservedBytes + estimatedBytes
      authorizations := usage.authorizations ++ [(usage.nextAuthorizationId, estimatedBytes)] }
    attempts := s.attempts ++
      [{ token := ⟨u, usage.nextAuthorizationId⟩, estimatedBytes := estimatedBytes.toNat }] }

/-- `authorize`. -/
def authorize (s : StaticProxyPool) (leaseId : ℕ) (estimatedBytes : ℤ) :
    StaticProxyPool × Except StaticPoolError (Option StaticProxyAuthorization) :=
  if estimatedBytes < 0 then (s, .error .negativeEstimate)
  else
    match s.owned leaseId with
    | none => (s, .error .notActive)
    | some current =>
      if exhausted (s.usage current.usage) estimatedBytes then (s, .ok none)
      else
        (s.grant current.usage estimatedBytes,
          .ok (some ⟨current.usage, (s.usage current.usage).nextAuthorizationId⟩))

/-- An attempt is resolved. -/
def resolve (s : StaticProxyPool) (token : StaticProxyAuthorization) (usage : StaticProxyUsage)
    (fate : AttemptFate) : StaticProxyPool :=
  { s with
    usage := Function.update s.usage token.usage
      { usage with
        authorizations := usage.authorizations.filter fun entry => entry.1 != token.authorizationId }
    attempts := update (fun attempt => attempt.token == token) (fun attempt => { attempt with fate })
      s.attempts }

/-- The usage exceeds a cap. -/
def overspent (usage : StaticProxyUsage) : Prop :=
  (∃ m ∈ usage.maximumRequests, (m : ℤ) < usage.requests) ∨
    ∃ m ∈ usage.maximumBytes, (m : ℤ) < usage.usedBytes

instance (usage : StaticProxyUsage) : Decidable (overspent usage) :=
  inferInstanceAs (Decidable ((∃ m ∈ usage.maximumRequests, (m : ℤ) < usage.requests) ∨
    ∃ m ∈ usage.maximumBytes, (m : ℤ) < usage.usedBytes))

/-- `reconcile` of an authorization. -/
def reconcile (s : StaticProxyPool) (token : StaticProxyAuthorization) (outcome : ProxyOutcome) :
    StaticProxyPool × Except StaticPoolError Unit :=
  let usage := s.usage token.usage
  match usage.authorizations.lookup token.authorizationId with
  | none => (s, .error .alreadyResolved)
  | some estimatedBytes =>
    let usage' := { usage with
      reservedBytes := usage.reservedBytes - estimatedBytes
      requests := usage.requests + (outcome.physicalRequests - 1)
      usedBytes := usage.usedBytes + (outcome.transmittedBytes + outcome.receivedBytes) }
    (s.resolve token usage' (.reconciled outcome),
      if overspent usage' then
        .error (.budgetExhausted usage'.maximumRequests usage'.maximumBytes usage'.requests
          usage'.usedBytes)
      else .ok ())

/-- `release` of an authorization. -/
def releaseAttempt (s : StaticProxyPool) (token : StaticProxyAuthorization) :
    StaticProxyPool × Except StaticPoolError Unit :=
  let usage := s.usage token.usage
  match usage.authorizations.lookup token.authorizationId with
  | none => (s, .error .alreadyResolved)
  | some estimatedBytes =>
    (s.resolve token
      { usage with
        requests := usage.requests - 1
        reservedBytes := usage.reservedBytes - estimatedBytes } .released, .ok ())

/-! ## Runs -/

/-- An operation of the pool.  The outcome of an attempt is the one that the routed transport makes
of the accounting of its backend. -/
inductive Op
  | acquire (request : StaticProxyRequest) (available : Available)
  | rotate (leaseId : ℕ) (available : Available)
  | release (leaseId : ℕ)
  | authorize (leaseId : ℕ) (estimatedBytes : ℤ)
  | reconcile (token : StaticProxyAuthorization) (r : RoutedRequest)
    (accounting : Option TransportAccounting) (receivedBytes : ℕ) (classification : String)
    (status : Option ℤ)
  | releaseAttempt (token : StaticProxyAuthorization)

/-- The pool after an operation. -/
def step (config : RoutingConfig) (s : StaticProxyPool) : Op → StaticProxyPool
  | .acquire request available => (s.acquire request available).1
  | .rotate leaseId available => (s.rotate leaseId available).1
  | .release leaseId => s.release leaseId
  | .authorize leaseId estimatedBytes => (s.authorize leaseId estimatedBytes).1
  | .reconcile token r accounting receivedBytes classification status =>
    (s.reconcile token (RoutedTransport.attemptOutcome config
      (RoutedTransport.attemptAccounting r accounting receivedBytes) classification status)).1
  | .releaseAttempt token => (s.releaseAttempt token).1

/-- The pool after a run. -/
def after (config : RoutingConfig) (routes : List StaticRoute) (ops : List Op) : StaticProxyPool :=
  Trace.exec (step config) { routes } ops

end StaticProxyPool

end CommerceCollector
