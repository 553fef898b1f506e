import CommerceCollector.Foundation.Table
import CommerceCollector.Foundation.Tasks
import Mathlib.Logic.Function.Basic

/-!
# The transport middleware, await by await

`MiddlewareTransport.request` of `middleware.py` with `MemoryRequestBudget` of `base.py` and
`PerOriginRateLimiter` of `rate_limit.py`, used by any number of tasks.  A call under way is a
`TransportTask`: the await at which it is suspended.  The robots policy, the cache and the backend
answer as they like, and a task may be cancelled at every await.

The lock of the budget and the pacing lock of an origin are never held across an await, and the
release of a permit awaits nothing: the `finally` of an attempt is part of one step, and so is the
authorization of the next one.  Whether the pacing of an origin makes a request sleep is the answer
of the clock.  The list of attempts is the record of what was called; no code reads it.
-/

namespace CommerceCollector

open Relational Tasks

/-- `MemoryRequestBudget`; `authorizations` is the dictionary of the estimates. -/
structure MemoryRequestBudget where
  maximumRequests : Option ℤ := none
  maximumBytes : Option ℤ := none
  requests : ℤ := 0
  bytes : ℤ := 0
  reservedBytes : ℤ := 0
  nextAuthorizationId : ℕ := 0
  authorizations : List (ℕ × ℕ) := []
  deriving DecidableEq, Repr

namespace MemoryRequestBudget

/-- `affordable`. -/
def affordable (b : MemoryRequestBudget) (estimatedBytes : ℕ) : Prop :=
  (∀ m ∈ b.maximumRequests, b.requests < m) ∧
    ∀ m ∈ b.maximumBytes, b.bytes + b.reservedBytes + estimatedBytes ≤ m

instance (b : MemoryRequestBudget) (estimatedBytes : ℕ) : Decidable (b.affordable estimatedBytes) :=
  inferInstanceAs (Decidable ((∀ m ∈ b.maximumRequests, b.requests < m) ∧
    ∀ m ∈ b.maximumBytes, b.bytes + b.reservedBytes + estimatedBytes ≤ m))

/-- `authorize`; nothing, if the budget cannot authorize another attempt. -/
def authorize (b : MemoryRequestBudget) (estimatedBytes : ℕ) : Option (MemoryRequestBudget × ℕ) :=
  if b.affordable estimatedBytes then
    some ({ b with
      nextAuthorizationId := b.nextAuthorizationId + 1
      requests := b.requests + 1
      reservedBytes := b.reservedBytes + estimatedBytes
      authorizations := b.authorizations ++ [(b.nextAuthorizationId, estimatedBytes)] },
      b.nextAuthorizationId)
  else none

/-- An authorization is taken out of the dictionary. -/
def pop (b : MemoryRequestBudget) (authorizationId : ℕ) : List (ℕ × ℕ) :=
  b.authorizations.filter fun entry => entry.1 != authorizationId

/-- `_reconcile`; nothing, if it raises `budget authorization already reconciled`. -/
def reconcile (b : MemoryRequestBudget) (authorizationId responseBytes : ℕ) :
    Option MemoryRequestBudget :=
  (b.authorizations.lookup authorizationId).map fun (estimatedBytes : ℕ) =>
    { b with
      authorizations := b.pop authorizationId
      reservedBytes := b.reservedBytes - estimatedBytes
      bytes := b.bytes + responseBytes }

/-- `_release`; nothing, if it raises `budget authorization already resolved`. -/
def release (b : MemoryRequestBudget) (authorizationId : ℕ) : Option MemoryRequestBudget :=
  (b.authorizations.lookup authorizationId).map fun (estimatedBytes : ℕ) =>
    { b with
      authorizations := b.pop authorizationId
      requests := b.requests - 1
      reservedBytes := b.reservedBytes - estimatedBytes }

end MemoryRequestBudget

/-- The key of an origin: its scheme, its host and its port. -/
abbrev Origin := String × String × ℕ

/-- What the middleware reads of a `TransportRequest`; `reusable` says that it is a `GET` without a
browser. -/
structure MiddlewareInput where
  origin : Origin
  estimatedBytes : ℕ := 0
  robots : Bool := false
  cached : Bool := true
  reusable : Bool := true
  deriving DecidableEq, Repr

/-- How the middleware is built; `concurrency` is that of the rate limiter, if there is one. -/
structure MiddlewareConfig where
  retries : ℕ
  robots : Bool := false
  cache : Bool := false
  staleOnError : Bool := false
  concurrency : Option ℕ := none
  maximumResponseBytes : ℕ
  deriving DecidableEq, Repr

/-- A call under way; `stale` says that the cache has a stale response to it. -/
structure TransportCall where
  id : ℕ
  input : MiddlewareInput
  stale : Bool := false
  deriving DecidableEq, Repr

/-- What has become of an attempt: the authorization of the budget, whether the backend was called,
how often the authorization was reconciled and released, how often a permit was acquired and
released, and whether its `finally` is done. -/
structure TransportAttempt where
  id : ℕ
  call : ℕ
  origin : Origin
  estimatedBytes : ℕ
  authorization : Option ℕ
  dispatched : Bool := false
  reconciled : List ℕ := []
  released : ℕ := 0
  permits : ℕ := 0
  permitsReleased : ℕ := 0
  settled : Bool := false
  deriving DecidableEq, Repr

/-- The await at which a call is suspended. -/
inductive TransportTask
  /-- The call has not begun. -/
  | called (input : MiddlewareInput)
  /-- The robots policy. -/
  | robots (c : TransportCall)
  /-- The cache is read. -/
  | lookup (c : TransportCall)
  /-- The semaphore of the rate limiter. -/
  | permit (c : TransportCall) (attempt id : ℕ)
  /-- The rate limiter sleeps. -/
  | pacing (c : TransportCall) (attempt id : ℕ)
  /-- The backend's `request`. -/
  | dispatched (c : TransportCall) (attempt id : ℕ)
  /-- The backend's `rotate_identity`. -/
  | rotating (c : TransportCall) (attempt : ℕ)
  /-- `sleep`. -/
  | sleeping (c : TransportCall) (attempt : ℕ)
  /-- The cache is written. -/
  | caching (c : TransportCall)
  deriving DecidableEq, Repr

/-- How the backend's `request` ends. -/
inductive BackendReply
  | response (status contentBytes : ℕ)
  | bodyTooLarge (receivedBytes : ℕ)
  | transportFailure
  | failure
  deriving DecidableEq, Repr

/-- How an await ends; an answer says whether the robots policy allows the request, what the cache
has, whether the pacing sleeps, and how the backend ends. -/
inductive TransportReply
  | cancelled
  | raised
  | returned (allowed : Bool := true) (hit : Bool := false) (stale : Option ℕ := none)
    (sleeps : Bool := false) (backend : BackendReply := .failure)
  deriving DecidableEq, Repr

/-- The budget and the permits of the rate limiter, with the record of the attempts. -/
structure MiddlewareTransport where
  budget : Option MemoryRequestBudget := none
  held : Origin → ℕ := fun _ => 0
  calls : ℕ := 0
  attempts : List TransportAttempt := []

namespace MiddlewareTransport

variable (config : MiddlewareConfig)

/-- The record of an attempt is rewritten. -/
def record (s : MiddlewareTransport) (id : ℕ) (f : TransportAttempt → TransportAttempt) :
    MiddlewareTransport :=
  { s with attempts := update (fun a => a.id == id) f s.attempts }

/-! ## The rate limiter -/

/-- `wait` acquires the permit of the origin. -/
def takePermit (s : MiddlewareTransport) (origin : Origin) (id : ℕ) : MiddlewareTransport :=
  { s.record id (fun a => { a with permits := a.permits + 1 }) with
    held := Function.update s.held origin (s.held origin + 1) }

/-- The permit of the origin is released. -/
def givePermit (s : MiddlewareTransport) (origin : Origin) (id : ℕ) : MiddlewareTransport :=
  { s.record id (fun a => { a with permitsReleased := a.permitsReleased + 1 }) with
    held := Function.update s.held origin (s.held origin - 1) }

/-! ## The `finally` of an attempt -/

/-- The permit is released, if it was acquired; nothing, if the semaphore raises. -/
def settlePermit (s : MiddlewareTransport) (c : TransportCall) (id : ℕ) (acquired : Bool) :
    Option MiddlewareTransport :=
  if acquired = true then
    if s.held c.input.origin = 0 then none else some (s.givePermit c.input.origin id)
  else some s

/-- The authorization is reconciled or released; nothing, if the budget raises. -/
def settleBudget (s : MiddlewareTransport) (id : ℕ) (authorization : Option ℕ) (dispatched : Bool)
    (responseBytes : ℕ) : Option MiddlewareTransport :=
  match s.budget, authorization with
  | some b, some authorizationId =>
    if dispatched = true then
      (b.reconcile authorizationId responseBytes).map fun b' =>
        { s.record id (fun a => { a with reconciled := responseBytes :: a.reconciled }) with
          budget := some b' }
    else
      (b.release authorizationId).map fun b' =>
        { s.record id (fun a => { a with released := a.released + 1 }) with budget := some b' }
  | _, _ => some s

/-- The `finally` block, and whether it raises. -/
def finish (s : MiddlewareTransport) (c : TransportCall) (id : ℕ) (acquired dispatched : Bool)
    (responseBytes : ℕ) : MiddlewareTransport × Bool :=
  let authorization := (s.attempts.find? fun a => a.id == id).bind TransportAttempt.authorization
  let permit := s.settlePermit c id acquired
  let s₁ := permit.getD s
  let budget := s₁.settleBudget id authorization dispatched responseBytes
  ((budget.getD s₁).record id (fun a => { a with settled := true }),
    permit.isNone || budget.isNone)

/-! ## The loop -/

/-- The backend is called. -/
def dispatch (s : MiddlewareTransport) (c : TransportCall) (attempt id : ℕ) :
    MiddlewareTransport × Option TransportTask :=
  (s.record id (fun a => { a with dispatched := true }), some (.dispatched c attempt id))

/-- An attempt begins, with its authorization. -/
def enter (s : MiddlewareTransport) (c : TransportCall) (attempt : ℕ) (authorization : Option ℕ) :
    MiddlewareTransport × Option TransportTask :=
  let id := s.attempts.length
  let s' := { s with attempts := s.attempts ++
    [{ id, call := c.id, origin := c.input.origin, estimatedBytes := c.input.estimatedBytes,
       authorization }] }
  match config.concurrency with
  | some _ => (s', some (.permit c attempt id))
  | none => s'.dispatch c attempt id

/-- The budget authorizes an attempt, or the call ends. -/
def beginAttempt (s : MiddlewareTransport) (c : TransportCall) (attempt : ℕ) :
    MiddlewareTransport × Option TransportTask :=
  match s.budget with
  | none => s.enter config c attempt none
  | some b =>
    match b.authorize c.input.estimatedBytes with
    | none => (s, none)
    | some (b', id) => { s with budget := some b' }.enter config c attempt (some id)

/-- `_can_use_stale`. -/
def canUseStale (c : TransportCall) (status : Option ℕ) : Bool :=
  config.staleOnError && c.stale && c.input.reusable &&
    match status with
    | none => true
    | some status => [408, 425, 429].contains status || 500 ≤ status

/-- What follows a response. -/
def afterResponse (s : MiddlewareTransport) (c : TransportCall) (attempt status : ℕ) :
    MiddlewareTransport × Option TransportTask :=
  if status = 304 ∧ c.stale = true then (s, if config.cache = true then some (.caching c) else none)
  else if ¬[403, 429, 500, 502, 503, 504].contains status ∨ attempt = config.retries then
    (s, if config.cache = true ∧ status < 400 then some (.caching c) else none)
  else if [403, 429].contains status ∧ canUseStale config c (some status) = false then
    (s, some (.rotating c attempt))
  else (s, some (.sleeping c attempt))

/-- What follows a transport failure. -/
def afterFailure (s : MiddlewareTransport) (c : TransportCall) (attempt : ℕ) :
    MiddlewareTransport × Option TransportTask :=
  if attempt = config.retries then (s, none)
  else if canUseStale config c none = false then (s, some (.rotating c attempt))
  else (s, some (.sleeping c attempt))

/-- The backend has answered. -/
def answered (s : MiddlewareTransport) (c : TransportCall) (attempt id : ℕ) (reply : BackendReply) :
    MiddlewareTransport × Option TransportTask :=
  let acquired := config.concurrency.isSome
  match reply with
  | .response status contentBytes =>
    let done := s.finish c id acquired true contentBytes
    if done.2 = true ∨ config.maximumResponseBytes < contentBytes then (done.1, none)
    else done.1.afterResponse config c attempt status
  | .bodyTooLarge receivedBytes => ((s.finish c id acquired true receivedBytes).1, none)
  | .transportFailure =>
    let done := s.finish c id acquired true 0
    if done.2 = true then (done.1, none) else done.1.afterFailure config c attempt
  | .failure => ((s.finish c id acquired true 0).1, none)

/-- The cache is read, or the loop begins. -/
def afterRobots (s : MiddlewareTransport) (c : TransportCall) :
    MiddlewareTransport × Option TransportTask :=
  if config.cache = true ∧ c.input.cached = true then (s, some (.lookup c))
  else s.beginAttempt config c 0

/-- A call goes on to its next await. -/
def run (s : MiddlewareTransport) (t : TransportTask) (reply : TransportReply) :
    MiddlewareTransport × Option TransportTask :=
  match t with
  | .called input =>
    let c : TransportCall := { id := s.calls, input }
    let s' := { s with calls := s.calls + 1 }
    match reply with
    | .cancelled => (s, none)
    | _ =>
      if config.robots = true ∧ input.robots = false then (s', some (.robots c))
      else s'.afterRobots config c
  | .robots c =>
    match reply with
    | .returned allowed _ _ _ _ => if allowed = true then s.afterRobots config c else (s, none)
    | _ => (s, none)
  | .lookup c =>
    match reply with
    | .returned _ hit stale _ _ =>
      -- A cached body that is too large raises, and so does a stale one.
      if hit = true then (s, none)
      else
        match stale with
        | none => s.beginAttempt config c 0
        | some contentBytes =>
          if config.maximumResponseBytes < contentBytes then (s, none)
          else s.beginAttempt config { c with stale := true } 0
    | _ => (s, none)
  | .permit c attempt id =>
    match reply with
    | .returned _ _ _ sleeps _ =>
      if s.held c.input.origin < config.concurrency.getD 0 then
        let s' := s.takePermit c.input.origin id
        if sleeps = true then (s', some (.pacing c attempt id)) else s'.dispatch c attempt id
      else (s, some t)
    | _ => ((s.finish c id false false 0).1, none)
  | .pacing c attempt id =>
    match reply with
    | .returned _ _ _ _ _ => s.dispatch c attempt id
    | _ => (((s.givePermit c.input.origin id).finish c id false false 0).1, none)
  | .dispatched c attempt id =>
    match reply with
    | .returned _ _ _ _ backend => s.answered config c attempt id backend
    | _ => s.answered config c attempt id .failure
  | .rotating c attempt =>
    match reply with
    | .returned _ _ _ _ _ => (s, some (.sleeping c attempt))
    | _ => (s, none)
  | .sleeping c attempt =>
    match reply with
    | .returned _ _ _ _ _ => s.beginAttempt config c (attempt + 1)
    | _ => (s, none)
  | .caching _ => (s, none)

end MiddlewareTransport

/-- The calls of the middleware. -/
def transportProgram (config : MiddlewareConfig) :
    Program MiddlewareTransport TransportTask MiddlewareInput TransportReply where
  start := .called
  run := MiddlewareTransport.run config

/-- The middleware after a run, from its creation with a budget. -/
def transportAfter (config : MiddlewareConfig) (budget : Option (Option ℤ × Option ℤ))
    (turns : List (Turn MiddlewareInput TransportReply)) : Pool MiddlewareTransport TransportTask :=
  (transportProgram config).after
    ⟨{ budget := budget.map fun caps => { maximumRequests := caps.1, maximumBytes := caps.2 } }, []⟩
    turns

end CommerceCollector
