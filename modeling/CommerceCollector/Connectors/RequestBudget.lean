import CommerceCollector.Foundation.Reserves

/-!
# Planning requests

`RequestBudget` of `pipeline/budget.py` and `RequestGate.claim` of `connectors/budget.py`: a claim
of requests and bytes at one of five priorities, which is allowed, downgraded to its alternative,
deferred or denied.  A dictionary over the priorities is a function of them.

A claim is funded only if it leaves free what the higher priorities have not spent of their
reserves. It also has to leave free its own future reserve, which no reserve of its priority is set
against.
-/

namespace CommerceCollector

/-- The classes of requests. -/
inductive RequestPriority
  | discovery
  | identity
  | datasetRequired
  | detail
  | optional
  deriving DecidableEq, Repr

/-- The values of the classes. -/
def RequestPriority.value : RequestPriority → ℕ
  | .discovery => 1
  | .identity => 2
  | .datasetRequired => 3
  | .detail => 4
  | .optional => 5

instance : LinearOrder RequestPriority :=
  LinearOrder.lift' RequestPriority.value fun p q h => by cases p <;> cases q <;> first | rfl | cases h

instance : Fintype RequestPriority where
  elems := {.discovery, .identity, .datasetRequired, .detail, .optional}
  complete p := by cases p <;> decide

/-- The answers to a claim. -/
inductive BudgetDecision
  | allow
  | downgrade
  | defer
  | deny
  deriving DecidableEq, Repr

/-- What a call raises. -/
inductive BudgetError
  /-- The `ValidationError` of a model. -/
  | validation
  | valueError (message : String)
  | assertion
  deriving DecidableEq, Repr

/-- A number of requests of each kind and of bytes. -/
@[ext]
structure RequestCost where
  httpRequests : ℕ := 0
  browserRequests : ℕ := 0
  proxyBytes : ℕ := 0
  deriving DecidableEq, Repr

namespace RequestCost

/-- `ZERO_COST`. -/
instance : Zero RequestCost := ⟨{}⟩

/-- `__add__`. -/
instance : Add RequestCost where
  add cost other :=
    { httpRequests := cost.httpRequests + other.httpRequests
      browserRequests := cost.browserRequests + other.browserRequests
      proxyBytes := cost.proxyBytes + other.proxyBytes }

/-- `exceeds`. -/
def exceeds (cost limit : RequestCost) : Bool :=
  decide (limit.httpRequests < cost.httpRequests) ||
    (decide (limit.browserRequests < cost.browserRequests) ||
      decide (limit.proxyBytes < cost.proxyBytes))

/-- `RequestCost(...)` of integers, which are validated. -/
def ofInts (http browser bytes : ℤ) : Except BudgetError RequestCost :=
  if 0 ≤ http ∧ 0 ≤ browser ∧ 0 ≤ bytes then
    .ok { httpRequests := http.toNat, browserRequests := browser.toNat, proxyBytes := bytes.toNat }
  else .error .validation

/-- `max(0, self - other)` in each component. -/
def less (cost other : RequestCost) : RequestCost where
  httpRequests := cost.httpRequests - other.httpRequests
  browserRequests := cost.browserRequests - other.browserRequests
  proxyBytes := cost.proxyBytes - other.proxyBytes

instance : AddCommMonoid RequestCost where
  add_assoc a b c := RequestCost.ext (Nat.add_assoc ..) (Nat.add_assoc ..) (Nat.add_assoc ..)
  zero_add a := RequestCost.ext (Nat.zero_add _) (Nat.zero_add _) (Nat.zero_add _)
  add_zero a := rfl
  add_comm a b := RequestCost.ext (Nat.add_comm ..) (Nat.add_comm ..) (Nat.add_comm ..)
  nsmul := nsmulRec

end RequestCost

/-- The arguments of `claim`. -/
structure BudgetClaim where
  priority : RequestPriority
  cost : RequestCost
  required : Bool
  alternative : Option RequestCost := none
  futureReserve : Option RequestCost := none
  deriving DecidableEq, Repr

/-- The planning budget of a job. -/
structure RequestBudget where
  limit : RequestCost
  reserves : RequestPriority → Option RequestCost
  ceilings : RequestPriority → Option RequestCost
  used : RequestCost
  usedByPriority : RequestPriority → Option RequestCost

namespace RequestBudget

/-- `RequestBudget(limit, reserves=..., ceilings=...)`. -/
def new (limit : RequestCost) (reserves ceilings : RequestPriority → Option RequestCost) :
    RequestBudget where
  limit
  reserves
  ceilings
  used := 0
  usedByPriority := fun _ => none

/-- `used_by_priority.get(priority, ZERO_COST)`. -/
def usedBy (budget : RequestBudget) (priority : RequestPriority) : RequestCost :=
  (budget.usedByPriority priority).getD 0

/-- What a priority has not spent of its reserve; it may have none. -/
def unspent (budget : RequestBudget) (priority : RequestPriority) : RequestCost :=
  match budget.reserves priority with
  | none => 0
  | some reserve => reserve.less (budget.usedBy priority)

/-- The sum over the reserves of the higher priorities. -/
def protectedCost (budget : RequestBudget) (priority : RequestPriority) : RequestCost :=
  ∑ q with q < priority, budget.unspent q

/-- `_allows`. -/
def allows (budget : RequestBudget) (priority : RequestPriority) (cost : RequestCost)
    (futureReserve : Option RequestCost) : Except BudgetError Bool :=
  let nextTotal := match futureReserve with
    | none => budget.used + cost
    | some reserve => budget.used + cost + reserve
  if nextTotal.exceeds budget.limit then .ok false
  else if (budget.ceilings priority).any (budget.usedBy priority + cost).exceeds then .ok false
  else do
    let remaining ← RequestCost.ofInts (budget.limit.httpRequests - nextTotal.httpRequests)
      (budget.limit.browserRequests - nextTotal.browserRequests)
      (budget.limit.proxyBytes - nextTotal.proxyBytes)
    return !(budget.protectedCost priority).exceeds remaining

/-- `decide`. -/
def decision (budget : RequestBudget) (claim : BudgetClaim) : Except BudgetError BudgetDecision := do
  let refusal := if claim.required then .deny else .defer
  if ← budget.allows claim.priority claim.cost claim.futureReserve then return .allow
  match claim.alternative with
  | none => return refusal
  | some alternative =>
    if ← budget.allows claim.priority alternative claim.futureReserve then return .downgrade
    return refusal

/-- `consume`. -/
def consume (budget : RequestBudget) (priority : RequestPriority) (actual : RequestCost) :
    Except BudgetError RequestBudget :=
  let nextTotal := budget.used + actual
  let usedForPriority := budget.usedBy priority
  if nextTotal.exceeds budget.limit then
    .error (.valueError "measured request usage exceeds the job hard limit")
  else if (budget.ceilings priority).any (usedForPriority + actual).exceeds then
    .error (.valueError "measured request usage exceeds the priority ceiling")
  else .ok { budget with
    used := nextTotal
    usedByPriority := Function.update budget.usedByPriority priority (some (usedForPriority + actual)) }

end RequestBudget

/-- The gate of the connectors to a budget, if one is configured. -/
structure RequestGate where
  budget : Option RequestBudget

namespace RequestGate

/-- `claim`. -/
def claim (gate : RequestGate) (args : BudgetClaim) :
    Except BudgetError (BudgetDecision × RequestGate) :=
  match gate.budget with
  | none => .ok (.allow, gate)
  | some budget => do
    let decision ← budget.decision args
    match decision with
    | .allow => return (decision, ⟨← budget.consume args.priority args.cost⟩)
    | .downgrade =>
      match args.alternative with
      | none => .error .assertion
      | some alternative => return (decision, ⟨← budget.consume args.priority alternative⟩)
    | .defer => return (decision, gate)
    | .deny => return (decision, gate)

/-- One claim after the other. -/
def claims (gate : RequestGate) : List BudgetClaim → Except BudgetError (List BudgetDecision × RequestGate)
  | [] => .ok ([], gate)
  | args :: rest => do
    let (decision, gate) ← gate.claim args
    let (decisions, gate) ← gate.claims rest
    return (decision :: decisions, gate)

end RequestGate

end CommerceCollector
