import CommerceCollector.Foundation.Scripts
import CommerceCollector.Proxy.Profiles

/-!
# Mutations with idempotency keys

`begin_mutation` and `finish_mutation` of `proxy_control.py`, and the requests that use them:
`create_profile`, `profile_action`, `_blue_green_rotation`, `kill_switch` and `reconcile_action` of
`proxy_api.py`.

A request is a script.  It asks for the row of its key (`insertRequest`, `selectRequest`, `finish`),
for calls of the provider and of the secret store, and for the other statements; it ends with a
response, or fails by an exception that it does not catch.  Only the rows of
`catalogue.proxy_mutation_requests` are kept: what the other statements find is as arbitrary as what
the provider answers.  The checks of the actor and of the deployment, and those of the path, come
before the scripts.
-/

namespace CommerceCollector

open Scripts Tasks

namespace Mutations

/-! ## Rows -/

/-- `proxy_mutation_requests_state_check`. -/
inductive MutationState
  | started | succeeded | failed | ambiguous | providerChangedLocalFailed
  deriving DecidableEq, Repr

/-- A value of a response. -/
inductive Field
  | text (s : String)
  | number (n : ℤ)
  | flag (b : Bool)
  | row (columns : List (String × Option String))
  deriving DecidableEq, Repr

/-- A JSON object. -/
abbrev Payload := List (String × Field)

/-- A row of `catalogue.proxy_mutation_requests`. -/
structure MutationRow where
  operationId : ℕ
  actor : String
  action : String
  idempotencyKey : String
  state : MutationState := .started
  responseStatus : Option ℕ := none
  responseData : Option Payload := none
  deriving DecidableEq, Repr

/-- `Mutation`. -/
structure Mutation where
  operationId : ℕ
  replayStatus : Option ℕ := none
  replayData : Payload := []

/-- What a request answers: `problem` or `payload`. -/
inductive Response
  | problem (status : ℕ) (title detail : String)
  | payload (data : Payload) (status : ℕ)
  deriving DecidableEq, Repr

/-! ## Questions -/

/-- The row of a profile with its allocation, as `profile_action` reads it. -/
structure ActionProfile where
  logicalName : String
  providerResourceId : Option String
  allocatedBytes : Option ℤ := none
  providerTrafficLimitBytes : Option ℤ := none
  deriving DecidableEq, Repr

/-- The active cycle with its allocations, as far as a request reads them. -/
structure CapacityRow where
  operationalBytes : ℤ
  unmanagedAllocationBytes : ℤ
  other : ℤ := 0
  deriving DecidableEq, Repr

/-- What became of a call of the provider: `localError` is an `OSError`, a `RuntimeError`, a
`TypeError` or a `ValueError` that is no `ProviderError`. -/
inductive CallReply
  | ok
  | providerError (code message : String) (ambiguous : Bool)
  | localError
  deriving DecidableEq, Repr

/-- What became of `reconcile_now`. -/
inductive ReconcileReply
  | reported (totalBytes : ℕ)
  | providerError (message : String)
  | runtimeError (message : String)
  deriving DecidableEq, Repr

/-- What a request asks for.  `install` is `ProfileSecretStore.install` with what it reads before,
`statement` is a statement whose rows are not read. -/
inductive Question
  | profile
  | active
  | capacity
  | number
  | row
  | returning
  | statement
  | call
  | install
  | reconcile
  | insertRequest (action key : String)
  | selectRequest (action key : String)
  | finish (operationId status : ℕ) (data : Payload) (state : MutationState)
  deriving DecidableEq, Repr

/-- The replies.  `install` replies with the generation, unless it raised an `OSError`, a
`RuntimeError`, a `TypeError` or a `ValueError`. -/
@[reducible] def Question.Reply : Question → Type
  | .profile => Option ActionProfile
  | .active => ℕ
  | .capacity => Option CapacityRow
  | .number => Option ℤ
  | .row => List (String × Option String)
  | .returning => Bool
  | .statement => Unit
  | .call => CallReply
  | .install => Option ℕ
  | .reconcile => ReconcileReply
  | .insertRequest _ _ => Option ℕ
  | .selectRequest _ _ => Option MutationRow
  | .finish _ _ _ _ => Unit

/-- A request, or a part of one. -/
abbrev Handler (α : Type) := Script Question Question.Reply α

/-- A question by itself. -/
def await (q : Question) : Handler (Question.Reply q) := Script.query q

@[simp] theorem await_bind {α : Type} (q : Question) (f : Question.Reply q → Handler α) :
    (await q >>= f) = Script.ask q f := rfl

/-! ## The bookkeeping -/

/-- `begin_mutation`: the mutation, or the text of a `ValueError` or a `RuntimeError`. -/
def beginMutation (action : String) (key : Option String) : Handler (Except String Mutation) :=
  match key with
  | none => pure (.error "Idempotency-Key is required and must be at most 200 characters")
  | some key =>
    if key = "" ∨ 200 < key.length then
      pure (.error "Idempotency-Key is required and must be at most 200 characters")
    else do
      match ← await (.insertRequest action key) with
      | some operationId =>
        let _ ← await .statement
        pure (.ok { operationId })
      | none =>
        match ← await (.selectRequest action key) with
        | none => pure (.error "the idempotent operation is still in progress or ambiguous")
        | some row =>
          if row.state = .started then
            pure (.error "the idempotent operation is still in progress or ambiguous")
          else pure (.ok ⟨row.operationId, row.responseStatus, row.responseData.getD []⟩)

/-- The opening of every request: a conflict, a replay, or the work of an operation. -/
def withMutation (action : String) (key : Option String) (work : ℕ → Handler Response) :
    Handler Response := do
  match ← beginMutation action key with
  | .error message => pure (.problem 409 "Idempotency conflict" message)
  | .ok mutation =>
    if mutation.replayStatus.getD 0 ≠ 0 then
      pure (.payload mutation.replayData (mutation.replayStatus.getD 0))
    else work mutation.operationId

/-- `finish_mutation`, with the statement of its audit row. -/
def finishMutation (operationId status : ℕ) (data : Payload) (state : MutationState) :
    Handler Unit := do
  let _ ← await (.finish operationId status data state)
  await .statement

/-- `finish_mutation` in a transaction, which ends with it: the others see the row when the
transaction has ended. -/
def finishInside (operationId status : ℕ) (data : Payload) (state : MutationState) :
    Handler Unit := do
  let _ ← await .statement
  await (.finish operationId status data state)

/-- `mutation_problem`. -/
def mutationProblem (operationId status : ℕ) (title detail code : String)
    (state : MutationState := .failed) : Handler Response := do
  finishMutation operationId status [("error", .text code)] state
  pure (.problem status title detail)

/-- `mutation_problem` in a transaction. -/
def problemInside (operationId status : ℕ) (title detail code : String) : Handler Response := do
  finishInside operationId status [("error", .text code)] .failed
  pure (.problem status title detail)

/-- `mutation_payload`. -/
def mutationPayload (operationId : ℕ) (data : Payload) : Handler Response := do
  finishMutation operationId 202 data .succeeded
  pure (.payload data 202)

/-- The state of an operation whose call failed. -/
def callState (ambiguous : Bool) : MutationState := if ambiguous = true then .ambiguous else .failed

/-- `label`. -/
def providerLabel (name : String) : String :=
  if name = "decodo" then "Decodo Residential"
  else if name = "iproyal" then "IPRoyal Residential"
  else if name = "webshare" then "Webshare"
  else if name = "proxyscrape" then "ProxyScrape Residential"
  else name

/-! ## Creating a profile -/

/-- The body of `create_profile`. -/
structure CreateBody where
  logicalName : String
  allocatedBytes : ℤ
  providerTrafficLimitBytes : ℤ
  confirmation : Option String
  deriving DecidableEq, Repr

/-- `create_profile` after its call of the provider has succeeded. -/
def createInstall (operationId : ℕ) : Handler Response := do
  match ← await .install with
  | none =>
    let data := [("error", .text "provider_changed_local_failed"),
      ("operation_id", .text (toString operationId))]
    let _ ← await .statement
    let _ ← await .statement
    finishMutation operationId 500 data .providerChangedLocalFailed
    pure (.payload data 500)
  | some _ =>
    let row ← await .row
    let data := [("profile", .row row), ("operation_id", .text (toString operationId))]
    finishMutation operationId 201 data .succeeded
    let _ ← await .statement
    pure (.payload data 201)

/-- `create_profile` once it has committed the pending profile. -/
def createCall (operationId : ℕ) : Handler Response := do
  match ← await .call with
  | .localError => .fail
  | .providerError code _ ambiguous =>
    let data := [("error", .text code), ("operation_id", .text (toString operationId))]
    if ambiguous = false then
      let _ ← await .statement
      let _ ← await .statement
      finishMutation operationId 502 data (callState ambiguous)
      pure (.payload data 502)
    else
      finishMutation operationId 502 data (callState ambiguous)
      pure (.payload data 502)
  | .ok => createInstall operationId

/-- `create_profile` after it has begun. -/
def createWork (body : CreateBody) (operationId : ℕ) : Handler Response := do
  let _ ← await .statement
  match ← await .capacity with
  | none =>
    finishInside operationId 409
      [("error", .text "no_active_cycle"), ("operation_id", .text (toString operationId))] .failed
    pure (.problem 409 "No active cycle" "open and reconcile a billing cycle first")
  | some cycle =>
    let allocated ← await .number
    if cycle.operationalBytes <
        allocated.getD 0 + body.allocatedBytes + cycle.unmanagedAllocationBytes then
      finishInside operationId 409
        [("error", .text "allocation_exhausted"), ("operation_id", .text (toString operationId))]
        .failed
      pure (.problem 409 "Allocation exhausted" "profile allocation exceeds operational capacity")
    else
      let _ ← await .statement
      let _ ← await .statement
      createCall operationId

/-- `create_profile`.  No body is one that raises a `KeyError`, a `TypeError` or a `ValueError`. -/
def createProfile (provider : String) (spec : ProviderSpec) (key : Option String)
    (body : Option CreateBody) : Handler Response :=
  if spec.canProvisionSubusers = false then
    pure (.problem 409 "Profile provisioning unsupported"
      (providerLabel provider ++ " does not support caller-chosen proxy credentials"))
  else
    match body with
    | none => pure (.problem 422 "Invalid profile" "profile name and allocation are required")
    | some body =>
      if body.confirmation ≠ some ("CREATE " ++ body.logicalName) then
        pure (.problem 422 "Confirmation required"
          ("confirmation must equal 'CREATE " ++ body.logicalName ++ "'"))
      else if validLogicalName body.logicalName = false then
        pure (.problem 422 "Invalid profile"
          "logical name must use lower-case letters, numbers, _ or -")
      else if body.allocatedBytes ≤ 0 ∨ body.providerTrafficLimitBytes ≤ 0 ∨
          body.allocatedBytes < body.providerTrafficLimitBytes then
        pure (.problem 422 "Invalid profile" "provider limit must fit a positive allocation")
      else withMutation "profile.create" key (createWork body)

/-! ## Changing a profile -/

/-- `repr` of a text; the characters outside of ASCII are taken as printable. -/
def reprText (s : String) : String :=
  let quote : Char := if s.contains (Char.ofNat 39) && !s.contains '"' then '"' else Char.ofNat 39
  let char (c : Char) : List Char :=
    if c = quote ∨ c = '\\' then ['\\', c]
    else if c = '\n' then ['\\', 'n']
    else if c = '\r' then ['\\', 'r']
    else if c = '\t' then ['\\', 't']
    else if c.toNat < 32 ∨ c.toNat = 127 then
      ['\\', 'x', Nat.digitChar (c.toNat / 16), Nat.digitChar (c.toNat % 16)]
    else [c]
  String.ofList (quote :: s.toList.flatMap char ++ [quote])

/-- `mode` of a body: a text, another value that a set can be asked for, or a list or an object. -/
inductive ModeField
  | text (s : String)
  | hashable
  | unhashable
  deriving DecidableEq, Repr

/-- A number of a body: its text in a confirmation, and what `int` makes of it unless it raises. -/
structure NumberField where
  text : String
  value : Option ℤ
  deriving DecidableEq, Repr

/-- The body of `profile_action`. -/
structure ActionBody where
  confirmation : Option String := none
  mode : ModeField := .text "drain"
  providerTrafficLimitBytes : NumberField := ⟨"None", some 0⟩
  allocatedBytes : NumberField := ⟨"None", some (-1)⟩
  deriving DecidableEq, Repr

/-- What `profile_action` works on. -/
structure ActionTarget where
  provider : String
  spec : ProviderSpec
  profileId : String
  profile : ActionProfile
  deriving DecidableEq, Repr

/-- `expected_confirmation`. -/
def expectedConfirmation (action : String) (body : ActionBody) (logicalName : String) :
    Option String :=
  if action = "rotate" then some ("ROTATE " ++ logicalName)
  else if action = "disable" then some ("DISABLE " ++ logicalName)
  else if action = "limit" then
    some ("SET LIMIT " ++ body.providerTrafficLimitBytes.text ++ " FOR " ++ logicalName)
  else if action = "allocation" then
    some ("SET ALLOCATION " ++ body.allocatedBytes.text ++ " FOR " ++ logicalName)
  else none

/-- A change of the provider that the secret store or the row of the profile did not follow, with
`_credential_install_failure`. -/
def localFailure (operationId : ℕ) (detail : String) : Handler Response := do
  let _ ← await .statement
  let _ ← await .statement
  mutationProblem operationId 500 "Rotation failed" detail "provider_changed_local_failed"
    .providerChangedLocalFailed

/-- The rotation of a profile that has no active reservation. -/
def drainRotation (t : ActionTarget) (operationId : ℕ) : Handler Response := do
  match ← await .call with
  | .providerError code message ambiguous =>
    mutationProblem operationId 502 "Rotation failed" message code (callState ambiguous)
  | .localError => localFailure operationId "provider changed but local install failed"
  | .ok =>
    match ← await .install with
    | none => localFailure operationId "provider changed but local install failed"
    | some _ =>
      let _ ← await .statement
      mutationPayload operationId
        [("profile_id", .text t.profileId), ("rotation", .text "completed")]

/-- `_blue_green_rotation` once its retirement is committed. -/
def blueGreenCall (t : ActionTarget) (active operationId : ℕ) : Handler Response := do
  match ← await .call with
  | .providerError code message ambiguous =>
    let _ ← await .statement
    mutationProblem operationId 502 "Rotation failed" message code (callState ambiguous)
  | .localError =>
    let _ ← await .statement
    localFailure operationId "replacement exists but local install failed"
  | .ok =>
    match ← await .install with
    | none =>
      let _ ← await .statement
      localFailure operationId "replacement exists but local install failed"
    | some _ =>
      let _ ← await .statement
      let _ ← await .statement
      mutationPayload operationId [("profile_id", .text t.profileId),
        ("rotation", .text "draining_old_generation"), ("active", .number active)]

/-- `_blue_green_rotation`. -/
def blueGreenRotation (t : ActionTarget) (active operationId : ℕ) : Handler Response := do
  let minimum := min (t.profile.allocatedBytes.getD 0) 25000000
  let _ ← await .statement
  let spare ← await .number
  if spare.any (minimum ≤ ·) = false then
    problemInside operationId 409 "Rotation capacity unavailable"
      "blue-green rotation needs spare provider allocation" "rotation_capacity_unavailable"
  else
    let _ ← await .statement
    blueGreenCall t active operationId

/-- The action `rotate`. -/
def rotateAction (t : ActionTarget) (body : ActionBody) (active operationId : ℕ) :
    Handler Response :=
  match body.mode with
  -- a list or an object is asked for in a set, which raises a `TypeError`
  | .unhashable => .fail
  | .hashable =>
    mutationProblem operationId 422 "Invalid rotation" "mode must be drain or blue-green"
      "invalid_rotation"
  | .text mode =>
    if mode = "drain" then
      if active ≠ 0 then do
        let _ ← await .statement
        mutationPayload operationId
          [("profile_id", .text t.profileId), ("rotation", .text "draining")]
      else drainRotation t operationId
    else if mode = "blue-green" then
      if t.spec.hasSubuserStatus = false then
        mutationProblem operationId 409 "Blue-green rotation unsupported"
          (providerLabel t.provider ++ " cannot disable the retired provider profile")
          "provider_status_unsupported"
      else blueGreenRotation t active operationId
    else
      mutationProblem operationId 422 "Invalid rotation" "mode must be drain or blue-green"
        "invalid_rotation"

/-- The action `disable`. -/
def disableAction (t : ActionTarget) (active operationId : ℕ) : Handler Response := do
  let _ ← await .statement
  let _ ← await .statement
  if active ≠ 0 then
    mutationPayload operationId
      [("profile_id", .text t.profileId), ("state", .text "draining")]
  else
    match ← await .call with
    | .localError => .fail
    | .providerError code message ambiguous =>
      mutationProblem operationId 502 "Provider disable failed" message code (callState ambiguous)
    | .ok =>
      let _ ← await .statement
      mutationPayload operationId
        [("profile_id", .text t.profileId), ("state", .text "disabled")]

/-- The action `limit`. -/
def limitAction (t : ActionTarget) (body : ActionBody) (operationId : ℕ) : Handler Response :=
  match body.providerTrafficLimitBytes.value with
  | none => .fail
  | some limit =>
    if limit ≤ 0 ∨ t.profile.allocatedBytes.any (limit ≤ ·) = false then
      mutationProblem operationId 422 "Invalid limit" "provider limit must fit the active allocation"
        "invalid_limit"
    else do
      match ← await .call with
      | .localError => .fail
      | .providerError code message ambiguous =>
        mutationProblem operationId 502 "Provider update failed" message code (callState ambiguous)
      | .ok =>
        let _ ← await .statement
        mutationPayload operationId
          [("profile_id", .text t.profileId), ("provider_traffic_limit_bytes", .number limit)]

/-- The action `allocation`. -/
def allocationAction (t : ActionTarget) (body : ActionBody) (active operationId : ℕ) :
    Handler Response :=
  match body.allocatedBytes.value with
  | none => .fail
  | some allocation =>
    if allocation < 0 ∨ allocation < t.profile.providerTrafficLimitBytes.getD 0 then
      mutationProblem operationId 422 "Invalid allocation" "allocation cannot be below provider limit"
        "invalid_allocation"
    else if active ≠ 0 ∧ allocation < t.profile.allocatedBytes.getD 0 then
      mutationProblem operationId 409 "Profile active"
        "drain reservations before lowering allocation" "profile_active"
    else do
      let _ ← await .statement
      let capacity ← await .capacity
      if capacity.any (fun c => c.other + c.unmanagedAllocationBytes + allocation ≤
          c.operationalBytes) = false then
        problemInside operationId 409 "Allocation exhausted" "allocation exceeds operational capacity"
          "allocation_exhausted"
      else
        let _ ← await .statement
        mutationPayload operationId
          [("profile_id", .text t.profileId), ("allocated_bytes", .number allocation)]

/-- `profile_action` once the reservations of the profile are counted. -/
def countedAction (t : ActionTarget) (action : String) (body : ActionBody) (active operationId : ℕ) :
    Handler Response :=
  match expectedConfirmation action body t.profile.logicalName with
  | none =>
    mutationProblem operationId 404 "Not Found" "unknown profile action" "unknown_action"
  | some expected =>
    if body.confirmation ≠ some expected then
      mutationProblem operationId 422 "Confirmation required"
        ("confirmation must equal " ++ reprText expected) "confirmation_required"
    else if action = "rotate" then rotateAction t body active operationId
    else if action = "disable" then disableAction t active operationId
    else if action = "limit" then limitAction t body operationId
    else allocationAction t body active operationId

/-- `profile_action` after it has begun. -/
def actionWork (t : ActionTarget) (action : String) (body : ActionBody) (operationId : ℕ) :
    Handler Response := do
  let active ← await .active
  countedAction t action body active operationId

/-- `profile_action`.  No body is one that is no JSON object. -/
def profileAction (provider : String) (spec : ProviderSpec) (profileId action : String)
    (key : Option String) (body : Option ActionBody) : Handler Response :=
  match body with
  | none => pure (.problem 400 "Bad Request" "a JSON object is required")
  | some body =>
    if action = "rotate" ∧ spec.canProvisionSubusers = false then
      pure (.problem 409 "Profile rotation unsupported"
        (providerLabel provider ++ " does not support caller-chosen proxy credentials"))
    else if action = "disable" ∧ spec.hasSubuserStatus = false then
      pure (.problem 409 "Profile disable unsupported"
        (providerLabel provider ++ " does not expose a sub-user status control"))
    else do
      match ← await .profile with
      | none => pure (.problem 404 "Not Found" "profile was not found")
      | some profile =>
        if profile.providerResourceId.getD "" = "" then
          pure (.problem 404 "Not Found" "profile was not found")
        else
          withMutation ("profile." ++ action) key
            (actionWork ⟨provider, spec, profileId, profile⟩ action body)

/-! ## The kill switch and the reconciliation -/

/-- `kill_switch` with what its update has returned. -/
def switched (action : String) (found : Bool) (operationId : ℕ) : Handler Response := do
  if found = false then
    finishMutation operationId 409 [("error", .text "safety_gates_failed")] .failed
    pure (.problem 409 "Unsafe proxy state" "no active cycle satisfies the safety gates")
  else
    let data := [("kill_switch", .flag (action != "clear")),
      ("revocation_requested", .flag (action == "revoke"))]
    finishMutation operationId 202 data .succeeded
    let _ ← await .statement
    pure (.payload data 202)

/-- `kill_switch` after it has begun; `proxyEnabled` is `settings.proxy_enabled`. -/
def switchWork (proxyEnabled : Bool) (action : String) (operationId : ℕ) : Handler Response := do
  if action = "revoke" then
    let found ← await .returning
    let _ ← await .statement
    switched action found operationId
  else if action = "clear" ∧ proxyEnabled = false then
    finishMutation operationId 409 [("error", .text "deployment_proxy_disabled")] .failed
    pure (.problem 409 "Unsafe proxy state" "deployment proxy support is disabled")
  else
    let found ← await .returning
    switched action found operationId

/-- The confirmation that `kill_switch` expects. -/
def switchConfirmation (action : String) : Option String :=
  if action = "clear" then some "ENABLE PAID PROXY TRAFFIC"
  else if action = "revoke" then some "REVOKE ACTIVE PROXY LEASES"
  else none

/-- `kill_switch`. -/
def killSwitch (proxyEnabled : Bool) (action : String) (key confirmation : Option String) :
    Handler Response :=
  if action ≠ "activate" ∧ action ≠ "clear" ∧ action ≠ "revoke" then
    pure (.problem 404 "Not Found" "unknown kill-switch action")
  else
    match switchConfirmation action with
    | none => withMutation ("kill_switch." ++ action) key (switchWork proxyEnabled action)
    | some expected =>
      if confirmation ≠ some expected then
        pure (.problem 422 "Confirmation required" ("confirmation must equal " ++ reprText expected))
      else withMutation ("kill_switch." ++ action) key (switchWork proxyEnabled action)

/-- `reconcile_action` after it has begun. -/
def reconcileWork (operationId : ℕ) : Handler Response := do
  match ← await .reconcile with
  | .reported totalBytes =>
    let data := [("status", .text "reconciled"), ("provider_reported_bytes", .number totalBytes)]
    finishMutation operationId 202 data .succeeded
    pure (.payload data 202)
  | .providerError message =>
    finishMutation operationId 502 [("error", .text "reconciliation_failed")] .failed
    pure (.problem 502 "Reconciliation failed" message)
  | .runtimeError message =>
    finishMutation operationId 409 [("error", .text "reconciliation_failed")] .failed
    pure (.problem 409 "Reconciliation failed" message)

/-- `reconcile_action`. -/
def reconcileAction (key : Option String) : Handler Response :=
  withMutation "reconcile" key reconcileWork

end Mutations

end CommerceCollector
