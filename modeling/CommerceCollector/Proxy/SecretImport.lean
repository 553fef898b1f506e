import CommerceCollector.Foundation.Tasks
import CommerceCollector.Proxy.GatewaySecrets
import CommerceCollector.Proxy.Ledger

/-!
# Installing the secrets of the Webshare profiles

`install_webshare_profile` and `recover_webshare_profile_import` of `webshare_profile_import.py`,
called for any number of operations, each call in a session of its own.  A call that is under way is
an `ImportTask`: the transaction that it runs next, or the compare-and-swap of the secret file.  The
operation lock belongs to the session and is given up by the last statement of a call, or by a
crash, which stops a call between any two steps.  `lockKey` is `hashtextextended`, of which nothing
is assumed.

The rows are those of the provider `webshare`; `takenNames` are the logical names of the profiles of
the other providers.  Cycles, allocations, operations and reservations also change at will in
between, as far as the foreign keys of the intents allow it.  The columns that only describe a
profile or record a time are left out.
-/

namespace CommerceCollector

open Relational Transaction Tasks

/-! ## Rows -/

/-- A row of `catalogue.proxy_budget_cycles`, with the capacity that no profile manages. -/
structure ImportCycle extends BudgetCycle where
  unmanagedAllocationBytes : ℕ
  deriving DecidableEq, Repr

/-- A row of `catalogue.proxy_profiles` of the provider `webshare`. -/
structure WebshareProfile where
  id : Uuid
  logicalName : String
  displayName : String
  providerResourceId : Option String := none
  enabled : Bool := false
  lifecycle : ProfileLifecycle := .pending
  secretGeneration : ℤ := 0
  pendingAction : Option String := none
  deriving DecidableEq, Repr

/-- `proxy_profile_secret_intents_state_check`. -/
inductive IntentState
  | prepared | installed | completed | failed
  deriving DecidableEq, Repr

/-- A row of `catalogue.proxy_profile_secret_intents`, and `_Intent`. -/
structure SecretIntent where
  operationId : Uuid
  profileId : Uuid
  logicalName : String
  cycleStart : Time
  expectedGeneration : Option ℤ
  targetGeneration : ℤ
  createdProfile : Bool
  state : IntentState := .prepared
  errorCode : Option String := none
  deriving DecidableEq, Repr

/-- A row of `catalogue.proxy_mutation_requests`. -/
structure MutationRequest where
  operationId : Uuid
  actor : String
  action : String
  state : String
  deriving DecidableEq, Repr

/-- The tables that other transactions write, too. -/
structure ImportSurroundings where
  cycles : List ImportCycle := []
  allocations : List ProfileAllocation := []
  operations : List MutationRequest := []
  reservations : List ProxyReservation := []
  takenNames : List String := []
  deriving DecidableEq, Repr

/-- `ImportState`. -/
inductive ImportState
  | draining | installed | completed | failed
  deriving DecidableEq, Repr

/-- `WebshareProfileImportResult`. -/
structure WebshareProfileImportResult where
  operationId : Uuid
  profileId : Uuid
  logicalName : String
  generation : ℤ
  state : ImportState
  createdProfile : Bool
  errorCode : Option String := none
  deriving DecidableEq, Repr

/-! ## Calls -/

/-- The arguments of `install_webshare_profile`. -/
structure InstallCall where
  operationId : Uuid
  actorId : String
  secret : WebshareGatewaySecret
  expectedGeneration : Option ℤ
  displayName : Option String
  allocatedBytes : Option ℤ
  deriving DecidableEq, Repr

/-- A call of one of the two functions. -/
inductive ImportCall
  | install (c : InstallCall)
  | recover (operationId : Uuid)
  deriving DecidableEq, Repr

/-- The operation of a call. -/
def ImportCall.operationId : ImportCall → Uuid
  | .install c => c.operationId
  | .recover operationId => operationId

/-- What a call returns or raises. -/
abbrev ImportAnswer := Except String WebshareProfileImportResult

/-- A call under way, by what it does next. -/
inductive ImportTask
  /-- Nothing is run yet. -/
  | called (c : ImportCall)
  /-- The operation is locked. -/
  | findIntent (c : InstallCall)
  /-- The operation has an intent. -/
  | matchOperation (c : InstallCall) (row : SecretIntent)
  /-- The operation has no intent. -/
  | prepare (c : InstallCall)
  /-- The intent is inserted. -/
  | installSecret (c : InstallCall) (row : SecretIntent)
  /-- The intent is to be recovered. -/
  | readIntent (c : ImportCall)
  /-- The intent is open. -/
  | readFile (c : ImportCall) (row : SecretIntent)
  /-- The file holds the target generation. -/
  | finalize (c : ImportCall) (row : SecretIntent)
  /-- The file does not hold the target generation. -/
  | markFailed (c : ImportCall) (row : SecretIntent) (code : String)
  /-- The answer is known. -/
  | unlock (c : ImportCall) (answer : ImportAnswer)
  /-- Another transaction. -/
  | surround (around : ImportSurroundings)
  deriving DecidableEq, Repr

/-- A session starts a call, or another transaction is started. -/
inductive ImportRequest
  | call (c : ImportCall)
  | surround (around : ImportSurroundings)
  deriving DecidableEq, Repr

/-- How the file system answers: it may fail before or after the file is replaced. -/
inductive FileAnswer
  | done | failedBefore | failedAfter
  deriving DecidableEq, Repr

/-- A call goes on at a time of the database, or its session ends. -/
inductive ImportReply
  | crash
  | next (now : Time) (file : FileAnswer)
  deriving DecidableEq, Repr

/-- The two stores, the operation locks, and what the calls have returned. -/
structure ImportStore extends ImportSurroundings where
  profiles : List WebshareProfile := []
  intents : List SecretIntent := []
  file : SecretFile := []
  locks : List ℕ := []
  answers : List (ImportCall × ImportAnswer) := []
  deriving Repr

/-! ## Statements on a row -/

/-- `_cycle_is_safe`. -/
def ImportCycle.safe (now : Time) (c : ImportCycle) : Bool := c.current now && !c.unsafeToSpend

/-- `_quarantine_profile`. -/
def WebshareProfile.quarantine (p : WebshareProfile) : WebshareProfile :=
  { p with enabled := false, lifecycle := .pending, pendingAction := none }

/-- The profile of a finalized intent. -/
def WebshareProfile.install (generation : ℤ) (p : WebshareProfile) : WebshareProfile :=
  { p with
    secretGeneration := generation, enabled := true, lifecycle := .enabled, pendingAction := none }

/-- `state in ('prepared', 'installed')`. -/
def SecretIntent.isOpen (i : SecretIntent) : Bool := i.state == .prepared || i.state == .installed

/-- `_result`. -/
def SecretIntent.result (i : SecretIntent) (state : ImportState)
    (errorCode : Option String) : WebshareProfileImportResult :=
  { operationId := i.operationId, profileId := i.profileId, logicalName := i.logicalName
    generation := i.targetGeneration, state, createdProfile := i.createdProfile, errorCode }

/-- The checks of `install_webshare_profile` before the operation is locked. -/
def InstallCall.validated (c : InstallCall) : Except String InstallCall := do
  require (∀ e ∈ c.expectedGeneration, 1 ≤ e ∧ e < maxGeneration) "invalid_expected_generation"
  require (0 < c.actorId.length ∧ c.actorId.length ≤ 200) "invalid_actor"
  let secret ← c.secret.validated.mapError fun _ => "invalid_secret"
  require (secret.provider = "webshare") "invalid_secret_identity"
  require (secret.generation = (c.expectedGeneration.map (· + 1)).getD 1)
    "invalid_target_generation"
  pure { c with secret }

namespace ImportStore

/-! ## Reading the tables -/

/-- The intent of an operation. -/
def intentForOperation (s : ImportStore) (operationId : Uuid) : Option SecretIntent :=
  s.intents.find? fun i => i.operationId == operationId

/-- `_lock_cycle` for a given start. -/
def cycleAt (s : ImportStore) (start : Time) : Option ImportCycle :=
  s.cycles.find? fun c => c.provider == "webshare" && c.cycleStart == start

/-- The active cycles of the provider that cover a time. -/
def currentCycles (s : ImportStore) (now : Time) : List ImportCycle :=
  s.cycles.filter fun c => c.provider == "webshare" && c.current now

/-- `_lock_cycle` for the one current cycle. -/
def currentCycle (s : ImportStore) (now : Time) : Option ImportCycle :=
  match s.currentCycles now with
  | [c] => some c
  | _ => none

/-- The allocation of a profile in a cycle. -/
def allocation (s : ImportStore) (start : Time) (profileId : Uuid) : Option ProfileAllocation :=
  s.allocations.find? fun a =>
    a.provider == "webshare" && a.cycleStart == start && a.profileId == profileId

/-- A profile has an intent that is not resolved. -/
def hasOpenIntent (s : ImportStore) (profileId : Uuid) : Bool :=
  s.intents.any fun i => i.profileId == profileId && i.isOpen

/-- A profile was left behind by a failed creation. -/
def hasFailedCreate (s : ImportStore) (profileId : Uuid) : Bool :=
  s.intents.any fun i => i.profileId == profileId && i.createdProfile &&
    decide (i.targetGeneration = 1) && i.state == .failed

/-- `update catalogue.proxy_profiles set f where id = …`. -/
def updateProfile (s : ImportStore) (id : Uuid) (f : WebshareProfile → WebshareProfile) :
    ImportStore :=
  { s with profiles := update (fun p => p.id == id) f s.profiles }

/-- `update catalogue.proxy_profile_secret_intents set f where operation_id = …`. -/
def updateIntent (s : ImportStore) (operationId : Uuid) (f : SecretIntent → SecretIntent) :
    ImportStore :=
  { s with intents := update (fun i => i.operationId == operationId) f s.intents }

/-! ## The transactions of a call -/

/-- The operation is one that the actor has started. -/
def startedBy (s : ImportStore) (operationId : Uuid) (actorId : String) : Bool :=
  s.operations.any fun o => o.operationId == operationId && o.actor == actorId &&
    o.action == "profile.secret.install" && o.state == "started"

/-- `_prepare`, for a profile that does not exist. -/
def createProfile (s : ImportStore) (cycle : ImportCycle) (name displayName : String)
    (allocatedBytes : ℕ) : Except String (WebshareProfile × ImportStore) := do
  let allocated := total (fun a => a.provider == "webshare" && a.cycleStart == cycle.cycleStart)
    ProfileAllocation.allocatedBytes s.allocations
  require (allocated + cycle.unmanagedAllocationBytes + allocatedBytes ≤ cycle.operationalBytes)
    "allocation_exceeds_operational_budget"
  require (name ∉ s.takenNames) "proxy_profiles_logical_name_key"
  let id := freshKey WebshareProfile.id s.profiles
  let profile : WebshareProfile := { id, logicalName := name, displayName }
  pure (profile, { s with
    profiles := s.profiles ++ [profile]
    allocations := s.allocations ++ [⟨"webshare", cycle.cycleStart, id, allocatedBytes⟩] })

/-- `_prepare`, for a profile that a failed creation has left behind. -/
def adoptProfile (s : ImportStore) (cycle : ImportCycle) (profile : WebshareProfile)
    (displayName : String) (allocatedBytes : ℕ) : Except String (WebshareProfile × ImportStore) := do
  require (profile.secretGeneration = 0 ∧ profile.enabled = false ∧ profile.lifecycle = .pending ∧
    profile.pendingAction = none ∧ profile.providerResourceId = none ∧
    profile.displayName = displayName ∧
    (s.allocation cycle.cycleStart profile.id).map ProfileAllocation.allocatedBytes =
      some allocatedBytes ∧
    s.hasFailedCreate profile.id = true) "profile_already_exists"
  pure (profile, s)

/-- The profile of an intent that creates one. -/
def prepareCreation (s : ImportStore) (cycle : ImportCycle) (c : InstallCall) :
    Except String (WebshareProfile × ImportStore) := do
  let allocatedBytes ← getRow (c.allocatedBytes.filter fun n => decide (0 < n)) "invalid_allocation"
  let displayName ← getRow
    (c.displayName.filter fun n => decide (0 < n.length) && decide (n.length ≤ 200))
    "invalid_display_name"
  match s.profiles.find? fun p => p.logicalName == c.secret.logicalName with
  | none => s.createProfile cycle c.secret.logicalName displayName allocatedBytes.toNat
  | some profile => s.adoptProfile cycle profile displayName allocatedBytes.toNat

/-- The quarantined profile of an intent that rotates the secret. -/
def prepareRotation (s : ImportStore) (cycle : ImportCycle) (c : InstallCall)
    (expected : ℤ) : Except String (WebshareProfile × ImportStore) := do
  require (c.displayName = none ∧ c.allocatedBytes = none) "rotation_metadata_not_allowed"
  let profile ← getRow (s.profiles.find? fun p => p.logicalName == c.secret.logicalName)
    "profile_not_found"
  require (profile.lifecycle ≠ .retired) "profile_retired"
  require (profile.secretGeneration = expected) "database_generation_conflict"
  require ((s.allocation cycle.cycleStart profile.id).isSome) "profile_allocation_missing"
  pure (profile, s.updateProfile profile.id WebshareProfile.quarantine)

/-- The reservations that keep a profile from being rotated. -/
def drains (profileId : Uuid) (r : ProxyReservation) : Bool :=
  r.provider == "webshare" && r.profileId == profileId && r.held

/-- A profile drains. -/
def revokeReservations (s : ImportStore) (profileId : Uuid) : ImportStore :=
  { s with
    reservations := update (fun r => drains profileId r && r.state == .active)
      (fun r => { r with state := .revocationRequested, revocationRequested := true })
      s.reservations }

/-- The intent is inserted. -/
def insertIntent (s : ImportStore) (cycle : ImportCycle) (c : InstallCall)
    (profile : WebshareProfile) : Except String (SecretIntent × ImportStore) := do
  require (s.hasOpenIntent profile.id = false) "profile_intent_in_progress"
  require (s.intentForOperation c.operationId = none) "proxy_profile_secret_intents_pkey"
  let row : SecretIntent :=
    { operationId := c.operationId, profileId := profile.id
      logicalName := c.secret.logicalName, cycleStart := cycle.cycleStart
      expectedGeneration := c.expectedGeneration, targetGeneration := c.secret.generation
      createdProfile := c.expectedGeneration.isNone }
  pure (row, { s with intents := s.intents ++ [row] })

/-- `_prepare`: the profile drains, or its intent is inserted. -/
def prepare (s : ImportStore) (now : Time) (c : InstallCall) :
    Except String ((WebshareProfileImportResult ⊕ SecretIntent) × ImportStore) := do
  let cycle ← getRow (s.currentCycle now) "webshare_cycle_unavailable"
  require (cycle.safe now = true) "webshare_cycle_unsafe"
  require (s.startedBy c.operationId c.actorId = true) "invalid_operation"
  match c.expectedGeneration with
  | none =>
    let (profile, created) ← s.prepareCreation cycle c
    let (row, inserted) ← created.insertIntent cycle c profile
    pure (.inr row, inserted)
  | some expected =>
    let (profile, quarantined) ← s.prepareRotation cycle c expected
    if s.reservations.any (drains profile.id) then
      pure (.inl
        { operationId := c.operationId, profileId := profile.id
          logicalName := c.secret.logicalName, generation := c.secret.generation
          state := .draining, createdProfile := false }, quarantined.revokeReservations profile.id)
    else
      let (row, inserted) ← quarantined.insertIntent cycle c profile
      pure (.inr row, inserted)

/-- `_mark_failed`. -/
def markFailed (s : ImportStore) (row : SecretIntent) (code : String) :
    Except String (WebshareProfileImportResult × ImportStore) := do
  let _ ← getRow (s.cycleAt row.cycleStart) "webshare_cycle_unavailable"
  let quarantined := s.updateProfile row.profileId WebshareProfile.quarantine
  let selected := fun i : SecretIntent => i.operationId == row.operationId && i.isOpen
  if s.intents.any selected then
    pure (row.result .failed (some code), { quarantined with
      intents := update selected (fun i => { i with state := .failed, errorCode := some code })
        s.intents })
  else
    require ((s.intentForOperation row.operationId).map SecretIntent.state = some .failed)
      "intent_state_conflict"
    pure (row.result .failed (some code), quarantined)

/-- The cycle to which an installed intent is rebound, once its own cycle is over. -/
def rebindsTo (s : ImportStore) (now : Time) (row : SecretIntent) (cycle : ImportCycle) :
    Option ImportCycle :=
  if cycle.current now then none
  else (s.currentCycle now).filter fun c =>
    c.safe now && (s.allocation c.cycleStart row.profileId).isSome

/-- `_finalize`. -/
def finalize (s : ImportStore) (now : Time) (row : SecretIntent) :
    Except String (WebshareProfileImportResult × ImportStore) := do
  let cycle ← getRow (s.cycleAt row.cycleStart) "webshare_cycle_unavailable"
  let profile ← getRow (s.profiles.find? fun p => p.id == row.profileId) "profile_not_found"
  let current ← getRow (s.intentForOperation row.operationId) "intent_not_found"
  match current.state with
  | .completed => pure (current.result .completed none, s)
  | .failed => pure (current.result .failed current.errorCode, s)
  | _ =>
    let cycle' := (s.rebindsTo now row cycle).getD cycle
    let quarantined := s.updateProfile row.profileId WebshareProfile.quarantine
    let written := fun (state : IntentState) (code : Option String) (i : SecretIntent) =>
      { i with
        cycleStart := ((s.rebindsTo now row cycle).map fun c => c.cycleStart).getD i.cycleStart
        state := state, errorCode := code }
    if profile.secretGeneration ≠ row.expectedGeneration.getD 0 ∧
        profile.secretGeneration ≠ row.targetGeneration then
      let code := some "database_generation_conflict"
      pure (row.result .failed code, quarantined.updateIntent row.operationId (written .failed code))
    else if cycle'.safe now = false ∨ (s.allocation cycle'.cycleStart row.profileId).isNone then
      let code := some "cycle_rebind_required"
      pure (row.result .installed code,
        quarantined.updateIntent row.operationId (written .installed code))
    else
      pure (row.result .completed none,
        (s.updateProfile row.profileId (WebshareProfile.install row.targetGeneration)).updateIntent
          row.operationId (written .completed none))

/-! ## One step of a call -/

/-- A call goes on, or raises with the operation locked. -/
def goOn (s : ImportStore) (c : ImportCall) {α : Type} (r : Except String (α × ImportStore))
    (next : α → ImportTask) : ImportStore × Option ImportTask :=
  match r with
  | .ok (a, s') => (s', some (next a))
  | .error e => (s, some (.unlock c (.error e)))

/-- `_operation_lock`, for a session that does not hold it. -/
def lockOperation (s : ImportStore) (lockKey : Uuid → ℕ) (c : ImportCall) (next : ImportTask) :
    ImportStore × Option ImportTask :=
  if lockKey c.operationId ∈ s.locks then
    ({ s with answers := s.answers ++ [(c, .error "operation_busy")] }, none)
  else ({ s with locks := lockKey c.operationId :: s.locks }, some next)

/-- The session of a call gives up its lock. -/
def unlock (s : ImportStore) (lockKey : Uuid → ℕ) (c : ImportCall) : ImportStore :=
  { s with locks := s.locks.filter fun k => k != lockKey c.operationId }

/-- The existing intent of an installation belongs to the call. -/
def matchesCall (s : ImportStore) (c : InstallCall) (row : SecretIntent) : Bool :=
  s.startedBy c.operationId c.actorId && row.logicalName == c.secret.logicalName &&
    decide (row.expectedGeneration = c.expectedGeneration) &&
    decide (row.targetGeneration = c.secret.generation)

/-- `_recover_unlocked` up to the file. -/
def readIntent (s : ImportStore) (c : ImportCall) : ImportStore × Option ImportTask :=
  match s.intentForOperation c.operationId with
  | none => (s, some (.unlock c (.error "intent_not_found")))
  | some row =>
    match row.state with
    | .completed => (s, some (.unlock c (.ok (row.result .completed none))))
    | .failed => (s, some (.unlock c (.ok (row.result .failed row.errorCode))))
    | _ => (s, some (.readFile c row))

/-- `_recover_unlocked` after the file is read. -/
def recoverUnlocked (s : ImportStore) (c : ImportCall) (row : SecretIntent) : ImportTask :=
  let generation := s.file.generation row.logicalName
  if generation = some row.targetGeneration then .finalize c row
  else if row.state = .prepared ∧ (generation = none ∨ generation = row.expectedGeneration) then
    .markFailed c row "credential_resubmission_required"
  else .markFailed c row "secret_generation_conflict"

/-- The compare-and-swap of the secret file. -/
def installSecret (s : ImportStore) (c : InstallCall) (row : SecretIntent) (answer : FileAnswer) :
    ImportStore × Option ImportTask :=
  match s.file.install c.secret c.expectedGeneration with
  | .error _ => (s, some (.readIntent (.install c)))
  | .ok (installed, file) =>
    match answer with
    | .failedBefore => (s, some (.readIntent (.install c)))
    | .failedAfter => ({ s with file }, some (.readIntent (.install c)))
    | .done =>
      if installed ≠ row.targetGeneration then
        ({ s with file }, some (.markFailed (.install c) row "secret_generation_conflict"))
      else ({ s with file }, some (.finalize (.install c) row))

/-- The intents refer to cycles and operations that exist. -/
def Refers (s : ImportStore) (around : ImportSurroundings) : Prop :=
  Keyed (fun c : ImportCycle => (c.provider, c.cycleStart)) around.cycles ∧
    ∀ i ∈ s.intents, (∃ c ∈ around.cycles, c.provider = "webshare" ∧ c.cycleStart = i.cycleStart) ∧
      ∃ o ∈ around.operations, o.operationId = i.operationId

instance (s : ImportStore) (around : ImportSurroundings) : Decidable (s.Refers around) :=
  inferInstanceAs (Decidable (List.Nodup _ ∧ _))

/-- A call takes its next step. -/
def proceed (lockKey : Uuid → ℕ) (s : ImportStore) (now : Time) (file : FileAnswer) :
    ImportTask → ImportStore × Option ImportTask
  | .called (.install c) =>
    match c.validated with
    | .error e => ({ s with answers := s.answers ++ [(.install c, .error e)] }, none)
    | .ok c => s.lockOperation lockKey (.install c) (.findIntent c)
  | .called (.recover id) => s.lockOperation lockKey (.recover id) (.readIntent (.recover id))
  | .findIntent c =>
    match s.intentForOperation c.operationId with
    | none => (s, some (.prepare c))
    | some row => (s, some (.matchOperation c row))
  | .matchOperation c row =>
    if s.matchesCall c row then (s, some (.readIntent (.install c)))
    else (s, some (.unlock (.install c) (.error "operation_intent_mismatch")))
  | .prepare c =>
    s.goOn (.install c) (s.prepare now c) fun
      | .inl result => .unlock (.install c) (.ok result)
      | .inr row => .installSecret c row
  | .installSecret c row => s.installSecret c row file
  | .readIntent c => s.readIntent c
  | .readFile c row =>
    match file with
    | .done => (s, some (s.recoverUnlocked c row))
    | _ => (s, some (.unlock c (.error "secret_store_unavailable")))
  | .finalize c row => s.goOn c (s.finalize now row) fun result => .unlock c (.ok result)
  | .markFailed c row code => s.goOn c (s.markFailed row code) fun result => .unlock c (.ok result)
  | .unlock c answer => ({ s.unlock lockKey c with answers := s.answers ++ [(c, answer)] }, none)
  | .surround around =>
    if s.Refers around then ({ s with toImportSurroundings := around }, none) else (s, none)

end ImportStore

/-- The operation that a call has locked. -/
def ImportTask.operation : ImportTask → Option Uuid
  | .findIntent c | .matchOperation c _ | .prepare c | .installSecret c _ => some c.operationId
  | .readIntent c | .readFile c _ | .finalize c _ | .markFailed c _ _ | .unlock c _ =>
    some c.operationId
  | .called _ | .surround _ => none

/-- A call takes its next step, or its session ends. -/
def ImportStore.run (lockKey : Uuid → ℕ) (s : ImportStore) (t : ImportTask) :
    ImportReply → ImportStore × Option ImportTask
  | .crash =>
    ({ s with locks := s.locks.filter fun k => t.operation.map lockKey != some k }, none)
  | .next now file => s.proceed lockKey now file t

/-- The calls of the sessions. -/
def importProgram (lockKey : Uuid → ℕ) :
    Program ImportStore ImportTask ImportRequest ImportReply where
  start
    | .call c => .called c
    | .surround around => .surround around
  run := ImportStore.run lockKey

end CommerceCollector
