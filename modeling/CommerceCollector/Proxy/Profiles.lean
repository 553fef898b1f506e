import CommerceCollector.Foundation.Tasks
import CommerceCollector.Proxy.Ledger

/-!
# The profiles of the proxy providers

`create_profile`, `refresh_profiles`, `profile_action`, `retire_profile`, `_blue_green_rotation` and
`_credential_install_failure` of `proxy_api.py`, `finalize_retirements` and
`finalize_draining_profiles` of `proxy_control.py`.

A request commits statement by statement and calls the provider and the secret store in between, so
requests interleave.  A suspended request is a `ProfileTask` that carries the rows it has read.  One
step is what a request does up to its next commit: `ProfileAnswer` says how the calls before that
commit ended.  A request may also end without a further commit: its process stops, or an error that
the source does not catch is raised.

The mutation records, the audit, the events, the routes and the source policies are left out (so a
retirement that is being created has no operation id in its replacement), and so are the columns of
a profile that only describe it.  The cycles of the model are the active ones.
-/

namespace CommerceCollector

open Relational Transaction Tasks

/-! ## Rows -/

/-- The capabilities of a provider: `can_provision_subusers` and `has_subuser_status`. -/
structure ProviderSpec where
  canProvisionSubusers : Bool
  hasSubuserStatus : Bool
  deriving DecidableEq, Repr

/-- `REGISTRY`. -/
def providerSpec (name : String) : Option ProviderSpec :=
  if name = "decodo" then some ⟨true, true⟩
  else if name = "iproyal" then some ⟨true, false⟩
  else if name = "webshare" then some ⟨false, false⟩
  else if name = "proxyscrape" then some ⟨false, false⟩
  else none

/-- An active row of `catalogue.proxy_budget_cycles`, with its capacity. -/
structure CapacityCycle where
  provider : String
  cycleStart : Time
  operationalBytes : ℕ
  unmanagedAllocationBytes : ℕ
  killSwitch : Bool := false
  deriving DecidableEq, Repr

/-- `proxy_profiles_pending_action_check`. -/
inductive PendingAction
  | disable | rotate | retire
  deriving DecidableEq, Repr

/-- A row of `catalogue.proxy_profiles`, as the control plane manages it. -/
structure ManagedProfile where
  id : Uuid
  provider : String
  logicalName : String
  providerResourceId : Option String := none
  providerTrafficLimitBytes : Option ℕ := none
  autoDisable : Bool := true
  enabled : Bool := false
  lifecycle : ProfileLifecycle := .pending
  secretGeneration : ℕ := 0
  pendingAction : Option PendingAction := none
  retiredAt : Option Time := none
  updatedAt : Time
  deriving DecidableEq, Repr

/-- `proxy_profile_retirements_state_check`. -/
inductive RetirementState
  | creating | draining | finalizing | completed | failed
  deriving DecidableEq, Repr

/-- A row of `catalogue.proxy_profile_retirements`. -/
structure ProfileRetirement where
  id : Uuid
  profileId : Uuid
  oldProviderResourceId : String
  replacementResourceId : String
  targetLimitBytes : ℕ
  temporaryAllocationBytes : ℕ
  oldSecretGeneration : ℕ
  state : RetirementState
  createdAt : Time
  errorCode : Option String := none
  deriving DecidableEq, Repr

/-- What the finalizers read of a reservation that is active or to be revoked. -/
structure OpenReservation where
  profileId : Uuid
  secretGeneration : ℕ
  deriving DecidableEq, Repr

/-- The tables of the control plane. -/
structure ProxyProfiles where
  cycles : List CapacityCycle := []
  profiles : List ManagedProfile := []
  allocations : List ProfileAllocation := []
  retirements : List ProfileRetirement := []
  reservations : List OpenReservation := []
  deriving DecidableEq, Repr

/-- A sub-user of a provider. -/
structure Subuser where
  id : String
  status : String
  trafficLimitBytes : Option ℕ
  autoDisable : Bool
  deriving DecidableEq, Repr

/-! ## Statements on a row -/

/-- `state in ('creating', 'draining', 'finalizing')`. -/
def ProfileRetirement.inProgress (x : ProfileRetirement) : Bool :=
  x.state == .creating || x.state == .draining || x.state == .finalizing

namespace ManagedProfile

/-- The last statement of `create_profile`. -/
def created (now : Time) (subuser : Subuser) (limit generation : ℕ) (p : ManagedProfile) :
    ManagedProfile :=
  { p with
    providerResourceId := some subuser.id, providerTrafficLimitBytes := some limit
    autoDisable := subuser.autoDisable, enabled := true, lifecycle := .enabled
    secretGeneration := generation, updatedAt := now }

/-- The provider has changed but the secret is not installed. -/
def localFailed (now : Time) (p : ManagedProfile) : ManagedProfile :=
  { p with lifecycle := .providerChangedLocalFailed, enabled := false, updatedAt := now }

/-- The first statement of a drain. -/
def drain (now : Time) (action : PendingAction) (p : ManagedProfile) : ManagedProfile :=
  { p with enabled := false, lifecycle := .draining, pendingAction := some action, updatedAt := now }

/-- The last statement of a rotation of an idle profile. -/
def rotated (now : Time) (generation : ℕ) (p : ManagedProfile) : ManagedProfile :=
  { p with enabled := true, lifecycle := .enabled, secretGeneration := generation, updatedAt := now }

/-- The last statement of a blue-green rotation. -/
def replaced (now : Time) (subuser : Subuser) (minimum generation : ℕ) (p : ManagedProfile) :
    ManagedProfile :=
  { p with
    providerResourceId := some subuser.id, providerTrafficLimitBytes := some minimum
    secretGeneration := generation, lifecycle := .enabled, enabled := true, updatedAt := now }

/-- The last statement of `disable` for an idle profile. -/
def disabled (p : ManagedProfile) : ManagedProfile :=
  { p with lifecycle := .disabled, pendingAction := none }

/-- The statement of `limit`: `user.traffic_limit_bytes or limit`. -/
def limited (now : Time) (user : Subuser) (limit : ℕ) (p : ManagedProfile) : ManagedProfile :=
  { p with
    providerTrafficLimitBytes :=
      match user.trafficLimitBytes with
      | some (n + 1) => some (n + 1)
      | _ => some limit
    autoDisable := user.autoDisable, updatedAt := now }

/-- The statement of `refresh_profiles`, for a row that the provider knows. -/
def refreshed (now : Time) (user : Subuser) (p : ManagedProfile) : ManagedProfile :=
  { p with
    providerTrafficLimitBytes := user.trafficLimitBytes <|> p.providerTrafficLimitBytes
    autoDisable := user.autoDisable, updatedAt := now
    enabled := p.enabled && user.status == "active" }

/-- The last statement of `finalize_draining_profiles`, by the action that was read. -/
def finalized (now : Time) (action : Option PendingAction) (generation : ℕ) (p : ManagedProfile) :
    ManagedProfile :=
  match action with
  | some .rotate =>
    { p with
      lifecycle := .enabled, enabled := true, pendingAction := none
      secretGeneration := generation, updatedAt := now }
  | some .disable =>
    { p with lifecycle := .disabled, enabled := false, pendingAction := none, updatedAt := now }
  | some .retire =>
    { p with
      lifecycle := .retired, enabled := false, pendingAction := none, retiredAt := some now
      updatedAt := now }
  | none => p

end ManagedProfile

/-! ## Requests -/

/-- The mode of a rotation. -/
inductive RotationMode
  | drain | blueGreen
  deriving DecidableEq, Repr

/-- The actions of `profile_action`, with the values of their bodies. -/
inductive ProfileAction
  | rotate (mode : RotationMode)
  | disable
  | limit (bytes : ℤ)
  | allocation (bytes : ℤ)
  deriving DecidableEq, Repr

/-- `expected_confirmation`. -/
def ProfileAction.confirmation (logicalName : String) : ProfileAction → String
  | .rotate _ => "ROTATE " ++ logicalName
  | .disable => "DISABLE " ++ logicalName
  | .limit bytes => "SET LIMIT " ++ toString bytes ++ " FOR " ++ logicalName
  | .allocation bytes => "SET ALLOCATION " ++ toString bytes ++ " FOR " ++ logicalName

/-- The provider has the capability that the action needs. -/
def ProfileAction.supported (spec : ProviderSpec) : ProfileAction → Bool
  | .rotate _ => spec.canProvisionSubusers
  | .disable => spec.hasSubuserStatus
  | .limit _ | .allocation _ => true

/-- The problem of an action that the provider does not support. -/
def ProfileAction.unsupported : ProfileAction → String
  | .rotate _ => "Profile rotation unsupported"
  | .disable => "Profile disable unsupported"
  | .limit _ | .allocation _ => ""

/-- The body of `create_profile`. -/
structure CreateProfile where
  provider : String
  logicalName : String
  allocatedBytes : ℤ
  providerTrafficLimitBytes : ℤ
  confirmation : String
  deriving DecidableEq, Repr

/-- A request to the control plane, a round of a finalizer, or what happens to the reservations
meanwhile.  A round skips the rows that other transactions have locked. -/
inductive ProfileRequest
  | createProfile (r : CreateProfile)
  | profileAction (provider : String) (profileId : Uuid) (action : ProfileAction)
    (confirmation : String)
  | retireProfile (provider : String) (profileId : Uuid) (confirmation : String)
  | refreshProfiles (provider : String) (users : List Subuser)
  | finalizeRetirements (provider : String) (locked : List Uuid)
  | finalizeDrainingProfiles (provider : String) (locked : List Uuid)
  | reservations (rows : List OpenReservation)
  deriving DecidableEq, Repr

/-- An action on a profile with the rows that it has read: the profile and its allocation in the
active cycle. -/
structure LoadedAction where
  provider : String
  profile : ManagedProfile
  allocation : Option ProfileAllocation
  action : ProfileAction
  confirmation : String
  deriving DecidableEq, Repr

/-- A suspended request: what it will commit next. -/
inductive ProfileTask
  | requested (r : ProfileRequest)
  | creating (provider : String) (profileId : Uuid) (limit : ℕ)
  | killing (provider : String)
  | loaded (w : LoadedAction)
  | counted (w : LoadedAction) (active : ℕ)
  | disabling (profileId : Uuid)
  | replacing (provider : String) (profileId retirementId : Uuid) (minimum : ℕ)
  | installFailed (provider : String) (profileId : Uuid)
  | finalizingRetirements (provider : String) (rows : List ProfileRetirement)
  | finalizing (provider : String) (row : ProfileRetirement) (rest : List ProfileRetirement)
  | finalizeFailed (provider : String) (rest : List ProfileRetirement)
  | finalizingProfiles (provider : String) (rows : List ManagedProfile)
  | drainFailed (provider : String) (rest : List ManagedProfile)
  deriving DecidableEq, Repr

/-- How the calls before a commit ended: the sub-user that the provider returned with the generation
of the installed secret, an error of the provider, or one of the secret store. -/
inductive ProfileAnswer
  | ok (subuser : Subuser) (generation : ℕ)
  | providerError (code : String) (ambiguous : Bool)
  | localError (subuser : Subuser)
  deriving DecidableEq, Repr

/-- A request goes on at a time of the database, or ends without a further commit. -/
inductive ProfileReply
  | lost
  | answer (now : Time) (a : ProfileAnswer)
  deriving DecidableEq, Repr

/-- The check of `create_profile` on a logical name. -/
def validLogicalName (name : String) : Bool :=
  name != "" && decide (name.length ≤ 64) &&
    name.toList.all fun c => c.isLower || c.isDigit || c == '_' || c == '-'

/-- `proxy_profiles_logical_name_check`, for a name that `create_profile` accepts. -/
def startsAlphanumeric (name : String) : Bool :=
  name.toList.head?.any fun c => c.isLower || c.isDigit

namespace ProxyProfiles

/-! ## Reading the tables -/

/-- The active cycle of a provider. -/
def activeCycle (s : ProxyProfiles) (provider : String) : Option CapacityCycle :=
  s.cycles.find? fun c => c.provider == provider

/-- The row of a profile. -/
def profile (s : ProxyProfiles) (id : Uuid) : Option ManagedProfile :=
  s.profiles.find? fun p => p.id == id

/-- The profile exists and belongs to the provider. -/
def belongsTo (s : ProxyProfiles) (provider : String) (id : Uuid) : Bool :=
  s.profiles.any fun p => p.id == id && p.provider == provider

/-- The allocation belongs to a cycle. -/
def inCycle (provider : String) (cycleStart : Time) (a : ProfileAllocation) : Bool :=
  a.provider == provider && a.cycleStart == cycleStart

/-- `sum(allocated_bytes)` over a cycle. -/
def allocatedBytes (s : ProxyProfiles) (provider : String) (cycleStart : Time) : ℕ :=
  total (inCycle provider cycleStart) ProfileAllocation.allocatedBytes s.allocations

/-- `sum(allocated_bytes) filter (where profile_id <> id)` over a cycle. -/
def otherBytes (s : ProxyProfiles) (provider : String) (cycleStart : Time) (id : Uuid) : ℕ :=
  total (fun a => inCycle provider cycleStart a && a.profileId != id)
    ProfileAllocation.allocatedBytes s.allocations

/-- The temporary allocations of the retirements in progress, of every provider. -/
def temporaryBytes (s : ProxyProfiles) : ℕ :=
  total ProfileRetirement.inProgress ProfileRetirement.temporaryAllocationBytes s.retirements

/-- The reservations that are open on a profile. -/
def activeReservations (s : ProxyProfiles) (id : Uuid) : ℕ :=
  s.reservations.countP fun r => r.profileId == id

/-! ## Transactions -/

/-- `update catalogue.proxy_profiles set f where id`. -/
def updateProfile (s : ProxyProfiles) (id : Uuid) (f : ManagedProfile → ManagedProfile) :
    ProxyProfiles :=
  { s with profiles := update (fun p => p.id == id) f s.profiles }

/-- `update catalogue.proxy_profile_retirements set f where id`. -/
def updateRetirement (s : ProxyProfiles) (id : Uuid) (f : ProfileRetirement → ProfileRetirement) :
    ProxyProfiles :=
  { s with retirements := update (fun x => x.id == id) f s.retirements }

/-- `update catalogue.proxy_budget_cycles set kill_switch = true`. -/
def activateKillSwitch (s : ProxyProfiles) (provider : String) : ProxyProfiles :=
  { s with
    cycles := update (fun c => c.provider == provider) (fun c => { c with killSwitch := true })
      s.cycles }

/-- The checks of `create_profile` and its transaction: the id of the pending profile. -/
def createProfile (s : ProxyProfiles) (now : Time) (r : CreateProfile) :
    Except String (Uuid × ProxyProfiles) := do
  let spec ← getRow (providerSpec r.provider) "Unknown provider"
  require spec.canProvisionSubusers "Profile provisioning unsupported"
  require (r.confirmation = "CREATE " ++ r.logicalName) "Confirmation required"
  require (validLogicalName r.logicalName) "Invalid profile"
  require (0 < r.allocatedBytes ∧ 0 < r.providerTrafficLimitBytes ∧
    r.providerTrafficLimitBytes ≤ r.allocatedBytes) "Invalid profile"
  let cycle ← getRow (s.activeCycle r.provider) "No active cycle"
  require (s.allocatedBytes r.provider cycle.cycleStart + r.allocatedBytes.toNat +
    cycle.unmanagedAllocationBytes ≤ cycle.operationalBytes) "Allocation exhausted"
  require (startsAlphanumeric r.logicalName) "proxy_profiles_logical_name_check"
  require (s.profiles.all fun p => p.logicalName != r.logicalName) "proxy_profiles_logical_name_key"
  let id := freshKey ManagedProfile.id s.profiles
  pure (id, { s with
    profiles := s.profiles ++
      [{ id, provider := r.provider, logicalName := r.logicalName, updatedAt := now }]
    allocations := s.allocations ++
      [⟨r.provider, cycle.cycleStart, id, r.allocatedBytes.toNat⟩] })

/-- The transaction after a conclusive rejection by the provider.  It is rolled back if a retirement
refers to the profile. -/
def dropPending (s : ProxyProfiles) (id : Uuid) : ProxyProfiles :=
  let doomed := fun p : ManagedProfile =>
    p.id == id && p.lifecycle == .pending && p.providerResourceId.isNone
  if s.profiles.any doomed && s.retirements.any fun x => x.profileId == id then s
  else { s with
    allocations := s.allocations.filter fun a => a.profileId != id
    profiles := s.profiles.filter fun p => !doomed p }

/-- The checks of `profile_action` before it reads, and the rows that it reads. -/
def loadProfile (s : ProxyProfiles) (provider : String) (profileId : Uuid) (action : ProfileAction)
    (confirmation : String) : Except String LoadedAction := do
  let spec ← getRow (providerSpec provider) "Unknown provider"
  require (action.supported spec) action.unsupported
  let profile ← getRow (s.profile profileId) "Not Found"
  require (profile.provider = provider ∧ profile.providerResourceId.any (· ≠ "")) "Not Found"
  let allocation := (s.activeCycle provider).bind fun c => s.allocations.find? fun a =>
    inCycle provider c.cycleStart a && a.profileId == profileId
  pure ⟨provider, profile, allocation, action, confirmation⟩

/-- The first transaction of `_blue_green_rotation`: the id of the retirement, and its temporary
allocation. -/
def beginRotation (s : ProxyProfiles) (now : Time) (w : LoadedAction) :
    Except String ((Uuid × ℕ) × ProxyProfiles) := do
  let allocation := (w.allocation.map ProfileAllocation.allocatedBytes).getD 0
  let minimum := min allocation 25000000
  let cycle ← getRow (s.activeCycle w.provider) "Rotation capacity unavailable"
  require (cycle.unmanagedAllocationBytes + s.allocatedBytes w.provider cycle.cycleStart +
    s.temporaryBytes + minimum ≤ cycle.operationalBytes) "Rotation capacity unavailable"
  require (0 < allocation) "proxy_profile_retirements_target_limit_bytes_check"
  require (s.profiles.any fun p => p.id == w.profile.id) "proxy_profile_retirements_profile_id_fkey"
  let id := freshKey ProfileRetirement.id s.retirements
  pure ((id, minimum), { s with
    retirements := s.retirements ++
      [{ id, profileId := w.profile.id
         oldProviderResourceId := w.profile.providerResourceId.getD ""
         replacementResourceId := "pending", targetLimitBytes := allocation
         temporaryAllocationBytes := minimum, oldSecretGeneration := w.profile.secretGeneration
         state := .creating, createdAt := now }] })

/-- The rows that an action on the allocation of a profile updates: `where provider = … and
profile_id = … and cycle_start = …`. -/
def sets (w : LoadedAction) (a : ProfileAllocation) : Bool :=
  w.allocation.any fun b => inCycle w.provider b.cycleStart a && a.profileId == w.profile.id

/-- The checks of `allocation` and its transaction.  The row that is updated is the one that the
request has read. -/
def setAllocation (s : ProxyProfiles) (w : LoadedAction) (active : ℕ) (bytes : ℤ) :
    Except String (Unit × ProxyProfiles) := do
  require (0 ≤ bytes ∧ (w.profile.providerTrafficLimitBytes.getD 0 : ℤ) ≤ bytes)
    "Invalid allocation"
  require (active = 0 ∨ ((w.allocation.map ProfileAllocation.allocatedBytes).getD 0 : ℤ) ≤ bytes)
    "Profile active"
  let cycle ← getRow (s.activeCycle w.provider) "Allocation exhausted"
  require (s.otherBytes w.provider cycle.cycleStart w.profile.id + cycle.unmanagedAllocationBytes +
    bytes.toNat ≤ cycle.operationalBytes) "Allocation exhausted"
  pure ((), { s with
    allocations := update (sets w) (fun a => { a with allocatedBytes := bytes.toNat })
      s.allocations })

/-- The transaction of `retire_profile`. -/
def retireProfile (s : ProxyProfiles) (now : Time) (provider : String) (profileId : Uuid)
    (confirmation : String) : Except String (Unit × ProxyProfiles) := do
  let spec ← getRow (providerSpec provider) "Unknown provider"
  require spec.hasSubuserStatus "Profile retirement unsupported"
  let profile ← getRow (s.profile profileId) "Not Found"
  require (profile.provider = provider ∧ profile.retiredAt = none) "Not Found"
  require (confirmation = "RETIRE " ++ profile.logicalName) "Confirmation required"
  pure ((), s.updateProfile profileId (ManagedProfile.drain now .retire))

/-- The sub-user of a profile among those that the provider lists: `by_id.get(resource)`. -/
def knownUser (users : List Subuser) (p : ManagedProfile) : Option Subuser :=
  p.providerResourceId.bind fun resource => users.reverse.find? fun user => user.id == resource

/-- The transaction of `refresh_profiles`, with the sub-users that the provider lists. -/
def refreshProfiles (s : ProxyProfiles) (now : Time) (provider : String) (users : List Subuser) :
    ProxyProfiles :=
  { s with
    profiles := update (fun p => p.provider == provider && (knownUser users p).isSome)
      (fun p => (knownUser users p).elim p fun user => p.refreshed now user) s.profiles }

/-- The rows that a round of `finalize_retirements` selects. -/
def drainedRetirements (s : ProxyProfiles) (provider : String) (locked : List Uuid) :
    List ProfileRetirement :=
  ((s.retirements.filter fun x =>
    s.belongsTo provider x.profileId && x.state == .draining && !(locked.contains x.id) &&
      s.reservations.all fun r =>
        !(r.profileId == x.profileId && r.secretGeneration == x.oldSecretGeneration)).insertionSort
    fun x y => x.createdAt ≤ y.createdAt).take 10

/-- The rows that a round of `finalize_draining_profiles` selects. -/
def drainedProfiles (s : ProxyProfiles) (provider : String) (locked : List Uuid) :
    List ManagedProfile :=
  ((s.profiles.filter fun p =>
    p.provider == provider && p.lifecycle == .draining && p.pendingAction.isSome &&
      !(locked.contains p.id) && (s.reservations.all fun r => r.profileId != p.id) &&
      s.retirements.all fun x =>
        !(x.profileId == p.id && (x.state == .draining || x.state == .finalizing))).insertionSort
    fun p q => p.updatedAt ≤ q.updatedAt).take 10

/-! ## The steps of a request -/

/-- What a new request does up to its first commit. -/
def accept (s : ProxyProfiles) (now : Time) : ProfileRequest → ProxyProfiles × Option ProfileTask
  | .createProfile r =>
    match s.createProfile now r with
    | .ok (id, s') => (s', some (.creating r.provider id r.providerTrafficLimitBytes.toNat))
    | .error _ => (s, none)
  | .profileAction provider profileId action confirmation =>
    match s.loadProfile provider profileId action confirmation with
    | .ok w => (s, some (.loaded w))
    | .error _ => (s, none)
  | .retireProfile provider profileId confirmation =>
    (attempt s (s.retireProfile now provider profileId confirmation), none)
  | .refreshProfiles provider users => (s.refreshProfiles now provider users, none)
  | .finalizeRetirements provider locked =>
    if (providerSpec provider).any fun spec => spec.canProvisionSubusers && spec.hasSubuserStatus then
      (s, some (.finalizingRetirements provider (s.drainedRetirements provider locked)))
    else (s, none)
  | .finalizeDrainingProfiles provider locked =>
    if (providerSpec provider).any fun spec => spec.canProvisionSubusers then
      (s, some (.finalizingProfiles provider (s.drainedProfiles provider locked)))
    else (s, none)
  | .reservations rows => ({ s with reservations := rows }, none)

/-- What a confirmed action does after it has counted the reservations of its profile. -/
def act (s : ProxyProfiles) (now : Time) (w : LoadedAction) (active : ℕ) (answer : ProfileAnswer) :
    ProxyProfiles × Option ProfileTask :=
  match w.action with
  | .rotate .drain =>
    if 0 < active then (s.updateProfile w.profile.id (.drain now .rotate), none)
    else
      match answer with
      | .ok _ generation => (s.updateProfile w.profile.id (.rotated now generation), none)
      | .providerError _ _ => (s, none)
      | .localError _ =>
        (s.updateProfile w.profile.id (.localFailed now), some (.killing w.provider))
  | .rotate .blueGreen =>
    if (providerSpec w.provider).any ProviderSpec.hasSubuserStatus then
      match s.beginRotation now w with
      | .ok ((id, minimum), s') => (s', some (.replacing w.provider w.profile.id id minimum))
      | .error _ => (s, none)
    else (s, none)
  | .disable =>
    (s.updateProfile w.profile.id (.drain now .disable),
      if 0 < active then none else some (.disabling w.profile.id))
  | .limit bytes =>
    if 0 < bytes ∧ w.allocation.any fun a => bytes ≤ a.allocatedBytes then
      match answer with
      | .ok user _ => (s.updateProfile w.profile.id (.limited now user bytes.toNat), none)
      | .providerError _ _ | .localError _ => (s, none)
    else (s, none)
  | .allocation bytes => (attempt s (s.setAllocation w active bytes), none)

/-- What a request does up to its next commit. -/
def proceed (s : ProxyProfiles) (now : Time) (t : ProfileTask) (answer : ProfileAnswer) :
    ProxyProfiles × Option ProfileTask :=
  match t with
  | .requested r => s.accept now r
  | .creating provider id limit =>
    match answer with
    | .ok subuser generation => (s.updateProfile id (.created now subuser limit generation), none)
    | .providerError _ ambiguous => (if ambiguous then s else s.dropPending id, none)
    | .localError subuser =>
      (s.updateProfile id fun p =>
        { p.localFailed now with providerResourceId := some subuser.id }, some (.killing provider))
  | .killing provider => (s.activateKillSwitch provider, none)
  | .loaded w => (s, some (.counted w (s.activeReservations w.profile.id)))
  | .counted w active =>
    if w.confirmation = w.action.confirmation w.profile.logicalName then s.act now w active answer
    else (s, none)
  | .disabling id =>
    match answer with
    | .ok _ _ => (s.updateProfile id .disabled, none)
    | .providerError _ _ | .localError _ => (s, none)
  | .replacing provider id retirementId minimum =>
    match answer with
    | .ok subuser generation =>
      ((s.updateRetirement retirementId fun x =>
          { x with replacementResourceId := subuser.id, state := .draining, errorCode := none
            }).updateProfile id (.replaced now subuser minimum generation), none)
    | .providerError code _ =>
      (s.updateRetirement retirementId fun x =>
        { x with state := .failed, errorCode := some code }, none)
    | .localError _ =>
      (s.updateRetirement retirementId fun x =>
        { x with state := .failed, errorCode := some "secret_install_failed" },
        some (.installFailed provider id))
  | .installFailed provider id =>
    (s.updateProfile id (.localFailed now), some (.killing provider))
  | .finalizingRetirements _ [] => (s, none)
  | .finalizingRetirements provider (row :: rest) =>
    (s.updateRetirement row.id fun x => { x with state := .finalizing },
      some (.finalizing provider row rest))
  | .finalizing provider row rest =>
    match answer with
    | .ok _ _ =>
      ((s.updateRetirement row.id fun x =>
          { x with state := .completed, errorCode := none }).updateProfile row.profileId fun p =>
        { p with providerTrafficLimitBytes := some row.targetLimitBytes, updatedAt := now },
        some (.finalizingRetirements provider rest))
    | .providerError code _ =>
      (s.updateRetirement row.id fun x => { x with state := .failed, errorCode := some code },
        some (.finalizeFailed provider rest))
    | .localError _ => (s, none)
  | .finalizeFailed provider rest =>
    (s.activateKillSwitch provider, some (.finalizingRetirements provider rest))
  | .finalizingProfiles _ [] => (s, none)
  | .finalizingProfiles provider (row :: rest) =>
    match answer with
    | .ok _ generation =>
      (s.updateProfile row.id (.finalized now row.pendingAction generation),
        some (.finalizingProfiles provider rest))
    | .providerError _ _ | .localError _ =>
      (s.updateProfile row.id (.localFailed now), some (.drainFailed provider rest))
  | .drainFailed provider rest =>
    (s.activateKillSwitch provider, some (.finalizingProfiles provider rest))

/-- A request goes on, or ends without a further commit. -/
def run (s : ProxyProfiles) (t : ProfileTask) : ProfileReply → ProxyProfiles × Option ProfileTask
  | .lost => (s, none)
  | .answer now answer => s.proceed now t answer

end ProxyProfiles

/-- The requests to the control plane. -/
def profileProgram : Program ProxyProfiles ProfileTask ProfileRequest ProfileReply where
  start := .requested
  run := ProxyProfiles.run

end CommerceCollector
