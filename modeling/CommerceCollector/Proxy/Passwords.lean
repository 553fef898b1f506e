import CommerceCollector.Proxy.Profiles

/-!
# The password of a profile

`profile_action` (rotate and disable) and `_blue_green_rotation` of `proxy_api.py`,
`finalize_draining_profiles` of `proxy_control.py`, `ProfileSecretStore.install` and `remove`, and
`reserve` and `close_reservation` of `proxy.py`, as far as they concern the password of a profile.

The pool of connections is in autocommit: a session goes on by one statement, one call of the
provider or one write of the secret file at a time, and sessions interleave in between.  `reserve`
and `close_reservation` are transactions.  A profile has its own sub-users at the provider, numbered
in the order in which they were created, and its own entry in the secret file.  The budgets, the
routes, the kill switch, the mutation records and the columns that no session here looks at are left
out.
-/

namespace CommerceCollector

open Tasks

namespace Passwords

/-! ## One profile -/

/-- The columns of `catalogue.proxy_profiles`. -/
structure ProfileRow where
  providerResourceId : ℕ
  enabled : Bool
  lifecycle : ProfileLifecycle
  pendingAction : Option PendingAction := none
  secretGeneration : ℕ
  deriving DecidableEq, Repr

/-- The entry of a profile in the secret file. -/
structure Secret where
  password : ℕ
  generation : ℕ
  deriving DecidableEq, Repr

/-- An active row of `catalogue.proxy_reservations`; `resource` is the sub-user that the profile had
when it was made. -/
structure Reservation where
  id : ℕ
  secretGeneration : ℕ
  resource : ℕ
  deriving DecidableEq, Repr

/-- A profile: its row, its sub-users with the passwords that were last set, its entry in the secret
file, its active reservations, and whether a retirement of it is draining or finalizing.
`interrupted` are the reservations that were active on a sub-user when a call changed its password,
disabled it or deleted it. -/
structure Profile where
  row : ProfileRow
  subusers : ℕ
  passwords : ℕ → ℕ
  secret : Option Secret
  reservations : List Reservation := []
  reserved : ℕ := 0
  retiring : Bool := false
  interrupted : List Reservation := []

/-- `select count(*) … where state in ('active', 'revocation_requested')`. -/
def Profile.active (p : Profile) : Bool := p.reservations != []

/-- The select of `finalize_draining_profiles`. -/
def Profile.finalizable (p : Profile) : Bool :=
  p.row.lifecycle == .draining && p.row.pendingAction.isSome && !p.active && !p.retiring

/-- A call that takes a sub-user from those who use it. -/
def Profile.interrupt (p : Profile) (resource : ℕ) : Profile :=
  { p with interrupted := p.interrupted ++ p.reservations.filter (·.resource == resource) }

/-- `update_subuser` with a password. -/
def Profile.setPassword (p : Profile) (resource password : ℕ) : Profile :=
  { p.interrupt resource with passwords := Function.update p.passwords resource password }

/-- `ProfileSecretStore.install`. -/
def Profile.install (p : Profile) (password : ℕ) : Profile :=
  { p with secret := some ⟨password, (p.secret.map Secret.generation).getD 0 + 1⟩ }

/-- The generation that `install` returns. -/
def Profile.nextGeneration (p : Profile) : ℕ := (p.secret.map Secret.generation).getD 0 + 1

/-- `reserve`, once the budgets allow it. -/
def Profile.reserve (p : Profile) (generation : ℕ) : Profile :=
  if p.row.secretGeneration = generation ∧ p.row.enabled = true ∧ p.row.lifecycle = .enabled then
    { p with
      reservations := p.reservations ++ [⟨p.reserved, generation, p.row.providerResourceId⟩]
      reserved := p.reserved + 1 }
  else p

/-- `close_reservation`. -/
def Profile.close (p : Profile) (id : ℕ) : Profile :=
  { p with reservations := p.reservations.filter (·.id != id) }

/-! ## Sessions -/

/-- The actions of `profile_action`. -/
inductive Action
  | rotate (mode : RotationMode)
  | disable
  deriving DecidableEq, Repr

/-- A profile as a session has read it. -/
structure Loaded where
  profile : ℕ
  resource : ℕ
  pendingAction : Option PendingAction
  deriving DecidableEq, Repr

/-- What a session does next: a statement, a call of the provider, or a write of the secret file. -/
inductive Step
  | count (action : Action)
  | drainForRotation
  | changePassword
  | install (password : ℕ)
  | record (generation : ℕ)
  | reserveCapacity
  | create
  | installReplacement (resource password : ℕ)
  | replace (resource generation : ℕ)
  | drainForDisable (active : Bool)
  | disable
  | recordDisabled
  | delete
  | remove
  | recordRetired
  | rotationFailed
  | closingFailed
  deriving DecidableEq, Repr

/-- A session: an action or a round of the finalizer that has not started, or that works on a
profile; a transaction of a worker; or what the other finalizer does when it is done with the
retirements. -/
inductive Session
  | profileAction (profile : ℕ) (action : Action)
  | finalizeDrainingProfiles
  | reserve (profile generation : ℕ)
  | close (profile id : ℕ)
  | retired (profile : ℕ)
  | acting (l : Loaded) (step : Step)
  | finalizing (l : Loaded) (step : Step) (rest : List Loaded)
  deriving DecidableEq, Repr

/-- How a step ended.  `caught` is an `OSError`, a `RuntimeError`, a `TypeError` or a `ValueError`
that is no `ProviderError`, `escaped` any other exception. -/
inductive Outcome
  | ok
  | providerError
  | caught
  | escaped
  deriving DecidableEq, Repr

/-- An answer to a step: how it ended, whether it took effect if it raised, the password that was
generated, and the profiles that a select returns. -/
structure Answer where
  outcome : Outcome := .ok
  tookEffect : Bool := false
  password : ℕ := 0
  rows : List ℕ := []
  deriving DecidableEq, Repr

/-- The step took effect. -/
def Answer.effective (a : Answer) : Bool := a.outcome == .ok || a.tookEffect

/-! ## Steps -/

/-- What a step does to the profile; `finalizer` says whose it is. -/
def Step.effect (finalizer : Bool) (l : Loaded) (p : Profile) (a : Answer) : Step → Profile
  | .count _ => p
  | .drainForRotation =>
    { p with row := { p.row with
        lifecycle := .draining, enabled := false, pendingAction := some .rotate } }
  | .changePassword => p.setPassword l.resource a.password
  | .install password => p.install password
  | .record generation =>
    { p with row := { p.row with
        enabled := true, lifecycle := .enabled, secretGeneration := generation
        pendingAction := if finalizer = true then none else p.row.pendingAction } }
  | .reserveCapacity => p
  | .create =>
    { p with
      passwords := Function.update p.passwords p.subusers a.password, subusers := p.subusers + 1 }
  | .installReplacement _ password => p.install password
  | .replace resource generation =>
    { p with
      row := { p.row with
        providerResourceId := resource, secretGeneration := generation
        lifecycle := .enabled, enabled := true }
      retiring := true }
  | .drainForDisable _ =>
    { p with row := { p.row with
        enabled := false, lifecycle := .draining, pendingAction := some .disable } }
  | .disable => p.interrupt l.resource
  | .recordDisabled =>
    { p with row := { p.row with
        lifecycle := .disabled, pendingAction := none
        enabled := if finalizer = true then false else p.row.enabled } }
  | .delete => p.interrupt l.resource
  | .remove => { p with secret := none }
  | .recordRetired =>
    { p with row := { p.row with lifecycle := .retired, enabled := false, pendingAction := none } }
  | .rotationFailed =>
    { p with row := { p.row with lifecycle := .providerChangedLocalFailed, enabled := false } }
  | .closingFailed =>
    { p with row := { p.row with lifecycle := .providerChangedLocalFailed, enabled := false } }

/-- The step after one that has succeeded, if it was not the last of its profile. -/
def Step.next (finalizer : Bool) (l : Loaded) (p : Profile) (a : Answer) : Step → Option Step
  | .count (.rotate .drain) => some (if p.active = true then .drainForRotation else .changePassword)
  | .count (.rotate .blueGreen) => some .reserveCapacity
  | .count .disable => some (.drainForDisable p.active)
  | .drainForRotation => none
  | .changePassword => some (.install a.password)
  | .install _ => some (.record p.nextGeneration)
  | .record _ => none
  | .reserveCapacity => some .create
  | .create => some (.installReplacement p.subusers a.password)
  | .installReplacement resource _ => some (.replace resource p.nextGeneration)
  | .replace _ _ => none
  | .drainForDisable active => if active = true then none else some .disable
  | .disable =>
    some (if finalizer = true ∧ l.pendingAction = some .retire then .delete else .recordDisabled)
  | .recordDisabled => none
  | .delete => some .remove
  | .remove => some .recordRetired
  | .recordRetired => none
  | .rotationFailed => none
  | .closingFailed => none

/-- The step after one that raised an exception which its session catches: the statement of a
failure, if there is one. -/
def Step.afterError (finalizer : Bool) (outcome : Outcome) : Step → Option Step
  | .changePassword =>
    if finalizer = true ∨ outcome = .caught then some .rotationFailed else none
  | .create => if outcome = .caught then some .rotationFailed else none
  | .install _ => some .rotationFailed
  | .installReplacement _ _ => some .rotationFailed
  | .disable => if finalizer = true then some .closingFailed else none
  | .delete => some .closingFailed
  | .remove => some .closingFailed
  | _ => none

/-- A step reports its exceptions to a handler: the calls and the writes of the secret file do, and
only `ProviderError` is caught when an action disables. -/
def Step.catches (finalizer : Bool) (outcome : Outcome) : Step → Bool
  | .changePassword => outcome != .escaped
  | .create => outcome != .escaped
  | .install _ => outcome != .escaped
  | .installReplacement _ _ => outcome != .escaped
  | .disable => outcome == .providerError || finalizer && outcome == .caught
  | .delete => outcome != .escaped
  | .remove => outcome != .escaped
  | _ => false

/-- How a session goes on after a step: with another step on the profile, done with it, or ended. -/
inductive Course
  | goes (step : Step)
  | done
  | ended
  deriving DecidableEq, Repr

/-- How a session goes on. -/
def Step.course (finalizer : Bool) (l : Loaded) (p : Profile) (a : Answer) (step : Step) : Course :=
  if a.outcome = .ok then
    match step.next finalizer l p a with
    | some step => .goes step
    | none => .done
  else if step.catches finalizer a.outcome = true then
    match step.afterError finalizer a.outcome with
    | some step => .goes step
    | none => .done
  else .ended

/-- The first step of the finalizer on a profile. -/
def Loaded.finalize (l : Loaded) : Step :=
  if l.pendingAction = some .rotate then .changePassword else .disable

/-- The next profile of a round. -/
def nextProfile : List Loaded → Option Session
  | [] => none
  | l :: rest => some (.finalizing l l.finalize rest)

/-! ## Runs -/

/-- The profiles. -/
abbrev World := ℕ → Profile

/-- A profile as it is read. -/
def World.load (w : World) (profile : ℕ) : Loaded :=
  ⟨profile, (w profile).row.providerResourceId, (w profile).row.pendingAction⟩

/-- The rows of `finalize_draining_profiles`: at most ten. -/
def World.select (w : World) (rows : List ℕ) : List Loaded :=
  ((rows.dedup.filter fun id => (w id).finalizable).take 10).map w.load

/-- A statement on one profile. -/
def World.write (w : World) (profile : ℕ) (p : Profile) : World := Function.update w profile p

/-- The profile after a step. -/
def Step.written (finalizer : Bool) (l : Loaded) (p : Profile) (a : Answer) (step : Step) : Profile :=
  if a.effective = true then step.effect finalizer l p a else p

/-- A session goes on by one step. -/
def run (w : World) (t : Session) (a : Answer) : World × Option Session :=
  match t with
  | .profileAction profile action =>
    (w, if a.outcome = .ok then some (.acting (w.load profile) (.count action)) else none)
  | .finalizeDrainingProfiles =>
    (w, if a.outcome = .ok then nextProfile (w.select a.rows) else none)
  | .reserve profile generation =>
    (if a.outcome = .ok then w.write profile ((w profile).reserve generation) else w, none)
  | .close profile id =>
    (if a.outcome = .ok then w.write profile ((w profile).close id) else w, none)
  | .retired profile => (w.write profile { w profile with retiring := false }, none)
  | .acting l step =>
    (w.write l.profile (step.written false l (w l.profile) a),
      match step.course false l (w l.profile) a with
      | .goes step => some (.acting l step)
      | .done => none
      | .ended => none)
  | .finalizing l step rest =>
    (w.write l.profile (step.written true l (w l.profile) a),
      match step.course true l (w l.profile) a with
      | .goes step => some (.finalizing l step rest)
      | .done => nextProfile rest
      | .ended => none)

/-- The requests that start a session. -/
inductive Request
  | profileAction (profile : ℕ) (action : Action)
  | finalizeDrainingProfiles
  | reserve (profile generation : ℕ)
  | close (profile id : ℕ)
  | retired (profile : ℕ)
  deriving DecidableEq, Repr

/-- The sessions of the control plane and of the workers. -/
def sessions : Program World Session Request Answer where
  start
    | .profileAction profile action => .profileAction profile action
    | .finalizeDrainingProfiles => .finalizeDrainingProfiles
    | .reserve profile generation => .reserve profile generation
    | .close profile id => .close profile id
    | .retired profile => .retired profile
  run := run

end Passwords

end CommerceCollector
