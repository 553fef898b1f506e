import CommerceCollector.Proxy.ReservedPool

/-!
# What a step of the durable proxy pool does to its accounts

The accounts of the pool are its leases, the counters of its reservations, its tokens and the rows
of the database, without the flags and the lock.  A step does one of the things of `CoreStep` to
them, unless a task is cut off between what the database commits and what the pool records.
-/

namespace CommerceCollector

open Relational Tasks

/-- The accounts of the pool. -/
structure PoolCore where
  leases : List ReservedProxyLease
  pending : Uuid → Finset Uuid
  inFlight : Uuid → ℤ
  durableClosed : Uuid → Bool
  released : Uuid → Bool
  tokens : List ReservedToken
  reservations : List DurableReservation
  authorizations : List AttemptAuthorization

namespace PoolCore

/-- A token of the attempt was returned to a caller. -/
def Issued (c : PoolCore) (r a : Uuid) : Prop :=
  ∃ t ∈ c.tokens, t.authorizationId = a ∧ t.lease.ref.reservationId = r

/-- The database has the attempt of the reservation authorized. -/
def Authorized (c : PoolCore) (r a : Uuid) : Prop :=
  ∃ row ∈ c.authorizations, row.id = a ∧ row.reservationId = r ∧ row.state = .authorized

/-- The database has the attempt of the reservation resolved. -/
def Settled (c : PoolCore) (r a : Uuid) : Prop :=
  ∃ row ∈ c.authorizations, row.id = a ∧ row.reservationId = r ∧ row.state ≠ .authorized

/-- The database has the reservation. -/
def Reserved (c : PoolCore) (r : Uuid) : Prop := ∃ row ∈ c.reservations, row.id = r

/-- The database has the reservation closed. -/
def Closed (c : PoolCore) (r : Uuid) : Prop :=
  ∃ row ∈ c.reservations, row.id = r ∧ row.closed = true

/-- A lease of the pool holds the reservation. -/
def Held (c : PoolCore) (r : Uuid) : Prop := ∃ l ∈ c.leases, l.ref.reservationId = r

/-- What a task relies on. -/
def Claims (c : PoolCore) : PoolTask → Prop
  | .recording lease => c.Reserved lease.ref.reservationId
  | .authorizeRecord current _ a =>
    c.Authorized current.ref.reservationId a ∧ ∀ t ∈ c.tokens, t.authorizationId ≠ a
  | .resolveLock lease a _ | .durableResolve lease a _ => c.Issued lease.ref.reservationId a
  | .resolveRecord lease a _ _ | .innerResolve lease a _ _ => c.Settled lease.ref.reservationId a
  | .durableClose current => c.Reserved current.ref.reservationId
  | .innerRelease current => c.durableClosed current.ref.reservationId = true
  | _ => True

/-! ## Writes -/

/-- The database reserves. -/
def reserve (c : PoolCore) (row : DurableReservation) : PoolCore :=
  { c with reservations := c.reservations ++ [row] }

/-- A lease is recorded. -/
def record (c : PoolCore) (lease : ReservedProxyLease) : PoolCore :=
  { c with leases := c.leases ++ [lease] }

/-- A lease is replaced. -/
def replace (c : PoolCore) (ref : LeaseRef) (lease : ReservedProxyLease) : PoolCore :=
  { c with leases := update (fun l => l.ref == ref) (fun _ => lease) c.leases }

/-- `in_flight` of a reservation is changed. -/
def count (c : PoolCore) (r : Uuid) (k : ℤ) : PoolCore :=
  { c with inFlight := Function.update c.inFlight r (c.inFlight r + k) }

/-- The database authorizes an attempt. -/
def insertRow (c : PoolCore) (row : AttemptAuthorization) : PoolCore :=
  { c with authorizations := c.authorizations ++ [row] }

/-- An attempt is pending, and its token is returned. -/
def issue (c : PoolCore) (current : ReservedProxyLease) (a : Uuid) : PoolCore :=
  let r := current.ref.reservationId
  { c with
    pending := Function.update c.pending r (insert a (c.pending r))
    tokens := c.tokens ++ [{ authorizationId := a, lease := current }] }

/-- The database resolves an attempt. -/
def settle (c : PoolCore) (a : Uuid) (how : Resolution) : PoolCore :=
  { c with
    authorizations := update (fun row => row.id == a && row.state == .authorized)
      (ReservedProxyPool.resolvedRow how) c.authorizations }

/-- An attempt is no longer pending. -/
def forget (c : PoolCore) (r a : Uuid) : PoolCore :=
  { c with pending := Function.update c.pending r ((c.pending r).erase a) }

/-- A token is used up. -/
def spend (c : PoolCore) (a : Uuid) : PoolCore :=
  { c with
    tokens := update (fun t => t.authorizationId == a) (fun t => { t with resolved := true })
      c.tokens }

/-- The database closes a reservation. -/
def close (c : PoolCore) (r : Uuid) : PoolCore :=
  { c with
    reservations := update (fun row => row.id == r) (fun row => { row with closed := true })
      c.reservations }

/-- The pool notes that a reservation is closed. -/
def markClosed (c : PoolCore) (r : Uuid) : PoolCore :=
  { c with durableClosed := Function.update c.durableClosed r true }

/-- A lease is dropped. -/
def drop (c : PoolCore) (ref : LeaseRef) : PoolCore :=
  { c with
    leases := c.leases.filter fun l => l.ref != ref
    released := Function.update c.released ref.reservationId true }

end PoolCore

namespace PoolTask

/-- The attempt is counted in `in_flight` of the reservation. -/
def admits (r : Uuid) : PoolTask → ℕ
  | .durableAuthorize current _ | .authorizeFailed current _ _ | .authorizeDenied current _
  | .authorizeRecord current _ _ => if current.ref.reservationId = r then 1 else 0
  | _ => 0

/-- The lease of the reservation is about to be recorded. -/
def records (r : Uuid) : PoolTask → ℕ
  | .recording lease => if lease.ref.reservationId = r then 1 else 0
  | _ => 0

/-- The pending attempt is about to be forgotten. -/
def settles (r a : Uuid) : PoolTask → ℕ
  | .resolveRecord lease b _ _ => if lease.ref.reservationId = r ∧ b = a then 1 else 0
  | _ => 0

/-- The attempt whose token is about to be returned. -/
def issues : PoolTask → Option Uuid
  | .authorizeRecord _ _ a => some a
  | _ => none

/-- The attempt that the database is about to resolve. -/
def resolves : PoolTask → Option Uuid
  | .durableResolve _ a _ => some a
  | _ => none

/-- The task owes nothing to the accounts. -/
def light : PoolTask → Bool
  | .recording _ | .durableAuthorize _ _ | .authorizeFailed _ _ _ | .authorizeDenied _ _
  | .authorizeRecord _ _ _ | .resolveRecord _ _ _ _ => false
  | _ => true

/-- The task owes nothing to the accounts and relies on nothing. -/
def plain : PoolTask → Bool
  | .recording _ | .durableAuthorize _ _ | .authorizeFailed _ _ _ | .authorizeDenied _ _
  | .authorizeRecord _ _ _ | .resolveRecord _ _ _ _ | .resolveLock _ _ _ | .durableResolve _ _ _
  | .innerResolve _ _ _ _ | .durableClose _ | .innerRelease _ => false
  | _ => true

variable {t : PoolTask}

theorem light_of_plain (h : t.plain = true) : t.light = true := by
  cases t <;> first | rfl | cases h

theorem owes_of_light (h : t.light = true) (r a : Uuid) :
    t.admits r = 0 ∧ t.records r = 0 ∧ t.settles r a = 0 ∧ t.issues = none := by
  cases t <;> first | exact ⟨rfl, rfl, rfl, rfl⟩ | cases h

theorem claims_of_plain (h : t.plain = true) (c : PoolCore) : c.Claims t := by
  cases t <;> first | trivial | cases h

end PoolTask

namespace ReservedProxyPool

/-- The accounts. -/
def core (s : ReservedProxyPool) : PoolCore where
  leases := s.leases
  pending id := (s.states id).pendingAuthorizations
  inFlight id := (s.states id).inFlight
  durableClosed id := (s.states id).durableClosed
  released id := (s.states id).released
  tokens := s.tokens
  reservations := s.reservations
  authorizations := s.authorizations

/-- A cancellation, or a call of the database that raises although it has committed, does not come
between what is committed and what the pool records. -/
def NotCutOff (_ : ReservedProxyPool) (t : PoolTask) (reply : PoolReply) : Prop :=
  match t, reply with
  | .reserving _ _, .cancelled true | .reserving _ _, .raised true
  | .durableResolve _ _ _, .cancelled true | .durableResolve _ _ _, .raised true
  | .recording _, .cancelled _ | .authorizeFailed _ _ _, .cancelled _
  | .authorizeDenied _ _, .cancelled _ | .authorizeRecord _ _ _, .cancelled _
  | .resolveRecord _ _ _ _, .cancelled _ => False
  | _, _ => True

instance (s : ReservedProxyPool) (t : PoolTask) (reply : PoolReply) :
    Decidable (s.NotCutOff t reply) := by
  unfold NotCutOff
  split <;> infer_instance

/-- What a step does to the accounts. -/
inductive CoreStep (s : ReservedProxyPool) (t : PoolTask) :
    ReservedProxyPool × Option PoolTask → Prop
  /-- The task waits for the lock. -/
  | wait : CoreStep s t (s, some t)
  /-- Nothing. -/
  | quiet {s' : ReservedProxyPool} {next : Option PoolTask} (hcore : s'.core = s.core)
      (hown : t.light = true) (hnext : ∀ t' ∈ next, t'.plain = true) : CoreStep s t (s', next)
  /-- The resolution of a token goes on. -/
  | resolving {s' : ReservedProxyPool} {t' : PoolTask} (lease : ReservedProxyLease) (a : Uuid)
      (how : Resolution) (hnext : t' = .resolveLock lease a how ∨ t' = .durableResolve lease a how)
      (hissued : s.core.Issued lease.ref.reservationId a) (hcore : s'.core = s.core)
      (hown : t.light = true) : CoreStep s t (s', some t')
  /-- The database has reserved. -/
  | reserved {s' : ReservedProxyPool} (lease : ReservedProxyLease) (row : DurableReservation)
      (hrow : row.id = freshKey DurableReservation.id s.reservations)
      (href : lease.ref.reservationId = row.id) (hcore : s'.core = s.core.reserve row)
      (hown : t.light = true) : CoreStep s t (s', some (.recording lease))
  /-- A lease is recorded. -/
  | recorded {s' : ReservedProxyPool} (lease : ReservedProxyLease) (ht : t = .recording lease)
      (hcore : s'.core = s.core.record lease) : CoreStep s t (s', none)
  /-- A lease is replaced by one of the same reservation. -/
  | rotated {s' : ReservedProxyPool} (ref : LeaseRef) (lease : ReservedProxyLease)
      (href : lease.ref.reservationId = ref.reservationId)
      (hcore : s'.core = s.core.replace ref lease) (hown : t.light = true) :
      CoreStep s t (s', none)
  /-- An attempt is counted. -/
  | admitted {s' : ReservedProxyPool} (current : ReservedProxyLease) (n : ℤ)
      (hcore : s'.core = s.core.count current.ref.reservationId 1) (hown : t.light = true) :
      CoreStep s t (s', some (.durableAuthorize current n))
  /-- The database has not authorized an attempt, or the pool is not told. -/
  | unauthorized {s' : ReservedProxyPool} {t' : PoolTask} (current : ReservedProxyLease) (n : ℤ)
      (ht : t = .durableAuthorize current n)
      (hcore : s'.core = s.core ∨ ∃ row : AttemptAuthorization,
        row.id = freshKey AttemptAuthorization.id s.authorizations ∧
          row.state = .authorized ∧ s'.core = s.core.insertRow row)
      (hnext : (∃ e, t' = .authorizeFailed current n e) ∨ t' = .authorizeDenied current n) :
      CoreStep s t (s', some t')
  /-- The database has authorized an attempt. -/
  | authorized {s' : ReservedProxyPool} (current : ReservedProxyLease) (n : ℤ)
      (row : AttemptAuthorization) (ht : t = .durableAuthorize current n)
      (hrow : row.id = freshKey AttemptAuthorization.id s.authorizations)
      (hreservation : row.reservationId = current.ref.reservationId)
      (hstate : row.state = .authorized) (hcore : s'.core = s.core.insertRow row) :
      CoreStep s t (s', some (.authorizeRecord current n row.id))
  /-- An attempt is no longer counted. -/
  | unadmitted {s' : ReservedProxyPool} {t' : PoolTask} (current : ReservedProxyLease) (n : ℤ)
      (ht : (∃ e, t = .authorizeFailed current n e) ∨ t = .authorizeDenied current n)
      (hcore : s'.core = s.core.count current.ref.reservationId (-1)) (hnext : t'.plain = true) :
      CoreStep s t (s', some t')
  /-- A token is returned. -/
  | issued {s' : ReservedProxyPool} (current : ReservedProxyLease) (n : ℤ) (a : Uuid)
      (ht : t = .authorizeRecord current n a)
      (hcore : s'.core = (s.core.issue current a).count current.ref.reservationId (-1)) :
      CoreStep s t (s', none)
  /-- The database has resolved an attempt. -/
  | settled {s' : ReservedProxyPool} (lease : ReservedProxyLease) (a : Uuid) (how : Resolution)
      (usage : ProxyReservationUsage) (ht : t = .durableResolve lease a how)
      (hcore : s'.core = s.core.settle a how) :
      CoreStep s t (s', some (.resolveRecord lease a how usage))
  /-- An attempt is no longer pending. -/
  | forgotten {s' : ReservedProxyPool} (lease : ReservedProxyLease) (a : Uuid) (how : Resolution)
      (usage : ProxyReservationUsage) (ht : t = .resolveRecord lease a how usage)
      (hcore : s'.core = s.core.forget lease.ref.reservationId a) :
      CoreStep s t (s', some (.innerResolve lease a how usage))
  /-- A token is used up. -/
  | spent {s' : ReservedProxyPool} (lease : ReservedProxyLease) (a : Uuid) (how : Resolution)
      (usage : ProxyReservationUsage) (ht : t = .innerResolve lease a how usage)
      (hcore : s'.core = s.core.spend a) : CoreStep s t (s', none)
  /-- A lease is about to be closed. -/
  | closing {s' : ReservedProxyPool} (current : ReservedProxyLease) (hmem : current ∈ s.core.leases)
      (hcore : s'.core = s.core) (hown : t.light = true) :
      CoreStep s t (s', some (.durableClose current))
  /-- A closed lease is about to be given back. -/
  | leaving {s' : ReservedProxyPool} (current : ReservedProxyLease)
      (hclosed : s.core.durableClosed current.ref.reservationId = true) (hcore : s'.core = s.core)
      (hown : t.light = true) : CoreStep s t (s', some (.innerRelease current))
  /-- The database has closed a reservation, and the pool is not told. -/
  | closed {s' : ReservedProxyPool} (r : Uuid) (hcore : s'.core = s.core.close r)
      (hown : t.light = true) : CoreStep s t (s', none)
  /-- The database has closed a reservation. -/
  | closedNext {s' : ReservedProxyPool} (current : ReservedProxyLease)
      (ht : t = .durableClose current)
      (hcore : s'.core = (s.core.close current.ref.reservationId).markClosed
        current.ref.reservationId) : CoreStep s t (s', some (.innerRelease current))
  /-- A closed lease is dropped. -/
  | dropped {s' : ReservedProxyPool} (ref : LeaseRef)
      (hclosed : s.core.durableClosed ref.reservationId = true)
      (hcore : s'.core = s.core.drop ref) (hown : t.light = true) : CoreStep s t (s', none)

/-! ## The accounts after a write -/

section

variable (s : ReservedProxyPool)

theorem core_setState (id : Uuid)
    (f : DurableReservationState → DurableReservationState) :
    (s.setState id f).core = { s.core with
      pending := Function.update s.core.pending id (f (s.states id)).pendingAuthorizations
      inFlight := Function.update s.core.inFlight id (f (s.states id)).inFlight
      durableClosed := Function.update s.core.durableClosed id (f (s.states id)).durableClosed
      released := Function.update s.core.released id (f (s.states id)).released } := by
  have hcolumn : ∀ {γ : Type} (g : DurableReservationState → γ),
      (fun other => g ((s.setState id f).states other)) =
        Function.update (fun other => g (s.states other)) id (g (f (s.states id))) := by
    intro γ g
    funext other
    by_cases h : other = id
    · rw [h]
      simp
    · simp [h]
  simp only [core]
  rw [hcolumn, hcolumn, hcolumn, hcolumn]
  rfl

/-- A write of the flag of a reservation, or of what it has used, leaves the accounts. -/
theorem core_setState_same (id : Uuid)
    {f : DurableReservationState → DurableReservationState}
    (hpending : ∀ r, (f r).pendingAuthorizations = r.pendingAuthorizations)
    (hflight : ∀ r, (f r).inFlight = r.inFlight)
    (hclosed : ∀ r, (f r).durableClosed = r.durableClosed)
    (hreleased : ∀ r, (f r).released = r.released) : (s.setState id f).core = s.core := by
  rw [core_setState, hpending, hflight, hclosed, hreleased]
  simp [core]

theorem core_fail (id : Uuid) : (s.fail id).core = s.core :=
  core_setState_same s id (f := fun r => { r with reportingFailed := true }) (fun _ => rfl)
    (fun _ => rfl) (fun _ => rfl) fun _ => rfl

theorem core_raiseInFlight (id : Uuid) :
    (s.setState id fun r => { r with inFlight := r.inFlight + 1 }).core = s.core.count id 1 := by
  rw [core_setState]
  simp [core, PoolCore.count]

theorem core_lowerInFlight (id : Uuid) :
    (s.setState id fun r => { r with inFlight := r.inFlight - 1 }).core =
      s.core.count id (-1) := by
  rw [core_setState]
  simp [core, PoolCore.count, sub_eq_add_neg]

theorem core_discard (current : ReservedProxyLease) (n : ℤ)
    (e : Option PoolError) : (s.discard current n e).1.core = s.core :=
  core_setState_same s current.ref.reservationId (f := fun r => { r with reportingFailed := true })
    (fun _ => rfl) (fun _ => rfl) (fun _ => rfl) fun _ => rfl

theorem core_issueToken (current : ReservedProxyLease) (a : Uuid) :
    (s.issueToken current a).core = s.core.issue current a := by
  have hstate := core_setState s current.ref.reservationId fun r =>
    { r with pendingAuthorizations := insert a r.pendingAuthorizations }
  calc (s.issueToken current a).core
      = { (s.setState current.ref.reservationId fun r =>
            { r with pendingAuthorizations := insert a r.pendingAuthorizations }).core with
          tokens := s.core.tokens ++ [{ authorizationId := a, lease := current }] } := rfl
    _ = s.core.issue current a := by
        rw [hstate]
        simp [core, PoolCore.issue]

theorem core_settledState (r a : Uuid) (how : Resolution)
    (usage : ProxyReservationUsage) :
    (s.setState r (settledState a how usage)).core = s.core.forget r a := by
  rw [core_setState]
  cases how <;> simp [core, PoolCore.forget, settledState]

theorem core_markClosed (r : Uuid) :
    (s.setState r fun state => { state with durableClosed := true }).core =
      s.core.markClosed r := by
  rw [core_setState]
  simp [core, PoolCore.markClosed]

theorem core_dropLease (current : ReservedProxyLease) :
    (s.dropLease current).core = s.core.drop current.ref := by
  have hstate := core_setState s current.ref.reservationId fun r => { r with released := true }
  calc (s.dropLease current).core
      = { (s.setState current.ref.reservationId fun r => { r with released := true }).core with
          leases := s.core.leases.filter fun l => l.ref != current.ref } := rfl
    _ = s.core.drop current.ref := by
        rw [hstate]
        simp [core, PoolCore.drop]


end

/-! ## The inversion -/

section CoreStep

variable {s : ReservedProxyPool} {t : PoolTask} {reply : PoolReply}

theorem coreStep_finish (s' : ReservedProxyPool) (hcore : s'.core = s.core)
    (hown : t.light = true) (c : PoolCall) (answer : Except PoolError PoolAnswer) :
    CoreStep s t (s'.finish c answer) :=
  .quiet hcore hown (fun _ h => nomatch h)

theorem coreStep_next (s' : ReservedProxyPool) {t' : PoolTask} (hcore : s'.core = s.core)
    (hown : t.light = true) (hnext : t'.plain = true) : CoreStep s t (s', some t') := by
  apply CoreStep.quiet hcore hown
  rintro _ ⟨⟩
  exact hnext

theorem coreStep_withLock {c : PoolCall} {body : ReservedProxyPool × Option PoolTask}
    (hown : t.light = true) (hbody : CoreStep s t body) :
    CoreStep s t (s.withLock t c reply body) :=
  withLock_rule (fun _ _ => coreStep_finish s rfl hown _ _) .wait hbody

theorem coreStep_owned {c : PoolCall} {lease : LeaseRef}
    {body : ReservedProxyLease → ReservedProxyPool × Option PoolTask} (hown : t.light = true)
    (hbody : ∀ current, s.owned lease = some current → CoreStep s t (body current)) :
    CoreStep s t (s.withLock t c reply (s.ifOwned lease c body)) :=
  coreStep_withLock hown (ifOwned_rule (coreStep_finish s rfl hown _ _) hbody)

theorem coreStep_begin (c : PoolCall) : CoreStep s (.called c) (s.begin c) := by
  have hown : (PoolTask.called c).light = true := rfl
  cases c with
  | authorize lease n =>
    unfold begin
    dsimp only
    split
    · exact coreStep_finish s rfl hown _ _
    · exact coreStep_next s rfl hown rfl
  | resolve a how =>
    unfold begin
    dsimp only
    split
    · exact .quiet rfl hown (fun _ h => nomatch h)
    · next token hfind =>
      obtain ⟨hmem, hid⟩ := mem_of_find? hfind
      split
      · exact coreStep_finish s rfl hown _ _
      · exact .resolving token.lease a how (Or.inl rfl) ⟨token, hmem, beq_iff_eq.mp hid, rfl⟩ rfl
          hown
  | _ => exact coreStep_next s rfl hown rfl

theorem coreStep_beginRelease (hown : t.light = true) {current : ReservedProxyLease}
    (hmem : current ∈ s.leases) : CoreStep s t (s.beginRelease current) := by
  unfold beginRelease
  dsimp only
  split
  · exact coreStep_finish s rfl hown _ _
  · split
    · exact .closing current hmem rfl hown
    · next hclosed =>
      have hclosed : s.core.durableClosed current.ref.reservationId = true :=
        Bool.eq_true_of_not_eq_false hclosed
      split
      · exact .leaving current hclosed rfl hown
      · exact .dropped current.ref hclosed (core_dropLease s current) hown

theorem coreStep_endResolve {lease : ReservedProxyLease} {a : Uuid} {how : Resolution}
    {usage : ProxyReservationUsage} :
    CoreStep s (.innerResolve lease a how usage) (s.endResolve lease a how usage reply) := by
  have hfail : ((s.spendToken a).fail lease.ref.reservationId).core = s.core.spend a :=
    core_fail _ _
  unfold endResolve
  split
  · exact .spent lease a _ usage rfl hfail
  · exact .spent lease a _ usage rfl rfl
  · split
    · exact .spent lease a _ usage rfl rfl
    · exact .spent lease a _ usage rfl hfail

/-- **What a step does to the accounts**, unless it is cut off. -/
theorem coreStep_run (config : DurablePoolConfig) (hclaims : s.core.Claims t)
    (hcut : s.NotCutOff t reply) : CoreStep s t (s.run config t reply) := by
  cases t with
  | called c =>
    cases reply with
    | cancelled b => exact coreStep_finish s rfl rfl _ _
    | raised b => exact coreStep_begin c
    | returned a => exact coreStep_begin c
  | acquiring request =>
    unfold run
    dsimp only
    split
    · exact coreStep_finish s rfl rfl _ _
    · split <;> exact coreStep_next s rfl rfl rfl
  | reserving request inner =>
    cases reply with
    | cancelled b =>
      cases b with
      | true => exact hcut.elim
      | false => exact coreStep_next s rfl rfl rfl
    | raised b =>
      cases b with
      | true => exact hcut.elim
      | false => exact coreStep_next s rfl rfl rfl
    | returned a =>
      exact .reserved _
        { id := freshKey DurableReservation.id s.reservations
          reservedBytes := maximumBytes config request } rfl rfl rfl rfl
  | droppingLease request e => exact coreStep_finish s rfl rfl _ _
  | recording lease =>
    apply withLock_rule
    · rintro b rfl
      exact hcut.elim
    · exact .wait
    · exact .recorded lease rfl rfl
  | rotateLock lease =>
    apply coreStep_owned rfl
    intro current _
    split
    · exact coreStep_finish s rfl rfl _ _
    · exact coreStep_next _ rfl rfl rfl
  | innerRotate current =>
    unfold run
    dsimp only
    split
    · exact coreStep_finish (s := s) s.unlock rfl rfl _ _
    · split
      · exact coreStep_next s rfl rfl rfl
      · next answer _ _ _ _ =>
        apply CoreStep.rotated (s := s) current.ref { current with
          ref := (s.replaceLease current answer.innerLease).1
          inner := answer.innerLease }
        · rfl
        · rfl
        · rfl
  | rotateDrop current e => exact coreStep_finish (s := s) s.unlock rfl rfl _ _
  | authorizeLock lease n =>
    apply coreStep_owned rfl
    intro current _
    unfold beginAuthorize
    split
    · exact coreStep_finish s rfl rfl _ _
    · exact coreStep_next _ rfl rfl rfl
  | innerAuthorize current n =>
    unfold run
    dsimp only
    split
    · exact coreStep_finish (s := s) s.unlock rfl rfl _ _
    · split
      · exact coreStep_finish (s := s) s.unlock rfl rfl _ _
      · exact .admitted current n (core_raiseInFlight s.unlock _) rfl
  | durableAuthorize current n =>
    cases reply with
    | cancelled b =>
      cases b with
      | true => exact .unauthorized current n rfl (Or.inr ⟨_, rfl, rfl, rfl⟩) (Or.inl ⟨_, rfl⟩)
      | false => exact .unauthorized current n rfl (Or.inl rfl) (Or.inl ⟨_, rfl⟩)
    | raised b =>
      cases b with
      | true => exact .unauthorized current n rfl (Or.inr ⟨_, rfl, rfl, rfl⟩) (Or.inl ⟨_, rfl⟩)
      | false => exact .unauthorized current n rfl (Or.inl rfl) (Or.inl ⟨_, rfl⟩)
    | returned a =>
      unfold run
      dsimp only [PoolReply.outcome]
      split
      · exact .unauthorized current n rfl (Or.inl rfl) (Or.inr rfl)
      · exact .authorized current n
          { id := freshKey AttemptAuthorization.id s.authorizations
            reservationId := current.ref.reservationId
            estimatedBytes := n.toNat } rfl rfl rfl rfl rfl
  | authorizeFailed current n e =>
    apply withLock_rule
    · rintro b rfl
      exact hcut.elim
    · exact .wait
    · apply CoreStep.unadmitted current n (Or.inl ⟨e, rfl⟩)
      · apply (core_discard _ current n (some e)).trans
        apply (core_fail _ _).trans
        exact core_lowerInFlight s _
      · rfl
  | authorizeDenied current n =>
    apply withLock_rule
    · rintro b rfl
      exact hcut.elim
    · exact .wait
    · apply CoreStep.unadmitted current n (Or.inr rfl)
      · apply (core_discard _ current n none).trans
        exact core_lowerInFlight s _
      · rfl
  | authorizeRecord current n a =>
    apply withLock_rule
    · rintro b rfl
      exact hcut.elim
    · exact .wait
    · apply CoreStep.issued current n a rfl
      apply (core_lowerInFlight (s.issueToken current a) _).trans
      rw [core_issueToken]
  | discarding current n previous e =>
    unfold run
    dsimp only
    split
    · exact coreStep_finish (s := s)
        { s with failures := current.ref.reservationId :: s.failures } rfl rfl _ _
    · apply coreStep_finish
      · exact core_setState_same s _ (fun _ => rfl) (fun _ => rfl) (fun _ => rfl) fun _ => rfl
      · rfl
  | resolveLock lease a how =>
    apply coreStep_owned rfl
    intro current howned
    have hissued : s.core.Issued current.ref.reservationId a := by
      rw [(ref_of_owned howned).1]
      exact hclaims
    unfold beginResolve
    split
    · exact coreStep_finish s rfl rfl _ _
    · split
      · split
        · exact coreStep_finish s rfl rfl _ _
        · exact .resolving current a _ (Or.inr rfl) hissued rfl rfl
      · exact .resolving current a _ (Or.inr rfl) hissued rfl rfl
  | durableResolve lease a how =>
    cases reply with
    | cancelled b =>
      cases b with
      | true => exact hcut.elim
      | false => exact coreStep_finish _ (core_fail s _) rfl _ _
    | raised b =>
      cases b with
      | true => exact hcut.elim
      | false => exact coreStep_finish _ (core_fail s _) rfl _ _
    | returned answer => exact .settled lease a how answer.usage rfl rfl
  | resolveRecord lease a how usage =>
    apply withLock_rule
    · rintro b rfl
      exact hcut.elim
    · exact .wait
    · exact .forgotten lease a how usage rfl (core_settledState s _ _ _ _)
  | innerResolve lease a how usage => exact coreStep_endResolve
  | reportLock lease outcome =>
    apply coreStep_owned rfl
    intro current _
    split
    · exact coreStep_finish s rfl rfl _ _
    · exact coreStep_next _ rfl rfl rfl
  | innerReport current outcome => exact coreStep_finish (s := s) s.unlock rfl rfl _ _
  | releaseLock lease =>
    apply coreStep_withLock rfl
    split
    · exact coreStep_finish s rfl rfl _ _
    · apply ifOwned_rule
      · exact coreStep_finish s rfl rfl _ _
      · intro current howned
        exact coreStep_beginRelease rfl (ref_of_owned howned).2
  | durableClose current =>
    have hclosed : ((s.close current.ref.reservationId).fail
        current.ref.reservationId).unlock.core = s.core.close current.ref.reservationId :=
      core_fail (s.close current.ref.reservationId) _
    have hopen : (s.fail current.ref.reservationId).unlock.core = s.core := core_fail s _
    cases reply with
    | cancelled b =>
      cases b with
      | true => exact .closed current.ref.reservationId hclosed rfl
      | false => exact coreStep_finish (s := s) _ hopen rfl _ _
    | raised b =>
      cases b with
      | true => exact .closed current.ref.reservationId hclosed rfl
      | false => exact coreStep_finish (s := s) _ hopen rfl _ _
    | returned answer => exact .closedNext current rfl (core_markClosed (s.close _) _)
  | innerRelease current =>
    have hfailed : (s.fail current.ref.reservationId).unlock.core = s.core := core_fail s _
    unfold run
    dsimp only
    split
    · exact coreStep_finish (s := s) _ hfailed rfl _ _
    · have hsame : ∀ s' : ReservedProxyPool, s'.core = s.core →
          (s'.dropLease current).unlock.core = s.core.drop current.ref := by
        intro s' hs'
        rw [← hs']
        exact core_dropLease s' current
      apply CoreStep.dropped current.ref hclaims
      · apply hsame
        exact core_setState_same s _ (fun _ => rfl) (fun _ => rfl) (fun _ => rfl) fun _ => rfl
      · rfl

end CoreStep

end ReservedProxyPool

end CommerceCollector
