import CommerceCollector.Proxy.RoutedTransport

/-!
# What a call does to the routed transport

Between two awaits a call does a few of the things of `RouteStep`, one after the other.  A suspended
task is described by the route that it has checked out, by whether the transition is its own, by the
lease that is in its hands and by whether it is an `aclose` under way; the awaits themselves play no
part any more.

Two conditions are carried along: `waits`, that no `aclose` gives up waiting, and `fresh`, that a
rotation is requested because of the lease in use.
-/

namespace CommerceCollector

open Relational Tasks

/-! ## What a suspended task has -/

/-- The attempt is accounted for: what was authorized was dispatched and reconciled once. -/
def ProxyAttempt.Accounted (a : ProxyAttempt) : Prop :=
  (a.authorized = true → a.dispatched = true) ∧
    a.reconciled.length = a.authorized.toNat ∧ a.released = 0

namespace RoutedTask

/-- The route that the task has checked out. -/
def route? : RoutedTask → Option CheckedOutRoute
  | authorizing _ route | dispatched _ route _ | reporting _ route _ _ _ | resolving route _
  | checkingIn route _ | leftCheckIn route => some route
  | _ => none

/-- The task is in the middle of the transition. -/
def transits : RoutedTask → Bool
  | acquiring _ | closingOld _ _ _ | rotating _ _ | dropping _ _ _ | closingProxy _ | releasing _ _ =>
    true
  | _ => false

/-- The lease that is in the hands of the task, to be replaced or to be released. -/
def lease? : RoutedTask → Option ℕ
  | closingOld _ lease _ | rotating _ lease | closingProxy lease => some lease
  | _ => none

/-- The rotation that the task is about to ask for. -/
def rotation? : RoutedTask → Option PoolRotation
  | closingOld _ _ rotation => some rotation
  | _ => none

/-- The generation on which the failure was observed because of which a rotation is requested. -/
def observed? : RoutedTask → Option ℕ
  | called (.rotateIdentity _ observed) => observed
  | _ => none

/-- The task is an `aclose` under way. -/
def closes : RoutedTask → Bool
  | closeWait | closingProxy _ | releasing _ _ => true
  | _ => false

/-- The task has nothing and is no `aclose` under way. -/
def Idle (t : RoutedTask) : Prop :=
  t.route? = none ∧ t.transits = false ∧ t.lease? = none ∧ t.closes = false

/-- What has become of the attempt by the time the task is suspended. -/
def Stage (a : ProxyAttempt) : RoutedTask → Prop
  | authorizing _ _ =>
    a.authorized = false ∧ a.dispatched = false ∧ a.reconciled = [] ∧ a.released = 0
  | dispatched _ _ authorized | reporting _ _ authorized _ _ =>
    a.authorized = authorized ∧ a.dispatched = true ∧ a.reconciled = [] ∧ a.released = 0
  | _ => a.Accounted

end RoutedTask

/-- The task is cancelled. -/
def RoutedReply.isCancelled : RoutedReply → Bool
  | cancelled _ => true
  | _ => false

namespace RoutedTransport

/-! ## The steps -/

/-- A transition begins. -/
def enter (s : RoutedTransport) : RoutedTransport :=
  { s with transitioning := true, lease := none, pendingRotation := none, pendingObserved := none }

/-- A transition ends without a lease. -/
def leave (s : RoutedTransport) : RoutedTransport := { s with transitioning := false }

/-- A rotation is requested. -/
def request (s : RoutedTransport) (reason : RotationReason) (observed : Option ℕ) :
    RoutedTransport :=
  { s with pendingRotation := some reason, pendingObserved := observed }

/-- The pool has returned a lease. -/
def leased (s : RoutedTransport) : RoutedTransport := { s with leases := s.leases + 1 }

/-- The new lease is installed. -/
def installed (s : RoutedTransport) : RoutedTransport :=
  { s.leased with lease := some s.leases, generation := s.generation + 1, transitioning := false }

/-- The route of the lease in use. -/
def nextRoute (s : RoutedTransport) (lease : ℕ) : CheckedOutRoute :=
  ⟨s.attempts.length, s.generation, lease⟩

/-- A route is checked out. -/
def checkOut (s : RoutedTransport) (lease : ℕ) : RoutedTransport :=
  { s with active := s.active + 1, attempts := s.attempts ++ [{ route := s.nextRoute lease }] }

/-- The rotation of the lease in use. -/
def rotationOf (s : RoutedTransport) (lease : ℕ) : PoolRotation :=
  ⟨lease, s.generation, s.pendingRotation.getD .explicit, s.pendingObserved⟩

/-- The pool's `rotate` is called. -/
def rotate (s : RoutedTransport) (rotation : PoolRotation) : RoutedTransport :=
  { s with rotations := s.rotations ++ [rotation] }

/-- The pool has replaced a lease. -/
def replace (s : RoutedTransport) (lease : ℕ) : RoutedTransport :=
  { s with replaced := lease :: s.replaced }

/-- `aclose` begins. -/
def close (s : RoutedTransport) : RoutedTransport := { s with closed := true }

/-- `aclose` takes the lease. -/
def detach (s : RoutedTransport) : RoutedTransport :=
  { s with transitioning := true, lease := none }

/-- What a call does: from a state and a suspended task to a state and the task that is left. -/
inductive RouteStep (waits fresh : Prop) :
    RoutedTransport → RoutedTask → RoutedTransport → Option RoutedTask → Prop
  | idle {s t next} (ht : t.Idle) (hnext : ∀ t' ∈ next, t'.Idle) : RouteStep waits fresh s t s next
  | wait {s} : RouteStep waits fresh s .closeWait s (some .closeWait)
  | giveUp {s} (h : ¬waits) : RouteStep waits fresh s .closeWait s none
  | pass {s t t' route} (ht : t.route? = some route) (ht' : t'.route? = some route)
      (hstage : ∀ a, t.Stage a → t'.Stage a) : RouteStep waits fresh s t s (some t')
  | record {s t t' route f} (ht : t.route? = some route) (ht' : t'.route? = some route)
      (hroute : ∀ a, (f a).route = a.route) (hin : ∀ a, (f a).checkedIn = a.checkedIn)
      (hstage : ∀ a, t.Stage a → t'.Stage (f a)) :
      RouteStep waits fresh s t (s.record route f) (some t')
  | checkIn {s t next route} (ht : t.route? = some route) (hstage : ∀ a, t.Stage a → a.Accounted)
      (hnext : ∀ t' ∈ next, t'.Idle) : RouteStep waits fresh s t (s.checkIn route) next
  | checkOut {s t t' lease} (ht : t.Idle) (hclosed : s.closed = false)
      (htransitioning : s.transitioning = false) (hlease : s.lease = some lease)
      (hpending : s.pendingRotation = none) (ht' : t'.route? = some (s.nextRoute lease))
      (hstage : t'.Stage { route := s.nextRoute lease }) :
      RouteStep waits fresh s t (s.checkOut lease) (some t')
  | acquire {s t user} (ht : t.Idle) (hclosed : s.closed = false)
      (htransitioning : s.transitioning = false) (hlease : s.lease = none) (hactive : s.active = 0) :
      RouteStep waits fresh s t s.enter (some (.acquiring user))
  | replaceRoute {s t user lease} (ht : t.Idle) (hclosed : s.closed = false)
      (htransitioning : s.transitioning = false) (hlease : s.lease = some lease)
      (hpending : s.pendingRotation ≠ none) (hactive : s.active = 0) :
      RouteStep waits fresh s t s.enter (some (.closingOld user lease (s.rotationOf lease)))
  | request {s t reason observed} (ht : t.transits = false) (hclosed : s.closed = false)
      (htransitioning : s.transitioning = false)
      (hfresh : fresh → s.lease.isSome = true → ∀ g ∈ observed, g = s.generation) :
      RouteStep waits fresh s t (s.request reason observed) (some t)
  | close {s t} (ht : t.Idle) : RouteStep waits fresh s t s.close (some .closeWait)
  | closeEmpty {s} (htransitioning : s.transitioning = false) (hlease : s.lease = none) :
      RouteStep waits fresh s .closeWait s none
  | closeLease {s lease} (htransitioning : s.transitioning = false) (hactive : s.active = 0)
      (hlease : s.lease = some lease) :
      RouteStep waits fresh s .closeWait s.detach (some (.closingProxy lease))
  | release {s t t' lease} (ht : t.lease? = some lease) (htransits : t'.transits = true)
      (ht' : t'.lease? = none) (hroute : t'.route? = none) (hrotation : t'.rotation? = none)
      (hcloses : t'.closes = t.closes) :
      RouteStep waits fresh s t (s.release lease) (some t')
  | rotate {s user lease rotation} :
      RouteStep waits fresh s (.closingOld user lease rotation) (s.rotate rotation)
        (some (.rotating user lease))
  | replaced {s user lease} :
      RouteStep waits fresh s (.rotating user lease) (s.replace lease) (some (.acquiring user))
  | install {s user} :
      RouteStep waits fresh s (.acquiring user) s.installed (some (.routeWait user))
  | unbuilt {s user error} :
      RouteStep waits fresh s (.acquiring user) (s.leased.release s.leases)
        (some (.dropping user s.leases error))
  | leave {s t} (ht : t.transits = true) (hlease : t.lease? = none) :
      RouteStep waits fresh s t s.leave none
  | trans {s t s₁ t₁ s₂ next} (h₁ : RouteStep waits fresh s t s₁ (some t₁))
      (h₂ : RouteStep waits fresh s₁ t₁ s₂ next) : RouteStep waits fresh s t s₂ next

/-! ## The functions of the transport do these steps -/

variable {waits fresh : Prop}

variable {t : RoutedTask}

/-- `_checkout_proxy_route`. -/
theorem checkoutRoute_step (s : RoutedTransport) (ht : t.Idle) (user : RouteUser) :
    RouteStep waits fresh s t (s.checkoutRoute user).1 (s.checkoutRoute user).2.task := by
  unfold checkoutRoute
  split
  · exact .idle ht (by simp [RoutedNext.task])
  have hwait : ∀ t' ∈ (RoutedNext.goOn (.routeWait user)).task, t'.Idle := by
    intro t' ht'
    obtain rfl := Option.some.inj ht'
    exact ⟨rfl, rfl, rfl, rfl⟩
  split
  · exact .idle ht hwait
  rename_i hclosed htransitioning
  rw [Bool.not_eq_true] at hclosed htransitioning
  split
  · rename_i lease hlease hpending
    cases user with
    | rotation =>
      exact .checkOut ht hclosed htransitioning hlease hpending rfl ⟨by simp, by simp, rfl⟩
    | request r =>
      have hauthorize : RouteStep waits fresh s t (s.checkOut lease)
          (some (.authorizing r (s.nextRoute lease))) :=
        .checkOut ht hclosed htransitioning hlease hpending rfl ⟨rfl, rfl, rfl, rfl⟩
      dsimp only [useRoute]
      split
      · exact .trans hauthorize (.record rfl rfl (fun _ => rfl) (fun _ => rfl)
          fun a ha => ⟨ha.1, rfl, ha.2.2⟩)
      · exact hauthorize
  · rename_i hnot
    split
    · exact .idle ht hwait
    rename_i hactive
    rw [ne_eq, not_not] at hactive
    cases hlease : s.lease with
    | none => exact .acquire ht hclosed htransitioning hlease hactive
    | some lease =>
      exact .replaceRoute ht hclosed htransitioning hlease (fun h => hnot lease hlease h) hactive

/-- The end of `_replace_route`. -/
theorem install_step (s : RoutedTransport) (user : RouteUser) (built : Bool) :
    RouteStep waits fresh s (.acquiring user) (s.install user built).1
      (s.install user built).2.task := by
  unfold install
  dsimp only
  split
  · exact .trans .install (checkoutRoute_step _ ⟨rfl, rfl, rfl, rfl⟩ user)
  · exact .unbuilt

/-- `_rotate_identity`. -/
theorem requestRotation_step (s : RoutedTransport) (ht : t.Idle) (hclosed : s.closed = false)
    (htransitioning : s.transitioning = false) (reason : RotationReason) (observed : Option ℕ)
    (hfresh : fresh → s.pendingRotation = none → s.lease.isSome = true →
      ∀ g ∈ observed, g = s.generation) :
    RouteStep waits fresh s t (s.requestRotation reason observed).1
      (s.requestRotation reason observed).2.task := by
  unfold requestRotation
  split
  · rename_i hpending
    exact .trans (.request ht.2.1 hclosed htransitioning fun h => hfresh h hpending)
      (checkoutRoute_step _ ht .rotation)
  · exact checkoutRoute_step s ht .rotation

/-- `aclose`, each time it looks at the state. -/
theorem closeRoute_step (s : RoutedTransport) :
    RouteStep waits fresh s .closeWait s.closeRoute.1 s.closeRoute.2.task := by
  unfold closeRoute
  split
  · exact .wait
  rename_i hnot
  simp only [not_or, Bool.not_eq_true, ne_eq, not_not] at hnot
  split
  · rename_i hlease
    exact .closeEmpty hnot.1 hlease
  · rename_i lease hlease
    exact .closeLease hnot.1 hnot.2 hlease

variable {route : CheckedOutRoute}

/-- `_schedule_rotation`. -/
theorem scheduleRotation_step (s : RoutedTransport) (ht : t.route? = some route)
    (htransits : t.transits = false) (reason : RotationReason) (generation : ℕ) :
    RouteStep waits fresh s t (s.scheduleRotation reason generation) (some t) := by
  have hsame : RouteStep waits fresh s t s (some t) := .pass ht ht fun _ ha => ha
  unfold scheduleRotation
  split
  · exact hsame
  rename_i hnot
  simp only [not_or, Bool.not_eq_true] at hnot
  split
  · exact hsame
  rename_i hgeneration
  rw [ne_eq, not_not] at hgeneration
  split
  · refine .request htransits hnot.1 hnot.2 fun _ _ g hg => ?_
    rw [← hgeneration, ← Option.some.inj hg]
  · exact hsame

theorem settleAttempt_step (s : RoutedTransport) (ht : t.route? = some route) {authorized : Bool}
    (hstage : ∀ a, t.Stage a → a.authorized = authorized ∧ a.dispatched = true ∧
      a.reconciled = [] ∧ a.released = 0) (outcome : ProxyOutcome) (result : RoutedResult) :
    RouteStep waits fresh s t (s.settleAttempt route authorized true outcome result).1
      (s.settleAttempt route authorized true outcome result).2.task := by
  unfold settleAttempt
  cases authorized with
  | true =>
    simp only [↓reduceIte]
    refine .record ht rfl (fun _ => rfl) (fun _ => rfl) fun a ha => ?_
    obtain ⟨hauthorized, hdispatched, hreconciled, hreleased⟩ := hstage a ha
    exact ⟨fun _ => hdispatched, by simp [hauthorized, hreconciled], hreleased⟩
  | false =>
    simp only [Bool.false_eq_true, ↓reduceIte]
    refine .pass ht rfl fun a ha => ?_
    obtain ⟨hauthorized, hdispatched, hreconciled, hreleased⟩ := hstage a ha
    exact ⟨fun _ => hdispatched, by simp [hauthorized, hreconciled], hreleased⟩

/-- The end of an attempt's `request` of the proxy transport. -/
theorem answered_step (config : RoutingConfig) (s : RoutedTransport) (r : RoutedRequest)
    (route : CheckedOutRoute) (authorized : Bool) (reply : RoutedReply) :
    RouteStep waits fresh s (.dispatched r route authorized)
      (s.answered config r route authorized reply).1
      (s.answered config r route authorized reply).2.task := by
  unfold answered
  split
  · exact settleAttempt_step s (t := .dispatched r route authorized) rfl (fun _ ha => ha) _ _
  · exact .pass rfl rfl fun _ ha => ha
  · exact .pass rfl rfl fun _ ha => ha
  · exact settleAttempt_step s (t := .dispatched r route authorized) rfl (fun _ ha => ha) _ _
  · exact .pass rfl rfl fun _ ha => ha

theorem afterReport_step (config : RoutingConfig) (s : RoutedTransport) (ht : t.route? = some route)
    (htransits : t.transits = false) (result : RoutedResult) :
    RouteStep waits fresh s t (s.afterReport config route result) (some t) := by
  have hsame : RouteStep waits fresh s t s (some t) := .pass ht ht fun _ ha => ha
  unfold afterReport
  split
  · split
    · exact scheduleRotation_step s ht htransits _ _
    · exact scheduleRotation_step s ht htransits _ _
    · exact scheduleRotation_step s ht htransits _ _
    · exact hsame
  · exact hsame

/-- Unless the request of a rotation has no effect, the failure behind it was observed on the lease
in use. -/
def ObservedInUse (s : RoutedTransport) (observed : Option ℕ) : Prop :=
  s.closed = false → s.transitioning = false → s.pendingRotation = none → s.lease.isSome = true →
    ∀ g ∈ observed, g = s.generation

instance (s : RoutedTransport) (observed : Option ℕ) : Decidable (s.ObservedInUse observed) := by
  unfold ObservedInUse
  infer_instance

/-- The rotation that the call asks for is asked for because of the lease in use. -/
def RotatesFresh (s : RoutedTransport) (t : RoutedTask) : Prop := s.ObservedInUse t.observed?

/-- The call is no `aclose` that is cancelled while it waits. -/
def WaitsOn (t : RoutedTask) (reply : RoutedReply) : Prop :=
  ¬(t = .closeWait ∧ reply.isCancelled = true)

instance (t : RoutedTask) (reply : RoutedReply) : Decidable (WaitsOn t reply) :=
  inferInstanceAs (Decidable (¬_))

theorem begin_step (config : RoutingConfig) (s : RoutedTransport) (c : RoutedCall)
    (hfresh : fresh → s.RotatesFresh (.called c)) :
    RouteStep waits fresh s (.called c) (s.begin config c).1 (s.begin config c).2.task := by
  have hcalled : (RoutedTask.called c).Idle := ⟨rfl, rfl, rfl, rfl⟩
  have hended : ∀ result : RoutedResult, ∀ t' ∈ (RoutedNext.ended result).task, t'.Idle := by
    simp [RoutedNext.task]
  have hgo : ∀ t : RoutedTask, t.Idle → ∀ t' ∈ (RoutedNext.goOn t).task, t'.Idle := by
    intro t ht t' ht'
    exact Option.some.inj ht' ▸ ht
  cases c with
  | request r =>
    unfold begin
    dsimp only
    split
    · exact .idle hcalled (hended _)
    split
    · exact .idle hcalled (hgo _ ⟨rfl, rfl, rfl, rfl⟩)
    split
    · exact .idle hcalled (hgo _ ⟨rfl, rfl, rfl, rfl⟩)
    · exact checkoutRoute_step s hcalled _
  | rotateIdentity reason observed =>
    unfold begin
    dsimp only
    split
    · exact .idle hcalled (hended _)
    rename_i hclosed
    rw [Bool.not_eq_true] at hclosed
    split
    · exact .idle hcalled (hgo _ ⟨rfl, rfl, rfl, rfl⟩)
    rename_i htransitioning
    rw [Bool.not_eq_true] at htransitioning
    exact requestRotation_step s hcalled hclosed htransitioning reason observed
      fun h hpending hlease => hfresh h hclosed htransitioning hpending hlease
  | aclose =>
    unfold begin
    dsimp only
    split
    · exact .idle hcalled (hended _)
    · exact .trans (.close hcalled) (closeRoute_step _)

/-- **What a call does between two awaits.** -/
theorem run_step (config : RoutingConfig) (s : RoutedTransport) (t : RoutedTask)
    (reply : RoutedReply) :
    RouteStep (WaitsOn t reply) (s.RotatesFresh t) s t (s.run config t reply).1
      (s.run config t reply).2.task := by
  have hended : ∀ result : RoutedResult, ∀ t' ∈ (RoutedNext.ended result).task, t'.Idle := by
    simp [RoutedNext.task]
  cases t with
  | called c =>
    unfold run
    dsimp only
    split
    · exact .idle ⟨rfl, rfl, rfl, rfl⟩ (hended _)
    · exact begin_step config s c id
  | direct =>
    unfold run
    dsimp only
    split <;> exact .idle ⟨rfl, rfl, rfl, rfl⟩ (hended _)
  | rotationWait reason observed =>
    unfold run
    dsimp only
    split
    · exact .idle ⟨rfl, rfl, rfl, rfl⟩ (hended _)
    split
    · exact .idle ⟨rfl, rfl, rfl, rfl⟩ (hended _)
    rename_i hclosed
    split
    · refine .idle ⟨rfl, rfl, rfl, rfl⟩ fun t' ht' => ?_
      obtain rfl := Option.some.inj ht'
      exact ⟨rfl, rfl, rfl, rfl⟩
    rename_i htransitioning
    split
    · exact .idle ⟨rfl, rfl, rfl, rfl⟩ (hended _)
    rename_i hlease
    exact requestRotation_step s ⟨rfl, rfl, rfl, rfl⟩ (Bool.not_eq_true _ ▸ hclosed)
      (Bool.not_eq_true _ ▸ htransitioning) reason observed fun _ _ h => absurd h hlease
  | routeWait user =>
    unfold run
    dsimp only
    split
    · exact .idle ⟨rfl, rfl, rfl, rfl⟩ (hended _)
    · exact checkoutRoute_step s ⟨rfl, rfl, rfl, rfl⟩ user
  | acquiring user =>
    unfold run
    dsimp only
    split
    · exact .leave rfl rfl
    · exact .leave rfl rfl
    · exact install_step s user _
  | closingOld user lease rotation =>
    unfold run
    dsimp only
    split
    · exact .release rfl rfl rfl rfl rfl rfl
    · exact .release rfl rfl rfl rfl rfl rfl
    · exact .rotate
  | rotating user lease =>
    unfold run
    dsimp only
    split
    · exact .release rfl rfl rfl rfl rfl rfl
    · exact .release rfl rfl rfl rfl rfl rfl
    · exact .trans .replaced (install_step (s.replace lease) user _)
  | dropping user lease error =>
    unfold run
    dsimp only
    split <;> exact .leave rfl rfl
  | authorizing r route =>
    have hrefused : ∀ a, (RoutedTask.authorizing r route).Stage a → a.Accounted := by
      rintro a ⟨hauthorized, -, hreconciled, hreleased⟩
      exact ⟨by simp [hauthorized], by simp [hauthorized, hreconciled], hreleased⟩
    unfold run
    dsimp only
    split
    · exact .pass rfl rfl hrefused
    · exact .pass rfl rfl hrefused
    split
    · exact .record rfl rfl (fun _ => rfl) (fun _ => rfl) fun a ha => ⟨rfl, rfl, ha.2.2⟩
    · exact .pass rfl rfl hrefused
  | dispatched r route authorized => exact answered_step config s r route authorized reply
  | reporting r route authorized outcome result =>
    have hrfl : (RoutedTask.reporting r route authorized outcome result).route? = some route := rfl
    have hstage : ∀ a, (RoutedTask.reporting r route authorized outcome result).Stage a →
        a.authorized = authorized ∧ a.dispatched = true ∧ a.reconciled = [] ∧ a.released = 0 :=
      fun _ ha => ha
    unfold run
    dsimp only
    split
    · exact settleAttempt_step s hrfl hstage _ _
    · exact settleAttempt_step s hrfl hstage _ _
    · exact .trans (afterReport_step config s rfl rfl result)
        (settleAttempt_step _ hrfl hstage _ _)
  | resolving route result =>
    unfold run
    dsimp only
    split <;> exact .pass rfl rfl fun _ ha => ha
  | checkingIn route result =>
    unfold run
    dsimp only
    split
    · exact .pass rfl rfl fun _ ha => ha
    · refine .checkIn rfl (fun _ ha => ha) fun t' ht' => ?_
      obtain rfl := Option.some.inj ht'
      exact ⟨rfl, rfl, rfl, rfl⟩
  | returning result =>
    unfold run
    dsimp only
    split <;> exact .idle ⟨rfl, rfl, rfl, rfl⟩ (hended _)
  | leftCheckIn route => exact .checkIn rfl (fun _ ha => ha) (hended _)
  | closeWait =>
    unfold run
    dsimp only
    split
    · exact .giveUp fun h => h ⟨rfl, rfl⟩
    · exact closeRoute_step s
  | closingProxy lease => exact .release rfl rfl rfl rfl rfl rfl
  | releasing lease error => exact .leave rfl rfl

end RoutedTransport

end CommerceCollector
