import CommerceCollector.Proxy.RoutedRuns

/-!
# What the routed transport gives back

At most one lease is out at a time, and no lease is given back twice.  Every attempt that the pool
authorizes is reconciled exactly once, and every route that is checked out is checked in exactly
once.

A closed transport has given back every lease, unless an `aclose` was cancelled while it waited:
`_closed` is set before the wait, so that the next `aclose` returns at once.
-/

namespace CommerceCollector

open Relational Tasks RoutedTransport

variable (config : RoutingConfig) (turns : List (Turn RoutedCall RoutedReply))

theorem out_cases {lease : ℕ} (h : (routedAfter config turns).shared.Out lease) :
    (routedAfter config turns).shared.lease = some lease ∨
      ∃ t ∈ (routedAfter config turns).tasks, t.lease? = some lease := by
  have hcover : leaseOpen lease (routedAfter config turns).shared ≤
      Program.owed (hasLease lease) (routedAfter config turns) :=
    (respects_routed config fun _ _ _ => True).covered
      (fun s t reply _ hs ht => (run_step config s t reply).hands_lease hs ht lease)
      (Program.Free.of_shared sound_start) (Nat.zero_le _) (fun _ _ => trivial)
      (Program.along_trivial _ _ _)
  by_cases huse : (routedAfter config turns).shared.lease = some lease
  · exact Or.inl huse
  · have hopen : leaseOpen lease (routedAfter config turns).shared = 1 := leaseOpen_eq_one.mpr ⟨h, huse⟩
    obtain ⟨t, ht, hmine⟩ := Program.exists_of_owed (hopen ▸ hcover : 1 ≤ _)
    have hone : hasLease lease t = 1 := le_antisymm (Bool.toNat_le _) hmine
    exact Or.inr ⟨t, ht, of_decide_eq_true (Bool.toNat_eq_one.mp hone)⟩

/-- A task with a lease in its hands is the one of the transition, and no lease is in use. -/
theorem inHand {lease : ℕ} {t : RoutedTask} (ht : t ∈ (routedAfter config turns).tasks)
    (hlease : t.lease? = some lease) :
    (routedAfter config turns).shared.lease = none ∧ t.transits = true := by
  have hfree := free_routed config turns
  have hmine := transits_of_lease hlease
  exact ⟨hfree.shared.between ((hfree.each t ht).transits hmine), hmine⟩

theorem out_unique {l l' : ℕ} (h : (routedAfter config turns).shared.Out l)
    (h' : (routedAfter config turns).shared.Out l') : l = l' := by
  have hfree := free_routed config turns
  rcases out_cases config turns h with huse | ⟨t, ht, hlease⟩ <;>
    rcases out_cases config turns h' with huse' | ⟨u, hu, hlease'⟩
  · exact Option.some.inj (huse.symm.trans huse')
  · exact absurd (huse.symm.trans (inHand config turns hu hlease').1) (by simp)
  · exact absurd (huse'.symm.trans (inHand config turns ht hlease).1) (by simp)
  · -- Two tasks of the transition are one task.
    by_cases heq : t = u
    · subst heq
      exact Option.some.inj (hlease.symm.trans hlease')
    · have hapart : Apart t u := hfree.apart (fun _ _ h => h.symm) ht hu heq
      have hnot := hapart.transits (inHand config turns ht hlease).2
      exact absurd (hnot.symm.trans (inHand config turns hu hlease').2) Bool.false_ne_true

/-- A route that a task has is one of the lease in use, and that lease is out. -/
theorem route_inUse {t : RoutedTask} {route : CheckedOutRoute}
    (ht : t ∈ (routedAfter config turns).tasks) (hroute : t.route? = some route) :
    (routedAfter config turns).shared.lease = some route.lease ∧
      (routedAfter config turns).shared.Out route.lease := by
  have hfree := free_routed config turns
  obtain ⟨a, ha, rfl, hin, -⟩ := (hfree.each t ht).route route hroute
  have huse := (hfree.shared.inUse a ha hin).1
  exact ⟨huse, hfree.shared.owned _ huse⟩

/-- A closed transport that no `aclose` is about to empty has no lease, if none gave up waiting. -/
theorem closed_empty
    (h : Trace.Along (routedProgram config).step (Program.Meets fun _ t reply => WaitsOn t reply)
      ⟨{}, []⟩ turns)
    (hclosed : (routedAfter config turns).shared.closed = true)
    (hdone : ∀ t ∈ (routedAfter config turns).tasks, t.closes = false) :
    (routedAfter config turns).shared.lease = none ∧
      (routedAfter config turns).shared.transitioning = false := by
  have hcover : closeOpen (routedAfter config turns).shared ≤
      Program.owed isClose (routedAfter config turns) :=
    (respects_routed config fun _ t reply => WaitsOn t reply).covered
      (fun s t reply hwaits hs ht => (run_step config s t reply).hands_close hwaits hs ht)
      (Program.Free.of_shared sound_start) (Nat.zero_le _) (fun _ _ => trivial) h
  have howed : ¬0 < Program.owed isClose (routedAfter config turns) := by
    intro hpos
    obtain ⟨t, ht, hmine⟩ := Program.exists_of_owed hpos
    rw [isClose, hdone t ht] at hmine
    exact Nat.lt_irrefl 0 hmine
  have hzero : closeOpen (routedAfter config turns).shared = 0 := by omega
  simpa [closeOpen, hclosed] using hzero

/-- **What the transport gives back.**  At most one lease is out at a time, a route is used as long
as its lease is out and in use, and no lease is given back twice.  If no `aclose` is cancelled while
it waits, a closed transport has given every lease back exactly once as soon as no `aclose` is under
way. -/
theorem givenBack_of_waited :
    (∀ l l', (routedAfter config turns).shared.Out l → (routedAfter config turns).shared.Out l' →
      l = l') ∧
    (∀ t ∈ (routedAfter config turns).tasks, ∀ route, t.route? = some route →
      (routedAfter config turns).shared.lease = some route.lease ∧
        (routedAfter config turns).shared.Out route.lease) ∧
    ((routedAfter config turns).shared.replaced ++
      (routedAfter config turns).shared.released).Nodup ∧
    (Trace.Along (routedProgram config).step (Program.Meets fun _ t reply => WaitsOn t reply)
        ⟨{}, []⟩ turns →
      (routedAfter config turns).shared.closed = true →
      (∀ t ∈ (routedAfter config turns).tasks, t.closes = false) →
      ∀ l < (routedAfter config turns).shared.leases,
        ((routedAfter config turns).shared.replaced ++
          (routedAfter config turns).shared.released).count l = 1) := by
  have hfree := free_routed config turns
  refine ⟨fun l l' h h' => out_unique config turns h h',
    fun t ht route hroute => route_inUse config turns ht hroute, hfree.shared.back,
    fun h hclosed hdone l hl => ?_⟩
  obtain ⟨hlease, htransitioning⟩ := closed_empty config turns h hclosed hdone
  refine List.count_eq_one_of_mem hfree.shared.back ?_
  by_contra hnot
  rcases out_cases config turns ⟨hl, hnot⟩ with huse | ⟨t, ht, hmine⟩
  · rw [hlease] at huse
    exact absurd huse (by simp)
  · have htrue := (hfree.each t ht).transits (transits_of_lease hmine)
    exact Bool.false_ne_true (htransitioning.symm.trans htrue)

/-! ## A lease that is lost -/

/-- A source that goes through the proxy. -/
def alwaysProxied : RoutingConfig := { mode := .always, targetHost := "shop.example" }

/-- A call begins, and the first one goes on to be dispatched. -/
def dispatchFirst : List (Turn RoutedCall RoutedReply) :=
  [.spawn (.request { transmittedBytes := 100 }), .resume 0 (.returned {}), .resume 0 (.returned {}),
    .resume 0 (.returned {})]

/-- The first call is answered and ends. -/
def answerFirst : List (Turn RoutedCall RoutedReply) :=
  [.resume 0 (.returned {}), .resume 0 (.returned {}), .resume 0 (.returned {}),
    .resume 0 (.returned {}), .resume 0 (.returned {})]

/-- `aclose` is cancelled while it waits for the request, the request ends, and `aclose` is called
again. -/
def abandonedRun : List (Turn RoutedCall RoutedReply) :=
  dispatchFirst ++ [.spawn .aclose, .resume 1 (.returned {}), .resume 1 (.cancelled none)] ++
    answerFirst ++ [.spawn .aclose, .resume 0 (.returned {})]

/-- `aclose` waits until the request has ended. -/
def waitedRun : List (Turn RoutedCall RoutedReply) :=
  dispatchFirst ++ [.spawn .aclose, .resume 1 (.returned {})] ++ answerFirst ++
    [.resume 0 (.returned {}), .resume 0 (.returned {}), .resume 0 (.returned {})]

/-- No call is under way after the second `aclose`, and the lease was never given back. -/
theorem lease_lost :
    (routedAfter alwaysProxied abandonedRun).tasks = [] ∧
      (routedAfter alwaysProxied abandonedRun).shared.closed = true ∧
      (routedAfter alwaysProxied abandonedRun).shared.leases = 1 ∧
      (routedAfter alwaysProxied abandonedRun).shared.replaced = [] ∧
      (routedAfter alwaysProxied abandonedRun).shared.released = [] := by
  decide +kernel

/-- The lease of the run in which `aclose` waits is given back once. -/
theorem givenBack_of_waited_closed :
    (routedAfter alwaysProxied waitedRun).shared.released = [0] ∧
      ∀ l < (routedAfter alwaysProxied waitedRun).shared.leases,
        ((routedAfter alwaysProxied waitedRun).shared.replaced ++
          (routedAfter alwaysProxied waitedRun).shared.released).count l = 1 :=
  ⟨by decide +kernel, (givenBack_of_waited alwaysProxied waitedRun).2.2.2 (by decide +kernel)
    (by decide +kernel) (by decide +kernel)⟩

/-! ## Attempts -/

theorem exists_route {a : ProxyAttempt} (ha : a ∈ (routedAfter config turns).shared.attempts)
    (hin : a.checkedIn = 0) :
    ∃ t ∈ (routedAfter config turns).tasks, t.route? = some a.route ∧ t.Stage a := by
  have hfree := free_routed config turns
  have hcover : routeOpen a.route.id (routedAfter config turns).shared ≤
      Program.owed (hasRoute a.route.id) (routedAfter config turns) :=
    (respects_routed config fun _ _ _ => True).covered
      (fun s t reply _ _ _ => (run_step config s t reply).hands_route a.route.id)
      (Program.Free.of_shared sound_start) (Nat.zero_le _) (fun _ _ => trivial)
      (Program.along_trivial _ _ _)
  have hopen : routeOpen a.route.id (routedAfter config turns).shared = 1 :=
    Bool.toNat_eq_one.mpr (List.any_eq_true.mpr ⟨a, ha, by simp [hin]⟩)
  obtain ⟨t, ht, hmine⟩ := Program.exists_of_owed (hopen ▸ hcover : 1 ≤ _)
  have hone : hasRoute a.route.id t = 1 := le_antisymm (Bool.toNat_le _) hmine
  obtain ⟨route, hroute, hid⟩ := (Option.any_eq_true _ _).mp (Bool.toNat_eq_one.mp hone)
  obtain ⟨b, hb, rfl, -, hstage⟩ := (hfree.each t ht).route route hroute
  have heq : b = a := hfree.shared.nodup.eq_of_mem hb ha (beq_iff_eq.mp hid)
  subst heq
  exact ⟨t, ht, hroute, hstage⟩

theorem resolved_le {t : RoutedTask} {a : ProxyAttempt} (h : t.Stage a)
    (hroute : t.route? = some a.route) :
    a.reconciled.length + a.released ≤ a.authorized.toNat := by
  have haccounted : a.Accounted → a.reconciled.length + a.released ≤ a.authorized.toNat := by
    rintro ⟨-, hreconciled, hreleased⟩
    omega
  cases t with
  | authorizing r route =>
    obtain ⟨-, -, hreconciled, hreleased⟩ := h
    simp [hreconciled, hreleased]
  | dispatched r route authorized =>
    obtain ⟨-, -, hreconciled, hreleased⟩ := h
    simp [hreconciled, hreleased]
  | reporting r route authorized outcome result =>
    obtain ⟨-, -, hreconciled, hreleased⟩ := h
    simp [hreconciled, hreleased]
  | resolving route result => exact haccounted h
  | checkingIn route result => exact haccounted h
  | leftCheckIn route => exact haccounted h
  | _ => cases hroute

/-- **Every attempt is accounted once.**  An authorization is resolved at most once and a route
checked in at most once; when no call has the route any more, the authorization was reconciled
exactly once if the attempt was dispatched, and released exactly once otherwise, and the route was
checked in exactly once. -/
theorem attempts_accounted :
    ((routedAfter config turns).shared.attempts.map fun a => a.route.id).Nodup ∧
    ∀ a ∈ (routedAfter config turns).shared.attempts,
      a.reconciled.length + a.released ≤ a.authorized.toNat ∧ a.checkedIn ≤ 1 ∧
      ((∀ t ∈ (routedAfter config turns).tasks, t.route? ≠ some a.route) →
        a.reconciled.length = (a.authorized && a.dispatched).toNat ∧
          a.released = (a.authorized && !a.dispatched).toNat ∧ a.checkedIn = 1) := by
  have hfree := free_routed config turns
  refine ⟨hfree.shared.nodup, fun a ha => ?_⟩
  by_cases hin : a.checkedIn = 0
  · obtain ⟨t, ht, hroute, hstage⟩ := exists_route config turns ha hin
    exact ⟨resolved_le hstage hroute, by omega, fun hnone => absurd hroute (hnone t ht)⟩
  · obtain ⟨hone, hdispatched, hreconciled, hreleased⟩ := hfree.shared.settled a ha hin
    refine ⟨by omega, hone.le, fun _ => ?_⟩
    cases hauthorized : a.authorized with
    | true =>
      rw [hauthorized] at hreconciled
      simp [hdispatched hauthorized, hreconciled, hreleased, hone]
    | false =>
      rw [hauthorized] at hreconciled
      simp [List.length_eq_zero_iff.mp hreconciled, hreleased, hone]

end CommerceCollector
