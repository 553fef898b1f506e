import CommerceCollector.Proxy.ReservedPool

/-!
# The fail-closed latch of the durable proxy pool

Once an accounting call of a reservation has raised, `reporting_failed` is up.
`_discard_inner_authorization` saves the flag, raises it and puts the saved flag back after an
await. In the meantime other calls may have saved or raised it, too.  The latch holds along the runs
in which the flags are put back in order.
-/

namespace CommerceCollector

open Relational Tasks

namespace ReservedProxyPool

/-- `reporting_failed` of a reservation. -/
def reportingFailed (s : ReservedProxyPool) (id : Uuid) : Bool := (s.states id).reportingFailed

/-- A discarded authorization that has saved a lowered flag returns before any call has raised, and
every other one ends while the flag is up. -/
def RestoresInOrder (s : ReservedProxyPool) (t : PoolTask) (reply : PoolReply) : Prop :=
  match t, reply with
  | .discarding current _ false _, .returned _ => current.ref.reservationId ∉ s.failures
  | .discarding current _ _ _, _ => s.reportingFailed current.ref.reservationId = true
  | _, _ => True

instance (s : ReservedProxyPool) (t : PoolTask) (reply : PoolReply) :
    Decidable (s.RestoresInOrder t reply) := by
  unfold RestoresInOrder
  split <;> infer_instance

/-- Every failure has raised the flag of its reservation. -/
def Latched (s : ReservedProxyPool) : Prop := ∀ id ∈ s.failures, s.reportingFailed id = true

/-- The flag is up although no call has raised. -/
def alarm (id : Uuid) (s : ReservedProxyPool) : ℕ :=
  if s.reportingFailed id = true ∧ id ∉ s.failures then 1 else 0

end ReservedProxyPool

/-- The flag that a task has raised and will lower again. -/
def PoolTask.lowers (id : Uuid) : PoolTask → ℕ
  | .discarding current _ false _ => if current.ref.reservationId = id then 1 else 0
  | _ => 0

namespace ReservedProxyPool

/-! ## What a step does to the flag -/

theorem reportingFailed_setState (s : ReservedProxyPool) (id : Uuid)
    {f : DurableReservationState → DurableReservationState}
    (hf : ∀ r, (f r).reportingFailed = r.reportingFailed) :
    (s.setState id f).reportingFailed = s.reportingFailed := by
  funext other
  by_cases h : other = id
  · rw [h]
    simp [reportingFailed, hf]
  · simp [reportingFailed, h]

theorem reportingFailed_setFlag (s : ReservedProxyPool) (id : Uuid) (b : Bool) :
    (s.setState id fun r => { r with reportingFailed := b }).reportingFailed =
      Function.update s.reportingFailed id b := by
  funext other
  by_cases h : other = id
  · rw [h]
    simp [reportingFailed]
  · simp [reportingFailed, h]

theorem reportingFailed_fail (s : ReservedProxyPool) (id : Uuid) :
    (s.fail id).reportingFailed = Function.update s.reportingFailed id true :=
  reportingFailed_setFlag s id true

/-- What a step does to the flags and the failures. -/
inductive FlagStep (s : ReservedProxyPool) (t : PoolTask) (reply : PoolReply) :
    ReservedProxyPool × Option PoolTask → Prop
  /-- Nothing. -/
  | same {s' : ReservedProxyPool} {next : Option PoolTask}
      (hflags : s'.reportingFailed = s.reportingFailed) (hfailures : s'.failures = s.failures)
      (hown : ∀ id, t.lowers id = 0) (hnext : ∀ t' ∈ next, ∀ id, t'.lowers id = 0) :
      FlagStep s t reply (s', next)
  /-- An accounting call has raised. -/
  | failed {s' : ReservedProxyPool} {next : Option PoolTask} (id : Uuid)
      (hflags : s'.reportingFailed = Function.update s.reportingFailed id true)
      (hfailures : s'.failures = id :: s.failures) (hown : ∀ id, t.lowers id = 0)
      (hnext : ∀ t' ∈ next, ∀ id, t'.lowers id = 0) : FlagStep s t reply (s', next)
  /-- A flag is saved and raised. -/
  | saved {s' : ReservedProxyPool} (current : ReservedProxyLease) (n : ℤ) (e : Option PoolError)
      (hflags : s'.reportingFailed =
        Function.update s.reportingFailed current.ref.reservationId true)
      (hfailures : s'.failures = s.failures) (hown : ∀ id, t.lowers id = 0) :
      FlagStep s t reply
        (s', some (.discarding current n (s.reportingFailed current.ref.reservationId) e))
  /-- A saved flag is put back. -/
  | restored {s' : ReservedProxyPool} (current : ReservedProxyLease) (n : ℤ) (previous : Bool)
      (e : Option PoolError) (a : Returned) (htask : t = .discarding current n previous e)
      (hreply : reply = .returned a)
      (hflags : s'.reportingFailed =
        Function.update s.reportingFailed current.ref.reservationId previous)
      (hfailures : s'.failures = s.failures) : FlagStep s t reply (s', none)
  /-- The discarded authorization is not released. -/
  | unreleased {s' : ReservedProxyPool} (current : ReservedProxyLease) (n : ℤ) (previous : Bool)
      (e : Option PoolError) (htask : t = .discarding current n previous e)
      (hreply : ∀ a, reply ≠ .returned a) (hflags : s'.reportingFailed = s.reportingFailed)
      (hfailures : s'.failures = current.ref.reservationId :: s.failures) :
      FlagStep s t reply (s', none)

section FlagStep

variable {s s' : ReservedProxyPool} {t : PoolTask} {reply : PoolReply}

theorem flagStep_finish (s' : ReservedProxyPool) {c : PoolCall}
    {answer : Except PoolError PoolAnswer}
    (hflags : s'.reportingFailed = s.reportingFailed := by rfl)
    (hfailures : s'.failures = s.failures := by rfl)
    (hown : ∀ id, t.lowers id = 0 := by exact fun _ => rfl) :
    FlagStep s t reply (s'.finish c answer) :=
  .same hflags hfailures hown (fun _ h => nomatch h)

theorem flagStep_fail (s' : ReservedProxyPool) {id : Uuid} {c : PoolCall}
    {answer : Except PoolError PoolAnswer}
    (hflags : s'.reportingFailed = Function.update s.reportingFailed id true)
    (hfailures : s'.failures = id :: s.failures := by rfl)
    (hown : ∀ id, t.lowers id = 0 := by exact fun _ => rfl) :
    FlagStep s t reply (s'.finish c answer) :=
  .failed id hflags hfailures hown (fun _ h => nomatch h)

theorem flagStep_next {t' : PoolTask}
    (hflags : s'.reportingFailed = s.reportingFailed := by rfl)
    (hfailures : s'.failures = s.failures := by rfl)
    (hown : ∀ id, t.lowers id = 0 := by exact fun _ => rfl)
    (hnext : ∀ id, t'.lowers id = 0 := by exact fun _ => rfl) :
    FlagStep s t reply (s', some t') := by
  apply FlagStep.same hflags hfailures hown
  rintro _ ⟨⟩
  exact hnext

theorem flagStep_withLock {c : PoolCall} {body : ReservedProxyPool × Option PoolTask}
    (hown : ∀ id, t.lowers id = 0) (hbody : FlagStep s t reply body) :
    FlagStep s t reply (s.withLock t c reply body) :=
  withLock_rule (fun _ _ => flagStep_finish s rfl rfl hown) (flagStep_next rfl rfl hown hown) hbody

theorem flagStep_owned {c : PoolCall} {lease : LeaseRef}
    {body : ReservedProxyLease → ReservedProxyPool × Option PoolTask}
    (hown : ∀ id, t.lowers id = 0) (hbody : ∀ current, FlagStep s t reply (body current)) :
    FlagStep s t reply (s.withLock t c reply (s.ifOwned lease c body)) :=
  flagStep_withLock hown
    (ifOwned_rule (flagStep_finish s rfl rfl hown) (fun current _ => hbody current))

theorem flagStep_discard (current : ReservedProxyLease) (n : ℤ) (e : Option PoolError)
    (hflags : s'.reportingFailed = s.reportingFailed) (hfailures : s'.failures = s.failures)
    (hown : ∀ id, t.lowers id = 0) : FlagStep s t reply (s'.discard current n e) := by
  have hflag : (s'.states current.ref.reservationId).reportingFailed =
      s.reportingFailed current.ref.reservationId := by
    rw [← hflags]
    rfl
  unfold discard
  rw [hflag]
  apply FlagStep.saved current n e
  · rw [reportingFailed_setFlag, hflags]
  · exact hfailures
  · exact hown

end FlagStep

/-- **What a step does to the flags.** -/
theorem flagStep_run (config : DurablePoolConfig) (s : ReservedProxyPool) (t : PoolTask)
    (reply : PoolReply) : FlagStep s t reply (s.run config t reply) := by
  cases t with
  | called c =>
    have hbegin : FlagStep s (.called c) reply (s.begin c) := by
      cases c with
      | authorize lease n =>
        unfold begin
        dsimp only
        split
        · exact flagStep_finish s
        · exact flagStep_next
      | resolve id how =>
        unfold begin
        dsimp only
        split
        · exact .same rfl rfl (fun _ => rfl) (fun _ h => nomatch h)
        · split
          · exact flagStep_finish s
          · exact flagStep_next
      | _ => exact flagStep_next
    cases reply with
    | cancelled b => exact flagStep_finish s
    | raised b => exact hbegin
    | returned a => exact hbegin
  | acquiring request =>
    unfold run
    dsimp only
    split
    · exact flagStep_finish s
    · split <;> exact flagStep_next
  | reserving request inner =>
    unfold run
    dsimp only
    split <;> split <;> exact flagStep_next
  | droppingLease request e => exact flagStep_finish s
  | recording lease =>
    apply flagStep_withLock fun _ => rfl
    exact flagStep_finish _
  | rotateLock lease =>
    apply flagStep_owned fun _ => rfl
    intro current
    split
    · exact flagStep_finish s
    · exact flagStep_next
  | innerRotate current =>
    unfold run
    dsimp only
    split
    · exact flagStep_finish s.unlock
    · next answer _ =>
      split
      · exact flagStep_next
      · exact flagStep_finish (s.replaceLease current answer.innerLease).2.unlock
  | rotateDrop current e => exact flagStep_finish s.unlock
  | authorizeLock lease n =>
    apply flagStep_owned fun _ => rfl
    intro current
    unfold beginAuthorize
    split
    · exact flagStep_finish s
    · exact flagStep_next
  | innerAuthorize current n =>
    unfold run
    dsimp only
    split
    · exact flagStep_finish s.unlock
    · split
      · exact flagStep_finish s.unlock
      · exact flagStep_next (reportingFailed_setState s.unlock _ fun _ => rfl)
  | durableAuthorize current n =>
    unfold run
    dsimp only
    split
    · split <;> exact flagStep_next
    · split <;> exact flagStep_next
  | authorizeFailed current n e =>
    apply flagStep_withLock fun _ => rfl
    have hflags : ∀ f : DurableReservationState → DurableReservationState,
        (∀ r, (f r).reportingFailed = r.reportingFailed) →
        (((s.setState current.ref.reservationId f).fail
          current.ref.reservationId).discard current n (some e)).1.reportingFailed =
            Function.update s.reportingFailed current.ref.reservationId true := by
      intro f hf
      unfold discard
      rw [reportingFailed_setFlag, reportingFailed_fail, reportingFailed_setState s _ hf,
        Function.update_idem]
    apply FlagStep.failed current.ref.reservationId
    · exact hflags _ fun _ => rfl
    · rfl
    · exact fun _ => rfl
    · rintro _ ⟨⟩ id
      -- The flag that is saved here is the one that has just been raised.
      have hraised : ∀ s' : ReservedProxyPool, (((s'.fail current.ref.reservationId).states
          current.ref.reservationId).reportingFailed) = true := by
        intro s'
        have := congrFun (reportingFailed_fail s' current.ref.reservationId)
          current.ref.reservationId
        rwa [Function.update_self] at this
      rw [hraised]
      rfl
  | authorizeDenied current n =>
    apply flagStep_withLock fun _ => rfl
    apply flagStep_discard
    · exact reportingFailed_setState s _ fun _ => rfl
    · rfl
    · exact fun _ => rfl
  | authorizeRecord current n id =>
    apply flagStep_withLock fun _ => rfl
    have hissued : (s.issueToken current id).reportingFailed = s.reportingFailed :=
      reportingFailed_setState s current.ref.reservationId
        (f := fun r => { r with pendingAuthorizations := insert id r.pendingAuthorizations })
        fun _ => rfl
    exact flagStep_finish _ ((reportingFailed_setState _ _ (by intro r; rfl)).trans hissued)
  | discarding current n previous e =>
    cases reply with
    | cancelled b =>
      exact .unreleased current n previous e rfl (fun _ h => nomatch h) rfl rfl
    | raised b =>
      exact .unreleased current n previous e rfl (fun _ h => nomatch h) rfl rfl
    | returned a =>
      apply FlagStep.restored current n previous e a rfl rfl
      · exact reportingFailed_setFlag s _ previous
      · rfl
  | resolveLock lease id how =>
    apply flagStep_owned fun _ => rfl
    intro current
    unfold beginResolve
    split
    · exact flagStep_finish s
    · split
      · split
        · exact flagStep_finish s
        · exact flagStep_next
      · exact flagStep_next
  | durableResolve lease id how =>
    unfold run
    dsimp only
    split
    · split
      · exact flagStep_fail ((s.settle id how).fail lease.ref.reservationId) (reportingFailed_fail _ _)
      · exact flagStep_fail (s.fail lease.ref.reservationId) (reportingFailed_fail _ _)
    · split <;> exact flagStep_next
  | resolveRecord lease id how usage =>
    apply flagStep_withLock fun _ => rfl
    refine flagStep_next (reportingFailed_setState _ _ fun r => ?_)
    cases how <;> rfl
  | innerResolve lease id how usage =>
    have hfail : ((s.spendToken id).fail lease.ref.reservationId).reportingFailed =
        Function.update s.reportingFailed lease.ref.reservationId true := reportingFailed_fail _ _
    change FlagStep _ _ _ (s.endResolve lease id how usage reply)
    unfold endResolve
    split
    · exact flagStep_fail _ hfail
    · exact flagStep_finish (s.spendToken id)
    · split
      · exact flagStep_finish (s.spendToken id)
      · exact flagStep_fail _ hfail
  | reportLock lease outcome =>
    apply flagStep_owned fun _ => rfl
    intro current
    split
    · exact flagStep_finish s
    · exact flagStep_next
  | innerReport current outcome => exact flagStep_finish s.unlock
  | releaseLock lease =>
    have hdropped : ∀ current, (s.dropLease current).reportingFailed = s.reportingFailed :=
      fun current => reportingFailed_setState s current.ref.reservationId
        (f := fun r => { r with released := true }) fun _ => rfl
    apply flagStep_withLock fun _ => rfl
    split
    · exact flagStep_finish s
    · apply ifOwned_rule
      · exact flagStep_finish s
      · intro current _
        unfold beginRelease
        dsimp only
        split
        · exact flagStep_finish s
        · split
          · exact flagStep_next
          · split
            · exact flagStep_next
            · exact flagStep_finish _ (hdropped current)
  | durableClose current =>
    have hfail : ∀ s' : ReservedProxyPool, s'.reportingFailed = s.reportingFailed →
        (s'.fail current.ref.reservationId).unlock.reportingFailed =
          Function.update s.reportingFailed current.ref.reservationId true := by
      intro s' hs'
      exact (reportingFailed_fail s' _).trans (by rw [hs'])
    unfold run
    dsimp only
    split
    · split
      · exact flagStep_fail _ (hfail (s.close current.ref.reservationId) rfl)
      · exact flagStep_fail _ (hfail s rfl)
    · split
      · exact flagStep_next (reportingFailed_setState _ _ fun _ => rfl)
      · exact flagStep_next (reportingFailed_setState _ _ fun _ => rfl)
  | innerRelease current =>
    unfold run
    dsimp only
    split
    · exact flagStep_fail _ (reportingFailed_fail s _)
    · have hreleased : ∀ s' : ReservedProxyPool, s'.reportingFailed = s.reportingFailed →
          (s'.dropLease current).unlock.reportingFailed = s.reportingFailed := by
        intro s' hs'
        rw [← hs']
        exact reportingFailed_setState s' current.ref.reservationId
          (f := fun r => { r with released := true }) fun _ => rfl
      exact flagStep_finish _ (hreleased _ (reportingFailed_setState s _ fun _ => rfl))


/-! ## The latch -/

section Latch

variable {s : ReservedProxyPool} {t : PoolTask} {reply : PoolReply}
  {r : ReservedProxyPool × Option PoolTask}

theorem failures_of_flagStep (hstep : FlagStep s t reply r) {id : Uuid} (h : id ∈ s.failures) :
    id ∈ r.1.failures := by
  cases hstep with
  | same _ hfailures _ _ => exact hfailures ▸ h
  | failed _ _ hfailures _ _ => exact hfailures ▸ List.mem_cons_of_mem _ h
  | saved _ _ _ _ hfailures _ => exact hfailures ▸ h
  | restored _ _ _ _ _ _ _ _ hfailures => exact hfailures ▸ h
  | unreleased _ _ _ _ _ _ _ hfailures => exact hfailures ▸ List.mem_cons_of_mem _ h

theorem latched_of_flagStep (hstep : FlagStep s t reply r) (h : s.Latched)
    (horder : s.RestoresInOrder t reply) : r.1.Latched := by
  cases hstep with
  | same hflags hfailures _ _ =>
    intro id hid
    rw [hflags]
    exact h id (hfailures ▸ hid)
  | failed failed hflags hfailures _ _ =>
    intro id hid
    rw [hflags]
    by_cases heq : id = failed
    · rw [heq, Function.update_self]
    · rw [Function.update_of_ne heq]
      rw [hfailures] at hid
      exact h id (List.mem_of_ne_of_mem heq hid)
  | saved current _ _ hflags hfailures _ =>
    intro id hid
    rw [hflags]
    by_cases heq : id = current.ref.reservationId
    · rw [heq, Function.update_self]
    · rw [Function.update_of_ne heq]
      exact h id (hfailures ▸ hid)
  | restored current n previous e a htask hreply hflags hfailures =>
    subst htask hreply
    intro id hid
    rw [hflags]
    rw [hfailures] at hid
    by_cases heq : id = current.ref.reservationId
    · rw [heq, Function.update_self]
      cases previous with
      | true => rfl
      | false => exact absurd (heq ▸ hid) horder
    · rw [Function.update_of_ne heq]
      exact h id hid
  | unreleased current n previous e htask hreply hflags hfailures =>
    subst htask
    intro id hid
    rw [hflags]
    rw [hfailures] at hid
    by_cases heq : id = current.ref.reservationId
    · rw [heq]
      cases reply with
      | returned a => exact absurd rfl (hreply a)
      | cancelled b => cases previous <;> exact horder
      | raised b => cases previous <;> exact horder
    · exact h id (List.mem_of_ne_of_mem heq hid)

/-- A step in order adds no more false alarms than there are flags to be lowered. -/
theorem alarm_of_flagStep (hstep : FlagStep s t reply r) (horder : s.RestoresInOrder t reply)
    (id : Uuid) : r.1.alarm id = 0 ∨
      r.1.alarm id + t.lowers id ≤ s.alarm id + (r.2.map (PoolTask.lowers id)).getD 0 := by
  have hkeep : ∀ s' : ReservedProxyPool, s'.reportingFailed id = s.reportingFailed id →
      (id ∈ s'.failures ↔ id ∈ s.failures) → s'.alarm id = s.alarm id := by
    intro s' hflag hfailures
    simp only [alarm, hflag, hfailures]
  cases hstep with
  | same hflags hfailures hown _ =>
    right
    rw [hkeep _ (congrFun hflags id) (by rw [hfailures]), hown]
    exact Nat.le_add_right _ _
  | @failed s' next failed hflags hfailures hown _ =>
    by_cases heq : id = failed
    · left
      have hmem : id ∈ s'.failures := hfailures ▸ heq ▸ List.mem_cons_self
      simp [alarm, hmem]
    · right
      have hflag : s'.reportingFailed id = s.reportingFailed id := by
        rw [hflags, Function.update_of_ne heq]
      rw [hkeep _ hflag (by simp [hfailures, heq]), hown]
      exact Nat.le_add_right _ _
  | @saved s' current n e hflags hfailures hown =>
    right
    rw [hown]
    by_cases heq : id = current.ref.reservationId
    · subst heq
      cases hflag : s.reportingFailed current.ref.reservationId with
      | true =>
        rw [hkeep s' (by rw [hflags, Function.update_self, hflag]) (by rw [hfailures])]
        exact Nat.le_add_right _ _
      | false =>
        have hle : s'.alarm current.ref.reservationId ≤ 1 := by
          unfold alarm
          split <;> omega
        have hlowers : (PoolTask.discarding current n false e).lowers
            current.ref.reservationId = 1 := by
          simp [PoolTask.lowers]
        simp only [Option.map_some, Option.getD_some, hlowers]
        omega
    · rw [hkeep s' (by rw [hflags, Function.update_of_ne heq]) (by rw [hfailures])]
      exact Nat.le_add_right _ _
  | @restored s' current n previous e a htask hreply hflags hfailures =>
    subst htask hreply
    by_cases heq : id = current.ref.reservationId
    · subst heq
      cases previous with
      | false =>
        left
        have hflag : s'.reportingFailed current.ref.reservationId = false := by
          rw [hflags, Function.update_self]
        simp [alarm, hflag]
      | true =>
        right
        have hflag : s'.reportingFailed current.ref.reservationId =
            s.reportingFailed current.ref.reservationId := by
          rw [hflags, Function.update_self]
          exact horder.symm
        rw [hkeep s' hflag (by rw [hfailures])]
        exact Nat.le_add_right _ _
    · right
      have hown : (PoolTask.discarding current n previous e).lowers id = 0 := by
        cases previous
        · exact if_neg (Ne.symm heq)
        · rfl
      rw [hkeep s' (by rw [hflags, Function.update_of_ne heq]) (by rw [hfailures]), hown]
      exact Nat.le_add_right _ _
  | @unreleased s' current n previous e htask _ hflags hfailures =>
    subst htask
    by_cases heq : id = current.ref.reservationId
    · left
      have hmem : id ∈ s'.failures := hfailures ▸ heq ▸ List.mem_cons_self
      simp [alarm, hmem]
    · right
      have hown : (PoolTask.discarding current n previous e).lowers id = 0 := by
        cases previous
        · exact if_neg (Ne.symm heq)
        · rfl
      rw [hkeep s' (congrFun hflags id) (by simp [hfailures, heq]), hown]
      exact Nat.le_add_right _ _

end Latch

theorem respects_latched (config : DurablePoolConfig) :
    (reservedPoolProgram config).Respects Latched (fun _ _ => True) (fun _ _ => True)
      (fun _ => True) RestoresInOrder where
  symm _ _ _ := trivial
  start _ _ _ _ := trivial
  apart _ _ := trivial
  shared s t reply horder h _ := latched_of_flagStep (flagStep_run config s t reply) h horder
  own _ _ _ _ _ _ _ _ := trivial
  other _ _ _ _ _ _ _ _ _ := ⟨trivial, fun _ _ => trivial⟩

/-- A failed reservation authorizes nothing: the answer is `None`, if the lease is owned. -/
theorem authorize_of_failed (config : DurablePoolConfig) {s : ReservedProxyPool} {lease : LeaseRef}
    (hflag : s.reportingFailed lease.reservationId = true) (hfree : s.locked = false) (n : ℤ)
    (a : Returned) :
    s.run config (.authorizeLock lease n) (.returned a) =
      s.ifOwned lease (.authorize lease n) fun _ =>
        s.finish (.authorize lease n) (.ok (.token none)) := by
  have hbody : s.run config (.authorizeLock lease n) (.returned a) =
      s.ifOwned lease (.authorize lease n) fun current =>
        s.beginAuthorize (.authorize lease n) current n := by
    simp [run, withLock, hfree]
  rw [hbody]
  unfold ifOwned
  cases howned : s.owned lease with
  | none => rfl
  | some current =>
    have hcurrent : (s.states current.ref.reservationId).reportingFailed = true := by
      rw [(ref_of_owned howned).1]
      exact hflag
    simp [beginAuthorize, hcurrent]

end ReservedProxyPool

/-- The flags are put back in order along a run. -/
def RestoredInOrder (config : DurablePoolConfig) (turns : List (Turn PoolCall PoolReply)) : Prop :=
  Trace.Along (reservedPoolProgram config).step (Program.Meets ReservedProxyPool.RestoresInOrder)
    ⟨{}, []⟩ turns

instance (config : DurablePoolConfig) (turns : List (Turn PoolCall PoolReply)) :
    Decidable (RestoredInOrder config turns) :=
  inferInstanceAs (Decidable (Trace.Along _ _ _ _))

theorem failures_after (config : DurablePoolConfig) {turns later : List (Turn PoolCall PoolReply)}
    {id : Uuid} (h : id ∈ (reservedPoolAfter config turns).shared.failures) :
    id ∈ (reservedPoolAfter config (turns ++ later)).shared.failures := by
  have hrun : reservedPoolAfter config (turns ++ later) =
      Trace.exec (reservedPoolProgram config).step (reservedPoolAfter config turns) later :=
    Trace.exec_append _ _ _ _
  rw [hrun]
  apply Trace.exec_invariant (reservedPoolProgram config).step
    (I := fun p => id ∈ p.shared.failures) _ h
  intro p turn hp
  rcases (reservedPoolProgram config).step_cases p turn with
    heq | ⟨_, _, heq⟩ | ⟨_, reply, _, t, _, _, _, _, heq⟩
  · rw [heq]
    exact hp
  · rw [heq]
    exact hp
  · rw [heq]
    exact ReservedProxyPool.failures_of_flagStep
      (ReservedProxyPool.flagStep_run config p.shared t reply) hp

/-- **The latch.**  Along the runs in which the flags are put back in order, a reservation for which
an accounting call has raised keeps `reporting_failed`, and authorizes nothing any more; and one for
which none has raised has the flag down when all calls have returned. -/
theorem latch_of_restoredInOrder (config : DurablePoolConfig)
    (turns later : List (Turn PoolCall PoolReply)) (h : RestoredInOrder config (turns ++ later))
    (id : Uuid) :
    (id ∈ (reservedPoolAfter config turns).shared.failures →
      (reservedPoolAfter config (turns ++ later)).shared.reportingFailed id = true ∧
      ∀ lease n a, lease.reservationId = id →
        (reservedPoolAfter config (turns ++ later)).shared.locked = false →
        (reservedPoolAfter config (turns ++ later)).shared.run config (.authorizeLock lease n)
            (.returned a) =
          (reservedPoolAfter config (turns ++ later)).shared.ifOwned lease (.authorize lease n)
            fun _ => (reservedPoolAfter config (turns ++ later)).shared.finish
              (.authorize lease n) (.ok (.token none))) ∧
    (id ∉ (reservedPoolAfter config (turns ++ later)).shared.failures →
      (reservedPoolAfter config (turns ++ later)).tasks = [] →
      (reservedPoolAfter config (turns ++ later)).shared.reportingFailed id = false) := by
  have hrespects := ReservedProxyPool.respects_latched config
  have hfree : Program.Free ReservedProxyPool.Latched (fun _ _ => True) (fun _ _ => True)
      (⟨{}, []⟩ : Pool ReservedProxyPool PoolTask) :=
    Program.Free.of_shared (fun _ hid => nomatch hid)
  have hlatched := (hrespects.after hfree (fun _ _ => trivial) h).shared
  constructor
  · intro hfailed
    have hflag := hlatched id (failures_after config hfailed)
    refine ⟨hflag, ?_⟩
    rintro lease n a rfl hunlocked
    exact ReservedProxyPool.authorize_of_failed config hflag hunlocked n a
  · intro hnone hdone
    have hcovered := hrespects.covered (m := ReservedProxyPool.alarm id)
      (w := PoolTask.lowers id)
      (fun s t reply horder _ _ => (ReservedProxyPool.alarm_of_flagStep
        (ReservedProxyPool.flagStep_run config s t reply) horder id).imp_left
          fun h => h.trans_le (Nat.zero_le _))
      hfree (Nat.zero_le _) (fun _ _ => trivial) h
    have howed : Program.owed (PoolTask.lowers id)
        (reservedPoolAfter config (turns ++ later)) = 0 := Program.owed_of_empty _ hdone
    have hquiet : (reservedPoolAfter config (turns ++ later)).shared.alarm id = 0 :=
      Nat.le_zero.mp (howed ▸ hcovered)
    by_contra hflag
    rw [ReservedProxyPool.alarm, if_pos ⟨Bool.eq_true_of_not_eq_false hflag, hnone⟩] at hquiet
    exact absurd hquiet one_ne_zero

/-! ## Runs -/

/-- The database raises in an authorization. -/
def failingRun : List (Turn PoolCall PoolReply) :=
  acquireLease ++ beginAttempt 0 ++
    ([.resume 0 (.raised false), .resume 0 (.returned {}), .resume 0 (.returned {})] : List (Turn PoolCall PoolReply))

/-- The flag is up after the run in which the database raises. -/
theorem latch_of_restoredInOrder_failed :
    (reservedPoolAfter runConfig (failingRun ++ [])).shared.reportingFailed 0 = true := by
  have horder : RestoredInOrder runConfig (failingRun ++ []) := by decide +kernel
  have hfailed : 0 ∈ (reservedPoolAfter runConfig failingRun).shared.failures := by
    decide +kernel
  exact ((latch_of_restoredInOrder runConfig failingRun [] horder 0).1 hfailed).1

/-- A denied authorization discards its inner authorization while the release of an earlier attempt
raises; the discard then lowers the flag, and one more authorization is begun. -/
def loweringRun : List (Turn PoolCall PoolReply) :=
  acquireLease ++ beginAttempt 0 ++ ([.resume 0 (.returned {}), .resume 0 (.returned {})] : List (Turn PoolCall PoolReply)) ++
    beginAttempt 0 ++ ([.resume 0 (.returned { authorized := false }), .resume 0 (.returned {})] : List (Turn PoolCall PoolReply)) ++
    ([.spawn (.resolve 0 .release), .resume 1 (.returned {}), .resume 1 (.returned {}),
      .resume 1 (.raised false), .resume 0 (.returned {})] : List (Turn PoolCall PoolReply)) ++
    beginAttempt 0 ++ ([.resume 0 (.returned {}), .resume 0 (.returned {})] : List (Turn PoolCall PoolReply))

/-- Two denied authorizations discard their inner authorizations at the same time. -/
def raisingRun : List (Turn PoolCall PoolReply) :=
  acquireLease ++ beginAttempt 0 ++ beginAttempt 1 ++
    ([.resume 0 (.returned { authorized := false }), .resume 0 (.returned {}),
      .resume 1 (.returned { authorized := false }), .resume 1 (.returned {}),
      .resume 0 (.returned {}), .resume 0 (.returned {})] : List (Turn PoolCall PoolReply))

/-- In the first run a call has raised, the flag is down and the last authorization has a token; in
the second one nothing has raised, all calls have returned and the flag is up. -/
theorem latch_lost :
    ((reservedPoolAfter runConfig loweringRun).shared.failures = [0] ∧
      (reservedPoolAfter runConfig loweringRun).shared.reportingFailed 0 = false ∧
      (reservedPoolAfter runConfig loweringRun).shared.tokens.map (·.authorizationId) = [0, 1]) ∧
    ((reservedPoolAfter runConfig raisingRun).shared.failures = [] ∧
      (reservedPoolAfter runConfig raisingRun).tasks.length = 0 ∧
      (reservedPoolAfter runConfig raisingRun).shared.reportingFailed 0 = true) := by
  refine ⟨⟨?_, ?_, ?_⟩, ?_, ?_, ?_⟩ <;> decide +kernel

end CommerceCollector
