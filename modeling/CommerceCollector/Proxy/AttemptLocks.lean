import CommerceCollector.Proxy.Attempts

/-!
# What the locks of the attempts protect

A transaction relies on the rows that it has locked: the reservation of an authorization is still
the row it has read, and the attempts pending on it have only become fewer; the authorization of a
reconciliation is still in the state it has read.  `Holds` says what a suspended call relies on,
`Spares` what the statements of every other call leave alone.
-/

namespace CommerceCollector

open Relational Transaction Tasks

theorem ProxyLedger.step_authorizations {l : ProxyLedger} {a : ProxyLedger.Step}
    (ha : a.isOther = true) : (l.step a).authorizations = l.authorizations := by
  cases a with
  | reserve now workerNow request =>
    refine attempt_induction (P := fun l' : ProxyLedger => l'.authorizations = l.authorizations)
      rfl fun id l' hok => ?_
    obtain ⟨row, r, -, rfl, -⟩ := reserve_row hok
    rfl
  | authorize now id estimatedBytes maximumRequests => exact absurd ha (by simp [Step.isOther])
  | reconcileAttempt id actualBytes physicalRequests => exact absurd ha (by simp [Step.isOther])
  | releaseAttempt id => exact absurd ha (by simp [Step.isOther])
  | close now id usedBytes requests =>
    change (l.closeReservation now id usedBytes requests).authorizations = l.authorizations
    unfold closeReservation
    split
    · rfl
    · dsimp only
      split
      · rfl
      · split <;> rfl
  | closeStale now =>
    have hone : ∀ (t : ProxyLedger) (r : ProxyReservation), (t.requestReconcile
        ⟨r.provider, "stale_reservation", r.id, "reservation:" ++ toString r.id⟩).authorizations =
          t.authorizations := fun _ _ => rfl
    have hkeep : ∀ (rows : List ProxyReservation) (t : ProxyLedger),
        (rows.foldl (fun s r => s.requestReconcile ⟨r.provider, "stale_reservation", r.id,
          "reservation:" ++ toString r.id⟩) t).authorizations = t.authorizations :=
      fun rows t => Trace.foldl_keep hone t rows
    change (l.closeStaleReservations now).authorizations = l.authorizations
    unfold closeStaleReservations
    dsimp only
    rw [hkeep, foldl_advanceApplication (List.nodup_dedup _)]
    rfl
  | reconcile now key reportedBytes successful =>
    refine attempt_induction (P := fun l' : ProxyLedger => l'.authorizations = l.authorizations)
      rfl fun id l' hok => ?_
    rw [reconcile_rows hok]
  | killSwitch now provider action => cases action <;> rfl
  | administer key settings => rfl
  | surround around => rfl

namespace AttemptStore

/-- The reservation that an authorization has locked is the row that it has read. -/
structure LockedReservation (s : AttemptStore) (c : AuthorizeCall) (row : ProxyReservation) :
    Prop where
  id : row.id = c.reservationId
  locked : c.reservationId ∈ s.reservationLocks
  read : s.ledger.reservation c.reservationId = some row
  held : row.held = true

/-- The authorization that a reconciliation has locked is the row that it has read. -/
structure LockedAuthorization (s : AttemptStore) (c : ReconcileCall) (row : AttemptAuthorization)
    (state : AuthorizationState) : Prop where
  id : row.id = c.authorizationId
  locked : c.authorizationId ∈ s.authorizationLocks
  read : s.ledger.authorization c.authorizationId = some row
  state : row.state = state
  actual : 0 ≤ c.actualBytes ∧ 0 ≤ c.physicalRequests

/-- What a suspended call relies on. -/
def Holds (s : AttemptStore) : AttemptTask → Prop
  | .sumPending c row => s.LockedReservation c row
  | .insertAttempt c row => s.LockedReservation c row ∧ ¬ s.ledger.Exceeds c row
  | .recordActuals c row | .spendActuals c row => s.LockedAuthorization c row .authorized
  | .readUsage c row =>
    s.LockedAuthorization c row .authorized ∧ row.reservationId ∈ s.reservationLocks
  | .replay c row => s.LockedAuthorization c row .reconciled
  | _ => True

/-- Two calls have not locked the same row. -/
structure Apart (t u : AttemptTask) : Prop where
  reservation : ∀ id ∈ t.reservationLock, id ∉ u.reservationLock
  authorization : ∀ id ∈ t.authorizationLock, id ∉ u.authorizationLock

/-- What a statement of a call leaves of the rows that others have locked. -/
structure Spares (s : AttemptStore) (t : AttemptTask) (s' : AttemptStore) : Prop where
  reservations : ∀ id ∈ s.reservationLocks, id ∉ t.reservationLock → id ∈ s'.reservationLocks
  reservation : ∀ id ∈ s.reservationLocks, id ∉ t.reservationLock →
    s'.ledger.reservation id = s.ledger.reservation id ∧
      s'.ledger.pendingBytes id ≤ s.ledger.pendingBytes id ∧
      s'.ledger.pendingRequests id ≤ s.ledger.pendingRequests id
  authorizations : ∀ id ∈ s.authorizationLocks, id ∉ t.authorizationLock →
    id ∈ s'.authorizationLocks
  authorization : ∀ id ∈ s.authorizationLocks, id ∉ t.authorizationLock →
    ∀ row ∈ s.ledger.authorization id, row ∈ s'.ledger.authorization id

section Locks

variable {s s' : AttemptStore} {t u : AttemptTask}

theorem Holds.locked (h : s.Holds t) : (∀ id ∈ t.reservationLock, id ∈ s.reservationLocks) ∧
    ∀ id ∈ t.authorizationLock, id ∈ s.authorizationLocks := by
  cases t with
  | sumPending c row =>
    refine ⟨fun id hid => ?_, fun id hid => absurd hid (by simp [AttemptTask.authorizationLock])⟩
    rw [← Option.some.inj hid, h.id]
    exact h.locked
  | insertAttempt c row =>
    refine ⟨fun id hid => ?_, fun id hid => absurd hid (by simp [AttemptTask.authorizationLock])⟩
    rw [← Option.some.inj hid, h.1.id]
    exact h.1.locked
  | recordActuals c row =>
    refine ⟨fun id hid => absurd hid (by simp [AttemptTask.reservationLock]), fun id hid => ?_⟩
    rw [← Option.some.inj hid, h.id]
    exact h.locked
  | spendActuals c row =>
    refine ⟨fun id hid => absurd hid (by simp [AttemptTask.reservationLock]), fun id hid => ?_⟩
    rw [← Option.some.inj hid, h.id]
    exact h.locked
  | readUsage c row =>
    refine ⟨fun id hid => ?_, fun id hid => ?_⟩
    · rw [← Option.some.inj hid]
      exact h.2
    · rw [← Option.some.inj hid, h.1.id]
      exact h.1.locked
  | replay c row =>
    refine ⟨fun id hid => absurd hid (by simp [AttemptTask.reservationLock]), fun id hid => ?_⟩
    rw [← Option.some.inj hid, h.id]
    exact h.locked
  | called c => simp [AttemptTask.reservationLock, AttemptTask.authorizationLock]
  | checkProfile c => simp [AttemptTask.reservationLock, AttemptTask.authorizationLock]
  | checkRoute c => simp [AttemptTask.reservationLock, AttemptTask.authorizationLock]
  | lockReservation c => simp [AttemptTask.reservationLock, AttemptTask.authorizationLock]
  | readState id => simp [AttemptTask.reservationLock, AttemptTask.authorizationLock]
  | other a => simp [AttemptTask.reservationLock, AttemptTask.authorizationLock]

theorem Spares.holds (h : Spares s t s') (hu : s.Holds u) (hapart : Apart u t) : s'.Holds u := by
  obtain ⟨hreservation, hauthorization⟩ := hu.locked
  have hreserved : ∀ {c : AuthorizeCall} {row : ProxyReservation}, s.LockedReservation c row →
      c.reservationId ∉ t.reservationLock → s'.LockedReservation c row := by
    intro c row hrow hother
    refine ⟨hrow.id, h.reservations _ hrow.locked hother, ?_, hrow.held⟩
    rw [(h.reservation _ hrow.locked hother).1]
    exact hrow.read
  have hauthorized : ∀ {c : ReconcileCall} {row : AttemptAuthorization}
      {state : AuthorizationState}, s.LockedAuthorization c row state →
      row.id ∉ t.authorizationLock → s'.LockedAuthorization c row state := by
    intro c row state hrow hother
    rw [hrow.id] at hother
    exact ⟨hrow.id, h.authorizations _ hrow.locked hother,
      h.authorization _ hrow.locked hother row hrow.read, hrow.state, hrow.actual⟩
  cases u with
  | sumPending c row =>
    apply hreserved hu
    rw [← hu.id]
    exact hapart.reservation row.id rfl
  | insertAttempt c row =>
    have hother : c.reservationId ∉ t.reservationLock := by
      rw [← hu.1.id]
      exact hapart.reservation row.id rfl
    refine ⟨hreserved hu.1 hother, ?_⟩
    obtain ⟨-, hbytes, hrequests⟩ := h.reservation _ hu.1.locked hother
    have hfits := hu.2
    unfold ProxyLedger.Exceeds at hfits ⊢
    rw [not_or] at hfits ⊢
    refine ⟨by omega, fun hfull => hfits.2 ?_⟩
    obtain ⟨n, hn, hle⟩ := hfull
    exact ⟨n, hn, by omega⟩
  | recordActuals c row => exact hauthorized hu (hapart.authorization row.id rfl)
  | spendActuals c row => exact hauthorized hu (hapart.authorization row.id rfl)
  | readUsage c row =>
    refine ⟨hauthorized hu.1 (hapart.authorization row.id rfl), ?_⟩
    exact h.reservations _ hu.2 (hapart.reservation row.reservationId rfl)
  | replay c row => exact hauthorized hu (hapart.authorization row.id rfl)
  | called c => trivial
  | checkProfile c => trivial
  | checkRoute c => trivial
  | lockReservation c => trivial
  | readState id => trivial
  | other a => trivial

/-! ## What the statements leave alone -/

/-- A statement that writes nothing and gives up the locks of its call only. -/
theorem spares_of_ledger (hledger : s'.ledger = s.ledger)
    (hreservations : ∀ id ∈ s.reservationLocks, id ∉ t.reservationLock →
      id ∈ s'.reservationLocks)
    (hauthorizations : ∀ id ∈ s.authorizationLocks, id ∉ t.authorizationLock →
      id ∈ s'.authorizationLocks) : Spares s t s' := by
  refine ⟨hreservations, fun id _ _ => ?_, hauthorizations, fun id _ _ row hrow => ?_⟩
  · rw [hledger]
    exact ⟨rfl, le_rfl, le_rfl⟩
  · rw [hledger]
    exact hrow

theorem spares_refl (s : AttemptStore) (t : AttemptTask) : Spares s t s :=
  spares_of_ledger rfl (fun _ h _ => h) fun _ h _ => h

theorem mem_unlock (s : AttemptStore) (t : AttemptTask) :
    (∀ id ∈ s.reservationLocks, id ∉ t.reservationLock → id ∈ (s.unlock t).reservationLocks) ∧
      ∀ id ∈ s.authorizationLocks, id ∉ t.authorizationLock →
        id ∈ (s.unlock t).authorizationLocks := by
  constructor
  · intro id hid hother
    exact List.mem_filter.mpr ⟨hid, bne_iff_ne.mpr fun heq => hother (Option.mem_def.mpr heq)⟩
  · intro id hid hother
    exact List.mem_filter.mpr ⟨hid, bne_iff_ne.mpr fun heq => hother (Option.mem_def.mpr heq)⟩

theorem spares_finish (h : Spares s t s') (c : AttemptCall) (answer : Except String AttemptAnswer) :
    Spares s t (s'.finish t c answer).1 := by
  obtain ⟨hreservations, hauthorizations⟩ := mem_unlock s' t
  refine ⟨fun id hid hother => ?_, h.reservation, fun id hid hother => ?_, h.authorization⟩
  · exact hreservations id (h.reservations id hid hother) hother
  · exact hauthorizations id (h.authorizations id hid hother) hother

theorem spares_insert {c : AuthorizeCall} {row : ProxyReservation}
    (h : s.LockedReservation c row) :
    Spares s (.insertAttempt c row) { s with ledger := (s.ledger.insertAuthorization c).2 } := by
  refine ⟨fun _ hid _ => hid, fun id hid hother => ⟨rfl, ?_, ?_⟩, fun _ hid _ => hid,
    fun id _ _ b hb => ?_⟩
  · have hne : c.reservationId ≠ id := by
      rw [← h.id]
      exact fun heq => hother (congrArg some heq)
    unfold ProxyLedger.pendingBytes ProxyLedger.insertAuthorization
    dsimp only
    rw [total_append, total_cons, total_nil]
    simp [share, AttemptAuthorization.pendingOn, hne]
  · have hne : c.reservationId ≠ id := by
      rw [← h.id]
      exact fun heq => hother (congrArg some heq)
    unfold ProxyLedger.pendingRequests ProxyLedger.insertAuthorization
    dsimp only
    rw [List.countP_append]
    simp [AttemptAuthorization.pendingOn, hne]
  · unfold ProxyLedger.authorization ProxyLedger.insertAuthorization
    rw [Option.mem_def, List.find?_append, Option.or_eq_some_iff]
    exact Or.inl hb

theorem spares_spend (s : AttemptStore) (c : ReconcileCall) (row : AttemptAuthorization) :
    Spares s (.readUsage c row) { s with
      ledger := s.ledger.resolveAttempt row c.actualBytes.toNat c.physicalRequests.toNat } := by
  refine ⟨fun _ hid _ => hid, fun id _ hother => ⟨?_, ?_, ?_⟩, fun _ hid _ => hid,
    fun id _ hother b hb => ?_⟩
  · have hne : row.reservationId ≠ id := fun heq => hother (congrArg some heq)
    unfold ProxyLedger.reservation ProxyLedger.resolveAttempt
    dsimp only
    rw [find?_update_of_not]
    · exact fun _ => rfl
    · exact fun r hr => beq_eq_false_iff_ne.mpr fun heq => hne (heq.symm.trans hr)
  · unfold ProxyLedger.pendingBytes ProxyLedger.resolveAttempt
    apply total_update_le
    intro b _ _
    simp [share, AttemptAuthorization.pendingOn]
  · unfold ProxyLedger.pendingRequests ProxyLedger.resolveAttempt
    exact countP_update_le fun b _ _ hpending => absurd hpending
      (by simp [AttemptAuthorization.pendingOn])
  · have hne : row.id ≠ id := fun heq => hother (congrArg some heq)
    unfold ProxyLedger.authorization at hb ⊢
    unfold ProxyLedger.resolveAttempt
    dsimp only
    rw [find?_update_of_not]
    · exact hb
    · exact fun _ => rfl
    · exact fun a ha => beq_eq_false_iff_ne.mpr fun heq => hne (heq.symm.trans ha)

theorem spares_release {id : Uuid} (hfree : id ∉ s.authorizationLocks) :
    Spares s t { s with ledger := { s.ledger with
      authorizations := update (fun a => a.id == id && a.state == .authorized)
        (fun a => { a with state := .released }) s.ledger.authorizations } } := by
  refine ⟨fun _ hid _ => hid, fun other _ _ => ⟨rfl, ?_, ?_⟩, fun _ hid _ => hid,
    fun other hlocked _ b hb => ?_⟩
  · apply total_update_le
    intro b _ _
    simp [share, AttemptAuthorization.pendingOn]
  · exact countP_update_le fun b _ _ hpending => absurd hpending
      (by simp [AttemptAuthorization.pendingOn])
  · have hne : other ≠ id := fun heq => hfree (heq ▸ hlocked)
    unfold ProxyLedger.authorization at hb ⊢
    dsimp only
    rw [find?_update_of_not]
    · exact hb
    · exact fun _ => rfl
    · intro a ha
      simp [ha, hne]

theorem spares_other {a : ProxyLedger.Step} (ha : a.isOther = true)
    (hwaits : ∀ id ∈ s.reservationLocks,
      (s.ledger.step a).reservation id = s.ledger.reservation id) :
    Spares s t { s with ledger := s.ledger.step a } := by
  have hsame := ProxyLedger.step_authorizations (l := s.ledger) ha
  refine ⟨fun _ hid _ => hid, fun id hid _ => ⟨hwaits id hid, ?_, ?_⟩, fun _ hid _ => hid,
    fun id _ _ b hb => ?_⟩
  · unfold ProxyLedger.pendingBytes
    rw [hsame]
  · unfold ProxyLedger.pendingRequests
    rw [hsame]
  · unfold ProxyLedger.authorization
    rw [hsame]
    exact hb

/-! ## One statement -/

/-- What the next statement of a call does: it spares the rows of the others, what is left of the
call holds, and it has locked only rows that were free. -/
structure Proceeds (s : AttemptStore) (t : AttemptTask)
    (r : AttemptStore × Option AttemptTask) : Prop where
  spares : Spares s t r.1
  holds : ∀ t' ∈ r.2, r.1.Holds t'
  reservation : ∀ t' ∈ r.2, ∀ id ∈ t'.reservationLock,
    id ∈ t.reservationLock ∨ id ∉ s.reservationLocks
  authorization : ∀ t' ∈ r.2, ∀ id ∈ t'.authorizationLock,
    id ∈ t.authorizationLock ∨ id ∉ s.authorizationLocks

theorem proceeds_end (h : Spares s t s') : Proceeds s t (s', none) :=
  ⟨h, by simp, by simp, by simp⟩

theorem proceeds_finish (h : Spares s t s') (c : AttemptCall)
    (answer : Except String AttemptAnswer) : Proceeds s t (s'.finish t c answer) :=
  proceeds_end (spares_finish h c answer)

theorem proceeds_read {t' : AttemptTask} (h : s.Holds t')
    (hreservation : t'.reservationLock = t.reservationLock)
    (hauthorization : t'.authorizationLock = t.authorizationLock) :
    Proceeds s t (s, some t') := by
  refine ⟨spares_refl s t, ?_, ?_, ?_⟩
  · rintro _ ⟨⟩
    exact h
  · rintro _ ⟨⟩ id hid
    exact Or.inl (hreservation ▸ hid)
  · rintro _ ⟨⟩ id hid
    exact Or.inl (hauthorization ▸ hid)

theorem proceeds_goOn {ε : Type} (c : AttemptCall) {r : Except String ε}
    {next : ε → AttemptStore × Option AttemptTask}
    (h : ∀ a, r = .ok a → Proceeds s t (next a)) : Proceeds s t (s.goOn t c r next) := by
  cases r with
  | ok a => exact h a rfl
  | error e => exact proceeds_finish (spares_refl s t) _ _

theorem proceeds_lockAuthorization (s : AttemptStore) (c : ReconcileCall) :
    Proceeds s (.called (.reconcile c)) (s.lockAuthorization (.called (.reconcile c)) c) := by
  have hlock : ∀ {row : AttemptAuthorization} {t' : AttemptTask},
      c.authorizationId ∉ s.authorizationLocks →
      s.ledger.authorization c.authorizationId = some row →
      t'.reservationLock = none → t'.authorizationLock = some row.id →
      Holds { s with authorizationLocks := c.authorizationId :: s.authorizationLocks } t' →
      Proceeds s (.called (.reconcile c))
        ({ s with authorizationLocks := c.authorizationId :: s.authorizationLocks }, some t') := by
    intro row t' hfree hrow hreservation hauthorization hholds
    refine ⟨spares_of_ledger rfl (fun _ hid _ => hid) fun _ hid _ => List.mem_cons_of_mem _ hid,
      ?_, ?_, ?_⟩
    · rintro _ ⟨⟩
      exact hholds
    · rintro _ ⟨⟩ id hid
      exact absurd hid (by simp [hreservation])
    · rintro _ ⟨⟩ id hid
      rw [hauthorization] at hid
      obtain rfl : row.id = id := Option.some.inj hid
      rw [beq_iff_eq.mp (mem_of_find? hrow).2]
      exact Or.inr hfree
  unfold lockAuthorization
  split
  · exact proceeds_finish (spares_refl s _) _ _
  · next hactual =>
    split
    · exact proceeds_read trivial rfl rfl
    · next hfree =>
      cases hrow : s.ledger.authorization c.authorizationId with
      | none => exact proceeds_finish (spares_refl s _) _ _
      | some row =>
        have hid : row.id = c.authorizationId := beq_iff_eq.mp (mem_of_find? hrow).2
        have hlocked : ∀ {state : AuthorizationState}, row.state = state →
            LockedAuthorization
              { s with authorizationLocks := c.authorizationId :: s.authorizationLocks } c row
              state :=
          fun hstate => ⟨hid, by simp, hrow, hstate, by omega⟩
        dsimp only
        cases hstate : row.state with
        | released => exact proceeds_finish (spares_refl s _) _ _
        | authorized => exact hlock hfree hrow rfl rfl (hlocked hstate)
        | reconciled => exact hlock hfree hrow rfl rfl (hlocked hstate)

theorem proceeds_lockReservation (s : AttemptStore) (now : Time) (c : AuthorizeCall) :
    Proceeds s (.lockReservation c) (s.proceed now (.lockReservation c)) := by
  unfold proceed
  dsimp only
  split
  · exact proceeds_read trivial rfl rfl
  · next hfree =>
    refine proceeds_goOn _ fun row hrow => ?_
    unfold ProxyLedger.openReservation at hrow
    simp only [bind_eq_ok, getRow_eq_ok, require_eq_ok, pure_eq_ok, exists_const] at hrow
    obtain ⟨r, hread, hopen, -, rfl⟩ := hrow
    have hid : r.id = c.reservationId := beq_iff_eq.mp (mem_of_find? hread).2
    refine ⟨spares_of_ledger rfl (fun _ hid _ => List.mem_cons_of_mem _ hid) fun _ hid _ => hid,
      ?_, ?_, ?_⟩
    · rintro _ ⟨⟩
      exact ⟨hid, by simp, hread, hopen.1⟩
    · rintro _ ⟨⟩ id hlock
      obtain rfl : r.id = id := Option.some.inj hlock
      exact Or.inr (hid ▸ hfree)
    · rintro _ ⟨⟩ id hlock
      exact absurd hlock (by simp [AttemptTask.authorizationLock])

theorem proceeds_spendActuals {c : ReconcileCall} {row : AttemptAuthorization} (now : Time)
    (h : s.LockedAuthorization c row .authorized) :
    Proceeds s (.spendActuals c row) (s.proceed now (.spendActuals c row)) := by
  unfold proceed
  dsimp only
  split
  · exact proceeds_read h rfl rfl
  · next hfree =>
    refine ⟨spares_of_ledger rfl (fun _ hid _ => List.mem_cons_of_mem _ hid) fun _ hid _ => hid,
      ?_, ?_, ?_⟩
    · rintro _ ⟨⟩
      exact ⟨⟨h.id, h.locked, h.read, h.state, h.actual⟩, by simp⟩
    · rintro _ ⟨⟩ id hlock
      obtain rfl : row.reservationId = id := Option.some.inj hlock
      exact Or.inr hfree
    · rintro _ ⟨⟩ id hlock
      exact Or.inl hlock

theorem proceeds_releasePending (s : AttemptStore) (id : Uuid) :
    Proceeds s (.called (.release id)) (s.releasePending (.called (.release id)) id) := by
  unfold releasePending
  split
  · exact proceeds_read trivial rfl rfl
  · next hfree =>
    dsimp only
    split
    · exact proceeds_finish (spares_release hfree) _ _
    · exact proceeds_read trivial rfl rfl

/-- **Every statement spares the rows that the other calls have locked.** -/
theorem proceeds_run (h : s.Holds t) (reply : AttemptReply) : Proceeds s t (s.run t reply) := by
  cases reply with
  | lost =>
    obtain ⟨hreservations, hauthorizations⟩ := mem_unlock s t
    exact proceeds_end (spares_of_ledger rfl hreservations hauthorizations)
  | next now =>
    change Proceeds s t (s.proceed now t)
    cases t with
    | called c =>
      cases c with
      | authorize c => exact proceeds_goOn _ fun _ _ => proceeds_read trivial rfl rfl
      | reconcile c => exact proceeds_lockAuthorization s c
      | release id => exact proceeds_releasePending s id
    | checkProfile c => exact proceeds_goOn _ fun _ _ => proceeds_read trivial rfl rfl
    | checkRoute c => exact proceeds_goOn _ fun _ _ => proceeds_read trivial rfl rfl
    | lockReservation c => exact proceeds_lockReservation s now c
    | sumPending c row =>
      unfold proceed
      dsimp only
      split
      · exact proceeds_finish (spares_refl s _) _ _
      · next hfits => exact proceeds_read ⟨h, hfits⟩ rfl rfl
    | insertAttempt c row => exact proceeds_finish (spares_insert h.1) _ _
    | recordActuals c row => exact proceeds_read h rfl rfl
    | spendActuals c row => exact proceeds_spendActuals now h
    | readUsage c row => exact proceeds_goOn _ fun _ _ => proceeds_finish (spares_spend s c row) _ _
    | replay c row =>
      unfold proceed
      dsimp only
      split
      · exact proceeds_goOn _ fun _ _ => proceeds_finish (spares_refl s _) _ _
      · exact proceeds_finish (spares_refl s _) _ _
    | readState id =>
      unfold proceed
      dsimp only
      split
      · exact proceeds_finish (spares_refl s _) _ _
      · split <;> exact proceeds_finish (spares_refl s _) _ _
    | other a =>
      unfold proceed
      dsimp only
      split
      · next hother =>
        exact proceeds_end (spares_other hother.1 hother.2)
      · exact proceeds_read trivial rfl rfl

/-- What is left of a call has locked nothing that another call has locked. -/
theorem Proceeds.apart {r : AttemptStore × Option AttemptTask} (h : Proceeds s t r)
    (hu : s.Holds u) (hapart : Apart u t) {t' : AttemptTask} (ht' : t' ∈ r.2) : Apart u t' := by
  obtain ⟨hreservation, hauthorization⟩ := hu.locked
  constructor
  · intro id hid hnext
    rcases h.reservation t' ht' id hnext with hold | hfree
    · exact hapart.reservation id hid hold
    · exact hfree (hreservation id hid)
  · intro id hid hnext
    rcases h.authorization t' ht' id hnext with hold | hfree
    · exact hapart.authorization id hid hold
    · exact hfree (hauthorization id hid)

end Locks

end AttemptStore

end CommerceCollector
