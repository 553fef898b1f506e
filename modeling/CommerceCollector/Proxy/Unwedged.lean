import CommerceCollector.Proxy.PoolAccounts

/-!
# No reservation of the durable proxy pool is wedged

Between two calls nothing is in flight, the pending attempts of a reservation are those whose tokens
are out and that the database still has authorized, and every reservation that the database has is
closed or held by a lease; so once the tokens of a lease are resolved, its release closes the
reservation.  This holds in the runs in which no call is cut off between what the database commits
and what the pool records.
-/

namespace CommerceCollector

open Relational Tasks

namespace PoolCore

/-! ## The invariant -/

/-- What holds of the accounts between any two steps. -/
structure Sound (c : PoolCore) : Prop where
  attempts : Keyed AttemptAuthorization.id c.authorizations
  rows : Keyed DurableReservation.id c.reservations
  known : ∀ l ∈ c.leases, c.Reserved l.ref.reservationId
  tokens : ∀ r a, c.Issued r a → c.Authorized r a ∨ c.Settled r a
  issued : ∀ r a, c.Issued r a → c.Authorized r a → a ∈ c.pending r
  pending : ∀ r a, a ∈ c.pending r → c.Issued r a
  spent : ∀ t ∈ c.tokens, t.resolved = true →
    c.Settled t.lease.ref.reservationId t.authorizationId
  closed : ∀ r, c.durableClosed r = true → c.Closed r
  released : ∀ r, c.released r = true → c.durableClosed r = true

/-- What a step of another task leaves of the accounts; `resolved` is the attempt that it resolves
and `returned` the one whose token it returns, if any. -/
structure Later (resolved returned : Option Uuid) (c c' : PoolCore) : Prop where
  authorized : ∀ r a, c.Authorized r a → resolved ≠ some a → c'.Authorized r a
  settled : ∀ r a, c.Settled r a → c'.Settled r a
  issued : ∀ r a, c.Issued r a → c'.Issued r a
  tokens : ∀ t' ∈ c'.tokens,
    (∃ t ∈ c.tokens, t.authorizationId = t'.authorizationId) ∨ returned = some t'.authorizationId
  reserved : ∀ r, c.Reserved r → c'.Reserved r
  closed : ∀ r, c.durableClosed r = true → c'.durableClosed r = true

variable {c : PoolCore} {r r' a b : Uuid}

/-! ## Rows of the database -/

theorem row_unique (h : c.Sound) {row row' : AttemptAuthorization} (hrow : row ∈ c.authorizations)
    (hrow' : row' ∈ c.authorizations) (hid : row.id = row'.id) : row = row' :=
  h.attempts.eq_of_mem hrow hrow' hid

theorem not_settled_of_authorized (h : c.Sound) (ha : c.Authorized r a) : ¬ c.Settled r' a := by
  rintro ⟨row', hrow', hid', -, hstate'⟩
  obtain ⟨row, hrow, hid, -, hstate⟩ := ha
  exact hstate' (row_unique h hrow hrow' (hid.trans hid'.symm) ▸ hstate)

theorem reservation_unique (h : c.Sound) (ha : c.Authorized r a ∨ c.Settled r a)
    (ha' : c.Authorized r' a ∨ c.Settled r' a) : r = r' := by
  have hrow : ∀ {q : Uuid}, c.Authorized q a ∨ c.Settled q a →
      ∃ row ∈ c.authorizations, row.id = a ∧ row.reservationId = q := by
    rintro q (⟨row, hrow, hid, hq, -⟩ | ⟨row, hrow, hid, hq, -⟩) <;> exact ⟨row, hrow, hid, hq⟩
  obtain ⟨row, hmem, hid, rfl⟩ := hrow ha
  obtain ⟨row', hmem', hid', rfl⟩ := hrow ha'
  rw [row_unique h hmem hmem' (hid.trans hid'.symm)]

theorem ne_fresh (ha : c.Authorized r a ∨ c.Settled r a) :
    a ≠ freshKey AttemptAuthorization.id c.authorizations := by
  rcases ha with ⟨row, hrow, rfl, -⟩ | ⟨row, hrow, rfl, -⟩ <;>
    exact Nat.ne_of_lt (key_lt_freshKey hrow)

/-! ## The rows after a write -/

variable {row : AttemptAuthorization}

theorem authorized_insertRow (h : c.Authorized r a) : (c.insertRow row).Authorized r a := by
  obtain ⟨old, hold, hfacts⟩ := h
  exact ⟨old, List.mem_append_left _ hold, hfacts⟩

theorem settled_insertRow (h : c.Settled r a) : (c.insertRow row).Settled r a := by
  obtain ⟨old, hold, hfacts⟩ := h
  exact ⟨old, List.mem_append_left _ hold, hfacts⟩

theorem of_authorized_insertRow (h : (c.insertRow row).Authorized r a)
    (ha : a ≠ row.id) : c.Authorized r a := by
  obtain ⟨old, hold, hid, hfacts⟩ := h
  rcases List.mem_append.mp hold with hold | hnew
  · exact ⟨old, hold, hid, hfacts⟩
  · rw [List.mem_singleton.mp hnew] at hid
    exact absurd hid.symm ha

theorem of_settled_insertRow (hstate : row.state = .authorized)
    (h : (c.insertRow row).Settled r a) : c.Settled r a := by
  obtain ⟨old, hold, hid, hr, hold'⟩ := h
  rcases List.mem_append.mp hold with hold | hnew
  · exact ⟨old, hold, hid, hr, hold'⟩
  · rw [List.mem_singleton.mp hnew] at hold'
    exact absurd hstate hold'

theorem resolvedRow_keeps (how : Resolution) (row : AttemptAuthorization) :
    (ReservedProxyPool.resolvedRow how row).id = row.id ∧
      (ReservedProxyPool.resolvedRow how row).reservationId = row.reservationId ∧
      (ReservedProxyPool.resolvedRow how row).state ≠ .authorized := by
  cases how <;> exact ⟨rfl, rfl, by simp [ReservedProxyPool.resolvedRow]⟩

variable {how : Resolution}

theorem authorized_settle (h : c.Authorized r b) (hb : b ≠ a) :
    (c.settle a how).Authorized r b := by
  obtain ⟨row, hrow, rfl, hfacts⟩ := h
  exact ⟨row, mem_update_of_neg hrow (by simp [hb]), rfl, hfacts⟩

theorem settled_settle (h : c.Settled r b) : (c.settle a how).Settled r b := by
  obtain ⟨row, hrow, hid, hr, hstate⟩ := h
  exact ⟨row, mem_update_of_neg hrow (by simp [hstate]), hid, hr, hstate⟩

theorem settled_settle_self (h : c.Authorized r a ∨ c.Settled r a) :
    (c.settle a how).Settled r a := by
  rcases h with ⟨row, hrow, hid, hr, hstate⟩ | hsettled
  · obtain ⟨hid', hr', hstate'⟩ := resolvedRow_keeps how row
    exact ⟨_, mem_update_of_pos hrow (by simp [hid, hstate]), hid'.trans hid, hr'.trans hr, hstate'⟩
  · exact settled_settle hsettled

/-- What is authorized after an attempt is settled was authorized before. -/
theorem of_authorized_settle (h : (c.settle a how).Authorized r b) : c.Authorized r b := by
  obtain ⟨row, hrow, hid, hr, hstate⟩ := h
  obtain ⟨old, hold, rfl⟩ := mem_update.mp hrow
  split at hstate
  · exact absurd hstate (resolvedRow_keeps how old).2.2
  · next hp =>
    rw [if_neg hp] at hid hr
    exact ⟨old, hold, hid, hr, hstate⟩

/-- What is settled after an attempt is settled is that attempt or was settled before. -/
theorem of_settled_settle (h : (c.settle a how).Settled r b) (hb : b ≠ a) : c.Settled r b := by
  obtain ⟨row, hrow, hid, hr, hstate⟩ := h
  obtain ⟨old, hold, rfl⟩ := mem_update.mp hrow
  split at hstate
  · next hp =>
    rw [if_pos hp, (resolvedRow_keeps how old).1] at hid
    rw [Bool.and_eq_true, beq_iff_eq] at hp
    exact absurd (hid.symm.trans hp.1) hb
  · next hp =>
    rw [if_neg hp] at hid hr
    exact ⟨old, hold, hid, hr, hstate⟩

/-! ## Tokens and reservations after a write -/

theorem issued_spend (h : c.Issued r b) : (c.spend a).Issued r b := by
  obtain ⟨t, ht, hid, hr⟩ := h
  exact ⟨_, mem_update.mpr ⟨t, ht, rfl⟩, by split <;> exact hid, by split <;> exact hr⟩

theorem of_mem_spend {t' : ReservedToken} (h : t' ∈ (c.spend a).tokens) :
    ∃ t ∈ c.tokens, t'.authorizationId = t.authorizationId ∧ t'.lease = t.lease ∧
      (t'.resolved = true → t.resolved = true ∨ t.authorizationId = a) := by
  obtain ⟨t, ht, rfl⟩ := mem_update.mp h
  split
  · next hp => exact ⟨t, ht, rfl, rfl, fun _ => Or.inr (beq_iff_eq.mp hp)⟩
  · exact ⟨t, ht, rfl, rfl, fun hres => Or.inl hres⟩

theorem reserved_close (h : c.Reserved r') : (c.close r).Reserved r' := by
  obtain ⟨row, hrow, hid⟩ := h
  exact ⟨_, mem_update.mpr ⟨row, hrow, rfl⟩, by split <;> exact hid⟩

theorem closed_close (h : c.Closed r') : (c.close r).Closed r' := by
  obtain ⟨row, hrow, hid, hclosed⟩ := h
  refine ⟨_, mem_update.mpr ⟨row, hrow, rfl⟩, ?_, ?_⟩
  · split <;> exact hid
  · split
    · rfl
    · exact hclosed

theorem closed_close_self (h : c.Reserved r) : (c.close r).Closed r := by
  obtain ⟨row, hrow, hid⟩ := h
  exact ⟨_, mem_update_of_pos hrow (by simp [hid]), hid, rfl⟩

/-! ## Columns after a write -/

theorem mem_pending_issue {current : ReservedProxyLease} : b ∈ (c.issue current a).pending r ↔
    b ∈ c.pending r ∨ current.ref.reservationId = r ∧ a = b := by
  by_cases hr : r = current.ref.reservationId
  · rw [hr]
    simp [issue, or_comm, eq_comm]
  · simp [issue, Function.update_of_ne hr, Ne.symm hr]

theorem mem_pending_forget : b ∈ (c.forget r a).pending r' ↔
    b ∈ c.pending r' ∧ ¬ (r = r' ∧ a = b) := by
  by_cases hr : r' = r
  · rw [hr]
    simp [forget, and_comm, eq_comm]
  · simp [forget, Function.update_of_ne hr, Ne.symm hr]

theorem durableClosed_markClosed : (c.markClosed r).durableClosed r' = true ↔
    r' = r ∨ c.durableClosed r' = true := by
  by_cases hr : r' = r
  · simp [markClosed, hr]
  · simp [markClosed, hr]

theorem released_drop {ref : LeaseRef} : (c.drop ref).released r' = true ↔
    r' = ref.reservationId ∨ c.released r' = true := by
  by_cases hr : r' = ref.reservationId
  · simp [drop, hr]
  · simp [drop, hr]

/-! ## The writes keep the invariant -/

section

variable (h : c.Sound)

include h

theorem sound_reserve {row : DurableReservation}
    (hrow : row.id = freshKey DurableReservation.id c.reservations) : (c.reserve row).Sound :=
  { h with
    rows := h.rows.append_fresh hrow
    known l hl := by
      obtain ⟨old, hold, hid⟩ := h.known l hl
      exact ⟨old, List.mem_append_left _ hold, hid⟩
    closed q hq := by
      obtain ⟨old, hold, hid⟩ := h.closed q hq
      exact ⟨old, List.mem_append_left _ hold, hid⟩ }

theorem sound_record {lease : ReservedProxyLease}
    (hlease : c.Reserved lease.ref.reservationId) : (c.record lease).Sound :=
  { h with
    known l hl := by
      rcases List.mem_append.mp hl with hl | hl
      · exact h.known l hl
      · rw [List.mem_singleton.mp hl]
        exact hlease }

theorem sound_replace {ref : LeaseRef} {lease : ReservedProxyLease}
    (href : lease.ref.reservationId = ref.reservationId) : (c.replace ref lease).Sound :=
  { h with
    known l hl := by
      obtain ⟨old, hold, rfl⟩ := mem_update.mp hl
      split
      · next hp =>
        rw [href, ← beq_iff_eq.mp hp]
        exact h.known old hold
      · exact h.known old hold }

theorem sound_count (r : Uuid) (k : ℤ) : (c.count r k).Sound :=
  { h with }

theorem sound_insertRow
    (hrow : row.id = freshKey AttemptAuthorization.id c.authorizations) :
    (c.insertRow row).Sound :=
  { h with
    attempts := h.attempts.append_fresh hrow
    tokens q b hb := (h.tokens q b hb).imp authorized_insertRow settled_insertRow
    issued q b hb hauthorized :=
      h.issued q b hb (of_authorized_insertRow hauthorized (hrow ▸ ne_fresh (h.tokens q b hb)))
    spent t ht hres := settled_insertRow (h.spent t ht hres) }

theorem sound_issue {current : ReservedProxyLease}
    (hauthorized : c.Authorized current.ref.reservationId a) : (c.issue current a).Sound := by
  have hissued : ∀ {q b : Uuid}, (c.issue current a).Issued q b →
      c.Issued q b ∨ current.ref.reservationId = q ∧ a = b := by
    rintro q b ⟨t, ht, rfl, rfl⟩
    rcases List.mem_append.mp ht with ht | ht
    · exact Or.inl ⟨t, ht, rfl, rfl⟩
    · rw [List.mem_singleton.mp ht]
      exact Or.inr ⟨rfl, rfl⟩
  exact {
    attempts := h.attempts
    rows := h.rows
    known := h.known
    tokens := by
      intro q b hb
      rcases hissued hb with hold | ⟨rfl, rfl⟩
      · exact h.tokens q b hold
      · exact Or.inl hauthorized
    issued := by
      intro q b hb hauthorized
      rcases hissued hb with hold | hnew
      · exact mem_pending_issue.mpr (Or.inl (h.issued q b hold hauthorized))
      · exact mem_pending_issue.mpr (Or.inr hnew)
    pending := by
      intro q b hb
      rcases mem_pending_issue.mp hb with hold | ⟨rfl, rfl⟩
      · obtain ⟨t, ht, hfacts⟩ := h.pending q b hold
        exact ⟨t, List.mem_append_left _ ht, hfacts⟩
      · exact ⟨_, List.mem_append_right _ (List.mem_singleton.mpr rfl), rfl, rfl⟩
    spent := by
      intro t ht hres
      rcases List.mem_append.mp ht with ht | ht
      · exact h.spent t ht hres
      · rw [List.mem_singleton.mp ht] at hres
        cases hres
    closed := h.closed
    released := h.released }

end

theorem sound_settle (h : c.Sound) (a : Uuid) (how : Resolution) : (c.settle a how).Sound :=
  { h with
    attempts := h.attempts.update fun row => (resolvedRow_keeps how row).1
    tokens q b hb := by
      by_cases hab : b = a
      · rw [hab] at hb ⊢
        exact Or.inr (settled_settle_self (h.tokens q a hb))
      · exact (h.tokens q b hb).imp (fun hauth => authorized_settle hauth hab) settled_settle
    issued q b hb hauthorized := h.issued q b hb (of_authorized_settle hauthorized)
    spent t ht hres := settled_settle (h.spent t ht hres) }

theorem sound_forget (h : c.Sound) (hsettled : c.Settled r a) : (c.forget r a).Sound :=
  { h with
    issued q b hb hauthorized := by
      have hmem := h.issued q b hb hauthorized
      have hb : b ≠ a := by
        rintro rfl
        exact not_settled_of_authorized h hauthorized hsettled
      exact mem_pending_forget.mpr ⟨hmem, fun heq => hb heq.2.symm⟩
    pending q b hb := h.pending q b (mem_pending_forget.mp hb).1 }

theorem sound_spend (h : c.Sound) (hsettled : c.Settled r a) : (c.spend a).Sound := by
  have hissued : ∀ {q b : Uuid}, (c.spend a).Issued q b → c.Issued q b := by
    rintro q b ⟨t', ht', rfl, rfl⟩
    obtain ⟨t, ht, hid, hlease, -⟩ := of_mem_spend ht'
    exact ⟨t, ht, hid.symm, by rw [hlease]⟩
  exact {
    attempts := h.attempts
    rows := h.rows
    known := h.known
    tokens := fun q b hb => h.tokens q b (hissued hb)
    issued := fun q b hb hauthorized => h.issued q b (hissued hb) hauthorized
    pending := fun q b hb => issued_spend (h.pending q b hb)
    spent := by
      intro t' ht' hres
      obtain ⟨t, ht, hid, hlease, hold⟩ := of_mem_spend ht'
      rw [hid, hlease]
      rcases hold hres with hres | rfl
      · exact h.spent t ht hres
      · have hrow := h.tokens _ _ ⟨t, ht, rfl, rfl⟩
        rwa [reservation_unique h hrow (Or.inr hsettled)]
    closed := h.closed
    released := h.released }

theorem sound_close (h : c.Sound) (r : Uuid) : (c.close r).Sound :=
  { h with
    rows := h.rows.update fun _ => rfl
    known l hl := reserved_close (h.known l hl)
    closed q hq := closed_close (h.closed q hq) }

theorem sound_markClosed (h : c.Sound) (hclosed : c.Closed r) : (c.markClosed r).Sound :=
  { h with
    closed q hq := by
      rcases durableClosed_markClosed.mp hq with rfl | hold
      · exact hclosed
      · exact h.closed q hold
    released q hq := durableClosed_markClosed.mpr (Or.inr (h.released q hq)) }

theorem sound_drop (h : c.Sound) {ref : LeaseRef}
    (hclosed : c.durableClosed ref.reservationId = true) : (c.drop ref).Sound :=
  { h with
    known l hl := h.known l (List.mem_of_mem_filter hl)
    released q hq := by
      rcases released_drop.mp hq with rfl | hold
      · exact hclosed
      · exact h.released q hold }

/-! ## What the writes leave -/

/-- A step that leaves the rows of the attempts, the tokens, the reservations and their notes. -/
theorem later_of_same {resolved returned : Option Uuid} {c' : PoolCore}
    (hattempts : c'.authorizations = c.authorizations) (htokens : c'.tokens = c.tokens)
    (hrows : c'.reservations = c.reservations) (hclosed : c'.durableClosed = c.durableClosed) :
    Later resolved returned c c' where
  authorized q b hb _ := by rwa [Authorized, hattempts]
  settled q b hb := by rwa [Settled, hattempts]
  issued q b hb := by rwa [Issued, htokens]
  tokens t' ht' := Or.inl ⟨t', htokens ▸ ht', rfl⟩
  reserved q hq := by rwa [Reserved, hrows]
  closed q hq := by rwa [hclosed]

variable {resolved returned : Option Uuid}

theorem later_reserve (row : DurableReservation) :
    Later resolved returned c (c.reserve row) where
  authorized _ _ hb _ := hb
  settled _ _ hb := hb
  issued _ _ hb := hb
  tokens t' ht' := Or.inl ⟨t', ht', rfl⟩
  reserved q hq := by
    obtain ⟨old, hold, hid⟩ := hq
    exact ⟨old, List.mem_append_left _ hold, hid⟩
  closed _ hq := hq

theorem later_insertRow (row : AttemptAuthorization) :
    Later resolved returned c (c.insertRow row) where
  authorized _ _ hb _ := authorized_insertRow hb
  settled _ _ hb := settled_insertRow hb
  issued _ _ hb := hb
  tokens t' ht' := Or.inl ⟨t', ht', rfl⟩
  reserved _ hq := hq
  closed _ hq := hq

theorem later_issue (current : ReservedProxyLease) (k : ℤ) :
    Later resolved (some a) c ((c.issue current a).count r k) where
  authorized _ _ hb _ := hb
  settled _ _ hb := hb
  issued q b hb := by
    obtain ⟨t, ht, hfacts⟩ := hb
    exact ⟨t, List.mem_append_left _ ht, hfacts⟩
  tokens t' ht' := by
    rcases List.mem_append.mp ht' with hold | hnew
    · exact Or.inl ⟨t', hold, rfl⟩
    · rw [List.mem_singleton.mp hnew]
      exact Or.inr rfl
  reserved _ hq := hq
  closed _ hq := hq

theorem later_settle (a : Uuid) (how : Resolution) :
    Later (some a) returned c (c.settle a how) where
  authorized q b hb hne := authorized_settle hb fun hba => hne (by rw [hba])
  settled _ _ hb := settled_settle hb
  issued _ _ hb := hb
  tokens t' ht' := Or.inl ⟨t', ht', rfl⟩
  reserved _ hq := hq
  closed _ hq := hq

theorem later_spend (a : Uuid) : Later resolved returned c (c.spend a) where
  authorized _ _ hb _ := hb
  settled _ _ hb := hb
  issued _ _ hb := issued_spend hb
  tokens t' ht' := by
    obtain ⟨t, ht, hid, -⟩ := of_mem_spend ht'
    exact Or.inl ⟨t, ht, hid.symm⟩
  reserved _ hq := hq
  closed _ hq := hq

theorem later_close (r : Uuid) : Later resolved returned c (c.close r) where
  authorized _ _ hb _ := hb
  settled _ _ hb := hb
  issued _ _ hb := hb
  tokens t' ht' := Or.inl ⟨t', ht', rfl⟩
  reserved _ hq := reserved_close hq
  closed _ hq := hq

theorem later_closeNext (r : Uuid) :
    Later resolved returned c ((c.close r).markClosed r) where
  authorized _ _ hb _ := hb
  settled _ _ hb := hb
  issued _ _ hb := hb
  tokens t' ht' := Or.inl ⟨t', ht', rfl⟩
  reserved _ hq := reserved_close hq
  closed _ hq := durableClosed_markClosed.mpr (Or.inr hq)

theorem claims_of_later {c' : PoolCore} (h : Later resolved returned c c') {u : PoolTask}
    (hclaims : c.Claims u)
    (hresolved : ∀ a, resolved = some a → ∃ t ∈ c.tokens, t.authorizationId = a)
    (hreturned : ∀ a, u.issues = some a → returned ≠ some a) : c'.Claims u := by
  cases u with
  | recording lease => exact h.reserved _ hclaims
  | authorizeRecord current n a =>
    obtain ⟨hauthorized, hfree⟩ := hclaims
    refine ⟨h.authorized _ a hauthorized fun hres => ?_, fun t' ht' hid => ?_⟩
    · obtain ⟨t, ht, hta⟩ := hresolved a hres
      exact hfree t ht hta
    · rcases h.tokens t' ht' with ⟨t, ht, hold⟩ | hnew
      · exact hfree t ht (hold.trans hid)
      · exact hreturned a rfl (hnew.trans (by rw [hid]))
  | resolveLock lease a how => exact h.issued _ _ hclaims
  | durableResolve lease a how => exact h.issued _ _ hclaims
  | resolveRecord lease a how usage => exact h.settled _ _ hclaims
  | innerResolve lease a how usage => exact h.settled _ _ hclaims
  | durableClose current => exact h.reserved _ hclaims
  | innerRelease current => exact h.closed _ hclaims
  | _ => trivial

end PoolCore

namespace ReservedProxyPool

open PoolCore

section Steps

variable {s : ReservedProxyPool} {t : PoolTask} {r : ReservedProxyPool × Option PoolTask}

theorem sound_of_coreStep (hstep : CoreStep s t r) (h : s.core.Sound) (hclaims : s.core.Claims t) :
    r.1.core.Sound := by
  cases hstep with
  | wait => exact h
  | quiet hcore _ _ => exact hcore ▸ h
  | resolving _ _ _ _ _ hcore _ => exact hcore ▸ h
  | reserved _ row hrow _ hcore _ => exact hcore ▸ sound_reserve h hrow
  | recorded lease ht hcore =>
    subst ht
    exact hcore ▸ sound_record h hclaims
  | rotated ref lease href hcore _ => exact hcore ▸ sound_replace h href
  | admitted current _ hcore _ => exact hcore ▸ sound_count h _ _
  | unauthorized _ _ _ hcore _ =>
    rcases hcore with hcore | ⟨row, hrow, -, hcore⟩
    · exact hcore ▸ h
    · exact hcore ▸ sound_insertRow h hrow
  | authorized _ _ row _ hrow _ _ hcore => exact hcore ▸ sound_insertRow h hrow
  | unadmitted _ _ _ hcore _ => exact hcore ▸ sound_count h _ _
  | issued current n a ht hcore =>
    subst ht
    exact hcore ▸ sound_count (sound_issue h hclaims.1) _ _
  | settled _ a how _ _ hcore => exact hcore ▸ sound_settle h a how
  | forgotten lease a _ _ ht hcore =>
    subst ht
    exact hcore ▸ sound_forget h hclaims
  | spent lease a _ _ ht hcore =>
    subst ht
    exact hcore ▸ sound_spend h hclaims
  | closing _ _ hcore _ => exact hcore ▸ h
  | leaving _ _ hcore _ => exact hcore ▸ h
  | closed q hcore _ => exact hcore ▸ sound_close h q
  | closedNext current ht hcore =>
    subst ht
    exact hcore ▸ sound_markClosed (sound_close h _) (closed_close_self hclaims)
  | dropped ref hclosed hcore _ => exact hcore ▸ sound_drop h hclosed

theorem later_of_coreStep (hstep : CoreStep s t r) :
    Later t.resolves t.issues s.core r.1.core := by
  cases hstep with
  | wait => exact later_of_same rfl rfl rfl rfl
  | quiet hcore _ _ => exact hcore ▸ later_of_same rfl rfl rfl rfl
  | resolving _ _ _ _ _ hcore _ => exact hcore ▸ later_of_same rfl rfl rfl rfl
  | reserved _ row _ _ hcore _ => exact hcore ▸ later_reserve row
  | recorded lease _ hcore => exact hcore ▸ later_of_same rfl rfl rfl rfl
  | rotated ref lease _ hcore _ => exact hcore ▸ later_of_same rfl rfl rfl rfl
  | admitted _ _ hcore _ => exact hcore ▸ later_of_same rfl rfl rfl rfl
  | unauthorized _ _ _ hcore _ =>
    rcases hcore with hcore | ⟨row, -, -, hcore⟩
    · exact hcore ▸ later_of_same rfl rfl rfl rfl
    · exact hcore ▸ later_insertRow row
  | authorized _ _ row _ _ _ _ hcore => exact hcore ▸ later_insertRow row
  | unadmitted _ _ _ hcore _ => exact hcore ▸ later_of_same rfl rfl rfl rfl
  | issued current n a ht hcore =>
    subst ht
    exact hcore ▸ later_issue current (-1)
  | settled lease a how _ ht hcore =>
    subst ht
    exact hcore ▸ later_settle a how
  | forgotten _ _ _ _ _ hcore => exact hcore ▸ later_of_same rfl rfl rfl rfl
  | spent _ a _ _ _ hcore => exact hcore ▸ later_spend a
  | closing _ _ hcore _ => exact hcore ▸ later_of_same rfl rfl rfl rfl
  | leaving _ _ hcore _ => exact hcore ▸ later_of_same rfl rfl rfl rfl
  | closed q hcore _ => exact hcore ▸ later_close q
  | closedNext current _ hcore => exact hcore ▸ later_closeNext _
  | dropped ref _ hcore _ => exact hcore ▸ later_of_same rfl rfl rfl rfl

theorem claims_of_coreStep (hstep : CoreStep s t r) (h : s.core.Sound)
    (hclaims : s.core.Claims t) : ∀ t' ∈ r.2, r.1.core.Claims t' := by
  cases hstep with
  | wait =>
    rintro _ ⟨⟩
    exact hclaims
  | quiet _ _ hnext => exact fun t' ht' => PoolTask.claims_of_plain (hnext t' ht') _
  | resolving lease a how hnext hissued hcore _ =>
    rintro _ ⟨⟩
    rw [← hcore] at hissued
    rcases hnext with rfl | rfl <;> exact hissued
  | reserved lease row _ href hcore _ =>
    rintro _ ⟨⟩
    change PoolCore.Reserved _ _
    rw [hcore, href]
    exact ⟨row, List.mem_append_right _ (List.mem_singleton.mpr rfl), rfl⟩
  | unauthorized current n _ _ hnext =>
    rintro _ ⟨⟩
    rcases hnext with ⟨e, rfl⟩ | rfl <;> trivial
  | authorized current n row _ hrow hreservation hstate hcore =>
    rintro _ ⟨⟩
    change PoolCore.Authorized _ _ _ ∧ _
    rw [hcore]
    refine ⟨⟨row, List.mem_append_right _ (List.mem_singleton.mpr rfl), rfl, hreservation,
      hstate⟩, fun token htoken hid => ?_⟩
    -- A token with the new identity would have a row before.
    exact ne_fresh (h.tokens _ _ ⟨token, htoken, rfl, rfl⟩) (hid.trans hrow)
  | unadmitted _ _ _ _ hnext =>
    rintro _ ⟨⟩
    exact PoolTask.claims_of_plain hnext _
  | settled lease a how usage ht hcore =>
    subst ht
    rintro _ ⟨⟩
    change PoolCore.Settled _ _ _
    rw [hcore]
    exact settled_settle_self (h.tokens _ _ hclaims)
  | forgotten lease a how usage ht hcore =>
    subst ht
    rintro _ ⟨⟩
    change PoolCore.Settled _ _ _
    rw [hcore]
    exact hclaims
  | closing current hmem hcore _ =>
    rintro _ ⟨⟩
    change PoolCore.Reserved _ _
    rw [hcore]
    exact h.known current hmem
  | leaving current hclosed hcore _ =>
    rintro _ ⟨⟩
    change PoolCore.durableClosed _ _ = true
    rw [hcore]
    exact hclosed
  | closedNext current _ hcore =>
    rintro _ ⟨⟩
    change PoolCore.durableClosed _ _ = true
    rw [hcore]
    exact durableClosed_markClosed.mpr (Or.inl rfl)
  | admitted current n _ _ =>
    rintro _ ⟨⟩
    trivial
  | recorded _ _ _ => exact fun _ ht' => nomatch ht'
  | rotated _ _ _ _ _ => exact fun _ ht' => nomatch ht'
  | issued _ _ _ _ _ => exact fun _ ht' => nomatch ht'
  | spent _ _ _ _ _ _ => exact fun _ ht' => nomatch ht'
  | closed _ _ _ => exact fun _ ht' => nomatch ht'
  | dropped _ _ _ _ => exact fun _ ht' => nomatch ht'

/-- The attempt whose token a resumed task is about to return is a new one, or the same. -/
theorem issues_of_coreStep (hstep : CoreStep s t r) : ∀ t' ∈ r.2, ∀ a, t'.issues = some a →
    t.issues = some a ∨ a = freshKey AttemptAuthorization.id s.core.authorizations := by
  have hplain : ∀ {t' : PoolTask}, t'.plain = true → t'.issues = none := fun h =>
    (PoolTask.owes_of_light (PoolTask.light_of_plain h) 0 0).2.2.2
  cases hstep with
  | wait =>
    rintro _ ⟨⟩ a ha
    exact Or.inl ha
  | quiet _ _ hnext =>
    intro t' ht' a ha
    rw [hplain (hnext t' ht')] at ha
    cases ha
  | resolving _ _ _ hnext _ _ _ =>
    rintro _ ⟨⟩ a ha
    rcases hnext with rfl | rfl <;> cases ha
  | unauthorized _ _ _ _ hnext =>
    rintro _ ⟨⟩ a ha
    rcases hnext with ⟨e, rfl⟩ | rfl <;> cases ha
  | authorized current n row _ hrow _ _ _ =>
    rintro _ ⟨⟩ a ha
    cases ha
    exact Or.inr hrow
  | unadmitted _ _ _ _ hnext =>
    rintro _ ⟨⟩ a ha
    rw [hplain hnext] at ha
    cases ha
  | reserved _ _ _ _ _ _ =>
    rintro _ ⟨⟩ a ha
    cases ha
  | admitted _ _ _ _ =>
    rintro _ ⟨⟩ a ha
    cases ha
  | settled _ _ _ _ _ _ =>
    rintro _ ⟨⟩ a ha
    cases ha
  | forgotten _ _ _ _ _ _ =>
    rintro _ ⟨⟩ a ha
    cases ha
  | closing _ _ _ _ =>
    rintro _ ⟨⟩ a ha
    cases ha
  | leaving _ _ _ _ =>
    rintro _ ⟨⟩ a ha
    cases ha
  | closedNext _ _ _ =>
    rintro _ ⟨⟩ a ha
    cases ha
  | recorded _ _ _ => exact fun _ ht' => nomatch ht'
  | rotated _ _ _ _ _ => exact fun _ ht' => nomatch ht'
  | issued _ _ _ _ _ => exact fun _ ht' => nomatch ht'
  | spent _ _ _ _ _ _ => exact fun _ ht' => nomatch ht'
  | closed _ _ _ => exact fun _ ht' => nomatch ht'
  | dropped _ _ _ _ => exact fun _ ht' => nomatch ht'

end Steps

/-- Two tasks that are about to return tokens return different ones. -/
def Distinct (t u : PoolTask) : Prop := ∀ a, t.issues = some a → u.issues ≠ some a

theorem respects_sound (config : DurablePoolConfig) :
    (reservedPoolProgram config).Respects (fun s => s.core.Sound) (fun s => s.core.Claims) Distinct
      (fun _ => True) NotCutOff where
  symm t u h a hu ht := h a ht hu
  start _ _ _ _ := trivial
  apart _ _ _ _ h := nomatch h
  shared s t reply hcut hsound hclaims :=
    sound_of_coreStep (coreStep_run config hclaims hcut) hsound hclaims
  own s t reply hcut hsound hclaims :=
    claims_of_coreStep (coreStep_run config hclaims hcut) hsound hclaims
  other s t reply hcut hsound hclaims u hu hdistinct := by
    have hstep := coreStep_run config hclaims hcut
    refine ⟨claims_of_later (later_of_coreStep hstep) hu ?_ hdistinct, ?_⟩
    · intro a ha
      cases t with
      | durableResolve lease b how =>
        cases ha
        obtain ⟨token, htoken, hid, -⟩ := hclaims
        exact ⟨token, htoken, hid⟩
      | _ => cases ha
    · intro t' ht' a hua hta
      rcases issues_of_coreStep hstep t' ht' a hta with hold | hfresh
      · exact hdistinct a hua hold
      · cases u with
        | authorizeRecord current n b =>
          cases hua
          exact ne_fresh (Or.inl hu.1) hfresh
        | _ => cases hua

/-! ## What the tasks owe -/

instance (c : PoolCore) (r a : Uuid) : Decidable (c.Settled r a) :=
  inferInstanceAs (Decidable (∃ row ∈ c.authorizations, _))

instance (c : PoolCore) (r : Uuid) : Decidable (c.Held r) :=
  inferInstanceAs (Decidable (∃ l ∈ c.leases, _))

/-- The attempt is pending although it is settled. -/
def stale (r a : Uuid) (s : ReservedProxyPool) : ℕ :=
  if a ∈ s.core.pending r ∧ s.core.Settled r a then 1 else 0

/-- The reservation is open and no lease holds it. -/
def orphaned (r : Uuid) (s : ReservedProxyPool) : ℕ :=
  if (∃ row ∈ s.core.reservations, row.id = r ∧ row.closed = false) ∧ ¬ s.core.Held r then 1 else 0

section Owed

variable {s : ReservedProxyPool} {t : PoolTask} {r : ReservedProxyPool × Option PoolTask}

theorem weights_of_light (h : t.light = true) (q a : Uuid) :
    t.admits q = 0 ∧ t.records q = 0 ∧ t.settles q a = 0 :=
  ⟨(PoolTask.owes_of_light h q a).1, (PoolTask.owes_of_light h q a).2.1,
    (PoolTask.owes_of_light h q a).2.2.1⟩

theorem weights_of_next {next : Option PoolTask} (h : ∀ t' ∈ next, t'.light = true) (q a : Uuid) :
    (next.map (PoolTask.admits q)).getD 0 = 0 ∧ (next.map (PoolTask.records q)).getD 0 = 0 ∧
      (next.map (PoolTask.settles q a)).getD 0 = 0 := by
  cases next with
  | none => exact ⟨rfl, rfl, rfl⟩
  | some t' => exact weights_of_light (h t' rfl) q a

theorem inFlight_of_coreStep (hstep : CoreStep s t r) (q : Uuid) :
    r.1.core.inFlight q + t.admits q =
      s.core.inFlight q + (r.2.map (PoolTask.admits q)).getD 0 := by
  have hcount : ∀ (c : PoolCore) (p : Uuid) (k : ℤ),
      (c.count p k).inFlight q = c.inFlight q + if p = q then k else 0 := by
    intro c p k
    by_cases hq : q = p
    · simp [PoolCore.count, hq]
    · simp [PoolCore.count, hq, Ne.symm hq]
  cases hstep with
  | wait => rfl
  | quiet hcore hown hnext =>
    rw [hcore, (weights_of_light hown q 0).1,
      (weights_of_next (fun t' ht' => PoolTask.light_of_plain (hnext t' ht')) q 0).1]
  | resolving lease a how hnext _ hcore hown =>
    rw [hcore, (weights_of_light hown q 0).1]
    rcases hnext with rfl | rfl <;> rfl
  | reserved lease row _ _ hcore hown =>
    rw [hcore, (weights_of_light hown q 0).1]
    rfl
  | recorded lease ht hcore =>
    rw [hcore, ht]
    rfl
  | rotated _ _ _ hcore hown =>
    rw [hcore, (weights_of_light hown q 0).1]
    rfl
  | admitted current n hcore hown =>
    rw [hcore, (weights_of_light hown q 0).1, hcount]
    simp only [PoolTask.admits, Option.map_some, Option.getD_some]
    split <;> simp
  | unauthorized current n ht hcore hnext =>
    have hsame : ∀ c : PoolCore, c = s.core ∨ (∃ row : AttemptAuthorization,
        row.id = freshKey AttemptAuthorization.id s.authorizations ∧
          row.state = .authorized ∧ c = s.core.insertRow row) →
        c.inFlight q = s.core.inFlight q := by
      rintro c (rfl | ⟨row, -, -, rfl⟩) <;> rfl
    rw [hsame _ hcore, ht]
    rcases hnext with ⟨e, rfl⟩ | rfl <;> rfl
  | authorized current n row ht _ _ _ hcore =>
    rw [hcore, ht]
    rfl
  | unadmitted current n ht hcore hnext =>
    rw [hcore, hcount]
    have hadmits : t.admits q = if current.ref.reservationId = q then 1 else 0 := by
      rcases ht with ⟨e, rfl⟩ | rfl <;> rfl
    rw [hadmits, Option.map_some, Option.getD_some,
      (weights_of_light (PoolTask.light_of_plain hnext) q 0).1]
    split <;> simp
  | issued current n a ht hcore =>
    rw [hcore, hcount, ht]
    change s.core.inFlight q + _ + _ = s.core.inFlight q + _
    simp only [PoolTask.admits, Option.map_none, Option.getD_none]
    split <;> simp
  | settled lease a how usage ht hcore =>
    rw [hcore, ht]
    rfl
  | forgotten lease a how usage ht hcore =>
    rw [hcore, ht]
    rfl
  | spent lease a how usage ht hcore =>
    rw [hcore, ht]
    rfl
  | closing current _ hcore hown =>
    rw [hcore, (weights_of_light hown q 0).1]
    rfl
  | leaving current _ hcore hown =>
    rw [hcore, (weights_of_light hown q 0).1]
    rfl
  | closed p hcore hown =>
    rw [hcore, (weights_of_light hown q 0).1]
    rfl
  | closedNext current ht hcore =>
    rw [hcore, ht]
    rfl
  | dropped ref _ hcore hown =>
    rw [hcore, (weights_of_light hown q 0).1]
    rfl

theorem stale_of_coreStep (hstep : CoreStep s t r) (h : s.core.Sound) (hclaims : s.core.Claims t)
    (q a : Uuid) : r.1.stale q a = 0 ∨
      r.1.stale q a + t.settles q a ≤ s.stale q a + (r.2.map (PoolTask.settles q a)).getD 0 := by
  have hle : ∀ {c : PoolCore} {s' : ReservedProxyPool} {next : Option PoolTask}, s'.core = c →
      (a ∈ c.pending q → c.Settled q a → a ∈ s.core.pending q ∧ s.core.Settled q a) →
      t.settles q a = 0 → s'.stale q a = 0 ∨
        s'.stale q a + t.settles q a ≤ s.stale q a + (next.map (PoolTask.settles q a)).getD 0 := by
    rintro c s' next rfl himp hown
    by_cases hstale : a ∈ s'.core.pending q ∧ s'.core.Settled q a
    · right
      rw [stale, if_pos hstale, stale, if_pos (himp hstale.1 hstale.2), hown]
      exact Nat.le_add_right _ _
    · exact Or.inl (if_neg hstale)
  have hlight : t.light = true → t.settles q a = 0 := fun hown => (weights_of_light hown q a).2.2
  cases hstep with
  | wait => exact Or.inr le_rfl
  | quiet hcore hown _ => exact hle hcore (fun hp hs => ⟨hp, hs⟩) (hlight hown)
  | resolving _ _ _ _ _ hcore hown => exact hle hcore (fun hp hs => ⟨hp, hs⟩) (hlight hown)
  | reserved _ _ _ _ hcore hown => exact hle hcore (fun hp hs => ⟨hp, hs⟩) (hlight hown)
  | recorded lease ht hcore => exact hle hcore (fun hp hs => ⟨hp, hs⟩) (by rw [ht]; rfl)
  | rotated _ _ _ hcore hown => exact hle hcore (fun hp hs => ⟨hp, hs⟩) (hlight hown)
  | admitted _ _ hcore hown => exact hle hcore (fun hp hs => ⟨hp, hs⟩) (hlight hown)
  | unauthorized _ _ ht hcore _ =>
    rcases hcore with hcore | ⟨row, _, hstate, hcore⟩
    · exact hle hcore (fun hp hs => ⟨hp, hs⟩) (by rw [ht]; rfl)
    · exact hle hcore (fun hp hs => ⟨hp, of_settled_insertRow hstate hs⟩) (by rw [ht]; rfl)
  | authorized _ _ row ht _ _ hstate hcore =>
    exact hle hcore (fun hp hs => ⟨hp, of_settled_insertRow hstate hs⟩) (by rw [ht]; rfl)
  | unadmitted _ _ ht hcore _ =>
    refine hle hcore (fun hp hs => ⟨hp, hs⟩) ?_
    rcases ht with ⟨e, rfl⟩ | rfl <;> rfl
  | issued current n b ht hcore =>
    subst ht
    refine hle hcore (fun hp hs => ?_) rfl
    have hs : s.core.Settled q a := hs
    rcases mem_pending_issue.mp hp with hold | ⟨-, rfl⟩
    · exact ⟨hold, hs⟩
    · exact absurd hs (not_settled_of_authorized h hclaims.1)
  | @settled s' lease b how usage ht hcore =>
    subst ht
    by_cases hb : a = b
    · subst hb
      by_cases hpending : a ∈ s.core.pending q
      · -- The pending attempt belongs to the lease whose token is resolved.
        have hq : lease.ref.reservationId = q :=
          reservation_unique h (h.tokens _ _ hclaims) (h.tokens _ _ (h.pending _ _ hpending))
        right
        have hone : s'.stale q a ≤ 1 := by
          unfold stale
          split <;> omega
        have hnext : (PoolTask.resolveRecord lease a how usage).settles q a = 1 :=
          if_pos ⟨hq, rfl⟩
        rw [Option.map_some, Option.getD_some, hnext]
        exact le_trans hone (Nat.le_add_left _ _)
      · exact hle hcore (fun hp _ => absurd hp hpending) rfl
    · exact hle hcore (fun hp hs => ⟨hp, of_settled_settle hs hb⟩) rfl
  | forgotten lease b how usage ht hcore =>
    subst ht
    by_cases hforgot : lease.ref.reservationId = q ∧ b = a
    · left
      rw [stale, hcore]
      exact if_neg fun hstale => (mem_pending_forget.mp hstale.1).2 hforgot
    · exact hle hcore (fun hp hs => ⟨(mem_pending_forget.mp hp).1, hs⟩) (if_neg hforgot)
  | spent _ _ _ _ ht hcore => exact hle hcore (fun hp hs => ⟨hp, hs⟩) (by rw [ht]; rfl)
  | closing _ _ hcore hown => exact hle hcore (fun hp hs => ⟨hp, hs⟩) (hlight hown)
  | leaving _ _ hcore hown => exact hle hcore (fun hp hs => ⟨hp, hs⟩) (hlight hown)
  | closed _ hcore hown => exact hle hcore (fun hp hs => ⟨hp, hs⟩) (hlight hown)
  | closedNext _ ht hcore => exact hle hcore (fun hp hs => ⟨hp, hs⟩) (by rw [ht]; rfl)
  | dropped _ _ hcore hown => exact hle hcore (fun hp hs => ⟨hp, hs⟩) (hlight hown)

/-- A reservation is orphaned only as long as a task is about to record its lease. -/
theorem orphaned_of_coreStep (hstep : CoreStep s t r) (h : s.core.Sound) (q : Uuid) :
    r.1.orphaned q = 0 ∨
      r.1.orphaned q + t.records q ≤ s.orphaned q + (r.2.map (PoolTask.records q)).getD 0 := by
  have hle : ∀ {c : PoolCore} {s' : ReservedProxyPool} {next : Option PoolTask}, s'.core = c →
      ((∃ row ∈ c.reservations, row.id = q ∧ row.closed = false) → ¬ c.Held q →
        (∃ row ∈ s.core.reservations, row.id = q ∧ row.closed = false) ∧ ¬ s.core.Held q) →
      t.records q = 0 → s'.orphaned q = 0 ∨
        s'.orphaned q + t.records q ≤ s.orphaned q + (next.map (PoolTask.records q)).getD 0 := by
    rintro c s' next rfl himp hown
    by_cases horphaned : (∃ row ∈ s'.core.reservations, row.id = q ∧ row.closed = false) ∧
        ¬ s'.core.Held q
    · right
      rw [orphaned, if_pos horphaned, orphaned, if_pos (himp horphaned.1 horphaned.2), hown]
      exact Nat.le_add_right _ _
    · exact Or.inl (if_neg horphaned)
  have hlight : t.light = true → t.records q = 0 := fun hown => (weights_of_light hown q 0).2.1
  have hclose : ∀ p, (∃ row ∈ (s.core.close p).reservations, row.id = q ∧ row.closed = false) →
      ∃ row ∈ s.core.reservations, row.id = q ∧ row.closed = false := by
    rintro p ⟨row, hrow, hid, hopen⟩
    obtain ⟨old, hold, rfl⟩ := mem_update.mp hrow
    split at hopen
    · cases hopen
    · next hp =>
      rw [if_neg hp] at hid
      exact ⟨old, hold, hid, hopen⟩
  cases hstep with
  | wait => exact Or.inr le_rfl
  | quiet hcore hown _ => exact hle hcore (fun ho hh => ⟨ho, hh⟩) (hlight hown)
  | resolving _ _ _ _ _ hcore hown => exact hle hcore (fun ho hh => ⟨ho, hh⟩) (hlight hown)
  | @reserved s' lease row _ href hcore hown =>
    by_cases hq : row.id = q
    · right
      have hone : s'.orphaned q ≤ 1 := by
        unfold orphaned
        split <;> omega
      have hnext : (PoolTask.recording lease).records q = 1 := if_pos (href.trans hq)
      rw [Option.map_some, Option.getD_some, hnext, hlight hown]
      exact le_trans hone (Nat.le_add_left _ _)
    · refine hle hcore (fun ho hh => ⟨?_, hh⟩) (hlight hown)
      obtain ⟨old, hold, hid, hopen⟩ := ho
      rcases List.mem_append.mp hold with hold | hnew
      · exact ⟨old, hold, hid, hopen⟩
      · rw [List.mem_singleton.mp hnew] at hid
        exact absurd hid hq
  | recorded lease ht hcore =>
    subst ht
    by_cases hq : lease.ref.reservationId = q
    · left
      rw [orphaned, hcore]
      exact if_neg fun horphaned =>
        horphaned.2 ⟨lease, List.mem_append_right _ (List.mem_singleton.mpr rfl), hq⟩
    · refine hle hcore (fun ho hh => ⟨ho, fun hheld => hh ?_⟩) (if_neg hq)
      obtain ⟨l, hl, hlq⟩ := hheld
      exact ⟨l, List.mem_append_left _ hl, hlq⟩
  | rotated ref lease href hcore hown =>
    refine hle hcore (fun ho hh => ⟨ho, fun hheld => hh ?_⟩) (hlight hown)
    obtain ⟨l, hl, hlq⟩ := hheld
    refine ⟨_, mem_update.mpr ⟨l, hl, rfl⟩, ?_⟩
    split
    · next hp => rw [href, ← beq_iff_eq.mp hp, hlq]
    · exact hlq
  | admitted _ _ hcore hown => exact hle hcore (fun ho hh => ⟨ho, hh⟩) (hlight hown)
  | unauthorized _ _ ht hcore _ =>
    rcases hcore with hcore | ⟨row, _, _, hcore⟩
    · exact hle hcore (fun ho hh => ⟨ho, hh⟩) (by rw [ht]; rfl)
    · exact hle hcore (fun ho hh => ⟨ho, hh⟩) (by rw [ht]; rfl)
  | authorized _ _ _ ht _ _ _ hcore => exact hle hcore (fun ho hh => ⟨ho, hh⟩) (by rw [ht]; rfl)
  | unadmitted _ _ ht hcore _ =>
    refine hle hcore (fun ho hh => ⟨ho, hh⟩) ?_
    rcases ht with ⟨e, rfl⟩ | rfl <;> rfl
  | issued _ _ _ ht hcore => exact hle hcore (fun ho hh => ⟨ho, hh⟩) (by rw [ht]; rfl)
  | settled _ _ _ _ ht hcore => exact hle hcore (fun ho hh => ⟨ho, hh⟩) (by rw [ht]; rfl)
  | forgotten _ _ _ _ ht hcore => exact hle hcore (fun ho hh => ⟨ho, hh⟩) (by rw [ht]; rfl)
  | spent _ _ _ _ ht hcore => exact hle hcore (fun ho hh => ⟨ho, hh⟩) (by rw [ht]; rfl)
  | closing _ _ hcore hown => exact hle hcore (fun ho hh => ⟨ho, hh⟩) (hlight hown)
  | leaving _ _ hcore hown => exact hle hcore (fun ho hh => ⟨ho, hh⟩) (hlight hown)
  | closed p hcore hown => exact hle hcore (fun ho hh => ⟨hclose p ho, hh⟩) (hlight hown)
  | closedNext current ht hcore =>
    exact hle hcore (fun ho hh => ⟨hclose _ ho, hh⟩) (by rw [ht]; rfl)
  | dropped ref hclosed hcore hown =>
    refine hle hcore (fun ho hh => ⟨ho, fun hheld => ?_⟩) (hlight hown)
    obtain ⟨l, hl, rfl⟩ := hheld
    by_cases href : l.ref = ref
    · -- The reservation of the lease that is dropped is closed.
      obtain ⟨row, hrow, hid, hopen⟩ := ho
      obtain ⟨row', hrow', hid', hclosed'⟩ := h.closed _ hclosed
      have heq : row = row' := h.rows.eq_of_mem hrow hrow' (by rw [hid, hid', href])
      rw [heq, hclosed'] at hopen
      cases hopen
    · exact hh ⟨l, List.mem_filter.mpr ⟨hl, by simp [href]⟩, rfl⟩

end Owed

/-! ## The lock -/

/-- The task has the lock. -/
def holds : PoolTask → ℕ
  | .innerRotate _ | .rotateDrop _ _ | .innerAuthorize _ _ | .innerReport _ _ | .durableClose _
  | .innerRelease _ => 1
  | _ => 0

/-- The lock is taken. -/
def taken (s : ReservedProxyPool) : ℕ := if s.locked = true then 1 else 0

/-- The lock after a step: it is given up, or the task that takes it, or has it, goes on with it. -/
def KeepsLock (s : ReservedProxyPool) (t : PoolTask) (r : ReservedProxyPool × Option PoolTask) :
    Prop :=
  r.1.taken = 0 ∨ r.1.taken + holds t ≤ s.taken + (r.2.map holds).getD 0

section Lock

variable {s : ReservedProxyPool} {t : PoolTask} {reply : PoolReply}

theorem keepsLock_same {r : ReservedProxyPool × Option PoolTask} (hlock : r.1.locked = s.locked)
    (hown : holds t = 0) : KeepsLock s t r := by
  right
  rw [taken, hlock, hown]
  exact Nat.le_add_right _ _

theorem keepsLock_hold {t' : PoolTask} (hnext : holds t' = 1) (hown : holds t = 0) :
    KeepsLock s t (s.hold t') := by
  right
  change 1 + holds t ≤ s.taken + holds t'
  rw [hown, hnext]
  exact Nat.le_add_left _ _

theorem keepsLock_free {r : ReservedProxyPool × Option PoolTask}
    (h : r.1.locked = false ∨ r.1.locked = s.locked ∧ holds t ≤ (r.2.map holds).getD 0) :
    KeepsLock s t r := by
  rcases h with hfree | ⟨hlock, hle⟩
  · exact Or.inl (by simp [taken, hfree])
  · right
    rw [taken, hlock]
    exact Nat.add_le_add_left hle _

theorem keepsLock_withLock {c : PoolCall} {body : ReservedProxyPool × Option PoolTask}
    (hown : holds t = 0) (hbody : KeepsLock s t body) :
    KeepsLock s t (s.withLock t c reply body) :=
  withLock_rule (fun _ _ => keepsLock_same rfl hown) (keepsLock_same rfl hown) hbody

theorem keepsLock_owned {c : PoolCall} {lease : LeaseRef}
    {body : ReservedProxyLease → ReservedProxyPool × Option PoolTask} (hown : holds t = 0)
    (hbody : ∀ current, KeepsLock s t (body current)) :
    KeepsLock s t (s.withLock t c reply (s.ifOwned lease c body)) :=
  keepsLock_withLock hown
    (ifOwned_rule (keepsLock_same rfl hown) fun current _ => hbody current)

/-- **The lock is taken only as long as a task has it.** -/
theorem keepsLock_run (config : DurablePoolConfig) (s : ReservedProxyPool) (t : PoolTask)
    (reply : PoolReply) : KeepsLock s t (s.run config t reply) := by
  cases t with
  | called c =>
    apply keepsLock_same _ rfl
    cases reply <;> cases c <;> simp only [run, begin] <;> repeat' split
    all_goals rfl
  | acquiring request =>
    apply keepsLock_same _ rfl
    unfold run
    dsimp only
    split
    · rfl
    · split <;> rfl
  | reserving request inner =>
    apply keepsLock_same _ rfl
    unfold run
    dsimp only
    split <;> split <;> rfl
  | droppingLease request e => exact keepsLock_same rfl rfl
  | recording lease => exact keepsLock_withLock rfl (keepsLock_same rfl rfl)
  | rotateLock lease =>
    apply keepsLock_owned rfl
    intro current
    split
    · exact keepsLock_same rfl rfl
    · exact keepsLock_hold rfl rfl
  | innerRotate current =>
    apply keepsLock_free
    unfold run
    dsimp only
    split
    · exact Or.inl rfl
    · split
      · exact Or.inr ⟨rfl, le_rfl⟩
      · exact Or.inl rfl
  | rotateDrop current e => exact keepsLock_free (Or.inl rfl)
  | authorizeLock lease n =>
    apply keepsLock_owned rfl
    intro current
    unfold beginAuthorize
    split
    · exact keepsLock_same rfl rfl
    · exact keepsLock_hold rfl rfl
  | innerAuthorize current n =>
    apply keepsLock_free
    unfold run
    dsimp only
    split
    · exact Or.inl rfl
    · split <;> exact Or.inl rfl
  | durableAuthorize current n =>
    apply keepsLock_same _ rfl
    unfold run
    dsimp only
    split
    · split <;> rfl
    · split <;> rfl
  | authorizeFailed current n e => exact keepsLock_withLock rfl (keepsLock_same rfl rfl)
  | authorizeDenied current n => exact keepsLock_withLock rfl (keepsLock_same rfl rfl)
  | authorizeRecord current n a => exact keepsLock_withLock rfl (keepsLock_same rfl rfl)
  | discarding current n previous e =>
    apply keepsLock_same _ rfl
    unfold run
    dsimp only
    split <;> rfl
  | resolveLock lease a how =>
    apply keepsLock_owned rfl
    intro current
    apply keepsLock_same _ rfl
    unfold beginResolve
    repeat' split
    all_goals rfl
  | durableResolve lease a how =>
    apply keepsLock_same _ rfl
    unfold run
    dsimp only
    split <;> split <;> rfl
  | resolveRecord lease a how usage => exact keepsLock_withLock rfl (keepsLock_same rfl rfl)
  | innerResolve lease a how usage =>
    apply keepsLock_same _ rfl
    change (s.endResolve lease a how usage reply).1.locked = s.locked
    unfold endResolve
    repeat' split
    all_goals rfl
  | reportLock lease outcome =>
    apply keepsLock_owned rfl
    intro current
    split
    · exact keepsLock_same rfl rfl
    · exact keepsLock_hold rfl rfl
  | innerReport current outcome => exact keepsLock_free (Or.inl rfl)
  | releaseLock lease =>
    apply keepsLock_withLock rfl
    split
    · exact keepsLock_same rfl rfl
    · apply ifOwned_rule
      · exact keepsLock_same rfl rfl
      · intro current _
        unfold beginRelease
        dsimp only
        split
        · exact keepsLock_same rfl rfl
        · split
          · exact keepsLock_hold rfl rfl
          · split
            · exact keepsLock_hold rfl rfl
            · exact keepsLock_same rfl rfl
  | durableClose current =>
    apply keepsLock_free
    unfold run
    dsimp only
    split
    · exact Or.inl rfl
    · right
      split <;> exact ⟨rfl, le_rfl⟩
  | innerRelease current =>
    apply keepsLock_free
    unfold run
    dsimp only
    split <;> exact Or.inl rfl

end Lock

/-! ## The release of a lease -/

/-- The lease of the reservation has been released, and the reservation is closed. -/
def Ended (s s' : ReservedProxyPool) (ref : LeaseRef) : Prop :=
  s'.answers = s.answers ++ [(.release ref, .ok .done)] ∧ s'.core.Closed ref.reservationId

section Release

variable {s : ReservedProxyPool} {current : ReservedProxyLease}

theorem solo_innerRelease (config : DurablePoolConfig)
    (hclosed : s.core.Closed current.ref.reservationId) (a : Returned) (replies : List PoolReply) :
    ∃ s', (reservedPoolProgram config).solo s (.innerRelease current) (.returned a :: replies) =
      (s', none) ∧ Ended s s' current.ref := by
  refine ⟨_, Program.solo_done _ rfl replies, ?_, ?_⟩
  · rfl
  · exact hclosed

theorem solo_durableClose (config : DurablePoolConfig)
    (hreserved : s.core.Reserved current.ref.reservationId) (a b : Returned)
    (replies : List PoolReply) :
    ∃ s', (reservedPoolProgram config).solo s (.durableClose current)
      (.returned a :: .returned b :: replies) = (s', none) ∧ Ended s s' current.ref := by
  let closed := (s.close current.ref.reservationId).setState current.ref.reservationId
    fun r => { r with durableClosed := true }
  have hclosed : closed.core.Closed current.ref.reservationId := by
    have hcore : closed.core = (s.core.close current.ref.reservationId).markClosed
        current.ref.reservationId := core_markClosed (s.close _) _
    rw [hcore]
    exact closed_close_self hreserved
  obtain ⟨s', hsolo, hended⟩ := solo_innerRelease config hclosed b replies
  exact ⟨s', (Program.solo_next _ rfl _).trans hsolo, hended⟩

theorem solo_beginRelease (config : DurablePoolConfig) (h : s.core.Sound)
    (hmem : current ∈ s.leases) (hrest : ¬ s.Busy current.ref.reservationId) {t : PoolTask}
    {reply : PoolReply} (hrun : s.run config t reply = s.beginRelease current) (a b : Returned) :
    ∃ s', (reservedPoolProgram config).solo s t [reply, .returned a, .returned b] = (s', none) ∧
      Ended s s' current.ref := by
  unfold beginRelease at hrun
  dsimp only at hrun
  rw [if_neg hrest] at hrun
  cases hclosed : (s.states current.ref.reservationId).durableClosed with
  | false =>
    rw [if_pos hclosed] at hrun
    obtain ⟨s', hsolo, hended⟩ := solo_durableClose (s := { s with locked := true }) config
      (h.known current hmem) a b []
    exact ⟨s', (Program.solo_next _ hrun _).trans hsolo, hended⟩
  | true =>
    have hrow : s.core.Closed current.ref.reservationId := h.closed _ hclosed
    rw [if_neg (by simp [hclosed])] at hrun
    cases hreleased : (s.states current.ref.reservationId).innerReleased with
    | false =>
      rw [if_pos hreleased] at hrun
      have hheld : ({ s with locked := true } : ReservedProxyPool).core.Closed
          current.ref.reservationId := hrow
      obtain ⟨s', hsolo, hended⟩ := solo_innerRelease config hheld a [.returned b]
      exact ⟨s', (Program.solo_next _ hrun _).trans hsolo, hended⟩
    | true =>
      rw [if_neg (by simp [hreleased])] at hrun
      refine ⟨_, Program.solo_done _ hrun _, ?_, ?_⟩
      · rfl
      · exact hrow

theorem solo_release (config : DurablePoolConfig) (h : s.core.Sound) (hfree : s.locked = false)
    (hmem : current ∈ s.leases) (hrest : ¬ s.Busy current.ref.reservationId) (a b c d : Returned) :
    ∃ s', (reservedPoolProgram config).solo s (.called (.release current.ref))
      [.returned a, .returned b, .returned c, .returned d] = (s', none) ∧
        Ended s s' current.ref := by
  have hbegin : (reservedPoolProgram config).solo s (.called (.release current.ref))
      [.returned a, .returned b, .returned c, .returned d] =
      (reservedPoolProgram config).solo s (.releaseLock current.ref)
        [.returned b, .returned c, .returned d] := Program.solo_next _ rfl _
  have hlock : s.run config (.releaseLock current.ref) (.returned b) =
      if (s.states current.ref.reservationId).released = true then
        s.finish (.release current.ref) (.ok .done)
      else s.ifOwned current.ref (.release current.ref) fun l => s.beginRelease l := by
    simp [run, withLock, hfree]
  rw [hbegin]
  cases hreleased : (s.states current.ref.reservationId).released with
  | true =>
    rw [if_pos hreleased] at hlock
    refine ⟨_, Program.solo_done _ hlock _, ?_, ?_⟩
    · rfl
    · exact h.closed _ (h.released _ hreleased)
  | false =>
    obtain ⟨owned, howned⟩ : ∃ owned, s.owned current.ref = some owned := by
      have hfound : (s.leases.find? fun l => l.ref == current.ref).isSome = true :=
        List.find?_isSome.mpr ⟨current, hmem, beq_self_eq_true _⟩
      obtain ⟨owned, hfind⟩ := Option.isSome_iff_exists.mp hfound
      exact ⟨owned, by simpa [ReservedProxyPool.owned, hreleased] using hfind⟩
    obtain ⟨href, hin⟩ := ref_of_owned howned
    rw [if_neg (by simp [hreleased]), ifOwned, howned] at hlock
    rw [← href]
    exact solo_beginRelease config h hin (href ▸ hrest) (href ▸ hlock) c d

end Release

end ReservedProxyPool

/-- No call is cut off along a run. -/
def NeverCutOff (config : DurablePoolConfig) (turns : List (Turn PoolCall PoolReply)) : Prop :=
  Trace.Along (reservedPoolProgram config).step (Program.Meets ReservedProxyPool.NotCutOff)
    ⟨{}, []⟩ turns

instance (config : DurablePoolConfig) (turns : List (Turn PoolCall PoolReply)) :
    Decidable (NeverCutOff config turns) :=
  inferInstanceAs (Decidable (Trace.Along _ _ _ _))

namespace ReservedProxyPool

/-- The accounts of the pool are at rest. -/
structure AtRest (s : ReservedProxyPool) : Prop where
  inFlight : ∀ id, (s.states id).inFlight = 0
  pending : ∀ id a, a ∈ (s.states id).pendingAuthorizations ↔
    s.core.Issued id a ∧ s.core.Authorized id a
  held : ∀ row ∈ s.reservations, row.closed = true ∨ s.core.Held row.id

theorem sound_created : (core {}).Sound where
  attempts := List.nodup_nil
  rows := List.nodup_nil
  known _ hl := nomatch hl
  tokens _ _ := fun ⟨_, ht, _⟩ => nomatch ht
  issued _ _ := fun ⟨_, ht, _⟩ => nomatch ht
  pending _ _ ha := absurd ha (Finset.notMem_empty _)
  spent _ ht := nomatch ht
  closed _ hq := nomatch hq
  released _ hq := nomatch hq

theorem atRest_of_done (config : DurablePoolConfig) {turns : List (Turn PoolCall PoolReply)}
    (h : NeverCutOff config turns) (hdone : (reservedPoolAfter config turns).tasks = []) :
    (reservedPoolAfter config turns).shared.core.Sound ∧
      (reservedPoolAfter config turns).shared.AtRest ∧
      (reservedPoolAfter config turns).shared.locked = false := by
  have hrespects := respects_sound config
  have hstart : Program.Free (fun s => s.core.Sound) (fun s => s.core.Claims) Distinct
      (⟨{}, []⟩ : Pool ReservedProxyPool PoolTask) := Program.Free.of_shared sound_created
  have hsound := (hrespects.after hstart (fun _ _ => trivial) h).shared
  have howed : ∀ w : PoolTask → ℕ, Program.owed w (reservedPoolAfter config turns) = 0 :=
    fun w => Program.owed_of_empty w hdone
  have hflight : ∀ id, (reservedPoolAfter config turns).shared.core.inFlight id = 0 := by
    intro id
    have hbalance := hrespects.balanced (m := fun s => s.core.inFlight id)
      (w := PoolTask.admits id) (fun _ => rfl)
      (fun s t reply hcut hs hclaims =>
        inFlight_of_coreStep (coreStep_run config hclaims hcut) id)
      hstart rfl (fun _ _ => trivial) h
    exact hbalance.trans (by rw [← reservedPoolAfter, howed]; rfl)
  have hstale : ∀ id a, (reservedPoolAfter config turns).shared.stale id a = 0 := by
    intro id a
    have hcover := hrespects.covered (m := stale id a) (w := PoolTask.settles id a)
      (fun s t reply hcut hs hclaims =>
        (stale_of_coreStep (coreStep_run config hclaims hcut) hs hclaims id a).imp_left
          fun h => h.trans_le (Nat.zero_le _))
      hstart (Nat.le_of_eq rfl) (fun _ _ => trivial) h
    exact Nat.le_zero.mp (howed (PoolTask.settles id a) ▸ hcover)
  have horphaned : ∀ id, (reservedPoolAfter config turns).shared.orphaned id = 0 := by
    intro id
    have hcover := hrespects.covered (m := orphaned id) (w := PoolTask.records id)
      (fun s t reply hcut hs hclaims =>
        (orphaned_of_coreStep (coreStep_run config hclaims hcut) hs id).imp_left
          fun h => h.trans_le (Nat.zero_le _))
      hstart (Nat.le_of_eq rfl) (fun _ _ => trivial) h
    exact Nat.le_zero.mp (howed (PoolTask.records id) ▸ hcover)
  have htaken : (reservedPoolAfter config turns).shared.taken = 0 := by
    have hcover := hrespects.covered (m := taken) (w := holds)
      (fun s t reply _ _ _ => (keepsLock_run config s t reply).imp_left
          fun h => h.trans_le (Nat.zero_le _))
      hstart (Nat.le_of_eq rfl) (fun _ _ => trivial) h
    exact Nat.le_zero.mp (howed holds ▸ hcover)
  refine ⟨hsound, ⟨hflight, fun id a => ?_, fun row hrow => ?_⟩, ?_⟩
  · constructor
    · intro hpending
      have hissued := hsound.pending id a hpending
      refine ⟨hissued, (hsound.tokens id a hissued).resolve_right fun hsettled => ?_⟩
      have hone := hstale id a
      rw [stale, if_pos ⟨hpending, hsettled⟩] at hone
      exact absurd hone one_ne_zero
    · rintro ⟨hissued, hauthorized⟩
      exact hsound.issued id a hissued hauthorized
  · cases hclosed : row.closed with
    | true => exact Or.inl rfl
    | false =>
      right
      by_contra hheld
      have hone := horphaned row.id
      rw [orphaned, if_pos ⟨⟨row, hrow, rfl, hclosed⟩, hheld⟩] at hone
      exact absurd hone one_ne_zero
  · by_contra hlocked
    rw [taken, if_pos (Bool.eq_true_of_not_eq_false hlocked)] at htaken
    exact absurd htaken one_ne_zero

end ReservedProxyPool

/-- **No reservation is wedged or orphaned.**  When no call is under way, after a run in which none
was cut off, the accounts are at rest, and a lease whose tokens are all resolved is released: its
reservation is closed. -/
theorem unwedged_of_neverCutOff (config : DurablePoolConfig)
    (turns : List (Turn PoolCall PoolReply)) (h : NeverCutOff config turns)
    (hdone : (reservedPoolAfter config turns).tasks = []) :
    (reservedPoolAfter config turns).shared.AtRest ∧
    ∀ lease ∈ (reservedPoolAfter config turns).shared.leases,
      (∀ t ∈ (reservedPoolAfter config turns).shared.tokens,
        t.lease.ref.reservationId = lease.ref.reservationId → t.resolved = true) →
      ∀ a b c d : Returned, ∃ s', (reservedPoolProgram config).solo
          (reservedPoolAfter config turns).shared (.called (.release lease.ref))
          [.returned a, .returned b, .returned c, .returned d] = (s', none) ∧
        ReservedProxyPool.Ended (reservedPoolAfter config turns).shared s' lease.ref := by
  obtain ⟨hsound, hrest, hfree⟩ := ReservedProxyPool.atRest_of_done config h hdone
  refine ⟨hrest, fun lease hlease hresolved a b c d => ?_⟩
  apply ReservedProxyPool.solo_release config hsound hfree hlease
  rintro (hpending | hflight)
  · -- A pending attempt has a token, which is resolved; then the database has it settled.
    obtain ⟨attempt, hattempt⟩ := Finset.nonempty_iff_ne_empty.mpr hpending
    obtain ⟨⟨t, ht, rfl, href⟩, hauthorized⟩ := (hrest.pending _ _).mp hattempt
    exact PoolCore.not_settled_of_authorized hsound hauthorized
      (hsound.spent t ht (hresolved t ht href))
  · exact hflight (hrest.inFlight _)

/-- An attempt of a lease is authorized and released again. -/
def releasingRun : List (Turn PoolCall PoolReply) :=
  acquireLease ++ beginAttempt 0 ++ [.resume 0 (.returned {}), .resume 0 (.returned {})] ++
    .spawn (.resolve 0 .release) :: List.replicate 5 (.resume 0 (.returned {}))

/-- The accounts are at rest after the run. -/
theorem unwedged_of_neverCutOff_released :
    (reservedPoolAfter runConfig releasingRun).shared.AtRest := by
  have hcut : NeverCutOff runConfig releasingRun := by decide +kernel
  have hdone : (reservedPoolAfter runConfig releasingRun).tasks = [] := by decide +kernel
  exact (unwedged_of_neverCutOff runConfig releasingRun hcut hdone).1

/-- An authorization is cancelled while it waits for the lock that another one has, after the
database has authorized the attempt; the other one ends, and the lease is released. -/
def cancelledRun : List (Turn PoolCall PoolReply) :=
  acquireLease ++ beginAttempt 0 ++
    [.spawn (.authorize ⟨0, 0⟩ 10), .resume 1 (.returned {}), .resume 1 (.returned {}),
      .resume 0 (.returned {}), .resume 0 (.returned {}), .resume 0 (.cancelled false),
      .resume 0 (.returned { authorized := false }), .spawn (.release ⟨0, 0⟩),
      .resume 0 (.returned {}), .resume 0 (.returned {})]

/-- No call is under way after the run, but an attempt is in flight, without a token, and the
release of the lease has raised. -/
theorem wedged_by_cancellation :
    (reservedPoolAfter runConfig cancelledRun).tasks.length = 0 ∧
      ((reservedPoolAfter runConfig cancelledRun).shared.states 0).inFlight = 1 ∧
      (reservedPoolAfter runConfig cancelledRun).shared.tokens.length = 0 ∧
      (reservedPoolAfter runConfig cancelledRun).shared.answers.getLast? = some (.release ⟨0, 0⟩,
        .error (.denied "proxy lease has unreconciled authorized requests")) := by
  refine ⟨?_, ?_, ?_, ?_⟩ <;> decide +kernel

end CommerceCollector
