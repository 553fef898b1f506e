import CommerceCollector.Proxy.AttemptLocks

/-!
# The accounts of an open reservation

The counters of an open reservation are the sums over its reconciled attempts.  The statements of
the calls write to the ledger in four ways, `Writes`; each exchanges the share of one attempt in the
sums. The bounds on bytes and requests allow for what the reconciled attempts used beyond what was
authorized.
-/

namespace CommerceCollector

open Relational Transaction Tasks

/-- The attempt is reconciled on a reservation. -/
def AttemptAuthorization.reconciledOn (a : AttemptAuthorization) (reservationId : Uuid) : Bool :=
  a.reservationId == reservationId && a.state == .reconciled

namespace ProxyLedger

/-- `sum(actual_bytes)` over the reconciled attempts of a reservation. -/
def reconciledBytes (l : ProxyLedger) (reservationId : Uuid) : ℕ :=
  total (fun a => a.reconciledOn reservationId) (fun a => a.actualBytes.getD 0) l.authorizations

/-- `sum(physical_requests)` over the reconciled attempts of a reservation. -/
def reconciledRequests (l : ProxyLedger) (reservationId : Uuid) : ℕ :=
  total (fun a => a.reconciledOn reservationId) (fun a => a.physicalRequests.getD 0)
    l.authorizations

/-- What the reconciled attempts of a reservation have used beyond their estimates. -/
def excessBytes (l : ProxyLedger) (reservationId : Uuid) : ℕ :=
  total (fun a => a.reconciledOn reservationId)
    (fun a => a.actualBytes.getD 0 - a.estimatedBytes) l.authorizations

/-- What the reconciled attempts of a reservation have sent beyond one request each. -/
def excessRequests (l : ProxyLedger) (reservationId : Uuid) : ℕ :=
  total (fun a => a.reconciledOn reservationId) (fun a => a.physicalRequests.getD 0 - 1)
    l.authorizations

/-- The reconciled attempts of a reservation. -/
def reconciledAttempts (l : ProxyLedger) (reservationId : Uuid) : ℕ :=
  l.authorizations.countP fun a => a.reconciledOn reservationId

/-- What a statement of a call writes to the ledger, if every authorization on a reservation is
called with the maximum of requests that `cap` gives for it. -/
inductive Writes (cap : Uuid → Option ℤ) (l : ProxyLedger) : ProxyLedger → Prop
  | nothing : Writes cap l l
  | inserted (c : AuthorizeCall) (row : ProxyReservation)
      (hrow : l.reservation c.reservationId = some row) (hfits : ¬ l.Exceeds c row)
      (hcap : ∀ m ∈ cap c.reservationId, c.maximumRequests = some m) :
      Writes cap l (l.insertAuthorization c).2
  | resolved (row : AttemptAuthorization) (actualBytes physicalRequests : ℕ)
      (hrow : l.authorization row.id = some row) (hstate : row.state = .authorized) :
      Writes cap l (l.resolveAttempt row actualBytes physicalRequests)
  | released (id : Uuid) :
      Writes cap l { l with
        authorizations := update (fun a => a.id == id && a.state == .authorized)
          (fun a => { a with state := .released }) l.authorizations }
  | other (a : Step) (ha : a.isOther = true) : Writes cap l (l.step a)

/-- What is left of an attempt: an attempt that was resolved never changes. -/
structure Resolves (a a' : AttemptAuthorization) : Prop where
  id : a'.id = a.id
  reservationId : a'.reservationId = a.reservationId
  estimatedBytes : a'.estimatedBytes = a.estimatedBytes
  final : a.state ≠ .authorized → a' = a

theorem Resolves.refl (a : AttemptAuthorization) : Resolves a a := ⟨rfl, rfl, rfl, fun _ => rfl⟩

section Writes

variable {cap : Uuid → Option ℤ} {l l' : ProxyLedger}

theorem eq_of_authorization (hkeyed : Keyed AttemptAuthorization.id l.authorizations)
    {row a : AttemptAuthorization} (hrow : l.authorization row.id = some row)
    (ha : a ∈ l.authorizations) (hid : a.id = row.id) : a = row := by
  have hmem : row ∈ l.authorizations := (mem_of_find? hrow).1
  exact hkeyed.eq_of_mem ha hmem hid

/-- **An attempt that was resolved never changes.** -/
theorem Writes.resolves (h : l.Writes cap l')
    (hkeyed : Keyed AttemptAuthorization.id l.authorizations) {a : AttemptAuthorization}
    (ha : a ∈ l.authorizations) : ∃ a' ∈ l'.authorizations, Resolves a a' := by
  cases h with
  | nothing => exact ⟨a, ha, Resolves.refl a⟩
  | inserted c row hrow hfits hcap => exact ⟨a, List.mem_append_left _ ha, Resolves.refl a⟩
  | resolved row actualBytes physicalRequests hrow hstate =>
    by_cases hid : a.id = row.id
    · refine ⟨_, mem_update_of_pos ha (beq_iff_eq.mpr hid), rfl, rfl, rfl, fun hfinal => ?_⟩
      rw [eq_of_authorization hkeyed hrow ha hid] at hfinal
      exact absurd hstate hfinal
    · exact ⟨a, mem_update_of_neg ha (beq_eq_false_iff_ne.mpr hid), Resolves.refl a⟩
  | released id =>
    cases hopen : a.id == id && a.state == .authorized with
    | true =>
      refine ⟨_, mem_update_of_pos ha hopen, rfl, rfl, rfl, fun hfinal => ?_⟩
      rw [Bool.and_eq_true, beq_iff_eq, beq_iff_eq] at hopen
      exact absurd hopen.2 hfinal
    | false => exact ⟨a, mem_update_of_neg ha hopen, Resolves.refl a⟩
  | other b hb =>
    rw [step_authorizations hb]
    exact ⟨a, ha, Resolves.refl a⟩

/-- What the other transactions do to an open reservation: nothing that counts. -/
def Counts (r r' : ProxyReservation) : Prop :=
  r'.id = r.id ∧ (r'.held = true → r.held = true ∧ r'.reservedBytes = r.reservedBytes ∧
    r'.estimatedBytes = r.estimatedBytes ∧ r'.requestCount = r.requestCount)

/-- The other transactions open reservations with counters at zero, and close them. -/
theorem step_reservations (l : ProxyLedger) {a : Step} (ha : a.isOther = true) :
    Rewrites Counts l.reservations (l.step a).reservations ∨
      ∃ r, (l.step a).reservations = l.reservations ++ [r] ∧
        r.id = freshKey ProxyReservation.id l.reservations ∧ r.estimatedBytes = 0 ∧
          r.requestCount = 0 := by
  have hclosed : ∀ {p : ProxyReservation → Bool} {f : ProxyReservation → ProxyReservation},
      (∀ r, p r = true → (f r).id = r.id ∧ (f r).held = false) →
      Rewrites Counts l.reservations (update p f l.reservations) := by
    intro p f hf
    refine rewrites_update fun r _ hr => ⟨(hf r hr).1, fun hheld => ?_⟩
    rw [(hf r hr).2] at hheld
    exact absurd hheld (by simp)
  cases a with
  | reserve now workerNow request =>
    refine attempt_induction (P := fun l' : ProxyLedger => Rewrites Counts l.reservations
      l'.reservations ∨ ∃ r, l'.reservations = l.reservations ++ [r] ∧
        r.id = freshKey ProxyReservation.id l.reservations ∧ r.estimatedBytes = 0 ∧
          r.requestCount = 0) (Or.inl (Rewrites.refl _ _)) fun id l' hok => ?_
    obtain ⟨row, r, -, rfl, hid, -, -, -, hbytes, -, hrequests⟩ := reserve_row hok
    exact Or.inr ⟨r, rfl, hid, hbytes, hrequests⟩
  | authorize now id estimatedBytes maximumRequests => exact absurd ha (by simp [Step.isOther])
  | reconcileAttempt id actualBytes physicalRequests => exact absurd ha (by simp [Step.isOther])
  | releaseAttempt id => exact absurd ha (by simp [Step.isOther])
  | close now id usedBytes requests =>
    apply Or.inl
    change Rewrites Counts l.reservations (l.closeReservation now id usedBytes requests).reservations
    unfold closeReservation
    split
    · exact Rewrites.refl _ _
    · dsimp only
      split
      · exact hclosed fun r _ => ⟨rfl, rfl⟩
      · split
        · refine hclosed fun r hr => ⟨rfl, ?_⟩
          simp only [Bool.and_eq_true, beq_iff_eq] at hr
          simp [ProxyReservation.held, ProxyReservation.raise, hr.1.2]
        · exact Rewrites.refl _ _
  | closeStale now =>
    apply Or.inl
    change Rewrites Counts l.reservations (l.closeStaleReservations now).reservations
    rw [closeStaleReservations_reservations]
    exact hclosed fun r _ => ⟨rfl, rfl⟩
  | reconcile now key reportedBytes successful =>
    refine attempt_induction (P := fun l' : ProxyLedger => Rewrites Counts l.reservations
      l'.reservations ∨ ∃ r, l'.reservations = l.reservations ++ [r] ∧
        r.id = freshKey ProxyReservation.id l.reservations ∧ r.estimatedBytes = 0 ∧
          r.requestCount = 0) (Or.inl (Rewrites.refl _ _)) fun id l' hok => Or.inl ?_
    rw [reconcile_rows hok]
    exact Rewrites.refl _ _
  | killSwitch now provider action =>
    apply Or.inl
    cases action with
    | activate => exact Rewrites.refl _ _
    | revoke =>
      refine rewrites_update fun r _ hr => ⟨rfl, fun _ => ⟨?_, rfl, rfl, rfl⟩⟩
      simp only [Bool.and_eq_true, beq_iff_eq] at hr
      simp [ProxyReservation.held, hr.2]
    | clear => exact Rewrites.refl _ _
  | administer key settings => exact Or.inl (Rewrites.refl _ _)
  | surround around => exact Or.inl (Rewrites.refl _ _)

/-! ## The counters of an open reservation -/

/-- The counters of an open reservation are accurate, and within what was authorized. -/
structure Accurate (cap : Uuid → Option ℤ) (l : ProxyLedger) (r : ProxyReservation) : Prop where
  bytes : r.estimatedBytes = l.reconciledBytes r.id
  requests : r.requestCount = l.reconciledRequests r.id
  room : r.estimatedBytes + l.pendingBytes r.id ≤ r.reservedBytes + l.excessBytes r.id
  turns : ∀ m ∈ cap r.id,
    r.requestCount + l.pendingRequests r.id ≤ m.toNat + l.excessRequests r.id

/-- The tables are keyed, every attempt has its reservation, and the counters are accurate. -/
structure Accounted (cap : Uuid → Option ℤ) (l : ProxyLedger) : Prop where
  reservations : Keyed ProxyReservation.id l.reservations
  authorizations : Keyed AttemptAuthorization.id l.authorizations
  home : ∀ a ∈ l.authorizations, ∃ r ∈ l.reservations, r.id = a.reservationId
  accurate : ∀ r ∈ l.reservations, r.held = true → l.Accurate cap r

theorem Accurate.congr {r r' : ProxyReservation} (h : l.Accurate cap r)
    (hsame : l'.authorizations = l.authorizations) (hid : r'.id = r.id)
    (hreserved : r'.reservedBytes = r.reservedBytes)
    (hestimated : r'.estimatedBytes = r.estimatedBytes)
    (hrequests : r'.requestCount = r.requestCount) : l'.Accurate cap r' := by
  obtain ⟨hb, hr, hroom, hturns⟩ := h
  constructor
  · rw [hestimated, hb, hid, reconciledBytes, reconciledBytes, hsame]
  · rw [hrequests, hr, hid, reconciledRequests, reconciledRequests, hsame]
  · rw [hestimated, hreserved, hid, pendingBytes, excessBytes, hsame]
    exact hroom
  · intro m hm
    rw [hid] at hm ⊢
    rw [hrequests, pendingRequests, excessRequests, hsame]
    exact hturns m hm

theorem Accounted.accurate_new (h : l.Accounted cap) {r : ProxyReservation}
    (hid : r.id = freshKey ProxyReservation.id l.reservations) (hbytes : r.estimatedBytes = 0)
    (hrequests : r.requestCount = 0) : l.Accurate cap r := by
  have hnone : ∀ a ∈ l.authorizations, a.reservationId ≠ r.id := by
    intro a ha heq
    obtain ⟨r', hr', hid'⟩ := h.home a ha
    have hlt : r'.id < freshKey ProxyReservation.id l.reservations := key_lt_freshKey hr'
    rw [hid', heq, hid] at hlt
    exact absurd hlt (lt_irrefl _)
  have hreconciled : ∀ a ∈ l.authorizations, a.reconciledOn r.id = false := by
    intro a ha
    simp [AttemptAuthorization.reconciledOn, hnone a ha]
  have hpending : ∀ a ∈ l.authorizations, a.pendingOn r.id = false := by
    intro a ha
    simp [AttemptAuthorization.pendingOn, hnone a ha]
  constructor
  · rw [hbytes, reconciledBytes, total_eq_zero hreconciled]
  · rw [hrequests, reconciledRequests, total_eq_zero hreconciled]
  · rw [hbytes, pendingBytes, total_eq_zero hpending]
    exact Nat.zero_le _
  · intro m _
    rw [hrequests, pendingRequests, countP_eq_total, total_eq_zero hpending]
    exact Nat.zero_le _

theorem Accounted.other (h : l.Accounted cap) {a : Step} (ha : a.isOther = true) :
    (l.step a).Accounted cap := by
  have hsame : (l.step a).authorizations = l.authorizations := step_authorizations ha
  rcases step_reservations l ha with hrewrites | ⟨r, hnew, hid, hbytes, hrequests⟩
  · refine ⟨?_, ?_, fun b hb => ?_, fun r' hr' hheld => ?_⟩
    · rw [Keyed, hrewrites.map_eq fun r r' hcounts => hcounts.1]
      exact h.reservations
    · rw [hsame]
      exact h.authorizations
    · rw [hsame] at hb
      obtain ⟨r, hr, hid⟩ := h.home b hb
      obtain ⟨r', hr', hcases⟩ := hrewrites.exists_new hr
      rcases hcases with rfl | hcounts
      · exact ⟨r', hr', hid⟩
      · exact ⟨r', hr', hcounts.1.trans hid⟩
    · obtain ⟨r, hr, hcases⟩ := hrewrites.exists_old hr'
      rcases hcases with rfl | hcounts
      · exact (h.accurate r' hr hheld).congr hsame rfl rfl rfl rfl
      · obtain ⟨hold, hreserved, hestimated, hcount⟩ := hcounts.2 hheld
        exact (h.accurate r hr hold).congr hsame hcounts.1 hreserved hestimated hcount
  · refine ⟨?_, ?_, fun b hb => ?_, fun r' hr' hheld => ?_⟩
    · rw [hnew]
      exact h.reservations.append_fresh hid
    · rw [hsame]
      exact h.authorizations
    · rw [hsame] at hb
      obtain ⟨r', hr', hid'⟩ := h.home b hb
      refine ⟨r', ?_, hid'⟩
      rw [hnew]
      exact List.mem_append_left _ hr'
    · rw [hnew] at hr'
      rcases List.mem_append.mp hr' with hold | hlast
      · exact (h.accurate r' hold hheld).congr hsame rfl rfl rfl rfl
      · obtain rfl : r' = r := List.mem_singleton.mp hlast
        exact (h.accurate_new hid hbytes hrequests).congr hsame rfl rfl rfl rfl

theorem Accounted.inserted (h : l.Accounted cap) {c : AuthorizeCall} {row : ProxyReservation}
    (hrow : l.reservation c.reservationId = some row) (hfits : ¬ l.Exceeds c row)
    (hcap : ∀ m ∈ cap c.reservationId, c.maximumRequests = some m) :
    (l.insertAuthorization c).2.Accounted cap := by
  obtain ⟨hmem, hfound⟩ := mem_of_find? hrow
  have hid : row.id = c.reservationId := beq_iff_eq.mp hfound
  refine ⟨h.reservations, h.authorizations.append_fresh rfl, fun a ha => ?_, fun r hr hheld => ?_⟩
  · rcases List.mem_append.mp ha with hold | hnew
    · exact h.home a hold
    · rw [List.mem_singleton.mp hnew]
      exact ⟨row, hmem, hid⟩
  · obtain ⟨hbytes, hrequests, hroom, hturns⟩ := h.accurate r hr hheld
    unfold Exceeds at hfits
    rw [not_or] at hfits
    obtain ⟨hroom', hturns'⟩ := hfits
    have hsum : ∀ (p : AttemptAuthorization → Bool) (amount : AttemptAuthorization → ℕ),
        total p amount (l.insertAuthorization c).2.authorizations =
          total p amount l.authorizations + share p amount
            { id := freshKey AttemptAuthorization.id l.authorizations
              reservationId := c.reservationId, estimatedBytes := c.estimatedBytes.toNat } := by
      intro p amount
      unfold insertAuthorization
      rw [total_append, total_cons, total_nil, Nat.add_zero]
    have hreconciled : ∀ amount : AttemptAuthorization → ℕ,
        total (fun a => a.reconciledOn r.id) amount (l.insertAuthorization c).2.authorizations =
          total (fun a => a.reconciledOn r.id) amount l.authorizations := by
      intro amount
      rw [hsum]
      simp [share, AttemptAuthorization.reconciledOn]
    have hpending : ∀ amount : AttemptAuthorization → ℕ,
        total (fun a => a.pendingOn r.id) amount (l.insertAuthorization c).2.authorizations =
          total (fun a => a.pendingOn r.id) amount l.authorizations +
            if c.reservationId = r.id then amount
              { id := freshKey AttemptAuthorization.id l.authorizations
                reservationId := c.reservationId, estimatedBytes := c.estimatedBytes.toNat }
            else 0 := by
      intro amount
      rw [hsum]
      simp [share, AttemptAuthorization.pendingOn]
    refine ⟨?_, ?_, ?_, fun m hm => ?_⟩
    · rw [hbytes]
      exact (hreconciled _).symm
    · rw [hrequests]
      exact (hreconciled _).symm
    · have hmore : (l.insertAuthorization c).2.pendingBytes r.id = l.pendingBytes r.id +
          if c.reservationId = r.id then c.estimatedBytes.toNat else 0 := hpending _
      have hexcess : (l.insertAuthorization c).2.excessBytes r.id = l.excessBytes r.id :=
        hreconciled _
      rw [hmore, hexcess]
      by_cases hsame : c.reservationId = r.id
      · obtain rfl : r = row := h.reservations.eq_of_mem hr hmem (hsame.symm.trans hid.symm)
        rw [hsame] at hroom'
        rw [if_pos hsame]
        omega
      · rw [if_neg hsame]
        exact hroom
    · have hmore : (l.insertAuthorization c).2.pendingRequests r.id = l.pendingRequests r.id +
          if c.reservationId = r.id then 1 else 0 := by
        rw [pendingRequests, pendingRequests, countP_eq_total, countP_eq_total]
        exact hpending fun _ => 1
      have hexcess : (l.insertAuthorization c).2.excessRequests r.id = l.excessRequests r.id :=
        hreconciled _
      rw [hmore, hexcess]
      by_cases hsame : c.reservationId = r.id
      · obtain rfl : r = row := h.reservations.eq_of_mem hr hmem (hsame.symm.trans hid.symm)
        have hlimit : ¬ (m ≤ r.requestCount + l.pendingRequests c.reservationId) :=
          fun hle => hturns' ⟨m, hcap m (hsame ▸ hm), hle⟩
        rw [hsame] at hlimit
        rw [if_pos hsame]
        omega
      · rw [if_neg hsame]
        exact hturns m hm

theorem total_resolveAttempt (hkeyed : Keyed AttemptAuthorization.id l.authorizations)
    {row : AttemptAuthorization} (hrow : l.authorization row.id = some row)
    (actualBytes physicalRequests : ℕ) (p : AttemptAuthorization → Bool)
    (amount : AttemptAuthorization → ℕ) :
    total p amount (l.resolveAttempt row actualBytes physicalRequests).authorizations +
        share p amount row =
      total p amount l.authorizations + share p amount { row with
        state := .reconciled
        actualBytes := some actualBytes
        physicalRequests := some physicalRequests } := by
  have hmem : row ∈ l.authorizations := (mem_of_find? hrow).1
  exact total_update_key hkeyed hmem (beq_self_eq_true row.id) (fun a ha => beq_iff_eq.mp ha) p
    amount _

section Resolved

variable {row : AttemptAuthorization} (hkeyed : Keyed AttemptAuthorization.id l.authorizations)
  (hrow : l.authorization row.id = some row) (hstate : row.state = .authorized)
  (actualBytes physicalRequests : ℕ) (id : Uuid)

include hkeyed hrow hstate

theorem pending_resolveAttempt :
    (l.resolveAttempt row actualBytes physicalRequests).pendingBytes id +
        (if row.reservationId = id then row.estimatedBytes else 0) = l.pendingBytes id ∧
      (l.resolveAttempt row actualBytes physicalRequests).pendingRequests id +
        (if row.reservationId = id then 1 else 0) = l.pendingRequests id := by
  have hsum := total_resolveAttempt hkeyed hrow actualBytes physicalRequests
    fun a => a.pendingOn id
  simp only [share, AttemptAuthorization.pendingOn, hstate, Bool.and_eq_true, beq_iff_eq,
    reduceCtorEq, and_false, and_true, if_false, Nat.add_zero] at hsum
  constructor
  · exact hsum AttemptAuthorization.estimatedBytes
  · rw [pendingRequests, pendingRequests, countP_eq_total, countP_eq_total]
    exact hsum fun _ => 1

theorem reconciled_resolveAttempt (amount : AttemptAuthorization → ℕ) :
    total (fun a => a.reconciledOn id) amount
        (l.resolveAttempt row actualBytes physicalRequests).authorizations =
      total (fun a => a.reconciledOn id) amount l.authorizations +
        if row.reservationId = id then amount { row with
          state := .reconciled
          actualBytes := some actualBytes
          physicalRequests := some physicalRequests } else 0 := by
  have hsum := total_resolveAttempt hkeyed hrow actualBytes physicalRequests
    (fun a => a.reconciledOn id) amount
  simp only [share, AttemptAuthorization.reconciledOn, hstate, Bool.and_eq_true, beq_iff_eq,
    reduceCtorEq, and_false, and_true, if_false, Nat.add_zero] at hsum
  exact hsum

end Resolved

/-- The actuals of a pending attempt move from the pending sum to the reconciled one. -/
theorem Accounted.resolved (h : l.Accounted cap) {row : AttemptAuthorization}
    (hrow : l.authorization row.id = some row) (hstate : row.state = .authorized)
    (actualBytes physicalRequests : ℕ) :
    (l.resolveAttempt row actualBytes physicalRequests).Accounted cap := by
  refine ⟨h.reservations.update fun _ => rfl, h.authorizations.update fun _ => rfl,
    fun a ha => ?_, fun r' hr' hheld => ?_⟩
  · have hold : ∃ b ∈ l.authorizations, b.reservationId = a.reservationId := by
      obtain ⟨b, hb, rfl⟩ := mem_update.mp ha
      refine ⟨b, hb, ?_⟩
      split <;> rfl
    obtain ⟨b, hb, hreservation⟩ := hold
    obtain ⟨r, hr, hid⟩ := h.home b hb
    by_cases hspent : r.id = row.reservationId
    · exact ⟨_, mem_update_of_pos hr (beq_iff_eq.mpr hspent), hid.trans hreservation⟩
    · exact ⟨r, mem_update_of_neg hr (beq_eq_false_iff_ne.mpr hspent), hid.trans hreservation⟩
  · obtain ⟨r, hr, rfl⟩ := mem_update.mp hr'
    have hheld : r.held = true := by
      split at hheld
      · exact hheld
      · exact hheld
    obtain ⟨hbytes, hrequests, hroom, hturns⟩ := h.accurate r hr hheld
    obtain ⟨hpendingBytes, hpendingRequests⟩ := pending_resolveAttempt h.authorizations hrow hstate
      actualBytes physicalRequests r.id
    have hreconciled := reconciled_resolveAttempt h.authorizations hrow hstate actualBytes
      physicalRequests r.id
    have hreconciledBytes : (l.resolveAttempt row actualBytes physicalRequests).reconciledBytes r.id =
        l.reconciledBytes r.id + if row.reservationId = r.id then actualBytes else 0 :=
      hreconciled _
    have hreconciledRequests :
        (l.resolveAttempt row actualBytes physicalRequests).reconciledRequests r.id =
          l.reconciledRequests r.id + if row.reservationId = r.id then physicalRequests else 0 :=
      hreconciled _
    have hexcessBytes : (l.resolveAttempt row actualBytes physicalRequests).excessBytes r.id =
        l.excessBytes r.id +
          if row.reservationId = r.id then actualBytes - row.estimatedBytes else 0 :=
      hreconciled _
    have hexcessRequests :
        (l.resolveAttempt row actualBytes physicalRequests).excessRequests r.id =
          l.excessRequests r.id + if row.reservationId = r.id then physicalRequests - 1 else 0 :=
      hreconciled _
    by_cases hspent : r.id = row.reservationId
    · rw [if_pos (beq_iff_eq.mpr hspent)]
      have hsame : row.reservationId = r.id := hspent.symm
      simp only [if_pos hsame] at hpendingBytes hpendingRequests
      simp only [if_pos hsame] at hreconciledBytes hreconciledRequests hexcessBytes hexcessRequests
      refine ⟨?_, ?_, ?_, fun m hm => ?_⟩
      · change r.estimatedBytes + actualBytes = _
        exact (congrArg (· + actualBytes) hbytes).trans hreconciledBytes.symm
      · change r.requestCount + physicalRequests = _
        exact (congrArg (· + physicalRequests) hrequests).trans hreconciledRequests.symm
      · change r.estimatedBytes + actualBytes + pendingBytes _ r.id ≤
          r.reservedBytes + excessBytes _ r.id
        omega
      · have hlimit := hturns m hm
        change r.requestCount + physicalRequests + pendingRequests _ r.id ≤
          m.toNat + excessRequests _ r.id
        omega
    · have hother : ¬ row.reservationId = r.id := fun heq => hspent heq.symm
      rw [if_neg (by simpa using hspent)]
      simp only [if_neg hother, Nat.add_zero] at hpendingBytes hpendingRequests hreconciledBytes
      simp only [if_neg hother, Nat.add_zero] at hreconciledRequests hexcessBytes hexcessRequests
      refine ⟨?_, ?_, ?_, fun m hm => ?_⟩
      · rw [hreconciledBytes]
        exact hbytes
      · rw [hreconciledRequests]
        exact hrequests
      · rw [hpendingBytes, hexcessBytes]
        exact hroom
      · rw [hpendingRequests, hexcessRequests]
        exact hturns m hm

theorem Accounted.released (h : l.Accounted cap) (id : Uuid) :
    Accounted cap { l with
      authorizations := update (fun a => a.id == id && a.state == .authorized)
        (fun a => { a with state := .released }) l.authorizations } := by
  have hreconciled : ∀ (r : ProxyReservation) (amount : AttemptAuthorization → ℕ)
      (_ : ∀ a, amount { a with state := .released } = amount a),
      total (fun a => a.reconciledOn r.id) amount
          (update (fun a => a.id == id && a.state == .authorized)
            (fun a => { a with state := .released }) l.authorizations) =
        total (fun a => a.reconciledOn r.id) amount l.authorizations := by
    intro r amount _
    apply total_update_eq
    intro a _ ha
    rw [Bool.and_eq_true, beq_iff_eq, beq_iff_eq] at ha
    simp [share, AttemptAuthorization.reconciledOn, ha.2]
  refine ⟨h.reservations, h.authorizations.update fun _ => rfl, fun a ha => ?_,
    fun r hr hheld => ?_⟩
  · obtain ⟨b, hb, rfl⟩ := mem_update.mp ha
    obtain ⟨r, hr, hid⟩ := h.home b hb
    refine ⟨r, hr, hid.trans ?_⟩
    split <;> rfl
  · obtain ⟨hbytes, hrequests, hroom, hturns⟩ := h.accurate r hr hheld
    refine ⟨?_, ?_, ?_, fun m hm => ?_⟩
    · rw [hbytes]
      exact (hreconciled r _ fun _ => rfl).symm
    · rw [hrequests]
      exact (hreconciled r _ fun _ => rfl).symm
    · have hless : total (fun a => a.pendingOn r.id) AttemptAuthorization.estimatedBytes
          (update (fun a => a.id == id && a.state == .authorized)
            (fun a => { a with state := .released }) l.authorizations) ≤ l.pendingBytes r.id := by
        apply total_update_le
        intro a _ _
        simp [share, AttemptAuthorization.pendingOn]
      have hexcess := hreconciled r (fun a => a.actualBytes.getD 0 - a.estimatedBytes) fun _ => rfl
      unfold excessBytes at hroom
      rw [← hexcess] at hroom
      exact (Nat.add_le_add_left hless _).trans hroom
    · have hless : (update (fun a : AttemptAuthorization => a.id == id && a.state == .authorized)
          (fun a => { a with state := .released }) l.authorizations).countP
            (fun a => a.pendingOn r.id) ≤ l.pendingRequests r.id :=
        countP_update_le fun a _ _ hpending => absurd hpending
          (by simp [AttemptAuthorization.pendingOn])
      have hexcess := hreconciled r (fun a => a.physicalRequests.getD 0 - 1) fun _ => rfl
      have hlimit := hturns m hm
      unfold excessRequests at hlimit
      rw [← hexcess] at hlimit
      exact (Nat.add_le_add_left hless _).trans hlimit

/-- **Every statement keeps the accounts.** -/
theorem Accounted.writes (h : l.Accounted cap) (hwrites : l.Writes cap l') : l'.Accounted cap := by
  cases hwrites with
  | nothing => exact h
  | inserted c row hrow hfits hcap => exact h.inserted hrow hfits hcap
  | resolved row actualBytes physicalRequests hrow hstate =>
    exact h.resolved hrow hstate actualBytes physicalRequests
  | released id => exact h.released id
  | other a ha => exact h.other ha

end Writes

end ProxyLedger

end CommerceCollector
