import CommerceCollector.Proxy.Ceiling

/-!
# The allocation of a profile

`reserve` compares the reservations that a profile holds with its allocation, and leaves out what
its settled reservations have used; the check of the whole cycle in the same transaction counts
both.  So a profile that opens and closes reservations is charged again and again up to its
allocation.  The bytes charged to a profile stay within the allocation as long as whatever a
transaction adds to them still fits (`allocation_kept`).
-/

namespace CommerceCollector

open Relational Transaction

namespace ProxyLedger

/-- The reservation is charged to a profile in a cycle. -/
def chargesProfile (key : String × Time) (profileId : Uuid) (r : ProxyReservation) : Bool :=
  r.chargedTo key && r.profileId == profileId

/-- What a profile has used in a cycle, by its settled reservations. -/
def settledProfileBytes (s : ProxyLedger) (key : String × Time) (profileId : Uuid) : ℕ :=
  total (fun r => chargesProfile key profileId r && r.settled) ProxyReservation.estimatedBytes
    s.reservations

/-- What the reservations of a profile hold. -/
def heldProfileBytes (s : ProxyLedger) (key : String × Time) (profileId : Uuid) : ℕ :=
  total (fun r => chargesProfile key profileId r && r.held) ProxyReservation.reservedBytes
    s.reservations

/-- The bytes charged to a profile in a cycle. -/
def profileBytes (s : ProxyLedger) (key : String × Time) (profileId : Uuid) : ℕ :=
  s.settledProfileBytes key profileId + s.heldProfileBytes key profileId

/-- The allocation of a profile in a cycle. -/
def allocatedBytes (s : ProxyLedger) (key : String × Time) (profileId : Uuid) : Option ℕ :=
  (s.allocations.find? fun a => a.provider == key.1 && a.cycleStart == key.2 &&
    a.profileId == profileId).map ProfileAllocation.allocatedBytes

theorem profileBytes_eq (s : ProxyLedger) (key : String × Time) (profileId : Uuid) :
    s.profileBytes key profileId =
      total (chargesProfile key profileId) ProxyReservation.exposure s.reservations := by
  unfold profileBytes settledProfileBytes heldProfileBytes
  induction s.reservations with
  | nil => rfl
  | cons r rows ih =>
    rw [total_cons, total_cons, total_cons, ← ih]
    have hsplit : share (chargesProfile key profileId) ProxyReservation.exposure r =
        share (fun r => chargesProfile key profileId r && r.settled)
            ProxyReservation.estimatedBytes r +
          share (fun r => chargesProfile key profileId r && r.held)
            ProxyReservation.reservedBytes r := by
      simp only [share, ProxyReservation.exposure, r.settled_eq_not_held]
      by_cases hcharged : chargesProfile key profileId r = true <;> by_cases hheld : r.held = true <;>
        simp [hcharged, hheld]
    omega

/-! ## What a transaction adds -/

/-- The usage that the transaction reports stays within the reserved bytes. -/
def Within (s : ProxyLedger) : Step → Prop
  | .reconcileAttempt authorizationId actualBytes _ =>
    ∀ b ∈ s.authorization authorizationId, b.state = .authorized →
      ∀ r ∈ s.reservation b.reservationId, r.estimatedBytes + actualBytes.toNat ≤ r.reservedBytes
  | .close _ reservationId usedBytes _ =>
    ∀ r ∈ s.reservation reservationId, usedBytes ≤ r.reservedBytes
  | _ => True

/-- The transaction leaves the allocation of the profile alone. -/
def KeepsAllocation (key : String × Time) (profileId : Uuid) (s : ProxyLedger) : Step → Prop
  | .surround around =>
    allocatedBytes { s with allocations := around.allocations } key profileId =
      s.allocatedBytes key profileId
  | _ => True

/-- What a transaction would add to the bytes charged to the profile: the request of a new
reservation, the actual bytes of an attempt whose reservation is settled, or what a late settlement
finds beyond the usage of a cancelled one. -/
def addedBytes (s : ProxyLedger) (key : String × Time) (profileId : Uuid) : Step → ℕ
  | .reserve now _ request =>
    match s.activeCycle now request.provider with
    | .ok row =>
      if row.key = key ∧ request.profileId = some profileId then request.requestedBytes.toNat else 0
    | .error _ => 0
  | .reconcileAttempt authorizationId actualBytes _ =>
    match (s.authorization authorizationId).bind fun b => s.reservation b.reservationId with
    | some r => if chargesProfile key profileId r ∧ r.settled then actualBytes.toNat else 0
    | none => 0
  | .close _ reservationId usedBytes _ =>
    match s.reservation reservationId with
    | some r =>
      if chargesProfile key profileId r ∧ r.state = .cancelled then usedBytes - r.estimatedBytes
      else 0
    | none => 0
  | _ => 0

/-- What the transaction would add fits into what the allocation leaves. -/
def Fits (key : String × Time) (profileId : Uuid) (allocated : ℕ) (s : ProxyLedger) (a : Step) :
    Prop :=
  0 < s.addedBytes key profileId a →
    s.profileBytes key profileId + s.addedBytes key profileId a ≤ allocated

/-- The usage of every reservation lies within its reserved bytes. -/
structure Metered (s : ProxyLedger) : Prop where
  keyed : Keyed ProxyReservation.id s.reservations
  within : ∀ r ∈ s.reservations, r.estimatedBytes ≤ r.reservedBytes

/-! ## One transaction -/

/-- A transaction adds no more to the bytes charged to a profile than `addedBytes`, and keeps the
usage of every reservation within its reserved bytes. -/
structure Adds (key : String × Time) (profileId : Uuid) (s : ProxyLedger) (a : Step)
    (s' : ProxyLedger) : Prop where
  charged : s'.profileBytes key profileId ≤ s.profileBytes key profileId +
    s.addedBytes key profileId a
  metered : s'.Metered

section Adds

variable {s s' : ProxyLedger} {key : String × Time} {profileId : Uuid} {a : Step}

section

variable (h : s.Metered)

include h

theorem Metered.adds_of_same (hsame : s'.reservations = s.reservations) :
    Adds key profileId s a s' := by
  refine ⟨?_, ?_, ?_⟩
  · rw [profileBytes_eq, profileBytes_eq, hsame]
    exact Nat.le_add_right _ _
  · rw [hsame]
    exact h.keyed
  · rw [hsame]
    exact h.within

theorem Metered.adds_of_update {p : ProxyReservation → Bool}
    {f : ProxyReservation → ProxyReservation} (hsame : s'.reservations = update p f s.reservations)
    (hkeeps : ∀ r, (f r).id = r.id ∧ (f r).cycleKey = r.cycleKey ∧ (f r).profileId = r.profileId ∧
      (f r).reservedBytes = r.reservedBytes)
    (hwithin : ∀ r ∈ s.reservations, p r = true → (f r).estimatedBytes ≤ r.reservedBytes)
    (hexposure : ∀ r ∈ s.reservations, p r = true → (f r).exposure ≤ r.exposure) :
    Adds key profileId s a s' := by
  refine ⟨?_, ?_, ?_⟩
  · rw [profileBytes_eq, profileBytes_eq, hsame]
    refine (total_update_le fun r hr hp => ?_).trans (Nat.le_add_right _ _)
    have hcharges : chargesProfile key profileId (f r) = chargesProfile key profileId r := by
      rw [chargesProfile, chargesProfile, ProxyReservation.chargedTo, ProxyReservation.chargedTo,
        (hkeeps r).2.1, (hkeeps r).2.2.1]
    unfold share
    rw [hcharges]
    split
    · exact hexposure r hr hp
    · exact le_rfl
  · rw [hsame]
    exact h.keyed.update fun r => (hkeeps r).1
  · rw [hsame]
    intro r' hr'
    obtain ⟨r, hr, rfl⟩ := mem_update.mp hr'
    split
    · next hp =>
      rw [(hkeeps r).2.2.2]
      exact hwithin r hr hp
    · exact h.within r hr

theorem Metered.adds_reserve {now workerNow : Time} {request : ReserveRequest}
    {id : Uuid} (hok : s.reserve now workerNow request = .ok (id, s')) :
    Adds key profileId s (.reserve now workerNow request) s' := by
  obtain ⟨row, r, hrow, rfl, hid, hkey, hprofile, hreserved, hestimated, hstate,
    -⟩ := reserve_row hok
  refine ⟨?_, h.keyed.append_fresh hid, ?_⟩
  · have hexposure : r.exposure = request.requestedBytes.toNat := by
      simp [ProxyReservation.exposure, ProxyReservation.held, hstate, hreserved]
    rw [profileBytes_eq, profileBytes_eq, total_append, total_cons, total_nil, addedBytes, hrow]
    dsimp only
    apply Nat.add_le_add_left
    rw [Nat.add_zero, share, hexposure]
    by_cases hcharged : chargesProfile key profileId r = true
    · simp only [chargesProfile, ProxyReservation.chargedTo, Bool.and_eq_true, beq_iff_eq]
        at hcharged
      rw [if_pos (show row.key = key ∧ request.profileId = some profileId from
        ⟨hkey.symm.trans hcharged.1, by rw [hprofile, hcharged.2]⟩)]
      split
      · exact le_rfl
      · exact Nat.zero_le _
    · rw [if_neg hcharged]
      exact Nat.zero_le _
  · intro r' hr'
    rcases List.mem_append.mp hr' with hold | hnew
    · exact h.within r' hold
    · rw [List.mem_singleton.mp hnew, hestimated]
      exact Nat.zero_le _

/-- A reconciled attempt adds its actual bytes if its reservation is settled. -/
theorem Metered.adds_resolve {b : AttemptAuthorization}
    {actualBytes physicalRequests : ℤ} (hb : s.authorization b.id = some b)
    (hwithin : ∀ r ∈ s.reservation b.reservationId,
      r.estimatedBytes + actualBytes.toNat ≤ r.reservedBytes) :
    Adds key profileId s (.reconcileAttempt b.id actualBytes physicalRequests)
      (s.resolveAttempt b actualBytes.toNat physicalRequests.toNat) := by
  have hkeeps : ∀ r : ProxyReservation,
      (r.spend actualBytes.toNat physicalRequests.toNat).id = r.id := fun _ => rfl
  cases hfind : s.reservation b.reservationId with
  | none =>
    have hnone : (s.resolveAttempt b actualBytes.toNat physicalRequests.toNat).reservations =
        s.reservations :=
      update_eq_self fun r hr => by simpa using List.find?_eq_none.mp hfind r hr
    exact h.adds_of_same hnone
  | some r =>
    obtain ⟨hmem, hid⟩ := mem_of_find? hfind
    rw [beq_iff_eq] at hid
    have hroom := hwithin r hfind
    refine ⟨?_, h.keyed.update hkeeps, ?_⟩
    · have hexchange := total_update_key h.keyed hmem (q := fun r => r.id == b.reservationId)
        (by simp [hid]) (fun t ht => (beq_iff_eq.mp ht).trans hid.symm)
        (chargesProfile key profileId) ProxyReservation.exposure
        (ProxyReservation.spend actualBytes.toNat physicalRequests.toNat)
      have hspent : share (chargesProfile key profileId) ProxyReservation.exposure
          (r.spend actualBytes.toNat physicalRequests.toNat) ≤
            share (chargesProfile key profileId) ProxyReservation.exposure r +
              s.addedBytes key profileId (.reconcileAttempt b.id actualBytes physicalRequests) := by
        have hcharges : chargesProfile key profileId
            (r.spend actualBytes.toNat physicalRequests.toNat) = chargesProfile key profileId r := rfl
        have hheld : (r.spend actualBytes.toNat physicalRequests.toNat).held = r.held := rfl
        simp only [share, hcharges, ProxyReservation.exposure, hheld, addedBytes, hb,
          Option.bind_some, hfind, r.settled_eq_not_held]
        by_cases hcharged : chargesProfile key profileId r = true <;>
          by_cases hh : r.held = true <;> simp [hcharged, hh, ProxyReservation.spend]
      rw [profileBytes_eq, profileBytes_eq]
      have hrows : (s.resolveAttempt b actualBytes.toNat physicalRequests.toNat).reservations =
          update (fun r => r.id == b.reservationId)
            (ProxyReservation.spend actualBytes.toNat physicalRequests.toNat) s.reservations := rfl
      rw [hrows]
      omega
    · intro r' hr'
      obtain ⟨t, ht, rfl⟩ := mem_update.mp hr'
      split
      · next hsame =>
        obtain rfl := h.keyed.eq_of_mem ht hmem ((beq_iff_eq.mp hsame).trans hid.symm)
        exact hroom
      · exact h.within t ht

theorem Metered.adds_revoke {p : ProxyReservation → Bool}
    (hp : ∀ r, p r = true → r.state = .active)
    (hs' : s'.reservations = update p
      (fun r => { r with revocationRequested := true, state := .revocationRequested })
      s.reservations) : Adds key profileId s a s' := by
  refine h.adds_of_update hs' (fun r => ⟨rfl, rfl, rfl, rfl⟩) (fun r hr _ => h.within r hr)
    fun r _ hr => ?_
  have hheld : r.exposure = r.reservedBytes := if_pos (by simp [ProxyReservation.held, hp r hr])
  rw [hheld]
  exact le_rfl

/-- A late settlement adds what it finds beyond the usage of the reservation. -/
theorem Metered.adds_late {r : ProxyReservation} (hr : r ∈ s.reservations)
    {p : ProxyReservation → Bool} {usedBytes requests : ℕ} (hpr : p r = true)
    (hstate : r.state = .cancelled) (hp : ∀ t, p t = true → t.id = r.id)
    (hroom : usedBytes ≤ r.reservedBytes)
    (hadded : s.addedBytes key profileId a =
      if chargesProfile key profileId r ∧ r.state = .cancelled then usedBytes - r.estimatedBytes
      else 0)
    (hs' : s'.reservations = update p (ProxyReservation.raise usedBytes requests) s.reservations) :
    Adds key profileId s a s' := by
  have hexchange := total_update_key h.keyed hr hpr hp (chargesProfile key profileId)
    ProxyReservation.exposure (ProxyReservation.raise usedBytes requests)
  have hraised : share (chargesProfile key profileId) ProxyReservation.exposure
      (r.raise usedBytes requests) ≤
        share (chargesProfile key profileId) ProxyReservation.exposure r +
          s.addedBytes key profileId a := by
    have hcharges : chargesProfile key profileId (r.raise usedBytes requests) =
        chargesProfile key profileId r := rfl
    have hheld : (r.raise usedBytes requests).held = r.held := rfl
    have hfree : r.held = false := by simp [ProxyReservation.held, hstate]
    rw [hadded]
    simp only [share, hcharges, ProxyReservation.exposure, hheld, hfree, hstate, and_true]
    by_cases hcharged : chargesProfile key profileId r = true
    · simp only [hcharged, if_true, ProxyReservation.raise, Bool.false_eq_true, if_false]
      omega
    · simp [hcharged]
  refine ⟨?_, ?_, ?_⟩
  · rw [profileBytes_eq, profileBytes_eq, hs']
    omega
  · rw [hs']
    exact h.keyed.update fun _ => rfl
  · rw [hs']
    intro r' hr'
    obtain ⟨t, ht, rfl⟩ := mem_update.mp hr'
    split
    · next hpt =>
      obtain rfl := h.keyed.eq_of_mem ht hr (hp t hpt)
      exact max_le (h.within t ht) hroom
    · exact h.within t ht

theorem Metered.adds_close {now : Time} {id : Uuid} {usedBytes requests : ℕ}
    (hwithin : ∀ r ∈ s.reservation id, usedBytes ≤ r.reservedBytes) :
    Adds key profileId s (.close now id usedBytes requests)
      (s.closeReservation now id usedBytes requests) := by
  unfold closeReservation
  split
  · exact h.adds_of_same rfl
  · next identity hfind =>
    obtain ⟨hmem, hid⟩ := mem_of_find? hfind
    rw [beq_iff_eq] at hid
    have hroom := hwithin identity hfind
    have hsame : ∀ r ∈ s.reservations, r.id = id → r = identity := fun r hr hr' =>
      h.keyed.eq_of_mem hr hmem (hr'.trans hid.symm)
    dsimp only
    split
    · -- the envelope is exchanged for the usage
      refine h.adds_of_update rfl (fun r => ⟨rfl, rfl, rfl, rfl⟩) (fun r hr hp => ?_)
        fun r hr hp => ?_
      · simp only [Bool.and_eq_true, beq_iff_eq] at hp
        obtain rfl := hsame r hr hp.1.1
        exact max_le (h.within r hr) hroom
      · simp only [Bool.and_eq_true, beq_iff_eq] at hp
        obtain rfl := hsame r hr hp.1.1
        have hbefore : r.exposure = r.reservedBytes := if_pos hp.2
        rw [hbefore]
        exact max_le (h.within r hr) hroom
    · split
      · next hlate =>
        obtain ⟨r, hr, hp⟩ := List.any_eq_true.mp hlate
        simp only [Bool.and_eq_true, beq_iff_eq] at hp
        obtain rfl := hsame r hr hp.1.1.1
        refine h.adds_late hr ?_ ?_ (fun t ht => ?_) hroom (by rw [addedBytes, hfind]) rfl
        · simp only [Bool.and_eq_true, beq_iff_eq]
          exact hp
        · exact hp.1.2
        · simp only [Bool.and_eq_true, beq_iff_eq] at ht
          exact ht.1.1.1.trans hid.symm
      · exact h.adds_of_same rfl

/-- **What a transaction adds.** -/
theorem Metered.step (hwithin : s.Within a) :
    Adds key profileId s a (s.step a) := by
  cases a with
  | reserve now workerNow request =>
    exact attempt_induction (P := fun t => Adds key profileId s _ t) (h.adds_of_same rfl)
      fun _ _ hok => h.adds_reserve hok
  | authorize now id estimatedBytes maximumRequests =>
    refine attempt_induction (P := fun t => Adds key profileId s _ t) (h.adds_of_same rfl)
      fun _ t hok => h.adds_of_same ?_
    rcases authorize_rows hok with rfl | ⟨b, rfl⟩ <;> rfl
  | reconcileAttempt id actualBytes physicalRequests =>
    refine attempt_induction (P := fun t => Adds key profileId s _ t) (h.adds_of_same rfl)
      fun _ t hok => ?_
    rcases reconcileAttempt_rows hok with rfl | ⟨b, rfl, hb, hstate, -, rfl⟩
    · exact h.adds_of_same rfl
    · exact h.adds_resolve hb fun r hr => hwithin b hb hstate r hr
  | releaseAttempt id =>
    refine attempt_induction (P := fun t => Adds key profileId s _ t) (h.adds_of_same rfl)
      fun _ t hok => h.adds_of_same ?_
    obtain ⟨authorizations, rfl⟩ := releaseAttempt_rows hok
    rfl
  | close now id usedBytes requests => exact h.adds_close hwithin
  | closeStale now =>
    refine h.adds_of_update (closeStaleReservations_reservations s now)
      (fun r => ⟨rfl, rfl, rfl, rfl⟩) (fun r hr _ => h.within r hr) fun r hr hp => ?_
    rw [abandoned, Bool.and_eq_true] at hp
    have hbefore : r.exposure = r.reservedBytes := if_pos hp.1
    rw [hbefore]
    exact h.within r hr
  | reconcile now key' reportedBytes successful =>
    refine attempt_induction (P := fun t => Adds key profileId s _ t) (h.adds_of_same rfl)
      fun _ t hok => h.adds_of_same ?_
    rw [reconcile_rows hok]
  | killSwitch now provider action =>
    cases action with
    | activate => exact h.adds_of_same rfl
    | revoke =>
      refine h.adds_revoke (fun r hr => ?_) rfl
      rw [Bool.and_eq_true, beq_iff_eq, beq_iff_eq] at hr
      exact hr.2
    | clear => exact h.adds_of_same rfl
  | administer key' settings => exact h.adds_of_same rfl
  | surround around => exact h.adds_of_same rfl

end

theorem step_allocations (s : ProxyLedger) (a : Step) (ha : ∀ around, a ≠ .surround around) :
    (s.step a).allocations = s.allocations := by
  cases a with
  | surround around => exact absurd rfl (ha around)
  | reserve now workerNow request =>
    refine attempt_induction (P := fun t : ProxyLedger => t.allocations = s.allocations) rfl
      fun _ t hok => ?_
    obtain ⟨row, r, -, rfl, -⟩ := reserve_row hok
    rfl
  | authorize now id estimatedBytes maximumRequests =>
    refine attempt_induction (P := fun t : ProxyLedger => t.allocations = s.allocations) rfl
      fun _ t hok => ?_
    rcases authorize_rows hok with rfl | ⟨b, rfl⟩ <;> rfl
  | reconcileAttempt id actualBytes physicalRequests =>
    refine attempt_induction (P := fun t : ProxyLedger => t.allocations = s.allocations) rfl
      fun _ t hok => ?_
    rcases reconcileAttempt_rows hok with rfl | ⟨b, -, -, -, -, rfl⟩ <;> rfl
  | releaseAttempt id =>
    refine attempt_induction (P := fun t : ProxyLedger => t.allocations = s.allocations) rfl
      fun _ t hok => ?_
    obtain ⟨authorizations, rfl⟩ := releaseAttempt_rows hok
    rfl
  | close now id usedBytes requests =>
    show (s.closeReservation now id usedBytes requests).allocations = s.allocations
    unfold closeReservation
    split
    · rfl
    · dsimp only
      split
      · rfl
      · split <;> rfl
  | closeStale now =>
    have hrequests : ∀ (t : ProxyLedger) (r : ProxyReservation), (t.requestReconcile
        ⟨r.provider, "stale_reservation", r.id, "reservation:" ++ toString r.id⟩).allocations =
          t.allocations := fun _ _ => rfl
    have hadvance : ∀ (t : ProxyLedger) (k : String × Time),
        (t.advanceApplication k).allocations = t.allocations := fun _ _ => rfl
    show (s.closeStaleReservations now).allocations = s.allocations
    unfold closeStaleReservations
    dsimp only
    rw [Trace.foldl_keep hrequests]
    exact Trace.foldl_keep hadvance _ _
  | reconcile now key reportedBytes successful =>
    refine attempt_induction (P := fun t : ProxyLedger => t.allocations = s.allocations) rfl
      fun _ t hok => ?_
    rw [reconcile_rows hok]
  | killSwitch now provider action => cases action <;> rfl
  | administer key settings => rfl

theorem allocatedBytes_step (hkeep : KeepsAllocation key profileId s a) :
    (s.step a).allocatedBytes key profileId = s.allocatedBytes key profileId := by
  have hsame : ∀ {t : ProxyLedger}, t.allocations = s.allocations →
      t.allocatedBytes key profileId = s.allocatedBytes key profileId := by
    intro t ht
    rw [allocatedBytes, ht]
    rfl
  cases a with
  | surround around => exact hkeep
  | _ => exact hsame (step_allocations s _ (by simp))

end Adds

/-! ## The allocation of a run -/

/-- **The allocation of a profile.**  In every run that leaves the allocation alone, whose usage
stays within the reserved bytes, and in which whatever a transaction adds to the profile still fits
into its allocation, the bytes charged to the profile in the cycle are at most its allocation. -/
theorem allocation_kept {s : ProxyLedger} {run : List Step} (h : s.Opened) (key : String × Time)
    (profileId : Uuid) {allocated : ℕ} (hallocated : s.allocatedBytes key profileId = some allocated)
    (hkeep : Trace.Along step (KeepsAllocation key profileId) s run)
    (hwithin : Trace.Along step Within s run)
    (hfits : Trace.Along step (Fits key profileId allocated) s run) :
    (s.after run).allocatedBytes key profileId = some allocated ∧
      (s.after run).settledProfileBytes key profileId +
        (s.after run).heldProfileBytes key profileId ≤ allocated := by
  have hinv : (s.after run).allocatedBytes key profileId = some allocated ∧ (s.after run).Metered ∧
      (s.after run).profileBytes key profileId ≤ allocated := by
    refine Trace.exec_invariant_of_along step (I := fun s => s.allocatedBytes key profileId =
        some allocated ∧ s.Metered ∧ s.profileBytes key profileId ≤ allocated)
      (fun s a ha hs => ?_) ⟨hallocated, ?_, ?_⟩ ((hkeep.and step hwithin).and step hfits)
    · obtain ⟨hrow, hmetered, hle⟩ := hs
      have hadds : Adds key profileId s a (s.step a) := hmetered.step ha.1.2
      refine ⟨(allocatedBytes_step ha.1.1).trans hrow, hadds.metered, hadds.charged.trans ?_⟩
      rcases Nat.eq_zero_or_pos (s.addedBytes key profileId a) with hzero | hpos
      · omega
      · exact ha.2 hpos
    · refine ⟨?_, ?_⟩
      · rw [h.reservations]
        exact List.nodup_nil
      · rw [h.reservations]
        simp
    · rw [profileBytes_eq, h.reservations, total_nil]
      exact Nat.zero_le _
  exact ⟨hinv.1, hinv.2.2⟩

instance (s : ProxyLedger) : ∀ a : Step, Decidable (s.Within a)
  | .reconcileAttempt authorizationId actualBytes _ =>
    inferInstanceAs (Decidable (∀ b ∈ s.authorization authorizationId, b.state = .authorized →
      ∀ r ∈ s.reservation b.reservationId,
        r.estimatedBytes + actualBytes.toNat ≤ r.reservedBytes))
  | .close _ reservationId usedBytes _ =>
    inferInstanceAs (Decidable (∀ r ∈ s.reservation reservationId, usedBytes ≤ r.reservedBytes))
  | .reserve _ _ _ | .authorize _ _ _ _ | .releaseAttempt _ | .closeStale _
  | .reconcile _ _ _ _ | .killSwitch _ _ _ | .administer _ _ | .surround _ =>
    inferInstanceAs (Decidable True)

instance (key : String × Time) (profileId : Uuid) (s : ProxyLedger) :
    ∀ a : Step, Decidable (KeepsAllocation key profileId s a)
  | .surround around =>
    inferInstanceAs (Decidable (allocatedBytes { s with allocations := around.allocations } key
      profileId = s.allocatedBytes key profileId))
  | .reserve _ _ _ | .authorize _ _ _ _ | .reconcileAttempt _ _ _ | .releaseAttempt _
  | .close _ _ _ _ | .closeStale _ | .reconcile _ _ _ _ | .killSwitch _ _ _ | .administer _ _ =>
    inferInstanceAs (Decidable True)

instance (key : String × Time) (profileId : Uuid) (allocated : ℕ) (s : ProxyLedger) (a : Step) :
    Decidable (Fits key profileId allocated s a) :=
  inferInstanceAs (Decidable (_ → _))

/-- A cycle of 1000 bytes, of which a profile has 100. -/
def sharedCycle : ProxyLedger where
  cycles := [{
    provider := "decodo", cycleStart := 0, cycleEnd := day, operationalBytes := 1000,
    dailyBytes := 1000, pilotBytes := 1000, pilotActive := false, providerReportedBytes := 0,
    applicationBytes := 0, reconciledAt := some 0, reconciliationOk := true, killSwitch := false,
    lifecycle := .active }]
  profiles := [⟨1, "decodo", "main", 0, true, .enabled⟩]
  routes := [⟨2, "decodo", 1, true, none⟩]
  allocations := [⟨"decodo", 0, 1, 100⟩]
  jobs := [⟨3, .running, some 10⟩, ⟨4, .running, some 100⟩]

theorem sharedCycle_opened : sharedCycle.Opened :=
  ⟨List.nodup_singleton _, by decide, by decide, rfl, rfl⟩

/-- A job uses the whole allocation of its profile. -/
def oneJob : List Step :=
  [.reserve 1 1 (wholeCycle 3), .authorize 2 0 100 none, .reconcileAttempt 0 100 1,
    .close 3 0 100 1]

/-- The allocation covers one job. -/
theorem oneJob_allocation :
    (sharedCycle.after oneJob).allocatedBytes ("decodo", 0) 1 = some 100 ∧
      (sharedCycle.after oneJob).settledProfileBytes ("decodo", 0) 1 +
        (sharedCycle.after oneJob).heldProfileBytes ("decodo", 0) 1 ≤ 100 :=
  allocation_kept sharedCycle_opened ("decodo", 0) 1 rfl (by decide) (by decide) (by decide)

/-- A second job uses the same allocation again. -/
def twoJobs : List Step :=
  oneJob ++ [.reserve 4 4 (wholeCycle 4), .authorize 5 1 100 none, .reconcileAttempt 1 100 1,
    .close 6 1 100 1]

/-- The profile of 100 bytes is charged 200 in one cycle. -/
theorem twoJobs_exceeds :
    sharedCycle.Opened ∧ Trace.Along step (KeepsAllocation ("decodo", 0) 1) sharedCycle twoJobs ∧
      Trace.Along step Within sharedCycle twoJobs ∧
      (sharedCycle.after twoJobs).allocatedBytes ("decodo", 0) 1 = some 100 ∧
      (sharedCycle.after twoJobs).settledProfileBytes ("decodo", 0) 1 = 200 :=
  ⟨sharedCycle_opened, by decide, by decide, by decide, by decide⟩

end ProxyLedger

end CommerceCollector
