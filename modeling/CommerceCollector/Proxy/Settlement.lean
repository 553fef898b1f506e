import CommerceCollector.Proxy.Traffic

/-!
# What the ledger reports as used

`application_bytes` of a cycle is written by the transactions that settle a reservation, from the
sum over the settled ones.  It is that sum in every state of a run, and the kill switch is set when
it reaches the ceiling, as long as no attempt is reconciled after its reservation was settled: such
a reconciliation raises the usage of the reservation and leaves the cycle as it is.
-/

namespace CommerceCollector

open Relational Transaction

namespace ProxyLedger

/-- Newly opened cycles: nothing has been reserved yet. -/
structure Opened (s : ProxyLedger) : Prop where
  cycles : Keyed BudgetCycle.key s.cycles
  operational : ∀ c ∈ s.cycles, 0 < c.operationalBytes
  unused : ∀ c ∈ s.cycles, c.applicationBytes = 0
  reservations : s.reservations = []
  authorizations : s.authorizations = []

/-- The ledger reports at least what its settled reservations have used, and has stopped every cycle
in which they have used it up. -/
def ReportsUsage (s : ProxyLedger) : Prop :=
  ∀ c ∈ s.cycles, s.settledBytes c.key ≤ c.applicationBytes ∧
    (c.operationalBytes ≤ s.settledBytes c.key → c.killSwitch = true)

/-- An attempt is still pending though its reservation is closed or cancelled. -/
def Outlives (s : ProxyLedger) (authorizationId : Uuid) : Prop :=
  ∃ b ∈ s.authorization authorizationId, b.state = .authorized ∧
    ∃ r ∈ s.reservation b.reservationId, r.settled = true

/-- The transaction reconciles actual bytes into a settled reservation. -/
def SpendsLate (s : ProxyLedger) : Step → Prop
  | .reconcileAttempt authorizationId actualBytes physicalRequests =>
    s.Outlives authorizationId ∧ 0 < actualBytes ∧ 0 ≤ physicalRequests
  | _ => False

/-! ## The invariant of timely runs -/

/-- What holds of the rows in every state, and of the sums as long as no attempt spends late. -/
structure Balanced (s : ProxyLedger) : Prop where
  cycles : Keyed BudgetCycle.key s.cycles
  reservations : Keyed ProxyReservation.id s.reservations
  charged : ∀ r ∈ s.reservations, ∃ c ∈ s.cycles, c.key = r.cycleKey
  settled : ∀ c ∈ s.cycles, c.applicationBytes = s.settledBytes c.key
  latched : ∀ c ∈ s.cycles, c.operationalBytes ≤ s.settledBytes c.key → c.killSwitch = true

variable {s : ProxyLedger}

theorem Opened.balanced (h : s.Opened) : s.Balanced := by
  have hzero : ∀ key, s.settledBytes key = 0 := by
    intro key
    rw [settledBytes, h.reservations, total_nil]
  refine ⟨h.cycles, ?_, ?_, fun c hc => by rw [hzero, h.unused c hc], fun c hc hle => ?_⟩
  · rw [h.reservations]
    exact List.nodup_nil
  · rw [h.reservations]
    simp
  · rw [hzero] at hle
    exact absurd (h.operational c hc) (not_lt.mpr hle)

theorem Balanced.reportsUsage (h : s.Balanced) : s.ReportsUsage :=
  fun c hc => ⟨(h.settled c hc).ge, h.latched c hc⟩

theorem Balanced.reservation_of_mem (h : s.Balanced) {r : ProxyReservation}
    (hr : r ∈ s.reservations) : s.reservation r.id = some r :=
  h.reservations.find?_eq_some hr

theorem Balanced.controlled {s s' : ProxyLedger} (h : s.Balanced)
    (hcycles : Rewrites Administered s.cycles s'.cycles)
    (hreservations : Rewrites Revoked s.reservations s'.reservations) : s'.Balanced := by
  have hsum : ∀ key, s'.settledBytes key = s.settledBytes key := by
    intro key
    refine hreservations.total_eq ?_
    rintro r _ ⟨hactive, rfl⟩
    simp [share, ProxyReservation.settled, hactive]
  have hkeys : s'.cycles.map BudgetCycle.key = s.cycles.map BudgetCycle.key :=
    hcycles.map_eq fun c c' hc => hc.1
  refine ⟨?_, ?_, ?_, ?_, ?_⟩
  · rw [Keyed, hkeys]
    exact h.cycles
  · have hids : s'.reservations.map ProxyReservation.id = s.reservations.map ProxyReservation.id :=
      hreservations.map_eq fun r r' hr => by rw [hr.2]
    rw [Keyed, hids]
    exact h.reservations
  · intro r' hr'
    have hold : ∃ r ∈ s.reservations, r'.cycleKey = r.cycleKey := by
      obtain ⟨r, hr, rfl | ⟨-, rfl⟩⟩ := hreservations.exists_old hr'
      · exact ⟨r', hr, rfl⟩
      · exact ⟨r, hr, rfl⟩
    obtain ⟨r, hr, hsame⟩ := hold
    obtain ⟨c, hc, hkey⟩ := h.charged r hr
    obtain ⟨c', hc', rfl | hadmin⟩ := hcycles.exists_new hc
    · exact ⟨c', hc', hkey.trans hsame.symm⟩
    · exact ⟨c', hc', hadmin.1.trans (hkey.trans hsame.symm)⟩
  · intro c' hc'
    obtain ⟨c, hc, rfl | ⟨hkey, -, happlication, -⟩⟩ := hcycles.exists_old hc'
    · rw [hsum]
      exact h.settled c' hc
    · rw [hsum, hkey, happlication]
      exact h.settled c hc
  · intro c' hc' hle
    obtain ⟨c, hc, rfl | ⟨hkey, hoperational, -, hkill⟩⟩ := hcycles.exists_old hc'
    · exact h.latched c' hc (by rwa [hsum] at hle)
    · rw [hsum, hkey, hoperational] at hle
      rcases hkill (h.latched c hc hle) with hkept | hbelow
      · exact hkept
      · rw [h.settled c hc] at hbelow
        exact absurd hbelow (not_lt.mpr hle)

/-- A change of the reservations that keeps their keys, their cycles and the settled sums. -/
theorem Balanced.of_sums {s s' : ProxyLedger} (h : s.Balanced) (hcycles : s'.cycles = s.cycles)
    (hkeyed : Keyed ProxyReservation.id s'.reservations)
    (hcharged : ∀ r' ∈ s'.reservations, ∃ c ∈ s.cycles, c.key = r'.cycleKey)
    (hsum : ∀ c ∈ s.cycles, s'.settledBytes c.key = s.settledBytes c.key) : s'.Balanced := by
  refine ⟨?_, hkeyed, ?_, ?_, ?_⟩
  · rw [hcycles]
    exact h.cycles
  · rw [hcycles]
    exact hcharged
  · rw [hcycles]
    intro c hc
    rw [hsum c hc]
    exact h.settled c hc
  · rw [hcycles]
    intro c hc hle
    rw [hsum c hc] at hle
    exact h.latched c hc hle

theorem Balanced.settles {s s' : ProxyLedger} (h : s.Balanced) {p : ProxyReservation → Bool}
    {f : ProxyReservation → ProxyReservation} (hs : Settles s p f s') : s'.Balanced := by
  have hgrows : ∀ key, s.settledBytes key ≤ s'.settledBytes key := by
    intro key
    unfold settledBytes
    rw [hs.reservations]
    refine total_le_update fun r _ hr => ?_
    have hcycle : (f r).chargedTo key = r.chargedTo key := by
      rw [ProxyReservation.chargedTo, (hs.keeps r).2.1]
      rfl
    have hmax := hs.grows r
    cases hcharged : r.chargedTo key with
    | false => simp [share, hcharged]
    | true =>
      cases hsettled : r.settled with
      | false => simp [share, hsettled]
      | true => simpa [share, hcycle, hcharged, hsettled, hs.settled r hr] using hmax
  have hsame : ∀ c : BudgetCycle,
      (s.reservations.any fun r => p r && r.chargedTo c.key) = false →
        s'.settledBytes c.key = s.settledBytes c.key := by
    intro c hnone
    unfold settledBytes
    rw [hs.reservations]
    refine total_update_eq fun r hr hpr => ?_
    have hother := List.any_eq_false.mp hnone r hr
    rw [hpr, Bool.true_and, Bool.not_eq_true] at hother
    have hcycle : (f r).chargedTo c.key = r.chargedTo c.key := by
      rw [ProxyReservation.chargedTo, (hs.keeps r).2.1]
      rfl
    simp [share, hcycle, hother]
  refine ⟨?_, ?_, ?_, ?_, ?_⟩
  · rw [hs.cycles]
    exact h.cycles.update fun c => rfl
  · rw [hs.reservations]
    exact h.reservations.update fun r => (hs.keeps r).1
  · intro r' hr'
    rw [hs.reservations] at hr'
    obtain ⟨r, hr, rfl⟩ := mem_update.mp hr'
    obtain ⟨c, hc, hkey⟩ := h.charged r hr
    have hcycle : (if p r = true then f r else r).cycleKey = r.cycleKey := by
      split
      · exact (hs.keeps r).2.1
      · rfl
    rw [hcycle, ← hkey, hs.cycles]
    refine ⟨_, mem_update.mpr ⟨c, hc, rfl⟩, ?_⟩
    split <;> rfl
  · intro c' hc'
    rw [hs.cycles] at hc'
    obtain ⟨c, hc, rfl⟩ := mem_update.mp hc'
    split
    · have hle := hgrows c.key
      rw [← h.settled c hc] at hle
      exact max_eq_right hle
    · next hnone =>
      rw [hsame c (Bool.not_eq_true _ ▸ hnone)]
      exact h.settled c hc
  · intro c' hc' hle
    rw [hs.cycles] at hc'
    obtain ⟨c, hc, rfl⟩ := mem_update.mp hc'
    split at hle
    · next hsome =>
      rw [if_pos hsome]
      have hreached : c.operationalBytes ≤ s'.settledBytes c.key := hle
      simp [BudgetCycle.advance, hreached]
    · next hnone =>
      rw [if_neg hnone]
      rw [hsame c (Bool.not_eq_true _ ▸ hnone)] at hle
      exact h.latched c hc hle

/-- **A transaction keeps the balance unless it spends late.** -/
theorem Balanced.step {a : Step} (h : s.Balanced) (hlate : ¬ s.SpendsLate a) :
    (s.step a).Balanced := by
  have hmove := step_move s a
  generalize s.step a = s' at hmove
  cases hmove with
  | controlled hcycles hreservations _ => exact h.controlled hcycles hreservations
  | reserved c r hc hid hkey hstate =>
    refine h.of_sums rfl (h.reservations.append_fresh hid) ?_ fun c _ => ?_
    · intro r' hr'
      rcases List.mem_append.mp hr' with hr' | hr'
      · exact h.charged r' hr'
      · rw [List.mem_singleton.mp hr']
        exact ⟨c, hc, hkey.symm⟩
    · simp [settledBytes, share, ProxyReservation.settled, hstate]
  | authorized r b => exact h.of_sums rfl h.reservations h.charged fun _ _ => rfl
  | reconciled b actualBytes physicalRequests hb hstate hactual =>
    refine h.of_sums rfl (h.reservations.update fun r => rfl) ?_ fun c _ => ?_
    · intro r' hr'
      obtain ⟨r, hr, rfl⟩ := mem_update.mp hr'
      obtain ⟨c, hc, hkey⟩ := h.charged r hr
      refine ⟨c, hc, hkey.trans ?_⟩
      split <;> rfl
    · refine total_update_eq fun r hr hid => ?_
      rw [beq_iff_eq] at hid
      have hfind := h.reservation_of_mem hr
      rw [hid] at hfind
      cases hsettled : r.settled with
      | false =>
        have hspent : (r.spend actualBytes.toNat physicalRequests.toNat).settled = false :=
          hsettled
        simp [share, hsettled, hspent]
      | true =>
        -- the reservation is settled, so the attempt adds nothing to it
        have hnone : ¬ 0 < actualBytes := fun hpos =>
          hlate ⟨⟨b, hb, hstate, r, hfind, hsettled⟩, hpos, hactual.2⟩
        have hzero : actualBytes.toNat = 0 := by omega
        rw [hzero]
        rfl
  | released id => exact h.of_sums rfl h.reservations h.charged fun _ _ => rfl
  | closed now id usedBytes requests p f hs => exact h.settles hs
  | cancelled p f hs => exact h.settles hs

/-! ## A late attempt -/

/-- **An attempt that spends late is not reported.** -/
theorem Balanced.spendsLate {a : Step} (h : s.Balanced) (hlate : s.SpendsLate a) :
    ¬ (s.step a).ReportsUsage := by
  cases a with
  | reconcileAttempt id actualBytes physicalRequests =>
    obtain ⟨⟨b, hb, hstate, r, hr, hsettled⟩, hpos, hrequests⟩ := hlate
    obtain rfl : b.id = id := beq_iff_eq.mp (mem_of_find? hb).2
    rw [step_reconcileAttempt hb hstate hr ⟨hpos.le, hrequests⟩]
    obtain ⟨hmem, hid⟩ := mem_of_find? hr
    obtain ⟨c, hc, hkey⟩ := h.charged r hmem
    rw [beq_iff_eq] at hid
    intro hreports
    have hcharged : r.chargedTo c.key = true := by
      rw [ProxyReservation.chargedTo, beq_iff_eq, hkey]
    have hspent : share (fun r => r.chargedTo c.key && r.settled) ProxyReservation.estimatedBytes
        (r.spend actualBytes.toNat physicalRequests.toNat) =
        r.estimatedBytes + actualBytes.toNat := if_pos (by rw [Bool.and_eq_true]; exact ⟨hcharged,
          hsettled⟩)
    have hshare : share (fun r => r.chargedTo c.key && r.settled)
        ProxyReservation.estimatedBytes r = r.estimatedBytes := if_pos (by simp [hcharged, hsettled])
    have hexchange := total_update_key h.reservations hmem
      (q := fun r => r.id == b.reservationId) (by simp [hid])
      (fun t ht => (beq_iff_eq.mp ht).trans hid.symm)
      (fun r => r.chargedTo c.key && r.settled) ProxyReservation.estimatedBytes
      (ProxyReservation.spend actualBytes.toNat physicalRequests.toNat)
    have hle : total (fun r => r.chargedTo c.key && r.settled) ProxyReservation.estimatedBytes
        (update (fun r => r.id == b.reservationId)
          (ProxyReservation.spend actualBytes.toNat physicalRequests.toNat) s.reservations) ≤
        c.applicationBytes := (hreports c hc).1
    have hold : c.applicationBytes = total (fun r => r.chargedTo c.key && r.settled)
        ProxyReservation.estimatedBytes s.reservations := h.settled c hc
    rw [hshare, hspent] at hexchange
    omega
  | _ => exact absurd hlate (by simp [SpendsLate])

/-! ## The reported usage of a run -/

/-- **The ledger reports all settled usage iff no attempt spends late.**  In every state of a run
`application_bytes` covers the settled reservations and the kill switch is set when they have
reached the ceiling, iff no attempt reconciles actual bytes into a reservation that is already
closed or cancelled. -/
theorem usage_reported_iff {s : ProxyLedger} {run : List Step} (h : s.Opened) :
    (∀ pre, pre <+: run → (s.after pre).ReportsUsage) ↔
      Trace.Along step (fun s a => ¬ s.SpendsLate a) s run := by
  refine Trace.forall_prefix_iff_along step (I := Balanced) ?_ ?_ ?_ h.balanced
  · exact fun s a hlate hs => hs.step hlate
  · intro s a hlate hs
    exact hs.spendsLate (not_not.mp hlate)
  · exact fun s hs => hs.reportsUsage

instance (s : ProxyLedger) : Decidable s.ReportsUsage :=
  inferInstanceAs (Decidable (∀ c ∈ s.cycles, _))

instance (s : ProxyLedger) (authorizationId : Uuid) : Decidable (s.Outlives authorizationId) :=
  inferInstanceAs (Decidable (∃ b ∈ s.authorization authorizationId, _))

instance (s : ProxyLedger) : ∀ a : Step, Decidable (s.SpendsLate a)
  | .reconcileAttempt authorizationId actualBytes physicalRequests =>
    inferInstanceAs (Decidable (s.Outlives authorizationId ∧ 0 < actualBytes ∧ _))
  | .reserve _ _ _ | .authorize _ _ _ _ | .releaseAttempt _ | .close _ _ _ _ | .closeStale _
  | .reconcile _ _ _ _ | .killSwitch _ _ _ | .administer _ _ | .surround _ =>
    inferInstanceAs (Decidable False)

/-- A cycle of 100 bytes, and a running job whose lease expires at 10. -/
def hundredBytes : ProxyLedger where
  cycles := [{
    provider := "decodo", cycleStart := 0, cycleEnd := day, operationalBytes := 100,
    dailyBytes := 100, pilotBytes := 100, pilotActive := false, providerReportedBytes := 0,
    applicationBytes := 0, reconciledAt := some 0, reconciliationOk := true, killSwitch := false,
    lifecycle := .active }]
  profiles := [⟨1, "decodo", "main", 0, true, .enabled⟩]
  routes := [⟨2, "decodo", 1, true, none⟩]
  allocations := [⟨"decodo", 0, 1, 100⟩]
  jobs := [⟨3, .running, some 10⟩, ⟨4, .running, some 100⟩]

/-- A reservation of the whole cycle for a job. -/
def wholeCycle (jobId : Uuid) : ReserveRequest where
  jobId := some jobId
  probeId := none
  profile := "main"
  profileId := some 1
  routeId := some 2
  cycleStart := none
  cycleEnd := none
  requestedBytes := 100
  pilot := false
  secretGeneration := 0
  provider := "decodo"

/-- The attempt is reconciled before its reservation is closed. -/
def timelyRun : List Step :=
  [.reserve 1 1 (wholeCycle 3), .authorize 2 0 100 none, .reconcileAttempt 0 100 1,
    .close 3 0 100 1]

/-- The lease of the job expires while its attempt is under way, and the attempt is reconciled after
its reservation was cancelled. -/
def staleRun : List Step :=
  [.reserve 1 1 (wholeCycle 3), .authorize 2 0 100 none, .closeStale 20, .reconcileAttempt 0 100 1,
    .close 30 0 100 1]

theorem hundredBytes_opened : hundredBytes.Opened :=
  ⟨List.nodup_singleton _, by decide, by decide, rfl, rfl⟩

/-- A timely run is reported in every state. -/
theorem timelyRun_reported :
    ((hundredBytes.after timelyRun).cycles.map BudgetCycle.applicationBytes = [100]) ∧
      (hundredBytes.after timelyRun).ReportsUsage :=
  ⟨by decide, (usage_reported_iff hundredBytes_opened).mpr (by decide) timelyRun
    (List.prefix_refl _)⟩

/-- The late attempt is not reported, and the late settlement finds nothing to raise. -/
theorem staleRun_unreported :
    hundredBytes.Opened ∧ ¬ (hundredBytes.after staleRun).ReportsUsage :=
  ⟨hundredBytes_opened, by decide⟩

end ProxyLedger

end CommerceCollector
