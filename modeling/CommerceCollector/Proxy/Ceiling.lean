import CommerceCollector.Proxy.Settlement
import Mathlib.Algebra.Order.Ring.Int

/-!
# The ceiling of a billing cycle

A cycle is exposed to what its settled reservations have used and to what the held ones may still
use.  A reservation is only made when the exposure stays below the ceiling of the cycle, and a
pending attempt is covered by the envelope of its reservation; so the exposure stays below the
ceiling, as long as no attempt outlives its reservation.  The envelope of a stale reservation is
freed while its attempt may still be under way.
-/

namespace CommerceCollector

open Relational Transaction

/-- What the reservation may cost its cycle: its envelope while it is held, then its usage. -/
def ProxyReservation.exposure (r : ProxyReservation) : ℕ :=
  if r.held then r.reservedBytes else r.estimatedBytes

theorem ProxyReservation.settled_eq_not_held (r : ProxyReservation) : r.settled = !r.held := by
  unfold settled held
  cases r.state <;> rfl

namespace ProxyLedger

/-- The usage of all reservations of a cycle, and the unused remainders of the held ones. -/
def committedBytes (s : ProxyLedger) (key : String × Time) : ℤ :=
  (total (fun r => r.chargedTo key) ProxyReservation.estimatedBytes s.reservations : ℤ) +
    ((s.reservations.filter fun r => r.chargedTo key && r.held).map fun r =>
      (r.reservedBytes : ℤ) - r.estimatedBytes).sum

/-- The exposure of a cycle. -/
def exposedBytes (s : ProxyLedger) (key : String × Time) : ℕ :=
  total (fun r => r.chargedTo key) ProxyReservation.exposure s.reservations

/-- An attempt reports at most what it was authorized for, and a lease at most what its reservation
has used. -/
def Honest (s : ProxyLedger) : Step → Prop
  | .reconcileAttempt authorizationId actualBytes _ =>
    ∀ b ∈ s.authorization authorizationId, b.state = .authorized → actualBytes ≤ b.estimatedBytes
  | .close _ reservationId usedBytes _ =>
    ∀ r ∈ s.reservation reservationId, usedBytes ≤ r.estimatedBytes
  | _ => True

theorem committedBytes_eq (s : ProxyLedger) (key : String × Time) :
    s.committedBytes key = s.exposedBytes key := by
  unfold committedBytes exposedBytes
  induction s.reservations with
  | nil => rfl
  | cons r rows ih =>
    rw [total_cons, total_cons]
    cases hcharged : r.chargedTo key with
    | false =>
      simp only [share, hcharged, List.filter_cons, Bool.false_and]
      simp only [Bool.false_eq_true, if_false, Nat.zero_add]
      exact ih
    | true =>
      cases hheld : r.held with
      | false =>
        simp only [share, hcharged, ProxyReservation.exposure, hheld, List.filter_cons,
          Bool.and_false, Bool.false_eq_true, if_true, if_false]
        omega
      | true =>
        simp only [share, hcharged, ProxyReservation.exposure, hheld, List.filter_cons,
          Bool.and_self, if_true, List.map_cons, List.sum_cons]
        omega

/-- The exposure is what the settled reservations have used and what the held ones hold. -/
theorem exposedBytes_eq (s : ProxyLedger) (key : String × Time) :
    s.exposedBytes key = s.settledBytes key + s.heldBytes key := by
  unfold exposedBytes settledBytes heldBytes
  induction s.reservations with
  | nil => rfl
  | cons r rows ih =>
    rw [total_cons, total_cons, total_cons, ih]
    have hsplit : share (fun r => r.chargedTo key) ProxyReservation.exposure r =
        share (fun r => r.chargedTo key && r.settled) ProxyReservation.estimatedBytes r +
          share (fun r => r.chargedTo key && r.held) ProxyReservation.reservedBytes r := by
      simp only [share, ProxyReservation.exposure, r.settled_eq_not_held]
      by_cases hcharged : r.chargedTo key = true <;> by_cases hheld : r.held = true <;>
        simp [hcharged, hheld]
    omega

/-! ## The invariant of the envelopes -/

/-- The pending attempts fit into the envelopes, and the envelopes below the ceilings. -/
structure Covered (s : ProxyLedger) : Prop extends s.Balanced where
  attempts : Keyed AttemptAuthorization.id s.authorizations
  referenced : ∀ b ∈ s.authorizations, ∃ r ∈ s.reservations, r.id = b.reservationId
  room : ∀ r ∈ s.reservations, r.held = true →
    r.estimatedBytes + s.pendingBytes r.id ≤ r.reservedBytes
  ceiling : ∀ c ∈ s.cycles, s.exposedBytes c.key ≤ c.operationalBytes

variable {s : ProxyLedger}

theorem Opened.covered (h : s.Opened) : s.Covered := by
  refine ⟨h.balanced, ?_, ?_, ?_, ?_⟩
  · rw [h.authorizations]
    exact List.nodup_nil
  · rw [h.authorizations]
    simp
  · rw [h.reservations]
    simp
  · intro c _
    rw [exposedBytes, h.reservations, total_nil]
    exact Nat.zero_le _

theorem pendingBytes_eq_zero {id : Uuid}
    (h : ∀ b ∈ s.authorizations, b.reservationId ≠ id) : s.pendingBytes id = 0 := by
  have hnone : s.authorizations.filter (fun a => a.pendingOn id) = [] := by
    rw [List.filter_eq_nil_iff]
    intro b hb
    simp [AttemptAuthorization.pendingOn, h b hb]
  rw [pendingBytes, total, hnone]
  rfl

theorem Covered.controlled {s s' : ProxyLedger} (h : s.Covered) (hbalanced : s'.Balanced)
    (hcycles : Rewrites Administered s.cycles s'.cycles)
    (hreservations : Rewrites Revoked s.reservations s'.reservations)
    (hauthorizations : s'.authorizations = s.authorizations) : s'.Covered := by
  have hpending : ∀ id, s'.pendingBytes id = s.pendingBytes id := by
    intro id
    rw [pendingBytes, hauthorizations]
    rfl
  refine ⟨hbalanced, ?_, ?_, ?_, ?_⟩
  · rw [hauthorizations]
    exact h.attempts
  · intro b hb
    rw [hauthorizations] at hb
    obtain ⟨r, hr, hid⟩ := h.referenced b hb
    obtain ⟨r', hr', rfl | ⟨-, rfl⟩⟩ := hreservations.exists_new hr
    · exact ⟨r', hr', hid⟩
    · exact ⟨_, hr', hid⟩
  · intro r' hr' hheld
    rw [hpending]
    obtain ⟨r, hr, rfl | ⟨hactive, rfl⟩⟩ := hreservations.exists_old hr'
    · exact h.room r' hr hheld
    · exact h.room r hr (by simp [ProxyReservation.held, hactive])
  · intro c' hc'
    have hexposed : ∀ key, s'.exposedBytes key = s.exposedBytes key := by
      intro key
      refine hreservations.total_eq ?_
      rintro r _ ⟨hactive, rfl⟩
      simp [share, ProxyReservation.chargedTo, ProxyReservation.cycleKey,
        ProxyReservation.exposure, ProxyReservation.held, hactive]
    rw [hexposed]
    obtain ⟨c, hc, rfl | ⟨hkey, hoperational, -, -⟩⟩ := hcycles.exists_old hc'
    · exact h.ceiling c' hc
    · rw [hkey, hoperational]
      exact h.ceiling c hc

theorem Covered.reserved (h : s.Covered) {c : BudgetCycle} {r : ProxyReservation}
    (hbalanced : Balanced { s with reservations := s.reservations ++ [r] }) (hc : c ∈ s.cycles)
    (hid : r.id = freshKey ProxyReservation.id s.reservations) (hkey : r.cycleKey = c.key)
    (hstate : r.state = .active) (hnew : r.estimatedBytes = 0)
    (hroom : c.accounted + s.heldBytes c.key + r.reservedBytes ≤ c.operationalBytes) :
    Covered { s with reservations := s.reservations ++ [r] } := by
  refine ⟨hbalanced, h.attempts, ?_, ?_, ?_⟩
  · intro b hb
    obtain ⟨r', hr', hid'⟩ := h.referenced b hb
    exact ⟨r', List.mem_append_left _ hr', hid'⟩
  · intro r' hr' hheld
    rcases List.mem_append.mp hr' with hr' | hr'
    · exact h.room r' hr' hheld
    · obtain rfl := List.mem_singleton.mp hr'
      have hnone : s.pendingBytes r'.id = 0 := by
        refine pendingBytes_eq_zero fun b hb => ?_
        obtain ⟨r, hr, hrid⟩ := h.referenced b hb
        have hlt : r.id < freshKey ProxyReservation.id s.reservations := key_lt_freshKey hr
        rw [← hid, hrid] at hlt
        exact hlt.ne
      have hzero : r'.estimatedBytes + s.pendingBytes r'.id ≤ r'.reservedBytes := by
        rw [hnew, hnone]
        exact Nat.zero_le _
      exact hzero
  · intro c' hc'
    have hadd : exposedBytes { s with reservations := s.reservations ++ [r] } c'.key =
        s.exposedBytes c'.key +
          share (fun r => r.chargedTo c'.key) ProxyReservation.exposure r := by
      simp [exposedBytes]
    rw [hadd]
    by_cases hsame : c'.key = c.key
    · obtain rfl := h.cycles.eq_of_mem hc' hc hsame
      have hshare : share (fun r => r.chargedTo c'.key) ProxyReservation.exposure r =
          r.reservedBytes := by
        simp [share, ProxyReservation.chargedTo, hkey, ProxyReservation.exposure,
          ProxyReservation.held, hstate]
      have hreported : c'.applicationBytes ≤ c'.accounted := le_max_right _ _
      rw [hshare, exposedBytes_eq, ← h.settled c' hc']
      omega
    · have hother : share (fun r => r.chargedTo c'.key) ProxyReservation.exposure r = 0 := by
        simp [share, ProxyReservation.chargedTo, hkey, Ne.symm hsame]
      rw [hother]
      exact h.ceiling c' hc'

variable {b : AttemptAuthorization}

theorem Covered.authorized (h : s.Covered) {r : ProxyReservation} (hbalanced : Balanced { s with
      authorizations := s.authorizations ++ [b] }) (hr : r ∈ s.reservations)
    (hb : b.reservationId = r.id) (hid : b.id = freshKey AttemptAuthorization.id s.authorizations)
    (hroom : r.estimatedBytes + s.pendingBytes r.id + b.estimatedBytes ≤ r.reservedBytes) :
    Covered { s with authorizations := s.authorizations ++ [b] } := by
  refine ⟨hbalanced, h.attempts.append_fresh hid, ?_, ?_, h.ceiling⟩
  · intro b' hb'
    rcases List.mem_append.mp hb' with hb' | hb'
    · exact h.referenced b' hb'
    · rw [List.mem_singleton.mp hb']
      exact ⟨r, hr, hb.symm⟩
  · intro r' hr' hheld
    have hadd : pendingBytes { s with authorizations := s.authorizations ++ [b] } r'.id =
        s.pendingBytes r'.id +
          share (fun a => a.pendingOn r'.id) AttemptAuthorization.estimatedBytes b := by
      simp [pendingBytes]
    rw [hadd]
    by_cases hsame : r'.id = r.id
    · obtain rfl := h.reservations.eq_of_mem hr' hr hsame
      have hshare : share (fun a => a.pendingOn r'.id) AttemptAuthorization.estimatedBytes b ≤
          b.estimatedBytes := by
        unfold share
        split
        · exact le_rfl
        · exact Nat.zero_le _
      omega
    · have hother : share (fun a => a.pendingOn r'.id) AttemptAuthorization.estimatedBytes b = 0 := by
        simp [share, AttemptAuthorization.pendingOn, hb, Ne.symm hsame]
      have hold := h.room r' hr' hheld
      omega

/-- The reservations after an attempt was resolved are referenced as before. -/
theorem Covered.referenced_resolveAttempt (h : s.Covered) (b : AttemptAuthorization)
    (actualBytes physicalRequests : ℕ) :
    ∀ x ∈ (s.resolveAttempt b actualBytes physicalRequests).authorizations,
      ∃ r ∈ (s.resolveAttempt b actualBytes physicalRequests).reservations,
        r.id = x.reservationId := by
  intro x hx
  obtain ⟨y, hy, rfl⟩ := mem_update.mp hx
  obtain ⟨r, hr, hid⟩ := h.referenced y hy
  refine ⟨_, mem_update.mpr ⟨r, hr, rfl⟩, ?_⟩
  split <;> split <;> exact hid

theorem Covered.pendingBytes_resolveAttempt (h : s.Covered) (hb : b ∈ s.authorizations)
    (hstate : b.state = .authorized) (actualBytes physicalRequests : ℕ) (id : Uuid) :
    (s.resolveAttempt b actualBytes physicalRequests).pendingBytes id +
        (if b.reservationId = id then b.estimatedBytes else 0) = s.pendingBytes id := by
  have hexchange := total_update_key h.attempts hb (q := fun a => a.id == b.id) (by simp)
    (fun a ha => beq_iff_eq.mp ha) (fun a => a.pendingOn id) AttemptAuthorization.estimatedBytes
    (fun a => { a with
      state := .reconciled, actualBytes := some actualBytes
      physicalRequests := some physicalRequests })
  have hgone : share (fun a => a.pendingOn id) AttemptAuthorization.estimatedBytes
      { b with
        state := .reconciled, actualBytes := some actualBytes
        physicalRequests := some physicalRequests } = 0 := by
    simp [share, AttemptAuthorization.pendingOn]
  have hbefore : share (fun a => a.pendingOn id) AttemptAuthorization.estimatedBytes b =
      if b.reservationId = id then b.estimatedBytes else 0 := by
    simp [share, AttemptAuthorization.pendingOn, hstate]
  rw [hgone, hbefore, Nat.add_zero] at hexchange
  exact hexchange

theorem Covered.reconciled (h : s.Covered) {actualBytes : ℤ} {physicalRequests : ℕ}
    (hb : s.authorization b.id = some b) (hstate : b.state = .authorized)
    (hhonest : actualBytes ≤ b.estimatedBytes)
    (hbalanced : (s.resolveAttempt b actualBytes.toNat physicalRequests).Balanced) :
    (s.resolveAttempt b actualBytes.toNat physicalRequests).Covered := by
  have hmem := (mem_of_find? hb).1
  have hpending := h.pendingBytes_resolveAttempt hmem hstate actualBytes.toNat physicalRequests
  refine ⟨hbalanced, h.attempts.update fun a => rfl, h.referenced_resolveAttempt b _ _, ?_, ?_⟩
  · intro r' hr' hheld
    obtain ⟨r, hr, rfl⟩ := mem_update.mp hr'
    by_cases hown : r.id = b.reservationId
    · have hpend := hpending r.id
      rw [if_pos hown.symm] at hpend
      simp only [hown, beq_self_eq_true, if_true] at hheld ⊢
      have hroom := h.room r hr hheld
      have hspent : r.estimatedBytes + actualBytes.toNat +
          (s.resolveAttempt b actualBytes.toNat physicalRequests).pendingBytes r.id ≤
          r.reservedBytes := by omega
      exact hspent
    · have hpend := hpending r.id
      rw [if_neg (Ne.symm hown), Nat.add_zero] at hpend
      have hsame : (r.id == b.reservationId) = false := beq_false_of_ne hown
      simp only [hsame, Bool.false_eq_true, if_false] at hheld ⊢
      rw [hpend]
      exact h.room r hr hheld
  · intro c hc
    have hheld : (s.resolveAttempt b actualBytes.toNat physicalRequests).heldBytes c.key =
        s.heldBytes c.key := total_update_eq fun r _ _ => rfl
    have hsettled := hbalanced.settled c hc
    have hceiling := h.ceiling c hc
    rw [exposedBytes_eq, ← h.settled c hc] at hceiling
    rw [exposedBytes_eq, ← hsettled, hheld]
    exact hceiling

theorem Covered.released (h : s.Covered) (id : Uuid) :
    Covered { s with
      authorizations := update (fun x => x.id == id && x.state == .authorized)
        (fun x => { x with state := .released }) s.authorizations } := by
  refine ⟨h.toBalanced.of_sums rfl h.reservations h.charged fun _ _ => rfl,
    h.attempts.update fun a => rfl, ?_, ?_, h.ceiling⟩
  · intro x hx
    obtain ⟨y, hy, rfl⟩ := mem_update.mp hx
    obtain ⟨r, hr, hid⟩ := h.referenced y hy
    refine ⟨r, hr, ?_⟩
    split <;> exact hid
  · intro r hr hheld
    have hle : pendingBytes { s with
        authorizations := update (fun x => x.id == id && x.state == .authorized)
          (fun x => { x with state := .released }) s.authorizations } r.id ≤
        s.pendingBytes r.id := by
      refine total_update_le fun a _ _ => ?_
      simp [share, AttemptAuthorization.pendingOn]
    have hroom := h.room r hr hheld
    omega

/-- A settlement with what the reservation has used frees the rest of its envelope. -/
theorem Covered.settles {s s' : ProxyLedger} (h : s.Covered) {p : ProxyReservation → Bool}
    {f : ProxyReservation → ProxyReservation} (hs : Settles s p f s')
    (hf : ∀ r ∈ s.reservations, p r = true → (f r).estimatedBytes = r.estimatedBytes) :
    s'.Covered := by
  refine ⟨h.toBalanced.settles hs, ?_, ?_, ?_, ?_⟩
  · rw [hs.authorizations]
    exact h.attempts
  · intro b hb
    rw [hs.authorizations] at hb
    obtain ⟨r, hr, hid⟩ := h.referenced b hb
    rw [hs.reservations]
    refine ⟨_, mem_update.mpr ⟨r, hr, rfl⟩, ?_⟩
    split
    · exact (hs.keeps r).1.trans hid
    · exact hid
  · intro r' hr' hheld
    rw [hs.reservations] at hr'
    obtain ⟨r, hr, rfl⟩ := mem_update.mp hr'
    cases hp : p r with
    | true =>
      have hsettled := hs.settled r hp
      rw [ProxyReservation.settled_eq_not_held, Bool.not_eq_true'] at hsettled
      simp only [hp, if_true, hsettled] at hheld
      exact absurd hheld (by simp)
    | false =>
      simp only [hp, Bool.false_eq_true, if_false] at hheld ⊢
      rw [pendingBytes, hs.authorizations]
      exact h.room r hr hheld
  · intro c' hc'
    rw [hs.cycles] at hc'
    obtain ⟨c, hc, rfl⟩ := mem_update.mp hc'
    have hle : s'.exposedBytes c.key ≤ s.exposedBytes c.key := by
      rw [exposedBytes, hs.reservations]
      refine total_update_le fun r hr hp => ?_
      have hcycle : (f r).chargedTo c.key = r.chargedTo c.key := by
        rw [ProxyReservation.chargedTo, (hs.keeps r).2.1]
        rfl
      have hnew : (f r).exposure = r.estimatedBytes := by
        have hsettled := hs.settled r hp
        rw [ProxyReservation.settled_eq_not_held, Bool.not_eq_true'] at hsettled
        rw [ProxyReservation.exposure, hsettled, ← hf r hr hp]
        rfl
      have hold : r.estimatedBytes ≤ r.exposure := by
        unfold ProxyReservation.exposure
        split
        · next hheld => exact (Nat.le_add_right _ _).trans (h.room r hr hheld)
        · exact le_rfl
      unfold share
      simp only [hcycle, hnew]
      split
      · exact hold
      · exact le_rfl
    have hceiling := hle.trans (h.ceiling c hc)
    split <;> exact hceiling

/-- **An honest transaction keeps the ceiling unless it spends late.** -/
theorem Covered.step {a : Step} (h : s.Covered) (hhonest : s.Honest a)
    (hlate : ¬ s.SpendsLate a) : (s.step a).Covered := by
  have hbalanced := h.toBalanced.step hlate
  have hmove := step_move s a
  generalize s.step a = s' at hmove hbalanced
  cases hmove with
  | controlled hcycles hreservations hauthorizations =>
    exact h.controlled hbalanced hcycles hreservations hauthorizations
  | reserved c r hc hid hkey hstate hnew hroom =>
    exact h.reserved hbalanced hc hid hkey hstate hnew hroom
  | authorized r b hr _ hb hid hroom => exact h.authorized hbalanced hr hb hid hroom
  | reconciled b actualBytes physicalRequests hb hstate =>
    exact h.reconciled hb hstate (hhonest b hb hstate) hbalanced
  | released id => exact h.released id
  | closed now id usedBytes requests p f hs hid hf =>
    refine h.settles hs fun r hr hp => ?_
    have hfind := h.reservation_of_mem hr
    rw [hid r hp] at hfind
    rw [hf r]
    exact max_eq_left (hhonest r hfind)
  | cancelled p f hs hf => exact h.settles hs fun r _ _ => hf r

/-! ## The ceiling of a run -/

/-- **The ceiling of a cycle.**  In every state of a run of honest transactions in which no attempt
spends late, what a cycle is committed to is at most its operational bytes. -/
theorem ceiling_kept {s : ProxyLedger} {run : List Step} (h : s.Opened)
    (hhonest : Trace.Along step Honest s run)
    (htimely : Trace.Along step (fun s a => ¬ s.SpendsLate a) s run) :
    ∀ c ∈ (s.after run).cycles, (s.after run).committedBytes c.key ≤ c.operationalBytes := by
  have hcovered : (s.after run).Covered :=
    Trace.exec_invariant_of_along step (fun s a ha hs => hs.step ha.1 ha.2) h.covered
      (Trace.Along.and step hhonest htimely)
  intro c hc
  rw [committedBytes_eq]
  exact_mod_cast hcovered.ceiling c hc

instance (s : ProxyLedger) : ∀ a : Step, Decidable (s.Honest a)
  | .reconcileAttempt authorizationId actualBytes _ =>
    inferInstanceAs (Decidable (∀ b ∈ s.authorization authorizationId, b.state = .authorized →
      actualBytes ≤ b.estimatedBytes))
  | .close _ reservationId usedBytes _ =>
    inferInstanceAs (Decidable (∀ r ∈ s.reservation reservationId, usedBytes ≤ r.estimatedBytes))
  | .reserve _ _ _ | .authorize _ _ _ _ | .releaseAttempt _ | .closeStale _
  | .reconcile _ _ _ _ | .killSwitch _ _ _ | .administer _ _ | .surround _ =>
    inferInstanceAs (Decidable True)

/-- A timely run of the example, which commits the whole cycle. -/
theorem timelyRun_ceiling :
    (hundredBytes.after timelyRun).committedBytes ("decodo", 0) = 100 ∧
      ∀ c ∈ (hundredBytes.after timelyRun).cycles,
        (hundredBytes.after timelyRun).committedBytes c.key ≤ c.operationalBytes :=
  ⟨by decide, ceiling_kept hundredBytes_opened (by decide) (by decide)⟩

/-- The envelope of the stale reservation is given away, and its attempt is reconciled after
that. -/
def reusedRun : List Step :=
  [.reserve 1 1 (wholeCycle 3), .authorize 2 0 100 none, .closeStale 20,
    .reserve 21 21 (wholeCycle 4), .reconcileAttempt 0 100 1]

/-- The cycle of 100 bytes is committed to 200. -/
theorem reusedRun_exceeds :
    hundredBytes.Opened ∧ Trace.Along step Honest hundredBytes reusedRun ∧
      (hundredBytes.after reusedRun).cycles.map BudgetCycle.operationalBytes = [100] ∧
      (hundredBytes.after reusedRun).committedBytes ("decodo", 0) = 200 :=
  ⟨hundredBytes_opened, by decide, by decide, by decide⟩

end ProxyLedger

end CommerceCollector
