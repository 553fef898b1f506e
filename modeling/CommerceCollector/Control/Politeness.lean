import CommerceCollector.Control.Slots
import Mathlib.Data.List.Perm.Subperm

/-!
# The politeness bound

`acquire` takes the lowest claimable slot of a host, but it never compares the number with
`max_concurrency`.  Lowering the bound drops only idle slots, so a slot above the new bound survives
with its lease, and once that lease has lapsed `acquire` takes it over if no lower slot is free.

`SlotInReach` is the state in which this cannot happen.  A single claim stays within the bound
exactly in these states, and a run in which every claim is made in one of them keeps the number of
unexpired leases within the bound once the leases from before the last lowering are gone.
-/

namespace CommerceCollector

open Relational

/-- The lease is in force: the slot is held by a job and cannot be claimed by another one. -/
def HostLease.unexpired (l : HostLease) (now : Time) : Bool := !l.claimable now

namespace Db

variable {db : Db}

/-! ## A single claim -/

/-- Some slot within the limit can be claimed: it is missing, idle or lapsed, and not locked. -/
def FreeWithin (db : Db) (now : Time) (host : String) (locked : List ℕ) : Prop :=
  ∃ n, 1 ≤ n ∧ n ≤ db.hostLimit host ∧ n ∉ locked ∧
    ∀ l ∈ db.hostLeases, l.key = (host, n) → l.claimable now = true

/-- No slot above the limit is left with a lapsed lease that nobody locks. -/
def NoneLapsedAbove (db : Db) (now : Time) (host : String) (locked : List ℕ) : Prop :=
  ∀ l ∈ db.hostLeases, l.host = host → db.hostLimit host < l.slot → l.slot ∉ locked →
    l.jobId.isSome = true → l.claimable now = false

/-- A claim made in this state cannot reach above the limit. -/
def SlotInReach (db : Db) (now : Time) (host : String) (locked : List ℕ) : Prop :=
  db.FreeWithin now host locked ∨ db.NoneLapsedAbove now host locked

theorem claimable_of_idle {l : HostLease} (now : Time) (h : l.jobId.isNone = true) :
    l.claimable now = true := by
  simp [HostLease.claimable, h]

theorem exists_of_acquire {now : Time} {host : String} {job worker token : Uuid} {locked : List ℕ}
    {seconds : Time} {n : ℕ}
    (h : (db.acquire now host job worker token locked seconds).2 = some n) :
    ∃ free, (db.reconcileHostSlots host).freeSlot now host locked = some free ∧ free.slot = n := by
  cases hfree : (db.reconcileHostSlots host).freeSlot now host locked with
  | none =>
    rw [acquire_of_busy hfree] at h
    exact absurd h (by simp)
  | some free =>
    rw [acquire_of_freeSlot hfree] at h
    exact ⟨free, rfl, by simpa using h⟩

/-- A claim made where `SlotInReach` holds stays within the limit. -/
theorem acquire_le_of_slotInReach {now : Time} {host : String} {job worker token : Uuid}
    {locked : List ℕ} {seconds : Time} (hreach : db.SlotInReach now host locked) {n : ℕ}
    (h : (db.acquire now host job worker token locked seconds).2 = some n) :
    n ≤ db.hostLimit host := by
  obtain ⟨free, hfree, rfl⟩ := exists_of_acquire h
  obtain ⟨hmem, hhost, hclaim, hlock, hleast⟩ := freeSlot_eq_some hfree
  rcases hreach with ⟨m, hone, hm, hmlock, hmfree⟩ | hnone
  · -- the slot `m` is a candidate, and the pick is the least one
    obtain ⟨l, hl, hkey⟩ := exists_slot_reconcileHostSlots hone hm
    have hlhost : l.host = host := congrArg Prod.fst hkey
    have hlslot : l.slot = m := congrArg Prod.snd hkey
    have hlclaim : l.claimable now = true := by
      rcases (mem_reconcileHostSlots hl).1 with hold | ⟨k, -, -, rfl⟩
      · exact hmfree l hold hkey
      · exact claimable_of_idle now rfl
    have hle := hleast l hl hlhost hlclaim (hlslot ▸ hmlock)
    omega
  · -- above the limit only held slots survive, and their leases are in force
    obtain ⟨horigin, hidle⟩ := mem_reconcileHostSlots hmem
    by_contra hgt
    have hheld : free.jobId.isSome = true := by
      by_contra hnot
      exact hgt (hidle hhost (by simpa using hnot))
    rcases horigin with hold | ⟨k, -, hk, rfl⟩
    · have := hnone free hold hhost (by omega) hlock hheld
      rw [hclaim] at this
      exact absurd this (by simp)
    · exact hgt hk

/-- A claim in a state where `SlotInReach` fails is granted a slot above the limit. -/
theorem acquire_gt_of_not_slotInReach {now : Time} {host : String} {locked : List ℕ}
    (job worker token : Uuid) (seconds : Time) (hkey : Keyed HostLease.key db.hostLeases)
    (hpos : ∀ l ∈ db.hostLeases, 1 ≤ l.slot) (hreach : ¬ db.SlotInReach now host locked) :
    ∃ n, (db.acquire now host job worker token locked seconds).2 = some n ∧
      db.hostLimit host < n := by
  obtain ⟨hwithin, habove⟩ := not_or.mp hreach
  unfold NoneLapsedAbove at habove
  push Not at habove
  obtain ⟨l, hl, hhost, hgt, hlock, hheld, hlapsed⟩ := habove
  have hclaim : l.claimable now = true := by simpa using hlapsed
  have hkept : l ∈ (db.reconcileHostSlots host).hostLeases :=
    mem_reconcileHostSlots_of_held hl hheld
  obtain ⟨free, hfree, hle⟩ := exists_freeSlot hkept hhost hclaim hlock
  refine ⟨free.slot, by rw [acquire_of_freeSlot hfree], ?_⟩
  by_contra hnot
  -- a pick within the limit would have been free before, too
  obtain ⟨hmem, hfhost, hfclaim, hflock, -⟩ := freeSlot_eq_some hfree
  refine hwithin ⟨free.slot, ?_, by omega, hflock, fun m hm hmkey => ?_⟩
  · rcases (mem_reconcileHostSlots hmem).1 with hold | ⟨k, hone, -, rfl⟩
    · exact hpos free hold
    · exact hone
  · have hsame : m.key = free.key := by rw [hmkey, HostLease.key, hfhost]
    by_cases hmjob : m.jobId.isSome = true
    · have hm' : m ∈ (db.reconcileHostSlots host).hostLeases :=
        mem_reconcileHostSlots_of_held hm hmjob
      obtain rfl := (reconcileHostSlots_keyed host hkey).eq_of_mem hm' hmem hsame
      exact hfclaim
    · exact claimable_of_idle now (by simpa using hmjob)

/-! ## Limits along a run -/

/-- The slot a transaction grants. -/
def grants (db : Db) : Txn → Option (String × ℕ)
  | .acquire now host job worker token locked seconds =>
    (db.acquire now host job worker token locked seconds).2.map fun n => (host, n)
  | _ => none

/-- The slots granted along a run. -/
def granted : Db → List Txn → List (String × ℕ)
  | _, [] => []
  | db, t :: ts => (db.grants t).toList ++ (db.step t).granted ts

/-- A transaction that claims a slot of the host does so where `SlotInReach` holds. -/
def ClaimsInReach (host : String) (db : Db) : Txn → Prop
  | .acquire now other _ _ _ locked _ => other = host → db.SlotInReach now host locked
  | _ => True

/-- A transaction does not lower the bound of a host. -/
def KeepsLimit (host : String) (db : Db) (t : Txn) : Prop :=
  db.hostLimit host ≤ (db.step t).hostLimit host

theorem hostLimit_le_exec {host : String} {txns : List Txn}
    (h : Trace.Along Db.step (KeepsLimit host) db txns) :
    db.hostLimit host ≤ (Trace.exec Db.step db txns).hostLimit host := by
  induction txns generalizing db with
  | nil => exact le_rfl
  | cons t ts ih => exact h.1.trans (ih h.2)

/-- What a run grants on a host stays within the bound at the end of the run, if no claim reaches
above the bound of its time and the bound is never lowered. -/
theorem granted_le {host : String} {txns : List Txn}
    (hreach : Trace.Along Db.step (ClaimsInReach host) db txns)
    (hkeep : Trace.Along Db.step (KeepsLimit host) db txns) {n : ℕ}
    (hn : (host, n) ∈ db.granted txns) :
    n ≤ (Trace.exec Db.step db txns).hostLimit host := by
  induction txns generalizing db with
  | nil => exact absurd hn (by simp [granted])
  | cons t ts ih =>
    rcases List.mem_append.mp hn with hnow | hlater
    · have hbound : n ≤ db.hostLimit host := by
        cases t with
        | acquire now h job worker token locked seconds =>
          simp only [grants, Option.mem_toList, Option.map_eq_some_iff, Prod.mk.injEq] at hnow
          obtain ⟨m, hm, rfl, rfl⟩ := hnow
          exact acquire_le_of_slotInReach (hreach.1 rfl) hm
        | _ => exact absurd hnow (by simp [grants])
      exact hbound.trans (hostLimit_le_exec hkeep)
    · exact ih hreach.2 hkeep.2 hlater

/-! ## The bound -/

/-- Every reachable slot is numbered from one, and `(host, slot)` is a primary key. -/
theorem after_slots (txns : List Txn) :
    Keyed HostLease.key (Db.after txns).hostLeases ∧
      ∀ l ∈ (Db.after txns).hostLeases, 1 ≤ l.slot := by
  refine after_leases (P := fun l => 1 ≤ l.slot) (fun _ _ hone => hone) ?_ txns
  intro t l l' hs hl
  have hslot : l'.slot = l.slot := congrArg Prod.snd hs.key_eq
  omega

/-- Distinct slots of one host, numbered from one up to a bound, are at most that many. -/
theorem length_le_of_slots {leases : List HostLease} {host : String} {bound : ℕ}
    (hkey : Keyed HostLease.key leases) (hhost : ∀ l ∈ leases, l.host = host)
    (hslot : ∀ l ∈ leases, 1 ≤ l.slot ∧ l.slot ≤ bound) : leases.length ≤ bound := by
  have hkeys : leases.map HostLease.key ⊆ (List.range' 1 bound).map fun n => (host, n) := by
    intro k hk
    obtain ⟨l, hl, rfl⟩ := List.mem_map.mp hk
    have hn := hslot l hl
    exact List.mem_map.mpr ⟨l.slot, List.mem_range'_1.mpr ⟨hn.1, by omega⟩,
      Prod.ext (hhost l hl).symm rfl⟩
  have hle := (List.Nodup.subperm hkey hkeys).length_le
  simpa using hle

/-- **Politeness.**  In every reachable database a claim stays within the bound of its host exactly
where `SlotInReach` holds.  If every claim on the host since the last lowering of its bound was made
in such a state, and no unexpired lease is older than that lowering, then the unexpired leases of
the host are no more than its bound. -/
theorem acquire_within_limit_iff_and_unexpired_le (pre : List Txn) (host : String) (now : Time) :
    (∀ (job worker token : Uuid) (locked : List ℕ) (seconds : Time),
      (∀ n, ((Db.after pre).acquire now host job worker token locked seconds).2 = some n →
        n ≤ (Db.after pre).hostLimit host) ↔
      (Db.after pre).SlotInReach now host locked) ∧
    ∀ post : List Txn,
      Trace.Along Db.step (ClaimsInReach host) (Db.after pre) post →
      Trace.Along Db.step (KeepsLimit host) (Db.after pre) post →
      (∀ l ∈ (Db.after (pre ++ post)).hostSlots host, l.unexpired now = true →
        l.key ∈ (Db.after pre).granted post) →
      ((Db.after (pre ++ post)).hostSlots host).countP (fun l => l.unexpired now) ≤
        (Db.after (pre ++ post)).hostLimit host := by
  constructor
  · intro job worker token locked seconds
    obtain ⟨hkey, hpos⟩ := after_slots pre
    constructor
    · intro hwithin
      by_contra hreach
      obtain ⟨n, hn, hgt⟩ :=
        acquire_gt_of_not_slotInReach job worker token seconds hkey hpos hreach
      exact absurd (hwithin n hn) (by omega)
    · intro hreach n hn
      exact acquire_le_of_slotInReach hreach hn
  · intro post hreach hkeep hrecent
    have hend : Db.after (pre ++ post) = Trace.exec Db.step (Db.after pre) post :=
      Trace.exec_append Db.step {} pre post
    obtain ⟨hkey, hpos⟩ := after_slots (pre ++ post)
    have hsub : (((Db.after (pre ++ post)).hostSlots host).filter fun l => l.unexpired now).Sublist
        (Db.after (pre ++ post)).hostLeases := List.filter_sublist.trans List.filter_sublist
    have hof : ∀ l ∈ ((Db.after (pre ++ post)).hostSlots host).filter fun l => l.unexpired now,
        l.host = host := by
      intro l hl
      have hslots := (List.mem_filter.mp hl).1
      exact beq_iff_eq.mp (List.mem_filter.mp hslots).2
    rw [List.countP_eq_length_filter]
    refine length_le_of_slots ((hsub.map _).nodup hkey) hof
      fun l hl => ⟨hpos l (hsub.subset hl), ?_⟩
    obtain ⟨hslots, hforce⟩ := List.mem_filter.mp hl
    have hgrant : (host, l.slot) ∈ (Db.after pre).granted post := by
      have hl' := hrecent l hslots hforce
      rwa [HostLease.key, hof l hl] at hl'
    rw [hend]
    exact granted_le hreach hkeep hgrant

/-- The bound of a host with one configured slot, after the first claim on it. -/
theorem unexpired_le_after_first_claim :
    ((Db.after ([.configure "shop.example" 1] ++
        [.acquire 0 "shop.example" 1 1 11 [] (secs slotSeconds)])).hostSlots "shop.example").countP
      (fun l => l.unexpired 5) ≤ 1 := by
  refine (acquire_within_limit_iff_and_unexpired_le [.configure "shop.example" 1] "shop.example"
    5).2 [.acquire 0 "shop.example" 1 1 11 [] (secs slotSeconds)] ⟨fun _ => ?_, trivial⟩
    ⟨?_, trivial⟩ ?_
  · exact Or.inl ⟨1, by decide, by decide, by decide, by decide⟩
  · exact (by decide : (1 : ℕ) ≤ 1)
  · decide

/-! ## A lapsed lease above a lowered bound -/

/-- Two jobs hold the two slots of a host when its bound is lowered to one; the worker of the first
job renews its slot, the worker of the second one is gone. -/
def loweredRun : List Txn :=
  [ .configure "shop.example" 2,
    .acquire (secs 1) "shop.example" 1 1 11 [] (secs slotSeconds),
    .acquire (secs 2) "shop.example" 2 2 12 [] (secs slotSeconds),
    .configure "shop.example" 1,
    .renewSlots (secs 120) 1 [11] (secs slotSeconds) ]

/-- The slot of the second job is claimed after its lease has lapsed; then the first job gives its
slot back and a fourth one claims it. -/
def overtakingRun : List Txn :=
  [ .acquire (secs 200) "shop.example" 3 3 13 [] (secs slotSeconds),
    .releaseAll 1 11,
    .acquire (secs 201) "shop.example" 4 4 14 [] (secs slotSeconds) ]

/-- The lapsed slot above the bound is granted, and two leases taken after the lowering are in force
on a host whose bound is one. -/
theorem lapsed_slot_granted_above_limit :
    (Db.after loweredRun).hostLimit "shop.example" = 1 ∧
      ((Db.after loweredRun).acquire (secs 200) "shop.example" 3 3 13 [] (secs slotSeconds)).2 =
        some 2 ∧
      (Db.after (loweredRun ++ overtakingRun)).hostLimit "shop.example" = 1 ∧
      (∀ l ∈ (Db.after (loweredRun ++ overtakingRun)).hostSlots "shop.example",
        l.unexpired (secs 202) = true → l.key ∈ (Db.after loweredRun).granted overtakingRun) ∧
      ((Db.after (loweredRun ++ overtakingRun)).hostSlots "shop.example").countP
        (fun l => l.unexpired (secs 202)) = 2 := by
  decide

end Db

end CommerceCollector
