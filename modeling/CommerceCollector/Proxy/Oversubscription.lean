import CommerceCollector.Proxy.Rotations

/-!
# The capacity of a cycle

A blue-green rotation counts the allocations of the cycle and the temporary allocations of the
rotations in progress before it adds its own.  `create_profile` and the allocation of
`profile_action` count the allocations alone, so what they add may not fit beside a rotation, and a
round of `finalize_retirements` marks a retirement that another round may have completed meanwhile.
The cycle is never oversubscribed as long as what these three add fits (`capacity_kept`).
-/

namespace CommerceCollector

open Relational Transaction Tasks

namespace ProxyProfiles

/-- The temporary allocations of the retirements in progress on the profiles of a provider. -/
def temporaryBytesOf (s : ProxyProfiles) (provider : String) : ℕ :=
  total (fun x => x.inProgress && s.belongsTo provider x.profileId)
    ProfileRetirement.temporaryAllocationBytes s.retirements

/-- What is committed of the capacity of a cycle. -/
def committedBytes (s : ProxyProfiles) (cycle : CapacityCycle) : ℕ :=
  s.allocatedBytes cycle.provider cycle.cycleStart + s.temporaryBytesOf cycle.provider +
    cycle.unmanagedAllocationBytes

/-- Allocations that pass the check of the source also fit beside the temporary allocations. -/
def FitsBeside (s : ProxyProfiles) (provider : String) (allocated : CapacityCycle → ℕ) : Prop :=
  ∀ cycle ∈ s.activeCycle provider,
    allocated cycle + cycle.unmanagedAllocationBytes ≤ cycle.operationalBytes →
      allocated cycle + s.temporaryBytesOf provider + cycle.unmanagedAllocationBytes ≤
        cycle.operationalBytes

/-- What the step adds to the capacity of the provider fits: the allocation of a new profile, the
new allocation of a profile, and a retirement that is no longer in progress when a round marks
it. -/
def Fits (provider : String) (s : ProxyProfiles) : ProfileTask → ProfileReply → Prop
  | .requested (.createProfile r), _ =>
    r.provider = provider → s.FitsBeside provider fun cycle =>
      s.allocatedBytes provider cycle.cycleStart + r.allocatedBytes.toNat
  | .counted ⟨readProvider, profile, allocation, .allocation bytes, _⟩ _, _ =>
    readProvider = provider → allocation.isSome → s.FitsBeside provider fun cycle =>
      s.otherBytes provider cycle.cycleStart profile.id + bytes.toNat
  | .finalizingRetirements _ (row :: _), _ =>
    ∀ x ∈ s.retirements, x.id = row.id → x.inProgress = false → s.belongsTo provider x.profileId →
      ∀ cycle ∈ s.activeCycle provider,
        s.committedBytes cycle + x.temporaryAllocationBytes ≤ cycle.operationalBytes
  | _, _ => True

/-- The primary key of `catalogue.proxy_profile_allocations`. -/
def allocationKey (a : ProfileAllocation) : String × Time × Uuid :=
  (a.provider, a.cycleStart, a.profileId)

/-- The keys of the tables, and what refers to a profile. -/
structure Referential (s : ProxyProfiles) : Prop where
  retirements : Keyed ProfileRetirement.id s.retirements
  profiles : Keyed ManagedProfile.id s.profiles
  allocations : Keyed allocationKey s.allocations
  retired : ∀ x ∈ s.retirements, ∃ p ∈ s.profiles, p.id = x.profileId
  allocated : ∀ a ∈ s.allocations, ∃ p ∈ s.profiles, p.id = a.profileId

/-- The capacity of the active cycle of a provider is not exceeded. -/
structure Within (provider : String) (cycle : CapacityCycle) (s : ProxyProfiles) : Prop where
  tables : s.Referential
  current : ∃ killSwitch, s.activeCycle provider = some { cycle with killSwitch }
  capacity : s.committedBytes cycle ≤ cycle.operationalBytes

/-! ## What the statements do -/

variable {f : ProfileRetirement → ProfileRetirement} {w : LoadedAction} {id : Uuid}

section Statements

variable {s s' : ProxyProfiles} {provider : String} {cycle : CapacityCycle}

theorem Within.provider_eq (h : s.Within provider cycle) : cycle.provider = provider := by
  obtain ⟨killSwitch, hcycle⟩ := h.current
  exact beq_iff_eq.mp (mem_of_find? hcycle).2

/-- A retirement in progress is counted once, if it is one of the provider. -/
theorem temporaryBytesOf_le (s : ProxyProfiles) (provider : String) :
    s.temporaryBytesOf provider ≤ s.temporaryBytes := by
  refine total_mono fun x _ => ?_
  unfold share
  by_cases hx : x.inProgress = true <;> by_cases hb : s.belongsTo provider x.profileId = true <;>
    simp [hx, hb]

section

variable (h : s.Within provider cycle)

include h

theorem Within.mono (htables : s'.Referential)
    (hcycles : s'.cycles = s.cycles)
    (hallocated : s'.allocatedBytes cycle.provider cycle.cycleStart ≤
      s.allocatedBytes cycle.provider cycle.cycleStart)
    (htemporary : s'.temporaryBytesOf cycle.provider ≤ s.temporaryBytesOf cycle.provider) :
    s'.Within provider cycle := by
  refine ⟨htables, ?_, ?_⟩
  · unfold activeCycle
    rw [hcycles]
    exact h.current
  · have hcapacity := h.capacity
    unfold committedBytes at hcapacity ⊢
    omega

theorem Within.rewrite {p : ManagedProfile → Bool}
    {f : ManagedProfile → ManagedProfile} (hf : ∀ r : ManagedProfile, r.Keeps (f r)) :
    { s with profiles := update p f s.profiles }.Within provider cycle := by
  have hexists : ∀ {id : Uuid}, (∃ q ∈ s.profiles, q.id = id) →
      ∃ q ∈ update p f s.profiles, q.id = id := by
    rintro _ ⟨q, hq, rfl⟩
    refine ⟨_, mem_update.mpr ⟨q, hq, rfl⟩, ?_⟩
    split
    · exact (hf q).id
    · rfl
  have hbelongs : ∀ other id, belongsTo { s with profiles := update p f s.profiles } other id =
      s.belongsTo other id := by
    intro other id
    unfold belongsTo
    rw [update, List.any_map]
    congr 1
    funext r
    by_cases hp : p r = true <;> simp [hp, (hf r).id, (hf r).provider]
  refine h.mono ⟨h.tables.retirements, h.tables.profiles.update fun r => (hf r).id,
    h.tables.allocations, fun x hx => hexists (h.tables.retired x hx),
    fun a ha => hexists (h.tables.allocated a ha)⟩ rfl le_rfl ?_
  unfold temporaryBytesOf
  simp only [hbelongs]
  exact le_rfl

theorem Within.updateProfile {f : ManagedProfile → ManagedProfile}
    (hf : ∀ r : ManagedProfile, r.Keeps (f r)) (id : Uuid) :
    (s.updateProfile id f).Within provider cycle :=
  h.rewrite hf

theorem Within.activateKillSwitch (other : String) :
    (s.activateKillSwitch other).Within provider cycle := by
  refine ⟨⟨h.tables.retirements, h.tables.profiles, h.tables.allocations, h.tables.retired,
    h.tables.allocated⟩, ?_, h.capacity⟩
  obtain ⟨killSwitch, hcycle⟩ := h.current
  have hkeep : ∀ c : CapacityCycle, ({ c with killSwitch := true } : CapacityCycle).provider =
      c.provider := fun _ => rfl
  unfold activeCycle ProxyProfiles.activateKillSwitch at *
  rw [find?_update hkeep, hcycle, Option.map_some]
  split
  · exact ⟨true, rfl⟩
  · exact ⟨killSwitch, rfl⟩

/-- A retirement is moved on: it is in progress only if it was, or if it fits. -/
theorem Within.updateRetirement
    (hf : ∀ x, (f x).id = x.id ∧ (f x).profileId = x.profileId ∧
      (f x).temporaryAllocationBytes = x.temporaryAllocationBytes)
    (hfits : ∀ x ∈ s.retirements, x.id = id → x.inProgress = false → (f x).inProgress = true →
      s.belongsTo cycle.provider x.profileId →
        s.committedBytes cycle + x.temporaryAllocationBytes ≤ cycle.operationalBytes) :
    (s.updateRetirement id f).Within provider cycle := by
  refine ⟨⟨h.tables.retirements.update fun x => (hf x).1, h.tables.profiles, h.tables.allocations,
    fun x hx => ?_, h.tables.allocated⟩, h.current, ?_⟩
  · obtain ⟨y, hy, rfl⟩ := mem_update.mp hx
    obtain ⟨q, hq, hid⟩ := h.tables.retired y hy
    refine ⟨q, hq, ?_⟩
    split
    · rw [(hf y).2.1, hid]
    · exact hid
  · have hcapacity := h.capacity
    by_cases hrow : ∃ x ∈ s.retirements, x.id = id
    · obtain ⟨x, hx, rfl⟩ := hrow
      have hexchange := total_update_key h.tables.retirements hx (q := fun y => y.id == x.id)
        (by simp) (fun y hy => beq_iff_eq.mp hy)
        (fun x => x.inProgress && s.belongsTo cycle.provider x.profileId)
        ProfileRetirement.temporaryAllocationBytes f
      have hroom := hfits x hx rfl
      simp only [share, (hf x).2.1, (hf x).2.2] at hexchange
      unfold committedBytes at hcapacity hroom ⊢
      unfold temporaryBytesOf at hcapacity hroom ⊢
      have hrows : (s.updateRetirement x.id f).retirements =
          update (fun y => y.id == x.id) f s.retirements := rfl
      have hbelongs : (s.updateRetirement x.id f).belongsTo = s.belongsTo := rfl
      have hallocated : (s.updateRetirement x.id f).allocatedBytes = s.allocatedBytes := rfl
      rw [hrows, hbelongs, hallocated]
      cases hbefore : x.inProgress <;> cases hafter : (f x).inProgress <;>
        cases howner : s.belongsTo cycle.provider x.profileId <;>
          simp [hbefore, hafter, howner] at hexchange hroom <;> omega
    · have hsame : (s.updateRetirement id f).retirements = s.retirements :=
        update_eq_self fun x hx => by
          rw [beq_eq_false_iff_ne]
          exact fun hid => hrow ⟨x, hx, hid⟩
      have hbelongs : (s.updateRetirement id f).belongsTo = s.belongsTo := rfl
      unfold committedBytes temporaryBytesOf at hcapacity ⊢
      rw [hsame, hbelongs]
      exact hcapacity

end

theorem ne_freshKey_of_mem (h : ∃ q ∈ s.profiles, q.id = id) :
    freshKey ManagedProfile.id s.profiles ≠ id := by
  obtain ⟨q, hq, rfl⟩ := h
  exact (key_lt_freshKey hq).ne'

theorem belongsTo_append {row : ManagedProfile} (hs : s'.profiles = s.profiles ++ [row])
    (hne : row.id ≠ id) (other : String) : s'.belongsTo other id = s.belongsTo other id := by
  unfold belongsTo
  rw [hs, List.any_append]
  simp [hne]

theorem Within.createProfile (h : s.Within provider cycle) {now : Time} {r : CreateProfile}
    (hok : s.createProfile now r = .ok (id, s'))
    (hfits : r.provider = provider → s.FitsBeside provider fun cycle =>
      s.allocatedBytes provider cycle.cycleStart + r.allocatedBytes.toNat) :
    s'.Within provider cycle := by
  have hprovider := h.provider_eq
  obtain ⟨row, active, rfl, hid, hfresh, hrow, hactive, hcheck⟩ := createProfile_rows hok
  obtain ⟨killSwitch, hcycle⟩ := h.current
  have hold : ∀ {id : Uuid}, (∃ q ∈ s.profiles, q.id = id) →
      ∃ q ∈ s.profiles ++ [row], q.id = id := by
    rintro _ ⟨q, hq, rfl⟩
    exact ⟨q, List.mem_append_left _ hq, rfl⟩
  refine ⟨⟨h.tables.retirements, h.tables.profiles.append_fresh (hid.trans hfresh), ?_,
    fun x hx => hold (h.tables.retired x hx), fun a ha => ?_⟩, ⟨killSwitch, hcycle⟩, ?_⟩
  · unfold Keyed
    rw [List.map_append, List.map_singleton, List.nodup_append]
    refine ⟨h.tables.allocations, List.nodup_singleton _, ?_⟩
    rintro k hk k' hk' rfl
    obtain ⟨a, ha, hkey⟩ := List.mem_map.mp hk
    rw [List.mem_singleton] at hk'
    have hprofile : a.profileId = id := by
      have heq := hkey.trans hk'
      simp only [allocationKey, Prod.mk.injEq] at heq
      exact heq.2.2
    exact ne_freshKey_of_mem (h.tables.allocated a ha) (hfresh.symm.trans hprofile.symm)
  · rcases List.mem_append.mp ha with hmem | hnew
    · exact hold (h.tables.allocated a hmem)
    · rw [List.mem_singleton.mp hnew]
      exact ⟨row, List.mem_append_right _ (List.mem_singleton_self row), hid⟩
  · have htemporary : temporaryBytesOf { s with
          profiles := s.profiles ++ [row]
          allocations := s.allocations ++
            [⟨r.provider, active.cycleStart, id, r.allocatedBytes.toNat⟩] } cycle.provider =
        s.temporaryBytesOf cycle.provider := by
      refine total_congr fun x hx => ?_
      have hne : row.id ≠ x.profileId := by
        rw [hid, hfresh]
        exact ne_freshKey_of_mem (h.tables.retired x hx)
      have hsame : belongsTo { s with
            profiles := s.profiles ++ [row]
            allocations := s.allocations ++
              [⟨r.provider, active.cycleStart, id, r.allocatedBytes.toNat⟩] } cycle.provider
          x.profileId = s.belongsTo cycle.provider x.profileId := belongsTo_append rfl hne _
      simp only [share, hsame]
    have hcapacity := h.capacity
    unfold committedBytes at hcapacity ⊢
    rw [htemporary]
    unfold allocatedBytes at hcapacity ⊢
    dsimp only at hcapacity ⊢
    rw [total_append, total_cons, total_nil, Nat.add_zero]
    by_cases hsame : r.provider = provider
    · obtain rfl : { cycle with killSwitch } = active := by
        rw [hsame, hcycle] at hactive
        exact Option.some.inj hactive
      have hroom := hfits hsame _ hcycle (by rwa [hsame] at hcheck)
      have hnew : inCycle cycle.provider cycle.cycleStart
          ⟨r.provider, cycle.cycleStart, id, r.allocatedBytes.toNat⟩ = true := by
        simp [inCycle, hprovider, hsame]
      rw [share, if_pos hnew, hprovider]
      unfold allocatedBytes at hroom
      dsimp only at hroom ⊢
      omega
    · have hnew : inCycle cycle.provider cycle.cycleStart
          ⟨r.provider, active.cycleStart, id, r.allocatedBytes.toNat⟩ = false := by
        simp [inCycle, hprovider, hsame]
      rw [share, hnew]
      exact hcapacity

theorem Within.dropPending (h : s.Within provider cycle) (id : Uuid) :
    (s.dropPending id).Within provider cycle := by
  unfold ProxyProfiles.dropPending
  dsimp only
  split
  · exact h
  · next hfree =>
    have hkept : ∀ q ∈ s.profiles, q.id ≠ id ∨ (∃ x ∈ s.retirements, x.profileId = id) →
        q ∈ s.profiles.filter fun p =>
          !(p.id == id && p.lifecycle == .pending && p.providerResourceId.isNone) := by
      intro q hq hcase
      refine List.mem_filter.mpr ⟨hq, ?_⟩
      rw [Bool.not_eq_true']
      rcases hcase with hne | ⟨x, hx, hid⟩
      · simp [hne]
      · rw [Bool.eq_false_iff]
        intro hdoomed
        refine hfree (Bool.and_eq_true_iff.mpr ⟨List.any_eq_true.mpr ⟨q, hq, hdoomed⟩, ?_⟩)
        exact List.any_eq_true.mpr ⟨x, hx, beq_iff_eq.mpr hid⟩
    refine h.mono ⟨h.tables.retirements, ?_, ?_, fun x hx => ?_, fun a ha => ?_⟩ rfl ?_ ?_
    · exact h.tables.profiles.sublist (List.filter_sublist.map _)
    · exact h.tables.allocations.sublist (List.filter_sublist.map _)
    · obtain ⟨q, hq, hid⟩ := h.tables.retired x hx
      by_cases hown : q.id = id
      · exact ⟨q, hkept q hq (Or.inr ⟨x, hx, hid.symm.trans hown⟩), hid⟩
      · exact ⟨q, hkept q hq (Or.inl hown), hid⟩
    · obtain ⟨ha, hne⟩ := List.mem_filter.mp ha
      obtain ⟨q, hq, hid⟩ := h.tables.allocated a ha
      refine ⟨q, hkept q hq (Or.inl ?_), hid⟩
      rw [hid]
      exact bne_iff_ne.mp hne
    · exact ((List.filter_sublist.filter _).map _).sum_le_sum fun _ _ => Nat.zero_le _
    · refine total_mono fun x _ => ?_
      have hbelongs : ∀ other, (s.profiles.filter fun p => !(p.id == id &&
            p.lifecycle == .pending && p.providerResourceId.isNone)).any
          (fun p => p.id == x.profileId && p.provider == other) = true →
            s.belongsTo other x.profileId = true := by
        intro other hany
        obtain ⟨q, hq, hp⟩ := List.any_eq_true.mp hany
        exact List.any_eq_true.mpr ⟨q, (List.mem_filter.mp hq).1, hp⟩
      unfold share
      split
      · next hx =>
        rw [Bool.and_eq_true] at hx
        rw [if_pos (Bool.and_eq_true_iff.mpr ⟨hx.1, hbelongs _ hx.2⟩)]
      · exact Nat.zero_le _

theorem Within.beginRotation (h : s.Within provider cycle) {now : Time} {minimum : ℕ}
    (hok : s.beginRotation now w = .ok ((id, minimum), s'))
    (hread : ∃ p ∈ s.profiles, p.id = w.profile.id ∧ p.provider = w.provider) :
    s'.Within provider cycle := by
  have hprovider := h.provider_eq
  obtain ⟨row, active, rfl, hid, hfresh, -, hprofile, hbytes, hexists, hactive, hroom⟩ :=
    beginRotation_row hok
  obtain ⟨killSwitch, hcycle⟩ := h.current
  refine ⟨⟨h.tables.retirements.append_fresh (hid.trans hfresh), h.tables.profiles,
    h.tables.allocations, fun x hx => ?_, h.tables.allocated⟩, ⟨killSwitch, hcycle⟩, ?_⟩
  · rcases List.mem_append.mp hx with hold | hnew
    · exact h.tables.retired x hold
    · rw [List.mem_singleton.mp hnew, hprofile]
      exact hexists
  · have hcapacity := h.capacity
    have htemporary := temporaryBytesOf_le s cycle.provider
    have hbelongs : belongsTo { s with retirements := s.retirements ++ [row] } = s.belongsTo := rfl
    unfold committedBytes temporaryBytesOf at hcapacity htemporary ⊢
    dsimp only at hcapacity htemporary ⊢
    rw [total_append, total_cons, total_nil, Nat.add_zero, hbelongs]
    have hallocated : allocatedBytes { s with retirements := s.retirements ++ [row] } =
      s.allocatedBytes := rfl
    rw [hallocated]
    by_cases howner : s.belongsTo cycle.provider w.profile.id = true
    · have hsame : w.provider = provider := by
        obtain ⟨p, hp, hpid, hpprovider⟩ := hread
        obtain ⟨q, hq, hqid⟩ := List.any_eq_true.mp howner
        rw [Bool.and_eq_true, beq_iff_eq, beq_iff_eq] at hqid
        have heq : p = q := h.tables.profiles.eq_of_mem hp hq (hpid.trans hqid.1.symm)
        rw [← hpprovider, heq, hqid.2, hprovider]
      obtain rfl : { cycle with killSwitch } = active := by
        rw [hsame, hcycle] at hactive
        exact Option.some.inj hactive
      have hshare : share (fun x => x.inProgress && s.belongsTo cycle.provider x.profileId)
          ProfileRetirement.temporaryAllocationBytes row ≤ minimum := by
        unfold share
        split
        · exact hbytes.le
        · exact Nat.zero_le _
      rw [hsame, ← hprovider] at hroom
      dsimp only at hroom
      omega
    · have hshare : share (fun x => x.inProgress && s.belongsTo cycle.provider x.profileId)
          ProfileRetirement.temporaryAllocationBytes row = 0 := by
        refine if_neg fun hcounted => howner ?_
        rw [← hprofile]
        exact (Bool.and_eq_true_iff.mp hcounted).2
      omega

theorem total_set_le {rows : List ProfileAllocation} (hkeyed : Keyed allocationKey rows)
    {cycleStart : Time} (hread : w.allocation.any fun b => b.cycleStart == cycleStart) (bytes : ℕ) :
    total (inCycle w.provider cycleStart) ProfileAllocation.allocatedBytes
        (update (sets w) (fun a => { a with allocatedBytes := bytes }) rows) ≤
      total (fun a => inCycle w.provider cycleStart a && a.profileId != w.profile.id)
        ProfileAllocation.allocatedBytes rows + bytes := by
  obtain ⟨b, hb, hstart⟩ := (Option.any_eq_true _ _).mp hread
  rw [beq_iff_eq] at hstart
  have hown : ∀ a, sets w a = (inCycle w.provider cycleStart a && a.profileId == w.profile.id) := by
    intro a
    rw [sets, hb, Option.any_some, hstart]
  rw [total_split _ fun a => a.profileId == w.profile.id, Nat.add_comm]
  refine Nat.add_le_add ?_ ?_
  · refine total_update_le fun a _ hset => ?_
    rw [hown, Bool.and_eq_true, beq_iff_eq] at hset
    simp [share, hset.2]
  · refine (hkeyed.update (f := fun a => { a with allocatedBytes := bytes }) fun _ => rfl).total_le
      (k := (w.provider, cycleStart, w.profile.id)) fun a ha hp => ?_
    rw [Bool.and_eq_true, beq_iff_eq, inCycle, Bool.and_eq_true, beq_iff_eq, beq_iff_eq] at hp
    refine ⟨by rw [allocationKey, hp.1.1, hp.1.2, hp.2], ?_⟩
    obtain ⟨c, hc, rfl⟩ := mem_update.mp ha
    by_cases hset : sets w c = true
    · rw [if_pos hset]
    · rw [if_neg hset] at hp
      refine absurd ?_ hset
      rw [hown, Bool.and_eq_true, inCycle]
      simp [hp.1.1, hp.1.2, hp.2]

/-- An action on an allocation of another cycle leaves the bytes of a cycle alone. -/
theorem total_set_eq {rows : List ProfileAllocation} {provider : String} {cycleStart : Time}
    (hother : ¬(w.provider = provider ∧ w.allocation.any fun b => b.cycleStart == cycleStart))
    (bytes : ℕ) :
    total (inCycle provider cycleStart) ProfileAllocation.allocatedBytes
        (update (sets w) (fun a => { a with allocatedBytes := bytes }) rows) =
      total (inCycle provider cycleStart) ProfileAllocation.allocatedBytes rows := by
  refine total_update_eq fun a _ hset => ?_
  obtain ⟨b, hb, hset⟩ := (Option.any_eq_true _ _).mp hset
  rw [inCycle, Bool.and_eq_true, Bool.and_eq_true, beq_iff_eq, beq_iff_eq] at hset
  have hout : inCycle provider cycleStart a = false := by
    rw [Bool.eq_false_iff]
    intro hin
    rw [inCycle, Bool.and_eq_true, beq_iff_eq, beq_iff_eq] at hin
    refine hother ⟨hset.1.1.symm.trans hin.1, (Option.any_eq_true _ _).mpr ⟨b, hb, ?_⟩⟩
    rw [beq_iff_eq]
    exact hset.1.2.symm.trans hin.2
  have hout' : inCycle provider cycleStart { a with allocatedBytes := bytes } = false := hout
  simp [share, hout, hout']

theorem Within.setAllocation (h : s.Within provider cycle) {active : ℕ} {bytes : ℤ} {u : Unit}
    (hok : s.setAllocation w active bytes = .ok (u, s'))
    (hfits : w.provider = provider → w.allocation.isSome → s.FitsBeside provider fun cycle =>
      s.otherBytes provider cycle.cycleStart w.profile.id + bytes.toNat) :
    s'.Within provider cycle := by
  have hprovider := h.provider_eq
  obtain ⟨active, rfl, hactive, hcheck⟩ := setAllocation_rows hok
  obtain ⟨killSwitch, hcycle⟩ := h.current
  refine ⟨⟨h.tables.retirements, h.tables.profiles, h.tables.allocations.update fun _ => rfl,
    h.tables.retired, fun a ha => ?_⟩, ⟨killSwitch, hcycle⟩, ?_⟩
  · obtain ⟨b, hb, rfl⟩ := mem_update.mp ha
    obtain ⟨q, hq, hid⟩ := h.tables.allocated b hb
    refine ⟨q, hq, ?_⟩
    split
    · exact hid
    · exact hid
  · have hcapacity := h.capacity
    unfold committedBytes at hcapacity ⊢
    have htemporary : ∀ rows, temporaryBytesOf { s with allocations := rows } =
        s.temporaryBytesOf := fun _ => rfl
    rw [htemporary]
    unfold allocatedBytes at hcapacity ⊢
    by_cases hread : w.provider = provider ∧ w.allocation.any fun b => b.cycleStart == cycle.cycleStart
    · obtain ⟨hsame, hread⟩ := hread
      obtain rfl : { cycle with killSwitch } = active := by
        rw [hsame, hcycle] at hactive
        exact Option.some.inj hactive
      have hsome : w.allocation.isSome := by
        obtain ⟨b, hb, -⟩ := (Option.any_eq_true _ _).mp hread
        rw [hb]
        rfl
      rw [hsame] at hcheck
      have hroom := hfits hsame hsome _ hcycle (by dsimp only at hcheck ⊢; omega)
      have hle := total_set_le h.tables.allocations hread bytes.toNat
      unfold otherBytes at hroom
      rw [hsame] at hle
      rw [hprovider]
      dsimp only at hroom ⊢
      omega
    · rw [hprovider, total_set_eq hread, ← hprovider]
      exact hcapacity

end Statements

/-! ## One step -/

section Step

variable {s : ProxyProfiles} {t : ProfileTask} {provider : String} {cycle : CapacityCycle}

section

variable (h : s.Within provider cycle)

include h

theorem Within.accept (now : Time) {r : ProfileRequest}
    (hfits : ∀ reply, Fits provider s (.requested r) reply) :
    (s.accept now r).1.Within provider cycle := by
  unfold ProxyProfiles.accept
  cases r with
  | createProfile r =>
    dsimp only
    split
    · next id s' hok => exact h.createProfile hok (hfits .lost)
    · exact h
  | profileAction other id action confirmation =>
    dsimp only
    split <;> exact h
  | retireProfile other id confirmation =>
    refine attempt_induction (P := fun s' : ProxyProfiles => s'.Within provider cycle) h fun _ s' hok => ?_
    unfold retireProfile at hok
    simp only [bind_eq_ok, require_eq_ok, getRow_eq_ok, pure_eq_ok, exists_const,
      Prod.mk.injEq, true_and] at hok
    obtain ⟨-, -, -, -, -, -, -, rfl⟩ := hok
    apply h.updateProfile
    exact fun _ => ⟨rfl, rfl, fun h => h⟩
  | refreshProfiles other users =>
    apply h.rewrite
    exact fun r => keeps_refreshed now _ r
  | finalizeRetirements other locked =>
    dsimp only
    split <;> exact h
  | finalizeDrainingProfiles other locked =>
    dsimp only
    split <;> exact h
  | reservations rows => exact ⟨⟨h.tables.retirements, h.tables.profiles, h.tables.allocations,
      h.tables.retired, h.tables.allocated⟩, h.current, h.capacity⟩

theorem Within.act (now : Time) {active : ℕ} (answer : ProfileAnswer)
    (hread : ∃ p ∈ s.profiles, p.id = w.profile.id ∧ p.provider = w.provider)
    (hfits : ∀ bytes, w.action = .allocation bytes → w.provider = provider →
      w.allocation.isSome → s.FitsBeside provider fun cycle =>
        s.otherBytes provider cycle.cycleStart w.profile.id + bytes.toNat) :
    (s.act now w active answer).1.Within provider cycle := by
  unfold ProxyProfiles.act
  cases haction : w.action with
  | rotate mode =>
    cases mode with
    | drain =>
      dsimp only
      split
      · apply h.updateProfile
        exact fun _ => ⟨rfl, rfl, fun h => h⟩
      · cases answer with
        | ok _ generation =>
          apply h.updateProfile
          exact fun _ => ⟨rfl, rfl, fun h => h⟩
        | providerError _ _ => exact h
        | localError _ =>
          apply h.updateProfile
          exact fun _ => ⟨rfl, rfl, fun h => h⟩
    | blueGreen =>
      dsimp only
      split
      · split
        · next hok => exact h.beginRotation hok hread
        · exact h
      · exact h
  | disable =>
    apply h.updateProfile
    exact fun _ => ⟨rfl, rfl, fun h => h⟩
  | limit bytes =>
    dsimp only
    split
    · cases answer with
      | ok _ _ =>
        apply h.updateProfile
        exact fun _ => ⟨rfl, rfl, fun h => h⟩
      | providerError _ _ => exact h
      | localError _ => exact h
    · exact h
  | allocation bytes =>
    exact attempt_induction (P := fun s' : ProxyProfiles => s'.Within provider cycle) h
      fun _ s' hok => h.setAllocation hok (hfits bytes haction)

theorem Within.endRetirement
    (hf : ∀ x, (f x).id = x.id ∧ (f x).profileId = x.profileId ∧
      (f x).temporaryAllocationBytes = x.temporaryAllocationBytes ∧ (f x).inProgress = false)
    (id : Uuid) : (s.updateRetirement id f).Within provider cycle := by
  refine h.updateRetirement (fun x => ⟨(hf x).1, (hf x).2.1, (hf x).2.2.1⟩) fun x _ _ _ hafter => ?_
  rw [(hf x).2.2.2] at hafter
  exact absurd hafter (by decide)

theorem Within.drainRetirement
    (hcreating : s.retirementState id = some .creating)
    (hf : ∀ x, (f x).id = x.id ∧ (f x).profileId = x.profileId ∧
      (f x).temporaryAllocationBytes = x.temporaryAllocationBytes) :
    (s.updateRetirement id f).Within provider cycle := by
  refine h.updateRetirement hf fun x hx hid hbefore => ?_
  obtain ⟨y, hfind, hstate⟩ := Option.map_eq_some_iff.mp hcreating
  obtain ⟨hy, hyid⟩ := mem_of_find? hfind
  have heq : x = y := h.tables.retirements.eq_of_mem hx hy (hid.trans (beq_iff_eq.mp hyid).symm)
  rw [heq, ProfileRetirement.inProgress, hstate] at hbefore
  exact absurd hbefore (by decide)

/-- **The capacity after one step.** -/
theorem Within.run (hholds : s.Holds t) {reply : ProfileReply}
    (hfits : Fits provider s t reply) : (s.run t reply).1.Within provider cycle := by
  cases reply with
  | lost => exact h
  | answer now answer =>
    cases t with
    | requested r =>
      refine h.accept now fun reply => ?_
      cases r <;> exact hfits
    | creating other id limit =>
      cases answer with
      | ok subuser generation =>
        apply h.updateProfile
        exact fun _ => ⟨rfl, rfl, fun _ => rfl⟩
      | providerError code ambiguous =>
        cases ambiguous
        · exact h.dropPending id
        · exact h
      | localError subuser =>
        apply h.updateProfile
        exact fun _ => ⟨rfl, rfl, fun _ => rfl⟩
    | killing other => exact h.activateKillSwitch other
    | loaded w => exact h
    | counted w active =>
      unfold ProxyProfiles.run proceed
      dsimp only
      split
      · refine h.act now answer ?_ fun bytes haction => ?_
        · obtain ⟨p, hp, hid, hprovider, -⟩ := hholds.read w rfl
          exact ⟨p, hp, hid, hprovider⟩
        · obtain ⟨other, profile, allocation, action, confirmation⟩ := w
          obtain rfl : action = .allocation bytes := haction
          exact hfits
      · exact h
    | disabling id =>
      cases answer with
      | ok _ _ =>
        apply h.updateProfile
        exact fun _ => ⟨rfl, rfl, fun h => h⟩
      | providerError _ _ => exact h
      | localError _ => exact h
    | replacing other id retirementId minimum =>
      cases answer with
      | ok subuser generation =>
        apply Within.updateProfile
        · exact h.drainRetirement (hholds.creating retirementId rfl) fun _ => ⟨rfl, rfl, rfl⟩
        · exact fun _ => ⟨rfl, rfl, fun _ => rfl⟩
      | providerError code _ =>
        apply h.endRetirement
        exact fun _ => ⟨rfl, rfl, rfl, rfl⟩
      | localError _ =>
        apply h.endRetirement
        exact fun _ => ⟨rfl, rfl, rfl, rfl⟩
    | installFailed other id =>
      apply h.updateProfile
      exact fun _ => ⟨rfl, rfl, fun h => h⟩
    | finalizingRetirements other rows =>
      cases rows with
      | nil => exact h
      | cons row rest =>
        obtain ⟨killSwitch, hcycle⟩ := h.current
        apply h.updateRetirement
        · exact fun _ => ⟨rfl, rfl, rfl⟩
        · intro x hx hid hbefore _ howner
          exact hfits x hx hid hbefore (h.provider_eq ▸ howner) { cycle with killSwitch } hcycle
    | finalizing other row rest =>
      cases answer with
      | ok _ _ =>
        apply Within.updateProfile
        · apply h.endRetirement
          exact fun _ => ⟨rfl, rfl, rfl, rfl⟩
        · exact fun _ => ⟨rfl, rfl, fun h => h⟩
      | providerError code _ =>
        apply h.endRetirement
        exact fun _ => ⟨rfl, rfl, rfl, rfl⟩
      | localError _ => exact h
    | finalizeFailed other rest => exact h.activateKillSwitch other
    | finalizingProfiles other rows =>
      cases rows with
      | nil => exact h
      | cons row rest =>
        cases answer with
        | ok _ generation =>
          apply h.updateProfile
          exact keeps_finalized now _ generation
        | providerError _ _ =>
          apply h.updateProfile
          exact fun _ => ⟨rfl, rfl, fun h => h⟩
        | localError _ =>
          apply h.updateProfile
          exact fun _ => ⟨rfl, rfl, fun h => h⟩
    | drainFailed other rest => exact h.activateKillSwitch other

end

/-- Two requests do not create the same retirement. -/
def Apart (t u : ProfileTask) : Prop := ∀ id ∈ t.rotation, id ∉ u.rotation

theorem respects_capacity (provider : String) (cycle : CapacityCycle) :
    profileProgram.Respects (Within provider cycle) Holds Apart (fun _ => True)
      (Fits provider) := by
  refine ⟨fun t u htu id hu ht => htu id ht hu, fun s r _ _ => ?_, fun r u id hu hstart => ?_,
    fun s t reply hfits h hholds => h.run hholds hfits, fun s t reply _ h hholds t' ht' => ?_,
    fun s t reply _ h hholds u hu hapart => ⟨?_, fun t' ht' id hrotation hnext => ?_⟩⟩
  · refine ⟨fun id hid => ?_, fun x hx => ?_, fun w hw => ?_⟩
    · exact absurd hid (by simp [profileProgram, ProfileTask.rotation])
    · exact absurd hx (by simp [profileProgram, ProfileTask.rows])
    · exact absurd hw (by simp [profileProgram, ProfileTask.read])
  · exact absurd hstart (by simp [profileProgram, ProfileTask.rotation])
  · exact (run_leaves h.tables.retirements hholds reply t' ht').holds
  · have hspares := run_spares hholds reply
    refine ⟨fun id hid => ?_, fun x hx => ?_, fun w hw => ?_⟩
    · exact hspares.creating id (hu.creating id hid) (hapart id hid)
    · obtain ⟨state, hstate, hne⟩ := hu.drained x hx
      exact hspares.settled x.id state hstate hne
    · obtain ⟨p, hp, hid, hprovider, hresource⟩ := hu.read w hw
      obtain ⟨p', hp', hkeeps⟩ := hspares.profiles p hp hresource
      exact ⟨p', hp', hkeeps.id.trans hid, hkeeps.provider.trans hprovider,
        hkeeps.resource hresource⟩
  · have hfresh := (run_leaves h.tables.retirements hholds reply t' ht').fresh id hnext
    exact ne_freshKey_of_state (hu.creating id hrotation) hfresh

end Step

/-! ## The capacity of a run -/

/-- **The capacity of a cycle.**  In every run of requests that all add what fits, the allocations
of the active cycle, the temporary allocations of the retirements in progress and the unmanaged
allocation are within its operational bytes. -/
theorem capacity_kept {s : ProxyProfiles} (h : s.Referential) {provider : String}
    {cycle : CapacityCycle} (hcycle : s.activeCycle provider = some cycle)
    (hcapacity : s.committedBytes cycle ≤ cycle.operationalBytes)
    {turns : List (Turn ProfileRequest ProfileReply)}
    (hfits : Trace.Along profileProgram.step (Program.Meets (Fits provider)) ⟨s, []⟩ turns) :
    (profileProgram.after ⟨s, []⟩ turns).shared.allocatedBytes provider cycle.cycleStart +
      (profileProgram.after ⟨s, []⟩ turns).shared.temporaryBytesOf provider +
        cycle.unmanagedAllocationBytes ≤ cycle.operationalBytes := by
  have hstart : s.Within provider cycle := ⟨h, ⟨cycle.killSwitch, hcycle⟩, hcapacity⟩
  have hend := ((respects_capacity provider cycle).after (Program.Free.of_shared hstart)
    (fun _ _ => trivial) hfits).shared
  have hprovider := hend.provider_eq
  subst hprovider
  exact hend.capacity

instance (s : ProxyProfiles) (provider : String) (allocated : CapacityCycle → ℕ) :
    Decidable (s.FitsBeside provider allocated) :=
  inferInstanceAs (Decidable (∀ cycle ∈ s.activeCycle provider, _ → _))

instance (provider : String) (s : ProxyProfiles) :
    ∀ t reply, Decidable (Fits provider s t reply)
  | .requested (.createProfile _), _ => inferInstanceAs (Decidable (_ → FitsBeside _ _ _))
  | .counted ⟨_, _, _, .allocation _, _⟩ _, _ =>
    inferInstanceAs (Decidable (_ → _ → FitsBeside _ _ _))
  | .finalizingRetirements _ (row :: _), _ =>
    inferInstanceAs (Decidable (∀ x ∈ s.retirements, x.id = row.id → x.inProgress = false →
      s.belongsTo provider x.profileId → ∀ cycle ∈ s.activeCycle provider,
        s.committedBytes cycle + x.temporaryAllocationBytes ≤ cycle.operationalBytes))
  | .requested (.profileAction _ _ _ _), _ | .requested (.retireProfile _ _ _), _
  | .requested (.refreshProfiles _ _), _ | .requested (.finalizeRetirements _ _), _
  | .requested (.finalizeDrainingProfiles _ _), _ | .requested (.reservations _), _
  | .creating _ _ _, _ | .killing _, _ | .loaded _, _ | .counted ⟨_, _, _, .rotate _, _⟩ _, _
  | .counted ⟨_, _, _, .disable, _⟩ _, _ | .counted ⟨_, _, _, .limit _, _⟩ _, _ | .disabling _, _
  | .replacing _ _ _ _, _ | .installFailed _ _, _ | .finalizingRetirements _ [], _
  | .finalizing _ _ _, _ | .finalizeFailed _ _, _ | .finalizingProfiles _ _, _
  | .drainFailed _ _, _ => inferInstanceAs (Decidable True)

/-- A cycle of 1000 bytes: 100 are unmanaged, and a profile has 300. -/
def rotatableProfile : ProxyProfiles where
  cycles := [⟨"decodo", 0, 1000, 100, false⟩]
  profiles := [{
    id := 1, provider := "decodo", logicalName := "main", providerResourceId := some "user-1"
    providerTrafficLimitBytes := some 300, enabled := true, lifecycle := .enabled
    secretGeneration := 1, updatedAt := 0 }]
  allocations := [⟨"decodo", 0, 1, 300⟩]

theorem rotatableProfile_referential : rotatableProfile.Referential :=
  ⟨List.nodup_nil, List.nodup_singleton _, List.nodup_singleton _, by decide, by decide⟩

/-- What every call answers in the examples. -/
def answered : ProfileReply := .answer 5 (.ok ⟨"user-2", "active", some 100, true⟩ 2)

/-- The profile is rotated while another one is created. -/
def rotateAndCreate (allocatedBytes : ℤ) : List (Turn ProfileRequest ProfileReply) :=
  [.spawn (.profileAction "decodo" 1 (.rotate .blueGreen) "ROTATE main"), .resume 0 answered,
    .resume 0 answered, .resume 0 answered,
    .spawn (.createProfile ⟨"decodo", "second", allocatedBytes, 100, "CREATE second"⟩),
    .resume 1 answered]

/-- A new profile of 200 bytes fits beside the rotation. -/
theorem rotateAndCreate_fits :
    (profileProgram.after ⟨rotatableProfile, []⟩ (rotateAndCreate 200)).shared.allocatedBytes
        "decodo" 0 +
      (profileProgram.after ⟨rotatableProfile, []⟩ (rotateAndCreate 200)).shared.temporaryBytesOf
        "decodo" + 100 ≤ 1000 :=
  capacity_kept rotatableProfile_referential
    (show rotatableProfile.activeCycle "decodo" = some ⟨"decodo", 0, 1000, 100, false⟩ from rfl)
    (by decide) (by decide)

/-- A new profile of 500 bytes is created beside the rotation: 1200 of 1000 bytes are committed. -/
theorem rotateAndCreate_exceeds :
    rotatableProfile.Referential ∧
      rotatableProfile.activeCycle "decodo" = some ⟨"decodo", 0, 1000, 100, false⟩ ∧
      rotatableProfile.committedBytes ⟨"decodo", 0, 1000, 100, false⟩ ≤ 1000 ∧
      (profileProgram.after ⟨rotatableProfile, []⟩ (rotateAndCreate 500)).shared.allocatedBytes
        "decodo" 0 = 800 ∧
      (profileProgram.after ⟨rotatableProfile, []⟩ (rotateAndCreate 500)).shared.temporaryBytesOf
        "decodo" = 300 :=
  ⟨rotatableProfile_referential, by decide, by decide, by decide, by decide⟩

end ProxyProfiles

end CommerceCollector
