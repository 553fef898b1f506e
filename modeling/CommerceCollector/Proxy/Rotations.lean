import CommerceCollector.Proxy.Profiles

/-!
# The rows that suspended requests hold

A request that is suspended relies on the rows it has read or written: a rotation on the retirement
it is creating, a round of `finalize_retirements` on the retirements it has selected, an action on
its profile.  `Holds` says what it relies on, `Spares` what the step of any request leaves to the
others, and `Leaves` what is left of the request itself.
-/

namespace CommerceCollector

open Relational Transaction Tasks

/-! ## The rows that a suspended request holds -/

/-- The retirement that a rotation is creating. -/
def ProfileTask.rotation : ProfileTask → Option Uuid
  | .replacing _ _ retirementId _ => some retirementId
  | _ => none

/-- The retirements that a round of `finalize_retirements` has selected and not finished. -/
def ProfileTask.rows : ProfileTask → List ProfileRetirement
  | .finalizingRetirements _ rows => rows
  | .finalizing _ row rest => row :: rest
  | .finalizeFailed _ rest => rest
  | _ => []

/-- The action that has read its profile. -/
def ProfileTask.read : ProfileTask → Option LoadedAction
  | .loaded w => some w
  | .counted w _ => some w
  | _ => none

/-- A statement keeps the identity of a profile, and its provider resource once it has one. -/
structure ManagedProfile.Keeps (p p' : ManagedProfile) : Prop where
  id : p'.id = p.id
  provider : p'.provider = p.provider
  resource : p.providerResourceId.isSome → p'.providerResourceId.isSome

namespace ProxyProfiles

/-- The state of a retirement. -/
def retirementState (s : ProxyProfiles) (id : Uuid) : Option RetirementState :=
  (s.retirements.find? fun x => x.id == id).map ProfileRetirement.state

/-- The rows that a suspended request holds are as it needs them. -/
structure Holds (s : ProxyProfiles) (t : ProfileTask) : Prop where
  creating : ∀ id ∈ t.rotation, s.retirementState id = some .creating
  drained : ∀ x ∈ t.rows, ∃ state, s.retirementState x.id = some state ∧ state ≠ .creating
  read : ∀ w ∈ t.read, ∃ p ∈ s.profiles, p.id = w.profile.id ∧ p.provider = w.provider ∧
    p.providerResourceId.isSome

/-- What a step of a request leaves of the rows that other requests hold. -/
structure Spares (s : ProxyProfiles) (t : ProfileTask) (s' : ProxyProfiles) : Prop where
  profiles : ∀ p ∈ s.profiles, p.providerResourceId.isSome → ∃ p' ∈ s'.profiles, p.Keeps p'
  creating : ∀ id, s.retirementState id = some .creating → id ∉ t.rotation →
    s'.retirementState id = some .creating
  settled : ∀ id state, s.retirementState id = some state → state ≠ .creating →
    ∃ state', s'.retirementState id = some state' ∧ state' ≠ .creating

variable {w : LoadedAction}

section Spares

variable {s s' s'' : ProxyProfiles} {t : ProfileTask}

theorem Spares.of_rows (hprofiles : ∀ p ∈ s.profiles, p.providerResourceId.isSome →
    ∃ p' ∈ s'.profiles, p.Keeps p') (hretirements : s'.retirements = s.retirements) :
    Spares s t s' := by
  have hstate : s'.retirementState = s.retirementState := by
    funext id
    rw [retirementState, retirementState, hretirements]
  refine ⟨hprofiles, fun id hid _ => ?_, fun id state hid hne => ?_⟩
  · rw [hstate]
    exact hid
  · rw [hstate]
    exact ⟨state, hid, hne⟩

theorem Spares.of_same (hprofiles : s'.profiles = s.profiles)
    (hretirements : s'.retirements = s.retirements) : Spares s t s' :=
  .of_rows (fun p hp _ => ⟨p, hprofiles ▸ hp, rfl, rfl, id⟩) hretirements

theorem Spares.trans (h : Spares s t s') (h' : Spares s' t s'') : Spares s t s'' := by
  refine ⟨fun p hp hresource => ?_, fun id hid hother => ?_, fun id state hid hne => ?_⟩
  · obtain ⟨p', hp', hkeeps⟩ := h.profiles p hp hresource
    obtain ⟨p'', hp'', hkeeps'⟩ := h'.profiles p' hp' (hkeeps.resource hresource)
    exact ⟨p'', hp'', hkeeps'.id.trans hkeeps.id, hkeeps'.provider.trans hkeeps.provider,
      fun _ => hkeeps'.resource (hkeeps.resource hresource)⟩
  · exact h'.creating id (h.creating id hid hother) hother
  · obtain ⟨state', hid', hne'⟩ := h.settled id state hid hne
    exact h'.settled id state' hid' hne'

theorem spares_rewrite {p : ManagedProfile → Bool} {f : ManagedProfile → ManagedProfile}
    (hf : ∀ r : ManagedProfile, r.Keeps (f r)) (hs : s' = { s with profiles := update p f s.profiles }) :
    Spares s t s' := by
  subst hs
  refine .of_rows (fun r hr _ => ⟨_, mem_update.mpr ⟨r, hr, rfl⟩, ?_⟩) rfl
  split
  · exact hf r
  · exact ⟨rfl, rfl, id⟩

variable {state : RetirementState} {f : ProfileRetirement → ProfileRetirement}

theorem retirementState_update (hf : ∀ x, (f x).id = x.id ∧ (f x).state = state) (s : ProxyProfiles)
    (id k : Uuid) :
    (s.updateRetirement id f).retirementState k =
      (s.retirementState k).map fun old => if k = id then state else old := by
  have hrow : ((s.updateRetirement id f).retirements.find? fun x => x.id == k) =
      (s.retirements.find? fun x => x.id == k).map fun x => if x.id == id then f x else x :=
    find?_update (fun x => (hf x).1) _ _ _
  unfold retirementState
  rw [hrow, Option.map_map, Option.map_map]
  cases hfind : s.retirements.find? fun x => x.id == k with
  | none => rfl
  | some x =>
    obtain rfl : x.id = k := beq_iff_eq.mp (mem_of_find? hfind).2
    by_cases hid : x.id = id <;> simp [hid, hf]

variable {id : Uuid}

theorem spares_updateRetirement (hf : ∀ x, (f x).id = x.id ∧ (f x).state = state)
    (hstate : state ≠ .creating) (hid : s.retirementState id = some .creating → id ∈ t.rotation) :
    Spares s t (s.updateRetirement id f) := by
  refine ⟨fun p hp _ => ⟨p, hp, rfl, rfl, fun h => h⟩, fun k hk hother => ?_,
    fun k old hk hne => ?_⟩
  · rw [retirementState_update hf, hk, Option.map_some, if_neg]
    rintro rfl
    exact hother (hid hk)
  · rw [retirementState_update hf, hk, Option.map_some]
    refine ⟨_, rfl, ?_⟩
    split
    · exact hstate
    · exact hne

theorem ne_freshKey_of_state (h : s.retirementState id = some state) :
    id ≠ freshKey ProfileRetirement.id s.retirements := by
  obtain ⟨x, hfind, -⟩ := Option.map_eq_some_iff.mp h
  obtain ⟨hx, hid⟩ := mem_of_find? hfind
  have hlt : x.id < freshKey ProfileRetirement.id s.retirements := key_lt_freshKey hx
  rw [← beq_iff_eq.mp hid]
  exact hlt.ne

theorem retirementState_append {row : ProfileRetirement}
    (hs : s'.retirements = s.retirements ++ [row]) (h : s.retirementState id = some state) :
    s'.retirementState id = some state := by
  obtain ⟨x, hfind, hstate⟩ := Option.map_eq_some_iff.mp h
  rw [retirementState, hs, List.find?_append, hfind]
  exact congrArg some hstate

theorem beginRotation_row {now : Time} {minimum : ℕ}
    (hok : s.beginRotation now w = .ok ((id, minimum), s')) :
    ∃ row cycle, s' = { s with retirements := s.retirements ++ [row] } ∧ row.id = id ∧
      id = freshKey ProfileRetirement.id s.retirements ∧ row.state = .creating ∧
      row.profileId = w.profile.id ∧ row.temporaryAllocationBytes = minimum ∧
      (∃ q ∈ s.profiles, q.id = w.profile.id) ∧ s.activeCycle w.provider = some cycle ∧
      cycle.unmanagedAllocationBytes + s.allocatedBytes w.provider cycle.cycleStart +
        s.temporaryBytes + minimum ≤ cycle.operationalBytes := by
  unfold ProxyProfiles.beginRotation at hok
  simp only [bind_eq_ok, require_eq_ok, getRow_eq_ok, pure_eq_ok, exists_const,
    Prod.mk.injEq] at hok
  obtain ⟨cycle, hcycle, hroom, -, hexists, ⟨rfl, rfl⟩, rfl⟩ := hok
  obtain ⟨q, hq, hid⟩ := List.any_eq_true.mp hexists
  exact ⟨_, cycle, rfl, rfl, rfl, rfl, rfl, rfl, ⟨q, hq, beq_iff_eq.mp hid⟩, hcycle, hroom⟩

theorem createProfile_rows {now : Time} {r : CreateProfile}
    (hok : s.createProfile now r = .ok (id, s')) :
    ∃ row cycle, s' = { s with
        profiles := s.profiles ++ [row]
        allocations := s.allocations ++
          [⟨r.provider, cycle.cycleStart, id, r.allocatedBytes.toNat⟩] } ∧
      row.id = id ∧ id = freshKey ManagedProfile.id s.profiles ∧ row.provider = r.provider ∧
      s.activeCycle r.provider = some cycle ∧
      s.allocatedBytes r.provider cycle.cycleStart + r.allocatedBytes.toNat +
        cycle.unmanagedAllocationBytes ≤ cycle.operationalBytes := by
  unfold ProxyProfiles.createProfile at hok
  simp only [bind_eq_ok, require_eq_ok, getRow_eq_ok, pure_eq_ok, exists_const,
    Prod.mk.injEq] at hok
  obtain ⟨-, -, -, -, -, -, cycle, hcycle, hroom, -, -, rfl, rfl⟩ := hok
  exact ⟨_, cycle, rfl, rfl, rfl, rfl, hcycle, hroom⟩

theorem loadProfile_ok {provider confirmation : String} {action : ProfileAction}
    (hok : s.loadProfile provider id action confirmation = .ok w) :
    w.profile ∈ s.profiles ∧ w.profile.provider = w.provider ∧
      w.profile.providerResourceId.isSome := by
  unfold loadProfile at hok
  simp only [bind_eq_ok, require_eq_ok, getRow_eq_ok, pure_eq_ok, exists_const] at hok
  obtain ⟨-, -, -, profile, hprofile, ⟨hprovider, hresource⟩, rfl⟩ := hok
  refine ⟨(mem_of_find? hprofile).1, hprovider, ?_⟩
  obtain ⟨resource, hresource, -⟩ := (Option.any_eq_true _ _).mp hresource
  rw [hresource]
  rfl

theorem setAllocation_rows {active : ℕ} {bytes : ℤ} {u : Unit}
    (hok : s.setAllocation w active bytes = .ok (u, s')) :
    ∃ cycle, s' = { s with
        allocations := update (sets w) (fun a => { a with allocatedBytes := bytes.toNat })
          s.allocations } ∧
      s.activeCycle w.provider = some cycle ∧
      s.otherBytes w.provider cycle.cycleStart w.profile.id + cycle.unmanagedAllocationBytes +
        bytes.toNat ≤ cycle.operationalBytes := by
  unfold ProxyProfiles.setAllocation at hok
  simp only [bind_eq_ok, require_eq_ok, getRow_eq_ok, pure_eq_ok, exists_const,
    Prod.mk.injEq, true_and] at hok
  obtain ⟨-, -, cycle, hcycle, hroom, rfl⟩ := hok
  exact ⟨cycle, rfl, hcycle, hroom⟩

/-! ## One step and the rows of the others -/

theorem spares_updateProfile {f : ManagedProfile → ManagedProfile}
    (hf : ∀ r : ManagedProfile, r.Keeps (f r)) (id : Uuid) : Spares s t (s.updateProfile id f) :=
  spares_rewrite hf rfl

theorem spares_dropPending (id : Uuid) : Spares s t (s.dropPending id) := by
  unfold dropPending
  dsimp only
  split
  · exact .of_same rfl rfl
  · refine .of_rows (fun p hp hresource => ⟨p, List.mem_filter.mpr ⟨hp, ?_⟩, rfl, rfl, fun h => h⟩)
      rfl
    cases hsome : p.providerResourceId with
    | none => exact absurd hresource (by simp [hsome])
    | some resource => simp

theorem spares_updateBoth {g : ManagedProfile → ManagedProfile} {id k : Uuid}
    (hf : ∀ x, (f x).id = x.id ∧ (f x).state = state) (hstate : state ≠ .creating)
    (hid : s.retirementState id = some .creating → id ∈ t.rotation)
    (hg : ∀ r : ManagedProfile, r.Keeps (g r)) :
    Spares s t ((s.updateRetirement id f).updateProfile k g) :=
  (spares_updateRetirement hf hstate hid).trans (spares_updateProfile hg k)

/-- The statement that finishes a drain keeps the identity of the profile. -/
theorem keeps_finalized (now : Time) (action : Option PendingAction) (generation : ℕ)
    (p : ManagedProfile) : p.Keeps (p.finalized now action generation) := by
  rcases action with - | action
  · exact ⟨rfl, rfl, fun h => h⟩
  · cases action <;> exact ⟨rfl, rfl, fun h => h⟩

theorem keeps_refreshed (now : Time) (known : Option Subuser) (p : ManagedProfile) :
    p.Keeps (known.elim p fun user => p.refreshed now user) := by
  cases known <;> exact ⟨rfl, rfl, fun h => h⟩

theorem act_spares (now : Time) (w : LoadedAction) (active : ℕ) (answer : ProfileAnswer) :
    Spares s t (s.act now w active answer).1 := by
  unfold act
  cases w.action with
  | rotate mode =>
    cases mode with
    | drain =>
      dsimp only
      split
      · apply spares_updateProfile
        exact fun _ => ⟨rfl, rfl, fun h => h⟩
      · cases answer with
        | ok _ generation =>
          apply spares_updateProfile
          exact fun _ => ⟨rfl, rfl, fun h => h⟩
        | providerError _ _ => exact .of_same rfl rfl
        | localError _ =>
          apply spares_updateProfile
          exact fun _ => ⟨rfl, rfl, fun h => h⟩
    | blueGreen =>
      dsimp only
      split
      · split
        · next id minimum s' hok =>
          obtain ⟨row, -, rfl, -, -, -⟩ := beginRotation_row hok
          refine ⟨fun p hp _ => ⟨p, hp, rfl, rfl, fun h => h⟩, fun k hk _ => ?_,
            fun k state hk hne => ⟨state, ?_, hne⟩⟩
          · exact retirementState_append rfl hk
          · exact retirementState_append rfl hk
        · exact .of_same rfl rfl
      · exact .of_same rfl rfl
  | disable =>
    apply spares_updateProfile
    exact fun _ => ⟨rfl, rfl, fun h => h⟩
  | limit bytes =>
    dsimp only
    split
    · cases answer with
      | ok _ _ =>
        apply spares_updateProfile
        exact fun _ => ⟨rfl, rfl, fun h => h⟩
      | providerError _ _ => exact .of_same rfl rfl
      | localError _ => exact .of_same rfl rfl
    · exact .of_same rfl rfl
  | allocation bytes =>
    refine attempt_induction (P := fun s' => Spares s t s') (.of_same rfl rfl) fun _ s' hok => ?_
    obtain ⟨cycle, rfl, -⟩ := setAllocation_rows hok
    exact .of_same rfl rfl

theorem accept_spares (now : Time) (r : ProfileRequest) : Spares s t (s.accept now r).1 := by
  unfold accept
  cases r with
  | createProfile r =>
    dsimp only
    split
    · next id s' hok =>
      obtain ⟨row, cycle, rfl, -⟩ := createProfile_rows hok
      exact .of_rows (fun p hp _ => ⟨p, List.mem_append_left _ hp, rfl, rfl, fun h => h⟩) rfl
    · exact .of_same rfl rfl
  | profileAction provider id action confirmation =>
    dsimp only
    split <;> exact .of_same rfl rfl
  | retireProfile provider id confirmation =>
    refine attempt_induction (P := fun s' => Spares s t s') (.of_same rfl rfl) fun _ s' hok => ?_
    unfold retireProfile at hok
    simp only [bind_eq_ok, require_eq_ok, getRow_eq_ok, pure_eq_ok, exists_const,
      Prod.mk.injEq, true_and] at hok
    obtain ⟨-, -, -, -, -, -, -, rfl⟩ := hok
    apply spares_updateProfile
    exact fun _ => ⟨rfl, rfl, fun h => h⟩
  | refreshProfiles provider users =>
    exact spares_rewrite (fun r => keeps_refreshed now _ r) rfl
  | finalizeRetirements provider locked =>
    dsimp only
    split <;> exact .of_same rfl rfl
  | finalizeDrainingProfiles provider locked =>
    dsimp only
    split <;> exact .of_same rfl rfl
  | reservations rows => exact .of_same rfl rfl

/-- **What a step leaves to the others.** -/
theorem run_spares (h : s.Holds t) (reply : ProfileReply) : Spares s t (s.run t reply).1 := by
  cases reply with
  | lost => exact .of_same rfl rfl
  | answer now answer =>
    cases t with
    | requested r => exact accept_spares now r
    | creating provider id limit =>
      cases answer with
      | ok subuser generation =>
        apply spares_updateProfile
        exact fun _ => ⟨rfl, rfl, fun _ => rfl⟩
      | providerError code ambiguous =>
        cases ambiguous
        · exact spares_dropPending id
        · exact .of_same rfl rfl
      | localError subuser =>
        apply spares_updateProfile
        exact fun _ => ⟨rfl, rfl, fun _ => rfl⟩
    | killing provider => exact .of_same rfl rfl
    | loaded w => exact .of_same rfl rfl
    | counted w active =>
      unfold run proceed
      dsimp only
      split
      · exact act_spares now w active answer
      · exact .of_same rfl rfl
    | disabling id =>
      cases answer with
      | ok _ _ =>
        apply spares_updateProfile
        exact fun _ => ⟨rfl, rfl, fun h => h⟩
      | providerError _ _ => exact .of_same rfl rfl
      | localError _ => exact .of_same rfl rfl
    | replacing provider id retirementId minimum =>
      cases answer with
      | ok subuser generation =>
        apply spares_updateBoth
        · exact fun _ => ⟨rfl, rfl⟩
        · decide
        · exact fun _ => rfl
        · exact fun _ => ⟨rfl, rfl, fun _ => rfl⟩
      | providerError code _ =>
        apply spares_updateRetirement
        · exact fun _ => ⟨rfl, rfl⟩
        · decide
        · exact fun _ => rfl
      | localError _ =>
        apply spares_updateRetirement
        · exact fun _ => ⟨rfl, rfl⟩
        · decide
        · exact fun _ => rfl
    | installFailed provider id =>
      apply spares_updateProfile
      exact fun _ => ⟨rfl, rfl, fun h => h⟩
    | finalizingRetirements provider rows =>
      cases rows with
      | nil => exact .of_same rfl rfl
      | cons row rest =>
        obtain ⟨state, hstate, hne⟩ := h.drained row (by simp [ProfileTask.rows])
        apply spares_updateRetirement
        · exact fun _ => ⟨rfl, rfl⟩
        · decide
        · exact fun hcreating => absurd (Option.some.inj (hstate.symm.trans hcreating)) hne
    | finalizing provider row rest =>
      obtain ⟨state, hstate, hne⟩ := h.drained row (by simp [ProfileTask.rows])
      have hother : ∀ {t : ProfileTask}, s.retirementState row.id = some .creating →
          row.id ∈ t.rotation :=
        fun hcreating => absurd (Option.some.inj (hstate.symm.trans hcreating)) hne
      cases answer with
      | ok _ _ =>
        apply spares_updateBoth
        · exact fun _ => ⟨rfl, rfl⟩
        · decide
        · exact hother
        · exact fun _ => ⟨rfl, rfl, fun h => h⟩
      | providerError code _ =>
        apply spares_updateRetirement
        · exact fun _ => ⟨rfl, rfl⟩
        · decide
        · exact hother
      | localError _ => exact .of_same rfl rfl
    | finalizeFailed provider rest => exact .of_same rfl rfl
    | finalizingProfiles provider rows =>
      cases rows with
      | nil => exact .of_same rfl rfl
      | cons row rest =>
        cases answer with
        | ok _ generation =>
          apply spares_updateProfile
          exact keeps_finalized now _ generation
        | providerError _ _ =>
          apply spares_updateProfile
          exact fun _ => ⟨rfl, rfl, fun h => h⟩
        | localError _ =>
          apply spares_updateProfile
          exact fun _ => ⟨rfl, rfl, fun h => h⟩
    | drainFailed provider rest => exact .of_same rfl rfl

end Spares

/-! ## What is left of a request -/

/-- The rows of what is left of a request are as it needs them, and a rotation it begins is new. -/
structure Leaves (s s' : ProxyProfiles) (t' : ProfileTask) : Prop where
  holds : s'.Holds t'
  fresh : ∀ id ∈ t'.rotation, id = freshKey ProfileRetirement.id s.retirements

section Leaves

variable {s s' : ProxyProfiles} {t t' : ProfileTask}

theorem leaves_idle (hrotation : t'.rotation = none) (hrows : t'.rows = [])
    (hread : t'.read = none) : Leaves s s' t' := by
  refine ⟨⟨?_, ?_, ?_⟩, ?_⟩
  · simp [hrotation]
  · simp [hrows]
  · simp [hread]
  · simp [hrotation]

theorem leaves_rows (h : s.Holds t) (hspares : Spares s t s') (hrotation : t'.rotation = none)
    (hread : t'.read = none) (hrows : ∀ x ∈ t'.rows, x ∈ t.rows) : Leaves s s' t' := by
  refine ⟨⟨?_, fun x hx => ?_, ?_⟩, ?_⟩
  · simp [hrotation]
  · obtain ⟨state, hstate, hne⟩ := h.drained x (hrows x hx)
    exact hspares.settled x.id state hstate hne
  · simp [hread]
  · simp [hrotation]

theorem leaves_read (hrotation : t'.rotation = none) (hrows : t'.rows = [])
    (hread : t'.read = some w) (h : ∃ p ∈ s'.profiles, p.id = w.profile.id ∧
      p.provider = w.provider ∧ p.providerResourceId.isSome) : Leaves s s' t' := by
  refine ⟨⟨?_, ?_, fun v hv => ?_⟩, ?_⟩
  · simp [hrotation]
  · simp [hrows]
  · rw [hread] at hv
    rw [← Option.some.inj hv]
    exact h
  · simp [hrotation]

theorem accept_leaves (hkeyed : Keyed ProfileRetirement.id s.retirements) (now : Time)
    (r : ProfileRequest) : ∀ t' ∈ (s.accept now r).2, Leaves s (s.accept now r).1 t' := by
  intro t' ht'
  unfold accept at ht' ⊢
  cases r with
  | createProfile r =>
    dsimp only at ht' ⊢
    split at ht'
    · obtain rfl := Option.some.inj ht'
      exact leaves_idle rfl rfl rfl
    · exact absurd ht' (by simp)
  | profileAction provider id action confirmation =>
    dsimp only at ht' ⊢
    split at ht'
    · next w hok =>
      obtain rfl := Option.some.inj ht'
      obtain ⟨hmem, hprovider, hresource⟩ := loadProfile_ok hok
      exact leaves_read rfl rfl rfl ⟨w.profile, hmem, rfl, hprovider, hresource⟩
    · exact absurd ht' (by simp)
  | retireProfile provider id confirmation => exact absurd ht' (by simp)
  | refreshProfiles provider users => exact absurd ht' (by simp)
  | finalizeRetirements provider locked =>
    dsimp only at ht' ⊢
    split at ht'
    · obtain rfl := Option.some.inj ht'
      refine ⟨⟨by simp [ProfileTask.rotation], fun x hx => ?_, by simp [ProfileTask.read]⟩,
        by simp [ProfileTask.rotation]⟩
      have hselected := List.mem_of_mem_take (show x ∈ s.drainedRetirements provider locked from hx)
      rw [List.mem_insertionSort, List.mem_filter] at hselected
      simp only [Bool.and_eq_true, beq_iff_eq] at hselected
      have hrow : s.retirements.find? (fun y => y.id == x.id) = some x :=
        hkeyed.find?_eq_some hselected.1
      refine ⟨.draining, ?_, by decide⟩
      split
      · unfold retirementState
        rw [hrow, Option.map_some, hselected.2.1.1.2]
      · unfold retirementState
        rw [hrow, Option.map_some, hselected.2.1.1.2]
    · exact absurd ht' (by simp)
  | finalizeDrainingProfiles provider locked =>
    dsimp only at ht' ⊢
    split at ht'
    · obtain rfl := Option.some.inj ht'
      exact leaves_idle rfl rfl rfl
    · exact absurd ht' (by simp)
  | reservations rows => exact absurd ht' (by simp)

theorem act_leaves (now : Time) (w : LoadedAction) (active : ℕ) (answer : ProfileAnswer) :
    ∀ t' ∈ (s.act now w active answer).2, Leaves s (s.act now w active answer).1 t' := by
  intro t' ht'
  unfold act at ht' ⊢
  cases haction : w.action with
  | rotate mode =>
    cases mode with
    | drain =>
      simp only [haction] at ht' ⊢
      split at ht'
      · exact absurd ht' (by simp)
      · cases answer with
        | ok _ _ => exact absurd ht' (by simp)
        | providerError _ _ => exact absurd ht' (by simp)
        | localError _ =>
          obtain rfl := Option.some.inj ht'
          exact leaves_idle rfl rfl rfl
    | blueGreen =>
      simp only [haction] at ht' ⊢
      split at ht'
      · next hspec =>
        rw [if_pos hspec]
        split at ht'
        · next id minimum s' hok =>
          obtain rfl := Option.some.inj ht'
          obtain ⟨row, -, rfl, hid, hfresh, hstate, -⟩ := beginRotation_row hok
          refine ⟨⟨fun k hk => ?_, by simp [ProfileTask.rows], by simp [ProfileTask.read]⟩,
            fun k hk => ?_⟩
          · obtain rfl := Option.some.inj hk
            have hnone : s.retirements.find? (fun x => x.id == id) = none := by
              refine List.find?_eq_none.mpr fun x hx heq => ?_
              have hlt : x.id < freshKey ProfileRetirement.id s.retirements := key_lt_freshKey hx
              rw [beq_iff_eq.mp heq, hfresh] at hlt
              exact absurd hlt (lt_irrefl _)
            unfold retirementState
            dsimp only
            rw [List.find?_append, hnone]
            simp [hid, hstate]
          · exact (Option.some.inj hk).symm.trans hfresh
        · exact absurd ht' (by simp)
      · exact absurd ht' (by simp)
  | disable =>
    simp only [haction] at ht' ⊢
    split at ht'
    · exact absurd ht' (by simp)
    · obtain rfl := Option.some.inj ht'
      exact leaves_idle rfl rfl rfl
  | limit bytes =>
    simp only [haction] at ht' ⊢
    split at ht'
    · cases answer <;> exact absurd ht' (by simp)
    · exact absurd ht' (by simp)
  | allocation bytes =>
    simp only [haction] at ht'
    exact absurd ht' (by simp)

/-- **What is left of a request.** -/
theorem run_leaves (hkeyed : Keyed ProfileRetirement.id s.retirements) (h : s.Holds t)
    (reply : ProfileReply) : ∀ t' ∈ (s.run t reply).2, Leaves s (s.run t reply).1 t' := by
  have hspares := run_spares h reply
  intro t' ht'
  cases reply with
  | lost => exact absurd ht' (by simp [run])
  | answer now answer =>
    cases t with
    | requested r => exact accept_leaves hkeyed now r t' ht'
    | creating provider id limit =>
      cases answer with
      | ok _ _ => exact absurd ht' (by simp [run, proceed])
      | providerError _ _ => exact absurd ht' (by simp [run, proceed])
      | localError _ =>
        obtain rfl := Option.some.inj ht'
        exact leaves_idle rfl rfl rfl
    | killing provider => exact absurd ht' (by simp [run, proceed])
    | loaded w =>
      obtain rfl := Option.some.inj ht'
      exact leaves_read rfl rfl rfl (h.read w rfl)
    | counted w active =>
      unfold run proceed at ht' ⊢
      dsimp only at ht' ⊢
      split at ht'
      · next hconfirmed =>
        rw [if_pos hconfirmed]
        exact act_leaves now w active answer t' ht'
      · exact absurd ht' (by simp)
    | disabling id => cases answer <;> exact absurd ht' (by simp [run, proceed])
    | replacing provider id retirementId minimum =>
      cases answer with
      | ok _ _ => exact absurd ht' (by simp [run, proceed])
      | providerError _ _ => exact absurd ht' (by simp [run, proceed])
      | localError _ =>
        obtain rfl := Option.some.inj ht'
        exact leaves_idle rfl rfl rfl
    | installFailed provider id =>
      obtain rfl := Option.some.inj ht'
      exact leaves_idle rfl rfl rfl
    | finalizingRetirements provider rows =>
      cases rows with
      | nil => exact absurd ht' (by simp [run, proceed])
      | cons row rest =>
        obtain rfl := Option.some.inj ht'
        exact leaves_rows h hspares rfl rfl fun x hx => hx
    | finalizing provider row rest =>
      cases answer with
      | ok _ _ =>
        obtain rfl := Option.some.inj ht'
        exact leaves_rows h hspares rfl rfl fun x hx => List.mem_cons_of_mem _ hx
      | providerError _ _ =>
        obtain rfl := Option.some.inj ht'
        exact leaves_rows h hspares rfl rfl fun x hx => List.mem_cons_of_mem _ hx
      | localError _ => exact absurd ht' (by simp [run, proceed])
    | finalizeFailed provider rest =>
      obtain rfl := Option.some.inj ht'
      exact leaves_rows h hspares rfl rfl fun x hx => hx
    | finalizingProfiles provider rows =>
      cases rows with
      | nil => exact absurd ht' (by simp [run, proceed])
      | cons row rest =>
        cases answer <;>
          obtain rfl := Option.some.inj ht' <;> exact leaves_idle rfl rfl rfl
    | drainFailed provider rest =>
      obtain rfl := Option.some.inj ht'
      exact leaves_idle rfl rfl rfl

end Leaves

end ProxyProfiles

end CommerceCollector
