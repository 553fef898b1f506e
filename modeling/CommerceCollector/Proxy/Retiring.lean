import CommerceCollector.Proxy.Profiles

/-!
# A profile that is being retired

`retire_profile` drains a profile for good, and only `finalize_draining_profiles` should end the
drain.  But the other statements on a profile do not look at its lifecycle: an action that is
accepted later, or a request that has read the profile earlier, enables it again, drains it for
another purpose or marks a retired profile as failed.  The retirement is irreversible in every run
without such a statement (`retirement_kept`).
-/

namespace CommerceCollector

open Relational Transaction Tasks

/-- A profile that is being retired, or is retired. -/
structure ManagedProfile.Retiring (p : ManagedProfile) : Prop where
  off : p.enabled = false
  phase : p.lifecycle = .retired ∧ p.retiredAt.isSome ∨
    p.pendingAction = some .retire ∧
      (p.lifecycle = .draining ∨ p.lifecycle = .providerChangedLocalFailed)

/-- A statement leaves a profile that is being retired on its way, and a retired one retired. -/
structure ManagedProfile.Onward (p p' : ManagedProfile) : Prop where
  retiring : p'.Retiring
  retired : p.lifecycle = .retired → p'.lifecycle = .retired

namespace ProxyProfiles

/-- The profile is not retired yet. -/
def NotRetired (s : ProxyProfiles) (id : Uuid) : Prop :=
  ∀ p ∈ s.profile id, p.lifecycle ≠ .retired

/-- The statements of a confirmed action that turn a profile back from its retirement are not run:
the drain for a rotation or to disable it, a completed rotation, and a failed one of a retired
profile. -/
def HarmlessAction (id : Uuid) (s : ProxyProfiles) (active : ℕ) :
    ProfileAction → ProfileAnswer → Prop
  | .rotate .drain, .ok _ _ => False
  | .rotate .drain, .providerError _ _ => active = 0
  | .rotate .drain, .localError _ => active = 0 ∧ s.NotRetired id
  | .disable, _ => False
  | _, _ => True

/-- The step does not turn the profile back from its retirement: it completes no creation, rotation
or disabling of the profile, starts no other drain of it, and does not mark it as failed once it is
retired. -/
def Harmless (id : Uuid) (s : ProxyProfiles) : ProfileTask → ProfileReply → Prop
  | .creating _ k _, .answer _ (.ok _ _) => k ≠ id
  | .creating _ k _, .answer _ (.localError _) => k = id → s.NotRetired id
  | .counted w active, .answer _ a =>
    w.profile.id = id → w.confirmation = w.action.confirmation w.profile.logicalName →
      s.HarmlessAction id active w.action a
  | .disabling k, .answer _ (.ok _ _) => k ≠ id
  | .replacing _ k _ _, .answer _ (.ok _ _) => k ≠ id
  | .installFailed _ k, .answer _ _ => k = id → s.NotRetired id
  | .finalizingProfiles _ (row :: _), .answer _ (.ok _ _) =>
    row.id = id → row.pendingAction = some .retire
  | .finalizingProfiles _ (row :: _), .answer _ _ => row.id = id → s.NotRetired id
  | _, _ => True

section Onward

variable {s s' : ProxyProfiles} {id : Uuid} {row : ManagedProfile}

theorem onward_refl (h : row.Retiring) : row.Onward row := ⟨h, fun hretired => hretired⟩

/-- A step leaves the row of the profile on its way. -/
def GoesOn (id : Uuid) (row : ManagedProfile) (s' : ProxyProfiles) : Prop :=
  ∃ row', s'.profile id = some row' ∧ row.Onward row'

theorem goesOn_same (hrow : s.profile id = some row) (h : row.Retiring)
    (hsame : s'.profiles = s.profiles) : GoesOn id row s' := by
  refine ⟨row, ?_, onward_refl h⟩
  rw [profile, hsame]
  exact hrow

theorem goesOn_rewrite (hrow : s.profile id = some row) (h : row.Retiring)
    {p : ManagedProfile → Bool} {f : ManagedProfile → ManagedProfile}
    (hf : ∀ r, (f r).id = r.id) (hs : s'.profiles = update p f s.profiles)
    (hown : p row = true → row.Onward (f row)) : GoesOn id row s' := by
  have hafter : s'.profile id = (s.profile id).map fun r => if p r then f r else r := by
    rw [profile, hs]
    exact find?_update hf _ _ _
  rw [hrow, Option.map_some] at hafter
  refine ⟨_, hafter, ?_⟩
  split
  · next hp => exact hown hp
  · exact onward_refl h

theorem goesOn_update (hrow : s.profile id = some row) (h : row.Retiring)
    {f : ManagedProfile → ManagedProfile} {k : Uuid} (hf : ∀ r, (f r).id = r.id)
    (hown : k = id → row.Onward (f row)) : GoesOn id row (s.updateProfile k f) := by
  apply goesOn_rewrite hrow h hf rfl
  intro hk
  have hid : row.id = id := beq_iff_eq.mp (mem_of_find? hrow).2
  exact hown ((beq_iff_eq.mp hk).symm.trans hid)

theorem onward_localFailed (h : row.Retiring) (hnot : row.lifecycle ≠ .retired) {p : ManagedProfile}
    (hp : p.enabled = false ∧ p.lifecycle = .providerChangedLocalFailed ∧
      p.pendingAction = row.pendingAction) : row.Onward p := by
  constructor
  · refine ⟨hp.1, Or.inr ?_⟩
    rcases h.phase with hretired | hphase
    · exact absurd hretired.1 hnot
    · exact ⟨hp.2.2.trans hphase.1, Or.inr hp.2.1⟩
  · exact fun hretired => absurd hretired hnot

/-- A statement that keeps the phase of the profile and does not enable it. -/
theorem onward_phase (h : row.Retiring) {p : ManagedProfile}
    (hp : (row.enabled = false → p.enabled = false) ∧ p.lifecycle = row.lifecycle ∧
      p.pendingAction = row.pendingAction ∧ p.retiredAt = row.retiredAt) : row.Onward p := by
  constructor
  · refine ⟨hp.1 h.off, ?_⟩
    rw [hp.2.1, hp.2.2.1, hp.2.2.2]
    exact h.phase
  · intro hretired
    rw [hp.2.1, hretired]

theorem onward_refreshed (h : row.Retiring) (now : Time) (known : Option Subuser) :
    row.Onward (known.elim row fun user => row.refreshed now user) := by
  cases known with
  | none => exact onward_refl h
  | some user =>
    apply onward_phase h
    refine ⟨fun hoff => ?_, rfl, rfl, rfl⟩
    simp [ManagedProfile.refreshed, hoff]

theorem onward_finalized (now : Time) (generation : ℕ) :
    row.Onward (row.finalized now (some .retire) generation) :=
  ⟨⟨rfl, Or.inl ⟨rfl, rfl⟩⟩, fun _ => rfl⟩

section

variable (hrow : s.profile id = some row)

include hrow

theorem goesOn_dropPending (h : row.Retiring) (k : Uuid) :
    GoesOn id row (s.dropPending k) := by
  have hpending : row.lifecycle ≠ .pending := by
    rcases h.phase with hretired | ⟨-, hdraining | hfailed⟩
    · rw [hretired.1]
      decide
    · rw [hdraining]
      decide
    · rw [hfailed]
      decide
  unfold dropPending
  dsimp only
  split
  · exact goesOn_same hrow h rfl
  · refine ⟨row, ?_, onward_refl h⟩
    obtain ⟨hid, before, rest, hsplit, hbefore⟩ := List.find?_eq_some_iff_append.mp hrow
    unfold profile
    dsimp only
    rw [hsplit, List.filter_append, List.filter_cons_of_pos (by simp [hpending])]
    refine List.find?_eq_some_iff_append.mpr ⟨hid, _, _, rfl, fun p hp => ?_⟩
    exact hbefore p (List.mem_filter.mp hp).1

/-- A retirement is committed again only while the profile is not retired. -/
theorem goesOn_retire (h : row.Retiring) {now : Time}
    {provider : String} {k : Uuid} {confirmation : String} {u : Unit}
    (hok : s.retireProfile now provider k confirmation = .ok (u, s')) : GoesOn id row s' := by
  unfold retireProfile at hok
  simp only [bind_eq_ok, require_eq_ok, getRow_eq_ok, pure_eq_ok, exists_const,
    Prod.mk.injEq, true_and] at hok
  obtain ⟨-, -, -, p, hp, ⟨-, hretiredAt⟩, -, rfl⟩ := hok
  apply goesOn_update hrow h
  · exact fun _ => rfl
  · rintro rfl
    obtain rfl : row = p := Option.some.inj (hrow.symm.trans hp)
    refine ⟨⟨rfl, Or.inr ⟨rfl, Or.inl rfl⟩⟩, fun hretired => ?_⟩
    rcases h.phase with hphase | ⟨-, hdraining | hfailed⟩
    · rw [hretiredAt] at hphase
      exact absurd hphase.2 (by simp)
    · rw [hdraining] at hretired
      exact absurd hretired (by decide)
    · rw [hfailed] at hretired
      exact absurd hretired (by decide)

theorem goesOn_accept (h : row.Retiring) (now : Time)
    (r : ProfileRequest) : GoesOn id row (s.accept now r).1 := by
  unfold accept
  cases r with
  | createProfile r =>
    dsimp only
    split
    · next hok =>
      unfold createProfile at hok
      simp only [bind_eq_ok, require_eq_ok, getRow_eq_ok, pure_eq_ok, exists_const,
        Prod.mk.injEq] at hok
      obtain ⟨-, -, -, -, -, -, cycle, -, -, -, -, -, rfl⟩ := hok
      refine ⟨row, ?_, onward_refl h⟩
      unfold profile at hrow ⊢
      rw [List.find?_append, hrow]
      rfl
    · exact goesOn_same hrow h rfl
  | profileAction provider k action confirmation =>
    dsimp only
    split <;> exact goesOn_same hrow h rfl
  | retireProfile provider k confirmation =>
    exact attempt_induction (P := GoesOn id row) (goesOn_same hrow h rfl)
      fun _ _ hok => goesOn_retire hrow h hok
  | refreshProfiles provider users =>
    apply goesOn_rewrite hrow h (fun r => ?_) rfl
    · exact fun _ => onward_refreshed h now _
    · cases knownUser users r <;> rfl
  | finalizeRetirements provider locked =>
    dsimp only
    split <;> exact goesOn_same hrow h rfl
  | finalizeDrainingProfiles provider locked =>
    dsimp only
    split <;> exact goesOn_same hrow h rfl
  | reservations rows => exact goesOn_same hrow h rfl

theorem goesOn_act (h : row.Retiring) (now : Time)
    {w : LoadedAction} {active : ℕ} {answer : ProfileAnswer}
    (hharmless : w.profile.id = id → s.HarmlessAction id active w.action answer) :
    GoesOn id row (s.act now w active answer).1 := by
  unfold act
  cases haction : w.action with
  | rotate mode =>
    rw [haction] at hharmless
    cases mode with
    | drain =>
      dsimp only
      split
      · next hactive =>
        apply goesOn_update hrow h
        · exact fun _ => rfl
        · intro hk
          have hzero := hharmless hk
          cases answer with
          | ok _ _ => exact hzero.elim
          | providerError _ _ => exact absurd hzero hactive.ne'
          | localError _ => exact absurd hzero.1 hactive.ne'
      · cases answer with
        | ok _ generation =>
          apply goesOn_update hrow h
          · exact fun _ => rfl
          · exact fun hk => (hharmless hk).elim
        | providerError _ _ => exact goesOn_same hrow h rfl
        | localError _ =>
          apply goesOn_update hrow h
          · exact fun _ => rfl
          · exact fun hk => onward_localFailed h ((hharmless hk).2 row hrow) ⟨rfl, rfl, rfl⟩
    | blueGreen =>
      dsimp only
      split
      · split
        · next hok =>
          unfold beginRotation at hok
          simp only [bind_eq_ok, require_eq_ok, getRow_eq_ok, pure_eq_ok, exists_const,
            Prod.mk.injEq] at hok
          obtain ⟨-, -, -, -, -, -, rfl⟩ := hok
          exact goesOn_same hrow h rfl
        · exact goesOn_same hrow h rfl
      · exact goesOn_same hrow h rfl
  | disable =>
    rw [haction] at hharmless
    apply goesOn_update hrow h
    · exact fun _ => rfl
    · exact fun hk => (hharmless hk).elim
  | limit bytes =>
    dsimp only
    split
    · cases answer with
      | ok _ _ =>
        apply goesOn_update hrow h
        · exact fun _ => rfl
        · exact fun _ => onward_phase h ⟨fun hoff => hoff, rfl, rfl, rfl⟩
      | providerError _ _ => exact goesOn_same hrow h rfl
      | localError _ => exact goesOn_same hrow h rfl
    · exact goesOn_same hrow h rfl
  | allocation bytes =>
    refine attempt_induction (P := GoesOn id row) (goesOn_same hrow h rfl) fun _ s' hok => ?_
    unfold setAllocation at hok
    simp only [bind_eq_ok, require_eq_ok, getRow_eq_ok, pure_eq_ok, exists_const,
      Prod.mk.injEq, true_and] at hok
    obtain ⟨-, -, -, -, -, rfl⟩ := hok
    exact goesOn_same hrow h rfl

/-- **One harmless step.** -/
theorem goesOn_run (h : row.Retiring) {t : ProfileTask}
    {reply : ProfileReply} (hharmless : Harmless id s t reply) :
    GoesOn id row (s.run t reply).1 := by
  cases reply with
  | lost => exact goesOn_same hrow h rfl
  | answer now answer =>
    cases t with
    | requested r => exact goesOn_accept hrow h now r
    | creating provider k limit =>
      cases answer with
      | ok subuser generation =>
        apply goesOn_update hrow h
        · exact fun _ => rfl
        · exact fun hk => absurd hk hharmless
      | providerError code ambiguous =>
        cases ambiguous
        · exact goesOn_dropPending hrow h k
        · exact goesOn_same hrow h rfl
      | localError subuser =>
        apply goesOn_update hrow h
        · exact fun _ => rfl
        · exact fun hk => onward_localFailed h (hharmless hk row hrow) ⟨rfl, rfl, rfl⟩
    | killing provider => exact goesOn_same hrow h rfl
    | loaded w => exact goesOn_same hrow h rfl
    | counted w active =>
      unfold run proceed
      dsimp only
      split
      · next hconfirmed => exact goesOn_act hrow h now fun hk => hharmless hk hconfirmed
      · exact goesOn_same hrow h rfl
    | disabling k =>
      cases answer with
      | ok _ _ =>
        apply goesOn_update hrow h
        · exact fun _ => rfl
        · exact fun hk => absurd hk hharmless
      | providerError _ _ => exact goesOn_same hrow h rfl
      | localError _ => exact goesOn_same hrow h rfl
    | replacing provider k retirementId minimum =>
      cases answer with
      | ok subuser generation =>
        refine goesOn_rewrite (s := s) (p := fun p => p.id == k)
          (f := .replaced now subuser minimum generation) hrow h (fun _ => rfl) rfl fun hk => ?_
        have hid : row.id = id := beq_iff_eq.mp (mem_of_find? hrow).2
        exact absurd ((beq_iff_eq.mp hk).symm.trans hid) hharmless
      | providerError code _ => exact goesOn_same hrow h rfl
      | localError _ => exact goesOn_same hrow h rfl
    | installFailed provider k =>
      apply goesOn_update hrow h
      · exact fun _ => rfl
      · exact fun hk => onward_localFailed h (hharmless hk row hrow) ⟨rfl, rfl, rfl⟩
    | finalizingRetirements provider rows => cases rows <;> exact goesOn_same hrow h rfl
    | finalizing provider x rest =>
      cases answer with
      | ok _ _ =>
        refine goesOn_rewrite (s := s) (p := fun p => p.id == x.profileId)
          (f := fun p => { p with
            providerTrafficLimitBytes := some x.targetLimitBytes, updatedAt := now })
          hrow h (fun _ => rfl) rfl fun _ => ?_
        exact onward_phase h ⟨fun hoff => hoff, rfl, rfl, rfl⟩
      | providerError code _ => exact goesOn_same hrow h rfl
      | localError _ => exact goesOn_same hrow h rfl
    | finalizeFailed provider rest => exact goesOn_same hrow h rfl
    | finalizingProfiles provider rows =>
      cases rows with
      | nil => exact goesOn_same hrow h rfl
      | cons x rest =>
        have hfailed : (x.id = id → s.NotRetired id) →
            GoesOn id row (s.updateProfile x.id (.localFailed now)) := by
          intro hnot
          apply goesOn_update hrow h
          · exact fun _ => rfl
          · exact fun hk => onward_localFailed h (hnot hk row hrow) ⟨rfl, rfl, rfl⟩
        cases answer with
        | ok _ generation =>
          apply goesOn_update hrow h
          · intro r
            rcases x.pendingAction with - | action
            · rfl
            · cases action <;> rfl
          · intro hk
            rw [hharmless hk]
            exact onward_finalized now generation
        | providerError _ _ => exact hfailed hharmless
        | localError _ => exact hfailed hharmless
    | drainFailed provider rest => exact goesOn_same hrow h rfl

end

theorem goesOn_step {p : Pool ProxyProfiles ProfileTask} (hrow : p.shared.profile id = some row)
    (h : row.Retiring) {turn : Turn ProfileRequest ProfileReply}
    (hharmless : Program.Meets (Harmless id) p turn) :
    GoesOn id row (profileProgram.step p turn).shared := by
  rcases profileProgram.step_cases p turn with heq | ⟨r, -, heq⟩ | ⟨i, reply, before, t, rest, rfl, ht,
    -, heq⟩
  · rw [heq]
    exact goesOn_same hrow h rfl
  · rw [heq]
    exact goesOn_same hrow h rfl
  · rw [heq]
    exact goesOn_run hrow h (hharmless t ht)

/-- **A run of harmless steps.** -/
theorem goesOn_after {p : Pool ProxyProfiles ProfileTask} (hrow : p.shared.profile id = some row)
    (h : row.Retiring) {turns : List (Turn ProfileRequest ProfileReply)}
    (hharmless : Trace.Along profileProgram.step (Program.Meets (Harmless id)) p turns) :
    GoesOn id row (profileProgram.after p turns).shared := by
  induction turns generalizing p row with
  | nil => exact goesOn_same hrow h rfl
  | cons turn turns ih =>
    obtain ⟨row', hrow', honward⟩ := goesOn_step hrow h hharmless.1
    obtain ⟨row'', hrow'', honward'⟩ := ih hrow' honward.retiring hharmless.2
    have hretired : row.lifecycle = .retired → row''.lifecycle = .retired :=
      fun hretired => honward'.retired (honward.retired hretired)
    exact ⟨row'', hrow'', honward'.retiring, hretired⟩

/-- The row that `retire_profile` leaves. -/
theorem retireProfile_row {now : Time} {provider confirmation : String} {u : Unit}
    (hok : s.retireProfile now provider id confirmation = .ok (u, s')) :
    ∃ row, s'.profile id = some row ∧ row.Retiring := by
  unfold retireProfile at hok
  simp only [bind_eq_ok, require_eq_ok, getRow_eq_ok, pure_eq_ok, exists_const,
    Prod.mk.injEq, true_and] at hok
  obtain ⟨-, -, -, p, hp, -, -, rfl⟩ := hok
  have hafter : (s.updateProfile id (.drain now .retire)).profile id =
      (s.profile id).map fun r => if r.id == id then r.drain now .retire else r :=
    find?_update (f := ManagedProfile.drain now .retire) (fun _ => rfl) _ _ _
  have hid : (p.id == id) = true := (mem_of_find? hp).2
  rw [hp, Option.map_some, if_pos hid] at hafter
  exact ⟨_, hafter, rfl, Or.inr ⟨rfl, Or.inl rfl⟩⟩

end Onward

/-! ## The retirement of a run -/

/-- The profile is retired. -/
def isRetired (s : ProxyProfiles) (id : Uuid) : Bool :=
  (s.profile id).any fun p => p.lifecycle == .retired

/-- **The retirement of a profile.**  After `retire_profile`, in every run without a step that turns
the profile back, it stays disabled and its retirement stays pending until it is retired, and it
stays retired. -/
theorem retirement_kept {s s' : ProxyProfiles} {now : Time} {provider confirmation : String}
    {id : Uuid} {u : Unit} (hretire : s.retireProfile now provider id confirmation = .ok (u, s'))
    (tasks : List ProfileTask) {turns : List (Turn ProfileRequest ProfileReply)}
    (hharmless : Trace.Along profileProgram.step (Program.Meets (Harmless id)) ⟨s', tasks⟩ turns) :
    (∃ row, (profileProgram.after ⟨s', tasks⟩ turns).shared.profile id = some row ∧
      row.enabled = false ∧ row.lifecycle ≠ .enabled ∧
        (row.lifecycle = .retired ∨ row.pendingAction = some .retire)) ∧
    ∀ early late, turns = early ++ late →
      (profileProgram.after ⟨s', tasks⟩ early).shared.isRetired id = true →
        (profileProgram.after ⟨s', tasks⟩ turns).shared.isRetired id = true := by
  obtain ⟨start, hstart, hretiring⟩ := retireProfile_row hretire
  constructor
  · obtain ⟨row, hrow, honward⟩ :=
      goesOn_after (p := ⟨s', tasks⟩) hstart hretiring hharmless
    refine ⟨row, hrow, honward.retiring.off, ?_, ?_⟩
    · rcases honward.retiring.phase with hphase | ⟨-, hphase | hphase⟩
      · rw [hphase.1]
        decide
      · rw [hphase]
        decide
      · rw [hphase]
        decide
    · rcases honward.retiring.phase with hphase | hphase
      · exact Or.inl hphase.1
      · exact Or.inr hphase.1
  · rintro early late rfl hearly
    obtain ⟨hbefore, hafter⟩ := (Trace.along_append profileProgram.step).mp hharmless
    obtain ⟨row, hrow, honward⟩ := goesOn_after (p := ⟨s', tasks⟩) hstart hretiring hbefore
    obtain ⟨row', hrow', honward'⟩ := goesOn_after hrow honward.retiring hafter
    have hretired : row.lifecycle = .retired := by
      rw [isRetired, hrow, Option.any_some] at hearly
      exact beq_iff_eq.mp hearly
    unfold Program.after at hrow' ⊢
    rw [Trace.exec_append, isRetired, hrow', Option.any_some, honward'.retired hretired]
    rfl

instance (s : ProxyProfiles) (id : Uuid) : Decidable (s.NotRetired id) :=
  inferInstanceAs (Decidable (∀ p ∈ s.profile id, p.lifecycle ≠ .retired))

instance (id : Uuid) (s : ProxyProfiles) (active : ℕ) :
    ∀ action answer, Decidable (s.HarmlessAction id active action answer)
  | .rotate .drain, .ok _ _ => inferInstanceAs (Decidable False)
  | .rotate .drain, .providerError _ _ => inferInstanceAs (Decidable (active = 0))
  | .rotate .drain, .localError _ => inferInstanceAs (Decidable (active = 0 ∧ s.NotRetired id))
  | .disable, _ => inferInstanceAs (Decidable False)
  | .rotate .blueGreen, _ | .limit _, _ | .allocation _, _ => inferInstanceAs (Decidable True)

instance (id : Uuid) (s : ProxyProfiles) : ∀ t reply, Decidable (Harmless id s t reply)
  | .creating _ k _, .answer _ (.ok _ _) => inferInstanceAs (Decidable (k ≠ id))
  | .creating _ k _, .answer _ (.localError _) =>
    inferInstanceAs (Decidable (k = id → s.NotRetired id))
  | .counted w active, .answer _ a =>
    inferInstanceAs (Decidable (w.profile.id = id →
      w.confirmation = w.action.confirmation w.profile.logicalName →
        s.HarmlessAction id active w.action a))
  | .disabling k, .answer _ (.ok _ _) => inferInstanceAs (Decidable (k ≠ id))
  | .replacing _ k _ _, .answer _ (.ok _ _) => inferInstanceAs (Decidable (k ≠ id))
  | .installFailed _ k, .answer _ _ => inferInstanceAs (Decidable (k = id → s.NotRetired id))
  | .finalizingProfiles _ (row :: _), .answer _ (.ok _ _) =>
    inferInstanceAs (Decidable (row.id = id → row.pendingAction = some .retire))
  | .finalizingProfiles _ (row :: _), .answer _ (.providerError _ _)
  | .finalizingProfiles _ (row :: _), .answer _ (.localError _) =>
    inferInstanceAs (Decidable (row.id = id → s.NotRetired id))
  | _, .lost | .requested _, .answer _ _ | .creating _ _ _, .answer _ (.providerError _ _)
  | .killing _, .answer _ _ | .loaded _, .answer _ _
  | .disabling _, .answer _ (.providerError _ _) | .disabling _, .answer _ (.localError _)
  | .replacing _ _ _ _, .answer _ (.providerError _ _)
  | .replacing _ _ _ _, .answer _ (.localError _) | .finalizingRetirements _ _, .answer _ _
  | .finalizing _ _ _, .answer _ _ | .finalizeFailed _ _, .answer _ _
  | .finalizingProfiles _ [], .answer _ _ | .drainFailed _ _, .answer _ _ =>
    isTrue (by simp [Harmless])

/-- A profile that can be retired. -/
def enabledProfile : ProxyProfiles where
  cycles := [⟨"decodo", 0, 1000, 100, false⟩]
  profiles := [{
    id := 1, provider := "decodo", logicalName := "main", providerResourceId := some "user-1"
    enabled := true, lifecycle := .enabled, secretGeneration := 1, updatedAt := 0 }]

/-- The profile of the example after `retire_profile`. -/
def drainingProfile : ProxyProfiles :=
  enabledProfile.updateProfile 1 (.drain 5 .retire)

theorem enabledProfile_retire :
    enabledProfile.retireProfile 5 "decodo" 1 "RETIRE main" = .ok ((), drainingProfile) := by
  decide +kernel

/-- A reply to every call that succeeds. -/
def succeeded : ProfileReply := .answer 6 (.ok ⟨"user-1", "active", none, true⟩ 2)

/-- A round of the finalizer. -/
def finalizeRound : List (Turn ProfileRequest ProfileReply) :=
  [.spawn (.finalizeDrainingProfiles "decodo" []), .resume 0 succeeded, .resume 0 succeeded]

/-- The round retires the profile. -/
theorem finalizeRound_retires :
    (∃ row, (profileProgram.after ⟨drainingProfile, []⟩ finalizeRound).shared.profile 1 =
      some row ∧ row.enabled = false ∧ row.lifecycle ≠ .enabled ∧
        (row.lifecycle = .retired ∨ row.pendingAction = some .retire)) ∧
    ∀ early late, finalizeRound = early ++ late →
      (profileProgram.after ⟨drainingProfile, []⟩ early).shared.isRetired 1 = true →
        (profileProgram.after ⟨drainingProfile, []⟩ finalizeRound).shared.isRetired 1 = true :=
  retirement_kept enabledProfile_retire [] (by decide)

/-- A rotation of the idle profile. -/
def rotateIdle : List (Turn ProfileRequest ProfileReply) :=
  [.spawn (.profileAction "decodo" 1 (.rotate .drain) "ROTATE main"), .resume 0 succeeded,
    .resume 0 succeeded, .resume 0 succeeded]

/-- The rotation enables the profile that is being retired. -/
theorem rotateIdle_enables :
    enabledProfile.retireProfile 5 "decodo" 1 "RETIRE main" = .ok ((), drainingProfile) ∧
      ((profileProgram.after ⟨drainingProfile, []⟩ rotateIdle).shared.profile 1).map
          (fun row => (row.enabled, row.lifecycle)) = some (true, .enabled) :=
  ⟨enabledProfile_retire, by decide⟩

end ProxyProfiles

end CommerceCollector
