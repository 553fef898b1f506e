import CommerceCollector.Proxy.SecretImport

/-!
# The secret file and the database in step

`InStep` is what the transactions of an import and the compare-and-swap of the file keep between
them: the file holds the generation of each profile, or the next one while an open intent targets
it.  Each transaction is read back once, and shown to keep it.
-/

namespace CommerceCollector

open Relational Transaction

/-- The generation that the file should hold: a profile of generation zero has no secret. -/
def WebshareProfile.installed (p : WebshareProfile) : Option ℤ :=
  if p.secretGeneration = 0 then none else some p.secretGeneration

/-- The intent takes a quarantined profile from its generation to the next one. -/
structure SecretIntent.Targets (i : SecretIntent) (p : WebshareProfile) : Prop where
  id : p.id = i.profileId
  logicalName : p.logicalName = i.logicalName
  disabled : p.enabled = false
  expected : i.expectedGeneration = p.installed
  target : i.targetGeneration = p.secretGeneration + 1

/-- The checks of `install_webshare_profile` on the generations. -/
structure InstallCall.Valid (c : InstallCall) : Prop where
  positive : ∀ e ∈ c.expectedGeneration, 1 ≤ e
  target : c.secret.generation = (c.expectedGeneration.map (· + 1)).getD 1

theorem InstallCall.validated_ok {c c' : InstallCall} (h : c.validated = .ok c') :
    c' = c ∧ c.Valid := by
  unfold validated at h
  simp only [bind_eq_ok, require_eq_ok, pure_eq_ok, exists_const] at h
  obtain ⟨hexpected, -, secret, hsecret, -, htarget, rfl⟩ := h
  have hok : c.secret.validated = .ok secret := by
    cases hv : c.secret.validated with
    | ok p =>
      rw [hv] at hsecret
      exact hsecret
    | error e =>
      rw [hv] at hsecret
      exact absurd hsecret (by simp [Except.mapError])
  obtain ⟨rfl, -, -⟩ := WebshareGatewaySecret.validated_eq hok
  exact ⟨rfl, ⟨fun e he => (hexpected e he).1, htarget⟩⟩

namespace ImportStore

/-- The two stores are in step. -/
structure InStep (s : ImportStore) : Prop where
  profiles : Keyed WebshareProfile.id s.profiles
  names : Keyed WebshareProfile.logicalName s.profiles
  intents : Keyed SecretIntent.operationId s.intents
  cycles : Keyed (fun c : ImportCycle => (c.provider, c.cycleStart)) s.cycles
  bound : ∀ i ∈ s.intents, ∃ c ∈ s.cycles, c.provider = "webshare" ∧ c.cycleStart = i.cycleStart
  single : ∀ i ∈ s.intents, ∀ j ∈ s.intents, i.isOpen = true → j.isOpen = true →
    i.profileId = j.profileId → i = j
  opened : ∀ i ∈ s.intents, i.isOpen = true → ∃ p ∈ s.profiles, i.Targets p
  counted : ∀ p ∈ s.profiles, 0 ≤ p.secretGeneration
  enabled : ∀ p ∈ s.profiles, p.enabled = true → p.secretGeneration ≠ 0
  held : ∀ p ∈ s.profiles, s.file.generation p.logicalName = p.installed ∨
    ∃ i ∈ s.intents, i.isOpen = true ∧ i.profileId = p.id ∧
      s.file.generation p.logicalName = some i.targetGeneration
  named : ∀ name g, s.file.generation name = some g → ∃ p ∈ s.profiles, p.logicalName = name
  installed : ∀ i ∈ s.intents, i.state = .installed →
    s.file.generation i.logicalName = some i.targetGeneration

/-- A safe cycle in which the profile of an intent has an allocation: the cycle of the intent, or
the current one if that is over. -/
def Bindable (s : ImportStore) (now : Time) (row : SecretIntent) : Prop :=
  ∃ c ∈ s.cycles, c.provider = "webshare" ∧ c.safe now = true ∧
    (s.allocation c.cycleStart row.profileId).isSome = true ∧
    (c.cycleStart = row.cycleStart ∨ s.currentCycle now = some c ∧
      ∀ d ∈ s.cycles, d.provider = "webshare" → d.cycleStart = row.cycleStart →
        d.current now = false)

/-- The results in which a recovery may end. -/
def Resolved (r : WebshareProfileImportResult) : Prop :=
  r.state = .completed ∨ r.state = .failed ∨
    r.state = .installed ∧ r.errorCode = some "cycle_rebind_required"

/-- Neither store goes back. -/
structure Grows (s s' : ImportStore) : Prop where
  profiles : ∀ p ∈ s.profiles, ∃ p' ∈ s'.profiles, p'.id = p.id ∧ p'.logicalName = p.logicalName ∧
    p.secretGeneration ≤ p'.secretGeneration
  file : ∀ name g, s.file.generation name = some g →
    ∃ g', s'.file.generation name = some g' ∧ g ≤ g'

theorem Grows.refl (s : ImportStore) : Grows s s :=
  ⟨fun p hp => ⟨p, hp, rfl, rfl, le_rfl⟩, fun _ g hg => ⟨g, hg, le_rfl⟩⟩

theorem Grows.trans {s s' s'' : ImportStore} (h : Grows s s') (h' : Grows s' s'') :
    Grows s s'' := by
  constructor
  · intro p hp
    obtain ⟨q, hq, hid, hname, hle⟩ := h.profiles p hp
    obtain ⟨r, hr, hid', hname', hle'⟩ := h'.profiles q hq
    exact ⟨r, hr, hid'.trans hid, hname'.trans hname, hle.trans hle'⟩
  · intro name g hg
    obtain ⟨g', hg', hle⟩ := h.file name g hg
    obtain ⟨g'', hg'', hle'⟩ := h'.file name g' hg'
    exact ⟨g'', hg'', hle.trans hle'⟩

section Keep

variable {s s' : ImportStore}

theorem InStep.of_same (h : s.InStep) (hprofiles : s'.profiles = s.profiles)
    (hintents : s'.intents = s.intents) (hcycles : s'.cycles = s.cycles)
    (hfile : s'.file = s.file) : s'.InStep := by
  obtain ⟨h1, h2, h3, h4, h5, h6, h7, h8, h9, h10, h11, h12⟩ := h
  constructor <;> simp only [hprofiles, hintents, hcycles, hfile] <;> assumption

theorem InStep.profile_eq (h : s.InStep) {i : SecretIntent} {p q : WebshareProfile}
    (hp : p ∈ s.profiles) (htargets : i.Targets p) (hq : q ∈ s.profiles)
    (hid : q.id = i.profileId) : q = p :=
  h.profiles.eq_of_mem hq hp (hid.trans htargets.id.symm)

theorem InStep.eq_of_name (h : s.InStep) {i j : SecretIntent} (hi : i ∈ s.intents)
    (hopen : i.isOpen = true) (hj : j ∈ s.intents) (hopen' : j.isOpen = true)
    (hname : i.logicalName = j.logicalName) : i = j := by
  obtain ⟨p, hp, htargets⟩ := h.opened i hi hopen
  obtain ⟨q, hq, htargets'⟩ := h.opened j hj hopen'
  have hnames : p.logicalName = q.logicalName :=
    htargets.logicalName.trans (hname.trans htargets'.logicalName.symm)
  obtain rfl : p = q := h.names.eq_of_mem hp hq hnames
  exact h.single i hi j hj hopen hopen' (htargets.id.symm.trans htargets'.id)

/-- An enabled profile has no open intent, and the file holds its generation. -/
theorem InStep.of_enabled (h : s.InStep) {p : WebshareProfile} (hp : p ∈ s.profiles)
    (henabled : p.enabled = true) : s.hasOpenIntent p.id = false ∧
      s.file.generation p.logicalName = some p.secretGeneration := by
  have hnone : ∀ i ∈ s.intents, i.isOpen = true → i.profileId ≠ p.id := by
    intro i hi hopen hid
    obtain ⟨q, hq, htargets⟩ := h.opened i hi hopen
    obtain rfl : p = q := h.profile_eq hq htargets hp hid.symm
    exact absurd henabled (by simp [htargets.disabled])
  constructor
  · rw [hasOpenIntent, List.any_eq_false]
    intro i hi hboth
    rw [Bool.and_eq_true, beq_iff_eq] at hboth
    exact hnone i hi hboth.2 hboth.1
  · rcases h.held p hp with hfile | ⟨i, hi, hopen, hid, -⟩
    · rw [hfile, WebshareProfile.installed, if_neg (h.enabled p hp henabled)]
    · exact absurd hid (hnone i hi hopen)

/-- The file is ahead by one only while an open intent targets that generation. -/
theorem InStep.ahead (h : s.InStep) {p : WebshareProfile} (hp : p ∈ s.profiles) :
    s.file.generation p.logicalName = p.installed ∨
      s.file.generation p.logicalName = some (p.secretGeneration + 1) ∧
        ∃ i ∈ s.intents, i.isOpen = true ∧ i.profileId = p.id ∧
          i.targetGeneration = p.secretGeneration + 1 := by
  rcases h.held p hp with hfile | ⟨i, hi, hopen, hid, hfile⟩
  · exact Or.inl hfile
  · obtain ⟨q, hq, htargets⟩ := h.opened i hi hopen
    obtain rfl : p = q := h.profile_eq hq htargets hp hid.symm
    rw [htargets.target] at hfile
    exact Or.inr ⟨hfile, i, hi, hopen, hid, htargets.target⟩

/-! ## Quarantine -/

theorem mem_quarantine {id : Uuid} {q : WebshareProfile}
    (hq : q ∈ (s.updateProfile id WebshareProfile.quarantine).profiles) :
    ∃ p ∈ s.profiles, q.id = p.id ∧ q.logicalName = p.logicalName ∧
      q.secretGeneration = p.secretGeneration ∧ (q.enabled = true → p.enabled = true) := by
  obtain ⟨p, hp, rfl⟩ := mem_update.mp hq
  refine ⟨p, hp, ?_⟩
  split
  · exact ⟨rfl, rfl, rfl, fun h => absurd h (by simp [WebshareProfile.quarantine])⟩
  · exact ⟨rfl, rfl, rfl, fun h => h⟩

theorem exists_quarantine (id : Uuid) {p : WebshareProfile} (hp : p ∈ s.profiles) :
    ∃ q ∈ (s.updateProfile id WebshareProfile.quarantine).profiles, q.id = p.id ∧
      q.logicalName = p.logicalName ∧ q.secretGeneration = p.secretGeneration ∧
        (p.enabled = false ∨ p.id = id → q.enabled = false) := by
  cases hid : p.id == id with
  | true => exact ⟨_, mem_update_of_pos hp hid, rfl, rfl, rfl, fun _ => rfl⟩
  | false =>
    refine ⟨p, mem_update_of_neg hp hid, rfl, rfl, rfl, fun h => ?_⟩
    rcases h with hdisabled | hsame
    · exact hdisabled
    · exact absurd hsame (beq_eq_false_iff_ne.mp hid)

theorem grows_quarantine (id : Uuid) :
    Grows s (s.updateProfile id WebshareProfile.quarantine) := by
  refine ⟨fun p hp => ?_, fun _ g hg => ⟨g, hg, le_rfl⟩⟩
  obtain ⟨q, hq, hid, hname, hgeneration, -⟩ := exists_quarantine id hp
  exact ⟨q, hq, hid, hname, hgeneration.ge⟩

theorem Targets.quarantine {i : SecretIntent} {p q : WebshareProfile} (h : i.Targets p)
    (hid : q.id = p.id) (hname : q.logicalName = p.logicalName)
    (hgeneration : q.secretGeneration = p.secretGeneration) (hdisabled : q.enabled = false) :
    i.Targets q := by
  refine ⟨hid.trans h.id, hname.trans h.logicalName, hdisabled, ?_, ?_⟩
  · rw [h.expected, WebshareProfile.installed, WebshareProfile.installed, hgeneration]
  · rw [h.target, hgeneration]

theorem InStep.quarantine (h : s.InStep) (id : Uuid) :
    (s.updateProfile id WebshareProfile.quarantine).InStep := by
  refine ⟨h.profiles.update fun _ => rfl, h.names.update fun _ => rfl, h.intents, h.cycles,
    h.bound, h.single, fun i hi hopen => ?_, fun q hq => ?_, fun q hq henabled => ?_,
    fun q hq => ?_, fun name g hg => ?_, h.installed⟩
  · obtain ⟨p, hp, htargets⟩ := h.opened i hi hopen
    obtain ⟨q, hq, hid, hname, hgeneration, hdisabled⟩ := exists_quarantine id hp
    exact ⟨q, hq, Targets.quarantine htargets hid hname hgeneration
      (hdisabled (Or.inl htargets.disabled))⟩
  · obtain ⟨p, hp, -, -, hgeneration, -⟩ := mem_quarantine hq
    rw [hgeneration]
    exact h.counted p hp
  · obtain ⟨p, hp, -, -, hgeneration, hwas⟩ := mem_quarantine hq
    rw [hgeneration]
    exact h.enabled p hp (hwas henabled)
  · obtain ⟨p, hp, hid, hname, hgeneration, -⟩ := mem_quarantine hq
    rw [hname, hid, WebshareProfile.installed, hgeneration]
    exact h.held p hp
  · obtain ⟨p, hp, hname⟩ := h.named name g hg
    obtain ⟨q, hq, -, hname', -⟩ := exists_quarantine id hp
    exact ⟨q, hq, hname'.trans hname⟩

/-! ## Preparation -/

theorem InStep.insert (h : s.InStep) {row : SecretIntent} (hprepared : row.state = .prepared)
    (hnone : s.hasOpenIntent row.profileId = false)
    (hfresh : s.intentForOperation row.operationId = none)
    (hcycle : ∃ c ∈ s.cycles, c.provider = "webshare" ∧ c.cycleStart = row.cycleStart)
    (htarget : ∃ p ∈ s.profiles, row.Targets p) : InStep { s with intents := s.intents ++ [row] } := by
  have hother : ∀ i ∈ s.intents, i.isOpen = true → i.profileId ≠ row.profileId := by
    intro i hi hopen hid
    rw [hasOpenIntent, List.any_eq_false] at hnone
    exact hnone i hi (by simp [hopen, hid])
  have hnew : ∀ i ∈ s.intents, i.operationId ≠ row.operationId := by
    intro i hi heq
    exact absurd (List.find?_eq_none.mp hfresh i hi) (by simp [heq])
  refine ⟨h.profiles, h.names, h.intents.append hnew, h.cycles, fun i hi => ?_,
    fun i hi j hj hopen hopen' hid => ?_, fun i hi hopen => ?_, h.counted, h.enabled,
    fun p hp => ?_, h.named, fun i hi hinstalled => ?_⟩
  · rcases List.mem_append.mp hi with hold | hlast
    · exact h.bound i hold
    · rw [List.mem_singleton.mp hlast]
      exact hcycle
  · rcases List.mem_append.mp hi with hold | hlast <;> rcases List.mem_append.mp hj with hold' | hlast'
    · exact h.single i hold j hold' hopen hopen' hid
    · rw [List.mem_singleton.mp hlast'] at hid
      exact absurd hid (hother i hold hopen)
    · rw [List.mem_singleton.mp hlast] at hid
      exact absurd hid.symm (hother j hold' hopen')
    · exact (List.mem_singleton.mp hlast).trans (List.mem_singleton.mp hlast').symm
  · rcases List.mem_append.mp hi with hold | hlast
    · exact h.opened i hold hopen
    · rw [List.mem_singleton.mp hlast]
      exact htarget
  · rcases h.held p hp with hfile | ⟨i, hi, hopen⟩
    · exact Or.inl hfile
    · exact Or.inr ⟨i, List.mem_append_left _ hi, hopen⟩
  · rcases List.mem_append.mp hi with hold | hlast
    · exact h.installed i hold hinstalled
    · rw [List.mem_singleton.mp hlast, hprepared] at hinstalled
      exact absurd hinstalled (by simp)

theorem InStep.create (h : s.InStep) {p : WebshareProfile} (hgeneration : p.secretGeneration = 0)
    (hdisabled : p.enabled = false) (hid : p.id = freshKey WebshareProfile.id s.profiles)
    (hname : ∀ q ∈ s.profiles, q.logicalName ≠ p.logicalName)
    (hprofiles : s'.profiles = s.profiles ++ [p]) (hintents : s'.intents = s.intents)
    (hcycles : s'.cycles = s.cycles) (hfile : s'.file = s.file) : s'.InStep := by
  have hmem : ∀ {q : WebshareProfile}, q ∈ s'.profiles → q ∈ s.profiles ∨ q = p := by
    intro q hq
    rw [hprofiles] at hq
    rcases List.mem_append.mp hq with hold | hlast
    · exact Or.inl hold
    · exact Or.inr (List.mem_singleton.mp hlast)
  have hold : ∀ {q : WebshareProfile}, q ∈ s.profiles → q ∈ s'.profiles := by
    intro q hq
    rw [hprofiles]
    exact List.mem_append_left _ hq
  constructor
  case profiles =>
    rw [hprofiles]
    exact h.profiles.append_fresh hid
  case names =>
    rw [hprofiles]
    exact h.names.append hname
  case intents =>
    rw [hintents]
    exact h.intents
  case cycles =>
    rw [hcycles]
    exact h.cycles
  case bound =>
    rw [hintents, hcycles]
    exact h.bound
  case single =>
    rw [hintents]
    exact h.single
  case opened =>
    intro i hi hopen
    rw [hintents] at hi
    obtain ⟨q, hq, htargets⟩ := h.opened i hi hopen
    exact ⟨q, hold hq, htargets⟩
  case counted =>
    intro q hq
    rcases hmem hq with hq | rfl
    · exact h.counted q hq
    · exact hgeneration.ge
  case enabled =>
    intro q hq henabled
    rcases hmem hq with hq | rfl
    · exact h.enabled q hq henabled
    · exact absurd henabled (by simp [hdisabled])
  case held =>
    intro q hq
    rw [hfile, hintents]
    rcases hmem hq with hq | rfl
    · exact h.held q hq
    · apply Or.inl
      rw [WebshareProfile.installed, if_pos hgeneration]
      cases hg : s.file.generation q.logicalName with
      | none => rfl
      | some g =>
        obtain ⟨q', hq', hname'⟩ := h.named _ g hg
        exact absurd hname' (hname q' hq')
  case named =>
    intro name g hg
    rw [hfile] at hg
    obtain ⟨q, hq, hname'⟩ := h.named name g hg
    exact ⟨q, hold hq, hname'⟩
  case installed =>
    intro i hi hinstalled
    rw [hintents] at hi
    rw [hfile]
    exact h.installed i hi hinstalled

/-- What a transaction of an import does at least: it writes neither the file nor the locks. -/
structure Keeps (s s' : ImportStore) : Prop where
  inStep : s'.InStep
  grows : Grows s s'
  file : s'.file = s.file
  locks : s'.locks = s.locks
  answers : s'.answers = s.answers

theorem currentCycle_mem {now : Time} {cycle : ImportCycle} (h : s.currentCycle now = some cycle) :
    cycle ∈ s.cycles ∧ cycle.provider = "webshare" ∧ cycle.current now = true := by
  unfold currentCycle at h
  split at h
  · next c hcycles =>
    obtain rfl : c = cycle := Option.some.inj h
    have hmem : c ∈ s.currentCycles now := by
      rw [hcycles]
      simp
    unfold currentCycles at hmem
    rw [List.mem_filter, Bool.and_eq_true, beq_iff_eq] at hmem
    exact ⟨hmem.1, hmem.2.1, hmem.2.2⟩
  · exact absurd h (by simp)

section

variable (h : s.InStep)

include h

theorem prepareCreation_ok {cycle : ImportCycle} {c : InstallCall}
    {profile : WebshareProfile} (hok : s.prepareCreation cycle c = .ok (profile, s')) :
    Keeps s s' ∧ s'.intents = s.intents ∧ s'.cycles = s.cycles ∧
      profile ∈ s'.profiles ∧ profile.logicalName = c.secret.logicalName ∧
        profile.secretGeneration = 0 ∧ profile.enabled = false := by
  unfold prepareCreation at hok
  simp only [bind_eq_ok, getRow_eq_ok] at hok
  obtain ⟨allocatedBytes, -, displayName, -, hok⟩ := hok
  split at hok
  · next hnone =>
    unfold createProfile at hok
    simp only [bind_eq_ok, require_eq_ok, pure_eq_ok, exists_const, Prod.mk.injEq] at hok
    obtain ⟨-, -, rfl, rfl⟩ := hok
    have hname : ∀ q ∈ s.profiles, q.logicalName ≠ c.secret.logicalName := by
      intro q hq heq
      exact absurd (List.find?_eq_none.mp hnone q hq) (by simp [heq])
    refine ⟨⟨?_, ⟨fun p hp => ?_, fun _ g hg => ⟨g, hg, le_rfl⟩⟩, rfl, rfl, rfl⟩, rfl, rfl,
      List.mem_append_right _ (List.mem_singleton_self _), rfl, rfl, rfl⟩
    · apply h.create
      case hprofiles => rfl
      case hname => exact hname
      all_goals rfl
    · exact ⟨p, List.mem_append_left _ hp, rfl, rfl, le_rfl⟩
  · next found hfound =>
    obtain ⟨hmem, hname⟩ := mem_of_find? hfound
    unfold adoptProfile at hok
    simp only [bind_eq_ok, require_eq_ok, pure_eq_ok, exists_const, Prod.mk.injEq] at hok
    obtain ⟨hpristine, rfl, rfl⟩ := hok
    exact ⟨⟨h, Grows.refl s, rfl, rfl, rfl⟩, rfl, rfl, hmem, beq_iff_eq.mp hname, hpristine.1,
      hpristine.2.1⟩

theorem prepareRotation_ok {cycle : ImportCycle} {c : InstallCall} {expected : ℤ}
    {profile : WebshareProfile} (hok : s.prepareRotation cycle c expected = .ok (profile, s')) :
    Keeps s s' ∧ s'.intents = s.intents ∧ s'.cycles = s.cycles ∧
      ∃ p ∈ s'.profiles, p.id = profile.id ∧ p.logicalName = c.secret.logicalName ∧
        p.secretGeneration = expected ∧ p.enabled = false := by
  unfold prepareRotation at hok
  simp only [bind_eq_ok, require_eq_ok, getRow_eq_ok, pure_eq_ok, exists_const,
    Prod.mk.injEq] at hok
  obtain ⟨-, found, hfound, -, hgeneration, -, rfl, rfl⟩ := hok
  obtain ⟨hmem, hname⟩ := mem_of_find? hfound
  obtain ⟨q, hq, hid, hname', hgeneration', hdisabled⟩ := exists_quarantine found.id hmem
  exact ⟨⟨h.quarantine found.id, grows_quarantine found.id, rfl, rfl, rfl⟩, rfl, rfl, q, hq, hid,
    hname'.trans (beq_iff_eq.mp hname), hgeneration'.trans hgeneration, hdisabled (Or.inr rfl)⟩

/-- The inserted intent targets the generation after the one of its profile. -/
theorem insertIntent_ok {cycle : ImportCycle} {c : InstallCall} (hc : c.Valid)
    {profile : WebshareProfile} (hcycle : cycle ∈ s.cycles ∧ cycle.provider = "webshare")
    {p : WebshareProfile} (hp : p ∈ s.profiles) (hid : p.id = profile.id)
    (hname : p.logicalName = c.secret.logicalName) (hdisabled : p.enabled = false)
    (hgeneration : p.secretGeneration = c.expectedGeneration.getD 0) {row : SecretIntent}
    (hok : s.insertIntent cycle c profile = .ok (row, s')) :
    Keeps s s' ∧ s'.intents = s.intents ++ [row] ∧ row.isOpen = true ∧
      row.operationId = c.operationId ∧ row.logicalName = c.secret.logicalName ∧
        row.targetGeneration = c.secret.generation := by
  unfold insertIntent at hok
  simp only [bind_eq_ok, require_eq_ok, pure_eq_ok, exists_const, Prod.mk.injEq] at hok
  obtain ⟨hnone, hfresh, hrow, hs'⟩ := hok
  subst hrow hs'
  have hboth : c.expectedGeneration = p.installed ∧
      c.secret.generation = p.secretGeneration + 1 := by
    rw [WebshareProfile.installed, hc.target, hgeneration]
    cases hexpected : c.expectedGeneration with
    | none => exact ⟨rfl, rfl⟩
    | some e =>
      have hpositive : 1 ≤ e := hc.positive e hexpected
      have hne : e ≠ 0 := by omega
      exact ⟨(if_neg hne).symm, rfl⟩
  refine ⟨⟨?_, ⟨fun p hp => ⟨p, hp, rfl, rfl, le_rfl⟩, fun _ g hg => ⟨g, hg, le_rfl⟩⟩, rfl, rfl,
    rfl⟩, rfl, rfl, rfl, rfl, rfl⟩
  apply h.insert rfl hnone hfresh
  · exact ⟨cycle, hcycle.1, hcycle.2, rfl⟩
  · exact ⟨p, hp, hid, hname, hdisabled, hboth.1, hboth.2⟩

/-- **What a preparation does.**  The profile drains, or there is an open intent for the call. -/
theorem prepare_ok {now : Time} {c : InstallCall} (hc : c.Valid)
    {outcome : WebshareProfileImportResult ⊕ SecretIntent}
    (hok : s.prepare now c = .ok (outcome, s')) :
    Keeps s s' ∧ (∀ i ∈ s.intents, i ∈ s'.intents) ∧
      ∀ row, outcome = .inr row → row ∈ s'.intents ∧ row.isOpen = true ∧
        row.operationId = c.operationId ∧ row.logicalName = c.secret.logicalName ∧
          row.targetGeneration = c.secret.generation := by
  unfold prepare at hok
  simp only [bind_eq_ok, require_eq_ok, getRow_eq_ok, exists_const] at hok
  obtain ⟨cycle, hcycle, -, -, hok⟩ := hok
  obtain ⟨hmem, hprovider, -⟩ := currentCycle_mem hcycle
  cases hexpected : c.expectedGeneration with
  | none =>
    rw [hexpected] at hok
    simp only [bind_eq_ok, pure_eq_ok, Prod.exists, Prod.mk.injEq] at hok
    obtain ⟨profile, created, hcreated, row, inserted, hinserted, rfl, rfl⟩ := hok
    obtain ⟨hkeeps, hintents, hcycles, hp, hname, hgeneration, hdisabled⟩ :=
      prepareCreation_ok h hcreated
    have hzero : profile.secretGeneration = c.expectedGeneration.getD 0 := by
      rw [hgeneration, hexpected]
      rfl
    obtain ⟨hkeeps', hintents', hrow⟩ := insertIntent_ok hkeeps.inStep hc
      ⟨hcycles ▸ hmem, hprovider⟩ hp rfl hname hdisabled hzero hinserted
    refine ⟨⟨hkeeps'.inStep, hkeeps.grows.trans hkeeps'.grows, hkeeps'.file.trans hkeeps.file,
      hkeeps'.locks.trans hkeeps.locks, hkeeps'.answers.trans hkeeps.answers⟩, fun i hi => ?_, ?_⟩
    · rw [hintents', hintents]
      exact List.mem_append_left _ hi
    · rintro _ ⟨⟩
      rw [hintents']
      exact ⟨List.mem_append_right _ (List.mem_singleton_self _), hrow⟩
  | some expected =>
    rw [hexpected] at hok
    simp only [bind_eq_ok, Prod.exists] at hok
    obtain ⟨profile, quarantined, hquarantined, hok⟩ := hok
    obtain ⟨hkeeps, hintents, hcycles, p, hp, hid, hname, hgeneration, hdisabled⟩ :=
      prepareRotation_ok h hquarantined
    split at hok
    · simp only [pure_eq_ok, Prod.mk.injEq] at hok
      obtain ⟨rfl, rfl⟩ := hok
      refine ⟨⟨?_, ?_, hkeeps.file, hkeeps.locks, hkeeps.answers⟩, fun i hi => ?_, ?_⟩
      · exact hkeeps.inStep.of_same rfl rfl rfl rfl
      · exact ⟨hkeeps.grows.profiles, hkeeps.grows.file⟩
      · change i ∈ quarantined.intents
        rw [hintents]
        exact hi
      · exact fun row hrow => absurd hrow (by simp)
    · simp only [bind_eq_ok, pure_eq_ok, Prod.exists, Prod.mk.injEq] at hok
      obtain ⟨row, inserted, hinserted, rfl, rfl⟩ := hok
      have hexpected' : p.secretGeneration = c.expectedGeneration.getD 0 := by
        rw [hgeneration, hexpected]
        rfl
      obtain ⟨hkeeps', hintents', hrow⟩ := insertIntent_ok hkeeps.inStep hc
        ⟨hcycles ▸ hmem, hprovider⟩ hp hid hname hdisabled hexpected' hinserted
      refine ⟨⟨hkeeps'.inStep, hkeeps.grows.trans hkeeps'.grows, hkeeps'.file.trans hkeeps.file,
        hkeeps'.locks.trans hkeeps.locks, hkeeps'.answers.trans hkeeps.answers⟩, fun i hi => ?_,
        ?_⟩
      · rw [hintents', hintents]
        exact List.mem_append_left _ hi
      · rintro _ ⟨⟩
        rw [hintents']
        exact ⟨List.mem_append_right _ (List.mem_singleton_self _), hrow⟩

/-! ## The compare-and-swap -/

section

variable {row : SecretIntent} (hrow : row ∈ s.intents)

include hrow

theorem InStep.write
    (hopen : row.isOpen = true) {secret : WebshareGatewaySecret}
    (hprovider : secret.provider = "webshare") (hname : secret.logicalName = row.logicalName)
    (hgeneration : secret.generation = row.targetGeneration) :
    InStep { s with file := s.file.assign secret } ∧
      (s.file.assign secret).generation row.logicalName = some row.targetGeneration ∧
      (∀ i ∈ s.intents, i.isOpen = true → i ≠ row →
        (s.file.assign secret).generation i.logicalName = s.file.generation i.logicalName) ∧
      ∀ name g, s.file.generation name = some g →
        ∃ g', (s.file.assign secret).generation name = some g' ∧ g ≤ g' := by
  obtain ⟨p, hp, htargets⟩ := h.opened row hrow hopen
  have hwritten : ∀ name, (s.file.assign secret).generation name =
      if row.logicalName = name then some row.targetGeneration else s.file.generation name := by
    intro name
    rw [SecretFile.generation_assign s.file secret hprovider, hname, hgeneration]
  have hsame : ∀ i ∈ s.intents, i.isOpen = true → i ≠ row →
      (s.file.assign secret).generation i.logicalName = s.file.generation i.logicalName := by
    intro i hi hiopen hne
    rw [hwritten, if_neg fun heq => hne (h.eq_of_name hi hiopen hrow hopen heq.symm)]
  refine ⟨⟨h.profiles, h.names, h.intents, h.cycles, h.bound, h.single, h.opened, h.counted,
    h.enabled, fun q hq => ?_, fun name g hg => ?_, fun i hi hinstalled => ?_⟩, ?_, hsame,
    fun name g hg => ?_⟩
  · by_cases hqname : row.logicalName = q.logicalName
    · obtain rfl : p = q := h.names.eq_of_mem hp hq (htargets.logicalName.trans hqname)
      refine Or.inr ⟨row, hrow, hopen, htargets.id.symm, ?_⟩
      exact (hwritten _).trans (if_pos hqname)
    · have hkept : (s.file.assign secret).generation q.logicalName =
          s.file.generation q.logicalName := (hwritten _).trans (if_neg hqname)
      rw [hkept]
      exact h.held q hq
  · by_cases hsecret : row.logicalName = name
    · exact ⟨p, hp, htargets.logicalName.trans hsecret⟩
    · change (s.file.assign secret).generation name = some g at hg
      rw [hwritten, if_neg hsecret] at hg
      exact h.named name g hg
  · by_cases hirow : i = row
    · rw [hirow]
      exact (hwritten _).trans (if_pos rfl)
    · have hiopen : i.isOpen = true := by simp [SecretIntent.isOpen, hinstalled]
      exact (hsame i hi hiopen hirow).trans (h.installed i hi hinstalled)
  · exact (hwritten _).trans (if_pos rfl)
  · rw [hwritten]
    by_cases hsecret : row.logicalName = name
    · rw [if_pos hsecret]
      refine ⟨row.targetGeneration, rfl, ?_⟩
      rw [← hsecret, ← htargets.logicalName] at hg
      rcases h.ahead hp with hinstalled | ⟨hahead, -⟩
      · rw [hg, WebshareProfile.installed] at hinstalled
        split at hinstalled
        · exact absurd hinstalled (by simp)
        · have hsame : g = p.secretGeneration := Option.some.inj hinstalled
          rw [htargets.target]
          omega
      · have hsame : g = p.secretGeneration + 1 := Option.some.inj (hg.symm.trans hahead)
        rw [htargets.target]
        omega
    · rw [if_neg hsecret]
      exact ⟨g, hg, le_rfl⟩

/-! ## The end of an intent -/

/-- The intent of an operation is the only row that its statements rewrite. -/
theorem InStep.mem_rewritten
    {p : SecretIntent → Bool} (hp : ∀ i, p i = true → i.operationId = row.operationId)
    (hprow : p row = true) {f : SecretIntent → SecretIntent} {i : SecretIntent} :
    i ∈ update p f s.intents ↔ i = f row ∨ i ∈ s.intents ∧ i ≠ row := by
  have hother : ∀ j ∈ s.intents, j ≠ row → p j = false := by
    intro j hj hne
    rw [Bool.eq_false_iff]
    exact fun hpj => hne (h.intents.eq_of_mem hj hrow (hp j hpj))
  constructor
  · intro hi
    obtain ⟨j, hj, rfl⟩ := mem_update.mp hi
    by_cases hjrow : j = row
    · rw [hjrow, if_pos hprow]
      exact Or.inl rfl
    · rw [if_neg (by simp [hother j hj hjrow])]
      exact Or.inr ⟨hj, hjrow⟩
  · rintro (rfl | ⟨hi, hne⟩)
    · exact mem_update_of_pos hrow hprow
    · exact mem_update_of_neg hi (hother i hi hne)

theorem InStep.close
    (hopen : row.isOpen = true) {g : WebshareProfile → WebshareProfile}
    (hg : ∀ p, (g p).id = p.id ∧ (g p).logicalName = p.logicalName)
    (hend : ∀ p ∈ s.profiles, row.Targets p → 0 ≤ (g p).secretGeneration ∧
      ((g p).enabled = true → (g p).secretGeneration ≠ 0) ∧
      s.file.generation row.logicalName = (g p).installed)
    {p : SecretIntent → Bool} (hp : ∀ i, p i = true → i.operationId = row.operationId)
    (hprow : p row = true) {f : SecretIntent → SecretIntent}
    (hf : ∀ i, (f i).operationId = i.operationId) (hclosed : (f row).isOpen = false)
    (hcycle : ∃ c ∈ s.cycles, c.provider = "webshare" ∧ c.cycleStart = (f row).cycleStart) :
    InStep { s with
      profiles := update (fun q => q.id == row.profileId) g s.profiles
      intents := update p f s.intents } := by
  have hmem : ∀ {i : SecretIntent}, i ∈ update p f s.intents ↔ i = f row ∨ i ∈ s.intents ∧ i ≠ row :=
    h.mem_rewritten hrow hp hprow
  have hold : ∀ {i : SecretIntent}, i ∈ update p f s.intents → i.isOpen = true →
      i ∈ s.intents ∧ i ≠ row := by
    intro i hi hiopen
    rcases hmem.mp hi with rfl | hkept
    · exact absurd hiopen (by simp [hclosed])
    · exact hkept
  obtain ⟨t, ht, htargets⟩ := h.opened row hrow hopen
  obtain ⟨hcounted, henabled, hinstalled⟩ := hend t ht htargets
  have hprofile : ∀ {q : WebshareProfile},
      q ∈ update (fun q => q.id == row.profileId) g s.profiles →
      q = g t ∨ q ∈ s.profiles ∧ q.id ≠ row.profileId := by
    intro q hq
    obtain ⟨r, hr, rfl⟩ := mem_update.mp hq
    by_cases hid : r.id = row.profileId
    · rw [if_pos (beq_iff_eq.mpr hid), h.profile_eq ht htargets hr hid]
      exact Or.inl rfl
    · rw [if_neg (by simpa using hid)]
      exact Or.inr ⟨hr, hid⟩
  have hstays : ∀ {q : WebshareProfile}, q ∈ s.profiles → q.id ≠ row.profileId →
      q ∈ update (fun q => q.id == row.profileId) g s.profiles :=
    fun hq hid => mem_update_of_neg hq (beq_eq_false_iff_ne.mpr hid)
  refine ⟨h.profiles.update fun q => (hg q).1, h.names.update fun q => (hg q).2,
    h.intents.update hf, h.cycles, fun i hi => ?_, fun i hi j hj hiopen hjopen hid => ?_,
    fun i hi hiopen => ?_, fun q hq => ?_, fun q hq hqenabled => ?_, fun q hq => ?_,
    fun name generation hgeneration => ?_, fun i hi hstate => ?_⟩
  · rcases hmem.mp hi with rfl | hkept
    · exact hcycle
    · exact h.bound i hkept.1
  · exact h.single i (hold hi hiopen).1 j (hold hj hjopen).1 hiopen hjopen hid
  · obtain ⟨hi, hne⟩ := hold hi hiopen
    obtain ⟨q, hq, hqtargets⟩ := h.opened i hi hiopen
    refine ⟨q, hstays hq fun hid => hne ?_, hqtargets⟩
    exact h.single i hi row hrow hiopen hopen (hqtargets.id.symm.trans hid)
  · rcases hprofile hq with rfl | hkept
    · exact hcounted
    · exact h.counted q hkept.1
  · rcases hprofile hq with rfl | hkept
    · exact henabled hqenabled
    · exact h.enabled q hkept.1 hqenabled
  · rcases hprofile hq with rfl | ⟨hkept, hid⟩
    · rw [(hg t).2, htargets.logicalName]
      exact Or.inl hinstalled
    · rcases h.held q hkept with hfile | ⟨i, hi, hiopen, hiid, hfile⟩
      · exact Or.inl hfile
      · refine Or.inr ⟨i, hmem.mpr (Or.inr ⟨hi, ?_⟩), hiopen, hiid, hfile⟩
        rintro rfl
        exact hid hiid.symm
  · obtain ⟨q, hq, hname⟩ := h.named name generation hgeneration
    by_cases hid : q.id = row.profileId
    · exact ⟨_, mem_update_of_pos hq (beq_iff_eq.mpr hid), (hg q).2.trans hname⟩
    · exact ⟨q, hstays hq hid, hname⟩
  · have hiopen : i.isOpen = true := by simp [SecretIntent.isOpen, hstate]
    exact h.installed i (hold hi hiopen).1 hstate

/-- An installed intent stays open until its profile has an allocation in a safe cycle. -/
theorem InStep.await
    (hopen : row.isOpen = true)
    (hfile : s.file.generation row.logicalName = some row.targetGeneration)
    {f : SecretIntent → SecretIntent} (hf : ∀ i, (f i).operationId = i.operationId)
    (hopen' : (f row).isOpen = true) (hprofile : (f row).profileId = row.profileId)
    (hname : (f row).logicalName = row.logicalName)
    (hexpected : (f row).expectedGeneration = row.expectedGeneration)
    (htarget : (f row).targetGeneration = row.targetGeneration)
    (hcycle : ∃ c ∈ s.cycles, c.provider = "webshare" ∧ c.cycleStart = (f row).cycleStart) :
    (s.updateIntent row.operationId f).InStep := by
  have hmem : ∀ {i : SecretIntent}, i ∈ (s.updateIntent row.operationId f).intents ↔
      i = f row ∨ i ∈ s.intents ∧ i ≠ row :=
    h.mem_rewritten hrow (fun i hi => beq_iff_eq.mp hi) (beq_self_eq_true _)
  refine ⟨h.profiles, h.names, h.intents.update hf, h.cycles, fun i hi => ?_,
    fun i hi j hj hiopen hjopen hid => ?_, fun i hi hiopen => ?_, h.counted, h.enabled,
    fun q hq => ?_, h.named, fun i hi hstate => ?_⟩
  · rcases hmem.mp hi with rfl | hkept
    · exact hcycle
    · exact h.bound i hkept.1
  · rcases hmem.mp hi with rfl | ⟨hi, hine⟩ <;> rcases hmem.mp hj with rfl | ⟨hj, hjne⟩
    · rfl
    · rw [hprofile] at hid
      exact absurd (h.single row hrow j hj hopen hjopen hid).symm hjne
    · rw [hprofile] at hid
      exact absurd (h.single i hi row hrow hiopen hopen hid) hine
    · exact h.single i hi j hj hiopen hjopen hid
  · rcases hmem.mp hi with rfl | hkept
    · obtain ⟨q, hq, htargets⟩ := h.opened row hrow hopen
      exact ⟨q, hq, htargets.id.trans hprofile.symm, htargets.logicalName.trans hname.symm,
        htargets.disabled, hexpected.trans htargets.expected, htarget.trans htargets.target⟩
    · exact h.opened i hkept.1 hiopen
  · rcases h.held q hq with hold | ⟨i, hi, hiopen, hid, hold⟩
    · exact Or.inl hold
    · by_cases hirow : i = row
      · subst hirow
        exact Or.inr ⟨f i, hmem.mpr (Or.inl rfl), hopen', hprofile.trans hid,
          hold.trans (congrArg some htarget.symm)⟩
      · exact Or.inr ⟨i, hmem.mpr (Or.inr ⟨hi, hirow⟩), hiopen, hid, hold⟩
  · rcases hmem.mp hi with rfl | hkept
    · rw [hname, htarget]
      exact hfile
    · exact h.installed i hkept.1 hstate

theorem InStep.cycleAt :
    ∃ cycle, s.cycleAt row.cycleStart = some cycle ∧ cycle ∈ s.cycles ∧
      cycle.provider = "webshare" ∧ cycle.cycleStart = row.cycleStart := by
  obtain ⟨c, hc, hprovider, hstart⟩ := h.bound row hrow
  have hsome : (s.cycleAt row.cycleStart).isSome = true := by
    rw [ImportStore.cycleAt, List.find?_isSome]
    exact ⟨c, hc, by simp [hprovider, hstart]⟩
  obtain ⟨cycle, hcycle⟩ := Option.isSome_iff_exists.mp hsome
  obtain ⟨hmem, hfound⟩ := mem_of_find? hcycle
  rw [Bool.and_eq_true, beq_iff_eq, beq_iff_eq] at hfound
  exact ⟨cycle, hcycle, hmem, hfound.1, hfound.2⟩

end

/-- The cycle in which an intent is finalized is safe and has an allocation iff there is such a
cycle. -/
theorem InStep.bindable_iff (now : Time) {row : SecretIntent} {cycle : ImportCycle}
    (hcycle : cycle ∈ s.cycles) (hprovider : cycle.provider = "webshare")
    (hstart : cycle.cycleStart = row.cycleStart) :
    s.Bindable now row ↔
      ¬ (((s.rebindsTo now row cycle).getD cycle).safe now = false ∨
        (s.allocation ((s.rebindsTo now row cycle).getD cycle).cycleStart row.profileId).isNone =
          true) := by
  rw [not_or, Bool.not_eq_false, Bool.not_eq_true, Option.isNone_eq_false_iff]
  constructor
  · rintro ⟨c, hc, hcprovider, hsafe, hallocation, hsame | ⟨hcurrent, hover⟩⟩
    · have hkey : (c.provider, c.cycleStart) = (cycle.provider, cycle.cycleStart) := by
        rw [hcprovider, hprovider, hsame, hstart]
      obtain rfl : c = cycle := h.cycles.eq_of_mem hc hcycle hkey
      have hnow : c.current now = true := by
        rw [ImportCycle.safe, Bool.and_eq_true] at hsafe
        exact hsafe.1
      have hnone : s.rebindsTo now row c = none := by
        rw [rebindsTo, if_pos hnow]
      rw [hnone]
      exact ⟨hsafe, hallocation⟩
    · have hpast : cycle.current now = false := hover cycle hcycle hprovider hstart
      have hsome : s.rebindsTo now row cycle = some c := by
        simp [rebindsTo, hpast, hcurrent, hsafe, hallocation]
      rw [hsome]
      exact ⟨hsafe, hallocation⟩
  · rintro ⟨hsafe, hallocation⟩
    cases hrebinds : s.rebindsTo now row cycle with
    | none =>
      rw [hrebinds] at hsafe hallocation
      exact ⟨cycle, hcycle, hprovider, hsafe, hallocation, Or.inl hstart⟩
    | some c =>
      rw [hrebinds] at hsafe hallocation
      unfold rebindsTo at hrebinds
      split at hrebinds
      · exact absurd hrebinds (by simp)
      · next hpast =>
        rw [Option.filter_eq_some_iff] at hrebinds
        obtain ⟨hmem, hcprovider, -⟩ := currentCycle_mem hrebinds.1
        refine ⟨c, hmem, hcprovider, hsafe, hallocation, Or.inr ⟨hrebinds.1, ?_⟩⟩
        intro d hd hdprovider hdstart
        have hkey : (d.provider, d.cycleStart) = (cycle.provider, cycle.cycleStart) := by
          rw [hdprovider, hprovider, hdstart, hstart]
        obtain rfl : d = cycle := h.cycles.eq_of_mem hd hcycle hkey
        exact Bool.eq_false_iff.mpr hpast

end

/-- The row of an intent after a finalization. -/
def finalized (s : ImportStore) (now : Time) (row : SecretIntent) (cycle : ImportCycle)
    (state : IntentState) (code : Option String) (i : SecretIntent) : SecretIntent :=
  { i with
    cycleStart := ((s.rebindsTo now row cycle).map fun c => c.cycleStart).getD i.cycleStart
    state := state, errorCode := code }

/-- A finalization of an open intent whose profile is in the expected generation. -/
theorem finalize_eq {now : Time} {row : SecretIntent} {cycle : ImportCycle} {p : WebshareProfile}
    (hcycle : s.cycleAt row.cycleStart = some cycle)
    (hprofile : s.profiles.find? (fun q => q.id == row.profileId) = some p)
    (hintent : s.intentForOperation row.operationId = some row) (hopen : row.isOpen = true)
    (hexpected : p.secretGeneration = row.expectedGeneration.getD 0) :
    s.finalize now row =
      if ((s.rebindsTo now row cycle).getD cycle).safe now = false ∨
          (s.allocation ((s.rebindsTo now row cycle).getD cycle).cycleStart row.profileId).isNone =
            true then
        .ok (row.result .installed (some "cycle_rebind_required"),
          (s.updateProfile row.profileId WebshareProfile.quarantine).updateIntent row.operationId
            (finalized s now row cycle .installed (some "cycle_rebind_required")))
      else
        .ok (row.result .completed none,
          (s.updateProfile row.profileId (WebshareProfile.install row.targetGeneration)).updateIntent
            row.operationId (finalized s now row cycle .completed none)) := by
  have hpending : row.state = .prepared ∨ row.state = .installed := by
    simpa [SecretIntent.isOpen] using hopen
  unfold finalize
  rw [hcycle, hprofile, hintent]
  rcases hpending with hstate | hstate
  all_goals
    simp only [getRow, bind, Except.bind, hstate, hexpected, ne_eq, not_true_eq_false, false_and,
      if_false]
    split <;> rfl

/-- **What a finalization does** for an open intent whose secret is in the file. -/
theorem finalize_ok (h : s.InStep) (now : Time) {row : SecretIntent} (hrow : row ∈ s.intents)
    (hopen : row.isOpen = true)
    (hfile : s.file.generation row.logicalName = some row.targetGeneration) :
    ∃ result s', s.finalize now row = .ok (result, s') ∧ Keeps s s' ∧
      (∀ i ∈ s.intents, i ≠ row → i ∈ s'.intents) ∧ Resolved result ∧
        (result.state = .completed ↔ s.Bindable now row) := by
  obtain ⟨cycle, hcycleAt, hcycle, hprovider, hstart⟩ := h.cycleAt hrow
  obtain ⟨p, hp, htargets⟩ := h.opened row hrow hopen
  have hprofile : s.profiles.find? (fun q => q.id == row.profileId) = some p := by
    rw [← htargets.id]
    exact h.profiles.find?_eq_some hp
  have hintent : s.intentForOperation row.operationId = some row := h.intents.find?_eq_some hrow
  have hexpected : row.expectedGeneration.getD 0 = p.secretGeneration := by
    rw [htargets.expected, WebshareProfile.installed]
    split
    · next hzero => exact hzero.symm
    · rfl
  have hbindable := h.bindable_iff now hcycle hprovider hstart
  have hbound : ∀ i : SecretIntent, i = row → ∃ c ∈ s.cycles, c.provider = "webshare" ∧
      c.cycleStart = ((s.rebindsTo now row cycle).map fun c => c.cycleStart).getD i.cycleStart := by
    rintro i rfl
    cases hrebinds : s.rebindsTo now i cycle with
    | none => exact ⟨cycle, hcycle, hprovider, hstart⟩
    | some c =>
      unfold rebindsTo at hrebinds
      split at hrebinds
      · exact absurd hrebinds (by simp)
      · rw [Option.filter_eq_some_iff] at hrebinds
        obtain ⟨hmem, hcprovider, -⟩ := currentCycle_mem hrebinds.1
        exact ⟨c, hmem, hcprovider, rfl⟩
  have hkept : ∀ {f : SecretIntent → SecretIntent} {i : SecretIntent}, i ∈ s.intents → i ≠ row →
      i ∈ update (fun i => i.operationId == row.operationId) f s.intents := by
    intro f i hi hne
    exact (h.mem_rewritten hrow (fun i hi => beq_iff_eq.mp hi) (beq_self_eq_true _)).mpr
      (Or.inr ⟨hi, hne⟩)
  rw [finalize_eq hcycleAt hprofile hintent hopen hexpected.symm]
  by_cases hbinds : s.Bindable now row
  · rw [if_neg (hbindable.mp hbinds)]
    refine ⟨_, _, rfl, ⟨?_, ⟨fun q hq => ?_, fun _ g hg => ⟨g, hg, le_rfl⟩⟩, rfl, rfl, rfl⟩,
      fun i hi hne => hkept hi hne, Or.inl rfl, iff_of_true rfl hbinds⟩
    · apply h.close hrow hopen
      case hg => exact fun _ => ⟨rfl, rfl⟩
      case hend =>
        intro q hq hqtargets
        have hcounted : 0 ≤ q.secretGeneration := h.counted q hq
        have hpositive : row.targetGeneration ≠ 0 := by
          rw [hqtargets.target]
          omega
        refine ⟨?_, fun _ => hpositive, ?_⟩
        · change 0 ≤ row.targetGeneration
          rw [hqtargets.target]
          omega
        · rw [hfile]
          exact (if_neg hpositive).symm
      case hp => exact fun i hi => beq_iff_eq.mp hi
      case hprow => exact beq_self_eq_true _
      case hf => exact fun _ => rfl
      case hclosed => rfl
      case hcycle => exact hbound row rfl
    · cases hid : q.id == row.profileId with
      | true =>
        obtain rfl : q = p := h.profile_eq hp htargets hq (beq_iff_eq.mp hid)
        refine ⟨_, mem_update_of_pos hq hid, rfl, rfl, ?_⟩
        change q.secretGeneration ≤ row.targetGeneration
        rw [htargets.target]
        omega
      | false => exact ⟨q, mem_update_of_neg hq hid, rfl, rfl, le_rfl⟩
  · rw [if_pos (by by_contra hneg; exact hbinds (hbindable.mpr hneg))]
    have hquarantined := h.quarantine row.profileId
    refine ⟨_, _, rfl, ⟨?_, ?_, rfl, rfl, rfl⟩, fun i hi hne => hkept hi hne,
      Or.inr (Or.inr ⟨rfl, rfl⟩), iff_of_false (by simp [SecretIntent.result]) hbinds⟩
    · apply hquarantined.await
      case hrow => exact hrow
      case hopen => exact hopen
      case hfile => exact hfile
      case hf => exact fun _ => rfl
      case hcycle => exact hbound row rfl
      all_goals rfl
    · have hgrows := grows_quarantine (s := s) row.profileId
      exact ⟨hgrows.profiles, hgrows.file⟩

/-- **What a failure does** to an open intent whose secret is not in the file. -/
theorem markFailed_ok (h : s.InStep) {row : SecretIntent} (hrow : row ∈ s.intents)
    (hopen : row.isOpen = true)
    (hfile : s.file.generation row.logicalName ≠ some row.targetGeneration) (code : String) :
    ∃ result s', s.markFailed row code = .ok (result, s') ∧ Keeps s s' ∧
      (∀ i ∈ s.intents, i ≠ row → i ∈ s'.intents) ∧ result.state = .failed := by
  obtain ⟨cycle, hcycleAt, hcycle, hprovider, hstart⟩ := h.cycleAt hrow
  have hselected : s.intents.any (fun i => i.operationId == row.operationId && i.isOpen) = true := by
    rw [List.any_eq_true]
    exact ⟨row, hrow, by simp [hopen]⟩
  have hown : ∀ i : SecretIntent, (i.operationId == row.operationId && i.isOpen) = true →
      i.operationId = row.operationId := by
    intro i hi
    rw [Bool.and_eq_true, beq_iff_eq] at hi
    exact hi.1
  have hrowSelected : (row.operationId == row.operationId && row.isOpen) = true := by
    simp [hopen]
  unfold markFailed
  rw [hcycleAt]
  simp only [getRow, bind, Except.bind, hselected, if_true]
  refine ⟨_, _, rfl, ⟨?_, ?_, rfl, rfl, rfl⟩, fun i hi hne => ?_, rfl⟩
  · apply h.close hrow hopen (g := WebshareProfile.quarantine)
    case hg => exact fun _ => ⟨rfl, rfl⟩
    case hend =>
      intro q hq hqtargets
      refine ⟨h.counted q hq, fun henabled => absurd henabled (by simp [WebshareProfile.quarantine]),
        ?_⟩
      rcases h.ahead hq with hinstalled | ⟨hahead, -⟩
      · rw [← hqtargets.logicalName]
        exact hinstalled
      · rw [hqtargets.logicalName, ← hqtargets.target] at hahead
        exact absurd hahead hfile
    case hp => exact hown
    case hprow => exact hrowSelected
    case hf => exact fun _ => rfl
    case hclosed => rfl
    case hcycle => exact ⟨cycle, hcycle, hprovider, hstart⟩
  · have hgrows := grows_quarantine (s := s) row.profileId
    exact ⟨hgrows.profiles, hgrows.file⟩
  · exact (h.mem_rewritten hrow hown hrowSelected).mpr (Or.inr ⟨hi, hne⟩)

end Keep

end ImportStore

end CommerceCollector
