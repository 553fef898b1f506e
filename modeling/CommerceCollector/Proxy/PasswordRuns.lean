import CommerceCollector.Proxy.Passwords
import Mathlib.Data.List.Dedup

/-!
# Which passwords agree, and which calls interrupt nobody

A rotation sets a password at the provider, writes it to the secret file and records its generation
in the row of the profile, one after the other, and nothing keeps a second rotation of the profile
out. The three agree after every run in which the rotations of a profile do not overlap and none of
them ends with an exception in between.

An operation looks for active reservations first and calls the provider later.  A call interrupts no
reservation in the runs in which none is made in between.
-/

namespace CommerceCollector

open Tasks

namespace Passwords

/-! ## The two properties -/

/-- The profile can be reserved. -/
def Profile.serving (p : Profile) : Bool := p.row.enabled && p.row.lifecycle == .enabled

/-- The provider, the secret file and the row agree. -/
def Profile.Agrees (p : Profile) : Prop :=
  p.secret = some ⟨p.passwords p.row.providerResourceId, p.row.secretGeneration⟩

instance (p : Profile) : Decidable p.Agrees := inferInstanceAs (Decidable (_ = _))

/-- What holds of a profile before any session. -/
structure Profile.Settled (p : Profile) : Prop where
  known : p.row.providerResourceId < p.subusers
  agrees : p.serving = true → p.Agrees
  spared : p.interrupted = []

/-! ## Sections of a session -/

/-- The steps of a rotation. -/
def Step.rotates : Step → Bool
  | .changePassword => true
  | .install _ => true
  | .record _ => true
  | .create => true
  | .installReplacement _ _ => true
  | .replace _ _ => true
  | .rotationFailed => true
  | _ => false

/-- A round changes the secret of a profile that it rotates or retires. -/
def Loaded.changes (l : Loaded) : Bool :=
  l.pendingAction == some .rotate || l.pendingAction == some .retire

/-- The profiles whose secret a session changes. -/
def Session.rotations : Session → List ℕ
  | .acting l step => if step.rotates = true then [l.profile] else []
  | .finalizing l step rest =>
    (if (step.rotates || l.changes) = true then [l.profile] else []) ++
      (rest.filter Loaded.changes).map Loaded.profile
  | _ => []

/-- The steps of a rotation after something was changed. -/
def Step.dirty : Step → Bool
  | .install _ => true
  | .record _ => true
  | .replace _ _ => true
  | .rotationFailed => true
  | _ => false

/-- The steps after something was changed, for a profile that is rotated or retired. -/
def Step.dirtyFor (finalizer : Bool) (l : Loaded) (step : Step) : Bool :=
  step.dirty || finalizer && l.pendingAction == some .retire &&
    (step == .recordRetired || step == .closingFailed)

/-- The profile whose secret a session has changed. -/
def Session.dirty : Session → Option ℕ
  | .acting l step => if step.dirtyFor false l = true then some l.profile else none
  | .finalizing l step _ => if step.dirtyFor true l = true then some l.profile else none
  | _ => none

/-- A step ends its session with an exception after something was changed. -/
def Step.exposed (finalizer : Bool) (l : Loaded) (a : Answer) : Step → Bool
  | .changePassword =>
    a.tookEffect && (a.outcome == .escaped || !finalizer && a.outcome == .providerError)
  | .install _ => a.outcome == .escaped
  | .record _ => !a.effective
  | .installReplacement _ _ => a.tookEffect && a.outcome == .escaped
  | .replace _ _ => !a.effective
  | .rotationFailed => !a.effective
  | .remove => a.tookEffect && a.outcome == .escaped
  | .recordRetired => !a.effective
  | .closingFailed => l.pendingAction == some .retire && !a.effective
  | _ => false

/-- The calls that take a sub-user from those who use it. -/
def Step.interrupts : Step → Bool
  | .changePassword => true
  | .disable => true
  | .delete => true
  | _ => false

/-- The steps of a session that has seen no reservation, up to its call. -/
def Step.counted : Step → Bool
  | .drainForDisable active => !active
  | step => step.interrupts

/-- The profiles of which a session has seen no reservation, and which it will change at the
provider. -/
def Session.counted : Session → List ℕ
  | .acting l step => if step.counted = true then [l.profile] else []
  | .finalizing l step rest =>
    (if step.counted = true then [l.profile] else []) ++ rest.map Loaded.profile
  | _ => []

/-! ## The conditions -/

/-- A rotation that begins works on the sub-user that the profile has, and no exception cuts off a
session after something was changed, as long as its profile can be reserved. -/
def Session.Sheltered (w : World) (a : Answer) : Session → Prop
  | .acting l step =>
    (step = .count (.rotate .drain) → (w l.profile).active = false →
      (w l.profile).row.providerResourceId = l.resource) ∧
        (step.exposed false l a = true → (w l.profile).serving = false)
  | .finalizing l step _ => step.exposed true l a = true → (w l.profile).serving = false
  | _ => True

instance (w : World) (a : Answer) : ∀ t : Session, Decidable (t.Sheltered w a)
  | .acting _ _ => inferInstanceAs (Decidable (_ ∧ _))
  | .finalizing _ _ _ => inferInstanceAs (Decidable (_ → _))
  | .profileAction _ _ => inferInstanceAs (Decidable True)
  | .finalizeDrainingProfiles => inferInstanceAs (Decidable True)
  | .reserve _ _ => inferInstanceAs (Decidable True)
  | .close _ _ => inferInstanceAs (Decidable True)
  | .retired _ => inferInstanceAs (Decidable True)

/-- The rotations of a profile do not overlap, and none is cut off. -/
def Exclusive (w : World) (us : List Session) (t : Session) (a : Answer) : Prop :=
  (∀ t' ∈ (run w t a).2, ∀ id ∈ t'.rotations, id ∉ t.rotations → ∀ u ∈ us, id ∉ u.rotations) ∧
    t.Sheltered w a

instance (w : World) (us : List Session) (t : Session) (a : Answer) :
    Decidable (Exclusive w us t a) :=
  inferInstanceAs (Decidable (_ ∧ _))

/-- No reservation of a profile is made while a session is about to change it at the provider. -/
def Unreserved (w : World) (us : List Session) (t : Session) (_ : Answer) : Prop :=
  match t with
  | .reserve id generation =>
    (w id).serving = true → (w id).row.secretGeneration = generation → ∀ u ∈ us, id ∉ u.counted
  | _ => True

instance (w : World) (us : List Session) : ∀ (t : Session) (a : Answer),
    Decidable (Unreserved w us t a)
  | .reserve _ _, _ => inferInstanceAs (Decidable (_ → _))
  | .acting _ _, _ => inferInstanceAs (Decidable True)
  | .finalizing _ _ _, _ => inferInstanceAs (Decidable True)
  | .profileAction _ _, _ => inferInstanceAs (Decidable True)
  | .finalizeDrainingProfiles, _ => inferInstanceAs (Decidable True)
  | .close _ _, _ => inferInstanceAs (Decidable True)
  | .retired _, _ => inferInstanceAs (Decidable True)

/-! ## A step on a profile -/

variable {w : World} {t u : Session} {a : Answer} {l : Loaded} {p : Profile} {finalizer : Bool}
  {step : Step}

theorem write_self (w : World) (id : ℕ) (p : Profile) : w.write id p id = p := by
  simp [World.write]

theorem write_of_ne (w : World) {id id' : ℕ} (p : Profile) (h : id' ≠ id) :
    w.write id p id' = w id' := by
  simp [World.write, h]

theorem reservations_written : (step.written finalizer l p a).reservations = p.reservations := by
  unfold Step.written
  split
  · cases step <;> rfl
  · rfl

/-! ## Reservations are not interrupted -/

/-- A step interrupts no reservation, if the profile has none when it is a call. -/
theorem interrupted_written (h : step.interrupts = true → p.reservations = []) :
    (step.written finalizer l p a).interrupted = p.interrupted := by
  have hinterrupt : p.reservations = [] → ∀ resource,
      (p.interrupt resource).interrupted = p.interrupted := by
    intro hnone resource
    simp [Profile.interrupt, hnone]
  unfold Step.written
  split
  · cases step with
    | changePassword => exact hinterrupt (h rfl) l.resource
    | disable => exact hinterrupt (h rfl) l.resource
    | delete => exact hinterrupt (h rfl) l.resource
    | _ => rfl
  · rfl

theorem counted_of_interrupts (h : step.interrupts = true) : step.counted = true := by
  cases step <;> first | exact h | cases h

variable {step' : Step}

/-- A step of a session that has seen no reservation follows another one, or the count. -/
theorem counted_next (h : step.next finalizer l p a = some step')
    (hcounted : step'.counted = true) :
    step.counted = true ∨ (∃ action, step = .count action) ∧ p.active = false := by
  cases step with
  | count action =>
    refine Or.inr ⟨⟨action, rfl⟩, ?_⟩
    cases hactive : p.active with
    | false => rfl
    | true =>
      cases action with
      | disable =>
        obtain rfl : Step.drainForDisable p.active = step' := Option.some.inj h
        rw [hactive] at hcounted
        cases hcounted
      | rotate mode =>
        cases mode with
        | drain =>
          obtain rfl : (if p.active = true then Step.drainForRotation else .changePassword) = step' :=
            Option.some.inj h
          rw [if_pos hactive] at hcounted
          cases hcounted
        | blueGreen =>
          obtain rfl : Step.reserveCapacity = step' := Option.some.inj h
          cases hcounted
  | drainForDisable active =>
    cases active with
    | false => exact Or.inl rfl
    | true => cases h
  | changePassword => exact Or.inl rfl
  | disable => exact Or.inl rfl
  | delete => exact Or.inl rfl
  | _ =>
    first
      | (obtain rfl := Option.some.inj h; exact absurd hcounted Bool.false_ne_true)
      | cases h

theorem failure_of_afterError {outcome : Outcome}
    (h : step.afterError finalizer outcome = some step') :
    step' = .rotationFailed ∨ step' = .closingFailed := by
  unfold Step.afterError at h
  split at h <;> first | (split at h <;> simp_all) | simp_all

theorem not_counted_afterError {outcome : Outcome}
    (h : step.afterError finalizer outcome = some step') : step'.counted = false := by
  rcases failure_of_afterError h with rfl | rfl <;> rfl

/-- What a session leaves of a profile on which it does not work. -/
def Session.target : Session → Option ℕ
  | .reserve profile _ => some profile
  | .close profile _ => some profile
  | .retired profile => some profile
  | .acting l _ => some l.profile
  | .finalizing l _ _ => some l.profile
  | _ => none

variable {id : ℕ}

theorem run_of_ne (h : t.target ≠ some id) : (run w t a).1 id = w id := by
  cases t with
  | profileAction profile action => rfl
  | finalizeDrainingProfiles => rfl
  | reserve profile generation =>
    have hne : id ≠ profile := fun heq => h (congrArg some heq.symm)
    simp only [run]
    split
    · exact write_of_ne w _ hne
    · rfl
  | close profile reservation =>
    have hne : id ≠ profile := fun heq => h (congrArg some heq.symm)
    simp only [run]
    split
    · exact write_of_ne w _ hne
    · rfl
  | retired profile => exact write_of_ne w _ fun heq => h (congrArg some heq.symm)
  | acting l step => exact write_of_ne w _ fun heq => h (congrArg some heq.symm)
  | finalizing l step rest => exact write_of_ne w _ fun heq => h (congrArg some heq.symm)

theorem reservations_run (h : (w id).reservations = [])
    (hmade : ∀ generation, t = .reserve id generation → (w id).serving = true →
      (w id).row.secretGeneration ≠ generation) : ((run w t a).1 id).reservations = [] := by
  by_cases htarget : t.target = some id
  · cases t with
    | profileAction profile action => cases htarget
    | finalizeDrainingProfiles => cases htarget
    | reserve profile generation =>
      obtain rfl : profile = id := Option.some.inj htarget
      have hkeep : ((w profile).reserve generation).reservations = [] := by
        unfold Profile.reserve
        split
        · rename_i hguard
          refine absurd hguard.1 (hmade generation rfl ?_)
          simp [Profile.serving, hguard.2.1, hguard.2.2]
        · exact h
      simp only [run]
      split
      · rw [write_self]
        exact hkeep
      · exact h
    | close profile reservation =>
      obtain rfl : profile = id := Option.some.inj htarget
      simp only [run]
      split
      · rw [write_self]
        simp [Profile.close, h]
      · exact h
    | retired profile =>
      obtain rfl : profile = id := Option.some.inj htarget
      simp [run, write_self, h]
    | acting l step =>
      obtain rfl : l.profile = id := Option.some.inj htarget
      simp [run, write_self, reservations_written, h]
    | finalizing l step rest =>
      obtain rfl : l.profile = id := Option.some.inj htarget
      simp [run, write_self, reservations_written, h]
  · rw [run_of_ne htarget]
    exact h

/-- A session interrupts no reservation of a profile of which it has seen none. -/
theorem interrupted_run (hJ : ∀ id ∈ t.counted, (w id).reservations = []) :
    ((run w t a).1 id).interrupted = (w id).interrupted := by
  by_cases htarget : t.target = some id
  · cases t with
    | profileAction profile action => cases htarget
    | finalizeDrainingProfiles => cases htarget
    | reserve profile generation =>
      obtain rfl : profile = id := Option.some.inj htarget
      simp only [run]
      split
      · rw [write_self]
        unfold Profile.reserve
        split <;> rfl
      · rfl
    | close profile reservation =>
      obtain rfl : profile = id := Option.some.inj htarget
      simp only [run]
      split
      · rw [write_self]
        rfl
      · rfl
    | retired profile =>
      obtain rfl : profile = id := Option.some.inj htarget
      simp [run, write_self]
    | acting l step =>
      obtain rfl : l.profile = id := Option.some.inj htarget
      simp only [run, write_self]
      refine interrupted_written fun hcall => hJ _ ?_
      simp [Session.counted, counted_of_interrupts hcall]
    | finalizing l step rest =>
      obtain rfl : l.profile = id := Option.some.inj htarget
      simp only [run, write_self]
      refine interrupted_written fun hcall => hJ _ ?_
      simp [Session.counted, counted_of_interrupts hcall]
  · rw [run_of_ne htarget]

theorem course_goes (h : step.course finalizer l p a = .goes step') :
    a.outcome = .ok ∧ step.next finalizer l p a = some step' ∨
      a.outcome ≠ .ok ∧ step.catches finalizer a.outcome = true ∧
        step.afterError finalizer a.outcome = some step' := by
  unfold Step.course at h
  split at h
  · rename_i hok
    cases hnext : step.next finalizer l p a with
    | none => simp [hnext] at h
    | some next =>
      rw [hnext] at h
      exact Or.inl ⟨hok, congrArg some (Course.goes.inj h)⟩
  · rename_i hok
    split at h
    · rename_i hcatches
      cases hafter : step.afterError finalizer a.outcome with
      | none => simp [hafter] at h
      | some next =>
        rw [hafter] at h
        exact Or.inr ⟨hok, hcatches, congrArg some (Course.goes.inj h)⟩
    · cases h

/-- A step of a session that has seen no reservation follows another one, or the count. -/
theorem counted_course (h : step.course finalizer l p a = .goes step')
    (hcounted : step'.counted = true) :
    step.counted = true ∨ (∃ action, step = .count action) ∧ p.active = false := by
  rcases course_goes h with ⟨-, hnext⟩ | ⟨-, -, hafter⟩
  · exact counted_next hnext hcounted
  · rw [not_counted_afterError hafter] at hcounted
    cases hcounted

variable {t' : Session}

theorem counted_nextProfile {rest : List Loaded} (h : t' ∈ nextProfile rest) :
    ∀ id ∈ t'.counted, id ∈ rest.map Loaded.profile := by
  cases rest with
  | nil => cases h
  | cons l rest =>
    obtain rfl : Session.finalizing l l.finalize rest = t' := Option.some.inj h
    intro id hid
    rcases List.mem_append.mp hid with hid | hid
    · split at hid
      · rw [List.mem_singleton.mp hid]
        exact List.mem_cons_self
      · cases hid
    · exact List.mem_cons_of_mem _ hid

theorem select_reservations {rows : List ℕ} {l : Loaded} (h : l ∈ w.select rows) :
    (w l.profile).reservations = [] := by
  obtain ⟨id, hid, rfl⟩ := List.mem_map.mp h
  have hfinal : (w id).finalizable = true := (List.mem_filter.mp (List.mem_of_mem_take hid)).2
  simp only [Profile.finalizable, Profile.active, Bool.and_eq_true, Bool.not_eq_true',
    bne_eq_false_iff_eq] at hfinal
  exact hfinal.1.2

/-- A profile that a session is about to change at the provider has no reservations, or it was just
counted. -/
theorem counted_run (hJ : ∀ id ∈ t.counted, (w id).reservations = []) (ht' : t' ∈ (run w t a).2)
    (hid : id ∈ t'.counted) : (w id).reservations = [] := by
  cases t with
  | profileAction profile action =>
    simp only [run, Option.mem_def] at ht'
    split at ht'
    · obtain rfl := Option.some.inj ht'
      cases hid
    · cases ht'
  | finalizeDrainingProfiles =>
    simp only [run] at ht'
    split at ht'
    · obtain ⟨l, hl, rfl⟩ := List.mem_map.mp (counted_nextProfile ht' id hid)
      exact select_reservations hl
    · cases ht'
  | reserve profile generation => cases ht'
  | close profile reservation => cases ht'
  | retired profile => cases ht'
  | acting l step =>
    simp only [run, Option.mem_def] at ht'
    cases hcourse : step.course false l (w l.profile) a with
    | goes step' =>
      rw [hcourse] at ht'
      obtain rfl : Session.acting l step' = t' := Option.some.inj ht'
      simp only [Session.counted] at hid
      split at hid
      · rename_i hstep
        rw [List.mem_singleton.mp hid]
        rcases counted_course hcourse hstep with hold | ⟨-, hidle⟩
        · exact hJ _ (by simp [Session.counted, hold])
        · exact bne_eq_false_iff_eq.mp hidle
      · cases hid
    | done =>
      rw [hcourse] at ht'
      cases ht'
    | ended =>
      rw [hcourse] at ht'
      cases ht'
  | finalizing l step rest =>
    simp only [run, Option.mem_def] at ht'
    cases hcourse : step.course true l (w l.profile) a with
    | goes step' =>
      rw [hcourse] at ht'
      obtain rfl : Session.finalizing l step' rest = t' := Option.some.inj ht'
      rcases List.mem_append.mp hid with hid | hid
      · split at hid
        · rename_i hstep
          rw [List.mem_singleton.mp hid]
          rcases counted_course hcourse hstep with hold | ⟨-, hidle⟩
          · exact hJ _ (by simp [Session.counted, hold])
          · exact bne_eq_false_iff_eq.mp hidle
        · cases hid
      · exact hJ _ (List.mem_append_right _ hid)
    | done =>
      rw [hcourse] at ht'
      exact hJ _ (List.mem_append_right _ (counted_nextProfile ht' id hid))
    | ended =>
      rw [hcourse] at ht'
      cases ht'

/-- **Without reservations in between, no session disturbs what another has counted.** -/
theorem unreserved_guards :
    sessions.Guards (fun w => ∀ id, (w id).interrupted = [])
      (fun w t => ∀ id ∈ t.counted, (w id).reservations = []) (fun _ _ => True) (fun _ => True)
      Unreserved where
  symm _ _ _ := trivial
  start w request _ _ id hid := by
    cases request <;> cases hid
  apart _ _ := trivial
  shared w us t a _ hI hJ id := (interrupted_run hJ).trans (hI id)
  own w us t a _ _ hJ t' ht' id hid := by
    refine reservations_run (counted_run hJ ht' hid) fun generation heq => ?_
    rw [heq] at ht'
    cases ht'
  other w us t a hC _ _ u hu hJu _ := by
    refine ⟨fun id hid => reservations_run (hJu id hid) fun generation heq hserving hgen => ?_,
      fun _ _ => trivial⟩
    rw [heq] at hC
    exact hC hserving hgen u hu hid

/-! ## Rotations that do not overlap -/

/-- What a step of a rotation finds. -/
def Step.Ready (finalizer : Bool) (l : Loaded) (p : Profile) : Step → Prop
  | .count _ => finalizer = false
  | .changePassword => p.row.providerResourceId = l.resource
  | .install password => p.row.providerResourceId = l.resource ∧ p.passwords l.resource = password
  | .record generation => p.secret = some ⟨p.passwords p.row.providerResourceId, generation⟩
  | .installReplacement resource password => resource < p.subusers ∧ p.passwords resource = password
  | .replace resource generation =>
    resource < p.subusers ∧ p.secret = some ⟨p.passwords resource, generation⟩
  | .delete => finalizer = true ∧ l.pendingAction = some .retire
  | .remove => finalizer = true ∧ l.pendingAction = some .retire
  | .recordRetired => finalizer = true ∧ l.pendingAction = some .retire
  | _ => True

/-- What a session finds on the profiles whose secrets it changes. -/
def Session.Ready (w : World) : Session → Prop
  | .acting l step => step.Ready false l (w l.profile)
  | .finalizing l step rest =>
    step.Ready true l (w l.profile) ∧ ((l :: rest).map Loaded.profile).Nodup ∧
      ∀ l' ∈ rest, l'.pendingAction = some .rotate →
        (w l'.profile).row.providerResourceId = l'.resource
  | _ => True

/-- What is left of a profile by a step that changes no secret. -/
structure Profile.Keeps (p p' : Profile) : Prop where
  resource : p'.row.providerResourceId = p.row.providerResourceId
  generation : p'.row.secretGeneration = p.row.secretGeneration
  subusers : p'.subusers = p.subusers
  passwords : p'.passwords = p.passwords
  secret : p'.secret = p.secret
  serving : p'.serving = true → p.serving = true

variable {p' : Profile}

theorem Profile.Keeps.ready (h : p.Keeps p') (hready : step.Ready finalizer l p) :
    step.Ready finalizer l p' := by
  cases step with
  | changePassword => exact h.resource.trans hready
  | install password => exact ⟨h.resource.trans hready.1, (congrFun h.passwords _).trans hready.2⟩
  | record generation => simpa [Step.Ready, h.resource, h.passwords, h.secret] using hready
  | installReplacement resource password =>
    exact ⟨h.subusers ▸ hready.1, (congrFun h.passwords _).trans hready.2⟩
  | replace resource generation =>
    simpa [Step.Ready, h.subusers, h.passwords, h.secret] using hready
  | _ => exact hready

theorem Profile.Keeps.agrees (h : p.Keeps p') (hagrees : p.Agrees) : p'.Agrees := by
  simpa [Profile.Agrees, h.resource, h.generation, h.passwords, h.secret] using hagrees

theorem keeps_written (hrotates : step.rotates = false) (hremove : step ≠ .remove) :
    p.Keeps (step.written finalizer l p a) := by
  have hsame : p.Keeps p := ⟨rfl, rfl, rfl, rfl, rfl, id⟩
  unfold Step.written
  split
  · cases step with
    | count action => exact hsame
    | drainForRotation =>
      exact ⟨rfl, rfl, rfl, rfl, rfl, fun h => by simp [Step.effect, Profile.serving] at h⟩
    | reserveCapacity => exact hsame
    | drainForDisable active =>
      exact ⟨rfl, rfl, rfl, rfl, rfl, fun h => by simp [Step.effect, Profile.serving] at h⟩
    | disable => exact ⟨rfl, rfl, rfl, rfl, rfl, id⟩
    | recordDisabled =>
      exact ⟨rfl, rfl, rfl, rfl, rfl, fun h => by simp [Step.effect, Profile.serving] at h⟩
    | delete => exact ⟨rfl, rfl, rfl, rfl, rfl, id⟩
    | remove => exact absurd rfl hremove
    | recordRetired =>
      exact ⟨rfl, rfl, rfl, rfl, rfl, fun h => by simp [Step.effect, Profile.serving] at h⟩
    | closingFailed =>
      exact ⟨rfl, rfl, rfl, rfl, rfl, fun h => by simp [Step.effect, Profile.serving] at h⟩
    | _ => cases hrotates
  · exact hsame

theorem keeps_run (hJ : t.Ready w) (h : id ∉ t.rotations) : (w id).Keeps ((run w t a).1 id) := by
  have hsame : (w id).Keeps (w id) := ⟨rfl, rfl, rfl, rfl, rfl, fun h => h⟩
  by_cases htarget : t.target = some id
  · cases t with
    | profileAction profile action => cases htarget
    | finalizeDrainingProfiles => cases htarget
    | reserve profile generation =>
      obtain rfl : profile = id := Option.some.inj htarget
      simp only [run]
      split
      · rw [write_self]
        unfold Profile.reserve
        split
        · exact ⟨rfl, rfl, rfl, rfl, rfl, fun h => h⟩
        · exact hsame
      · exact hsame
    | close profile reservation =>
      obtain rfl : profile = id := Option.some.inj htarget
      simp only [run]
      split
      · rw [write_self]
        exact ⟨rfl, rfl, rfl, rfl, rfl, fun h => h⟩
      · exact hsame
    | retired profile =>
      obtain rfl : profile = id := Option.some.inj htarget
      simp only [run, write_self]
      exact ⟨rfl, rfl, rfl, rfl, rfl, fun h => h⟩
    | acting l step =>
      obtain rfl : l.profile = id := Option.some.inj htarget
      simp only [run, write_self]
      refine keeps_written ?_ ?_
      · cases hrotates : step.rotates with
        | false => rfl
        | true => exact absurd (by simp [Session.rotations, hrotates]) h
      · rintro rfl
        exact Bool.false_ne_true hJ.1
    | finalizing l step rest =>
      obtain rfl : l.profile = id := Option.some.inj htarget
      simp only [run, write_self]
      refine keeps_written ?_ ?_
      · cases hrotates : step.rotates with
        | false => rfl
        | true => exact absurd (by simp [Session.rotations, hrotates]) h
      · rintro rfl
        have hretire : l.pendingAction = some .retire := hJ.1.2
        exact h (by simp [Session.rotations, Loaded.changes, hretire])
  · rw [run_of_ne htarget]
    exact hsame

theorem ready_next (hok : a.outcome = .ok) (h : step.next finalizer l p a = some step')
    (hready : step.Ready finalizer l p)
    (hcurrent : step = .count (.rotate .drain) → p.active = false →
      p.row.providerResourceId = l.resource) :
    step'.Ready finalizer l (step.written finalizer l p a) := by
  have hwritten : step.written finalizer l p a = step.effect finalizer l p a :=
    if_pos (by simp [Answer.effective, hok])
  rw [hwritten]
  cases step with
  | count action =>
    cases action with
    | disable =>
      obtain rfl : Step.drainForDisable p.active = step' := Option.some.inj h
      trivial
    | rotate mode =>
      cases mode with
      | drain =>
        obtain rfl : (if p.active = true then Step.drainForRotation else .changePassword) = step' :=
          Option.some.inj h
        cases hactive : p.active with
        | true => trivial
        | false => exact hcurrent rfl hactive
      | blueGreen =>
        obtain rfl : Step.reserveCapacity = step' := Option.some.inj h
        trivial
  | changePassword =>
    obtain rfl : Step.install a.password = step' := Option.some.inj h
    exact ⟨hready, Function.update_self ..⟩
  | install password =>
    obtain rfl : Step.record p.nextGeneration = step' := Option.some.inj h
    have hpassword : p.passwords p.row.providerResourceId = password := hready.1 ▸ hready.2
    simp [Step.Ready, Step.effect, Profile.install, Profile.nextGeneration, hpassword]
  | reserveCapacity =>
    obtain rfl : Step.create = step' := Option.some.inj h
    trivial
  | create =>
    obtain rfl : Step.installReplacement p.subusers a.password = step' := Option.some.inj h
    exact ⟨Nat.lt_succ_self _, Function.update_self ..⟩
  | installReplacement resource password =>
    obtain rfl : Step.replace resource p.nextGeneration = step' := Option.some.inj h
    refine ⟨hready.1, ?_⟩
    simp [Step.effect, Profile.install, Profile.nextGeneration, hready.2]
  | drainForDisable active =>
    cases active with
    | true => cases h
    | false =>
      obtain rfl : Step.disable = step' := Option.some.inj h
      trivial
  | disable =>
    by_cases hretire : finalizer = true ∧ l.pendingAction = some .retire
    · obtain rfl : Step.delete = step' := by simpa [Step.next, hretire] using h
      exact hretire
    · obtain rfl : Step.recordDisabled = step' := by simpa [Step.next, hretire] using h
      trivial
  | delete =>
    obtain rfl : Step.remove = step' := Option.some.inj h
    exact hready
  | remove =>
    obtain rfl : Step.recordRetired = step' := Option.some.inj h
    exact hready
  | _ => cases h

theorem ready_course (h : step.course finalizer l p a = .goes step')
    (hready : step.Ready finalizer l p)
    (hcurrent : step = .count (.rotate .drain) → p.active = false →
      p.row.providerResourceId = l.resource) :
    step'.Ready finalizer l (step.written finalizer l p a) := by
  rcases course_goes h with ⟨hok, hnext⟩ | ⟨-, -, hafter⟩
  · exact ready_next hok hnext hready hcurrent
  · rcases failure_of_afterError hafter with rfl | rfl <;> trivial

theorem ready_of_not_rotates (h : step.rotates = false)
    (hready : step.Ready finalizer l p) : step.Ready finalizer l p' := by
  cases step <;> first | exact hready | cases h

/-- What a session finds is there, as long as the secrets that it changes are kept. -/
theorem ready_of_keeps {w' : World} (hu : u.Ready w)
    (hkeep : ∀ id ∈ u.rotations, (w id).Keeps (w' id)) : u.Ready w' := by
  have hstep : ∀ {finalizer : Bool} {l : Loaded} {step : Step},
      (step.rotates = true → l.profile ∈ u.rotations) → step.Ready finalizer l (w l.profile) →
        step.Ready finalizer l (w' l.profile) := by
    intro finalizer l step hmem hready
    cases hrotates : step.rotates with
    | false => exact ready_of_not_rotates hrotates hready
    | true => exact (hkeep _ (hmem hrotates)).ready hready
  cases u with
  | acting l step => exact hstep (fun h => by simp [Session.rotations, h]) hu
  | finalizing l step rest =>
    obtain ⟨hready, hnodup, hrest⟩ := hu
    refine ⟨hstep (fun h => by simp [Session.rotations, h]) hready, hnodup, fun l' hl' hrotate => ?_⟩
    have hmem : l'.profile ∈ (Session.finalizing l step rest).rotations :=
      List.mem_append_right _ (List.mem_map_of_mem (List.mem_filter.mpr
        ⟨hl', by simp [Loaded.changes, hrotate]⟩))
    exact (hkeep _ hmem).resource.trans (hrest l' hl' hrotate)
  | _ => trivial

theorem known_written (hI : p.row.providerResourceId < p.subusers)
    (hready : step.Ready finalizer l p) :
    (step.written finalizer l p a).row.providerResourceId <
      (step.written finalizer l p a).subusers := by
  unfold Step.written
  split
  · cases step with
    | create => exact Nat.lt_succ_of_lt hI
    | replace resource generation => exact hready.1
    | _ => exact hI
  · exact hI

theorem known_run (hI : ∀ id, (w id).row.providerResourceId < (w id).subusers) (hJ : t.Ready w)
    (id : ℕ) :
    ((run w t a).1 id).row.providerResourceId < ((run w t a).1 id).subusers := by
  by_cases hrotates : id ∈ t.rotations
  · by_cases htarget : t.target = some id
    · cases t with
      | acting l step =>
        obtain rfl : l.profile = id := Option.some.inj htarget
        simp only [run, write_self]
        exact known_written (hI _) hJ
      | finalizing l step rest =>
        obtain rfl : l.profile = id := Option.some.inj htarget
        simp only [run, write_self]
        exact known_written (hI _) hJ.1
      | _ => cases hrotates
    · rw [run_of_ne htarget]
      exact hI id
  · have hkeeps := keeps_run (a := a) hJ hrotates
    rw [hkeeps.resource, hkeeps.subusers]
    exact hI id

theorem ready_nextProfile {rest : List Loaded} (h : t' ∈ nextProfile rest)
    (hnodup : (rest.map Loaded.profile).Nodup) (hrest : ∀ l ∈ rest, l.pendingAction = some .rotate →
      (w l.profile).row.providerResourceId = l.resource) : t'.Ready w := by
  cases rest with
  | nil => cases h
  | cons l rest =>
    obtain rfl : Session.finalizing l l.finalize rest = t' := Option.some.inj h
    refine ⟨?_, hnodup, fun l' hl' => hrest l' (List.mem_cons_of_mem _ hl')⟩
    unfold Loaded.finalize
    split
    · rename_i hrotate
      exact hrest l List.mem_cons_self hrotate
    · trivial

theorem nodup_select (rows : List ℕ) : ((w.select rows).map Loaded.profile).Nodup := by
  have hsame : (w.select rows).map Loaded.profile =
      (rows.dedup.filter fun id => (w id).finalizable).take 10 := by
    simp [World.select, World.load, Function.comp_def]
  rw [hsame]
  exact (((List.nodup_dedup rows).filter _).sublist (List.take_sublist _ _))

theorem ready_run {us : List Session} (hC : Exclusive w us t a) (hJ : t.Ready w)
    (ht' : t' ∈ (run w t a).2) : t'.Ready (run w t a).1 := by
  cases t with
  | profileAction profile action =>
    simp only [run, Option.mem_def] at ht'
    split at ht'
    · obtain rfl := Option.some.inj ht'
      rfl
    · cases ht'
  | finalizeDrainingProfiles =>
    simp only [run] at ht' ⊢
    split at ht'
    · refine ready_nextProfile ht' (nodup_select _) fun l hl _ => ?_
      obtain ⟨id, -, rfl⟩ := List.mem_map.mp hl
      rfl
    · cases ht'
  | reserve profile generation => cases ht'
  | close profile reservation => cases ht'
  | retired profile => cases ht'
  | acting l step =>
    simp only [run, Option.mem_def] at ht' ⊢
    cases hcourse : step.course false l (w l.profile) a with
    | goes step' =>
      rw [hcourse] at ht'
      obtain rfl : Session.acting l step' = t' := Option.some.inj ht'
      have hready := ready_course hcourse hJ fun hcount hidle => hC.2.1 hcount hidle
      simpa [Session.Ready, write_self] using hready
    | done =>
      rw [hcourse] at ht'
      cases ht'
    | ended =>
      rw [hcourse] at ht'
      cases ht'
  | finalizing l step rest =>
    obtain ⟨hready, hnodup, hrest⟩ := hJ
    obtain ⟨hnotin, hnodup'⟩ := List.nodup_cons.mp hnodup
    have hothers : ∀ l' ∈ rest, l'.pendingAction = some .rotate →
        (w.write l.profile (step.written true l (w l.profile) a) l'.profile).row.providerResourceId =
          l'.resource := by
      intro l' hl' hrotate
      have hne : l'.profile ≠ l.profile := fun heq =>
        hnotin (heq ▸ List.mem_map_of_mem hl')
      rw [write_of_ne w _ hne]
      exact hrest l' hl' hrotate
    simp only [run, Option.mem_def] at ht' ⊢
    cases hcourse : step.course true l (w l.profile) a with
    | goes step' =>
      rw [hcourse] at ht'
      obtain rfl : Session.finalizing l step' rest = t' := Option.some.inj ht'
      have hnext := ready_course hcourse hready fun hcount _ => by
        rw [hcount] at hready
        cases hready
      exact ⟨by rw [write_self]; exact hnext, hnodup, hothers⟩
    | done =>
      rw [hcourse] at ht'
      exact ready_nextProfile ht' hnodup' hothers
    | ended =>
      rw [hcourse] at ht'
      cases ht'

/-- **Rotations that do not overlap do not disturb each other.** -/
theorem exclusive_guards :
    sessions.Guards (fun w => ∀ id, (w id).row.providerResourceId < (w id).subusers)
      (fun w t => t.Ready w) (fun t u => ∀ id ∈ t.rotations, id ∉ u.rotations) (fun _ => True)
      Exclusive where
  symm t u h id hu ht := h id ht hu
  start w request _ _ := by cases request <;> trivial
  apart request u id _ hid := by cases request <;> cases hid
  shared w us t a _ hI hJ := known_run hI hJ
  own w us t a hC _ hJ t' ht' := ready_run hC hJ ht'
  other w us t a hC _ hJ u hu hJu hK := by
    refine ⟨ready_of_keeps hJu fun id hid => keeps_run hJ (hK id hid), fun t' ht' id hid hid' => ?_⟩
    by_cases hold : id ∈ t.rotations
    · exact hK id hid hold
    · exact hC.1 t' ht' id hid' hold u hu hid

/-! ## Disagreements are in progress -/

/-- A profile that can be reserved and that does not agree. -/
def Profile.astray (p : Profile) : ℕ := if p.serving = true ∧ ¬ p.Agrees then 1 else 0

theorem astray_le_one (p : Profile) : p.astray ≤ 1 := by
  unfold Profile.astray
  split
  · exact le_rfl
  · exact Nat.zero_le 1

theorem astray_of_agrees (h : p.Agrees) : p.astray = 0 := if_neg fun h' => h'.2 h

theorem astray_of_not_serving (h : p.serving = false) : p.astray = 0 :=
  if_neg fun h' => Bool.false_ne_true (h.symm.trans h'.1)

theorem Profile.Keeps.astray_le (h : p.Keeps p') : p'.astray ≤ p.astray := by
  by_cases hserving : p'.serving = true
  · by_cases hagrees : p.Agrees
    · rw [astray_of_agrees (h.agrees hagrees)]
      exact Nat.zero_le _
    · have hastray : p.astray = 1 := if_pos ⟨h.serving hserving, hagrees⟩
      rw [hastray]
      exact astray_le_one p'
  · rw [astray_of_not_serving (Bool.eq_false_iff.mpr hserving)]
    exact Nat.zero_le _

/-- The writes of the secret file and the changes at the provider leave what can be reserved. -/
theorem serving_changes (step : Step) (h : step = .changePassword ∨ (∃ q, step = .install q) ∨
    (∃ r q, step = .installReplacement r q) ∨ step = .remove) :
    (step.written finalizer l p a).serving = p.serving := by
  unfold Step.written
  split
  · rcases h with rfl | ⟨q, rfl⟩ | ⟨r, q, rfl⟩ | rfl <;> rfl
  · rfl

theorem written_of_ineffective (h : a.effective = false) : step.written finalizer l p a = p :=
  if_neg (by rw [h]; exact Bool.false_ne_true)

theorem written_of_effective (h : a.effective = true) :
    step.written finalizer l p a = step.effect finalizer l p a := if_pos h

theorem effective_eq_false (hok : a.outcome ≠ .ok) (h : a.tookEffect = false) :
    a.effective = false := by
  simp [Answer.effective, hok, h]

theorem course_ok (hok : a.outcome = .ok) (hnext : step.next finalizer l p a = some step') :
    step.course finalizer l p a = .goes step' := by
  rw [Step.course, if_pos hok, hnext]

theorem course_caught (hok : a.outcome ≠ .ok) (hcatches : step.catches finalizer a.outcome = true)
    (hafter : step.afterError finalizer a.outcome = some step') :
    step.course finalizer l p a = .goes step' := by
  rw [Step.course, if_neg hok, if_pos hcatches, hafter]

/-- A call or a write that ends its session without having taken effect leaves its profile; one that
took effect is exposed. -/
theorem astray_of_escape (hstep : step = .changePassword ∨ (∃ q, step = .install q) ∨
      (∃ r q, step = .installReplacement r q) ∨ step = .remove)
    (hdirty : step.dirtyFor finalizer l = false) (hok : a.outcome ≠ .ok)
    (hexposed : a.tookEffect = true → p.serving = false) :
    (step.written finalizer l p a).astray = 0 ∨
      step.dirtyFor finalizer l = false ∧ (step.written finalizer l p a).astray ≤ p.astray := by
  cases htook : a.tookEffect with
  | true =>
    exact Or.inl (astray_of_not_serving ((serving_changes step hstep).trans (hexposed htook)))
  | false =>
    rw [written_of_ineffective (effective_eq_false hok htook)]
    exact Or.inr ⟨hdirty, le_rfl⟩

/-- **How a rotation or a retirement leaves its profile**, when it does not go on with something
changed: the profile agrees or cannot be reserved, or nothing has been changed so far. -/
theorem astray_written (hI : p.row.providerResourceId < p.subusers)
    (hready : step.Ready finalizer l p)
    (hexposed : step.exposed finalizer l a = true → p.serving = false)
    (hclean : ∀ step', step.course finalizer l p a = .goes step' →
      step'.dirtyFor finalizer l = false) :
    (step.written finalizer l p a).astray = 0 ∨
      step.dirtyFor finalizer l = false ∧ (step.written finalizer l p a).astray ≤ p.astray := by
  have hplain : step.rotates = false → step ≠ .remove → step.dirtyFor finalizer l = false →
      (step.written finalizer l p a).astray = 0 ∨
        step.dirtyFor finalizer l = false ∧ (step.written finalizer l p a).astray ≤ p.astray :=
    fun hrotates hremove hdirty =>
      Or.inr ⟨hdirty, (keeps_written hrotates hremove).astray_le⟩
  -- a row that is not written is one of a session that was cut off
  have hwrites : (a.effective = false → step.exposed finalizer l a = true) →
      (a.effective = true → (step.effect finalizer l p a).astray = 0) →
        (step.written finalizer l p a).astray = 0 := by
    intro hcut hdone
    cases heffective : a.effective with
    | true =>
      rw [written_of_effective heffective]
      exact hdone heffective
    | false =>
      rw [written_of_ineffective heffective]
      exact astray_of_not_serving (hexposed (hcut heffective))
  cases step with
  | count action => exact hplain rfl (by simp) (by simp [Step.dirtyFor, Step.dirty])
  | drainForRotation => exact hplain rfl (by simp) (by simp [Step.dirtyFor, Step.dirty])
  | reserveCapacity => exact hplain rfl (by simp) (by simp [Step.dirtyFor, Step.dirty])
  | drainForDisable active => exact hplain rfl (by simp) (by simp [Step.dirtyFor, Step.dirty])
  | disable => exact hplain rfl (by simp) (by simp [Step.dirtyFor, Step.dirty])
  | recordDisabled => exact hplain rfl (by simp) (by simp [Step.dirtyFor, Step.dirty])
  | delete => exact hplain rfl (by simp) (by simp [Step.dirtyFor, Step.dirty])
  | changePassword =>
    cases houtcome : a.outcome with
    | ok =>
      have hdirty := hclean _ (course_ok houtcome rfl)
      exact absurd hdirty (by simp [Step.dirtyFor, Step.dirty])
    | caught =>
      have hdirty := hclean .rotationFailed (course_caught (by simp [houtcome])
        (by simp [Step.catches, houtcome]) (by simp [Step.afterError, houtcome]))
      exact absurd hdirty (by simp [Step.dirtyFor, Step.dirty])
    | providerError =>
      cases finalizer with
      | true =>
        have hdirty := hclean .rotationFailed (course_caught (by simp [houtcome])
          (by simp [Step.catches, houtcome]) (by simp [Step.afterError]))
        exact absurd hdirty (by simp [Step.dirtyFor, Step.dirty])
      | false =>
        exact astray_of_escape (Or.inl rfl) (by simp [Step.dirtyFor, Step.dirty])
          (by simp [houtcome]) fun htook => hexposed (by simp [Step.exposed, htook, houtcome])
    | escaped =>
      exact astray_of_escape (Or.inl rfl) (by simp [Step.dirtyFor, Step.dirty])
        (by simp [houtcome]) fun htook => hexposed (by simp [Step.exposed, htook, houtcome])
  | install password =>
    cases houtcome : a.outcome with
    | ok =>
      have hdirty := hclean _ (course_ok houtcome rfl)
      exact absurd hdirty (by simp [Step.dirtyFor, Step.dirty])
    | escaped =>
      exact Or.inl (astray_of_not_serving ((serving_changes _ (Or.inr (Or.inl ⟨_, rfl⟩))).trans
        (hexposed (by simp [Step.exposed, houtcome]))))
    | _ =>
      have hdirty := hclean .rotationFailed (course_caught (by simp [houtcome])
        (by simp [Step.catches, houtcome]) rfl)
      exact absurd hdirty (by simp [Step.dirtyFor, Step.dirty])
  | record generation =>
    exact Or.inl (hwrites (fun h => by simp [Step.exposed, h]) fun _ => astray_of_agrees hready)
  | create =>
    refine Or.inr ⟨by simp [Step.dirtyFor, Step.dirty], ?_⟩
    unfold Step.written
    split
    · have hpassword : Function.update p.passwords p.subusers a.password
          p.row.providerResourceId = p.passwords p.row.providerResourceId :=
        Function.update_of_ne (Nat.ne_of_lt hI) ..
      simp [Profile.astray, Profile.serving, Profile.Agrees, Step.effect, hpassword]
    · exact le_rfl
  | installReplacement resource password =>
    cases houtcome : a.outcome with
    | ok =>
      have hdirty := hclean _ (course_ok houtcome rfl)
      exact absurd hdirty (by simp [Step.dirtyFor, Step.dirty])
    | escaped =>
      exact astray_of_escape (Or.inr (Or.inr (Or.inl ⟨_, _, rfl⟩)))
        (by simp [Step.dirtyFor, Step.dirty]) (by simp [houtcome])
        fun htook => hexposed (by simp [Step.exposed, htook, houtcome])
    | _ =>
      have hdirty := hclean .rotationFailed (course_caught (by simp [houtcome])
        (by simp [Step.catches, houtcome]) rfl)
      exact absurd hdirty (by simp [Step.dirtyFor, Step.dirty])
  | replace resource generation =>
    exact Or.inl (hwrites (fun h => by simp [Step.exposed, h]) fun _ => astray_of_agrees hready.2)
  | rotationFailed =>
    exact Or.inl (hwrites (fun h => by simp [Step.exposed, h]) fun _ => astray_of_not_serving rfl)
  | remove =>
    obtain ⟨rfl, hretire⟩ := hready
    cases houtcome : a.outcome with
    | ok =>
      have hdirty := hclean _ (course_ok houtcome rfl)
      exact absurd hdirty (by simp [Step.dirtyFor, hretire])
    | escaped =>
      exact astray_of_escape (Or.inr (Or.inr (Or.inr rfl)))
        (by simp [Step.dirtyFor, Step.dirty]) (by simp [houtcome])
        fun htook => hexposed (by simp [Step.exposed, htook, houtcome])
    | _ =>
      have hdirty := hclean .closingFailed (course_caught (by simp [houtcome])
        (by simp [Step.catches, houtcome]) rfl)
      exact absurd hdirty (by simp [Step.dirtyFor, hretire])
  | recordRetired =>
    exact Or.inl (hwrites (fun h => by simp [Step.exposed, h]) fun _ => astray_of_not_serving rfl)
  | closingFailed =>
    cases heffective : a.effective with
    | true =>
      rw [written_of_effective heffective]
      exact Or.inl (astray_of_not_serving rfl)
    | false =>
      rw [written_of_ineffective heffective]
      by_cases hretire : l.pendingAction = some .retire
      · exact Or.inl (astray_of_not_serving (hexposed (by simp [Step.exposed, hretire, heffective])))
      · exact Or.inr ⟨by simp [Step.dirtyFor, Step.dirty, hretire], le_rfl⟩

/-- Whether a session has changed the secret of a profile, and is not done with it. -/
def Session.disturbs (id : ℕ) (t : Session) : ℕ := if t.dirty = some id then 1 else 0

theorem rotations_of_dirty (h : t.dirty = some id) : id ∈ t.rotations := by
  have hrotates : ∀ {finalizer : Bool} {l : Loaded} {step : Step},
      step.dirtyFor finalizer l = true →
        step.rotates = true ∨ finalizer = true ∧ l.pendingAction = some .retire := by
    intro finalizer l step hdirty
    simp only [Step.dirtyFor, Bool.or_eq_true, Bool.and_eq_true, beq_iff_eq] at hdirty
    rcases hdirty with hdirty | ⟨hretire, -⟩
    · left
      cases step <;> first | rfl | cases hdirty
    · exact Or.inr hretire
  cases t with
  | acting l step =>
    simp only [Session.dirty] at h
    split at h
    · obtain rfl : l.profile = id := Option.some.inj h
      rcases hrotates ‹_› with hstep | ⟨hfalse, -⟩
      · simp [Session.rotations, hstep]
      · cases hfalse
    · cases h
  | finalizing l step rest =>
    simp only [Session.dirty] at h
    split at h
    · obtain rfl : l.profile = id := Option.some.inj h
      rcases hrotates ‹_› with hstep | ⟨-, hretire⟩
      · simp [Session.rotations, hstep]
      · simp [Session.rotations, Loaded.changes, hretire]
    · cases h
  | _ => cases h

theorem target_of_dirty (h : t.dirty = some id) : t.target = some id := by
  cases t with
  | acting l step =>
    simp only [Session.dirty] at h
    split at h
    · exact h
    · cases h
  | finalizing l step rest =>
    simp only [Session.dirty] at h
    split at h
    · exact h
    · cases h
  | _ => cases h

theorem disturbs_of_not_rotating (h : id ∉ t.rotations) : t.disturbs id = 0 :=
  if_neg fun hdirty => h (rotations_of_dirty hdirty)

/-- **What is astray after a step is in progress.** -/
theorem astray_run {us : List Session} (hC : Exclusive w us t a)
    (hI : ∀ id, (w id).row.providerResourceId < (w id).subusers) (hJ : t.Ready w) :
    ((run w t a).1 id).astray ≤ ((run w t a).2.map (Session.disturbs id)).getD 0 ∨
      ((run w t a).1 id).astray + t.disturbs id ≤
        (w id).astray + ((run w t a).2.map (Session.disturbs id)).getD 0 := by
  have hidle : id ∉ t.rotations → ((run w t a).1 id).astray + t.disturbs id ≤
      (w id).astray + ((run w t a).2.map (Session.disturbs id)).getD 0 := by
    intro hrotates
    have hle := (keeps_run (a := a) hJ hrotates).astray_le
    rw [disturbs_of_not_rotating hrotates]
    omega
  by_cases htarget : t.target = some id
  · cases t with
    | acting l step =>
      obtain rfl : l.profile = id := Option.some.inj htarget
      by_cases hgoes : ∃ step', step.course false l (w l.profile) a = .goes step' ∧
          step'.dirtyFor false l = true
      · obtain ⟨step', hcourse, hdirty⟩ := hgoes
        left
        have hnext : ((run w (.acting l step) a).2.map (Session.disturbs l.profile)).getD 0 = 1 := by
          simp [run, hcourse, Session.disturbs, Session.dirty, hdirty]
        rw [hnext]
        exact astray_le_one _
      · have hclean : ∀ step', step.course false l (w l.profile) a = .goes step' →
            step'.dirtyFor false l = false := fun step' hcourse =>
          Bool.eq_false_iff.mpr fun hdirty => hgoes ⟨step', hcourse, hdirty⟩
        have hwrite : (run w (.acting l step) a).1 l.profile = step.written false l (w l.profile) a :=
          write_self ..
        rw [hwrite]
        rcases astray_written (hI _) hJ hC.2.2 hclean with hzero | ⟨hdirty, hle⟩
        · left
          rw [hzero]
          exact Nat.zero_le _
        · right
          have hdisturbs : (Session.acting l step).disturbs l.profile = 0 := by
            simp [Session.disturbs, Session.dirty, hdirty]
          rw [hdisturbs]
          exact le_trans hle (Nat.le_add_right _ _)
    | finalizing l step rest =>
      obtain rfl : l.profile = id := Option.some.inj htarget
      by_cases hgoes : ∃ step', step.course true l (w l.profile) a = .goes step' ∧
          step'.dirtyFor true l = true
      · obtain ⟨step', hcourse, hdirty⟩ := hgoes
        left
        have hnext : ((run w (.finalizing l step rest) a).2.map
            (Session.disturbs l.profile)).getD 0 = 1 := by
          simp [run, hcourse, Session.disturbs, Session.dirty, hdirty]
        rw [hnext]
        exact astray_le_one _
      · have hclean : ∀ step', step.course true l (w l.profile) a = .goes step' →
            step'.dirtyFor true l = false := fun step' hcourse =>
          Bool.eq_false_iff.mpr fun hdirty => hgoes ⟨step', hcourse, hdirty⟩
        have hwrite : (run w (.finalizing l step rest) a).1 l.profile =
            step.written true l (w l.profile) a := write_self ..
        rw [hwrite]
        rcases astray_written (hI _) hJ.1 hC.2 hclean with
          hzero | ⟨hdirty, hle⟩
        · left
          rw [hzero]
          exact Nat.zero_le _
        · right
          have hdisturbs : (Session.finalizing l step rest).disturbs l.profile = 0 := by
            simp [Session.disturbs, Session.dirty, hdirty]
          rw [hdisturbs]
          exact le_trans hle (Nat.le_add_right _ _)
    | _ => exact Or.inr (hidle List.not_mem_nil)
  · right
    have hclean : t.disturbs id = 0 := if_neg fun hdirty => htarget (target_of_dirty hdirty)
    rw [run_of_ne htarget, hclean]
    exact Nat.le_add_right _ _

/-! ## Every run -/

/-- A turn of the sessions. -/
abbrev SessionTurn := Turn Request Answer

/-- **Passwords.**  In the runs in which the rotations of a profile do not overlap and none is cut
off, the secret file holds the password that was last set for the sub-user of a profile and the
generation of its row, whenever the profile can be reserved and no rotation of it is in progress.
In the runs in which no reservation is made between the count of an operation and its call, no call
changes, disables or deletes a sub-user while a reservation of it is active. -/
theorem passwords_agree (w : World) (hw : ∀ id, (w id).Settled) (turns : List SessionTurn) :
    (Trace.Along sessions.step (Program.MeetsAmong Exclusive) ⟨w, []⟩ turns →
        ∀ id, ((sessions.after ⟨w, []⟩ turns).shared id).serving = true →
          (∀ t ∈ (sessions.after ⟨w, []⟩ turns).tasks, id ∉ t.rotations) →
            ((sessions.after ⟨w, []⟩ turns).shared id).Agrees) ∧
      (Trace.Along sessions.step (Program.MeetsAmong Unreserved) ⟨w, []⟩ turns →
        ∀ id, ((sessions.after ⟨w, []⟩ turns).shared id).interrupted = []) := by
  refine ⟨fun hexclusive id hserving hidle => ?_, fun hunreserved id => ?_⟩
  · have hsettled : (w id).astray = 0 := by
      refine if_neg fun h => h.2 ((hw id).agrees h.1)
    have hcover := exclusive_guards.covered (m := fun w => (w id).astray)
      (w := Session.disturbs id) (fun w us t a hC hI hJ => astray_run hC hI hJ)
      (.of_shared fun id => (hw id).known) (hsettled ▸ Nat.zero_le _) (fun _ _ => trivial) hexclusive
    have howed : Program.owed (Session.disturbs id) (sessions.after ⟨w, []⟩ turns) = 0 := by
      refine List.sum_eq_zero fun x hx => ?_
      obtain ⟨t, ht, rfl⟩ := List.mem_map.mp hx
      exact disturbs_of_not_rotating (hidle t ht)
    by_contra hagrees
    have hastray : ((sessions.after ⟨w, []⟩ turns).shared id).astray = 1 := if_pos ⟨hserving, hagrees⟩
    rw [howed, hastray] at hcover
    cases hcover
  · exact (unreserved_guards.after (.of_shared fun id => (hw id).spared) (fun _ _ => trivial)
      hunreserved).shared id

/-- A profile that can be reserved. -/
def pooled : Profile where
  row := { providerResourceId := 0, enabled := true, lifecycle := .enabled, secretGeneration := 1 }
  subusers := 1
  passwords := fun _ => 0
  secret := some ⟨0, 1⟩

/-- A rotation of a profile, and so many of its steps, with the password that it generates. -/
def rotation (position steps password : ℕ) : List SessionTurn :=
  List.replicate steps (.resume position { password })

/-- Two rotations whose writes of the secret file and of the row are in opposite orders. -/
def crossed : List SessionTurn :=
  [.spawn (.profileAction 0 (.rotate .drain)), .spawn (.profileAction 0 (.rotate .drain))] ++
    rotation 0 3 1 ++ rotation 1 4 2 ++ rotation 0 2 1 ++ rotation 0 1 2

/-- A rotation that has counted no reservation when one is made. -/
def overtaken : List SessionTurn :=
  .spawn (.profileAction 0 (.rotate .drain)) :: rotation 0 2 1 ++
    [.spawn (.reserve 0 1), .resume 1 {}] ++ rotation 0 1 1

/-- Two rotations that overlap leave another password in the secret file than at the provider, and a
rotation changes the password of a sub-user that was reserved after the count. -/
theorem rotations_cross :
    ((sessions.after ⟨fun _ => pooled, []⟩ crossed).tasks = [] ∧
      ((sessions.after ⟨fun _ => pooled, []⟩ crossed).shared 0).serving = true ∧
      ¬ ((sessions.after ⟨fun _ => pooled, []⟩ crossed).shared 0).Agrees) ∧
    ((sessions.after ⟨fun _ => pooled, []⟩ overtaken).shared 0).interrupted = [⟨0, 1, 0⟩] := by
  decide +kernel

/-- A profile that is rotated, reserved and rotated again when the reservation is closed. -/
def inTurn : List SessionTurn :=
  .spawn (.profileAction 0 (.rotate .drain)) :: rotation 0 5 1 ++
    [.spawn (.reserve 0 2), .resume 0 {}, .spawn (.close 0 0), .resume 0 {},
      .spawn (.profileAction 0 (.rotate .drain))] ++ rotation 0 5 2

/-- After two rotations in turn the password agrees, and the reservation was not interrupted. -/
theorem rotated_in_turn :
    (((sessions.after ⟨fun _ => pooled, []⟩ inTurn).shared 0).serving = true →
        (∀ t ∈ (sessions.after ⟨fun _ => pooled, []⟩ inTurn).tasks, 0 ∉ t.rotations) →
          ((sessions.after ⟨fun _ => pooled, []⟩ inTurn).shared 0).Agrees) ∧
      ((sessions.after ⟨fun _ => pooled, []⟩ inTurn).shared 0).interrupted = [] := by
  obtain ⟨hagrees, hspared⟩ := passwords_agree (fun _ => pooled)
    (fun _ => ⟨by decide, fun _ => by decide, rfl⟩) inTurn
  exact ⟨hagrees (by decide +kernel) 0, hspared (by decide +kernel) 0⟩

example : (sessions.after ⟨fun _ => pooled, []⟩ inTurn).tasks = [] ∧
    ((sessions.after ⟨fun _ => pooled, []⟩ inTurn).shared 0).row.secretGeneration = 3 := by
  decide +kernel

end Passwords

end CommerceCollector
