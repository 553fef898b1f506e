import CommerceCollector.Proxy.Finalizing

/-!
# Retirements are finalised once

A suspended request holds the retirements it works on (`FinalizerTask.holds`), each in the state in
which it needs it: a rotation the one it is creating, a round those it has selected.  If no round
selects what another one holds, and no process stops while it is creating or finalizing one
(`Finalization.Orderly`), then no two requests hold the same retirement, a completed one stays
completed, and one that is unfinished and quiet is held or will be selected
(`retirements_finalised`). Two rounds that overlap mark a completed retirement as failed
(`completed_retirement_failed`).
-/

namespace CommerceCollector

open Relational Transaction Tasks

/-! ## The retirements that a request holds -/

/-- Rows that a round has selected and not begun. -/
def waiting (rows : List ProfileRetirement) : List (Uuid × RetirementState) :=
  rows.map fun x => (x.id, .draining)

/-- The retirements that a suspended request holds, with the states in which it needs them. -/
def FinalizerTask.holds : FinalizerTask → List (Uuid × RetirementState)
  | .request (.replacing _ _ id _) => [(id, .creating)]
  | .request (.finalizingRetirements _ rows) => waiting rows
  | .request (.finalizing _ row rest) => (row.id, .finalizing) :: waiting rest
  | .request (.finalizeFailed _ rest) => waiting rest
  | .request _ => []
  | .deleting _ row rest => (row.id, .finalizing) :: waiting rest
  | .limiting _ row rest => (row.id, .finalizing) :: waiting rest
  | .completing _ row rest => (row.id, .finalizing) :: waiting rest
  | .failing _ row rest _ => (row.id, .finalizing) :: waiting rest
  | .killing _ row rest => (row.id, .failed) :: waiting rest

/-- The retirements that a suspended request holds. -/
def FinalizerTask.ids (t : FinalizerTask) : List Uuid := t.holds.map Prod.fst

/-- The retirements that the requests hold. -/
def heldIds (tasks : List FinalizerTask) : List Uuid := tasks.flatMap FinalizerTask.ids

/-- The retirement is being created or finalized. -/
def RetirementState.busy (state : RetirementState) : Bool :=
  state == .creating || state == .finalizing

namespace Finalization

/-- The retirements that are neither completed nor failed. -/
def unfinished (s : Finalization) : ℕ := s.db.retirements.countP ProfileRetirement.inProgress

/-! ## The condition and the property -/

/-- The request ends at its call. -/
def interrupts : FinalizerTask → ProfileReply → Bool
  | _, .lost => true
  | .request (.finalizing _ _ _), .answer _ (.localError _) => true
  | .deleting _ _ _, .answer _ (.localError _) => true
  | .limiting _ _ _, .answer _ (.localError _) => true
  | _, _ => false

/-- The rows that a request selects. -/
def selects (s : Finalization) : FinalizerTask → List ProfileRetirement
  | .request (.requested (.finalizeRetirements provider locked)) =>
    s.db.drainedRetirements provider locked
  | _ => []

/-- The request begins a rotation. -/
def rotates : FinalizerTask → Bool
  | .request (.counted w _) => w.action == .rotate .blueGreen
  | _ => false

/-- No process stops while it is creating or finalizing a retirement, no round selects what another
one holds, and no rotation begins while ten retirements are unfinished. -/
def Orderly (p : Pool Finalization FinalizerTask) : Turn ProfileRequest ProfileReply → Prop
  | .spawn _ => True
  | .resume i reply => ∀ t ∈ p.tasks[i]?,
    (interrupts t reply = true → ∀ h ∈ t.holds, h.2.busy = false) ∧
    (interrupts t reply = false → ∀ x ∈ p.shared.selects t, x.id ∉ heldIds p.tasks) ∧
    (rotates t = true → p.shared.unfinished < 10)

instance (p : Pool Finalization FinalizerTask) :
    ∀ turn : Turn ProfileRequest ProfileReply, Decidable (Orderly p turn)
  | .spawn _ => inferInstanceAs (Decidable True)
  | .resume i reply => inferInstanceAs (Decidable (∀ t ∈ p.tasks[i]?,
    (interrupts t reply = true → ∀ h ∈ t.holds, h.2.busy = false) ∧
    (interrupts t reply = false → ∀ x ∈ p.shared.selects t, x.id ∉ heldIds p.tasks) ∧
    (rotates t = true → p.shared.unfinished < 10)))

/-- No open reservation was made under the generation that the retirement retires. -/
def Quiet (s : Finalization) (x : ProfileRetirement) : Prop :=
  ∀ r ∈ s.db.reservations,
    ¬ (r.profileId = x.profileId ∧ r.secretGeneration = x.oldSecretGeneration)

/-- Retirements are finalised once and not forgotten: no completed one is failed, the kill switch
was not set on account of a completed one, and one that is unfinished and quiet is held by a live
request or selected by the next call. -/
structure FinalisedOnce (p : Pool Finalization FinalizerTask) : Prop where
  completed : ∀ id ∈ p.shared.completed, p.shared.db.retirementState id ≠ some .failed
  blamed : ∀ id ∈ p.shared.blamed, id ∉ p.shared.completed
  remembered : ∀ x ∈ p.shared.db.retirements, x.inProgress = true → p.shared.Quiet x →
    x.id ∈ heldIds p.tasks ∨ ∀ provider, p.shared.db.belongsTo provider x.profileId = true →
      x ∈ p.shared.db.drainedRetirements provider []

/-! ## One step and the retirements -/

/-- What the step of a request does to the retirements. -/
structure Moves (s : Finalization) (t : FinalizerTask) (r : Finalization × Option FinalizerTask) :
    Prop where
  keyed : Keyed ProfileRetirement.id r.1.db.retirements
  others : ∀ id state, id ∉ t.ids → s.db.retirementState id = some state →
    r.1.db.retirementState id = some state
  settled : ∀ id state, state = .completed ∨ state = .failed →
    s.db.retirementState id = some state → r.1.db.retirementState id = some state
  phases : ∀ u ∈ r.2, ∀ h ∈ u.holds, r.1.db.retirementState h.1 = some h.2
  distinct : ∀ u ∈ r.2, u.ids.Nodup
  taken : ∀ u ∈ r.2, ∀ id ∈ u.ids, id ∈ t.ids ∨ s.db.retirementState id = none ∨
    id ∈ (s.selects t).map ProfileRetirement.id
  live : ∀ id state, r.1.db.retirementState id = some state → state.busy = true →
    (∃ u ∈ r.2, (id, state) ∈ u.holds) ∨ id ∉ t.ids ∧ s.db.retirementState id = some state
  completed : ∀ id ∈ r.1.completed, id ∈ s.completed ∨ r.1.db.retirementState id = some .completed
  blamed : ∀ id ∈ r.1.blamed, id ∈ s.blamed ∨ r.1.db.retirementState id = some .failed
  few : r.1.unfinished ≤ s.unfinished + (if rotates t = true then 1 else 0)

/-- The rows that a suspended request holds are as it needs them. -/
structure Fits (s : Finalization) (t : FinalizerTask) : Prop where
  phases : ∀ h ∈ t.holds, s.db.retirementState h.1 = some h.2
  distinct : t.ids.Nodup

section Moves

variable {s : Finalization} {t : FinalizerTask}

variable {r : Finalization × Option FinalizerTask}

theorem moves_same (hkeyed : Keyed ProfileRetirement.id s.db.retirements) (hfits : s.Fits t)
    (hsame : r.1.db.retirements = s.db.retirements) (hcompleted : r.1.completed = s.completed)
    (hblamed : ∀ id ∈ r.1.blamed, id ∈ s.blamed ∨ (id, .failed) ∈ t.holds)
    (hsub : ∀ u ∈ r.2, u.holds.Sublist t.holds)
    (hlive : ∀ h ∈ t.holds, h.2.busy = true → ∃ u ∈ r.2, h ∈ u.holds) : s.Moves t r := by
  have hstate : r.1.db.retirementState = s.db.retirementState := by
    funext id
    rw [ProxyProfiles.retirementState, ProxyProfiles.retirementState, hsame]
  refine { keyed := hsame ▸ hkeyed, others := fun id state _ h => by rw [hstate]; exact h,
           settled := fun id state _ h => by rw [hstate]; exact h,
           phases := fun u hu h hh => ?_, distinct := fun u hu => ?_,
           taken := fun u hu id hid => ?_, live := fun id state hid hbusy => ?_,
           completed := fun id hid => .inl (hcompleted ▸ hid),
           blamed := fun id hid => ?_, few := ?_ }
  · rw [hstate]
    exact hfits.phases h ((hsub u hu).subset hh)
  · exact hfits.distinct.sublist ((hsub u hu).map Prod.fst)
  · exact .inl (((hsub u hu).map Prod.fst).subset hid)
  · rw [hstate] at hid
    by_cases hheld : id ∈ t.ids
    · obtain ⟨⟨k, st⟩, hh, rfl⟩ := List.mem_map.mp hheld
      obtain rfl := Option.some.inj ((hfits.phases _ hh).symm.trans hid)
      exact .inl (hlive _ hh hbusy)
    · exact .inr ⟨hheld, hid⟩
  · rw [hstate]
    rcases hblamed id hid with hold | hfailed
    · exact .inl hold
    · exact .inr (hfits.phases _ hfailed)
  · rw [unfinished, unfinished, hsame]
    exact Nat.le_add_right _ _

theorem countP_update_le {α : Type*} {p q : α → Bool} {f : α → α} {rows : List α}
    (h : ∀ x ∈ rows, p x = true → q x = true) : (update p f rows).countP q ≤ rows.countP q := by
  rw [update, List.countP_map]
  refine List.countP_mono_left fun x hx hq => ?_
  by_cases hp : p x = true
  · exact h x hx hp
  · simpa [hp] using hq

/-- A step that moves on the first of the retirements that the request holds. -/
theorem moves_update {id : Uuid} {old : RetirementState} {rest : List (Uuid × RetirementState)}
    (f : ProfileRetirement → ProfileRetirement) (state : RetirementState)
    (hkeyed : Keyed ProfileRetirement.id s.db.retirements) (hfits : s.Fits t)
    (hholds : t.holds = (id, old) :: rest) (hrest : ∀ h ∈ rest, h.2.busy = false)
    (hf : ∀ x, (f x).id = x.id ∧ (f x).state = state)
    (hsame : r.1.db.retirements = (s.db.updateRetirement id f).retirements)
    (hold : old ≠ .completed ∧ old ≠ .failed)
    (hcompleted : ∀ k ∈ r.1.completed, k ∈ s.completed ∨ k = id ∧ state = .completed)
    (hblamed : r.1.blamed = s.blamed) (hsub : ∀ u ∈ r.2, u.holds.Sublist ((id, state) :: rest))
    (hlive : state.busy = true → ∃ u ∈ r.2, (id, state) ∈ u.holds) : s.Moves t r := by
  have hown : s.db.retirementState id = some old :=
    hfits.phases (id, old) (hholds ▸ List.mem_cons_self)
  have hstate : ∀ k, r.1.db.retirementState k =
      (s.db.retirementState k).map fun st => if k = id then state else st := by
    intro k
    rw [← ProxyProfiles.retirementState_update hf, ProxyProfiles.retirementState, hsame]
    rfl
  have hnow : r.1.db.retirementState id = some state := by
    rw [hstate, hown, Option.map_some, if_pos rfl]
  have hother : ∀ k st, k ≠ id → s.db.retirementState k = some st →
      r.1.db.retirementState k = some st := by
    intro k st hne hst
    rw [hstate, hst, Option.map_some, if_neg hne]
  have hids : t.ids = id :: rest.map Prod.fst := by rw [FinalizerTask.ids, hholds, List.map_cons]
  have hdistinct : (id :: rest.map Prod.fst).Nodup := hids ▸ hfits.distinct
  have hne : ∀ h ∈ rest, h.1 ≠ id := by
    intro h hh heq
    exact (List.nodup_cons.mp hdistinct).1 (heq ▸ List.mem_map_of_mem hh)
  refine { keyed := ?_, others := fun k st hk hst => hother k st (fun heq => ?_) hst,
           settled := fun k st hst hk => ?_, phases := fun u hu h hh => ?_,
           distinct := fun u hu => hdistinct.sublist ((hsub u hu).map Prod.fst),
           taken := fun u hu k hk => .inl (hids ▸ ((hsub u hu).map Prod.fst).subset hk),
           live := fun k st hk hbusy => ?_, completed := fun k hk => ?_,
           blamed := fun k hk => .inl (hblamed ▸ hk), few := ?_ }
  · rw [hsame]
    exact hkeyed.update fun x => (hf x).1
  · exact hk (hids ▸ heq ▸ List.mem_cons_self)
  · refine hother k st (fun heq => ?_) hk
    rw [heq, hown] at hk
    obtain rfl := Option.some.inj hk
    rcases hst with rfl | rfl
    · exact hold.1 rfl
    · exact hold.2 rfl
  · rcases List.mem_cons.mp ((hsub u hu).subset hh) with rfl | hmem
    · exact hnow
    · refine hother h.1 h.2 (hne h hmem) (hfits.phases h ?_)
      rw [hholds]
      exact List.mem_cons_of_mem _ hmem
  · by_cases heq : k = id
    · subst heq
      obtain rfl := Option.some.inj (hnow.symm.trans hk)
      exact .inl (hlive hbusy)
    · rw [hstate] at hk
      obtain ⟨st', hst', heq'⟩ := Option.map_eq_some_iff.mp hk
      rw [if_neg heq] at heq'
      subst heq'
      refine .inr ⟨fun hmem => ?_, hst'⟩
      rcases List.mem_cons.mp (hids ▸ hmem) with rfl | hmem
      · exact heq rfl
      · obtain ⟨h, hh, rfl⟩ := List.mem_map.mp hmem
        have hphase := hfits.phases h (hholds ▸ List.mem_cons_of_mem _ hh)
        obtain rfl := Option.some.inj (hphase.symm.trans hst')
        rw [hrest h hh] at hbusy
        cases hbusy
  · rcases hcompleted k hk with hk | ⟨rfl, rfl⟩
    · exact .inl hk
    · exact .inr hnow
  · rw [unfinished, unfinished, hsame]
    refine (countP_update_le fun x hx hid => ?_).trans (Nat.le_add_right _ _)
    have hfind := hkeyed.find?_eq_some hx
    have hx' : s.db.retirementState x.id = some x.state := by
      rw [ProxyProfiles.retirementState, hfind, Option.map_some]
    rw [beq_iff_eq.mp hid, hown] at hx'
    rw [ProfileRetirement.inProgress, ← Option.some.inj hx']
    cases old with
    | completed => exact absurd rfl hold.1
    | failed => exact absurd rfl hold.2
    | _ => rfl

section

variable (hkeyed : Keyed ProfileRetirement.id s.db.retirements)

include hkeyed

theorem drainedRetirements_spec
    (provider : String) (locked : List Uuid) :
    (∀ x ∈ s.db.drainedRetirements provider locked, s.db.retirementState x.id = some .draining) ∧
      ((s.db.drainedRetirements provider locked).map ProfileRetirement.id).Nodup := by
  constructor
  · intro x hx
    have hselected := List.mem_of_mem_take hx
    rw [List.mem_insertionSort, List.mem_filter] at hselected
    simp only [Bool.and_eq_true, beq_iff_eq] at hselected
    rw [ProxyProfiles.retirementState, hkeyed.find?_eq_some hselected.1, Option.map_some,
      hselected.2.1.1.2]
  · refine List.Nodup.sublist ((List.take_sublist 10 _).map _) ?_
    refine ((List.perm_insertionSort _ _).map ProfileRetirement.id).nodup_iff.mpr ?_
    exact List.Nodup.sublist (List.filter_sublist.map _) hkeyed

theorem moves_select {provider : String} {locked : List Uuid}

    (ht : t = .request (.requested (.finalizeRetirements provider locked)))
    (hsame : r.1.db.retirements = s.db.retirements) (hcompleted : r.1.completed = s.completed)
    (hblamed : r.1.blamed = s.blamed)
    (hnext : ∀ u ∈ r.2, u.holds = waiting (s.db.drainedRetirements provider locked)) :
    s.Moves t r := by
  subst ht
  have hstate : r.1.db.retirementState = s.db.retirementState := by
    funext id
    rw [ProxyProfiles.retirementState, ProxyProfiles.retirementState, hsame]
  obtain ⟨hdraining, hnodup⟩ := drainedRetirements_spec hkeyed provider locked
  have hids : ∀ u ∈ r.2, u.ids =
      (s.db.drainedRetirements provider locked).map ProfileRetirement.id := by
    intro u hu
    rw [FinalizerTask.ids, hnext u hu, waiting, List.map_map]
    rfl
  refine { keyed := hsame ▸ hkeyed, others := fun id state _ h => by rw [hstate]; exact h,
           settled := fun id state _ h => by rw [hstate]; exact h,
           phases := fun u hu h hh => ?_, distinct := fun u hu => hids u hu ▸ hnodup,
           taken := fun u hu id hid => .inr (.inr (hids u hu ▸ hid)),
           live := fun id state hid _ => .inr ⟨List.not_mem_nil, by rw [← hstate]; exact hid⟩,
           completed := fun id hid => .inl (hcompleted ▸ hid),
           blamed := fun id hid => .inl (hblamed ▸ hid), few := ?_ }
  · rw [hnext u hu] at hh
    obtain ⟨x, hx, rfl⟩ := List.mem_map.mp hh
    rw [hstate]
    exact hdraining x hx
  · rw [unfinished, unfinished, hsame]
    exact Nat.le_add_right _ _

theorem moves_begin {w : LoadedAction} {active : ℕ} {id : Uuid} {row : ProfileRetirement}
    (ht : t = .request (.counted w active))
    (haction : w.action = .rotate .blueGreen)
    (hrows : r.1.db.retirements = s.db.retirements ++ [row]) (hrow : row.id = id)
    (hfresh : id = freshKey ProfileRetirement.id s.db.retirements) (hstate : row.state = .creating)
    (hcompleted : r.1.completed = s.completed) (hblamed : r.1.blamed = s.blamed) {u : FinalizerTask}
    (hnext : r.2 = some u) (hholds : u.holds = [(id, .creating)]) : s.Moves t r := by
  subst ht
  have hkeyed' : Keyed ProfileRetirement.id r.1.db.retirements := by
    rw [hrows]
    exact hkeyed.append_fresh (hrow.trans hfresh)
  have hnone : s.db.retirements.find? (fun x => x.id == id) = none := by
    refine List.find?_eq_none.mpr fun x hx heq => ?_
    have hlt : x.id < freshKey ProfileRetirement.id s.db.retirements := key_lt_freshKey hx
    rw [beq_iff_eq.mp heq, hfresh] at hlt
    exact absurd hlt (lt_irrefl _)
  have hold : ∀ k st, s.db.retirementState k = some st → r.1.db.retirementState k = some st :=
    fun k st hst => ProxyProfiles.retirementState_append hrows hst
  have hnew : r.1.db.retirementState id = some .creating := by
    rw [ProxyProfiles.retirementState, hrows, List.find?_append, hnone]
    simp [hrow, hstate]
  have hids : u.ids = [id] := by rw [FinalizerTask.ids, hholds]; rfl
  have hu : ∀ v ∈ r.2, v = u := by
    intro v hv
    rw [hnext] at hv
    exact (Option.some.inj hv).symm
  refine { keyed := hkeyed', others := fun k st _ h => hold k st h,
           settled := fun k st _ h => hold k st h, phases := fun v hv h hh => ?_,
           distinct := fun v hv => ?_, taken := fun v hv k hk => .inr (.inl ?_),
           live := fun k st hk _ => ?_, completed := fun k hk => .inl (hcompleted ▸ hk),
           blamed := fun k hk => .inl (hblamed ▸ hk), few := ?_ }
  · rw [hu v hv, hholds, List.mem_singleton] at hh
    rw [hh]
    exact hnew
  · rw [hu v hv, hids]
    exact List.nodup_singleton id
  · rw [hu v hv, hids, List.mem_singleton] at hk
    rw [hk, ProxyProfiles.retirementState, hnone, Option.map_none]
  · by_cases heq : k = id
    · subst heq
      obtain rfl := Option.some.inj (hnew.symm.trans hk)
      exact .inl ⟨u, hnext, by rw [hholds]; exact List.mem_singleton_self _⟩
    · refine .inr ⟨List.not_mem_nil, ?_⟩
      cases hfind : s.db.retirementState k with
      | some st' => exact (hold k st' hfind).symm.trans hk
      | none =>
        rw [ProxyProfiles.retirementState, hrows, List.find?_append] at hk
        rw [ProxyProfiles.retirementState, Option.map_eq_none_iff] at hfind
        rw [hfind] at hk
        simp [hrow, Ne.symm heq] at hk
  · have hrotates : rotates (.request (.counted w active)) = true := by simp [rotates, haction]
    rw [unfinished, unfinished, hrows, List.countP_append, if_pos hrotates]
    exact Nat.add_le_add_left List.countP_le_length _

end

theorem not_busy_waiting (rows : List ProfileRetirement) :
    ∀ h ∈ waiting rows, h.2.busy = false := by
  intro h hh
  obtain ⟨x, -, rfl⟩ := List.mem_map.mp hh
  rfl

section

variable (hkeyed : Keyed ProfileRetirement.id s.db.retirements)

include hkeyed

/-- A step of the control plane that holds no retirement, before and after. -/
theorem moves_idle {t : ProfileTask} {db : ProxyProfiles} {next : Option ProfileTask}

    (ht : (FinalizerTask.request t).holds = []) (hsame : db.retirements = s.db.retirements)
    (hnext : ∀ u ∈ next, (FinalizerTask.request u).holds = []) :
    s.Moves (.request t) ({ s with db }, next.map .request) := by
  have hfits : s.Fits (.request t) :=
    ⟨fun h hh => absurd hh (by rw [ht]; exact List.not_mem_nil), by
      rw [FinalizerTask.ids, ht]; exact List.nodup_nil⟩
  refine moves_same hkeyed hfits hsame rfl (fun id hid => .inl hid) (fun u hu => ?_) fun h hh => ?_
  · obtain ⟨v, hv, rfl⟩ := Option.map_eq_some_iff.mp hu
    rw [hnext v hv]
    exact List.nil_sublist _
  · rw [ht] at hh
    exact absurd hh List.not_mem_nil

theorem accept_moves (now : Time)
    (r : ProfileRequest) : s.Moves (.request (.requested r))
      ({ s with db := (s.db.accept now r).1 }, (s.db.accept now r).2.map .request) := by
  unfold ProxyProfiles.accept
  cases r with
  | createProfile r =>
    dsimp only
    split
    · next id db hok =>
      obtain ⟨row, cycle, rfl, -⟩ := ProxyProfiles.createProfile_rows hok
      exact moves_idle hkeyed rfl rfl (by rintro _ ⟨⟩; rfl)
    · exact moves_idle hkeyed rfl rfl (by rintro _ ⟨⟩)
  | profileAction provider id action confirmation =>
    dsimp only
    split
    · exact moves_idle hkeyed rfl rfl (by rintro _ ⟨⟩; rfl)
    · exact moves_idle hkeyed rfl rfl (by rintro _ ⟨⟩)
  | retireProfile provider id confirmation =>
    refine moves_idle hkeyed rfl ?_ (by rintro _ ⟨⟩)
    refine attempt_induction (P := fun db : ProxyProfiles => db.retirements = s.db.retirements) rfl
      fun _ _ hok => ?_
    unfold ProxyProfiles.retireProfile at hok
    simp only [bind_eq_ok, require_eq_ok, getRow_eq_ok, pure_eq_ok, exists_const,
      Prod.mk.injEq, true_and] at hok
    obtain ⟨-, -, -, -, -, -, -, rfl⟩ := hok
    rfl
  | refreshProfiles provider users => exact moves_idle hkeyed rfl rfl (by rintro _ ⟨⟩)
  | finalizeRetirements provider locked =>
    dsimp only
    split
    · exact moves_select hkeyed rfl rfl rfl rfl (by rintro _ ⟨⟩; rfl)
    · exact moves_idle hkeyed rfl rfl (by rintro _ ⟨⟩)
  | finalizeDrainingProfiles provider locked =>
    dsimp only
    split
    · exact moves_idle hkeyed rfl rfl (by rintro _ ⟨⟩; rfl)
    · exact moves_idle hkeyed rfl rfl (by rintro _ ⟨⟩)
  | reservations rows => exact moves_idle hkeyed rfl rfl (by rintro _ ⟨⟩)

theorem act_moves (now : Time)
    (w : LoadedAction) (active : ℕ) (answer : ProfileAnswer) :
    s.Moves (.request (.counted w active)) ({ s with db := (s.db.act now w active answer).1 },
      (s.db.act now w active answer).2.map .request) := by
  unfold ProxyProfiles.act
  split
  · split
    · exact moves_idle hkeyed rfl rfl (by rintro _ ⟨⟩)
    · cases answer with
      | ok _ _ => exact moves_idle hkeyed rfl rfl (by rintro _ ⟨⟩)
      | providerError _ _ => exact moves_idle hkeyed rfl rfl (by rintro _ ⟨⟩)
      | localError _ => exact moves_idle hkeyed rfl rfl (by rintro _ ⟨⟩; rfl)
  · next haction =>
    split
    · split
      · next id minimum db hok =>
        obtain ⟨row, cycle, rfl, hid, hfresh, hstate, -⟩ := ProxyProfiles.beginRotation_row hok
        exact moves_begin hkeyed rfl haction rfl hid hfresh hstate rfl rfl rfl rfl
      · exact moves_idle hkeyed rfl rfl (by rintro _ ⟨⟩)
    · exact moves_idle hkeyed rfl rfl (by rintro _ ⟨⟩)
  · dsimp only
    split
    · exact moves_idle hkeyed rfl rfl (by rintro _ ⟨⟩)
    · exact moves_idle hkeyed rfl rfl (by rintro _ ⟨⟩; rfl)
  · split
    · cases answer with
      | ok _ _ => exact moves_idle hkeyed rfl rfl (by rintro _ ⟨⟩)
      | providerError _ _ => exact moves_idle hkeyed rfl rfl (by rintro _ ⟨⟩)
      | localError _ => exact moves_idle hkeyed rfl rfl (by rintro _ ⟨⟩)
    · exact moves_idle hkeyed rfl rfl (by rintro _ ⟨⟩)
  · refine moves_idle hkeyed rfl ?_ (by rintro _ ⟨⟩)
    refine attempt_induction (P := fun db : ProxyProfiles => db.retirements = s.db.retirements) rfl
      fun _ _ hok => ?_
    obtain ⟨cycle, rfl, -⟩ := ProxyProfiles.setAllocation_rows hok
    rfl

/-- A call that leaves everything, and after which the round holds what it held, or has ended. -/
theorem moves_call {next : Option FinalizerTask}
    (hfits : s.Fits t)
    (hnext : ∀ u ∈ next, u.holds = t.holds)
    (hend : next = none → ∀ h ∈ t.holds, h.2.busy = false) (deleted : List String) :
    s.Moves t ({ s with deleted }, next) := by
  refine moves_same hkeyed hfits rfl rfl (fun id hid => .inl hid)
    (fun u hu => by rw [hnext u hu]) fun h hh hbusy => ?_
  cases next with
  | none =>
    rw [hend rfl h hh] at hbusy
    cases hbusy
  | some u => exact ⟨u, rfl, by rw [hnext u rfl]; exact hh⟩

theorem moves_updateSubuser
    (hfits : s.Fits t) {provider : String} {row : ProfileRetirement} {rest : List ProfileRetirement}
    {next : FinalizerTask} {answer : ProfileAnswer} {resource : String} {now : Time}
    (ht : t.holds = (row.id, .finalizing) :: waiting rest) (hnext : next.holds = t.holds)
    (hinterrupts : interrupts t (.answer now answer) = true → ∀ h ∈ t.holds, h.2.busy = false)
    (hlocal : ∀ subuser, answer = .localError subuser → interrupts t (.answer now answer) = true) :
    s.Moves t (s, s.updateSubuser resource provider row rest next answer) := by
  have hfailing : ∀ code, (FinalizerTask.failing provider row rest code).holds = t.holds := by
    intro code
    rw [ht]
    rfl
  refine moves_call (s := s) hkeyed hfits (fun u hu => ?_) (fun hnone => ?_) s.deleted
  · rcases s.updateSubuser_cases resource provider row rest next answer with ⟨code, h⟩ | h | h
    · rw [h] at hu
      obtain rfl := Option.some.inj hu
      exact hfailing code
    · rw [h] at hu
      obtain rfl := Option.some.inj hu
      exact hnext
    · rw [h] at hu
      cases hu
  · cases answer with
    | ok _ _ =>
      unfold updateSubuser at hnone
      dsimp only at hnone
      split at hnone <;> cases hnone
    | providerError _ _ => cases hnone
    | localError subuser => exact hinterrupts (hlocal subuser rfl)

/-- **One step of a request** whose retirements are as it needs them, if it does not end while one
of them is being created or finalized. -/
theorem run_moves (hfits : s.Fits t)
    (reply : ProfileReply)
    (hinterrupts : interrupts t reply = true → ∀ h ∈ t.holds, h.2.busy = false) :
    s.Moves t (s.run t reply) := by
  cases reply with
  | lost =>
    exact moves_call hkeyed hfits (by rintro _ ⟨⟩) (fun _ => hinterrupts (by cases t <;> rfl))
      s.deleted
  | answer now answer =>
    cases t with
    | request t =>
      cases t with
      | requested r => exact accept_moves hkeyed now r
      | creating provider id limit =>
        cases answer with
        | ok _ _ => exact moves_idle hkeyed rfl rfl (by rintro _ ⟨⟩)
        | providerError _ ambiguous =>
          refine moves_idle hkeyed rfl ?_ (by rintro _ ⟨⟩)
          cases ambiguous with
          | true => rfl
          | false =>
            change (s.db.dropPending id).retirements = s.db.retirements
            unfold ProxyProfiles.dropPending
            dsimp only
            split <;> rfl
        | localError _ => exact moves_idle hkeyed rfl rfl (by rintro _ ⟨⟩; rfl)
      | killing provider => exact moves_idle hkeyed rfl rfl (by rintro _ ⟨⟩)
      | loaded w => exact moves_idle hkeyed rfl rfl (by rintro _ ⟨⟩; rfl)
      | counted w active =>
        simp only [run, proceed, ProxyProfiles.proceed]
        split
        · exact act_moves hkeyed now w active answer
        · exact moves_idle hkeyed rfl rfl (by rintro _ ⟨⟩)
      | disabling id =>
        cases answer <;> exact moves_idle hkeyed rfl rfl (by rintro _ ⟨⟩)
      | replacing provider id retirementId minimum =>
        cases answer with
        | ok subuser generation =>
          exact moves_update (fun x =>
              { x with replacementResourceId := subuser.id, state := .draining, errorCode := none })
            .draining hkeyed hfits rfl (by rintro _ ⟨⟩) (fun x => ⟨rfl, rfl⟩) rfl (by decide)
            (fun k hk => .inl hk) rfl (by rintro _ ⟨⟩) (by rintro ⟨⟩)
        | providerError code _ =>
          exact moves_update (fun x => { x with state := .failed, errorCode := some code }) .failed
            hkeyed hfits rfl (by rintro _ ⟨⟩) (fun x => ⟨rfl, rfl⟩) rfl (by decide)
            (fun k hk => .inl hk) rfl (by rintro _ ⟨⟩) (by rintro ⟨⟩)
        | localError _ =>
          exact moves_update
            (fun x => { x with state := .failed, errorCode := some "secret_install_failed" })
            .failed hkeyed hfits rfl (by rintro _ ⟨⟩) (fun x => ⟨rfl, rfl⟩) rfl (by decide)
            (fun k hk => .inl hk) rfl (by rintro _ ⟨⟩; exact List.nil_sublist _) (by rintro ⟨⟩)
      | installFailed provider id => exact moves_idle hkeyed rfl rfl (by rintro _ ⟨⟩; rfl)
      | finalizingRetirements provider rows =>
        cases rows with
        | nil => exact moves_idle hkeyed rfl rfl (by rintro _ ⟨⟩)
        | cons row rest =>
          exact moves_update (fun x => { x with state := .finalizing }) .finalizing hkeyed hfits rfl
            (not_busy_waiting rest) (fun x => ⟨rfl, rfl⟩) rfl (by decide) (fun k hk => .inl hk) rfl
            (by rintro _ ⟨⟩; exact List.Sublist.refl _) fun _ => ⟨_, rfl, List.mem_cons_self⟩
      | finalizing provider row rest =>
        exact moves_updateSubuser hkeyed hfits rfl rfl hinterrupts (by rintro _ rfl; rfl)
      | finalizeFailed provider rest =>
        refine moves_same hkeyed hfits rfl rfl (fun id hid => .inl hid)
          (by rintro _ ⟨⟩; exact List.Sublist.refl _) fun h hh hbusy => ?_
        rw [not_busy_waiting rest h hh] at hbusy
        cases hbusy
      | finalizingProfiles provider rows =>
        cases rows with
        | nil => exact moves_idle hkeyed rfl rfl (by rintro _ ⟨⟩)
        | cons row rest => cases answer <;> exact moves_idle hkeyed rfl rfl (by rintro _ ⟨⟩; rfl)
      | drainFailed provider rest => exact moves_idle hkeyed rfl rfl (by rintro _ ⟨⟩; rfl)
    | deleting provider row rest =>
      cases answer with
      | ok _ _ => exact moves_call hkeyed hfits (by rintro _ ⟨⟩; rfl) (by rintro ⟨⟩) _
      | providerError _ _ => exact moves_call hkeyed hfits (by rintro _ ⟨⟩; rfl) (by rintro ⟨⟩) _
      | localError _ => exact moves_call hkeyed hfits (by rintro _ ⟨⟩) (fun _ => hinterrupts rfl) _
    | limiting provider row rest =>
      exact moves_updateSubuser hkeyed hfits rfl rfl hinterrupts (by rintro _ rfl; rfl)
    | completing provider row rest =>
      refine moves_update (fun x => { x with state := .completed, errorCode := none }) .completed
        hkeyed hfits rfl (not_busy_waiting rest) (fun x => ⟨rfl, rfl⟩) rfl (by decide)
        (fun k hk => ?_) rfl (by rintro _ ⟨⟩; exact List.sublist_cons_self _ _) (by rintro ⟨⟩)
      rcases List.mem_cons.mp hk with rfl | hk
      · exact .inr ⟨rfl, rfl⟩
      · exact .inl hk
    | failing provider row rest code =>
      exact moves_update (fun x => { x with state := .failed, errorCode := some code }) .failed
        hkeyed hfits rfl (not_busy_waiting rest) (fun x => ⟨rfl, rfl⟩) rfl (by decide)
        (fun k hk => .inl hk) rfl (by rintro _ ⟨⟩; exact List.Sublist.refl _) (by rintro ⟨⟩)
    | killing provider row rest =>
      refine moves_same hkeyed hfits rfl rfl (fun id hid => ?_)
        (by rintro _ ⟨⟩; exact List.sublist_cons_self _ _) fun h hh hbusy => ?_
      · rcases List.mem_cons.mp hid with rfl | hid
        · exact .inr List.mem_cons_self
        · exact .inl hid
      · rcases List.mem_cons.mp hh with rfl | hh
        · cases hbusy
        · rw [not_busy_waiting rest h hh] at hbusy
          cases hbusy

end

end Moves

/-! ## The invariant -/

/-- What holds in the runs in which no two rounds overlap and no process stops at work. -/
structure Kept (p : Pool Finalization FinalizerTask) : Prop where
  keyed : Keyed ProfileRetirement.id p.shared.db.retirements
  phases : ∀ t ∈ p.tasks, ∀ h ∈ t.holds, p.shared.db.retirementState h.1 = some h.2
  apart : (heldIds p.tasks).Nodup
  live : ∀ id state, p.shared.db.retirementState id = some state → state.busy = true →
    ∃ t ∈ p.tasks, (id, state) ∈ t.holds
  completed : ∀ id ∈ p.shared.completed, p.shared.db.retirementState id = some .completed
  blamed : ∀ id ∈ p.shared.blamed, p.shared.db.retirementState id = some .failed
  few : p.shared.unfinished ≤ 10

theorem kept_start {s : Finalization} (hretirements : s.db.retirements = [])
    (hcompleted : s.completed = []) (hblamed : s.blamed = []) : Kept ⟨s, []⟩ where
  keyed := by rw [hretirements]; exact List.nodup_nil
  phases := fun _ ht => absurd ht List.not_mem_nil
  apart := List.nodup_nil
  live := fun id state h => by
    rw [ProxyProfiles.retirementState, hretirements] at h
    cases h
  completed := fun id hid => absurd hid (by rw [hcompleted]; exact List.not_mem_nil)
  blamed := fun id hid => absurd hid (by rw [hblamed]; exact List.not_mem_nil)
  few := by rw [unfinished, hretirements]; exact Nat.zero_le _

theorem heldIds_split {before rest : List FinalizerTask} {t : FinalizerTask} :
    heldIds (before ++ t :: rest) = heldIds before ++ (t.ids ++ heldIds rest) := by
  simp [heldIds, List.flatMap_append, List.flatMap_cons]

theorem next_of_interrupts {s : Finalization} {t : FinalizerTask} {reply : ProfileReply}
    (h : interrupts t reply = true) : (s.run t reply).2 = none := by
  unfold interrupts at h
  split at h
  · rfl
  · rfl
  · rfl
  · rfl
  · cases h

variable {p : Pool Finalization FinalizerTask}

theorem Kept.held_some (h : Kept p) {id : Uuid}
    (hid : id ∈ heldIds p.tasks) : p.shared.db.retirementState id ≠ none := by
  obtain ⟨t, ht, hid⟩ := List.mem_flatMap.mp hid
  obtain ⟨hold, hh, rfl⟩ := List.mem_map.mp hid
  rw [h.phases t ht hold hh]
  exact Option.some_ne_none _

/-- **One turn keeps the invariant** if it is orderly. -/
theorem Kept.step (h : Kept p)
    (turn : Turn ProfileRequest ProfileReply) (horderly : Orderly p turn) :
    Kept (finalizerProgram.step p turn) := by
  rcases finalizerProgram.step_cases p turn with heq | ⟨request, rfl, heq⟩ |
    ⟨i, reply, before, t, rest, rfl, hi, hsplit, heq⟩
  · rw [heq]
    exact h
  · rw [heq]
    refine { h with phases := fun t ht => ?_, apart := ?_, live := fun id state hid hbusy => ?_ }
    · rcases List.mem_append.mp ht with ht | ht
      · exact h.phases t ht
      · rw [List.mem_singleton.mp ht]
        exact fun _ hh => absurd hh List.not_mem_nil
    · simpa [heldIds, FinalizerTask.ids, FinalizerTask.holds, finalizerProgram] using h.apart
    · obtain ⟨t, ht, hh⟩ := h.live id state hid hbusy
      exact ⟨t, List.mem_append_left _ ht, hh⟩
  · obtain ⟨hinterrupts, hselects, hrotates⟩ := horderly t hi
    have hmem : t ∈ p.tasks := hsplit ▸ List.mem_append_right _ List.mem_cons_self
    have happart : (heldIds before ++ (t.ids ++ heldIds rest)).Nodup :=
      heldIds_split ▸ hsplit ▸ h.apart
    obtain ⟨hbefore, htail, hcross⟩ := List.nodup_append.mp happart
    obtain ⟨hown, hrest, hcross'⟩ := List.nodup_append.mp htail
    have hmoves := run_moves h.keyed ⟨h.phases t hmem, hown⟩ reply hinterrupts
    -- what is left of the request holds nothing that another one holds
    have hfree : ∀ u ∈ (p.shared.run t reply).2, ∀ id ∈ u.ids,
        id ∉ heldIds before ∧ id ∉ heldIds rest := by
      intro u hu id hid
      have hheld : id ∉ heldIds p.tasks → id ∉ heldIds before ∧ id ∉ heldIds rest := by
        intro hnot
        rw [hsplit, heldIds_split] at hnot
        exact ⟨fun hb => hnot (List.mem_append_left _ hb),
          fun hr => hnot (List.mem_append_right _ (List.mem_append_right _ hr))⟩
      rcases hmoves.taken u hu id hid with hid | hnone | hselected
      · exact ⟨fun hb => hcross id hb id (List.mem_append_left _ hid) rfl,
          fun hr => hcross' id hid id hr rfl⟩
      · exact hheld fun hmem => h.held_some hmem hnone
      · obtain ⟨x, hx, rfl⟩ := List.mem_map.mp hselected
        have hgoes : interrupts t reply = false := by
          refine Bool.eq_false_iff.mpr fun hstop => ?_
          rw [next_of_interrupts hstop] at hu
          cases hu
        exact hheld (hselects hgoes x hx)
    -- the others hold what they held
    have hothers : ∀ u, u ∈ before ∨ u ∈ rest → ∀ h' ∈ u.holds, h'.1 ∉ t.ids := by
      intro u hu h' hh' hid
      have hmine : h'.1 ∈ u.ids := List.mem_map_of_mem hh'
      rcases hu with hu | hu
      · exact hcross h'.1 (List.mem_flatMap.mpr ⟨u, hu, hmine⟩) h'.1
          (List.mem_append_left _ hid) rfl
      · exact hcross' h'.1 hid h'.1 (List.mem_flatMap.mpr ⟨u, hu, hmine⟩) rfl
    have htask : ∀ u ∈ before ++ (p.shared.run t reply).2.toList ++ rest,
        (u ∈ before ∨ u ∈ rest) ∨ u ∈ (p.shared.run t reply).2 := by
      intro u hu
      rcases List.mem_append.mp hu with hu | hu
      · rcases List.mem_append.mp hu with hu | hu
        · exact .inl (.inl hu)
        · exact .inr (Option.mem_toList.mp hu)
      · exact .inl (.inr hu)
    rw [heq]
    refine { keyed := hmoves.keyed, phases := fun u hu h' hh' => ?_, apart := ?_,
             live := fun id state hid hbusy => ?_, completed := fun id hid => ?_,
             blamed := fun id hid => ?_, few := ?_ }
    · rcases htask u hu with hother | hnext
      · have hu' : u ∈ p.tasks := by
          rw [hsplit]
          rcases hother with hu | hu
          · exact List.mem_append_left _ hu
          · exact List.mem_append_right _ (List.mem_cons_of_mem _ hu)
        exact hmoves.others _ _ (hothers u hother h' hh') (h.phases u hu' h' hh')
      · exact hmoves.phases u hnext h' hh'
    · have hnext : (heldIds (p.shared.run t reply).2.toList).Nodup ∧
          ∀ id ∈ heldIds (p.shared.run t reply).2.toList,
            id ∉ heldIds before ∧ id ∉ heldIds rest := by
        cases hu : (p.shared.run t reply).2 with
        | none => exact ⟨List.nodup_nil, fun id hid => absurd hid List.not_mem_nil⟩
        | some u =>
          have hids : heldIds (some u).toList = u.ids := by simp [heldIds]
          rw [hids]
          exact ⟨hmoves.distinct u hu, hfree u hu⟩
      have hsplit' : heldIds (before ++ (p.shared.run t reply).2.toList ++ rest) =
          heldIds before ++ (heldIds (p.shared.run t reply).2.toList ++ heldIds rest) := by
        simp [heldIds, List.flatMap_append]
      change (heldIds (before ++ (p.shared.run t reply).2.toList ++ rest)).Nodup
      rw [hsplit']
      refine List.nodup_append.mpr ⟨hbefore, List.nodup_append.mpr ⟨hnext.1, hrest, ?_⟩, ?_⟩
      · rintro a ha b hb rfl
        exact (hnext.2 a ha).2 hb
      · rintro a ha b hb rfl
        rcases List.mem_append.mp hb with hb | hb
        · exact (hnext.2 a hb).1 ha
        · exact hcross a ha a (List.mem_append_right _ hb) rfl
    · rcases hmoves.live id state hid hbusy with ⟨u, hu, hh⟩ | ⟨hnot, hold⟩
      · exact ⟨u, List.mem_append_left _ (List.mem_append_right _ (Option.mem_toList.mpr hu)), hh⟩
      · obtain ⟨u, hu, hh⟩ := h.live id state hold hbusy
        refine ⟨u, ?_, hh⟩
        rw [hsplit] at hu
        rcases List.mem_append.mp hu with hu | hu
        · exact List.mem_append_left _ (List.mem_append_left _ hu)
        · rcases List.mem_cons.mp hu with rfl | hu
          · exact absurd (List.mem_map_of_mem hh) hnot
          · exact List.mem_append_right _ hu
    · rcases hmoves.completed id hid with hid | hnow
      · exact hmoves.settled id _ (.inl rfl) (h.completed id hid)
      · exact hnow
    · rcases hmoves.blamed id hid with hid | hnow
      · exact hmoves.settled id _ (.inr rfl) (h.blamed id hid)
      · exact hnow
    · refine hmoves.few.trans ?_
      split
      · next hrotating => exact hrotates hrotating
      · exact h.few

/-- A retirement that is unfinished and quiet is held, or selected by the next call. -/
theorem Kept.remembered (h : Kept p) {x : ProfileRetirement} (hx : x ∈ p.shared.db.retirements)
    (hprogress : x.inProgress = true) (hquiet : p.shared.Quiet x) :
    x.id ∈ heldIds p.tasks ∨ ∀ provider, p.shared.db.belongsTo provider x.profileId = true →
      x ∈ p.shared.db.drainedRetirements provider [] := by
  have hstate : p.shared.db.retirementState x.id = some x.state := by
    rw [ProxyProfiles.retirementState, h.keyed.find?_eq_some hx, Option.map_some]
  by_cases hbusy : x.state.busy = true
  · obtain ⟨t, ht, hh⟩ := h.live x.id x.state hstate hbusy
    exact .inl (List.mem_flatMap.mpr ⟨t, ht, List.mem_map_of_mem hh⟩)
  · right
    intro provider hprovider
    have hdraining : x.state = .draining := by
      unfold ProfileRetirement.inProgress at hprogress
      unfold RetirementState.busy at hbusy
      cases hst : x.state <;> simp [hst] at hprogress hbusy ⊢
    unfold ProxyProfiles.drainedRetirements
    have hfew : (p.shared.db.retirements.filter fun x =>
        p.shared.db.belongsTo provider x.profileId && x.state == .draining &&
          !(([] : List Uuid).contains x.id) && p.shared.db.reservations.all fun r =>
            !(r.profileId == x.profileId && r.secretGeneration == x.oldSecretGeneration)).length ≤
        10 := by
      refine le_trans ?_ h.few
      rw [unfinished, ← List.countP_eq_length_filter]
      refine List.countP_mono_left fun y _ hy => ?_
      simp only [Bool.and_eq_true, beq_iff_eq] at hy
      rw [ProfileRetirement.inProgress, hy.1.1.2]
      rfl
    rw [List.take_of_length_le (by rw [List.length_insertionSort]; exact hfew),
      List.mem_insertionSort, List.mem_filter]
    refine ⟨hx, ?_⟩
    simp only [hprovider, hdraining, beq_self_eq_true, List.contains_nil, Bool.not_false,
      Bool.and_self, Bool.true_and, List.all_eq_true]
    intro r hr
    have hnot := not_and_or.mp (hquiet r hr)
    simpa using hnot

/-- The state before the first rotation. -/
def start (db : ProxyProfiles) (deleted : List String) : Pool Finalization FinalizerTask :=
  ⟨{ db := { db with retirements := [] }, deleted }, []⟩

/-- **Retirements are finalised once and not forgotten**, whatever the other requests do, if no two
rounds overlap on a row, no process stops while it is creating or finalizing a retirement, and no
more than ten are unfinished. -/
theorem retirements_finalised (db : ProxyProfiles) (deleted : List String)
    (turns : List (Turn ProfileRequest ProfileReply))
    (h : Trace.Along finalizerProgram.step Orderly (start db deleted) turns) :
    FinalisedOnce (finalizerProgram.after (start db deleted) turns) := by
  have hkept : Kept (finalizerProgram.after (start db deleted) turns) :=
    Trace.exec_invariant_of_along finalizerProgram.step (I := Kept)
      (fun p turn horderly h => h.step turn horderly) (kept_start rfl rfl rfl) h
  refine ⟨fun id hid hfailed => ?_, fun id hid hcompleted => ?_, fun x hx hprogress hquiet =>
    hkept.remembered hx hprogress hquiet⟩
  · cases (hkept.completed id hid).symm.trans hfailed
  · cases (hkept.completed id hcompleted).symm.trans (hkept.blamed id hid)

/-- A profile that can be rotated. -/
def poolProfile : ProxyProfiles where
  cycles := [⟨"decodo", 0, 1000, 0, false⟩]
  profiles := [{ id := 1, provider := "decodo", logicalName := "pool", updatedAt := 0
                 providerResourceId := some "first", enabled := true, lifecycle := .enabled
                 secretGeneration := 1 }]
  allocations := [⟨"decodo", 0, 1, 100⟩]

/-- The process of a request at a position goes on, and the provider agrees. -/
def agreed (i : ℕ) : Turn ProfileRequest ProfileReply :=
  .resume i (.answer 5 (.ok ⟨"second", "active", some 100, true⟩ 2))

/-- A blue-green rotation. -/
def rotation : List (Turn ProfileRequest ProfileReply) :=
  [.spawn (.profileAction "decodo" 1 (.rotate .blueGreen) "ROTATE pool"), agreed 0, agreed 0,
    agreed 0, agreed 0]

/-- Two rounds one after the other. -/
theorem two_rounds_finalised :
    FinalisedOnce (finalizerProgram.after (start poolProfile [])
      (rotation ++ [.spawn (.finalizeRetirements "decodo" []), agreed 0, agreed 0, agreed 0,
        agreed 0, agreed 0, agreed 0, agreed 0, .spawn (.finalizeRetirements "decodo" []), agreed 0,
        agreed 0])) :=
  retirements_finalised poolProfile [] _ (by decide +kernel)

/-- Two rounds that overlap: the second one marks the completed retirement as failed, and sets the
kill switch. -/
theorem completed_retirement_failed :
    ∃ turns, ¬ FinalisedOnce (finalizerProgram.after (start poolProfile []) turns) := by
  refine ⟨rotation ++ [.spawn (.finalizeRetirements "decodo" []),
    .spawn (.finalizeRetirements "decodo" []), agreed 0, agreed 1, agreed 0, agreed 0, agreed 0,
    agreed 0, agreed 0, agreed 1, agreed 1, agreed 1, agreed 1], fun h => ?_⟩
  refine h.completed 0 ?_ ?_
  · decide +kernel
  · decide +kernel

end Finalization

end CommerceCollector
