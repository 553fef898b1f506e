import CommerceCollector.Ops.Health

/-!
# Recovery does not override an operator

The invariant of the runs in which nobody disturbs a check (`State.Kept`): what the pending probe
has counted are the last probes since the `disable` that wrote it, a session that has counted enough
has counted them on this row, and while an operator holds the source nothing is waited for.  Without
the condition an operator's decision is overridden (`operator_overridden`).
-/

namespace CommerceCollector

namespace Health

variable {ι : Type*}

/-! ## What happened -/

/-- A `disable` that is the last write is the last `disable`. -/
theorem lastDisable_of_lastWrite {h : List Event} {url : String} {expect : Expect} {requiredOk : ℤ}
    (hwrite : lastWrite h = some (.disabled url expect requiredOk)) :
    lastDisable h = some (url, expect, requiredOk) := by
  induction h with
  | nil => cases hwrite
  | cons e h ih =>
    cases e with
    | disabled url' expect' requiredOk' =>
      obtain ⟨rfl, rfl, rfl⟩ := Event.disabled.inj (Option.some.inj hwrite)
      rfl
    | probed url' expect' ok => exact ih hwrite
    | recovered switched => cases hwrite
    | updated enabled => cases hwrite

/-- After a `disable` there is a last write. -/
theorem lastWrite_isSome {h : List Event} {d : String × Expect × ℤ}
    (hdisable : lastDisable h = some d) : (lastWrite h).isSome = true := by
  induction h with
  | nil => cases hdisable
  | cons e h ih =>
    cases e with
    | disabled url expect requiredOk => rfl
    | probed url expect ok => exact ih hdisable
    | recovered switched => rfl
    | updated enabled => rfl

theorem heldByOperator_of_lastWrite {h : List Event}
    (hwrite : lastWrite h = some (.updated false)) : heldByOperator h = true := by
  induction h with
  | nil => cases hwrite
  | cons e h ih =>
    cases e with
    | disabled url expect requiredOk => cases hwrite
    | probed url expect ok => exact ih hwrite
    | recovered switched => cases hwrite
    | updated enabled =>
      obtain rfl := Event.updated.inj (Option.some.inj hwrite)
      rfl

/-- The setting that an event writes. -/
def Event.enabled : Event → Option Bool
  | .disabled _ _ _ => some false
  | .probed _ _ _ => none
  | .recovered _ => some true
  | .updated enabled => some enabled

/-! ## The invariant -/

/-- The last probes since the last `disable`, this many, are successful ones of the URL of the
row. -/
def HealthProbe.Counts (p : HealthProbe) (count : ℕ) (h : List Event) : Prop :=
  List.replicate count (p.url, p.expect, true) <+: probesSince h

/-- What holds of a session, with the row and what happened. -/
def Check.Kept (row : Option HealthProbe) (h : List Event) : Option Check → Prop
  | none => True
  | some (.pending url expect) => ∃ p, row = some p ∧ url = p.url ∧ expect = p.expect
  | some (.probed none) => ∃ p, row = some p ∧ p.Counts (p.consecutiveOk + 1) h
  | some (.probed (some _)) => ∃ p, row = some p
  | some .counted =>
    ∃ p, row = some p ∧ p.requiredOk ≤ p.consecutiveOk ∧ p.Counts p.consecutiveOk h

/-- What holds in the runs in which nobody disturbs a check. -/
structure State.Kept (s : State ι) : Prop where
  honest : Honest s.history
  written : ∀ e, lastWrite s.history = some e → s.enabled = e.enabled
  held : heldByOperator s.history = true →
    lastWrite s.history = some (.updated false) ∧ s.pending = false ∧ ∀ c, s.checks c = none
  row : ∀ p, s.probe = some p → lastDisable s.history = some (p.url, p.expect, p.requiredOk)
  check : ∀ c, Check.Kept s.probe s.history (s.checks c)
  alone : ∀ c c', Check.active (s.checks c) = true → Check.active (s.checks c') = true → c = c'
  recorded : (∀ c, Check.active (s.checks c) = false) → ∀ p, s.probe = some p →
    p.Counts p.consecutiveOk s.history

/-- A source that was never disabled by `disable`. -/
theorem kept_start (enabled : Option Bool) : (State.start enabled : State ι).Kept where
  honest := trivial
  written := fun _ h => by cases h
  held := fun h => by cases h
  row := fun _ h => by cases h
  check := fun _ => trivial
  alone := fun _ _ h => by cases h
  recorded := fun _ _ h => by cases h

variable {check : Option Check}

/-- A session that is not active is kept if the row stays the one that it has read. -/
theorem Check.Kept.of_inactive {row row' : Option HealthProbe} {h h' : List Event}
    (hkept : Check.Kept row h check) (hactive : Check.active check = false)
    (hrow : ∀ p, row = some p → ∃ p', row' = some p' ∧ p'.url = p.url ∧ p'.expect = p.expect) :
    Check.Kept row' h' check := by
  rcases check with _ | (⟨url, expect⟩ | error | _)
  · trivial
  · obtain ⟨p, hp, rfl, rfl⟩ := hkept
    obtain ⟨p', hp', hurl, hexpect⟩ := hrow p hp
    exact ⟨p', hp', hurl.symm, hexpect.symm⟩
  · cases hactive
  · cases hactive

variable {s : State ι}

/-- `disable` begins to wait. -/
theorem State.Kept.disable (h : s.Kept) {url : String} {expect : Expect} (requiredOk : ℤ)
    (hheld : heldByOperator s.history = false)
    (hchecks : ∀ c, s.checks c = none ∨ s.checks c = some (.pending url expect)) :
    (s.disable url expect requiredOk).Kept where
  honest := h.honest
  written := by
    intro e he
    obtain rfl := Option.some.inj he
    rfl
  held := fun hnow => absurd hnow (by simp only [State.disable, heldByOperator, hheld]; decide)
  row := by
    intro p hp
    obtain rfl := Option.some.inj hp
    rfl
  check := by
    intro c
    change Check.Kept _ _ (s.checks c)
    rcases hchecks c with hnone | hpending
    · rw [hnone]
      trivial
    · rw [hpending]
      exact ⟨_, rfl, rfl, rfl⟩
  alone := by
    intro c c' hc
    rcases hchecks c with hnone | hpending
    · simp [State.disable, hnone, Check.active] at hc
    · simp [State.disable, hpending, Check.active] at hc
  recorded := by
    intro _ p hp
    obtain rfl := Option.some.inj hp
    exact List.nil_prefix

theorem State.Kept.update (h : s.Kept) {enabled : Bool} (updates : ι → Option Bool)
    (hdisabled : enabled = false → s.pending = false ∧ ∀ c, s.checks c = none) :
    ({ s with enabled := some enabled, updates, history := .updated enabled :: s.history } :
      State ι).Kept where
  honest := h.honest
  written := by
    intro e he
    obtain rfl := Option.some.inj he
    rfl
  held := by
    intro hheld
    obtain rfl : enabled = false := by simpa [heldByOperator] using hheld
    exact ⟨rfl, hdisabled rfl⟩
  row := h.row
  check := h.check
  alone := h.alone
  recorded := h.recorded

variable {c : ι}

theorem State.Kept.others (h : s.Kept) (hactive : Check.active (s.checks c) = true) (c' : ι)
    (hne : c' ≠ c) : Check.active (s.checks c') = false :=
  Bool.eq_false_iff.mpr fun hother => hne (h.alone c' c hother hactive)

theorem State.Kept.not_held (h : s.Kept) (hc : s.checks c ≠ none) :
    heldByOperator s.history = false :=
  Bool.eq_false_iff.mpr fun hheld => hc ((h.held hheld).2.2 c)

theorem State.Kept.justified (h : s.Kept) (hc : s.checks c = some .counted)
    (hdisabled : s.isEnabled = false) : Justified s.history := by
  have hkept := h.check c
  rw [hc] at hkept
  obtain ⟨p, hp, henough, hcounts⟩ := hkept
  have hdisable := h.row p hp
  have hfalse : s.enabled = some false := by
    cases henabled : s.enabled with
    | none => simp [State.isEnabled, henabled] at hdisabled
    | some enabled =>
      simp only [State.isEnabled, henabled, Option.getD_some] at hdisabled
      rw [hdisabled]
  obtain ⟨e, he⟩ := Option.isSome_iff_exists.mp (lastWrite_isSome hdisable)
  have hwritten := (h.written e he).symm.trans hfalse
  cases e with
  | disabled url expect requiredOk =>
    obtain ⟨rfl, rfl, rfl⟩ : p.url = url ∧ p.expect = expect ∧ p.requiredOk = requiredOk := by
      simpa using hdisable.symm.trans (lastDisable_of_lastWrite he)
    refine ⟨p.url, p.expect, p.requiredOk, he, ?_⟩
    have hle : p.requiredOk.toNat ≤ p.consecutiveOk := by omega
    exact (List.prefix_replicate_iff.mpr ⟨by simpa using hle, by simp⟩).trans hcounts
  | probed url expect ok => cases hwritten
  | recovered switched => cases hwritten
  | updated enabled =>
    obtain rfl : enabled = false := Option.some.inj hwritten
    have hfree := h.not_held (hc ▸ Option.some_ne_none _)
    rw [heldByOperator_of_lastWrite he] at hfree
    cases hfree

variable [DecidableEq ι]

theorem State.setCheck_cases (s : State ι) (c c' : ι) (check : Option Check) :
    c' = c ∧ (s.setCheck c check).checks c' = check ∨
      c' ≠ c ∧ (s.setCheck c check).checks c' = s.checks c' := by
  by_cases heq : c' = c
  · subst heq
    exact .inl ⟨rfl, by simp [State.setCheck]⟩
  · exact .inr ⟨heq, by simp [State.setCheck, heq]⟩

theorem State.inactive_setCheck (hothers : ∀ c', c' ≠ c → Check.active (s.checks c') = false)
    {c' : ι} (hne : c' ≠ c) : Check.active ((s.setCheck c check).checks c') = false := by
  rcases s.setCheck_cases c c' check with ⟨heq, -⟩ | ⟨-, hold⟩
  · exact absurd heq hne
  · rw [hold]
    exact hothers c' hne

theorem State.alone_setCheck (hothers : ∀ c', c' ≠ c → Check.active (s.checks c') = false)
    (c₁ c₂ : ι) (h₁ : Check.active ((s.setCheck c check).checks c₁) = true)
    (h₂ : Check.active ((s.setCheck c check).checks c₂) = true) : c₁ = c₂ := by
  have hall : ∀ c', Check.active ((s.setCheck c check).checks c') = true → c' = c := by
    intro c' hactive
    by_contra hne
    rw [State.inactive_setCheck hothers hne] at hactive
    cases hactive
  rw [hall c₁ h₁, hall c₂ h₂]

theorem State.Kept.check_setCheck (h : s.Kept) {row' : Option HealthProbe} {h' : List Event}
    (hothers : ∀ c', c' ≠ c → Check.active (s.checks c') = false)
    (hrow : ∀ p, s.probe = some p → ∃ p', row' = some p' ∧ p'.url = p.url ∧ p'.expect = p.expect)
    (hnew : Check.Kept row' h' check) (c' : ι) :
    Check.Kept row' h' ((s.setCheck c check).checks c') := by
  rcases s.setCheck_cases c c' check with ⟨-, hmoved⟩ | ⟨hne, hold⟩
  · rw [hmoved]
    exact hnew
  · rw [hold]
    exact (h.check c').of_inactive (hothers c' hne) hrow

theorem State.Kept.readPending (h : s.Kept) (c : ι) : (s.readPending c).Kept := by
  unfold State.readPending
  split
  · rename_i p hnone hp
    split
    · exact h
    · rename_i hwaiting
      have hsame : ∀ c', Check.active
          ((s.setCheck c (some (.pending p.url p.expect))).checks c') =
            Check.active (s.checks c') := by
        intro c'
        rcases s.setCheck_cases c c' (some (.pending p.url p.expect)) with ⟨rfl, hnew⟩ | ⟨-, hold⟩
        · rw [hnew, hnone]
          rfl
        · rw [hold]
      refine { h with held := fun hheld => ?_, check := fun c' => ?_,
                      alone := fun c₁ c₂ h₁ h₂ => h.alone c₁ c₂ (hsame c₁ ▸ h₁) (hsame c₂ ▸ h₂),
                      recorded := fun hinactive => h.recorded fun c' => hsame c' ▸ hinactive c' }
      · have hpending := (h.held hheld).2.1
        rw [State.pending, hp] at hpending
        exact absurd hpending (by simpa using hwaiting)
      · rcases s.setCheck_cases c c' (some (.pending p.url p.expect)) with ⟨rfl, hnew⟩ | ⟨-, hold⟩
        · rw [hnew]
          exact ⟨p, hp, rfl, rfl⟩
        · rw [hold]
          exact h.check c'
  · exact h

theorem State.Kept.probeSite (h : s.Kept) (c : ι) (answer : Answer)
    (hothers : ∀ c', c' ≠ c → Check.active (s.checks c') = false) :
    (s.probeSite c answer).Kept := by
  unfold State.probeSite
  split
  · rename_i url expect hc
    have hkept := h.check c
    rw [hc] at hkept
    obtain ⟨p, hp, rfl, rfl⟩ := hkept
    have hcounts : p.Counts p.consecutiveOk s.history := by
      refine h.recorded (fun c' => ?_) p hp
      by_cases hne : c' = c
      · rw [hne, hc]
        rfl
      · exact hothers c' hne
    have hfree : heldByOperator s.history = false := h.not_held (hc ▸ Option.some_ne_none _)
    refine { honest := h.honest, written := h.written, row := h.row,
             held := fun hheld => absurd hheld (Bool.eq_false_iff.mp hfree),
             check := h.check_setCheck hothers (fun p hp => ⟨p, hp, rfl, rfl⟩) ?_,
             alone := State.alone_setCheck hothers, recorded := fun hinactive => ?_ }
    · rcases herror : (Health.probe p.expect answer).2 with _ | error
      · exact ⟨p, hp, List.cons_prefix_cons.mpr ⟨rfl, hcounts⟩⟩
      · exact ⟨p, hp⟩
    · have hactive := hinactive c
      simp [State.setCheck, Check.active] at hactive
  · exact h

theorem State.Kept.record (h : s.Kept) (c : ι) : (s.record c).Kept := by
  unfold State.record
  split
  · rename_i error p hc hp
    have hothers := h.others (c := c) (by rw [hc]; rfl)
    have hfree : heldByOperator s.history = false := h.not_held (hc ▸ Option.some_ne_none _)
    refine { honest := h.honest, written := h.written,
             row := fun p' hp' => ?_,
             held := fun hheld => absurd hheld (Bool.eq_false_iff.mp hfree),
             check := h.check_setCheck hothers (fun p' hp' => ?_) trivial,
             alone := State.alone_setCheck hothers, recorded := fun _ p' hp' => ?_ }
    · obtain rfl := Option.some.inj hp'
      exact h.row p hp
    · obtain rfl := Option.some.inj (hp.symm.trans hp')
      exact ⟨_, rfl, rfl, rfl⟩
    · obtain rfl := Option.some.inj hp'
      exact List.nil_prefix
  · rename_i p hc hp
    have hothers := h.others (c := c) (by rw [hc]; rfl)
    have hfree : heldByOperator s.history = false := h.not_held (hc ▸ Option.some_ne_none _)
    have hkept := h.check c
    rw [hc] at hkept
    obtain ⟨p', hp', hcounts⟩ := hkept
    obtain rfl := Option.some.inj (hp.symm.trans hp')
    refine { honest := h.honest, written := h.written,
             row := fun p' hp' => ?_,
             held := fun hheld => absurd hheld (Bool.eq_false_iff.mp hfree),
             check := h.check_setCheck hothers (fun p' hp' => ?_) ?_,
             alone := State.alone_setCheck hothers, recorded := fun _ p' hp' => ?_ }
    · obtain rfl := Option.some.inj hp'
      exact h.row p hp
    · obtain rfl := Option.some.inj (hp.symm.trans hp')
      exact ⟨_, rfl, rfl, rfl⟩
    · split
      · trivial
      · rename_i henough
        exact ⟨_, rfl, not_lt.mp henough, hcounts⟩
    · obtain rfl := Option.some.inj hp'
      exact hcounts
  · exact h

theorem State.Kept.reenable (h : s.Kept) (c : ι) : (s.reenable c).Kept := by
  unfold State.reenable
  split
  · rename_i hc
    have hothers := h.others (c := c) (by rw [hc]; rfl)
    have hfree : heldByOperator s.history = false := h.not_held (hc ▸ Option.some_ne_none _)
    have hkept := h.check c
    rw [hc] at hkept
    obtain ⟨p, hp, henough, hcounts⟩ := hkept
    refine { honest := ?_, written := fun e he => ?_,
             row := fun p' hp' => ?_,
             held := fun hheld => absurd hheld (Bool.eq_false_iff.mp hfree),
             check := h.check_setCheck hothers (fun p' hp' => ?_) trivial,
             alone := State.alone_setCheck hothers, recorded := fun _ p' hp' => ?_ }
    · cases henabled : s.isEnabled with
      | true => exact h.honest
      | false => exact ⟨h.justified hc henabled, h.honest⟩
    · obtain rfl := Option.some.inj he
      rfl
    · rw [hp] at hp'
      obtain rfl := Option.some.inj hp'
      exact h.row p hp
    · rw [hp']
      exact ⟨_, rfl, rfl, rfl⟩
    · rw [hp] at hp'
      obtain rfl := Option.some.inj hp'
      exact hcounts
  · exact h

/-- **One action keeps the invariant** if it disturbs no check. -/
theorem State.Kept.step (h : s.Kept) (a : Action ι) (hcalm : s.Undisturbed a) :
    (s.step a).Kept := by
  cases a with
  | disable url expect requiredOk => exact h.disable requiredOk hcalm.1 hcalm.2
  | readPending c => exact h.readPending c
  | probe c answer => exact h.probeSite c answer hcalm
  | record c => exact h.record c
  | reenable c => exact h.reenable c
  | readSettings c => exact { h with }
  | updateSource c enabled =>
    simp only [State.step, State.updateSource]
    split
    · rename_i current hread
      refine h.update _ fun hdisabled => hcalm ?_
      rw [hread, Option.map_some, hdisabled]
    · exact h

/-- **Recovery does not override an operator** in a run in which nobody disturbs a check: the source
is only switched on if its setting was last written by `disable` and the probes since then, as many
as it requires, are successful ones of its URL; and what an operator has disabled stays disabled. -/
theorem recovery_respects_operator (enabled : Option Bool) (actions : List (Action ι))
    (h : Trace.Along State.step State.Undisturbed (State.start enabled) actions) :
    (Trace.exec State.step (State.start enabled) actions).RespectsOperator := by
  have hkept := Trace.exec_invariant_of_along State.step (I := State.Kept)
    (fun s a hcalm h => h.step a hcalm) (kept_start enabled) h
  refine ⟨hkept.honest, fun hheld => ?_⟩
  rw [hkept.written _ (hkept.held hheld).1]
  rfl

/-- Two good answers bring the source back, and then an operator disables it. -/
theorem recovery_then_operator :
    (Trace.exec State.step (State.start none : State (Fin 2))
      [.disable "https://shop" .json 2, .readPending 0, .probe 0 (.response 200 true), .record 0,
        .readPending 0, .probe 0 (.response 200 true), .record 0, .reenable 0, .readSettings 1,
        .updateSource 1 (some false), .readPending 0]).RespectsOperator :=
  recovery_respects_operator none _ (by decide +kernel)

/-- An operator disables a source that is waited for, and the next good answer enables it. -/
theorem operator_overridden :
    ∃ actions : List (Action (Fin 2)),
      ¬ Honest (Trace.exec State.step (State.start none) actions).history ∧
      heldByOperator (Trace.exec State.step (State.start none) actions).history = true ∧
      (Trace.exec State.step (State.start none) actions).enabled = some true := by
  refine ⟨[.disable "https://shop" .json 1, .readSettings 1, .updateSource 1 (some false),
    .readPending 0, .probe 0 (.response 200 true), .record 0, .reenable 0], ?_, by decide +kernel,
    by decide +kernel⟩
  have hhistory : (Trace.exec State.step (State.start none : State (Fin 2))
      [.disable "https://shop" .json 1, .readSettings 1, .updateSource 1 (some false),
        .readPending 0, .probe 0 (.response 200 true), .record 0, .reenable 0]).history =
      [.recovered true, .probed "https://shop" .json true, .updated false,
        .disabled "https://shop" .json 1] := by
    decide +kernel
  rw [hhistory]
  rintro ⟨⟨url, expect, requiredOk, hwrite, -⟩, -⟩
  cases hwrite

end Health

end CommerceCollector
