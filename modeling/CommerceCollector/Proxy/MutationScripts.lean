import CommerceCollector.Proxy.Mutations

/-!
# What the scripts of the mutations ask for

Every request opens with the row of its key (`Opening`).  From there on the work of a new operation
(`Works`) finishes no operation but its own, calls the provider at most once, and has finished its
operation when it answers.  It does not fail as long as the replies are those of `Fits`, which is
the condition under which no number of the body and no error of the provider raises an exception.
-/

namespace CommerceCollector

open Scripts Script

namespace Mutations

/-! ## Requests -/

/-- What a request asks of the control plane. -/
inductive RequestKind
  | createProfile (body : Option CreateBody)
  | profileAction (profileId action : String) (body : Option ActionBody)
  | killSwitch (action : String) (confirmation : Option String)
  | reconcileAction
  deriving DecidableEq, Repr

/-- A request of an actor. -/
structure Request where
  actor : String
  provider : String
  key : Option String
  kind : RequestKind
  deriving DecidableEq, Repr

/-- The name of the action in the row of a request. -/
def RequestKind.action : RequestKind → String
  | .createProfile _ => "profile.create"
  | .profileAction _ action _ => "profile." ++ action
  | .killSwitch action _ => "kill_switch." ++ action
  | .reconcileAction => "reconcile"

/-- The handler of a request, for a provider of the registry. -/
def RequestKind.handler (proxyEnabled : Bool) (provider : String) (spec : ProviderSpec)
    (key : Option String) : RequestKind → Handler Response
  | .createProfile body => Mutations.createProfile provider spec key body
  | .profileAction profileId action body =>
    Mutations.profileAction provider spec profileId action key body
  | .killSwitch action confirmation => Mutations.killSwitch proxyEnabled action key confirmation
  | .reconcileAction => Mutations.reconcileAction key

/-- The script of a request. -/
def Request.script (proxyEnabled : Bool) (r : Request) : Handler Response :=
  match providerSpec r.provider with
  | none =>
    pure (.problem 404 "Unknown provider"
      "no such proxy provider; known providers are decodo, iproyal, proxyscrape, webshare")
  | some spec => r.kind.handler proxyEnabled r.provider spec r.key

/-! ## Questions of an operation -/

/-- The questions that change something outside of the database. -/
def Question.touches : Question → Bool
  | .call => true
  | .reconcile => true
  | _ => false

/-- The question that finishes an operation. -/
def Question.finishes : Question → Bool
  | .finish _ _ _ _ => true
  | _ => false

/-- What the work of an operation may ask: it begins no other one, and finishes no other one. -/
def Proper (operationId : ℕ) : Question → Prop
  | .profile => False
  | .insertRequest _ _ => False
  | .selectRequest _ _ => False
  | .finish operationId' status _ state =>
    operationId' = operationId ∧ status ≠ 0 ∧ state ≠ .started
  | _ => True

/-- The work of an operation, with the calls that it still may make and whether it is finished.  It
raises no exception on the replies of a kind, if it is to be calm. -/
structure Works (R : ∀ q : Question, q.Reply → Prop) (calm : Prop) (operationId calls : ℕ)
    (closed : Bool) (s : Handler Response) : Prop where
  every : s.Every (Proper operationId)
  atMost : s.AtMost Question.touches calls
  before : s.Before Question.finishes closed
  safe : calm → s.Safe R

/-! ## Exceptions -/

/-- The expected confirmation is there, and what the body holds raises an exception afterwards. -/
def ActionBody.Raises (action : String) (body : ActionBody) (profile : ActionProfile) : Prop :=
  body.confirmation.isSome = true ∧
    body.confirmation = expectedConfirmation action body profile.logicalName ∧
      (action = "rotate" ∧ body.mode = .unhashable ∨
        action = "limit" ∧ body.providerTrafficLimitBytes.value = none ∨
          action = "allocation" ∧ body.allocatedBytes.value = none)

instance (action : String) (body : ActionBody) (profile : ActionProfile) :
    Decidable (body.Raises action profile) :=
  inferInstanceAs (Decidable (_ ∧ _ ∧ _))

/-- The body of a request raises an exception, with the profile that was found. -/
def RequestKind.Raises (found : Option ActionProfile) : RequestKind → Prop
  | .profileAction _ action (some body) => ∃ profile ∈ found, body.Raises action profile
  | _ => False

instance (found : Option ActionProfile) : ∀ kind : RequestKind, Decidable (kind.Raises found)
  | .profileAction _ action (some body) =>
    inferInstanceAs (Decidable (∃ profile ∈ found, body.Raises action profile))
  | .profileAction _ _ none => inferInstanceAs (Decidable False)
  | .createProfile _ => inferInstanceAs (Decidable False)
  | .killSwitch _ _ => inferInstanceAs (Decidable False)
  | .reconcileAction => inferInstanceAs (Decidable False)

/-- Whether a request catches what its call of the provider raises, if it is no `ProviderError`. -/
def RequestKind.catches : RequestKind → Bool
  | .profileAction _ action _ => action == "rotate"
  | _ => false

/-- The replies on which a request raises no exception: its body is well formed by the time its
reservations are counted, and its call raises nothing that it does not catch. -/
def Fits (kind : RequestKind) (found : Option ActionProfile) :
    (q : Question) → Question.Reply q → Prop
  | .call, reply => reply = .localError → kind.catches = true
  | .active, _ => ¬ kind.Raises found
  | _, _ => True

/-! ## Rules -/

/-- A question that neither touches the outside nor the rows of the operations. -/
def Question.plain : Question → Bool
  | .active => true
  | .capacity => true
  | .number => true
  | .row => true
  | .returning => true
  | .statement => true
  | .install => true
  | _ => false

namespace Works

variable {R : ∀ q : Question, q.Reply → Prop} {calm : Prop} {operationId calls status : ℕ}
  {closed : Bool} {detail : String} {state : MutationState} {data : Payload} {response : Response}

theorem ask {q : Question} {next : Question.Reply q → Handler Response}
    (hproper : Proper operationId q) (hcalls : q.touches = true → 0 < calls)
    (hnext : ∀ r, Works R (calm ∧ R q r) operationId
      (if q.touches = true then calls - 1 else calls) (closed || q.finishes) (next r)) :
    Works R calm operationId calls closed (.ask q next) where
  every := ⟨hproper, fun r => (hnext r).every⟩
  atMost := ⟨hcalls, fun r => (hnext r).atMost⟩
  before r := (hnext r).before
  safe hcalm r hr := (hnext r).safe ⟨hcalm, hr⟩

theorem reply {q : Question} {next : Question.Reply q → Handler Response} {r : Question.Reply q}
    (h : Works R calm operationId calls closed (.ask q next)) (hr : calm → R q r) :
    Works R calm operationId (if q.touches = true then calls - 1 else calls) (closed || q.finishes)
      (next r) where
  every := h.every.2 r
  atMost := h.atMost.2 r
  before := h.before r
  safe hcalm := h.safe hcalm r (hr hcalm)

theorem mono {calm' : Prop} {s : Handler Response} (h : Works R calm operationId calls closed s)
    (hcalm : calm' → calm) : Works R calm' operationId calls closed s :=
  { h with safe := fun h' => h.safe (hcalm h') }

theorem done : Works R calm operationId calls true (.done response) :=
  ⟨trivial, trivial, rfl, fun _ => trivial⟩

theorem fail (h : ¬ calm) : Works R calm operationId calls closed .fail :=
  ⟨trivial, trivial, trivial, fun hcalm => absurd hcalm h⟩

theorem ite {c : Prop} [Decidable c] {s s' : Handler Response}
    (hpos : c → Works R calm operationId calls closed s)
    (hneg : ¬ c → Works R calm operationId calls closed s') :
    Works R calm operationId calls closed (if c then s else s') := by
  split
  · exact hpos ‹_›
  · exact hneg ‹_›

theorem plain {q : Question} {next : Question.Reply q → Handler Response} (hq : q.plain = true)
    (hnext : ∀ r, Works R calm operationId calls closed (next r)) :
    Works R calm operationId calls closed (.ask q next) := by
  have hask : Proper operationId q ∧ q.touches = false ∧ q.finishes = false := by
    cases q <;> first | exact ⟨trivial, rfl, rfl⟩ | cases hq
  refine ask hask.1 (by simp [hask.2.1]) fun r => ?_
  rw [hask.2.1, hask.2.2, Bool.or_false]
  exact (hnext r).mono And.left

theorem call {next : CallReply → Handler Response}
    (hnext : ∀ r, Works R (calm ∧ R .call r) operationId 0 closed (next r)) :
    Works R calm operationId 1 closed (.ask .call next) := by
  refine ask trivial (fun _ => Nat.one_pos) fun r => ?_
  rw [show (closed || Question.finishes .call) = closed from Bool.or_false closed]
  exact hnext r

theorem finish {next : Unit → Handler Response} (hstatus : status ≠ 0) (hstate : state ≠ .started)
    (hnext : Works R calm operationId calls true (next ())) :
    Works R calm operationId calls closed (.ask (.finish operationId status data state) next) := by
  refine ask ⟨rfl, hstatus, hstate⟩ (by simp [Question.touches]) fun r => ?_
  rw [show (closed || Question.finishes (.finish operationId status data state)) = true from
    Bool.or_true closed]
  exact hnext.mono And.left

theorem answer (hstatus : status ≠ 0) (hstate : state ≠ .started) :
    Works R calm operationId calls closed (do
      finishMutation operationId status data state
      pure response) :=
  finish hstatus hstate (plain rfl fun _ => done)

theorem inside (hstatus : status ≠ 0) (hstate : state ≠ .started) :
    Works R calm operationId calls closed (do
      finishInside operationId status data state
      pure response) :=
  plain rfl fun _ => finish hstatus hstate done

theorem localFailure :
    Works R calm operationId calls closed (localFailure operationId detail) :=
  plain rfl fun _ => plain rfl fun _ => answer (by decide) (by decide)

end Works

/-! ## The works of the requests -/

section Requests

variable {operationId active : ℕ} {t : ActionTarget} {body : ActionBody} {calm : Prop}
  {kind : RequestKind} {found : Option ActionProfile} {action : String}

theorem callState_ne {ambiguous : Bool} : callState ambiguous ≠ .started := by
  cases ambiguous <;> decide

theorem not_fits_localError (hkind : kind.catches = false) :
    ¬ (calm ∧ Fits kind found .call .localError) :=
  fun h => Bool.false_ne_true (hkind.symm.trans (h.2 rfl))

/-- `create_profile`. -/
theorem works_create {body : CreateBody} (hkind : kind.catches = false) :
    Works (Fits kind found) calm operationId 1 false (createWork body operationId) := by
  refine Works.plain rfl fun _ => Works.plain rfl fun cycle => ?_
  cases cycle with
  | none => exact Works.inside (by decide) (by decide)
  | some cycle =>
    refine Works.plain rfl fun allocated => Works.ite (fun _ => ?_) fun _ => ?_
    · exact Works.inside (by decide) (by decide)
    · refine Works.plain rfl fun _ => Works.plain rfl fun _ => Works.call fun reply => ?_
      cases reply with
      | ok =>
        refine Works.plain rfl fun generation => ?_
        cases generation with
        | none =>
          exact Works.plain rfl fun _ => Works.plain rfl fun _ =>
            Works.answer (by decide) (by decide)
        | some generation =>
          exact Works.plain rfl fun _ => Works.finish (by decide) (by decide)
            (Works.plain rfl fun _ => Works.plain rfl fun _ => Works.done)
      | providerError code message ambiguous =>
        cases ambiguous with
        | false =>
          exact Works.plain rfl fun _ => Works.plain rfl fun _ =>
            Works.answer (by decide) callState_ne
        | true => exact Works.answer (by decide) callState_ne
      | localError => exact Works.fail (not_fits_localError hkind)

theorem works_drainRotation :
    Works (Fits kind found) calm operationId 1 false (drainRotation t operationId) := by
  refine Works.call fun reply => ?_
  cases reply with
  | ok =>
    refine Works.plain rfl fun generation => ?_
    cases generation with
    | none => exact Works.localFailure
    | some generation => exact Works.plain rfl fun _ => Works.answer (by decide) (by decide)
  | providerError code message ambiguous => exact Works.answer (by decide) callState_ne
  | localError => exact Works.localFailure

theorem works_blueGreenRotation :
    Works (Fits kind found) calm operationId 1 false (blueGreenRotation t active operationId) := by
  refine Works.plain rfl fun _ => Works.plain rfl fun spare => Works.ite (fun _ => ?_) fun _ => ?_
  · exact Works.inside (by decide) (by decide)
  · refine Works.plain rfl fun _ => Works.call fun reply => ?_
    cases reply with
    | ok =>
      refine Works.plain rfl fun generation => ?_
      cases generation with
      | none => exact Works.plain rfl fun _ => Works.localFailure
      | some generation =>
        exact Works.plain rfl fun _ => Works.plain rfl fun _ =>
          Works.answer (by decide) (by decide)
    | providerError code message ambiguous =>
      exact Works.plain rfl fun _ => Works.answer (by decide) callState_ne
    | localError => exact Works.plain rfl fun _ => Works.localFailure

/-- The action `rotate`. -/
theorem works_rotate (hmode : calm → body.mode ≠ .unhashable) :
    Works (Fits kind found) calm operationId 1 false (rotateAction t body active operationId) := by
  unfold rotateAction
  cases hbody : body.mode with
  | unhashable => exact Works.fail fun hcalm => hmode hcalm hbody
  | hashable => exact Works.answer (by decide) (by decide)
  | text mode =>
    refine Works.ite (fun _ => Works.ite (fun _ => ?_) fun _ => ?_) fun _ =>
      Works.ite (fun _ => Works.ite (fun _ => ?_) fun _ => ?_) fun _ => ?_
    · exact Works.plain rfl fun _ => Works.answer (by decide) (by decide)
    · exact works_drainRotation
    · exact Works.answer (by decide) (by decide)
    · exact works_blueGreenRotation
    · exact Works.answer (by decide) (by decide)

/-- The action `disable`. -/
theorem works_disable (hkind : kind.catches = false) :
    Works (Fits kind found) calm operationId 1 false (disableAction t active operationId) := by
  refine Works.plain rfl fun _ => Works.plain rfl fun _ => Works.ite (fun _ => ?_) fun _ => ?_
  · exact Works.answer (by decide) (by decide)
  · refine Works.call fun reply => ?_
    cases reply with
    | ok => exact Works.plain rfl fun _ => Works.answer (by decide) (by decide)
    | providerError code message ambiguous => exact Works.answer (by decide) callState_ne
    | localError => exact Works.fail (not_fits_localError hkind)

/-- The action `limit`. -/
theorem works_limit (hkind : kind.catches = false)
    (hnumber : calm → body.providerTrafficLimitBytes.value ≠ none) :
    Works (Fits kind found) calm operationId 1 false (limitAction t body operationId) := by
  unfold limitAction
  cases hbody : body.providerTrafficLimitBytes.value with
  | none => exact Works.fail fun hcalm => hnumber hcalm hbody
  | some limit =>
    refine Works.ite (fun _ => ?_) fun _ => Works.call fun reply => ?_
    · exact Works.answer (by decide) (by decide)
    · cases reply with
      | ok => exact Works.plain rfl fun _ => Works.answer (by decide) (by decide)
      | providerError code message ambiguous => exact Works.answer (by decide) callState_ne
      | localError => exact Works.fail (not_fits_localError hkind)

/-- The action `allocation`. -/
theorem works_allocation (hnumber : calm → body.allocatedBytes.value ≠ none) :
    Works (Fits kind found) calm operationId 1 false (allocationAction t body active operationId) := by
  unfold allocationAction
  cases hbody : body.allocatedBytes.value with
  | none => exact Works.fail fun hcalm => hnumber hcalm hbody
  | some allocation =>
    refine Works.ite (fun _ => ?_) fun _ => Works.ite (fun _ => ?_) fun _ =>
      Works.plain rfl fun _ => Works.plain rfl fun capacity =>
        Works.ite (fun _ => ?_) fun _ => ?_
    · exact Works.answer (by decide) (by decide)
    · exact Works.answer (by decide) (by decide)
    · exact Works.inside (by decide) (by decide)
    · exact Works.plain rfl fun _ => Works.answer (by decide) (by decide)

/-- `profile_action` once the reservations are counted. -/
theorem works_counted {profileId : String}
    (hkind : kind = .profileAction profileId action (some body))
    (hbody : calm → ¬ body.Raises action t.profile) :
    Works (Fits kind found) calm operationId 1 false
      (countedAction t action body active operationId) := by
  unfold countedAction
  cases hexpected : expectedConfirmation action body t.profile.logicalName with
  | none => exact Works.answer (by decide) (by decide)
  | some expected =>
    have hcatches : action ≠ "rotate" → kind.catches = false := by
      intro hne
      rw [hkind]
      exact beq_eq_false_iff_ne.mpr hne
    refine Works.ite (fun _ => Works.answer (by decide) (by decide)) fun hconfirmed => ?_
    have hsome : body.confirmation = some expected := not_not.mp hconfirmed
    have hraises : ∀ {P : Prop}, (P → action = "rotate" ∧ body.mode = .unhashable ∨
        action = "limit" ∧ body.providerTrafficLimitBytes.value = none ∨
          action = "allocation" ∧ body.allocatedBytes.value = none) → calm → ¬ P :=
      fun hP hcalm h => hbody hcalm ⟨by rw [hsome]; rfl, hsome.trans hexpected.symm, hP h⟩
    refine Works.ite (fun hrotate => ?_) fun hrotate => Works.ite (fun _ => ?_) fun hdisable =>
      Works.ite (fun hlimit => ?_) fun hlimit => ?_
    · exact works_rotate (hraises fun h => Or.inl ⟨hrotate, h⟩)
    · exact works_disable (hcatches hrotate)
    · exact works_limit (hcatches hrotate) (hraises fun h => Or.inr (Or.inl ⟨hlimit, h⟩))
    · have hallocation : action = "allocation" := by
        by_contra hne
        rw [expectedConfirmation, if_neg hrotate, if_neg hdisable, if_neg hlimit, if_neg hne]
          at hexpected
        cases hexpected
      exact works_allocation (hraises fun h => Or.inr (Or.inr ⟨hallocation, h⟩))

/-- `profile_action`. -/
theorem works_action {profileId : String}
    (hkind : kind = .profileAction profileId action (some body)) (hfound : found = some t.profile) :
    Works (Fits kind found) calm operationId 1 false (actionWork t action body operationId) := by
  refine Works.ask trivial (fun h => absurd h (by decide)) fun active => ?_
  refine works_counted hkind fun hcalm hraises => hcalm.2 ?_
  rw [hkind, hfound]
  exact ⟨t.profile, rfl, hraises⟩

/-- `kill_switch`. -/
theorem works_switch {proxyEnabled : Bool} :
    Works (Fits kind found) calm operationId 1 false (switchWork proxyEnabled action operationId) := by
  have hswitched : ∀ updated, Works (Fits kind found) calm operationId 1 false
      (switched action updated operationId) := by
    intro updated
    refine Works.ite (fun _ => ?_) fun _ => ?_
    · exact Works.answer (by decide) (by decide)
    · exact Works.finish (by decide) (by decide)
        (Works.plain rfl fun _ => Works.plain rfl fun _ => Works.done)
  refine Works.ite (fun _ => ?_) fun _ => Works.ite (fun _ => ?_) fun _ => ?_
  · exact Works.plain rfl fun updated => Works.plain rfl fun _ => hswitched updated
  · exact Works.answer (by decide) (by decide)
  · exact Works.plain rfl fun updated => hswitched updated

/-- `reconcile_action`. -/
theorem works_reconcile :
    Works (Fits kind found) calm operationId 1 false (reconcileWork operationId) := by
  refine Works.ask trivial (fun _ => Nat.one_pos) fun reply => ?_
  cases reply with
  | reported totalBytes => exact Works.answer (by decide) (by decide)
  | providerError message => exact Works.answer (by decide) (by decide)
  | runtimeError message => exact Works.answer (by decide) (by decide)

end Requests

/-! ## The openings -/

/-- A replay is answered with a status. -/
def Replayable (row : MutationRow) : Prop :=
  row.state ≠ .started → row.responseStatus.getD 0 ≠ 0

/-- What a request asks for before it has begun: it may read its profile, and then the row of its
key, which it has inserted or which is there already.  `W` is what follows in the first case. -/
inductive Opening (W : Option ActionProfile → ℕ → Handler Response → Prop) (action key : String) :
    Option ActionProfile → Handler Response → Prop
  | done {found : Option ActionProfile} (response : Response) :
    Opening W action key found (.done response)
  | profile {found : Option ActionProfile} {next : Option ActionProfile → Handler Response}
    (h : ∀ r, Opening W action key r (next r)) : Opening W action key found (.ask .profile next)
  | insert {found : Option ActionProfile} {next : Option ℕ → Handler Response} (given : key ≠ "")
    (new : ∀ operationId, W found operationId (next (some operationId)))
    (old : Opening W action key found (next none)) :
    Opening W action key found (.ask (.insertRequest action key) next)
  | select {found : Option ActionProfile} {next : Option MutationRow → Handler Response}
    (given : key ≠ "") (h : ∀ r : Option MutationRow, (∀ row ∈ r, Replayable row) →
      Opening W action key found (next r)) :
    Opening W action key found (.ask (.selectRequest action key) next)

section Openings

variable {W : Option ActionProfile → ℕ → Handler Response → Prop} {found : Option ActionProfile}

theorem opening_ite {action key : String} {c : Prop} [Decidable c] {s s' : Handler Response}
    (hpos : c → Opening W action key found s) (hneg : ¬ c → Opening W action key found s') :
    Opening W action key found (if c then s else s') := by
  split
  · exact hpos ‹_›
  · exact hneg ‹_›

theorem opening_withMutation {action : String} {key : Option String}
    {work : ℕ → Handler Response}
    (hwork : ∀ operationId, W found operationId (.ask .statement fun _ => work operationId)) :
    Opening W action (key.getD "") found (withMutation action key work) := by
  cases key with
  | none => exact .done _
  | some key =>
    by_cases hkey : key = "" ∨ 200 < key.length
    · have hscript : withMutation action (some key) work = .done (.problem 409
          "Idempotency conflict" "Idempotency-Key is required and must be at most 200 characters") := by
        simp [withMutation, beginMutation, hkey]
      rw [hscript]
      exact .done _
    · unfold withMutation beginMutation
      simp only [if_neg hkey]
      have hgiven : key ≠ "" := fun h => hkey (Or.inl h)
      refine .insert hgiven hwork (.select hgiven fun r hr => ?_)
      cases r with
      | none => exact .done _
      | some row =>
        by_cases hstate : row.state = .started
        · simp only [bind_done, if_pos hstate, pure_eq]
          exact .done _
        · have hstatus : row.responseStatus.getD 0 ≠ 0 := hr row rfl hstate
          simp only [bind_done, if_neg hstate, pure_eq, if_pos hstatus]
          exact .done _

end Openings

/-- What is left of a request that has begun. -/
def Request.Working (calm : Prop) (r : Request) (found : Option ActionProfile) (operationId : ℕ)
    (s : Handler Response) : Prop :=
  Works (Fits r.kind found) calm operationId 1 false s

/-- **Every request opens with the row of its key, and works on as `Works` says.** -/
theorem Request.opening (proxyEnabled : Bool) (calm : Prop) (r : Request) :
    Opening (r.Working calm) r.kind.action (r.key.getD "") none (r.script proxyEnabled) := by
  unfold Request.script
  cases providerSpec r.provider with
  | none => exact .done _
  | some spec =>
    have hwithMutation : ∀ {found : Option ActionProfile} {work : ℕ → Handler Response},
        (∀ operationId, r.Working calm found operationId (work operationId)) →
          Opening (r.Working calm) r.kind.action (r.key.getD "") found
            (withMutation r.kind.action r.key work) :=
      fun hwork => opening_withMutation fun operationId => Works.plain rfl fun _ => hwork operationId
    obtain ⟨actor, provider, key, kind⟩ := r
    cases kind with
    | createProfile body =>
      refine opening_ite (fun _ => .done _) fun _ => ?_
      cases body with
      | none => exact .done _
      | some body =>
        refine opening_ite (fun _ => .done _) fun _ => opening_ite (fun _ => .done _) fun _ =>
          opening_ite (fun _ => .done _) fun _ => ?_
        exact hwithMutation fun operationId => works_create rfl
    | profileAction profileId action body =>
      cases body with
      | none => exact .done _
      | some body =>
        refine opening_ite (fun _ => .done _) fun _ => opening_ite (fun _ => .done _) fun _ =>
          .profile fun profile => ?_
        cases profile with
        | none => exact .done _
        | some profile =>
          refine opening_ite (fun _ => .done _) fun _ => ?_
          exact hwithMutation fun operationId => works_action rfl rfl
    | killSwitch action confirmation =>
      refine opening_ite (fun _ => .done _) fun _ => ?_
      cases switchConfirmation action with
      | none => exact hwithMutation fun operationId => works_switch
      | some expected =>
        refine opening_ite (fun _ => .done _) fun _ => ?_
        exact hwithMutation fun operationId => works_switch
    | reconcileAction => exact hwithMutation fun operationId => works_reconcile

end Mutations

end CommerceCollector
