import CommerceCollector.Foundation.Trace
import Mathlib.Logic.Function.Basic
import Mathlib.Data.Fintype.Basic

/-!
# Recovery of a disabled source

`ops/health.py` on the rows of one source: `disable`, `check_recovered` with `_probe` and `_record`,
and `update_source` of `catalogue_control/app.py`.  Any number of sessions run these at once; a
session of `check_recovered` reads the pending probe, probes the URL, records the result and
re-enables the source in statements of their own, and `update_source` reads the settings before it
writes them.

The state remembers what happened, latest first.  A recovery is justified (`Justified`) if the
setting was last written by `disable` and the site has since answered the required number of times
in a row.
-/

namespace CommerceCollector

namespace Health

/-- `source_health_probes.expect`. -/
inductive Expect
  | json | ok
  deriving DecidableEq, Repr

/-- What became of a request: an exception and its text, or a status and whether the body is
JSON. -/
inductive Answer
  | fault (error : String)
  | response (status : ℕ) (json : Bool)
  deriving DecidableEq, Repr

/-- `_probe`: the status, and why it does not count as recovered. -/
def probe (expect : Expect) : Answer → Option ℕ × Option String
  | .fault error => (none, some (String.ofList (error.toList.take 500)))
  | .response status json =>
    if status ≠ 200 then (some status, some s!"HTTP {status}")
    else if expect = .json ∧ json = false then (some status, some "200 but the body is not JSON")
    else (some status, none)

/-- The row of `catalogue.source_health_probes`. -/
structure HealthProbe where
  url : String
  expect : Expect
  requiredOk : ℤ
  consecutiveOk : ℕ := 0
  recovered : Bool := false
  deriving DecidableEq, Repr

/-- Where a session of `check_recovered` is. -/
inductive Check
  | pending (url : String) (expect : Expect)
  | probed (error : Option String)
  | counted
  deriving DecidableEq, Repr

/-- What happened to the source: a write of its setting, or a probe. -/
inductive Event
  | disabled (url : String) (expect : Expect) (requiredOk : ℤ)
  | probed (url : String) (expect : Expect) (ok : Bool)
  | recovered (switched : Bool)
  | updated (enabled : Bool)
  deriving DecidableEq, Repr

/-- The rows of the source, the sessions and what happened, latest first.  `updates` is the
`enabled` that an `update_source` has read. -/
structure State (ι : Type*) where
  enabled : Option Bool
  probe : Option HealthProbe := none
  checks : ι → Option Check := fun _ => none
  updates : ι → Option Bool := fun _ => none
  history : List Event := []

/-- A statement or a transaction of a session. -/
inductive Action (ι : Type*)
  | disable (url : String) (expect : Expect) (requiredOk : ℤ)
  | readPending (c : ι)
  | probe (c : ι) (answer : Answer)
  | record (c : ι)
  | reenable (c : ι)
  | readSettings (c : ι)
  | updateSource (c : ι) (enabled : Option Bool)

variable {ι : Type*} [DecidableEq ι]

/-- No row means enabled. -/
def State.isEnabled (s : State ι) : Bool := s.enabled.getD true

/-- The session is somewhere else. -/
def State.setCheck (s : State ι) (c : ι) (check : Option Check) : State ι :=
  { s with checks := Function.update s.checks c check }

/-- The transaction of `disable`. -/
def State.disable (s : State ι) (url : String) (expect : Expect) (requiredOk : ℤ) : State ι :=
  { s with
    enabled := some false
    probe := some { url, expect, requiredOk }
    history := .disabled url expect requiredOk :: s.history }

/-- `PENDING`. -/
def State.readPending (s : State ι) (c : ι) : State ι :=
  match s.checks c, s.probe with
  | none, some p => if p.recovered = true then s else s.setCheck c (some (.pending p.url p.expect))
  | _, _ => s

/-- The request of a session. -/
def State.probeSite (s : State ι) (c : ι) (answer : Answer) : State ι :=
  match s.checks c with
  | some (.pending url expect) =>
    { s.setCheck c (some (.probed (Health.probe expect answer).2)) with
      history := .probed url expect (Health.probe expect answer).2.isNone :: s.history }
  | _ => s

/-- `_record` up to its first statement, and whether it goes on. -/
def State.record (s : State ι) (c : ι) : State ι :=
  match s.checks c, s.probe with
  | some (.probed (some _)), some p =>
    { s.setCheck c none with probe := some { p with consecutiveOk := 0 } }
  | some (.probed none), some p =>
    { s.setCheck c (if (p.consecutiveOk + 1 : ℤ) < p.requiredOk then none else some .counted) with
      probe := some { p with consecutiveOk := p.consecutiveOk + 1 } }
  | _, _ => s

/-- The transaction of `_record`. -/
def State.reenable (s : State ι) (c : ι) : State ι :=
  match s.checks c with
  | some .counted =>
    { s.setCheck c none with
      enabled := some true
      probe := s.probe.map fun p => { p with recovered := true }
      history := .recovered (!s.isEnabled) :: s.history }
  | _ => s

/-- `select * from catalogue.source_settings` of `update_source`. -/
def State.readSettings (s : State ι) (c : ι) : State ι :=
  { s with updates := Function.update s.updates c (some s.isEnabled) }

/-- `UPSERT_SOURCE` with what the body says of `enabled`. -/
def State.updateSource (s : State ι) (c : ι) (enabled : Option Bool) : State ι :=
  match s.updates c with
  | some current =>
    { s with
      enabled := some (enabled.getD current)
      updates := Function.update s.updates c none
      history := .updated (enabled.getD current) :: s.history }
  | none => s

/-- One action. -/
def State.step (s : State ι) : Action ι → State ι
  | .disable url expect requiredOk => s.disable url expect requiredOk
  | .readPending c => s.readPending c
  | .probe c answer => s.probeSite c answer
  | .record c => s.record c
  | .reenable c => s.reenable c
  | .readSettings c => s.readSettings c
  | .updateSource c enabled => s.updateSource c enabled

/-- A source that was never disabled by `disable`. -/
def State.start (enabled : Option Bool) : State ι := { enabled }

/-! ## What happened -/

/-- The last write of the setting. -/
def lastWrite : List Event → Option Event
  | [] => none
  | .probed _ _ _ :: h => lastWrite h
  | e :: _ => some e

/-- The URL, the expectation and the required count of the last `disable`. -/
def lastDisable : List Event → Option (String × Expect × ℤ)
  | [] => none
  | .disabled url expect requiredOk :: _ => some (url, expect, requiredOk)
  | _ :: h => lastDisable h

/-- The probes since the last `disable`, latest first. -/
def probesSince : List Event → List (String × Expect × Bool)
  | [] => []
  | .disabled _ _ _ :: _ => []
  | .probed url expect ok :: h => (url, expect, ok) :: probesSince h
  | _ :: h => probesSince h

/-- An operator disabled the source, and none has enabled it since. -/
def heldByOperator : List Event → Bool
  | [] => false
  | .updated enabled :: _ => !enabled
  | _ :: h => heldByOperator h

/-- The setting was last written by `disable`, and the last probes, as many as it requires, are
successful ones of its URL. -/
def Justified (h : List Event) : Prop :=
  ∃ url expect requiredOk, lastWrite h = some (.disabled url expect requiredOk) ∧
    List.replicate requiredOk.toNat (url, expect, true) <+: probesSince h

/-- Every recovery that switched the source was justified. -/
def Honest : List Event → Prop
  | [] => True
  | .recovered true :: h => Justified h ∧ Honest h
  | _ :: h => Honest h

/-- Recovery did not override an operator. -/
def State.RespectsOperator (s : State ι) : Prop :=
  Honest s.history ∧ (heldByOperator s.history = true → s.enabled = some false)

/-! ## The condition -/

/-- The session is between its probe and its last statement. -/
def Check.active : Option Check → Bool
  | some (.probed _) => true
  | some .counted => true
  | _ => false

/-- The source is waited for. -/
def State.pending (s : State ι) : Bool := s.probe.any fun p => !p.recovered

/-- An operator disables the source only if it is not waited for, `disable` only if no operator has,
both only if no check is under way (but one that has yet to probe the same URL may be under
`disable`); and a check probes only if no other one has a result that is not recorded. -/
def State.Undisturbed (s : State ι) : Action ι → Prop
  | .disable url expect _ =>
    heldByOperator s.history = false ∧
      ∀ c, s.checks c = none ∨ s.checks c = some (.pending url expect)
  | .probe c _ => ∀ c', c' ≠ c → Check.active (s.checks c') = false
  | .updateSource c enabled =>
    (s.updates c).map enabled.getD = some false → s.pending = false ∧ ∀ c, s.checks c = none
  | _ => True

instance [Fintype ι] (s : State ι) : (a : Action ι) → Decidable (s.Undisturbed a)
  | .disable url expect _ => inferInstanceAs (Decidable (heldByOperator s.history = false ∧
      ∀ c, s.checks c = none ∨ s.checks c = some (.pending url expect)))
  | .probe c _ =>
    inferInstanceAs (Decidable (∀ c', c' ≠ c → Check.active (s.checks c') = false))
  | .updateSource c enabled => inferInstanceAs (Decidable
      ((s.updates c).map enabled.getD = some false → s.pending = false ∧ ∀ c, s.checks c = none))
  | .readPending _ | .record _ | .reenable _ | .readSettings _ => inferInstanceAs (Decidable True)

end Health

end CommerceCollector
