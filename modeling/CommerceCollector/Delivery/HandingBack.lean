import CommerceCollector.Delivery.Drain

/-!
# What a drain makes of a job

A drain begins with a job that its worker holds.  As long as the execution still has the job
(`Standing.Ready`), one move of it saves the job, loses it, or leaves it to the next move; a saved
job stays saved and a lost one stays lost, whatever the rest of the execution does.  A cancellation
that leaves `execute` leaves the job to `shutdown`, which hands it back.  A cancellation that the
clauses behind the crawl get to see ends the job, or acknowledges the delivery of a running one.
-/

namespace CommerceCollector

open Relational

/-! ## The course of a drain -/

/-- A drain is behind the `try` at a stage iff the execution goes on there. -/
theorem Leg.of_eq_unwinding {stage? : Option Stage} {stage : Stage} :
    Leg.of stage? = .unwinding stage ↔ stage? = some stage := by
  cases stage? <;> simp [Leg.of]

/-- The execution will acknowledge the delivery that its worker holds. -/
def Leg.acknowledges : Leg → Prop
  | .unwinding (.crawling _) | .unwinding (.retrying _) | .unwinding (.finishing ..)
  | .unwinding (.leaving _) | .unwinding (.finalAck _) => True
  | _ => False

/-- Nothing that is left touches the row. -/
def Leg.passes (delivery : Option JobEnvelope) : Leg → Prop
  | .unwinding (.leaving _) | .unwinding (.finalAck _) | .unwinding (.forgetting _)
  | .stopped => True
  | .gathered => delivery = none
  | _ => False

namespace Standing

variable {worker : Uuid} {job : ClaimedJob} {st : Standing}

/-- The job is back in the queue, out of reach of what is left of the execution. -/
structure Saved (job : ClaimedJob) (st : Standing) : Prop where
  state : st.state = .queued
  unacked : st.acked = false
  token : st.executionToken ≠ some job.executionToken
  current : st.current job = false

/-- The job does not get back into the queue, or not with its delivery. -/
inductive Lost (job : ClaimedJob) (st : Standing) (leg : Leg) : Prop
  | ended (token : st.executionToken ≠ some job.executionToken)
      (state : st.state ≠ .queued ∨ st.acked = true)
  | acknowledging (token : st.executionToken ≠ some job.executionToken)
      (current : st.current job = true) (leg : leg.acknowledges)
  | passing (state : st.state ≠ .queued) (leg : leg.passes st.delivery)

/-- The standing with which an execution that still has its job reaches a stage. -/
def Ready (worker : Uuid) (job : ClaimedJob) (st : Standing) : Stage → Prop
  | .crawling _ | .retrying _ | .finishing .. => st.Holds worker job
  | .retried _ => st.state = .queued ∧ st.executionToken = none ∧ st.current job = true ∧
      st.acked = false
  | _ => False

theorem owned_eq_false (h : st.executionToken ≠ some job.executionToken) :
    st.owned worker job = false := by
  simp [owned, h]

/-- A move leaves a row under another token alone, and revokes no acknowledgement. -/
theorem move_of_token_ne (worker : Uuid) (h : st.executionToken ≠ some job.executionToken) (crawl : Crawl)
    (stage : Stage) :
    let st' := st.move worker job crawl stage
    st'.state = st.state ∧ st'.executionToken = st.executionToken ∧
      (st.acked = true → st'.acked = true) ∧
      (st.current job = false → st'.current job = false ∧ st'.acked = st.acked) := by
  have howned : st.owned worker job = false := owned_eq_false h
  have hrelease : st.release worker job = st := by simp [release, howned]
  have hescalate : st.escalate worker job = st := by simp [escalate, howned]
  have hfinish : ∀ state pause, st.finish job state pause = st := by simp [finish, h]
  have hforget : st.forget.current job = false := rfl
  cases stage with
  | crawling _ | retrying _ | retried _ | finishing _ _ _ _ _ =>
    cases crawl <;> simp [move, hrelease, hescalate, hfinish, hforget] <;> simp [forget]
  | finalAck _ =>
    refine ⟨rfl, rfl, fun hacked => by simp [move, acknowledge, hacked], fun hcurrent => ⟨hcurrent, ?_⟩⟩
    simp [move, acknowledge, hcurrent]
  | forgetting _ => exact ⟨rfl, rfl, id, fun _ => ⟨hforget, rfl⟩⟩
  | _ => exact ⟨rfl, rfl, id, fun hcurrent => ⟨hcurrent, rfl⟩⟩

theorem Saved.move (h : st.Saved job) (crawl : Crawl) (stage : Stage) :
    (st.move worker job crawl stage).Saved job := by
  obtain ⟨hstate, htoken, -, hcurrent⟩ := move_of_token_ne worker h.token crawl stage
  obtain ⟨hnot, hacked⟩ := hcurrent h.current
  exact ⟨hstate.trans h.state, hacked.trans h.unacked, htoken ▸ h.token, hnot⟩

namespace Holds

variable (h : st.Holds worker job)

include h

theorem owned : st.owned worker job = true := by
  simp [Standing.owned, h.owner, h.token]

theorem state_ne_queued : st.state ≠ .queued := by
  rcases h.unfinished with hstate | hstate <;> simp [hstate]

/-- `release` puts the row back, and the delivery is still held. -/
theorem release_eq : st.release worker job = st.drop .queued := by
  simp [Standing.release, h.owned]

/-- `require_capability` saves a job that needs no browser yet: the held delivery is that of an
older generation. -/
theorem saved_escalate (hbrowser : st.needsBrowser = false) :
    (st.escalate worker job).Saved job := by
  have hescalate : st.escalate worker job = { st.drop .queued with
      generation := st.generation + 1, needsBrowser := true, acked := false } := by
    simp [Standing.escalate, h.owned, hbrowser]
  rw [hescalate]
  refine ⟨rfl, rfl, by simp [Standing.drop], ?_⟩
  have hcurrent := h.current
  simp only [Standing.current, Standing.drop] at hcurrent ⊢
  cases hdelivery : st.delivery with
  | none => rfl
  | some env =>
    rw [hdelivery, Option.any_some, beq_iff_eq] at hcurrent
    rw [Option.any_some, hcurrent, beq_eq_false_iff_ne]
    simp

theorem finish_state_ne_queued (state : JobState) (pause : Bool) :
    (st.finish job state pause).state ≠ .queued := by
  unfold Standing.finish
  rw [if_pos h.token]
  split
  · simp [Standing.drop]
  · split
    · next hterminal =>
      rintro (rfl : state = .queued)
      exact absurd hterminal (by decide)
    · exact h.state_ne_queued

end Holds

end Standing

/-- What is handed to `_finish` plays no role for what becomes of the job. -/
theorem Stage.handsBack_finishing (needsBrowser : Bool) (job : ClaimedJob) (state state' : JobState)
    (pause pause' : Bool) (summary summary' : Option JobSummary) (error error' : Option String)
    (choices : List Crawl) :
    (Stage.finishing job state pause summary error).handsBack needsBrowser choices =
      (Stage.finishing job state' pause' summary' error').handsBack needsBrowser choices := by
  cases choices with
  | nil => rfl
  | cons crawl rest => cases crawl <;> simp [Stage.handsBack]

namespace Drain

variable {worker : Uuid} {env : JobEnvelope} {job : ClaimedJob} {d : Drain}

/-- The stores are in order, and the execution is behind its `try`. -/
structure Inv (job : ClaimedJob) (d : Drain) : Prop where
  stores : d.system.StoresInv
  unwinds : ∀ stage, d.leg = .unwinding stage → stage.unwinds job

/-- An execution behind its `try` stays there, and acknowledges only the delivery it holds. -/
theorem unwinds_move (worker : Uuid) (env : JobEnvelope) {stage : Stage} (h : stage.unwinds job) (db : Db) (deliveries : Deliveries)
    (now : Time) (locked : List ℕ) (trace : Option String) (crawl : Crawl) :
    let m := (⟨worker, env, stage⟩ : Task).move db deliveries now locked trace crawl
    (∀ next ∈ m.stage, next.unwinds job) ∧
      ∀ e, m.ack = some e → deliveries (worker, job.id) = some e := by
  cases stage with
  | crawling j =>
    obtain rfl : j = job := h
    cases crawl with
    | transient =>
      simp only [Task.move]
      split <;> simp [Stage.unwinds]
    | browserUnavailable error =>
      simp only [Task.move]
      split <;> simp [Stage.unwinds]
    | _ => simp [Task.move, Stage.unwinds]
  | retrying j =>
    obtain rfl : j = job := h
    cases crawl with
    | interrupted => simp [Task.move, Stage.unwinds]
    | _ =>
      simp only [Task.move]
      split <;> simp [Stage.unwinds]
  | retried j | finishing j _ _ _ _ =>
    obtain rfl : j = job := h
    cases crawl <;> simp [Task.move, Stage.unwinds]
  | leaving j | finalAck j | forgetting j =>
    obtain rfl : j = job := h
    simp [Task.move, Stage.unwinds]
  | _ => exact h.elim

theorem Inv.step (worker : Uuid) (env : JobEnvelope) (h : d.Inv job) (a : DrainStep) : (d.step worker env job a).Inv job := by
  cases a with
  | other a => exact ⟨h.stores.step a, h.unwinds⟩
  | own now locked trace crawl =>
    unfold Drain.step
    cases hleg : d.leg with
    | unwinding stage =>
      obtain ⟨hnext, hack⟩ := unwinds_move worker env (h.unwinds stage hleg)
        d.system.db d.system.deliveries now locked trace crawl
      refine ⟨h.stores.carry fun e he => h.stores.deliveries _ e (hack e he), fun next hn => ?_⟩
      exact hnext next (Leg.of_eq_unwinding.mp hn)
    | gathered =>
      dsimp only
      split
      · exact ⟨h.stores.commit _, by simp⟩
      · exact ⟨h.stores, by simp⟩
    | releasing => exact ⟨h.stores.commit _, by simp⟩
    | stopped => exact h

/-- A move behind the `try`, as a step of the drain. -/
theorem standing_own (worker : Uuid) (env : JobEnvelope) (h : d.Inv job) {stage : Stage} (hleg : d.leg = .unwinding stage) {st : Standing}
    (hst : d.system.standing worker job.id = some st) (now : Time) (locked : List ℕ)
    (trace : Option String) (crawl : Crawl) :
    (d.step worker env job (.own now locked trace crawl)).system.standing worker job.id =
      some (st.move worker job crawl stage) := by
  rw [Drain.step, hleg]
  refine (System.standing_carry_move h.stores (h.unwinds stage hleg) env now locked trace
    crawl).trans ?_
  rw [hst, Option.map_some]

/-- `release` selects the row iff the worker owns it. -/
theorem any_releasable {s : System} (h : s.StoresInv) {st : Standing}
    (hst : s.standing worker job.id = some st) :
    (s.db.jobs.any fun j => j.releasable job worker) = st.owned worker job := by
  obtain ⟨row, hrow, rfl⟩ := Option.map_eq_some_iff.mp hst
  obtain ⟨hmem, hid⟩ := mem_of_find? hrow
  rw [beq_iff_eq] at hid
  rw [h.keyed.any_eq hmem fun j hj => ?_]
  · simp [Job.releasable, hid, Job.standing, Standing.owned, Job.ownedBy]
  · simp only [Job.releasable, Bool.and_eq_true, beq_iff_eq] at hj
    exact hj.1.trans hid.symm

/-- `require_capability` selects the row iff the worker owns it and it needs no browser yet. -/
theorem any_escalatable {s : System} (h : s.StoresInv) {st : Standing}
    (hst : s.standing worker job.id = some st) :
    (s.db.jobs.any fun j => j.escalatable job worker .browser) =
      (st.owned worker job && !st.needsBrowser) := by
  obtain ⟨row, hrow, rfl⟩ := Option.map_eq_some_iff.mp hst
  obtain ⟨hmem, hid⟩ := mem_of_find? hrow
  rw [beq_iff_eq] at hid
  rw [h.keyed.any_eq hmem fun j hj => ?_]
  · simp [Job.escalatable, hid, Job.standing, Standing.owned, Job.ownedBy]
  · simp only [Job.escalatable, Bool.and_eq_true, beq_iff_eq] at hj
    exact hj.1.1.trans hid.symm

theorem acknowledges_own (h : d.Inv job) {stage : Stage} (hleg : d.leg = .unwinding stage)
    (hack : d.leg.acknowledges) {st : Standing} (hst : d.system.standing worker job.id = some st)
    (htoken : st.executionToken ≠ some job.executionToken) (hcurrent : st.current job = true)
    (now : Time) (locked : List ℕ) (trace : Option String) (crawl : Crawl) :
    (st.move worker job crawl stage).Lost job
      (d.step worker env job (.own now locked trace crawl)).leg := by
  have howned : st.owned worker job = false := Standing.owned_eq_false htoken
  have hreleasable := any_releasable h.stores hst
  rw [howned] at hreleasable
  rw [hleg] at hack
  simp only [Drain.step, hleg]
  cases stage with
  | crawling j =>
    obtain rfl : j = job := h.unwinds _ hleg
    have hsame : st.move worker j crawl (.crawling j) = st := by
      cases crawl <;> simp [Standing.move, Standing.escalate, howned]
    rw [hsame]
    refine .acknowledging htoken hcurrent ?_
    cases crawl with
    | transient | browserUnavailable error =>
      simp only [Task.move]
      split <;> trivial
    | _ => trivial
  | retrying j =>
    obtain rfl : j = job := h.unwinds _ hleg
    have hsame : st.move worker j crawl (.retrying j) = st := by
      cases crawl <;> simp [Standing.move, Standing.release, howned]
    rw [hsame]
    refine .acknowledging htoken hcurrent ?_
    cases crawl with
    | interrupted => trivial
    | _ =>
      simp only [Task.move, hreleasable]
      trivial
  | finishing j state pause summary error =>
    have hsame : st.move worker job crawl (.finishing j state pause summary error) = st := by
      cases crawl <;> simp [Standing.move, Standing.finish, htoken]
    rw [hsame]
    refine .acknowledging htoken hcurrent ?_
    cases crawl <;> trivial
  | leaving j => exact .acknowledging htoken hcurrent trivial
  | finalAck j =>
    exact .ended htoken (Or.inr (by simp [Standing.move, Standing.acknowledge, hcurrent]))
  | _ => exact hack.elim

theorem standing_delivery {s : System} {st : Standing}
    (hst : s.standing worker job.id = some st) : st.delivery = s.deliveries (worker, job.id) := by
  obtain ⟨row, -, rfl⟩ := Option.map_eq_some_iff.mp hst
  rfl

theorem lost_own (h : d.Inv job) {st : Standing} (hst : d.system.standing worker job.id = some st)
    (hlost : st.Lost job d.leg) (now : Time) (locked : List ℕ) (trace : Option String)
    (crawl : Crawl) :
    ∃ st', (d.step worker env job (.own now locked trace crawl)).system.standing worker job.id =
      some st' ∧ st'.Lost job (d.step worker env job (.own now locked trace crawl)).leg := by
  cases hleg : d.leg with
  | unwinding stage =>
    refine ⟨_, standing_own worker env h hleg hst now locked trace crawl, ?_⟩
    cases hlost with
    | ended token state =>
      obtain ⟨hstate, htoken, hacked, -⟩ :=
        Standing.move_of_token_ne worker token crawl stage
      exact .ended (htoken ▸ token) (state.imp (fun hne => hstate ▸ hne) hacked)
    | acknowledging token current hack =>
      exact acknowledges_own h hleg hack hst token current now locked trace crawl
    | passing state pass =>
      rw [hleg] at pass
      simp only [Drain.step, hleg]
      cases stage with
      | leaving j => exact .passing state trivial
      | finalAck j => exact .passing state trivial
      | forgetting j => exact .passing state rfl
      | _ => exact pass.elim
  | gathered =>
    simp only [Drain.step, hleg]
    split
    · next hheld =>
      refine ⟨st, (System.standing_releaseAll ..).trans hst, ?_⟩
      cases hlost with
      | ended token state => exact .ended token state
      | acknowledging token current hack =>
        rw [hleg] at hack
        exact hack.elim
      | passing state pass =>
        rw [hleg] at pass
        rw [← standing_delivery hst, pass] at hheld
        exact absurd hheld (by simp)
    · refine ⟨st, hst, ?_⟩
      cases hlost with
      | ended token state => exact .ended token state
      | acknowledging token current hack =>
        rw [hleg] at hack
        exact hack.elim
      | passing state pass => exact .passing state trivial
  | releasing =>
    simp only [Drain.step, hleg]
    rw [System.standing_release, hst]
    cases hlost with
    | ended token state =>
      have hsame : st.release worker job = st := by
        simp [Standing.release, Standing.owned_eq_false token]
      exact ⟨st, congrArg some hsame, .ended token state⟩
    | acknowledging token current hack =>
      rw [hleg] at hack
      exact hack.elim
    | passing state pass =>
      rw [hleg] at pass
      exact pass.elim
  | stopped =>
    have hsame : d.step worker env job (.own now locked trace crawl) = d := by
      simp only [Drain.step, hleg]
    rw [hsame]
    exact ⟨st, hst, hlost⟩

theorem saved_own (h : d.Inv job) {st : Standing} (hst : d.system.standing worker job.id = some st)
    (hsaved : st.Saved job) (now : Time) (locked : List ℕ) (trace : Option String) (crawl : Crawl) :
    ∃ st', (d.step worker env job (.own now locked trace crawl)).system.standing worker job.id =
      some st' ∧ st'.Saved job := by
  cases hleg : d.leg with
  | unwinding stage =>
    exact ⟨_, standing_own worker env h hleg hst now locked trace crawl, hsaved.move crawl stage⟩
  | gathered =>
    simp only [Drain.step, hleg]
    split
    · exact ⟨st, (System.standing_releaseAll ..).trans hst, hsaved⟩
    · exact ⟨st, hst, hsaved⟩
  | releasing =>
    have hsame : st.release worker job = st := by
      simp [Standing.release, Standing.owned_eq_false hsaved.token]
    simp only [Drain.step, hleg]
    rw [System.standing_release, hst]
    exact ⟨st, congrArg some hsame, hsaved⟩
  | stopped =>
    simp only [Drain.step, hleg]
    exact ⟨st, hst, hsaved⟩

/-- What a move makes of an execution that still has its job: the job is saved, or it is lost, or
the execution still has it. -/
theorem ready_own (worker : Uuid) (env : JobEnvelope) (h : d.Inv job) {stage : Stage} (hleg : d.leg = .unwinding stage) {st : Standing}
    (hst : d.system.standing worker job.id = some st) (hready : st.Ready worker job stage)
    (now : Time) (locked : List ℕ) (trace : Option String) (crawl : Crawl) :
    let st' := st.move worker job crawl stage
    let leg := (d.step worker env job (.own now locked trace crawl)).leg
    (st'.Saved job ∧ ∀ rest, stage.handsBack st.needsBrowser (crawl :: rest) = true) ∨
    (st'.Lost job leg ∧ ∀ rest, stage.handsBack st.needsBrowser (crawl :: rest) = false) ∨
    ∃ next, leg = .unwinding next ∧ st'.Ready worker job next ∧ ∀ rest,
      stage.handsBack st.needsBrowser (crawl :: rest) = next.handsBack st'.needsBrowser rest := by
  have hunwinds := h.unwinds stage hleg
  simp only [Drain.step, hleg]
  cases stage with
  | crawling j =>
    obtain rfl : j = job := hunwinds
    have hholds : st.Holds worker j := hready
    cases crawl with
    | load => exact Or.inr (Or.inr ⟨.crawling j, rfl, hholds, fun rest => by
        simp [Stage.handsBack, Standing.move]⟩)
    | transient =>
      refine Or.inr (Or.inr ?_)
      by_cases hspent : j.maxAttempts ≤ j.attempt
      · simp only [Task.move, if_pos hspent]
        exact ⟨.crawling j, rfl, hholds, fun rest => by
          simp [Stage.handsBack, Standing.move, hspent]⟩
      · simp only [Task.move, if_neg hspent]
        exact ⟨.retrying j, rfl, hholds, fun rest => by
          simp [Stage.handsBack, Standing.move, hspent]⟩
    | browserUnavailable error =>
      have hany := any_escalatable h.stores hst
      rw [hholds.owned, Bool.true_and] at hany
      cases hbrowser : st.needsBrowser with
      | false =>
        exact Or.inl ⟨hholds.saved_escalate hbrowser, fun rest => by simp [Stage.handsBack]⟩
      | true =>
        rw [hbrowser] at hany
        have hsame : st.move worker j (.browserUnavailable error) (.crawling j) = st := by
          simp [Standing.move, Standing.escalate, hbrowser]
        refine Or.inr (Or.inr ⟨.finishing j .failed false none (some error), ?_, ?_, fun rest => ?_⟩)
        · simp [Task.move, hany, Leg.of]
        · rw [hsame]
          exact hholds
        · rw [hsame, hbrowser]
          simp [Stage.handsBack]
    | finish state summary error =>
      refine Or.inr (Or.inr ⟨_, rfl, hholds, fun rest => ?_⟩)
      simp only [Stage.handsBack, Standing.move]
      exact Stage.handsBack_finishing ..
    | interrupted =>
      exact Or.inr (Or.inl ⟨.passing hholds.state_ne_queued trivial, fun rest => by
        simp [Stage.handsBack]⟩)
  | retrying j =>
    obtain rfl : j = job := hunwinds
    have hholds : st.Holds worker j := hready
    have hany := any_releasable h.stores hst
    rw [hholds.owned] at hany
    cases crawl with
    | interrupted => exact Or.inr (Or.inr ⟨.crawling j, rfl, hholds, fun rest => by
        simp [Stage.handsBack, Standing.move]⟩)
    | load | transient | browserUnavailable error | finish state summary error =>
      refine Or.inr (Or.inr ⟨.retried j, by simp [Task.move, hany, Leg.of], ?_, fun rest => ?_⟩)
      · simp only [Standing.move, hholds.release_eq]
        exact ⟨rfl, rfl, hholds.current, hholds.unacked⟩
      · simp only [Standing.move, hholds.release_eq]
        simp [Stage.handsBack, Standing.drop]
  | retried j =>
    obtain ⟨hstate, htoken, hcurrent, hunacked⟩ := hready
    cases crawl with
    | interrupted =>
      refine Or.inr (Or.inl ⟨.acknowledging ?_ hcurrent trivial, fun rest => by
        simp [Stage.handsBack]⟩)
      simp [Standing.move, htoken]
    | load | transient | browserUnavailable error | finish state summary error =>
      refine Or.inl ⟨⟨hstate, hunacked, ?_, rfl⟩, fun rest => by simp [Stage.handsBack]⟩
      simp [Standing.move, Standing.forget, htoken]
  | finishing j state pause summary error =>
    obtain rfl : j = job := hunwinds
    have hholds : st.Holds worker j := hready
    cases crawl with
    | interrupted => exact Or.inr (Or.inr ⟨.crawling j, rfl, hholds, fun rest => by
        simp [Stage.handsBack, Standing.move]⟩)
    | load | transient | browserUnavailable _ | finish _ _ _ =>
      exact Or.inr (Or.inl ⟨.passing (hholds.finish_state_ne_queued state pause) trivial,
        fun rest => by simp [Stage.handsBack]⟩)
  | _ => exact hready.elim

/-- `shutdown` hands a held job back. -/
theorem holds_own {st : Standing} (hst : d.system.standing worker job.id = some st)
    (hback : ((d.leg = .gathered ∨ d.leg = .releasing) ∧ st.Holds worker job) ∨
      (d.leg = .stopped ∧ st.state = .queued ∧ st.acked = false))
    (now : Time) (locked : List ℕ) (trace : Option String) (crawl : Crawl) :
    let d' := d.step worker env job (.own now locked trace crawl)
    ∃ st', d'.system.standing worker job.id = some st' ∧
      (((d'.leg = .gathered ∨ d'.leg = .releasing) ∧ st'.Holds worker job) ∨
        (d'.leg = .stopped ∧ st'.state = .queued ∧ st'.acked = false)) := by
  dsimp only
  rcases hback with ⟨hleg | hleg, hholds⟩ | ⟨hleg, hqueued⟩
  · have hheld : (d.system.deliveries (worker, job.id)).isSome = true := by
      have hcurrent := hholds.current
      rw [Standing.current, standing_delivery hst] at hcurrent
      cases hdelivery : d.system.deliveries (worker, job.id) with
      | none => simp [hdelivery] at hcurrent
      | some e => rfl
    simp only [Drain.step, hleg, hheld, if_true]
    exact ⟨st, (System.standing_releaseAll ..).trans hst, Or.inl ⟨Or.inr trivial, hholds⟩⟩
  · simp only [Drain.step, hleg]
    rw [System.standing_release, hst]
    refine ⟨_, rfl, Or.inr ⟨trivial, ?_⟩⟩
    rw [hholds.release_eq]
    exact ⟨rfl, hholds.unacked⟩
  · simp only [Drain.step, hleg]
    exact ⟨st, hst, Or.inr ⟨trivial, hqueued⟩⟩

/-- What the moves of the execution and `shutdown` keep is kept by the whole drain, if everything
else leaves the job alone. -/
theorem after_keeps {P : Standing → Leg → Prop}
    (hown : ∀ d : Drain, d.Inv job → ∀ st, d.system.standing worker job.id = some st →
      P st d.leg → ∀ now locked trace crawl,
        ∃ st', (d.step worker env job (.own now locked trace crawl)).system.standing worker job.id =
          some st' ∧ P st' (d.step worker env job (.own now locked trace crawl)).leg)
    (h : d.Inv job) {st : Standing} (hst : d.system.standing worker job.id = some st)
    (hP : P st d.leg) {steps : List DrainStep}
    (hother : Trace.Along (Drain.step worker env job) (LeavesAlone worker job) d steps) :
    ∃ st', (d.after worker env job steps).system.standing worker job.id = some st' ∧
      P st' (d.after worker env job steps).leg := by
  have hkeep := Trace.exec_invariant_of_along (Drain.step worker env job)
    (C := LeavesAlone worker job)
    (I := fun d => d.Inv job ∧ ∃ st, d.system.standing worker job.id = some st ∧ P st d.leg)
    (fun d a hleaves hI => ?_) ⟨h, st, hst, hP⟩ hother
  · exact hkeep.2
  · obtain ⟨hinv, st, hst, hP⟩ := hI
    refine ⟨hinv.step worker env a, ?_⟩
    cases a with
    | other a => exact ⟨st, hleaves.trans hst, hP⟩
    | own now locked trace crawl => exact hown d hinv st hst hP now locked trace crawl

theorem handedBack_of_saved (h : d.Inv job) {st : Standing}
    (hst : d.system.standing worker job.id = some st) (hsaved : st.Saved job)
    {steps : List DrainStep}
    (hother : Trace.Along (Drain.step worker env job) (LeavesAlone worker job) d steps) :
    (d.after worker env job steps).system.HandedBack worker job.id := by
  obtain ⟨st', hst', hsaved'⟩ := after_keeps (P := fun st _ => st.Saved job)
    (fun d hinv st hst hsaved => saved_own hinv hst hsaved) h hst hsaved hother
  exact ⟨st', hst', hsaved'.state, hsaved'.unacked⟩

theorem not_handedBack_of_lost (h : d.Inv job) {st : Standing}
    (hst : d.system.standing worker job.id = some st) (hlost : st.Lost job d.leg)
    {steps : List DrainStep}
    (hother : Trace.Along (Drain.step worker env job) (LeavesAlone worker job) d steps)
    (hend : (d.after worker env job steps).leg = .stopped) :
    ¬ (d.after worker env job steps).system.HandedBack worker job.id := by
  obtain ⟨st', hst', hlost'⟩ := after_keeps (P := fun st leg => st.Lost job leg)
    (fun d hinv st hst hlost => lost_own hinv hst hlost) h hst hlost hother
  rintro ⟨st'', hst'', hqueued, hunacked⟩
  obtain rfl := Option.some.inj (hst'.symm.trans hst'')
  rw [hend] at hlost'
  cases hlost' with
  | ended token state =>
    rcases state with hstate | hacked
    · exact hstate hqueued
    · rw [hunacked] at hacked
      exact absurd hacked (by simp)
  | acknowledging token current hack => exact hack
  | passing state pass => exact state hqueued

/-- An execution that has ended with its job in hand leaves it to `shutdown`. -/
theorem handedBack_of_holds (h : d.Inv job) (hleg : d.leg = .gathered) {st : Standing}
    (hst : d.system.standing worker job.id = some st) (hholds : st.Holds worker job)
    {steps : List DrainStep}
    (hother : Trace.Along (Drain.step worker env job) (LeavesAlone worker job) d steps)
    (hend : (d.after worker env job steps).leg = .stopped) :
    (d.after worker env job steps).system.HandedBack worker job.id := by
  obtain ⟨st', hst', hback⟩ := after_keeps
    (P := fun st leg => ((leg = .gathered ∨ leg = .releasing) ∧ st.Holds worker job) ∨
      (leg = .stopped ∧ st.state = .queued ∧ st.acked = false))
    (fun d hinv st hst hback => holds_own hst hback) h hst (Or.inl ⟨Or.inl hleg, hholds⟩) hother
  rw [hend] at hback
  rcases hback with ⟨hleg | hleg, -⟩ | ⟨-, hqueued⟩
  · exact absurd hleg (by simp)
  · exact absurd hleg (by simp)
  · exact ⟨st', hst', hqueued⟩

/-- An execution that still has its job hands it back iff its choices do. -/
theorem handedBack_iff_of_ready {steps : List DrainStep} (h : d.Inv job) {stage : Stage}
    (hleg : d.leg = .unwinding stage) {st : Standing}
    (hst : d.system.standing worker job.id = some st) (hready : st.Ready worker job stage)
    (hother : Trace.Along (Drain.step worker env job) (LeavesAlone worker job) d steps)
    (hend : (d.after worker env job steps).leg = .stopped) :
    (d.after worker env job steps).system.HandedBack worker job.id ↔
      stage.handsBack st.needsBrowser (steps.filterMap DrainStep.crawl?) = true := by
  induction steps generalizing d stage st with
  | nil =>
    rw [show d.leg = .stopped from hend] at hleg
    exact absurd hleg (by simp)
  | cons a rest ih =>
    cases a with
    | other a =>
      exact ih (h.step worker env (.other a)) hleg (hother.1.trans hst) hready hother.2 hend
    | own now locked trace crawl =>
      have hstep := standing_own worker env h hleg hst now locked trace crawl
      have hinv := h.step worker env (.own now locked trace crawl)
      change _ ↔ stage.handsBack st.needsBrowser (crawl :: rest.filterMap DrainStep.crawl?) = true
      rcases ready_own worker env h hleg hst hready now locked trace crawl with
        ⟨hsaved, hchoices⟩ | ⟨hlost, hchoices⟩ | ⟨next, hnext, hready', hchoices⟩
      · rw [hchoices]
        exact iff_of_true (handedBack_of_saved hinv hstep hsaved hother.2) rfl
      · rw [hchoices]
        exact iff_of_false (not_handedBack_of_lost hinv hstep hlost hother.2 hend) (by simp)
      · rw [hchoices]
        exact ih hinv hnext hstep hready' hother.2 hend

end Drain

namespace System

theorem needsBrowser_eq {s : System} {worker jobId : Uuid} {st : Standing}
    (hst : s.standing worker jobId = some st) : s.needsBrowser jobId = st.needsBrowser := by
  obtain ⟨row, hrow, rfl⟩ := Option.map_eq_some_iff.mp hst
  rw [needsBrowser, hrow]
  rfl

theorem cancelled_cases {at_ : Await} {stage next : Stage} {job : ClaimedJob}
    (hjob : stage.job = some job) (h : stage.cancelled at_ = some next) :
    next = .crawling job ∨ (∃ pause summary, next = .finishing job .cancelled pause summary none) ∨
      next = .leaving job := by
  cases stage with
  | crawling j =>
    obtain rfl : j = job := Option.some.inj hjob
    cases at_ with
    | announcing => exact absurd h (by simp [Stage.cancelled])
    | collecting records pause => exact Or.inr (Or.inl ⟨_, _, (Option.some.inj h).symm⟩)
    | suppressed => exact Or.inl (Option.some.inj h).symm
    | elsewhere => exact Or.inr (Or.inr (Option.some.inj h).symm)
  | retrying j | retried j | finishing j _ _ _ _ =>
    obtain rfl : j = job := Option.some.inj hjob
    exact Or.inr (Or.inr (Option.some.inj h).symm)
  | _ => exact absurd h (by simp [Stage.cancelled])

/-- **Handing back.**  An execution is cancelled while its worker still holds its job and the job's
delivery, and the drain of it runs to its end.  The job is then back in the queue with its delivery
unacknowledged iff the cancellation has left `execute`, before its `try` or in its `finally`, or has
been suppressed and the execution, which goes on, then hands the job back itself. -/
theorem drain_handedBack_iff {actions : List Action} {i : ℕ} {task : Task} {job : ClaimedJob}
    (_htask : (System.after actions).tasks[i]? = some task) (hjob : task.stage.job = some job)
    (hholds : (System.after actions).Holds task.worker job) (at_ : Await) {steps : List DrainStep}
    (hother : Trace.Along (Drain.step task.worker task.envelope job)
      (Drain.LeavesAlone task.worker job) ((System.after actions).drain i task.stage at_) steps)
    (hend : (((System.after actions).drain i task.stage at_).after task.worker task.envelope job
      steps).leg = .stopped) :
    (((System.after actions).drain i task.stage at_).after task.worker task.envelope job
        steps).system.HandedBack task.worker job.id ↔
      (task.stage.cancelled at_).all (fun stage =>
        stage.handsBack ((System.after actions).needsBrowser job.id)
          (steps.filterMap DrainStep.crawl?)) = true := by
  have hstores := after_storesInv actions
  revert _htask hholds hother hend
  generalize System.after actions = s at hstores
  intro _ hholds hother hend
  obtain ⟨st, hst, hholds⟩ := hholds
  rw [needsBrowser_eq hst]
  have hinit : (s.drain i task.stage at_).system.StoresInv := hstores.step (.crash i)
  have hst₀ : (s.drain i task.stage at_).system.standing task.worker job.id = some st := hst
  cases hcancel : task.stage.cancelled at_ with
  | none =>
    have hleg : (s.drain i task.stage at_).leg = .gathered := by
      rw [drain, hcancel]
      rfl
    have hinv : (s.drain i task.stage at_).Inv job := ⟨hinit, by simp [hleg]⟩
    exact iff_of_true (Drain.handedBack_of_holds hinv hleg hst₀ hholds hother hend) rfl
  | some next =>
    have hleg : (s.drain i task.stage at_).leg = .unwinding next := by
      rw [drain, hcancel]
      rfl
    rw [Option.all_some]
    rcases cancelled_cases hjob hcancel with rfl | ⟨pause, summary, rfl⟩ | rfl
    · have hinv : (s.drain i task.stage at_).Inv job := ⟨hinit, by simp [hleg, Stage.unwinds]⟩
      exact Drain.handedBack_iff_of_ready hinv hleg hst₀ hholds hother hend
    · have hinv : (s.drain i task.stage at_).Inv job := ⟨hinit, by simp [hleg, Stage.unwinds]⟩
      exact Drain.handedBack_iff_of_ready hinv hleg hst₀ hholds hother hend
    · have hinv : (s.drain i task.stage at_).Inv job := ⟨hinit, by simp [hleg, Stage.unwinds]⟩
      have hlost : st.Lost job (s.drain i task.stage at_).leg := by
        rw [hleg]
        exact .passing hholds.state_ne_queued trivial
      refine iff_of_false (Drain.not_handedBack_of_lost hinv hst₀ hlost hother hend) ?_
      cases steps.filterMap DrainStep.crawl? <;> simp [Stage.handsBack]

/-- What the worker of the running job has claimed. -/
def runningClaim : ClaimedJob where
  id := 10
  runId := 1
  sourceId := "shop"
  host := "shop.example"
  attempt := 1
  maxAttempts := 3
  requires := []
  requiresAny := []
  deliveryGeneration := 1
  executionToken := 101
  selectedBrowserBackend := none

/-- The drain of the running job, cancelled in a given `await`, with a first choice of its own. -/
def drained (at_ : Await) (crawl : Crawl) : Drain :=
  ((System.after runningJob).drain 0 (.crawling runningClaim) at_).after 1
    ⟨10, 1, "shop", 1, .plain, 100, 0⟩ runningClaim
    (.own (secs 5) [] none crawl :: List.replicate 7 (.own (secs 6) [] none .load))

/-- The cancellation is suppressed, the host has refused the source, and the job is handed back. -/
theorem suppressed_handedBack : (drained .suppressed .transient).system.HandedBack 1 10 := by
  have htask : (System.after runningJob).tasks[0]? =
      some ⟨1, ⟨10, 1, "shop", 1, .plain, 100, 0⟩, .crawling runningClaim⟩ := rfl
  have hholds : (System.after runningJob).Holds 1 runningClaim :=
    ⟨⟨.running, some 1, some 101, 1, false, some ⟨10, 1, "shop", 1, .plain, 100, 0⟩, false⟩,
      by decide, ⟨by decide, rfl, rfl, by decide, rfl⟩⟩
  exact (drain_handedBack_iff htask rfl hholds .suppressed (by decide) rfl).mpr (by decide)

/-- The worker of a running job is told to stop.  If it waits for the source, the job ends as
`cancelled`; if it waits for anything else, for instance in the connector path, the job stays
`running` and its delivery is acknowledged. -/
theorem drained_not_handedBack :
    (System.after runningJob).Holds 1 runningClaim ∧
      (∀ row ∈ (System.after runningJob).db.job? 10, row.cancelRequested = false) ∧
      (drained (.collecting 7 false) .load).leg = .stopped ∧
      ((drained (.collecting 7 false) .load).system.standing 1 10).map Standing.state = some .cancelled ∧
      (drained .elsewhere .load).leg = .stopped ∧
      ((drained .elsewhere .load).system.standing 1 10).map
        (fun st => (st.state, st.acked)) = some (.running, true) := by
  refine ⟨⟨⟨.running, some 1, some 101, 1, false, some ⟨10, 1, "shop", 1, .plain, 100, 0⟩, false⟩,
    by decide, ⟨by decide, rfl, rfl, by decide, rfl⟩⟩, ?_, ?_, ?_, ?_, ?_⟩
  · decide
  · rfl
  · decide
  · rfl
  · decide

end System

end CommerceCollector
