import CommerceCollector.Proxy.Rotations

/-!
# The calls of `finalize_retirements`

`finalize_retirements` of `proxy_control.py`, call by call: for each retirement that it has selected
it writes `finalizing`, disables and deletes the old sub-user, sets the limit of the replacement,
and commits `completed`; a refused call commits `failed` and sets the kill switch.  The provider
refuses to update a sub-user that it has deleted.  A process may stop anywhere.  All other requests
are those of the control plane (`ProxyProfiles.run`), and so are the statements of a round: every
run is one of the control plane (`Finalization.refines`).

`completed` and `blamed` remember which retirements were ever completed, and on account of which
ones the kill switch was set.
-/

namespace CommerceCollector

open Relational Transaction Tasks

/-- The tables of the control plane, and the sub-users that rounds have deleted. -/
structure Finalization where
  db : ProxyProfiles
  deleted : List String := []
  completed : List Uuid := []
  blamed : List Uuid := []

/-- A suspended request: one of the control plane, or a round between two calls or statements on a
row. -/
inductive FinalizerTask
  | request (t : ProfileTask)
  | deleting (provider : String) (row : ProfileRetirement) (rest : List ProfileRetirement)
  | limiting (provider : String) (row : ProfileRetirement) (rest : List ProfileRetirement)
  | completing (provider : String) (row : ProfileRetirement) (rest : List ProfileRetirement)
  | failing (provider : String) (row : ProfileRetirement) (rest : List ProfileRetirement)
    (code : String)
  | killing (provider : String) (row : ProfileRetirement) (rest : List ProfileRetirement)
  deriving DecidableEq, Repr

namespace Finalization

/-- `update_subuser`: the provider refuses it for a sub-user that it has deleted.  An exception that
is no error of the provider ends the round. -/
def updateSubuser (s : Finalization) (resource : String) (provider : String)
    (row : ProfileRetirement) (rest : List ProfileRetirement) (next : FinalizerTask) :
    ProfileAnswer → Option FinalizerTask
  | .ok _ _ =>
    if s.deleted.contains resource then some (.failing provider row rest "provider_not_found")
    else some next
  | .providerError code _ => some (.failing provider row rest code)
  | .localError _ => none

/-- What a request does up to its next call or commit. -/
def proceed (s : Finalization) (now : Time) (t : FinalizerTask) (answer : ProfileAnswer) :
    Finalization × Option FinalizerTask :=
  match t with
  | .request (.finalizing provider row rest) =>
    (s, s.updateSubuser row.oldProviderResourceId provider row rest (.deleting provider row rest)
      answer)
  | .request t =>
    ({ s with db := (s.db.proceed now t answer).1 }, (s.db.proceed now t answer).2.map .request)
  | .deleting provider row rest =>
    match answer with
    | .ok _ _ =>
      ({ s with deleted := row.oldProviderResourceId :: s.deleted },
        some (.limiting provider row rest))
    | .providerError code _ => (s, some (.failing provider row rest code))
    | .localError _ => (s, none)
  | .limiting provider row rest =>
    (s, s.updateSubuser row.replacementResourceId provider row rest (.completing provider row rest)
      answer)
  | .completing provider row rest =>
    ({ s with
        db := (s.db.updateRetirement row.id fun x =>
          { x with state := .completed, errorCode := none }).updateProfile row.profileId fun p =>
            { p with providerTrafficLimitBytes := some row.targetLimitBytes, updatedAt := now }
        completed := row.id :: s.completed },
      some (.request (.finalizingRetirements provider rest)))
  | .failing provider row rest code =>
    ({ s with
        db := s.db.updateRetirement row.id fun x =>
          { x with state := .failed, errorCode := some code } },
      some (.killing provider row rest))
  | .killing provider row rest =>
    ({ s with db := s.db.activateKillSwitch provider, blamed := row.id :: s.blamed },
      some (.request (.finalizingRetirements provider rest)))

/-- A request goes on, or its process stops. -/
def run (s : Finalization) (t : FinalizerTask) : ProfileReply → Finalization × Option FinalizerTask
  | .lost => (s, none)
  | .answer now answer => s.proceed now t answer

end Finalization

/-- The requests to the control plane, with the rounds of `finalize_retirements` call by call. -/
def finalizerProgram : Program Finalization FinalizerTask ProfileRequest ProfileReply where
  start := fun r => .request (.requested r)
  run := Finalization.run

/-! ## The control plane below -/

/-- The request of the control plane that a suspended round is. -/
def FinalizerTask.toProfile : FinalizerTask → ProfileTask
  | .request t => t
  | .deleting provider row rest => .finalizing provider row rest
  | .limiting provider row rest => .finalizing provider row rest
  | .completing provider row rest => .finalizing provider row rest
  | .failing provider row rest _ => .finalizing provider row rest
  | .killing provider _ rest => .finalizeFailed provider rest

namespace Finalization

/-- A refused or answered update of a sub-user goes on with the same row, or ends the round. -/
theorem updateSubuser_cases (s : Finalization) (resource provider : String)
    (row : ProfileRetirement) (rest : List ProfileRetirement) (next : FinalizerTask) (answer : ProfileAnswer) :
    (∃ code, s.updateSubuser resource provider row rest next answer =
      some (.failing provider row rest code)) ∨
    s.updateSubuser resource provider row rest next answer = some next ∨
    s.updateSubuser resource provider row rest next answer = none := by
  cases answer with
  | ok _ _ =>
    unfold updateSubuser
    dsimp only
    split
    · exact .inl ⟨_, rfl⟩
    · exact .inr (.inl rfl)
  | providerError code _ => exact .inl ⟨code, rfl⟩
  | localError _ => exact .inr (.inr rfl)

/-- A step of the control plane, or a call between two of them. -/
def Refines (s : Finalization) (t : FinalizerTask) (r : Finalization × Option FinalizerTask) :
    Prop :=
  (r.1.db = s.db ∧ r.2.map FinalizerTask.toProfile = some t.toProfile) ∨
    ∃ reply, s.db.run t.toProfile reply = (r.1.db, r.2.map FinalizerTask.toProfile)

theorem refines_end (s : Finalization) (t : FinalizerTask) : s.Refines t (s, none) :=
  .inr ⟨.lost, rfl⟩

theorem refines_updateSubuser (s : Finalization) {t next : FinalizerTask} {provider : String}
    {row : ProfileRetirement} {rest : List ProfileRetirement}
    (ht : t.toProfile = .finalizing provider row rest)
    (hnext : next.toProfile = .finalizing provider row rest) (resource : String)
    (answer : ProfileAnswer) :
    s.Refines t (s, s.updateSubuser resource provider row rest next answer) := by
  rcases s.updateSubuser_cases resource provider row rest next answer with ⟨code, h⟩ | h | h
  · exact .inl ⟨rfl, by rw [h, ht]; rfl⟩
  · exact .inl ⟨rfl, by rw [h, Option.map_some, hnext, ht]⟩
  · rw [h]
    exact s.refines_end t

theorem refines_request (s : Finalization) (t : ProfileTask) (now : Time) (answer : ProfileAnswer) :
    s.Refines (.request t) ({ s with db := (s.db.proceed now t answer).1 },
      (s.db.proceed now t answer).2.map .request) := by
  refine .inr ⟨.answer now answer, ?_⟩
  have hback :
      ((s.db.proceed now t answer).2.map FinalizerTask.request).map FinalizerTask.toProfile =
        (s.db.proceed now t answer).2 := by
    rw [Option.map_map]
    exact Option.map_id_apply
  rw [hback]
  rfl

/-- **A step of a request** is a step of the control plane, or a call between two of them. -/
theorem run_refines (s : Finalization) (t : FinalizerTask) (reply : ProfileReply) :
    s.Refines t (s.run t reply) := by
  cases reply with
  | lost => exact s.refines_end t
  | answer now answer =>
    cases t with
    | request t =>
      cases t with
      | finalizing provider row rest => exact s.refines_updateSubuser rfl rfl _ answer
      | _ => exact s.refines_request _ now answer
    | deleting provider row rest =>
      cases answer with
      | ok _ _ => exact .inl ⟨rfl, rfl⟩
      | providerError _ _ => exact .inl ⟨rfl, rfl⟩
      | localError _ => exact s.refines_end _
    | limiting provider row rest => exact s.refines_updateSubuser rfl rfl _ answer
    | completing provider row rest =>
      exact .inr ⟨.answer now (.ok ⟨"", "", none, true⟩ 0), rfl⟩
    | failing provider row rest code =>
      exact .inr ⟨.answer now (.providerError code false), rfl⟩
    | killing provider row rest => exact .inr ⟨.answer now answer, rfl⟩

/-- The pool of the control plane. -/
def toPool (p : Pool Finalization FinalizerTask) : Pool ProxyProfiles ProfileTask :=
  ⟨p.shared.db, p.tasks.map FinalizerTask.toProfile⟩

/-- A turn is a turn of the control plane, or a call between two of them. -/
theorem step_refines (p : Pool Finalization FinalizerTask)
    (turn : Turn ProfileRequest ProfileReply) :
    toPool (finalizerProgram.step p turn) = toPool p ∨
      ∃ turn', toPool (finalizerProgram.step p turn) = profileProgram.step (toPool p) turn' := by
  cases turn with
  | spawn request =>
    refine .inr ⟨.spawn request, ?_⟩
    simp [toPool, Program.step, finalizerProgram, profileProgram, FinalizerTask.toProfile]
  | resume i answer =>
    cases hi : p.tasks[i]? with
    | none =>
      left
      simp [toPool, Program.step, hi]
    | some t =>
      have hi' : (toPool p).tasks[i]? = some t.toProfile := by simp [toPool, hi]
      rcases run_refines p.shared t answer with ⟨hdb, htask⟩ | ⟨reply, hrun⟩
      · left
        have hsplit := Program.split_at hi
        have hnext : (finalizerProgram.run p.shared t answer).2.toList.map FinalizerTask.toProfile =
            [t.toProfile] := by
          rw [← Option.toList_map]
          exact congrArg Option.toList htask
        simp only [toPool, Program.step, hi, List.map_append, hnext]
        refine congrArg₂ Pool.mk hdb ?_
        conv_rhs => rw [hsplit]
        simp
      · refine .inr ⟨.resume i reply, ?_⟩
        have hdb : (profileProgram.run (toPool p).shared t.toProfile reply).1 =
            (finalizerProgram.run p.shared t answer).1.db := congrArg Prod.fst hrun
        have htask : (profileProgram.run (toPool p).shared t.toProfile reply).2 =
            (finalizerProgram.run p.shared t answer).2.map FinalizerTask.toProfile :=
          congrArg Prod.snd hrun
        simp only [Program.step, hi', hdb, htask]
        simp [toPool, hi, List.map_take, List.map_drop, Option.toList_map]

/-- **Every run is a run of the control plane** with calls between its steps. -/
theorem refines (p : Pool Finalization FinalizerTask)
    (turns : List (Turn ProfileRequest ProfileReply)) :
    ∃ turns', toPool (finalizerProgram.after p turns) = profileProgram.after (toPool p) turns' := by
  induction turns generalizing p with
  | nil => exact ⟨[], rfl⟩
  | cons turn turns ih =>
    obtain ⟨turns', hafter⟩ := ih (finalizerProgram.step p turn)
    rcases step_refines p turn with hsame | ⟨turn', hstep⟩
    · exact ⟨turns', by rw [← hsame]; exact hafter⟩
    · refine ⟨turn' :: turns', ?_⟩
      rw [hstep] at hafter
      exact hafter

end Finalization

end CommerceCollector
