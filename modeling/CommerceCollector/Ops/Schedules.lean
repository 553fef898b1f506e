import CommerceCollector.Foundation.Timetable
import CommerceCollector.Control.RunClosing
import CommerceCollector.Ops.Notifications

/-!
# Firing schedules

`_fire` of `ops/schedule.py`: a schedule that is due is materialised into one run, also after an
outage that has left several occurrences owed.  The occurrences of a cron expression in its timezone
are a timetable.

`_missed_between` enumerates the occurrences behind the one that is due, so it finds one fewer than
are owed. The newest one is fired and counted as the catalogue says only if nothing but the due
occurrence is owed.
-/

namespace CommerceCollector

theorem toString_nat_injective : Function.Injective (toString : ℕ → String) := fun n m h => by
  have hdigits : Nat.toDigits 10 n = Nat.toDigits 10 m := by
    have hlist := congrArg String.toList h
    simpa using hlist
  have hvalue := congrArg (Nat.ofDigitChars 10 · 0) hdigits
  simpa only [Nat.ofDigitChars_ten_toDigits] using hvalue

/-- A row of `catalogue.schedules`, with what `croniter` makes of its expression and timezone. -/
structure Schedule where
  id : String
  cron : Timetable
  /-- `previous_fire`. -/
  previousFire : Time → Time
  lastFiredAt : Option Time
  nextFireAt : Option Time

/-- The payload of `schedule.fired`. -/
structure ScheduleFired where
  scheduleId : String
  runId : Uuid
  fireAt : Time
  jobs : ℕ
  deriving DecidableEq, Repr

/-- The tables that a schedule writes, and the calls of `events.notify`. -/
structure Planner where
  db : Db
  notifications : NotificationLog
  schedules : List Schedule
  fired : List ScheduleFired := []
  notices : List NotifyArgs := []

/-- `_missed_between`. -/
def missedBetween (cron : Timetable) (start last : Time) : List Time :=
  match cron.following 500 last start with
  | [] => [start]
  | found => found

/-- The arguments of `events.notify` for skipped occurrences; `iso` is `isoformat`. -/
def scheduleMissed (iso : Time → String) (scheduleId : String) (skipped : ℕ) (fireAt : Time) :
    NotifyArgs where
  kind := "schedule.missed"
  title := scheduleId ++ (" missed " ++ (toString skipped ++ " occurrence(s)"))
  body := some ("The most recent missed occurrence was materialised; the earlier " ++
    (toString skipped ++ " were not, to avoid a catch-up herd."))
  severity := .critical
  dedupKey := some ("schedule.missed:" ++ scheduleId ++ ":" ++ iso fireAt)

/-- The occurrence that is fired, and the notification that is raised. -/
def catchUp (iso : Time → String) (schedule : Schedule) (now : Time) : Time × Option NotifyArgs :=
  let fireAt := schedule.nextFireAt.getD (schedule.previousFire now)
  let missed := missedBetween schedule.cron fireAt now
  if 1 < missed.length then
    let skipped := missed.dropLast
    let fireAt := missed.getLastD fireAt
    (fireAt, some (scheduleMissed iso schedule.id skipped.length fireAt))
  else (fireAt, none)

namespace Planner

/-- `events.notify`, if it is called. -/
def notify (s : Planner) (now : Time) : Option NotifyArgs → Planner
  | none => s
  | some args =>
    { s with notifications := s.notifications.notify now args, notices := s.notices ++ [args] }

/-- `update catalogue.schedules`. -/
def advance (s : Planner) (id : String) (fired next : Option Time) : Planner :=
  { s with schedules := s.schedules.map fun row =>
      if row.id = id then { row with lastFiredAt := fired, nextFireAt := next } else row }

/-- `_fire`, with the id that the run draws and the sources that the schedule covers. -/
def fire (s : Planner) (iso : Time → String) (now : Time) (runId : Uuid) (selected : List NewJob)
    (schedule : Schedule) : Planner × Option ScheduleFired :=
  let (fireAt, notice) := catchUp iso schedule now
  let s := s.notify now notice
  let upcoming := schedule.cron.next now
  match s.db.createRun runId (some (schedule.id, fireAt)) with
  | none => (s.advance schedule.id schedule.lastFiredAt (some upcoming), none)
  | some created =>
    let s := s.advance schedule.id (some fireAt) (some upcoming)
    let jobs := created.createJobs now runId selected
    let fired : ScheduleFired :=
      { scheduleId := schedule.id, runId, fireAt, jobs := (created.plannedJobs selected).length }
    ({ s with db := jobs, fired := s.fired ++ [fired] }, some fired)

/-! ## Catching up -/

/-- **What catching up owes**: a run of the newest occurrence that is due, no run of another one,
and a notification that counts all earlier ones exactly if there are any. -/
def CatchesUp (iso : Time → String) (s : Planner) (now : Time) (runId : Uuid)
    (selected : List NewJob) (schedule : Schedule) (due : Time) : Prop :=
  ∃ latest, IsGreatest {o | schedule.cron.occurs o ∧ o ≤ now} latest ∧
    (∃ r ∈ (s.fire iso now runId selected schedule).1.db.runs,
      r.occurrence = some (schedule.id, latest)) ∧
    (∀ r ∈ (s.fire iso now runId selected schedule).1.db.runs,
      r.occurrence = some (schedule.id, latest) ∨ r.occurrence ∈ s.db.runs.map Run.occurrence) ∧
    (s.fire iso now runId selected schedule).1.notices = s.notices ++
      (if 1 < (schedule.cron.within due now).ncard then
        [scheduleMissed iso schedule.id ((schedule.cron.within due now).ncard - 1) latest]
      else [])

variable {iso : Time → String} {s : Planner} {now due : Time} {runId : Uuid}
variable {selected : List NewJob} {schedule : Schedule}

/-! ## What is fired -/

theorem createJobs_occurrences (db : Db) (now : Time) (runId : Uuid) (selected : List NewJob) :
    (db.createJobs now runId selected).runs.map Run.occurrence = db.runs.map Run.occurrence := by
  have hfold := (Db.foldl_createJob_control now runId 100 3 (db.plannedJobs selected) db).1
  unfold Db.createJobs
  dsimp only
  split
  · unfold Db.closeRunIfDone
    split
    · unfold Db.writeClose Relational.update
      rw [Db.emit_runs, Db.emit_runs, List.map_map, hfold]
      refine List.map_congr_left fun r _ => ?_
      rw [Function.comp_apply]
      split <;> rfl
    · rw [Db.emit_runs, hfold]
  · rw [Db.emit_runs, hfold]

variable (iso s now runId selected schedule) in
/-- **What a schedule writes**: the run of the occurrence that is fired, unless it exists, and the
notification that is raised. -/
theorem fire_spec :
    ((s.fire iso now runId selected schedule).1.db.runs.map Run.occurrence =
        s.db.runs.map Run.occurrence ++ [some (schedule.id, (catchUp iso schedule now).1)] ∨
      (some (schedule.id, (catchUp iso schedule now).1) ∈ s.db.runs.map Run.occurrence ∧
        (s.fire iso now runId selected schedule).1.db.runs = s.db.runs)) ∧
    (s.fire iso now runId selected schedule).1.notices =
      s.notices ++ (catchUp iso schedule now).2.toList := by
  have hnotices : (s.notify now (catchUp iso schedule now).2).notices =
      s.notices ++ (catchUp iso schedule now).2.toList := by
    cases (catchUp iso schedule now).2 with
    | none => exact (List.append_nil _).symm
    | some args => rfl
  have hdb : (s.notify now (catchUp iso schedule now).2).db = s.db := by
    cases (catchUp iso schedule now).2 with
    | none => rfl
    | some args => rfl
  unfold fire
  dsimp only
  cases hcreated : (s.notify now (catchUp iso schedule now).2).db.createRun runId
      (some (schedule.id, (catchUp iso schedule now).1)) with
  | none =>
    refine ⟨.inr ⟨?_, congrArg Db.runs hdb⟩, hnotices⟩
    rw [hdb] at hcreated
    unfold Db.createRun at hcreated
    split at hcreated
    · rename_i hany
      rw [Bool.and_eq_true, List.any_eq_true] at hany
      obtain ⟨-, r, hr, heq⟩ := hany
      exact List.mem_map.mpr ⟨r, hr, eq_of_beq heq⟩
    · cases hcreated
  | some created =>
    refine ⟨.inl ?_, hnotices⟩
    dsimp only
    rw [createJobs_occurrences]
    rw [hdb] at hcreated
    unfold Db.createRun at hcreated
    split at hcreated
    · cases hcreated
    · obtain rfl := Option.some.inj hcreated
      rw [Db.emit_runs, List.map_append]
      rfl

variable (iso) in
theorem catchUp_of_short (hnext : schedule.nextFireAt = some due)
    (hshort : (schedule.cron.following 500 now due).length ≤ 1) :
    (catchUp iso schedule now).2 = none ∧ (catchUp iso schedule now).1 = due := by
  have hmissed : ¬1 < (missedBetween schedule.cron due now).length := by
    unfold missedBetween
    split
    · exact Nat.lt_irrefl 1
    · rename_i found hne
      exact not_lt.mpr hshort
  unfold catchUp
  rw [hnext]
  dsimp only [Option.getD_some]
  rw [if_neg hmissed]
  exact ⟨rfl, rfl⟩

/-- Several later occurrences: one fewer than these is counted as skipped. -/
theorem catchUp_of_several (hnext : schedule.nextFireAt = some due)
    (hseveral : 1 < (schedule.cron.following 500 now due).length) :
    (catchUp iso schedule now).2 = some (scheduleMissed iso schedule.id
      ((schedule.cron.following 500 now due).length - 1) (catchUp iso schedule now).1) := by
  have hmissed : missedBetween schedule.cron due now = schedule.cron.following 500 now due := by
    unfold missedBetween
    split
    · rename_i hnil
      rw [hnil] at hseveral
      exact absurd hseveral (by decide)
    · rfl
  unfold catchUp
  rw [hnext]
  dsimp only [Option.getD_some]
  rw [hmissed, if_pos hseveral, List.length_dropLast]

theorem scheduleMissed_ne {id : String} {n m : ℕ} {t u : Time} (h : n ≠ m) :
    scheduleMissed iso id n t ≠ scheduleMissed iso id m u := by
  intro heq
  have htitle := congrArg NotifyArgs.title heq
  have hcount := String.append_right_inj _ |>.mp (String.append_right_inj _ |>.mp htitle)
  exact h (toString_nat_injective (String.append_left_inj _ |>.mp hcount))

/-- **The newest occurrence is fired, and the earlier ones are counted, iff no later one is
due.** -/
theorem fire_catchesUp_iff (hnext : schedule.nextFireAt = some due)
    (hoccurs : schedule.cron.occurs due) (hdue : due ≤ now) :
    CatchesUp iso s now runId selected schedule due ↔
      ∀ o, schedule.cron.occurs o → due < o → now < o := by
  obtain ⟨hruns, hnotices⟩ := fire_spec iso s now runId selected schedule
  rw [← Timetable.following_eq_nil_iff schedule.cron 500 now due (by decide)]
  have hcard := Timetable.length_following_lt_ncard 500 hoccurs hdue
  constructor
  · rintro ⟨latest, -, -, -, hcalls⟩
    rw [hnotices] at hcalls
    have hcalls := List.append_cancel_left hcalls
    by_contra hne
    have hpos := List.length_pos_of_ne_nil hne
    rw [if_pos (by omega)] at hcalls
    by_cases hseveral : 1 < (schedule.cron.following 500 now due).length
    · rw [catchUp_of_several hnext hseveral] at hcalls
      refine scheduleMissed_ne ?_ (List.singleton_injective hcalls)
      omega
    · rw [(catchUp_of_short iso hnext (not_lt.mp hseveral)).1] at hcalls
      cases hcalls
  · intro hnil
    have hshort : (schedule.cron.following 500 now due).length ≤ 1 := by
      rw [hnil]
      decide
    obtain ⟨hnotice, hfired⟩ := catchUp_of_short iso hnext hshort
    have hnone := (Timetable.following_eq_nil_iff schedule.cron 500 now due (by decide)).mp hnil
    rw [hfired] at hruns
    rw [hnotice] at hnotices
    refine ⟨due, ⟨⟨hoccurs, hdue⟩, fun o ho => ?_⟩, ?_, ?_, ?_⟩
    · by_contra hlt
      exact absurd (hnone o ho.1 (not_le.mp hlt)) (not_lt.mpr ho.2)
    · have hmem : some (schedule.id, due) ∈
          (s.fire iso now runId selected schedule).1.db.runs.map Run.occurrence := by
        rcases hruns with hruns | ⟨hmem, hruns⟩
        · rw [hruns]
          exact List.mem_append_right _ (List.mem_singleton_self _)
        · rw [hruns]
          exact hmem
      obtain ⟨r, hr, heq⟩ := List.mem_map.mp hmem
      exact ⟨r, hr, heq⟩
    · intro r hr
      have hmem : r.occurrence ∈
          (s.fire iso now runId selected schedule).1.db.runs.map Run.occurrence :=
        List.mem_map_of_mem hr
      rcases hruns with hruns | ⟨-, hruns⟩
      · rw [hruns] at hmem
        rcases List.mem_append.mp hmem with hold | hnew
        · exact .inr hold
        · exact .inl (List.mem_singleton.mp hnew)
      · rw [hruns] at hmem
        exact .inr hmem
    · rw [hnotices, Timetable.ncard_within_eq_one hoccurs hdue hnone]
      rfl

/-- Midnight, in seconds. -/
def midnight : Timetable where
  occurs t := 86400 ∣ t
  next t := (t / 86400 + 1) * 86400
  lt_next t := by omega
  occurs_next t := Dvd.intro_left _ rfl
  next_le t u hu hlt := by omega

/-- A schedule that is due at the first midnight. -/
def nightly : Schedule where
  id := "nightly"
  cron := midnight
  previousFire t := (t - 1) / 86400 * 86400
  lastFiredAt := none
  nextFireAt := some 86400

/-- A planner without runs. -/
def idle : Planner := { db := {}, notifications := {}, schedules := [nightly] }

/-- Five seconds behind the first midnight, its run is created. -/
theorem nightly_catches_up : idle.CatchesUp toString 86405 7 [] nightly 86400 :=
  (fire_catchesUp_iff rfl (Dvd.intro_left 1 rfl) (by decide)).mpr fun o hocc hlt => by
    have hdvd : 86400 ∣ o := hocc
    have hbehind : 86400 < o := hlt
    change 86405 < o
    omega

/-- **Five seconds behind the second midnight the first one is fired**, and nothing is said of the
second: what is enumerated behind the due occurrence is one occurrence only. -/
theorem second_midnight_lost : ¬idle.CatchesUp toString 172805 7 [] nightly 86400 := by
  rintro ⟨latest, hlatest, ⟨r, hr, heq⟩, -, -⟩
  have hgreatest : IsGreatest {o | nightly.cron.occurs o ∧ o ≤ 172805} 172800 := by
    refine ⟨⟨Dvd.intro_left 2 rfl, by decide⟩, fun o ho => ?_⟩
    have hdvd : 86400 ∣ o := ho.1
    have hle : o ≤ 172805 := ho.2
    omega
  obtain rfl := hlatest.unique hgreatest
  have hruns : (idle.fire toString 172805 7 [] nightly).1.db.runs.map Run.occurrence =
      [some ("nightly", 86400)] := by decide +kernel
  have hmem : r.occurrence ∈ [some ("nightly", 86400)] := hruns ▸ List.mem_map_of_mem hr
  rw [heq] at hmem
  exact absurd hmem (by decide)

end Planner

end CommerceCollector
