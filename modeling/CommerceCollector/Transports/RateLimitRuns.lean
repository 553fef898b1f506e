import CommerceCollector.Transports.RateLimit
import Mathlib.Algebra.Order.Group.Int
import Mathlib.Algebra.Order.Sub.Basic
import Mathlib.Tactic.Abel

/-!
# Pacing is kept

Every start slot of an origin is at least the delay behind the one before it, because `next_start`
is never less than the last slot and the delay.  A call returns no earlier than its slot: it sleeps
from its second reading of the clock for what was left at the first one.

The permits of an origin that are free, granted or held by a task are as many as its limit, and the
semaphore has as many waiters as there are tasks that wait.  So a release always finds a permit
missing, and when no task has to do with the origin, all its permits are free.
-/

namespace CommerceCollector

open Tasks

variable {Url Origin T : Type*} [DecidableEq Origin] [AddCommGroup T] [LinearOrder T]

/-! ## The states of the origins -/

namespace RateLimiter

variable {limits : RateLimits T} {l : RateLimiter Origin T} {origin o : Origin} {state : OriginState T}

/-- The semaphore of an origin. -/
def semaphore (limits : RateLimits T) (l : RateLimiter Origin T) (origin : Origin) : BoundedSemaphore :=
  (l.stateFor limits origin).concurrency

theorem stateFor_put : (l.put origin state).stateFor limits o =
    if o = origin then state else l.stateFor limits o := by
  by_cases h : o = origin
  · subst h
    simp [put, stateFor]
  · simp [put, stateFor, h]

theorem semaphore_put : (l.put origin state).semaphore limits o =
    if o = origin then state.concurrency else l.semaphore limits o := by
  rw [semaphore, stateFor_put]
  split <;> rfl

theorem semaphore_reserve (first second : T) :
    (l.reserve limits origin first second).1.semaphore limits o = l.semaphore limits o := by
  change (((l.tick first).tick second).put origin _).semaphore limits o = _
  rw [semaphore_put]
  split
  · rename_i h
    subst h
    rfl
  · rfl

theorem giveBack_spec (h : (l.semaphore limits origin).value < (l.semaphore limits origin).bound) :
    ∃ concurrency, l.giveBack limits origin =
        l.put origin { l.stateFor limits origin with concurrency } ∧
      concurrency.unclaimed = (l.semaphore limits origin).unclaimed + 1 ∧
      concurrency.waiters.length = (l.semaphore limits origin).waiters.length ∧
      concurrency.bound = (l.semaphore limits origin).bound := by
  obtain ⟨concurrency, hrelease, hspec⟩ := BoundedSemaphore.release_spec h
  refine ⟨concurrency, ?_, hspec⟩
  rw [semaphore] at hrelease
  simp only [giveBack, hrelease]

end RateLimiter

/-! ## Permits -/

namespace RateTask

/-- The origin of the permit that a task holds. -/
def holder (t : RateTask Url Origin T) : Option Origin :=
  match t.phase with
  | .calling _ => none
  | .queued _ _ => none
  | .pacing origin => some origin
  | .sleeping origin _ _ => some origin
  | .holding origin => some origin

/-- The origin whose semaphore a task waits for. -/
def waiter (t : RateTask Url Origin T) : Option Origin :=
  match t.phase with
  | .queued origin _ => some origin
  | _ => none

/-- The permits of an origin that a task holds. -/
def permits (origin : Origin) (t : RateTask Url Origin T) : ℕ :=
  if t.holder = some origin then 1 else 0

/-- The waiters of an origin's semaphore that a task is. -/
def waits (origin : Origin) (t : RateTask Url Origin T) : ℕ :=
  if t.waiter = some origin then 1 else 0

end RateTask

/-- What a resumed task does to a semaphore, in terms of what it holds and waits for before and
after. -/
structure Accounted (s s' : BoundedSemaphore) (held held' waits waits' : ℕ) : Prop where
  unclaimed : s'.unclaimed + held' = s.unclaimed + held
  waiters : s'.waiters.length + waits = s.waiters.length + waits'
  bound : s'.bound = s.bound

namespace RateTask

variable {limits : RateLimits T} {parse : Url → Option Origin} {l : RateLimiter Origin T}
  {t : RateTask Url Origin T}

/-- Only one semaphore is changed, on behalf of a task that holds and waits for nothing else. -/
theorem accounted_put {state : OriginState T} {origin o : Origin} {u : Option (RateTask Url Origin T)}
    (h : Accounted (l.semaphore limits origin) state.concurrency (t.permits origin)
      ((u.map (permits origin)).getD 0) (t.waits origin) ((u.map (waits origin)).getD 0))
    (hother : o ≠ origin → t.permits o = 0 ∧ (u.map (permits o)).getD 0 = 0 ∧ t.waits o = 0 ∧
      (u.map (waits o)).getD 0 = 0) :
    Accounted (l.semaphore limits o) ((l.put origin state).semaphore limits o) (t.permits o)
      ((u.map (permits o)).getD 0) (t.waits o) ((u.map (waits o)).getD 0) := by
  rw [RateLimiter.semaphore_put]
  by_cases ho : o = origin
  · subst ho
    rw [if_pos rfl]
    exact h
  · obtain ⟨hheld, hheld', hwaits, hwaits'⟩ := hother ho
    rw [if_neg ho, hheld, hheld', hwaits, hwaits']
    exact ⟨rfl, rfl, rfl⟩

theorem accounted_giveBack {origin o : Origin} (hholder : t.holder = some origin)
    (hwaiter : t.waiter = none)
    (hmissing : (l.semaphore limits origin).value < (l.semaphore limits origin).bound) :
    Accounted (l.semaphore limits o) ((l.giveBack limits origin).semaphore limits o) (t.permits o) 0
      (t.waits o) 0 ∧ (l.giveBack limits origin).unmatched = l.unmatched := by
  obtain ⟨concurrency, heq, hunclaimed, hwaiters, hbound⟩ := RateLimiter.giveBack_spec hmissing
  rw [heq]
  refine ⟨accounted_put (u := none) ⟨?_, ?_, hbound⟩ ?_, rfl⟩
  · simp [permits, hholder, hunclaimed]
  · simp [waits, hwaiter, hwaiters]
  · intro ho
    simp [permits, waits, hholder, hwaiter, Ne.symm ho]

/-- **What a resumed task does to the permits.**  Whatever it claims it holds, and it gives back
what it held; it is one of the waiters as long as it waits. -/
theorem run_accounted (parse : Url → Option Origin) (a : RateAnswer T)
    (hmissing : ∀ origin, t.holder = some origin →
      (l.semaphore limits origin).value < (l.semaphore limits origin).bound) :
    (∀ o, Accounted (l.semaphore limits o) ((t.run limits parse l a).1.semaphore limits o)
      (t.permits o) (((t.run limits parse l a).2.map (permits o)).getD 0) (t.waits o)
      (((t.run limits parse l a).2.map (waits o)).getD 0)) ∧
    (t.run limits parse l a).1.unmatched = l.unmatched := by
  have hsame : ∀ o, Accounted (l.semaphore limits o) (l.semaphore limits o) (t.permits o) (t.permits o)
      (t.waits o) (t.waits o) := fun o => ⟨rfl, rfl, rfl⟩
  have hback : ∀ origin, t.holder = some origin → t.waiter = none →
      (∀ o, Accounted (l.semaphore limits o) ((l.giveBack limits origin).semaphore limits o)
        (t.permits o) 0 (t.waits o) 0) ∧ (l.giveBack limits origin).unmatched = l.unmatched :=
    fun origin hholder hwaiter =>
      ⟨fun o => (accounted_giveBack hholder hwaiter (hmissing origin hholder)).1,
        (accounted_giveBack (o := origin) hholder hwaiter (hmissing origin hholder)).2⟩
  obtain ⟨phase, cancelling⟩ := t
  cases a with
  | cancel =>
    cases phase with
    | queued origin ticket =>
      obtain ⟨hunclaimed, hwaiters, hbound⟩ :=
        BoundedSemaphore.cancel_spec (l.semaphore limits origin) ticket
      refine ⟨fun o => accounted_put (u := some _) ⟨?_, ?_, hbound⟩ ?_, rfl⟩
      · exact congrArg (· + 0) hunclaimed
      · exact congrArg (· + _) hwaiters
      · intro ho
        simp [permits, waits, holder, waiter, Ne.symm ho]
    | calling url => exact ⟨hsame, rfl⟩
    | pacing origin => exact ⟨hsame, rfl⟩
    | sleeping origin slot wake => exact ⟨hsame, rfl⟩
    | holding origin => exact ⟨hsame, rfl⟩
  | go first second =>
    cases phase with
    | calling url =>
      cases cancelling with
      | true => exact ⟨hsame, rfl⟩
      | false =>
        cases hparse : parse url with
        | none =>
          simp only [run, hparse]
          exact ⟨hsame, rfl⟩
        | some origin =>
          have hspec := BoundedSemaphore.acquire_spec (l.semaphore limits origin)
          simp only [run, hparse]
          cases hacquire : (l.stateFor limits origin).concurrency.acquire with
          | mk concurrency waiting =>
            rw [RateLimiter.semaphore, hacquire] at hspec
            obtain ⟨hbound, hspec⟩ := hspec
            cases waiting with
            | none =>
              refine ⟨fun o => accounted_put (u := some _) ⟨?_, ?_, hbound⟩ ?_, rfl⟩
              · simpa [permits, holder, RateLimiter.semaphore] using hspec.1
              · simpa [waits, waiter, RateLimiter.semaphore] using hspec.2
              · intro ho
                simp [permits, waits, holder, waiter, Ne.symm ho]
            | some ticket =>
              refine ⟨fun o => accounted_put (u := some _) ⟨?_, ?_, hbound⟩ ?_, rfl⟩
              · simpa [permits, holder, RateLimiter.semaphore] using hspec.1
              · simpa [waits, waiter, RateLimiter.semaphore] using hspec.2
              · intro ho
                simp [permits, waits, holder, waiter, Ne.symm ho]
    | queued origin ticket =>
      simp only [run]
      cases hresume : (l.stateFor limits origin).concurrency.resume ticket cancelling with
      | none => exact ⟨hsame, rfl⟩
      | some resumed =>
        obtain ⟨acquired, concurrency⟩ := resumed
        obtain ⟨hunclaimed, hwaiters, hbound⟩ := BoundedSemaphore.resume_spec hresume
        rw [← RateLimiter.semaphore] at hunclaimed hwaiters
        refine ⟨fun o => accounted_put (u := if acquired then some _ else none) ⟨?_, ?_, hbound⟩ ?_, rfl⟩
        · cases acquired <;> simpa [permits, holder] using hunclaimed
        · cases acquired <;> simpa [waits, waiter] using hwaiters
        · intro ho
          cases acquired <;> simp [permits, waits, holder, waiter, Ne.symm ho]
    | pacing origin =>
      cases cancelling with
      | true =>
        exact hback origin rfl rfl
      | false =>
        simp only [run, Bool.false_eq_true, if_false]
        split
        · exact ⟨fun o => by rw [RateLimiter.semaphore_reserve]; exact hsame o, rfl⟩
        · refine ⟨fun o => ?_, rfl⟩
          change Accounted _ ((l.reserve limits origin first second).1.semaphore limits o) _ _ _ _
          rw [RateLimiter.semaphore_reserve]
          exact hsame o
    | sleeping origin slot wake =>
      cases cancelling with
      | true =>
        exact hback origin rfl rfl
      | false =>
        simp only [run, Bool.false_eq_true, if_false]
        split <;> exact ⟨hsame, rfl⟩
    | holding origin =>
      exact hback origin rfl rfl

end RateTask

/-! ## Slots -/

/-- The slots of an origin are the delay apart, and its next start is the delay behind them. -/
structure Spaced (limits : RateLimits T) (l : RateLimiter Origin T) : Prop where
  apart : ∀ origin, (l.slots origin).Pairwise fun earlier later => earlier + limits.delay ≤ later
  ahead : ∀ origin, ∀ slot ∈ l.slots origin, slot + limits.delay ≤ (l.stateFor limits origin).nextStart
  punctual : ∀ entry ∈ l.started, entry.slot ≤ entry.time

/-- A task that sleeps is not woken before its slot. -/
def RateTask.Patient (t : RateTask Url Origin T) : Prop :=
  match t.phase with
  | .sleeping _ slot wake => slot ≤ wake
  | _ => True

namespace Spaced

variable {limits : RateLimits T} {l : RateLimiter Origin T} {origin : Origin}

theorem put (h : Spaced limits l) (concurrency : BoundedSemaphore) :
    Spaced limits (l.put origin { l.stateFor limits origin with concurrency }) where
  apart := h.apart
  ahead o slot hslot := by
    rw [RateLimiter.stateFor_put]
    split
    · rename_i ho
      subst ho
      exact h.ahead o slot hslot
    · exact h.ahead o slot hslot
  punctual := h.punctual

theorem giveBack (h : Spaced limits l) : Spaced limits (l.giveBack limits origin) := by
  rw [RateLimiter.giveBack]
  split
  · exact ⟨h.apart, h.ahead, h.punctual⟩
  · exact h.put _

omit [DecidableEq Origin] in
theorem start (h : Spaced limits l) {slot : T} (hslot : slot ≤ l.now) :
    Spaced limits (l.start origin slot) where
  apart := h.apart
  ahead := h.ahead
  punctual entry hentry := by
    rcases List.mem_append.mp hentry with hold | hnew
    · exact h.punctual entry hold
    · rw [List.mem_singleton.mp hnew]
      exact hslot

variable [IsOrderedAddMonoid T]

theorem reserve (h : Spaced limits l) (first second : T) :
    Spaced limits (l.reserve limits origin first second).1 where
  apart o := by
    change (Function.update l.slots origin _ o).Pairwise _
    by_cases ho : o = origin
    · subst ho
      rw [Function.update_self, List.pairwise_append]
      refine ⟨h.apart o, List.pairwise_singleton _ _, fun slot hslot later hlater => ?_⟩
      rw [List.mem_singleton.mp hlater]
      exact (h.ahead o slot hslot).trans (le_max_left _ _)
    · rw [Function.update_of_ne ho]
      exact h.apart o
  ahead o slot hslot := by
    change slot ∈ Function.update l.slots origin _ o at hslot
    change slot + limits.delay ≤
      ((((l.tick first).tick second).put origin _).stateFor limits o).nextStart
    rw [RateLimiter.stateFor_put]
    by_cases ho : o = origin
    · subst ho
      rw [Function.update_self] at hslot
      rw [if_pos rfl]
      rcases List.mem_append.mp hslot with hold | hnew
      · have hnext : (l.stateFor limits o).nextStart ≤
            max (l.stateFor limits o).nextStart ((l.tick first).tick second).now := le_max_left _ _
        calc slot + limits.delay
            ≤ (l.stateFor limits o).nextStart := h.ahead o slot hold
          _ ≤ _ := hnext
          _ ≤ _ := le_add_of_nonneg_right limits.delay_nonneg
      · rw [List.mem_singleton.mp hnew]
    · rw [Function.update_of_ne ho] at hslot
      rw [if_neg ho]
      exact h.ahead o slot hslot
  punctual := h.punctual

/-- The slot comes no later than the second reading and the remaining time, and no later than the
second reading if no time remains. -/
theorem slot_le (limits : RateLimits T) (l : RateLimiter Origin T) (origin : Origin) (first second : T) :
    let (after, remaining, slot) := l.reserve limits origin first second
    (0 < remaining → slot ≤ after.now + remaining) ∧ (¬0 < remaining → slot ≤ after.now) := by
  have hclock : max l.now first ≤ max (max l.now first) second := le_max_left _ _
  constructor
  · intro hremaining
    refine max_le ?_ (le_add_of_nonneg_right hremaining.le)
    calc (l.stateFor limits origin).nextStart
        = max l.now first + ((l.stateFor limits origin).nextStart - max l.now first) := by abel
      _ ≤ _ := add_le_add_left hclock _
  · intro hremaining
    have hnone : (l.stateFor limits origin).nextStart ≤ max l.now first :=
      sub_nonpos.mp (not_lt.mp hremaining)
    exact max_le (hnone.trans hclock) le_rfl

end Spaced

theorem RateTask.run_spaced [IsOrderedAddMonoid T] {limits : RateLimits T}
    {l : RateLimiter Origin T} (parse : Url → Option Origin) {t : RateTask Url Origin T}
    (a : RateAnswer T) (h : Spaced limits l) (ht : t.Patient) :
    Spaced limits (t.run limits parse l a).1 ∧ ∀ u ∈ (t.run limits parse l a).2, u.Patient := by
  obtain ⟨phase, cancelling⟩ := t
  cases a with
  | cancel =>
    cases phase with
    | queued origin ticket => exact ⟨h.put _, fun u hu => Option.some.inj hu ▸ trivial⟩
    | sleeping origin slot wake => exact ⟨h, fun u hu => Option.some.inj hu ▸ ht⟩
    | calling url => exact ⟨h, fun u hu => Option.some.inj hu ▸ trivial⟩
    | pacing origin => exact ⟨h, fun u hu => Option.some.inj hu ▸ trivial⟩
    | holding origin => exact ⟨h, fun u hu => Option.some.inj hu ▸ trivial⟩
  | go first second =>
    cases phase with
    | calling url =>
      simp only [run]
      split
      · exact ⟨h, fun u hu => nomatch hu⟩
      · split
        · exact ⟨h, fun u hu => nomatch hu⟩
        · refine ⟨h.put _, fun u hu => ?_⟩
          rw [← Option.some.inj hu, Patient]
          split
          · rename_i heq
            dsimp only at heq
            split at heq <;> cases heq
          · trivial
    | queued origin ticket =>
      simp only [run]
      split
      · exact ⟨h, fun u hu => Option.some.inj hu ▸ trivial⟩
      · refine ⟨h.put _, fun u hu => ?_⟩
        split at hu
        · exact Option.some.inj hu ▸ trivial
        · cases hu
    | pacing origin =>
      simp only [run]
      split
      · exact ⟨h.giveBack, fun u hu => nomatch hu⟩
      · obtain ⟨hlate, hnow⟩ := Spaced.slot_le limits l origin first second
        split
        · rename_i hremaining
          refine ⟨h.reserve first second, fun u hu => ?_⟩
          rw [← Option.some.inj hu]
          exact hlate hremaining
        · rename_i hremaining
          exact ⟨(h.reserve first second).start (hnow hremaining),
            fun u hu => Option.some.inj hu ▸ trivial⟩
    | sleeping origin slot wake =>
      simp only [run]
      split
      · exact ⟨h.giveBack, fun u hu => nomatch hu⟩
      · split
        · exact ⟨⟨h.apart, h.ahead, h.punctual⟩, fun u hu => Option.some.inj hu ▸ ht⟩
        · rename_i hwake
          refine ⟨Spaced.start (l := l.tick first) ⟨h.apart, h.ahead, h.punctual⟩
            (le_trans ht (not_lt.mp hwake)), fun u hu => Option.some.inj hu ▸ trivial⟩
    | holding origin => exact ⟨h.giveBack, fun u hu => nomatch hu⟩

/-! ## Runs -/

section

variable {limits : RateLimits T} {parse : Url → Option Origin}
  {p : Pool (RateLimiter Origin T) (RateTask Url Origin T)}

/-- The permits of every origin are unclaimed or held, and its waiters are the tasks that wait. -/
structure Audited (limits : RateLimits T) (p : Pool (RateLimiter Origin T) (RateTask Url Origin T)) :
    Prop where
  bound : ∀ origin, (p.shared.semaphore limits origin).bound = limits.concurrency
  permits : ∀ origin, (p.shared.semaphore limits origin).unclaimed +
    Program.owed (RateTask.permits origin) p = limits.concurrency
  waiters : ∀ origin, (p.shared.semaphore limits origin).waiters.length =
    Program.owed (RateTask.waits origin) p
  unmatched : p.shared.unmatched = []

theorem Audited.missing (h : Audited limits p) {t : RateTask Url Origin T} (ht : t ∈ p.tasks)
    {origin : Origin} (hholder : t.holder = some origin) :
    (p.shared.semaphore limits origin).value < (p.shared.semaphore limits origin).bound := by
  have hmine : RateTask.permits origin t ≤ Program.owed (RateTask.permits origin) p :=
    List.single_le_sum (by simp) _ (List.mem_map_of_mem ht)
  have hone : RateTask.permits origin t = 1 := if_pos hholder
  have hpermits := h.permits origin
  rw [BoundedSemaphore.unclaimed] at hpermits
  rw [h.bound origin]
  omega

theorem Audited.step (h : Audited limits p) (turn : Turn Url (RateAnswer T)) :
    Audited limits ((rateLimiting limits parse).step p turn) := by
  cases turn with
  | spawn url =>
    refine ⟨h.bound, fun origin => ?_, fun origin => ?_, h.unmatched⟩
    · rw [Program.owed_spawn]
      exact h.permits origin
    · rw [Program.owed_spawn]
      exact h.waiters origin
  | resume i a =>
    cases hi : p.tasks[i]? with
    | none =>
      have hidle : (rateLimiting limits parse).step p (.resume i a) = p := by
        simp [Program.step, hi]
      rw [hidle]
      exact h
    | some t =>
      have hshared : ((rateLimiting limits parse).step p (.resume i a)).shared =
          (t.run limits parse p.shared a).1 := by
        simp [Program.step, hi, rateLimiting]
      obtain ⟨haccounted, hunmatched⟩ := RateTask.run_accounted parse a
        fun origin hholder => h.missing (List.mem_of_getElem? hi) hholder
      have howed := fun w => Program.owed_resume (rateLimiting limits parse) (β := Url) w hi a
      refine ⟨fun origin => ?_, fun origin => ?_, fun origin => ?_, ?_⟩
      · rw [hshared, (haccounted origin).bound]
        exact h.bound origin
      · have hheld := howed (RateTask.permits origin)
        have hunclaimed := (haccounted origin).unclaimed
        have hbefore := h.permits origin
        rw [hshared]
        change _ + _ = _ + ((t.run limits parse p.shared a).2.map _).getD 0 at hheld
        omega
      · have hwaits := howed (RateTask.waits origin)
        have hwaiters := (haccounted origin).waiters
        have hbefore := h.waiters origin
        rw [hshared]
        change _ + _ = _ + ((t.run limits parse p.shared a).2.map _).getD 0 at hwaits
        omega
      · rw [hshared, hunmatched]
        exact h.unmatched

theorem audited_new (limits : RateLimits T) (now : T) :
    Audited limits (⟨{ now }, []⟩ : Pool (RateLimiter Origin T) (RateTask Url Origin T)) where
  bound _ := rfl
  permits _ := rfl
  waiters _ := rfl
  unmatched := rfl

theorem respects_spaced [IsOrderedAddMonoid T] : (rateLimiting limits parse).Respects
    (fun l : RateLimiter Origin T => Spaced limits l) (fun _ t => t.Patient) (fun _ _ => True) (fun _ => True)
    fun _ _ _ => True where
  symm _ _ _ := trivial
  start _ _ _ _ := trivial
  apart _ _ := trivial
  shared _ _ a _ hs ht := (RateTask.run_spaced parse a hs ht).1
  own _ _ a _ hs ht := (RateTask.run_spaced parse a hs ht).2
  other _ _ _ _ _ _ _ hu _ := ⟨hu, fun _ _ => trivial⟩

/-- **Pacing per origin.**  In every run of tasks over a limiter the start slots of an origin are at
least the delay apart, no call returns before its slot, and no more permits of an origin are held or
granted than its limit.  When no task holds or waits for a permit of an origin any more, all of them
are free.  No release raises. -/
theorem pacing_kept [IsOrderedAddMonoid T] (limits : RateLimits T) (parse : Url → Option Origin)
    (now : T) (turns : List (Turn Url (RateAnswer T))) :
    let p := (rateLimiting limits parse).after ⟨{ now }, []⟩ turns
    (∀ origin, (p.shared.slots origin).Pairwise fun earlier later => earlier + limits.delay ≤ later) ∧
    (∀ entry ∈ p.shared.started, entry.slot ≤ entry.time) ∧
    (∀ origin, Program.owed (RateTask.permits origin) p + (p.shared.semaphore limits origin).grants ≤
      limits.concurrency) ∧
    (∀ origin, (∀ t ∈ p.tasks, t.holder ≠ some origin ∧ t.waiter ≠ some origin) →
      (p.shared.semaphore limits origin).value = limits.concurrency) ∧
    p.shared.unmatched = [] := by
  intro p
  have haudited : Audited limits p :=
    Trace.exec_invariant (rateLimiting limits parse).step (fun _ turn h => h.step turn)
      (audited_new limits now) turns
  have hspaced : Spaced limits p.shared := by
    refine (respects_spaced.after (Program.Free.of_shared ?_) (fun _ _ => trivial)
      (Program.along_trivial _ _ turns)).shared
    exact ⟨fun _ => List.Pairwise.nil, fun _ _ h => (nomatch h), fun _ h => nomatch h⟩
  refine ⟨hspaced.apart, hspaced.punctual, fun origin => ?_, fun origin hnone => ?_,
    haudited.unmatched⟩
  · have hpermits := haudited.permits origin
    rw [BoundedSemaphore.unclaimed] at hpermits
    omega
  · have hheld : Program.owed (RateTask.permits origin) p = 0 :=
      List.sum_eq_zero fun n hn => by
        obtain ⟨t, ht, rfl⟩ := List.mem_map.mp hn
        exact if_neg (hnone t ht).1
    have hwaits : Program.owed (RateTask.waits origin) p = 0 :=
      List.sum_eq_zero fun n hn => by
        obtain ⟨t, ht, rfl⟩ := List.mem_map.mp hn
        exact if_neg (hnone t ht).2
    have hpermits := haudited.permits origin
    rw [BoundedSemaphore.unclaimed_of_no_waiters ((haudited.waiters origin).trans hwaits),
      hheld] at hpermits
    exact hpermits

end

/-- One request at a time, and at most one in three seconds. -/
def oneInThree : RateLimits ℤ := ⟨3, 1, by decide, by decide⟩

/-- Two requests to one origin: the first one begins at once, the second one waits for its permit
until the first one is done, and then for its slot. -/
def twoInTurn : List (Turn String (RateAnswer ℤ)) :=
  [.spawn "a", .spawn "a", .resume 0 (.go 5 5), .resume 1 (.go 5 5), .resume 0 (.go 5 6),
    .resume 0 (.go 7 7), .resume 0 (.go 7 7), .resume 0 (.go 7 7), .resume 0 (.go 9 9),
    .resume 0 (.go 9 9)]

theorem pacing_kept_in_turn :
    let p := (rateLimiting oneInThree (some : String → Option String)).after ⟨{ now := 0 }, []⟩ twoInTurn
    p.shared.slots "a" = [6, 9] ∧ p.tasks = [] ∧
      (p.shared.slots "a").Pairwise (fun earlier later => earlier + oneInThree.delay ≤ later) ∧
      (p.shared.semaphore oneInThree "a").value = 1 := by
  have hslots : ((rateLimiting oneInThree (some : String → Option String)).after ⟨{ now := 0 }, []⟩
      twoInTurn).shared.slots "a" = [6, 9] := by decide +kernel
  have hempty : ((rateLimiting oneInThree (some : String → Option String)).after ⟨{ now := 0 }, []⟩
      twoInTurn).tasks = [] := by decide +kernel
  obtain ⟨happart, -, -, hfree, -⟩ :=
    pacing_kept oneInThree (some : String → Option String) 0 twoInTurn
  refine ⟨hslots, hempty, happart "a", hfree "a" fun t ht => ?_⟩
  rw [hempty] at ht
  cases ht

end CommerceCollector
