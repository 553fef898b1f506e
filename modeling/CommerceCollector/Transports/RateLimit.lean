import CommerceCollector.Foundation.Semaphore
import CommerceCollector.Foundation.Tasks
import Mathlib.Algebra.Order.Group.Defs
import Mathlib.Order.Lattice

/-!
# Pacing requests per origin

`PerOriginRateLimiter` of `transports/rate_limit.py`, as tasks that share it.  A task waits for a
permit of its origin's semaphore, for the lock of the origin, and for its start slot; then `wait`
returns, and the task holds the permit until it calls `release` with the same request, as the
callers have to.  It may be cancelled before its first step and at each of its suspensions.

No task is suspended while it has the lock, so waiting for the lock is one more suspension and
nothing else.  The clock never runs backwards: a reading that is behind the last one is the last
one.  `sleeper` returns when the clock has advanced by what it was asked for, or later.  Origins,
and the parsing of URLs into them, are parameters.
-/

namespace CommerceCollector

open Tasks

/-- The arguments of a limiter that its constructor accepts. -/
structure RateLimits (T : Type*) [Zero T] [LE T] where
  delay : T
  concurrency : ℕ
  delay_nonneg : 0 ≤ delay
  concurrency_pos : 0 < concurrency

/-- `_OriginState`. -/
structure OriginState (T : Type*) where
  concurrency : BoundedSemaphore
  nextStart : T
  deriving DecidableEq

/-- A call of `wait` that has returned. -/
structure Started (Origin T : Type*) where
  origin : Origin
  slot : T
  time : T
  deriving DecidableEq

/-- A limiter and its clock.  The slots that it handed out, the calls that returned and the releases
that raised are only recorded. -/
structure RateLimiter (Origin T : Type*) where
  states : Origin → Option (OriginState T) := fun _ => none
  now : T
  slots : Origin → List T := fun _ => []
  started : List (Started Origin T) := []
  unmatched : List Origin := []

/-- Where a task is. -/
inductive RatePhase (Url Origin T : Type*)
  /-- The call of `wait` has not begun. -/
  | calling (url : Url)
  /-- `state.concurrency.acquire()`. -/
  | queued (origin : Origin) (ticket : ℕ)
  /-- `async with state.pacing`. -/
  | pacing (origin : Origin)
  /-- `self._sleeper(remaining)`. -/
  | sleeping (origin : Origin) (slot wake : T)
  /-- The call of `wait` has returned. -/
  | holding (origin : Origin)
  deriving DecidableEq

/-- A task that makes one request. -/
structure RateTask (Url Origin T : Type*) where
  phase : RatePhase Url Origin T
  cancelling : Bool := false
  deriving DecidableEq

/-- What happens to a task: it is cancelled, or it goes on, at the readings of the clock that it
makes. -/
inductive RateAnswer (T : Type*)
  | cancel
  | go (first second : T)
  deriving DecidableEq

section

variable {Url Origin T : Type*} [DecidableEq Origin] [AddCommGroup T] [LinearOrder T]

namespace RateLimiter

/-- The clock is read. -/
def tick (l : RateLimiter Origin T) (reading : T) : RateLimiter Origin T :=
  { l with now := max l.now reading }

/-- `_state_for`. -/
def stateFor (limits : RateLimits T) (l : RateLimiter Origin T) (origin : Origin) : OriginState T :=
  (l.states origin).getD { concurrency := BoundedSemaphore.new limits.concurrency, nextStart := 0 }

/-- The state of an origin is changed. -/
def put (l : RateLimiter Origin T) (origin : Origin) (state : OriginState T) : RateLimiter Origin T :=
  { l with states := Function.update l.states origin (some state) }

/-- `state.concurrency.release()`. -/
def giveBack (limits : RateLimits T) (l : RateLimiter Origin T) (origin : Origin) :
    RateLimiter Origin T :=
  let state := l.stateFor limits origin
  match state.concurrency.release with
  | none => { l with unmatched := l.unmatched ++ [origin] }
  | some concurrency => l.put origin { state with concurrency }

/-- The body under the lock: the remaining time, and the start slot that is reserved. -/
def reserve (limits : RateLimits T) (l : RateLimiter Origin T) (origin : Origin) (first second : T) :
    RateLimiter Origin T × T × T :=
  let state := l.stateFor limits origin
  let l := l.tick first
  let remaining := state.nextStart - l.now
  let l := l.tick second
  let slot := max state.nextStart l.now
  let l := l.put origin { state with nextStart := slot + limits.delay }
  ({ l with slots := Function.update l.slots origin (l.slots origin ++ [slot]) }, remaining, slot)

/-- `wait` returns. -/
def start (l : RateLimiter Origin T) (origin : Origin) (slot : T) : RateLimiter Origin T :=
  { l with started := l.started ++ [{ origin, slot, time := l.now }] }

end RateLimiter

open RateLimiter in
/-- A task from one suspension to the next. -/
def RateTask.run (limits : RateLimits T) (parse : Url → Option Origin) (l : RateLimiter Origin T)
    (t : RateTask Url Origin T) : RateAnswer T → RateLimiter Origin T × Option (RateTask Url Origin T)
  | .cancel =>
    match t.phase with
    | .queued origin ticket =>
      let state := l.stateFor limits origin
      (l.put origin { state with concurrency := state.concurrency.cancel ticket },
        some { t with cancelling := true })
    | _ => (l, some { t with cancelling := true })
  | .go first second =>
    match t.phase with
    | .calling url =>
      if t.cancelling then (l, none)
      else match parse url with
        | none => (l, none)
        | some origin =>
          let state := l.stateFor limits origin
          let (concurrency, waiting) := state.concurrency.acquire
          (l.put origin { state with concurrency }, some { phase := match waiting with
            | none => .pacing origin
            | some ticket => .queued origin ticket })
    | .queued origin ticket =>
      let state := l.stateFor limits origin
      match state.concurrency.resume ticket t.cancelling with
      | none => (l, some t)
      | some (acquired, concurrency) => (l.put origin { state with concurrency },
          if acquired then some { phase := .pacing origin } else none)
    | .pacing origin =>
      if t.cancelling then (l.giveBack limits origin, none)
      else
        let (l, remaining, slot) := l.reserve limits origin first second
        if 0 < remaining then (l, some { phase := .sleeping origin slot (l.now + remaining) })
        else (l.start origin slot, some { phase := .holding origin })
    | .sleeping origin slot wake =>
      if t.cancelling then (l.giveBack limits origin, none)
      else if (l.tick first).now < wake then (l.tick first, some t)
      else ((l.tick first).start origin slot, some { phase := .holding origin })
    | .holding origin => (l.giveBack limits origin, none)

/-- The tasks of a limiter; a task is started with its request. -/
def rateLimiting (limits : RateLimits T) (parse : Url → Option Origin) :
    Program (RateLimiter Origin T) (RateTask Url Origin T) Url (RateAnswer T) where
  start url := { phase := .calling url }
  run := RateTask.run limits parse

end

end CommerceCollector
