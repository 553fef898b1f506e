import Mathlib.Data.List.Basic
import Mathlib.Data.List.Count

/-!
# Bounded semaphores

The bounded semaphore of an event loop, with the futures of those that wait for it.  A release hands
its permit to the first pending waiter at once, so between that and the turn of the waiter the
permit is neither free nor held: it is granted.  A waiter that is cancelled after that gives the
permit on.

`unclaimed` counts the permits that no holder has: the free ones and the granted ones.
-/

/-- The future of a waiter. -/
inductive WaiterFuture
  | pending
  | granted
  | cancelled
  deriving DecidableEq, Repr

/-- `asyncio.BoundedSemaphore`, with its waiters in their order. -/
structure BoundedSemaphore where
  bound : ℕ
  value : ℕ
  waiters : List (ℕ × WaiterFuture) := []
  /-- The tickets given to waiters so far. -/
  issued : ℕ := 0
  deriving DecidableEq, Repr

namespace BoundedSemaphore

/-- A semaphore with all permits free. -/
def new (bound : ℕ) : BoundedSemaphore where
  bound
  value := bound

/-- `locked`: no permit is free, or someone waits for one. -/
def locked (s : BoundedSemaphore) : Bool :=
  s.value == 0 || s.waiters.any fun w => w.2 ≠ .cancelled

/-- The first pending waiter is granted a permit, if there is one. -/
def grantFirst : List (ℕ × WaiterFuture) → Option (List (ℕ × WaiterFuture))
  | [] => none
  | (ticket, .pending) :: rest => some ((ticket, .granted) :: rest)
  | w :: rest => (grantFirst rest).map (w :: ·)

/-- `_wake_up_next`. -/
def wakeUpNext (s : BoundedSemaphore) : Option BoundedSemaphore :=
  (grantFirst s.waiters).map fun waiters => { s with value := s.value - 1, waiters }

/-- The loop that wakes up as many waiters as there are free permits. -/
def wakeUp : ℕ → BoundedSemaphore → BoundedSemaphore
  | 0, s => s
  | n + 1, s =>
    if 0 < s.value then
      match s.wakeUpNext with
      | none => s
      | some s' => wakeUp n s'
    else s

/-- `acquire` up to its suspension: it takes a permit, or a ticket of a waiter. -/
def acquire (s : BoundedSemaphore) : BoundedSemaphore × Option ℕ :=
  if s.locked then
    ({ s with waiters := s.waiters ++ [(s.issued, .pending)], issued := s.issued + 1 },
      some s.issued)
  else ({ s with value := s.value - 1 }, none)

/-- The future of a ticket. -/
def future (s : BoundedSemaphore) (ticket : ℕ) : Option WaiterFuture :=
  (s.waiters.find? fun w => w.1 = ticket).map (·.2)

/-- The waiter of a ticket leaves. -/
def remove (s : BoundedSemaphore) (ticket : ℕ) : BoundedSemaphore :=
  { s with waiters := s.waiters.eraseP fun w => w.1 = ticket }

/-- `acquire` behind its suspension: whether the waiter has the permit now.  A waiter whose future
is pending is not resumed. -/
def resume (s : BoundedSemaphore) (ticket : ℕ) (cancelling : Bool) : Option (Bool × BoundedSemaphore) :=
  match s.future ticket with
  | none => none
  | some .pending => none
  | some .granted =>
    let left := s.remove ticket
    let left := if cancelling then { left with value := left.value + 1 } else left
    some (!cancelling, wakeUp left.value left)
  | some .cancelled =>
    let left := s.remove ticket
    some (false, wakeUp left.value left)

/-- The task of a waiter is cancelled, which cancels its future if that is pending. -/
def cancel (s : BoundedSemaphore) (ticket : ℕ) : BoundedSemaphore :=
  { s with waiters := s.waiters.map fun w =>
      if w.1 = ticket ∧ w.2 = .pending then (w.1, .cancelled) else w }

/-- `release`; a permit that nobody holds is a `ValueError`. -/
def release (s : BoundedSemaphore) : Option BoundedSemaphore :=
  if s.bound ≤ s.value then none
  else
    let freed := { s with value := s.value + 1 }
    some (freed.wakeUpNext.getD freed)

/-- The permits that are granted to waiters. -/
def grants (s : BoundedSemaphore) : ℕ := s.waiters.countP fun w => w.2 = .granted

/-- The permits that no holder has. -/
def unclaimed (s : BoundedSemaphore) : ℕ := s.value + s.grants

/-! ## Wake-ups -/

variable {s s' : BoundedSemaphore} {ticket : ℕ}

/-- A grant is one more granted permit, and one waiter gets it. -/
theorem grantFirst_count {waiters granted : List (ℕ × WaiterFuture)}
    (h : grantFirst waiters = some granted) :
    granted.countP (fun w => w.2 = .granted) = waiters.countP (fun w => w.2 = .granted) + 1 ∧
      granted.length = waiters.length := by
  induction waiters generalizing granted with
  | nil => cases h
  | cons w rest ih =>
    obtain ⟨n, future⟩ := w
    cases future with
    | pending =>
      cases h
      simp
    | granted =>
      obtain ⟨tail, htail, rfl⟩ := Option.map_eq_some_iff.mp h
      obtain ⟨hcount, hlength⟩ := ih htail
      simp [hcount, hlength]
    | cancelled =>
      obtain ⟨tail, htail, rfl⟩ := Option.map_eq_some_iff.mp h
      obtain ⟨hcount, hlength⟩ := ih htail
      simp [hcount, hlength]

/-- A wake-up turns a free permit into a granted one. -/
theorem wakeUpNext_spec (h : s.wakeUpNext = some s') (hvalue : 0 < s.value) :
    s'.unclaimed = s.unclaimed ∧ s'.waiters.length = s.waiters.length ∧ s'.bound = s.bound := by
  obtain ⟨granted, hgrant, rfl⟩ := Option.map_eq_some_iff.mp h
  obtain ⟨hcount, hlength⟩ := grantFirst_count hgrant
  refine ⟨?_, hlength, rfl⟩
  rw [unclaimed, unclaimed, grants, hcount, grants]
  dsimp only
  omega

/-- Wake-ups only turn free permits into granted ones. -/
theorem wakeUp_spec (n : ℕ) (s : BoundedSemaphore) : (wakeUp n s).unclaimed = s.unclaimed ∧
    (wakeUp n s).waiters.length = s.waiters.length ∧ (wakeUp n s).bound = s.bound := by
  induction n generalizing s with
  | zero => exact ⟨rfl, rfl, rfl⟩
  | succ n ih =>
    rw [wakeUp]
    split
    · rename_i hvalue
      cases hwake : s.wakeUpNext with
      | none => exact ⟨rfl, rfl, rfl⟩
      | some next =>
        obtain ⟨hunclaimed, hlength, hbound⟩ := wakeUpNext_spec hwake hvalue
        obtain ⟨hunclaimed', hlength', hbound'⟩ := ih next
        exact ⟨hunclaimed'.trans hunclaimed, hlength'.trans hlength, hbound'.trans hbound⟩
    · exact ⟨rfl, rfl, rfl⟩

/-- Without the first waiter of some kind there is one waiter less, with its future. -/
theorem eraseP_count {waiters : List (ℕ × WaiterFuture)} {w : ℕ × WaiterFuture}
    {q : ℕ × WaiterFuture → Bool} (h : waiters.find? q = some w) :
    (waiters.eraseP q).length + 1 = waiters.length ∧
      (waiters.eraseP q).countP (fun w => w.2 = .granted) +
        (if w.2 = .granted then 1 else 0) = waiters.countP fun w => w.2 = .granted := by
  induction waiters with
  | nil => cases h
  | cons v rest ih =>
    by_cases hv : q v = true
    · rw [List.find?_cons_of_pos hv] at h
      cases h
      rw [List.eraseP_cons_of_pos hv, List.countP_cons]
      simp
    · rw [List.find?_cons_of_neg hv] at h
      obtain ⟨hlength, hcount⟩ := ih h
      rw [List.eraseP_cons_of_neg hv, List.countP_cons, List.countP_cons, List.length_cons,
        List.length_cons]
      omega

/-- The waiter of a ticket leaves with its future. -/
theorem remove_spec {future : WaiterFuture} (h : s.future ticket = some future) :
    (s.remove ticket).waiters.length + 1 = s.waiters.length ∧
      (s.remove ticket).grants + (if future = .granted then 1 else 0) = s.grants := by
  obtain ⟨w, hfind, rfl⟩ := Option.map_eq_some_iff.mp h
  exact eraseP_count hfind

/-! ## What the operations do to the unclaimed permits -/

/-- A permit that is taken at once was unclaimed; a new waiter leaves them as they are. -/
theorem acquire_spec (s : BoundedSemaphore) : s.acquire.1.bound = s.bound ∧
    match s.acquire.2 with
    | none => s.acquire.1.unclaimed + 1 = s.unclaimed ∧
        s.acquire.1.waiters.length = s.waiters.length
    | some _ => s.acquire.1.unclaimed = s.unclaimed ∧
        s.acquire.1.waiters.length = s.waiters.length + 1 := by
  rw [acquire]
  split
  · refine ⟨rfl, ?_, ?_⟩
    · simp [unclaimed, grants]
    · simp
  · rename_i hlocked
    have hvalue : s.value ≠ 0 := by
      intro hzero
      exact hlocked (by simp [locked, hzero])
    refine ⟨rfl, ?_, rfl⟩
    change s.value - 1 + s.grants + 1 = s.value + s.grants
    omega

/-- A waiter that leaves with a permit has claimed it; one that leaves without has claimed
nothing. -/
theorem resume_spec {cancelling acquired : Bool} (h : s.resume ticket cancelling = some (acquired, s')) :
    s'.unclaimed + (if acquired then 1 else 0) = s.unclaimed ∧
      s'.waiters.length + 1 = s.waiters.length ∧ s'.bound = s.bound := by
  rw [resume] at h
  split at h
  · cases h
  · cases h
  · rename_i hfuture
    obtain ⟨hlength, hgrants⟩ := remove_spec hfuture
    obtain ⟨rfl, rfl⟩ := Prod.mk.inj (Option.some.inj h)
    obtain ⟨hunclaimed, hlength', hbound⟩ := wakeUp_spec _
      (if cancelling then { s.remove ticket with value := (s.remove ticket).value + 1 }
        else s.remove ticket)
    rw [if_pos rfl] at hgrants
    have hvalue : (s.remove ticket).value = s.value := rfl
    refine ⟨?_, ?_, ?_⟩
    · rw [hunclaimed]
      cases cancelling with
      | true =>
        change (s.remove ticket).value + 1 + (s.remove ticket).grants + 0 = s.value + s.grants
        omega
      | false =>
        change (s.remove ticket).value + (s.remove ticket).grants + 1 = s.value + s.grants
        omega
    · rw [hlength']
      cases cancelling <;> exact hlength
    · rw [hbound]
      cases cancelling <;> rfl
  · rename_i hfuture
    obtain ⟨hlength, hgrants⟩ := remove_spec hfuture
    obtain ⟨rfl, rfl⟩ := Prod.mk.inj (Option.some.inj h)
    obtain ⟨hunclaimed, hlength', hbound⟩ := wakeUp_spec (s.remove ticket).value (s.remove ticket)
    refine ⟨?_, hlength'.symm ▸ hlength, hbound⟩
    rw [hunclaimed]
    change s.value + (s.remove ticket).grants + 0 = s.value + s.grants
    simp only [reduceCtorEq, if_false] at hgrants
    omega

/-- A cancelled future had no permit. -/
theorem cancel_spec (s : BoundedSemaphore) (ticket : ℕ) : (s.cancel ticket).unclaimed = s.unclaimed ∧
    (s.cancel ticket).waiters.length = s.waiters.length ∧ (s.cancel ticket).bound = s.bound := by
  refine ⟨?_, List.length_map _, rfl⟩
  have hgrants : (s.cancel ticket).grants = s.grants := by
    rw [cancel, grants, grants, List.countP_map]
    refine List.countP_congr fun w _ => ?_
    simp only [Function.comp_apply]
    split
    · rename_i h
      simp [h.2]
    · rfl
  rw [unclaimed, hgrants]
  rfl

/-- A release gives one permit back, if one is missing. -/
theorem release_spec (hvalue : s.value < s.bound) : ∃ s', s.release = some s' ∧
    s'.unclaimed = s.unclaimed + 1 ∧ s'.waiters.length = s.waiters.length ∧ s'.bound = s.bound := by
  refine ⟨_, if_neg (Nat.not_le.mpr hvalue), ?_⟩
  have hfreed : ({ s with value := s.value + 1 } : BoundedSemaphore).unclaimed = s.unclaimed + 1 := by
    change s.value + 1 + s.grants = s.value + s.grants + 1
    omega
  cases hwake : BoundedSemaphore.wakeUpNext { s with value := s.value + 1 } with
  | none => exact ⟨hfreed, rfl, rfl⟩
  | some next =>
    obtain ⟨hunclaimed, hlength, hbound⟩ := wakeUpNext_spec hwake (Nat.succ_pos _)
    exact ⟨hunclaimed.trans hfreed, hlength, hbound⟩

theorem unclaimed_of_no_waiters (h : s.waiters.length = 0) : s.unclaimed = s.value := by
  rw [unclaimed, grants, List.length_eq_zero_iff.mp h]
  rfl

end BoundedSemaphore
