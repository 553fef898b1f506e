import CommerceCollector.Proxy.AttemptAccounts

/-!
# Attempts are accounted exactly once

In every run of calls interleaved statement by statement, what a statement writes is one of the ways
in which the ledger keeps its accounts, and what a call answers is true from then on.  The locks of
a call make the rows that it has read the current ones when it writes.
-/

namespace CommerceCollector

open Relational Transaction Tasks

namespace AttemptTask

/-- The reconciliation that a task carries out. -/
def reconciliation : AttemptTask → Option ReconcileCall
  | .called (.reconcile c) | .recordActuals c _ | .spendActuals c _ | .readUsage c _
  | .replay c _ => some c
  | _ => none

/-- The call of a task asks for the maximum of requests that `cap` gives for its reservation. -/
def WithinCap (cap : Uuid → Option ℤ) : AttemptTask → Prop
  | .called (.authorize c) | .checkProfile c | .checkRoute c | .lockReservation c
  | .sumPending c _ | .insertAttempt c _ => ∀ m ∈ cap c.reservationId, c.maximumRequests = some m
  | _ => True

end AttemptTask

/-- The request asks for the maximum of requests that `cap` gives for its reservation. -/
def AttemptRequest.WithinCap (cap : Uuid → Option ℤ) (request : AttemptRequest) : Prop :=
  ∀ c, request = .call (.authorize c) → ∀ m ∈ cap c.reservationId, c.maximumRequests = some m

namespace AttemptStore

/-! ## What the statements write and answer -/

/-- What an answer says about the attempts. -/
def Told (l : ProxyLedger) : AttemptCall × Except String AttemptAnswer → Prop
  | (.authorize c, .ok (.authorized (some id))) =>
    ∃ a ∈ l.authorizations, a.id = id ∧ a.reservationId = c.reservationId ∧
      a.estimatedBytes = c.estimatedBytes.toNat
  | (.reconcile c, .ok _) =>
    ∃ a ∈ l.authorizations, a.id = c.authorizationId ∧ a.state = .reconciled ∧
      a.actualBytes = some c.actualBytes.toNat ∧
        a.physicalRequests = some c.physicalRequests.toNat
  | (.release id, .ok _) => ∃ a ∈ l.authorizations, a.id = id ∧ a.state = .released
  | _ => True

/-- What a statement writes, and that what it answers is true. -/
structure Acts (cap : Uuid → Option ℤ) (s : AttemptStore)
    (r : AttemptStore × Option AttemptTask) : Prop where
  writes : s.ledger.Writes cap r.1.ledger
  told : ∀ entry ∈ r.1.answers, entry ∈ s.answers ∨ Told r.1.ledger entry
  capped : ∀ t' ∈ r.2, t'.WithinCap cap

section Acts

variable {cap : Uuid → Option ℤ} {s s' : AttemptStore} {t : AttemptTask}

theorem acts_read {r : AttemptStore × Option AttemptTask} (hledger : r.1.ledger = s.ledger)
    (hanswers : r.1.answers = s.answers) (hcapped : ∀ t' ∈ r.2, t'.WithinCap cap) :
    Acts cap s r := by
  refine ⟨?_, fun entry hentry => Or.inl ?_, hcapped⟩
  · rw [hledger]
    exact .nothing
  · rw [← hanswers]
    exact hentry

theorem acts_finish (hwrites : s.ledger.Writes cap s'.ledger) (hanswers : s'.answers = s.answers)
    {c : AttemptCall} {answer : Except String AttemptAnswer} (htold : Told s'.ledger (c, answer)) :
    Acts cap s (s'.finish t c answer) := by
  refine ⟨hwrites, fun entry hentry => ?_, fun _ ht' => nomatch ht'⟩
  rcases List.mem_append.mp hentry with hold | hnew
  · rw [← hanswers]
    exact Or.inl hold
  · rw [List.mem_singleton.mp hnew]
    exact Or.inr htold

theorem acts_raise (c : AttemptCall) (e : String) : Acts cap s (s.finish t c (.error e)) := by
  apply acts_finish .nothing rfl
  cases c <;> trivial

theorem acts_goOn {ε : Type} {c : AttemptCall} {r : Except String ε}
    {next : ε → AttemptStore × Option AttemptTask} (h : ∀ a, r = .ok a → Acts cap s (next a)) :
    Acts cap s (s.goOn t c r next) := by
  cases r with
  | ok a => exact h a rfl
  | error e => exact acts_raise c e

theorem acts_lockAuthorization (c : ReconcileCall) :
    Acts cap s (s.lockAuthorization (.called (.reconcile c)) c) := by
  unfold lockAuthorization
  split
  · exact acts_raise _ _
  · split
    · exact acts_read rfl rfl (by simp [AttemptTask.WithinCap])
    · split
      · exact acts_raise _ _
      · dsimp only
        split
        · exact acts_raise _ _
        · exact acts_read rfl rfl (by simp [AttemptTask.WithinCap])
        · exact acts_read rfl rfl (by simp [AttemptTask.WithinCap])

theorem acts_releasePending (id : Uuid) :
    Acts cap s (s.releasePending (.called (.release id)) id) := by
  unfold releasePending
  split
  · exact acts_read rfl rfl (by simp [AttemptTask.WithinCap])
  · dsimp only
    split
    · next hopen =>
      obtain ⟨a, ha, hpending⟩ := List.any_eq_true.mp hopen
      have hid : a.id = id := by
        rw [Bool.and_eq_true, beq_iff_eq] at hpending
        exact hpending.1
      apply acts_finish
      · exact .released id
      · rfl
      · exact ⟨_, mem_update_of_pos ha hpending, hid, rfl⟩
    · exact acts_read rfl rfl (by simp [AttemptTask.WithinCap])

/-- **What a statement writes and answers.** -/
theorem acts_run (h : s.Holds t) (hcap : t.WithinCap cap) (reply : AttemptReply) :
    Acts cap s (s.run t reply) := by
  have hread : ∀ {t' : AttemptTask}, t'.WithinCap cap → Acts cap s (s, some t') := by
    intro t' ht'
    refine acts_read rfl rfl ?_
    rintro _ ⟨⟩
    exact ht'
  cases reply with
  | lost => exact acts_read rfl rfl (by simp [run])
  | next now =>
    change Acts cap s (s.proceed now t)
    cases t with
    | called c =>
      cases c with
      | authorize c => exact acts_goOn fun _ _ => hread hcap
      | reconcile c => exact acts_lockAuthorization c
      | release id => exact acts_releasePending id
    | checkProfile c => exact acts_goOn fun _ _ => hread hcap
    | checkRoute c => exact acts_goOn fun _ _ => hread hcap
    | lockReservation c =>
      unfold proceed
      dsimp only
      split
      · exact hread hcap
      · refine acts_goOn fun row _ => acts_read rfl rfl ?_
        rintro _ ⟨⟩
        exact hcap
    | sumPending c row =>
      unfold proceed
      dsimp only
      split
      · exact acts_finish .nothing rfl trivial
      · exact hread hcap
    | insertAttempt c row =>
      apply acts_finish
      · exact .inserted c row h.1.read h.2 hcap
      · rfl
      · exact ⟨_, List.mem_append_right _ (List.mem_singleton_self _), rfl, rfl, rfl⟩
    | recordActuals c row => exact hread trivial
    | spendActuals c row =>
      unfold proceed
      dsimp only
      split
      · exact hread trivial
      · refine acts_read rfl rfl ?_
        rintro _ ⟨⟩
        trivial
    | readUsage c row =>
      have hid : row.id = c.authorizationId := h.1.id
      have hread : s.ledger.authorization row.id = some row := hid ▸ h.1.read
      have hmem : row ∈ s.ledger.authorizations := (mem_of_find? hread).1
      apply acts_goOn
      intro usage _
      apply acts_finish
      · exact .resolved row _ _ hread h.1.state
      · rfl
      · exact ⟨_, mem_update_of_pos hmem (beq_self_eq_true _), hid, rfl, rfl, rfl⟩
    | replay c row =>
      have hmem : row ∈ s.ledger.authorizations := (mem_of_find? h.read).1
      unfold proceed
      dsimp only
      split
      · next hsame =>
        refine acts_goOn fun usage _ => acts_finish .nothing rfl ?_
        exact ⟨row, hmem, h.id, h.state, hsame.1, hsame.2⟩
      · exact acts_raise _ _
    | readState id =>
      unfold proceed
      dsimp only
      split
      · exact acts_raise _ _
      · next row hrow =>
        obtain ⟨hmem, hfound⟩ := mem_of_find? hrow
        split
        · next hreleased =>
          exact acts_finish .nothing rfl ⟨row, hmem, beq_iff_eq.mp hfound, hreleased⟩
        · exact acts_raise _ _
    | other a =>
      unfold proceed
      dsimp only
      split
      · next hother => exact ⟨.other a hother.1, fun _ hentry => Or.inl hentry, by simp⟩
      · exact hread trivial

end Acts

/-! ## Runs -/

/-- The accounts are kept, and every answer was true. -/
structure Recorded (cap : Uuid → Option ℤ) (s : AttemptStore) : Prop where
  accounted : s.ledger.Accounted cap
  told : ∀ entry ∈ s.answers, Told s.ledger entry

section Runs

variable {cap : Uuid → Option ℤ} {s : AttemptStore} {t : AttemptTask}

theorem Told.writes {l l' : ProxyLedger} (hwrites : l.Writes cap l')
    (hkeyed : Keyed AttemptAuthorization.id l.authorizations)
    {entry : AttemptCall × Except String AttemptAnswer} (h : Told l entry) : Told l' entry := by
  obtain ⟨c, answer⟩ := entry
  cases answer with
  | error e => cases c <;> trivial
  | ok answer =>
    cases c with
    | authorize c =>
      cases answer with
      | authorized id =>
        cases id with
        | none => trivial
        | some id =>
          obtain ⟨a, ha, hid, hreservation, hestimate⟩ := h
          obtain ⟨a', ha', hresolves⟩ := hwrites.resolves hkeyed ha
          exact ⟨a', ha', hresolves.id.trans hid, hresolves.reservationId.trans hreservation,
            hresolves.estimatedBytes.trans hestimate⟩
      | reconciled usage => trivial
      | released => trivial
    | reconcile c =>
      obtain ⟨a, ha, hid, hstate, hactual⟩ := h
      obtain ⟨a', ha', hresolves⟩ := hwrites.resolves hkeyed ha
      obtain rfl := hresolves.final (by simp [hstate])
      exact ⟨a', ha', hid, hstate, hactual⟩
    | release id =>
      obtain ⟨a, ha, hid, hstate⟩ := h
      obtain ⟨a', ha', hresolves⟩ := hwrites.resolves hkeyed ha
      obtain rfl := hresolves.final (by simp [hstate])
      exact ⟨a', ha', hid, hstate⟩

theorem Recorded.acts (h : s.Recorded cap) {r : AttemptStore × Option AttemptTask}
    (hacts : Acts cap s r) : r.1.Recorded cap := by
  refine ⟨h.accounted.writes hacts.writes, fun entry hentry => ?_⟩
  rcases hacts.told entry hentry with hold | hnew
  · exact (h.told entry hold).writes hacts.writes h.accounted.authorizations
  · exact hnew

theorem respects_attempts (cap : Uuid → Option ℤ) :
    attemptProgram.Respects (Recorded cap) (fun s t => s.Holds t ∧ t.WithinCap cap) Apart
      (AttemptRequest.WithinCap cap) (fun _ _ _ => True) := by
  constructor
  case symm =>
    intro t u h
    exact ⟨fun id hid ht => h.reservation id ht hid, fun id hid ht => h.authorization id ht hid⟩
  case start =>
    intro s request hrequest _
    cases request with
    | call c =>
      cases c with
      | authorize c => exact ⟨trivial, hrequest c rfl⟩
      | reconcile c => exact ⟨trivial, trivial⟩
      | release id => exact ⟨trivial, trivial⟩
    | other a => exact ⟨trivial, trivial⟩
  case apart =>
    intro request u
    cases request <;>
      exact ⟨fun id _ hid => absurd hid (by simp [attemptProgram, AttemptTask.reservationLock]),
        fun id _ hid => absurd hid (by simp [attemptProgram, AttemptTask.authorizationLock])⟩
  case shared =>
    intro s t reply _ h ht
    exact h.acts (acts_run ht.1 ht.2 reply)
  case own =>
    intro s t reply _ _ ht t' ht'
    exact ⟨(proceeds_run ht.1 reply).holds t' ht', (acts_run ht.1 ht.2 reply).capped t' ht'⟩
  case other =>
    intro s t reply _ _ ht u hu hapart
    have hproceeds := proceeds_run ht.1 reply
    exact ⟨⟨hproceeds.spares.holds hu.1 hapart, hu.2⟩,
      fun t' ht' => hproceeds.apart hu.1 hapart ht'⟩

/-- What a reconciliation answers about an attempt that was reconciled before. -/
def Repeats (c : ReconcileCall) (row : AttemptAuthorization) : Prop :=
  (0 ≤ c.actualBytes ∧ 0 ≤ c.physicalRequests) ∧ row.actualBytes = some c.actualBytes.toNat ∧
    row.physicalRequests = some c.physicalRequests.toNat

/-- A statement of a reconciliation changes nothing, and if it is the last one, accepts the actuals
iff they repeat those of the row. -/
structure Replays (s : AttemptStore) (c : ReconcileCall) (row : AttemptAuthorization)
    (s' : AttemptStore) : Prop where
  ledger : s'.ledger = s.ledger
  answers : s'.answers = s.answers ∨ ∃ answer, s'.answers = s.answers ++ [(.reconcile c, answer)] ∧
    ((∃ usage, answer = .ok (.reconciled usage)) ↔ Repeats c row)

theorem replays_raise {c : ReconcileCall} {row : AttemptAuthorization} (h : ¬ Repeats c row)
    (e : String) : Replays s c row (s.finish t (.reconcile c) (.error e)).1 := by
  refine ⟨rfl, Or.inr ⟨_, rfl, iff_of_false ?_ h⟩⟩
  rintro ⟨usage, husage⟩
  exact absurd husage (by simp)

/-- **A reconciled attempt is not reconciled again.** -/
theorem run_replays (h : s.Recorded cap) (ht : s.Holds t) {c : ReconcileCall}
    (hcall : t.reconciliation = some c) {row : AttemptAuthorization}
    (hrow : s.ledger.authorization c.authorizationId = some row) (hstate : row.state = .reconciled)
    (now : Time) : Replays s c row (s.run t (.next now)).1 := by
  have hpending : ∀ {c' : ReconcileCall} {row' : AttemptAuthorization}, c' = c →
      ¬ s.LockedAuthorization c' row' .authorized := by
    rintro c' row' rfl hlocked
    obtain rfl : row' = row := Option.some.inj (hlocked.read.symm.trans hrow)
    exact absurd (hlocked.state.symm.trans hstate) (by simp)
  cases t with
  | called c' =>
    cases c' with
    | authorize c' => exact absurd hcall (by simp [AttemptTask.reconciliation])
    | release id => exact absurd hcall (by simp [AttemptTask.reconciliation])
    | reconcile c' =>
      obtain rfl : c' = c := Option.some.inj hcall
      change Replays s c' row (s.lockAuthorization _ c').1
      unfold lockAuthorization
      split
      · next hnegative =>
        apply replays_raise
        rintro ⟨hactual, -⟩
        omega
      · split
        · exact ⟨rfl, Or.inl rfl⟩
        · rw [hrow]
          dsimp only
          rw [hstate]
          exact ⟨rfl, Or.inl rfl⟩
  | recordActuals c' row' => exact absurd ht (hpending (Option.some.inj hcall))
  | spendActuals c' row' => exact absurd ht (hpending (Option.some.inj hcall))
  | readUsage c' row' => exact absurd ht.1 (hpending (Option.some.inj hcall))
  | replay c' row' =>
    obtain rfl : c' = c := Option.some.inj hcall
    obtain rfl : row' = row := Option.some.inj (ht.read.symm.trans hrow)
    change Replays s c' row' (s.proceed now (.replay c' row')).1
    unfold proceed
    dsimp only
    split
    · next hsame =>
      obtain ⟨r, hr, hid⟩ := h.accounted.home row' (mem_of_find? hrow).1
      have hfound : s.ledger.reservation row'.reservationId = some r := by
        rw [← hid]
        exact h.accounted.reservations.find?_eq_some hr
      unfold ProxyLedger.usage
      rw [hfound]
      exact ⟨rfl, Or.inr ⟨_, rfl, iff_of_true ⟨_, rfl⟩ ⟨ht.actual, hsame⟩⟩⟩
    · next hother => exact replays_raise (fun hrepeats => hother hrepeats.2) _
  | checkProfile c' => exact absurd hcall (by simp [AttemptTask.reconciliation])
  | checkRoute c' => exact absurd hcall (by simp [AttemptTask.reconciliation])
  | lockReservation c' => exact absurd hcall (by simp [AttemptTask.reconciliation])
  | sumPending c' r => exact absurd hcall (by simp [AttemptTask.reconciliation])
  | insertAttempt c' r => exact absurd hcall (by simp [AttemptTask.reconciliation])
  | readState id => exact absurd hcall (by simp [AttemptTask.reconciliation])
  | other a => exact absurd hcall (by simp [AttemptTask.reconciliation])

variable {p : Pool AttemptStore AttemptTask}

theorem writes_step
    (h : Program.Free (Recorded cap) (fun s t => s.Holds t ∧ t.WithinCap cap) Apart p)
    (turn : Turn AttemptRequest AttemptReply) :
    p.shared.ledger.Writes cap (attemptProgram.step p turn).shared.ledger := by
  rcases attemptProgram.step_cases p turn with heq | ⟨request, -, heq⟩ |
    ⟨i, reply, before, t, rest, -, -, hsplit, heq⟩
  · rw [heq]
    exact .nothing
  · rw [heq]
    exact .nothing
  · rw [heq]
    have ht := h.each t (hsplit ▸ List.mem_append_right _ (by simp))
    exact (acts_run ht.1 ht.2 reply).writes

theorem within_none (request : AttemptRequest) : request.WithinCap fun _ => none := by
  intro c _ m hm
  exact absurd hm (by simp)

theorem free_after
    (h : Program.Free (Recorded cap) (fun s t => s.Holds t ∧ t.WithinCap cap) Apart p)
    (turns : List (Turn AttemptRequest AttemptReply))
    (hcap : ∀ request, Turn.spawn request ∈ turns → request.WithinCap cap) :
    Program.Free (Recorded cap) (fun s t => s.Holds t ∧ t.WithinCap cap) Apart
      (attemptProgram.after p turns) := by
  apply (respects_attempts cap).after h hcap
  apply Trace.along_of_forall
  rintro (request | ⟨i, reply⟩) _ q
  · trivial
  · exact fun _ _ => trivial

/-- **A resolved attempt never changes again.** -/
theorem stays_resolved
    (h : Program.Free (Recorded fun _ => none) (fun s t => s.Holds t ∧ t.WithinCap fun _ => none)
      Apart p) {a : AttemptAuthorization} (ha : a ∈ p.shared.ledger.authorizations)
    (hstate : a.state ≠ .authorized) (turns : List (Turn AttemptRequest AttemptReply)) :
    a ∈ (attemptProgram.after p turns).shared.ledger.authorizations := by
  induction turns generalizing p with
  | nil => exact ha
  | cons turn turns ih =>
    obtain ⟨a', ha', hresolves⟩ :=
      (writes_step h turn).resolves h.shared.accounted.authorizations ha
    rw [hresolves.final hstate] at ha'
    refine ih (free_after h [turn] fun request _ => within_none request) ha'

end Runs

end AttemptStore

/-! ## The accounts of a run -/

/-- The calls after a run that starts before the first reservation. -/
def attemptsAfter (l : ProxyLedger) (turns : List (Turn AttemptRequest AttemptReply)) :
    Pool AttemptStore AttemptTask :=
  attemptProgram.after ⟨{ ledger := { l with reservations := [], authorizations := [] } }, []⟩ turns

theorem free_attemptsAfter (cap : Uuid → Option ℤ) (l : ProxyLedger)
    (turns : List (Turn AttemptRequest AttemptReply))
    (hcap : ∀ request, Turn.spawn request ∈ turns → request.WithinCap cap) :
    Program.Free (AttemptStore.Recorded cap) (fun s t => s.Holds t ∧ t.WithinCap cap)
      AttemptStore.Apart (attemptsAfter l turns) := by
  apply AttemptStore.free_after (Program.Free.of_shared ?_) turns hcap
  refine ⟨⟨List.nodup_nil, List.nodup_nil, fun a ha => ?_, fun r hr => ?_⟩, fun entry h => ?_⟩
  · exact absurd ha (by simp)
  · exact absurd hr (by simp)
  · exact absurd h (by simp)

/-- An open reservation whose authorizations all ask for the same maximum has at most that many
attempts, if each is one request. -/
theorem attempts_le_maximum {l : ProxyLedger} {turns : List (Turn AttemptRequest AttemptReply)}
    {r : ProxyReservation} (hr : r ∈ (attemptsAfter l turns).shared.ledger.reservations)
    (hheld : r.held = true) {m : ℤ}
    (hfixed : ∀ c, Turn.spawn (.call (.authorize c)) ∈ turns → c.reservationId = r.id →
      c.maximumRequests = some m)
    (hsingle : ∀ a ∈ (attemptsAfter l turns).shared.ledger.authorizations,
      a.reconciledOn r.id = true → a.physicalRequests = some 1) :
    (attemptsAfter l turns).shared.ledger.reconciledAttempts r.id +
      (attemptsAfter l turns).shared.ledger.pendingRequests r.id ≤ m.toNat := by
  have hfree := free_attemptsAfter (fun id => if id = r.id then some m else none) l turns
    (by
      rintro _ hspawn c rfl n hn
      have hcap : (if c.reservationId = r.id then some m else none) = some n := hn
      by_cases hid : c.reservationId = r.id
      · rw [if_pos hid] at hcap
        exact (hfixed c hspawn hid).trans hcap
      · rw [if_neg hid] at hcap
        exact absurd hcap (by simp))
  obtain ⟨-, hrequests, -, hturns⟩ := hfree.shared.accounted.accurate r hr hheld
  have hlimit := hturns m (by simp)
  have hcount : (attemptsAfter l turns).shared.ledger.reconciledRequests r.id =
      (attemptsAfter l turns).shared.ledger.reconciledAttempts r.id := by
    rw [ProxyLedger.reconciledRequests, ProxyLedger.reconciledAttempts, countP_eq_total]
    refine total_congr fun a ha => ?_
    unfold share
    split
    · next hon => simp [hsingle a ha hon]
    · rfl
  have hexcess : (attemptsAfter l turns).shared.ledger.excessRequests r.id = 0 := by
    rw [ProxyLedger.excessRequests, total_eq_sum]
    refine List.sum_eq_zero fun x hx => ?_
    obtain ⟨a, ha, rfl⟩ := List.mem_map.mp hx
    unfold share
    split
    · next hon => simp [hsingle a ha hon]
    · rfl
  omega

/-- An open reservation is not overdrawn while every actual is within its estimate. -/
theorem bytes_le_reserved {l : ProxyLedger} {turns : List (Turn AttemptRequest AttemptReply)}
    {r : ProxyReservation} (hr : r ∈ (attemptsAfter l turns).shared.ledger.reservations)
    (hheld : r.held = true)
    (hwithin : ∀ a ∈ (attemptsAfter l turns).shared.ledger.authorizations,
      a.reconciledOn r.id = true → a.actualBytes.getD 0 ≤ a.estimatedBytes) :
    r.estimatedBytes + (attemptsAfter l turns).shared.ledger.pendingBytes r.id ≤
      r.reservedBytes := by
  have hfree := free_attemptsAfter (fun _ => none) l turns
    fun request _ => AttemptStore.within_none request
  obtain ⟨-, -, hroom, -⟩ := hfree.shared.accounted.accurate r hr hheld
  have hexcess : (attemptsAfter l turns).shared.ledger.excessBytes r.id = 0 := by
    rw [ProxyLedger.excessBytes, total_eq_sum]
    refine List.sum_eq_zero fun x hx => ?_
    obtain ⟨a, ha, rfl⟩ := List.mem_map.mp hx
    unfold share
    split
    · next hon => exact Nat.sub_eq_zero_of_le (hwithin a ha hon)
    · rfl
  omega

/-- **Exactly once.**  In every run of calls interleaved statement by statement, an attempt that was
released or reconciled never changes again, and no attempt was answered to be both.  A
reconciliation of a reconciled attempt changes nothing and accepts the same actuals only.  The
counters of an open reservation are the sums over its reconciled attempts; with the pending attempts
they stay within the reserved bytes if no actual exceeds its estimate, and within the maximum of
requests if it is fixed and every attempt is one request. -/
theorem attempts_exactly_once (l : ProxyLedger) (turns : List (Turn AttemptRequest AttemptReply)) :
    let p := attemptsAfter l turns
    let table := p.shared.ledger
    (Keyed AttemptAuthorization.id table.authorizations ∧
      ∀ a ∈ table.authorizations, a.state ≠ .authorized →
        ∀ more, a ∈ (attemptsAfter l (turns ++ more)).shared.ledger.authorizations) ∧
    (∀ c answer answer', (.reconcile c, .ok answer) ∈ p.shared.answers →
      (.release c.authorizationId, .ok answer') ∉ p.shared.answers) ∧
    (∀ i t c row now, p.tasks[i]? = some t → t.reconciliation = some c →
      table.authorization c.authorizationId = some row → row.state = .reconciled →
      p.shared.Replays c row (attemptProgram.step p (.resume i (.next now))).shared) ∧
    ∀ r ∈ table.reservations, r.held = true →
      r.estimatedBytes = table.reconciledBytes r.id ∧
      r.requestCount = table.reconciledRequests r.id ∧
      ((∀ a ∈ table.authorizations, a.reconciledOn r.id = true →
          a.actualBytes.getD 0 ≤ a.estimatedBytes) →
        r.estimatedBytes + table.pendingBytes r.id ≤ r.reservedBytes) ∧
      ∀ m : ℤ, (∀ c, Turn.spawn (.call (.authorize c)) ∈ turns → c.reservationId = r.id →
          c.maximumRequests = some m) →
        (∀ a ∈ table.authorizations, a.reconciledOn r.id = true → a.physicalRequests = some 1) →
        table.reconciledAttempts r.id + table.pendingRequests r.id ≤ m.toNat := by
  intro p table
  have hfree : Program.Free _ _ _ p := free_attemptsAfter (fun _ => none) l turns
    fun request _ => AttemptStore.within_none request
  have hkeyed := hfree.shared.accounted.authorizations
  refine ⟨⟨hkeyed, fun a ha hstate more => ?_⟩, fun c answer answer' hreconcile hrelease => ?_,
    fun i t c row now hi hcall hrow hstate => ?_, fun r hr hheld => ?_⟩
  · have hmore : attemptsAfter l (turns ++ more) = attemptProgram.after p more :=
      Trace.exec_append _ _ turns more
    rw [hmore]
    exact AttemptStore.stays_resolved hfree ha hstate more
  · obtain ⟨a, ha, hid, hstate, -⟩ := hfree.shared.told _ hreconcile
    obtain ⟨b, hb, hid', hstate'⟩ := hfree.shared.told _ hrelease
    obtain rfl : a = b := hkeyed.eq_of_mem ha hb (hid.trans hid'.symm)
    exact absurd (hstate.symm.trans hstate') (by simp)
  · have ht : t ∈ p.tasks := List.mem_of_getElem? hi
    have hstep : (attemptProgram.step p (.resume i (.next now))).shared =
        (p.shared.run t (.next now)).1 := by
      simp [Program.step, hi, attemptProgram]
    rw [hstep]
    exact AttemptStore.run_replays hfree.shared (hfree.each t ht).1 hcall hrow hstate now
  · obtain ⟨hbytes, hrequests, -, -⟩ := hfree.shared.accounted.accurate r hr hheld
    exact ⟨hbytes, hrequests, bytes_le_reserved hr hheld,
      fun m hfixed hsingle => attempts_le_maximum hr hheld hfixed hsingle⟩

end CommerceCollector
