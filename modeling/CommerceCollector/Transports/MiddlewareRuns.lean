import CommerceCollector.Transports.MiddlewareAccounts

/-!
# Runs of the middleware

What a step of a call does to the accounts, to the call itself and to the other calls.  Every
attempt that no call has under way is accounted for, and when no attempt is under way the budget has
nothing reserved.
-/

namespace CommerceCollector

open Relational Tasks

namespace MiddlewareTransport

open TransportTask

variable {config : MiddlewareConfig} {s s' : MiddlewareTransport}

/-- **What a step does** that a call with this number and this attempt under way makes. -/
structure Advances (config : MiddlewareConfig) (s : MiddlewareTransport) (call attempt : Option ℕ)
    (r : MiddlewareTransport × Option TransportTask) : Prop where
  sound : r.1.Sound config
  relies : ∀ t' ∈ r.2, r.1.Relies config t'
  calls : s.calls ≤ r.1.calls
  count : ∀ i < s.calls, call ≠ some i →
    r.1.attempts.countP (fun a => a.call == i) ≤ s.attempts.countP fun a => a.call == i
  other : ∀ a ∈ s.attempts, attempt ≠ some a.id → a ∈ r.1.attempts
  sameCall : ∀ t' ∈ r.2, ∀ i, t'.call? = some i → call = some i ∨ s.calls ≤ i
  sameAttempt : ∀ t' ∈ r.2, ∀ i, t'.attempt? = some i → attempt = some i ∨ s.attempts.length ≤ i
  unsettled : ∀ a ∈ r.1.attempts, a.settled = false →
    (∃ t' ∈ r.2, t'.attempt? = some a.id) ∨ (a ∈ s.attempts ∧ attempt ≠ some a.id)

/-! ## The kinds of steps -/

variable {t' : TransportTask}

theorem Advances.next (hs : s.Sound config) {call : Option ℕ} (hrelies : s.Relies config t')
    (hcall : t'.call? = call) (hattempt : t'.attempt? = none) :
    Advances config s call none (s, some t') where
  sound := hs
  relies := by
    rintro _ ⟨⟩
    exact hrelies
  calls := le_rfl
  count _ _ _ := le_rfl
  other _ ha _ := ha
  sameCall := by
    rintro _ ⟨⟩ i hi
    exact Or.inl (hcall.symm.trans hi)
  sameAttempt := by
    rintro _ ⟨⟩ i hi
    cases hattempt.symm.trans hi
  unsettled _ ha _ := Or.inr ⟨ha, nofun⟩

theorem Advances.done (hs : s.Sound config) (call : Option ℕ) :
    Advances config s call none (s, none) :=
  ⟨hs, nofun, le_rfl, fun _ _ _ => le_rfl, fun _ ha _ => ha, nofun, nofun,
    fun _ ha _ => Or.inr ⟨ha, nofun⟩⟩

theorem Advances.within (hs : s'.Sound config) {call : Option ℕ} {id : ℕ} (hframe : Frame id s s')
    (hrelies : s'.Relies config t') (hcall : ∀ i, t'.call? = some i → call = some i)
    (hattempt : t'.attempt? = some id) : Advances config s call (some id) (s', some t') where
  sound := hs
  relies := by
    rintro _ ⟨⟩
    exact hrelies
  calls := hframe.calls.ge
  count i _ _ := (hframe.count i).le
  other a ha hne := (hframe.other a fun h => hne (congrArg some h.symm)).mpr ha
  sameCall := by
    rintro _ ⟨⟩ i hi
    exact Or.inl (hcall i hi)
  sameAttempt := by
    rintro _ ⟨⟩ i hi
    exact Or.inl (hattempt.symm.trans hi)
  unsettled a ha _ := by
    by_cases hid : a.id = id
    · exact Or.inl ⟨t', rfl, hid ▸ hattempt⟩
    · exact Or.inr ⟨(hframe.other a hid).mp ha, fun h => hid (Option.some.inj h).symm⟩

theorem Advances.settled {call : Option ℕ} {id : ℕ} (hframe : Frame id s s')
    (hdone : ∀ b ∈ s'.attempts, b.settled = false → b.id ≠ id)
    {r : MiddlewareTransport × Option TransportTask} (h : Advances config s' call none r) :
    Advances config s call (some id) r where
  sound := h.sound
  relies := h.relies
  calls := hframe.calls ▸ h.calls
  count i hi hne := (h.count i (hframe.calls.symm ▸ hi) hne).trans (hframe.count i).le
  other a ha hne :=
    h.other a ((hframe.other a fun heq => hne (congrArg some heq.symm)).mpr ha) nofun
  sameCall t' ht' i hi := (h.sameCall t' ht' i hi).imp_right fun hle => hframe.calls ▸ hle
  sameAttempt t' ht' i hi :=
    Or.inr ((h.sameAttempt t' ht' i hi).elim nofun fun hle => hframe.length ▸ hle)
  unsettled a ha hopen := by
    rcases h.unsettled a ha hopen with hnext | ⟨hold, -⟩
    · exact Or.inl hnext
    · have hid := hdone a hold hopen
      exact Or.inr ⟨(hframe.other a hid).mp hold, fun heq => hid (Option.some.inj heq).symm⟩

/-! ## The beginning of an attempt -/

/-- The state in which an attempt has begun. -/
def withAttempt (s : MiddlewareTransport) (c : TransportCall) (budget : Option MemoryRequestBudget)
    (authorization : Option ℕ) : MiddlewareTransport :=
  { s with budget, attempts := s.attempts ++ [newAttempt c s.attempts.length authorization] }

variable {c : TransportCall}

theorem Used.withAttempt {k : ℕ} (h : s.Used c.id k) (budget : Option MemoryRequestBudget)
    (authorization : Option ℕ) : (s.withAttempt c budget authorization).Used c.id (k + 1) := by
  refine ⟨h.1, ?_⟩
  have hle := h.2
  simp only [MiddlewareTransport.withAttempt, List.countP_append, List.countP_singleton, newAttempt,
    BEq.rfl, ↓reduceIte]
  omega

theorem open_withAttempt (s : MiddlewareTransport) (c : TransportCall)
    (budget : Option MemoryRequestBudget) (authorization : Option ℕ) :
    (s.withAttempt c budget authorization).Open c s.attempts.length 0 false :=
  ⟨_, List.mem_append_right _ (List.mem_singleton_self _), rfl, rfl, rfl, rfl, rfl, rfl, rfl, rfl⟩

theorem Sound.dispatch (hs : s.Sound config) {attempt id permits : ℕ}
    (hused : s.Used c.id (attempt + 1)) (hk : attempt ≤ config.retries)
    (hopen : s.Open c id permits false) (hpermits : permits = config.concurrency.isSome.toNat) :
    Sound config (s.record id fun a => { a with dispatched := true }) ∧
      Relies config (s.record id fun a => { a with dispatched := true }) (.dispatched c attempt id) := by
  obtain ⟨a, ha, rfl, horigin, hset, hrec, hrel, hback, hheld, -⟩ := hopen
  refine ⟨hs.flag ha keeps_dispatched rfl rfl rfl fun h => ?_, ⟨hused.1, ?_⟩, hk, ?_⟩
  · exact absurd (hset.symm.trans h) Bool.false_ne_true
  · rw [countP_record keeps_dispatched]
    exact hused.2
  · exact ⟨{ a with dispatched := true }, mem_update_of_pos ha (by simp), rfl, horigin, hset, hrec,
      hrel, hback, hheld.trans hpermits, rfl⟩

theorem Advances.opened (hs : s'.Sound config) {budget : Option MemoryRequestBudget}
    {authorization : Option ℕ}
    (hframe : Frame s.attempts.length (s.withAttempt c budget authorization) s')
    (hrelies : s'.Relies config t') (hcall : t'.call? = some c.id)
    (hattempt : t'.attempt? = some s.attempts.length) (hsound : s.Sound config) :
    Advances config s (some c.id) none (s', some t') where
  sound := hs
  relies := by
    rintro _ ⟨⟩
    exact hrelies
  calls := hframe.calls.ge
  count i _ hne := by
    have hcount := hframe.count i
    have hother : ¬c.id = i := fun h => hne (congrArg some h)
    simp only [MiddlewareTransport.withAttempt, List.countP_append, List.countP_singleton,
      newAttempt, beq_iff_eq, hother, ↓reduceIte] at hcount
    exact hcount.le
  other a ha _ := (hframe.other a (hsound.id_lt ha).ne).mpr (List.mem_append_left _ ha)
  sameCall := by
    rintro _ ⟨⟩ i hi
    exact Or.inl (hcall.symm.trans hi)
  sameAttempt := by
    rintro _ ⟨⟩ i hi
    exact Or.inr (Option.some.inj (hattempt.symm.trans hi)).le
  unsettled a ha _ := by
    by_cases hid : a.id = s.attempts.length
    · exact Or.inl ⟨t', rfl, hid ▸ hattempt⟩
    · rcases List.mem_append.mp ((hframe.other a hid).mp ha) with hold | hnew
      · exact Or.inr ⟨hold, (Option.some_ne_none _).symm⟩
      · rw [List.mem_singleton.mp hnew] at hid
        exact absurd rfl hid

variable {attempt : ℕ}

section

variable (hs : s.Sound config)

include hs

theorem Sound.enter (hused : s.Used c.id attempt)
    (hk : attempt ≤ config.retries) {budget : Option MemoryRequestBudget} {authorization : Option ℕ}
    (hbegun : (s.withAttempt c budget authorization).Sound config) :
    Advances config s (some c.id) none
      (MiddlewareTransport.enter config { s with budget } c attempt authorization) := by
  have hused' := hused.withAttempt budget authorization
  have hopen := open_withAttempt s c budget authorization
  cases hconc : config.concurrency with
  | some n =>
    have heq : MiddlewareTransport.enter config { s with budget } c attempt authorization =
        (s.withAttempt c budget authorization, some (.permit c attempt s.attempts.length)) := by
      simp only [MiddlewareTransport.enter, hconc]
      rfl
    rw [heq]
    exact Advances.opened hbegun (Frame.refl _ _) ⟨hused', hk, hopen⟩ rfl rfl hs
  | none =>
    have heq : MiddlewareTransport.enter config { s with budget } c attempt authorization =
        (s.withAttempt c budget authorization).dispatch c attempt s.attempts.length := by
      simp only [MiddlewareTransport.enter, hconc]
      rfl
    obtain ⟨hsound, hrelies⟩ := hbegun.dispatch hused' hk hopen (by simp [hconc])
    rw [heq]
    exact Advances.opened hsound (Frame.record keeps_dispatched) hrelies rfl rfl hs

/-- **The beginning of an attempt.** -/
theorem Sound.beginAttempt (hused : s.Used c.id attempt)
    (hk : attempt ≤ config.retries) :
    Advances config s (some c.id) none (s.beginAttempt config c attempt) := by
  unfold MiddlewareTransport.beginAttempt
  cases hb : s.budget with
  | none =>
    have hbegun : (s.withAttempt c none none).Sound config :=
      hs.begin hused hk nofun fun _ => ⟨hb, rfl⟩
    have hsame : { s with budget := none } = s := by rw [← hb]
    have henter := hs.enter hused hk hbegun
    rwa [hsame] at henter
  | some b =>
    dsimp only
    cases hauth : b.authorize c.input.estimatedBytes with
    | none => exact Advances.done hs _
    | some granted =>
      obtain ⟨b', id⟩ := granted
      have hbegun : (s.withAttempt c (some b') (some id)).Sound config := by
        refine hs.begin hused hk (fun b'' hb'' => ?_) nofun
        obtain rfl := Option.some.inj hb''
        exact BudgetOf.authorize (hs.budget b hb) hauth
      exact hs.enter hused hk hbegun

/-! ## The end of an attempt -/

theorem Advances.caching (hc : c.id < s.calls) (p : Prop) [Decidable p] :
    Advances config s (some c.id) none (s, if p then some (.caching c) else none) := by
  split
  · exact Advances.next hs hc rfl rfl
  · exact Advances.done hs _

theorem Sound.afterResponse (hused : s.Used c.id (attempt + 1))
    (hk : attempt ≤ config.retries) (status : ℕ) :
    Advances config s (some c.id) none (s.afterResponse config c attempt status) := by
  unfold MiddlewareTransport.afterResponse
  split
  · exact Advances.caching hs hused.1 _
  · split
    · exact Advances.caching hs hused.1 _
    · rename_i hretry
      have hlt : attempt < config.retries := lt_of_le_of_ne hk fun heq => hretry (Or.inr heq)
      split
      · exact Advances.next hs ⟨hused, hlt⟩ rfl rfl
      · exact Advances.next hs ⟨hused, hlt⟩ rfl rfl

theorem Sound.afterFailure (hused : s.Used c.id (attempt + 1))
    (hk : attempt ≤ config.retries) :
    Advances config s (some c.id) none (s.afterFailure config c attempt) := by
  unfold MiddlewareTransport.afterFailure
  split
  · exact Advances.done hs _
  · rename_i hretry
    have hlt : attempt < config.retries := lt_of_le_of_ne hk hretry
    split
    · exact Advances.next hs ⟨hused, hlt⟩ rfl rfl
    · exact Advances.next hs ⟨hused, hlt⟩ rfl rfl

end

theorem Used.of_frame {id call k : ℕ} (h : s.Used call k) (hframe : Frame id s s') :
    s'.Used call k :=
  ⟨hframe.calls ▸ h.1, (hframe.count call).trans_le h.2⟩

/-- **The backend has answered.** -/
theorem Sound.answered (hs : s.Sound config) {attempt id : ℕ} (hused : s.Used c.id (attempt + 1))
    (hk : attempt ≤ config.retries) (hopen : s.Open c id config.concurrency.isSome.toNat true)
    (reply : BackendReply) :
    Advances config s (some c.id) (some id) (s.answered config c attempt id reply) := by
  obtain ⟨a, ha, rfl, horigin, hset, hrec, hrel, hback, hheld, hdispatched⟩ := hopen
  have hpermits : a.permits = a.permitsReleased + config.concurrency.isSome.toNat := by
    rw [hback, hheld, Nat.zero_add]
  have hfinish := hs.finish ha horigin hset hrec hrel config.concurrency.isSome hpermits
  rw [hdispatched] at hfinish
  cases reply with
  | response status contentBytes =>
    obtain ⟨hquiet, hsound, hframe, hdone⟩ := hfinish contentBytes
    refine Advances.settled hframe hdone ?_
    unfold MiddlewareTransport.answered
    dsimp only
    split
    · exact Advances.done hsound _
    · exact hsound.afterResponse (hused.of_frame hframe) hk status
  | bodyTooLarge receivedBytes =>
    obtain ⟨-, hsound, hframe, hdone⟩ := hfinish receivedBytes
    exact Advances.settled hframe hdone (Advances.done hsound _)
  | transportFailure =>
    obtain ⟨hquiet, hsound, hframe, hdone⟩ := hfinish 0
    refine Advances.settled hframe hdone ?_
    unfold MiddlewareTransport.answered
    dsimp only
    split
    · exact Advances.done hsound _
    · exact hsound.afterFailure (hused.of_frame hframe) hk
  | failure =>
    obtain ⟨-, hsound, hframe, hdone⟩ := hfinish 0
    exact Advances.settled hframe hdone (Advances.done hsound _)

/-! ## One step -/

theorem Sound.afterRobots (hs : s.Sound config) (hused : s.Used c.id 0) :
    Advances config s (some c.id) none (s.afterRobots config c) := by
  unfold MiddlewareTransport.afterRobots
  split
  · exact Advances.next hs hused rfl rfl
  · exact hs.beginAttempt hused (Nat.zero_le _)

theorem Sound.numbered (hs : s.Sound config) :
    Sound config { s with calls := s.calls + 1 } ∧ Used { s with calls := s.calls + 1 } s.calls 0 := by
  refine ⟨⟨hs.keyed, fun a ha => Nat.lt_succ_of_lt (hs.known a ha), hs.limited, hs.settled,
    hs.permits, hs.budget, hs.unbudgeted⟩, Nat.lt_succ_self _, ?_⟩
  rw [Nat.le_zero, List.countP_eq_zero]
  intro a ha heq
  exact absurd (hs.known a ha) (beq_iff_eq.mp heq).not_lt

theorem Advances.numbered {r : MiddlewareTransport × Option TransportTask}
    (h : Advances config { s with calls := s.calls + 1 } (some s.calls) none r) :
    Advances config s none none r where
  sound := h.sound
  relies := h.relies
  calls := (Nat.le_succ _).trans h.calls
  count i hi _ := h.count i (Nat.lt_succ_of_lt hi) fun heq => hi.ne (Option.some.inj heq).symm
  other a ha _ := h.other a ha nofun
  sameCall t' ht' i hi := by
    rcases h.sameCall t' ht' i hi with heq | hle
    · exact Or.inr (Option.some.inj heq).le
    · exact Or.inr ((Nat.le_succ _).trans hle)
  sameAttempt := h.sameAttempt
  unsettled := h.unsettled

/-- **What a step of a call does.** -/
theorem Sound.run (hs : s.Sound config) {t : TransportTask} (ht : s.Relies config t)
    (reply : TransportReply) : Advances config s t.call? t.attempt? (s.run config t reply) := by
  cases t with
  | called input =>
    obtain ⟨hnumbered, hused⟩ := hs.numbered
    have hgoes : Advances config s none none
        (if config.robots = true ∧ input.robots = false then
          ({ s with calls := s.calls + 1 }, some (.robots { id := s.calls, input }))
        else MiddlewareTransport.afterRobots config { s with calls := s.calls + 1 }
          { id := s.calls, input }) := by
      refine Advances.numbered ?_
      split
      · exact Advances.next hnumbered hused rfl rfl
      · exact hnumbered.afterRobots (c := { id := s.calls, input }) hused
    cases reply with
    | cancelled => exact Advances.done hs none
    | raised => exact hgoes
    | returned allowed hit stale sleeps backend => exact hgoes
  | robots c =>
    cases reply with
    | cancelled => exact Advances.done hs _
    | raised => exact Advances.done hs _
    | returned allowed hit stale sleeps backend =>
      simp only [MiddlewareTransport.run]
      split
      · exact hs.afterRobots ht
      · exact Advances.done hs _
  | lookup c =>
    cases reply with
    | cancelled => exact Advances.done hs _
    | raised => exact Advances.done hs _
    | returned allowed hit stale sleeps backend =>
      simp only [MiddlewareTransport.run]
      split
      · exact Advances.done hs _
      · cases stale with
        | none => exact hs.beginAttempt ht (Nat.zero_le _)
        | some contentBytes =>
          dsimp only
          split
          · exact Advances.done hs _
          · exact hs.beginAttempt (c := { c with stale := true }) ht (Nat.zero_le _)
  | permit c attempt id =>
    obtain ⟨hused, hk, hopen⟩ := ht
    have hended : Advances config s (some c.id) (some id) ((s.finish c id false false 0).1, none) := by
      obtain ⟨a, ha, rfl, horigin, hset, hrec, hrel, hback, hheld, hdispatched⟩ := hopen
      have hfinish := hs.finish ha horigin hset hrec hrel false (hheld.trans hback.symm) 0
      rw [hdispatched] at hfinish
      obtain ⟨-, hsound, hframe, hdone⟩ := hfinish
      exact Advances.settled hframe hdone (Advances.done hsound _)
    cases reply with
    | cancelled => exact hended
    | raised => exact hended
    | returned allowed hit stale sleeps backend =>
      simp only [MiddlewareTransport.run]
      split
      · rename_i hroom
        have hsome : config.concurrency.isSome = true := by
          cases hconc : config.concurrency with
          | none => simp [hconc] at hroom
          | some n => rfl
        have hframe : Frame id s (s.takePermit c.input.origin id) := Frame.record keeps_permits
        obtain ⟨a, ha, rfl, horigin, hset, hrec, hrel, hback, hheld, hdispatched⟩ := hopen
        have htaken := hs.takePermit ha hset hheld hback
        rw [horigin] at htaken
        have hopen' : (s.takePermit c.input.origin a.id).Open c a.id 1 false :=
          ⟨{ a with permits := a.permits + 1 }, mem_update_of_pos ha (by simp), rfl, horigin, hset,
            hrec, hrel, hback, by rw [hheld], hdispatched⟩
        have hused' := hused.of_frame hframe
        split
        · exact Advances.within htaken hframe ⟨hused', hk, hopen', hsome⟩ (fun _ hi => hi) rfl
        · obtain ⟨hsound, hrelies⟩ := htaken.dispatch hused' hk hopen' (by simp [hsome])
          exact Advances.within hsound (hframe.trans (Frame.record keeps_dispatched)) hrelies
            (fun _ hi => hi) rfl
      · exact Advances.within hs (Frame.refl _ _) ⟨hused, hk, hopen⟩ (fun _ hi => hi) rfl
  | pacing c attempt id =>
    obtain ⟨hused, hk, hopen, hsome⟩ := ht
    have hended : Advances config s (some c.id) (some id)
        (((s.givePermit c.input.origin id).finish c id false false 0).1, none) := by
      obtain ⟨a, ha, rfl, horigin, hset, hrec, hrel, hback, hheld, hdispatched⟩ := hopen
      obtain ⟨hgiven, -⟩ := hs.givePermit ha hset (by rw [hheld, hback])
      rw [horigin] at hgiven
      have hmem : { a with permitsReleased := a.permitsReleased + 1 } ∈
          (s.givePermit c.input.origin a.id).attempts := mem_update_of_pos ha (by simp)
      have hfinish := hgiven.finish hmem horigin hset hrec hrel false
        (by simp [hheld, hback]) 0
      simp only [hdispatched] at hfinish
      obtain ⟨-, hsound, hframe, hdone⟩ := hfinish
      exact Advances.settled ((Frame.record keeps_permitsReleased).trans hframe) hdone
        (Advances.done hsound _)
    cases reply with
    | cancelled => exact hended
    | raised => exact hended
    | returned allowed hit stale sleeps backend =>
      obtain ⟨hsound, hrelies⟩ := hs.dispatch hused hk hopen (by simp [hsome])
      exact Advances.within hsound (Frame.record keeps_dispatched) hrelies (fun _ hi => hi) rfl
  | dispatched c attempt id =>
    obtain ⟨hused, hk, hopen⟩ := ht
    cases reply with
    | cancelled => exact hs.answered hused hk hopen .failure
    | raised => exact hs.answered hused hk hopen .failure
    | returned allowed hit stale sleeps backend => exact hs.answered hused hk hopen backend
  | rotating c attempt =>
    cases reply with
    | cancelled => exact Advances.done hs _
    | raised => exact Advances.done hs _
    | returned allowed hit stale sleeps backend => exact Advances.next hs ht rfl rfl
  | sleeping c attempt =>
    cases reply with
    | cancelled => exact Advances.done hs _
    | raised => exact Advances.done hs _
    | returned allowed hit stale sleeps backend => exact hs.beginAttempt ht.1 ht.2
  | caching c => exact Advances.done hs _

end MiddlewareTransport

/-! ## Runs -/

open MiddlewareTransport TransportTask

variable {config : MiddlewareConfig}

/-- The calls keep the accounts, each keeps what it relies on, and any two are apart. -/
theorem transport_respects (config : MiddlewareConfig) :
    (transportProgram config).Respects (Sound config) (Relies config) Apart (fun _ => True)
      fun _ _ _ => True where
  symm _ _ h := h.symm
  start _ _ _ _ := trivial
  apart _ _ := ⟨nofun, nofun⟩
  shared _ _ reply _ hs ht := (hs.run ht reply).sound
  own _ _ reply _ hs ht := (hs.run ht reply).relies
  other s t reply _ hs ht u hu hapart := by
    have hrun := hs.run ht reply
    refine ⟨hu.of_same hrun.calls (fun i hi => ?_) fun a ha hid => ?_, fun t' ht' => ⟨?_, ?_⟩⟩
    · exact hrun.count i (hu.lt hi) fun heq => hapart.call i i hi heq rfl
    · exact hrun.other a ha fun heq => hapart.attempt _ _ hid heq rfl
    · intro i j hi hj
      rcases hrun.sameCall t' ht' j hj with hold | hnew
      · exact hapart.call i j hi hold
      · exact (lt_of_lt_of_le (hu.lt hi) hnew).ne
    · intro i j hi hj
      rcases hrun.sameAttempt t' ht' j hj with hold | hnew
      · exact hapart.attempt i j hi hold
      · exact (lt_of_lt_of_le (hu.attempt_lt hs hi) hnew).ne

theorem sound_created (config : MiddlewareConfig) (budget : Option (Option ℤ × Option ℤ)) :
    Sound config { budget := budget.map fun caps =>
      { maximumRequests := caps.1, maximumBytes := caps.2 } } where
  keyed := rfl
  known := nofun
  limited _ := Nat.zero_le _
  settled := nofun
  permits _ := rfl
  budget b hb := by
    obtain ⟨caps, -, rfl⟩ := Option.map_eq_some_iff.mp hb
    exact ⟨rfl, rfl, rfl, fun id e => by simp, nofun, nofun⟩
  unbudgeted _ := nofun

theorem transport_free (config : MiddlewareConfig) (budget : Option (Option ℤ × Option ℤ))
    (turns : List (Turn MiddlewareInput TransportReply)) :
    Program.Free (Sound config) (Relies config) Apart (transportAfter config budget turns) :=
  (transport_respects config).after (Program.Free.of_shared (sound_created config budget))
    (fun _ _ => trivial) ((transportProgram config).along_trivial _ turns)

/-- The attempts with a number that are not settled. -/
def openAttempts (id : ℕ) (s : MiddlewareTransport) : ℕ :=
  s.attempts.countP fun a => a.id == id && !a.settled

/-- A call has the attempt with a number under way. -/
def underWay (id : ℕ) (t : TransportTask) : ℕ := if t.attempt? = some id then 1 else 0

theorem openAttempts_le_one {s : MiddlewareTransport} (hs : s.Sound config) (id : ℕ) :
    openAttempts id s ≤ 1 := by
  have hcount : openAttempts id s ≤ (s.attempts.map fun a => a.id).count id := by
    rw [List.count_eq_countP, List.countP_map]
    refine List.countP_mono_left fun a _ ha => ?_
    exact (Bool.and_eq_true_iff.mp ha).1
  rw [hs.keyed] at hcount
  exact hcount.trans (List.nodup_iff_count_le_one.mp List.nodup_range id)

theorem openAttempts_pos {s : MiddlewareTransport} {id : ℕ} :
    0 < openAttempts id s ↔ ∃ a ∈ s.attempts, a.id = id ∧ a.settled = false := by
  simp [openAttempts, List.countP_pos_iff]

theorem open_covered (config : MiddlewareConfig) (budget : Option (Option ℤ × Option ℤ))
    (turns : List (Turn MiddlewareInput TransportReply)) (id : ℕ) :
    openAttempts id (transportAfter config budget turns).shared ≤
      Program.owed (underWay id) (transportAfter config budget turns) := by
  refine (transport_respects config).covered (fun s t reply _ hs ht => ?_)
    (Program.Free.of_shared (sound_created config budget)) (Nat.zero_le _) (fun _ _ => trivial)
    ((transportProgram config).along_trivial _ turns)
  have hrun := hs.run ht reply
  have hone := openAttempts_le_one hrun.sound id
  by_cases hnext : ∃ t' ∈ (s.run config t reply).2, t'.attempt? = some id
  · obtain ⟨t', ht', hid⟩ := hnext
    refine Or.inl ?_
    have hsome : ((transportProgram config).run s t reply).2 = some t' := ht'
    have howes : underWay id t' = 1 := if_pos hid
    rw [hsome, Option.map_some, Option.getD_some, howes]
    exact hone
  · -- What is still open was open before, and is another attempt than that of the call.
    have hold : 0 < openAttempts id (s.run config t reply).1 →
        0 < openAttempts id s ∧ t.attempt? ≠ some id := by
      intro hpos
      obtain ⟨a, ha, rfl, hopen⟩ := openAttempts_pos.mp hpos
      rcases hrun.unsettled a ha hopen with hgoes | ⟨hmem, hne⟩
      · exact absurd hgoes hnext
      · exact ⟨openAttempts_pos.mpr ⟨a, hmem, rfl, hopen⟩, hne⟩
    rcases Nat.eq_zero_or_pos (openAttempts id (s.run config t reply).1) with hzero | hpos
    · exact Or.inl (hzero.trans_le (Nat.zero_le _))
    · obtain ⟨hbefore, hne⟩ := hold hpos
      refine Or.inr ?_
      have hmine : underWay id t = 0 := if_neg hne
      have hrest : openAttempts id ((transportProgram config).run s t reply).1 ≤ 1 := hone
      omega

/-- **An attempt is settled, or a call has it under way.** -/
theorem settled_or_underWay (config : MiddlewareConfig) (budget : Option (Option ℤ × Option ℤ))
    (turns : List (Turn MiddlewareInput TransportReply)) :
    ∀ a ∈ (transportAfter config budget turns).shared.attempts, a.settled = true ∨
      ∃ t ∈ (transportAfter config budget turns).tasks, t.attempt? = some a.id := by
  intro a ha
  cases hopen : a.settled with
  | true => exact Or.inl rfl
  | false =>
    have hpos := openAttempts_pos.mpr ⟨a, ha, rfl, hopen⟩
    obtain ⟨t, ht, hw⟩ :=
      Program.exists_of_owed (hpos.trans_le (open_covered config budget turns a.id))
    refine Or.inr ⟨t, ht, ?_⟩
    by_contra hne
    simp [underWay, hne] at hw

variable {a : TransportAttempt}

theorem open_of_underWay {p : Pool MiddlewareTransport TransportTask}
    (hfree : Program.Free (Sound config) (Relies config) Apart p) {t : TransportTask}
    (ht : t ∈ p.tasks) (ha : a ∈ p.shared.attempts) (hid : t.attempt? = some a.id) :
    a.reconciled = [] ∧ a.released = 0 ∧ a.permitsReleased = 0 := by
  have hopen : ∀ c id permits dispatched, p.shared.Open c id permits dispatched →
      some id = some a.id → a.reconciled = [] ∧ a.released = 0 ∧ a.permitsReleased = 0 := by
    rintro c id permits dispatched ⟨b, hb, rfl, -, -, hrec, hrel, hback, -⟩ heq
    obtain rfl := hfree.shared.nodup.eq_of_mem hb ha (Option.some.inj heq)
    exact ⟨hrec, hrel, hback⟩
  have hrelies := hfree.each t ht
  cases t with
  | permit c n id => exact hopen c id 0 false hrelies.2.2 hid
  | pacing c n id => exact hopen c id 1 false hrelies.2.2.1 hid
  | dispatched c n id => exact hopen c id _ true hrelies.2.2 hid
  | called input => cases hid
  | robots c => cases hid
  | lookup c => cases hid
  | rotating c n => cases hid
  | sleeping c n => cases hid
  | caching c => cases hid

/-- What an attempt that is accounted for adds to the counters of the budget. -/
theorem counters_of_accounted (h : a.Accounted) :
    a.pending = false ∧ a.granted = a.reconciled.length := by
  have hrec := h.reconciled
  have hrel := h.released
  have hempty : a.reconciled.isEmpty = !(a.authorization.isSome && a.dispatched) := by
    cases hlist : a.reconciled <;> rw [hlist] at hrec <;>
      cases hboth : a.authorization.isSome && a.dispatched <;> simp [hboth] at hrec ⊢
  rw [TransportAttempt.pending, TransportAttempt.granted, hempty, hrec, hrel]
  cases a.authorization.isSome <;> cases a.dispatched <;> decide

theorem once_of_accounted (h : a.Accounted) :
    a.reconciled.length + a.released ≤ 1 ∧ a.permitsReleased ≤ a.permits := by
  refine ⟨?_, h.permits.le⟩
  rw [h.reconciled, h.released]
  cases a.authorization.isSome <;> cases a.dispatched <;> decide

/-- **The accounts of the middleware.**  In every run of any number of calls a call reaches the
backend at most `retries + 1` times; no authorization is resolved twice and no permit is released
that was not acquired; an attempt that is over has its authorization resolved once, by `reconcile`
if and only if the backend was called, and its permit released as often as it was acquired; and when
no attempt is under way the budget has nothing reserved and has counted what was reconciled. -/
theorem transport_accounted (config : MiddlewareConfig) (budget : Option (Option ℤ × Option ℤ))
    (turns : List (Turn MiddlewareInput TransportReply)) :
    let p := transportAfter config budget turns
    (∀ call, p.shared.attempts.countP (fun a => a.call == call && a.dispatched) ≤
      config.retries + 1) ∧
    (∀ a ∈ p.shared.attempts,
      a.reconciled.length + a.released ≤ 1 ∧ a.permitsReleased ≤ a.permits) ∧
    (∀ a ∈ p.shared.attempts, (∀ t ∈ p.tasks, t.attempt? ≠ some a.id) → a.Accounted) ∧
    ∀ b ∈ p.shared.budget, (∀ t ∈ p.tasks, t.attempt? = none) →
      b.reservedBytes = 0 ∧ b.authorizations = [] ∧
      b.requests = (total everyRow (fun a => a.reconciled.length) p.shared.attempts : ℤ) ∧
      b.bytes = (total everyRow (fun a => a.reconciled.sum) p.shared.attempts : ℤ) := by
  intro p
  have hfree : Program.Free (Sound config) (Relies config) Apart p :=
    transport_free config budget turns
  have hsound := hfree.shared
  have hover : ∀ a ∈ p.shared.attempts, (∀ t ∈ p.tasks, t.attempt? ≠ some a.id) → a.Accounted := by
    intro a ha hnone
    rcases settled_or_underWay config budget turns a ha with hset | ⟨t, ht, hid⟩
    · exact hsound.settled a ha hset
    · exact absurd hid (hnone t ht)
  refine ⟨fun call => ?_, fun a ha => ?_, hover, fun b hb hidle => ?_⟩
  · refine (List.countP_mono_left fun a _ ha => ?_).trans (hsound.limited call)
    exact (Bool.and_eq_true_iff.mp ha).1
  · rcases settled_or_underWay config budget turns a ha with hset | ⟨t, ht, hid⟩
    · exact once_of_accounted (hsound.settled a ha hset)
    · obtain ⟨hrec, hrel, hback⟩ := open_of_underWay hfree ht ha hid
      simp [hrec, hrel, hback]
  · have hall : ∀ a ∈ p.shared.attempts, a.Accounted := fun a ha =>
      hover a ha fun t ht heq => by cases (hidle t ht).symm.trans heq
    have hbudget := hsound.budget b hb
    have hpending : ∀ a ∈ p.shared.attempts, a.pending = false := fun a ha =>
      (counters_of_accounted (hall a ha)).1
    refine ⟨?_, ?_, ?_, hbudget.bytes⟩
    · have hzero : total everyRow TransportAttempt.reserved p.shared.attempts = 0 := by
        rw [total_eq_sum]
        refine List.sum_eq_zero fun x hx => ?_
        obtain ⟨a, ha, rfl⟩ := List.mem_map.mp hx
        simp [share, TransportAttempt.reserved, hpending a ha]
      rw [hbudget.reserved, hzero]
      rfl
    · refine List.eq_nil_iff_forall_not_mem.mpr fun entry hentry => ?_
      obtain ⟨a, ha, -, hopen, -⟩ := (hbudget.entries entry.1 entry.2).mp hentry
      exact Bool.false_ne_true ((hpending a ha).symm.trans hopen)
    · rw [hbudget.requests]
      have hsame : total everyRow TransportAttempt.granted p.shared.attempts =
          total everyRow (fun a => a.reconciled.length) p.shared.attempts :=
        total_congr fun a ha => by simp [share, (counters_of_accounted (hall a ha)).2]
      rw [hsame]

end CommerceCollector
