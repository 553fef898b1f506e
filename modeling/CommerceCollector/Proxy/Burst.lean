import CommerceCollector.Proxy.LeaseReturn

/-!
# A burst of failures over one lease

The retry loop of `MiddlewareTransport.request` over the routed transport.  A failed attempt asks
for a new identity by `rotate_identity_for_request`, which carries the request but not the
generation on which the attempt was dispatched; `_schedule_rotation`, the sibling inside of the
routed transport, compares the two generations.

What the loop awaits besides the routed transport (the robots policy, the cache, the budget, the
rate limiter and the back-off) does not touch that transport: such an await returns, or the call
ends.
-/

namespace CommerceCollector

open Relational Tasks RoutedTransport

/-- What the loop reads of a request; `stale` says that a stale response may be used in place of a
failed one. -/
structure MiddlewareRequest where
  routed : RoutedRequest
  retries : ℕ
  stale : Bool := false
  deriving DecidableEq, Repr

/-- A call of the middleware, or of the routed transport by its owner. -/
inductive MiddlewareCall
  | request (m : MiddlewareRequest)
  | rotateIdentity (reason : RotationReason)
  | aclose
  deriving DecidableEq, Repr

/-- The await at which a call is suspended. -/
inductive MiddlewareTask
  /-- The robots policy and the cache. -/
  | requested (m : MiddlewareRequest)
  /-- The budget and the rate limiter, before an attempt. -/
  | preparing (m : MiddlewareRequest) (attempt : ℕ)
  /-- The backend's `request`. -/
  | attempting (m : MiddlewareRequest) (attempt : ℕ) (t : RoutedTask)
  /-- The `finally` of an attempt: the rate limiter and the budget. -/
  | settling (m : MiddlewareRequest) (attempt : ℕ) (result : RoutedResult)
  /-- The backend's `rotate_identity_for_request`. -/
  | rotating (m : MiddlewareRequest) (attempt : ℕ) (t : RoutedTask)
  /-- `sleep`. -/
  | backoff (m : MiddlewareRequest) (attempt : ℕ)
  /-- A call of the routed transport, or a check-in that was left behind. -/
  | calling (t : RoutedTask)
  deriving DecidableEq, Repr

/-- The generation on which an attempt was dispatched. -/
def RoutedResult.generation? : RoutedResult → Option ℕ
  | response _ generation | failed _ generation => generation
  | done => none

namespace MiddlewareTask

/-- The call of the routed transport. -/
def routed? : MiddlewareTask → Option RoutedTask
  | attempting _ _ t | rotating _ _ t | calling t => some t
  | _ => none

/-- The attempt is followed by another one. -/
def retried (m : MiddlewareRequest) (attempt : ℕ) (result : RoutedResult) : Bool :=
  attempt != m.retries &&
    match result with
    | .failed .transportFailure _ => true
    | .response status _ => [403, 429, 500, 502, 503, 504].contains status
    | _ => false

/-- The identity that a failed attempt asks for. -/
def asked (m : MiddlewareRequest) : RoutedResult → Option RotationReason
  | .failed .transportFailure _ => if m.stale = true then none else some .transportFailure
  | .response 403 _ => some .blocked
  | .response 429 _ => if m.stale = true then none else some .rateLimited
  | _ => none

/-- A call of the routed transport goes on as part of a call of the middleware. -/
def inner (suspended : RoutedTask → MiddlewareTask)
    (finished : RoutedResult → Option MiddlewareTask) :
    RoutedTransport × RoutedNext → RoutedTransport × Option MiddlewareTask
  | (s, .goOn t) => (s, some (suspended t))
  | (s, .ended result) => (s, finished result)
  | (s, .endedLeaving _ t) => (s, some (.calling t))

variable (config : RoutingConfig)

/-- `_rotate_identity` is called. -/
def afterRotation (m : MiddlewareRequest) (attempt : ℕ) : RoutedResult → Option MiddlewareTask
  | .failed _ _ => none
  | _ => some (.backoff m attempt)

/-- The `finally` of an attempt is done. -/
def settled (s : RoutedTransport) (m : MiddlewareRequest) (attempt : ℕ) (result : RoutedResult) :
    RoutedTransport × Option MiddlewareTask :=
  if retried m attempt result = true then
    match asked m result with
    | some reason =>
      inner (.rotating m attempt) (afterRotation m attempt)
        (s.begin config (.rotateIdentity reason result.generation?))
    | none => (s, some (.backoff m attempt))
  else (s, none)

/-- A call goes on to its next await. -/
def run (s : RoutedTransport) (t : MiddlewareTask) (reply : RoutedReply) :
    RoutedTransport × Option MiddlewareTask :=
  match t with
  | requested m =>
    match reply with
    | .returned _ => (s, some (.preparing m 0))
    | _ => (s, none)
  | preparing m attempt =>
    match reply with
    | .returned _ =>
      inner (.attempting m attempt) (fun result => some (.settling m attempt result))
        (s.begin config (.request m.routed))
    | _ => (s, none)
  | attempting m attempt t =>
    inner (.attempting m attempt) (fun result => some (.settling m attempt result))
      (s.run config t reply)
  | settling m attempt result =>
    match reply with
    | .returned _ => settled config s m attempt result
    | _ => (s, none)
  | rotating m attempt t =>
    inner (.rotating m attempt) (afterRotation m attempt) (s.run config t reply)
  | backoff m attempt =>
    match reply with
    | .returned _ => (s, some (.preparing m (attempt + 1)))
    | _ => (s, none)
  | calling t => inner .calling (fun _ => none) (s.run config t reply)

/-- The first await of a call. -/
def start : MiddlewareCall → MiddlewareTask
  | .request m => .requested m
  | .rotateIdentity reason => .calling (.called (.rotateIdentity reason none))
  | .aclose => .calling (.called .aclose)

/-- The generation on which the failure was observed because of which a new identity is asked
for. -/
def observed? : MiddlewareTask → Option ℕ
  | settling m attempt result =>
    if retried m attempt result = true ∧ (asked m result).isSome = true then result.generation?
    else none
  | attempting _ _ t | rotating _ _ t | calling t => t.observed?
  | _ => none

/-- The new identity that the call asks for is asked for because of the lease in use. -/
def AsksFresh (t : MiddlewareTask) (s : RoutedTransport) : Prop := s.ObservedInUse t.observed?

instance (s : RoutedTransport) (t : MiddlewareTask) : Decidable (t.AsksFresh s) :=
  inferInstanceAs (Decidable (s.ObservedInUse t.observed?))

end MiddlewareTask

/-- The calls of the middleware. -/
def middlewareProgram (config : RoutingConfig) :
    Program RoutedTransport MiddlewareTask MiddlewareCall RoutedReply where
  start := MiddlewareTask.start
  run := MiddlewareTask.run config

/-- The transport after a run, from its creation. -/
def middlewareAfter (config : RoutingConfig) (turns : List (Turn MiddlewareCall RoutedReply)) :
    Pool RoutedTransport MiddlewareTask :=
  (middlewareProgram config).after ⟨{}, []⟩ turns

/-! ## The failure behind a rotation -/

namespace RoutedTransport

/-- Every rotation was asked for because of its own generation, and so is the one that is
pending. -/
structure Timely (s : RoutedTransport) : Prop where
  rotations : ∀ r ∈ s.rotations, ∀ g ∈ r.observed, g = r.generation
  pending : s.pendingRotation ≠ none → s.lease.isSome = true →
    ∀ g ∈ s.pendingObserved, g = s.generation

/-- The rotation that a task is about to ask for is timely, and none is pending meanwhile. -/
structure TimelyTask (s : RoutedTransport) (t : RoutedTask) : Prop where
  rotation : ∀ r, t.rotation? = some r → ∀ g ∈ r.observed, g = r.generation
  pending : t.transits = true → t.closes = false → s.pendingRotation = none

theorem TimelyTask.of_not {s : RoutedTransport} {t : RoutedTask} (h : t.transits = false) :
    s.TimelyTask t where
  rotation _ hr := absurd (h.symm.trans (transits_of_rotation hr)) Bool.false_ne_true
  pending htrue := absurd (h.symm.trans htrue) Bool.false_ne_true

theorem TimelyTask.of_pending {s s' : RoutedTransport} {t : RoutedTask} (h : s.TimelyTask t)
    (hpending : s'.pendingRotation = s.pendingRotation) : s'.TimelyTask t where
  rotation := h.rotation
  pending htrue hcloses := hpending.trans (h.pending htrue hcloses)

theorem not_transits_of_route {t : RoutedTask} {route : CheckedOutRoute}
    (h : t.route? = some route) : t.transits = false := by
  cases t <;> first | rfl | cases h

variable {waits fresh : Prop}

/-- **A step keeps the rotations timely,** if it requests none because of another generation. -/
theorem RouteStep.timely {s s' : RoutedTransport} {t : RoutedTask} {next : Option RoutedTask}
    (h : RouteStep waits fresh s t s' next) (hfresh : fresh) (hs : s.Sound ∧ s.Timely)
    (ht : s.Relies t ∧ s.TimelyTask t) :
    Kept (fun s => s.Sound ∧ s.Timely) (fun s t => s.Relies t ∧ s.TimelyTask t) s t s' next := by
  -- The other half of the invariant is that of the transport.
  have hboth : ∀ {s s' : RoutedTransport} {t : RoutedTask} {next : Option RoutedTask},
      RouteStep waits fresh s t s' next → s.Sound → s.Relies t → s'.Timely →
      (∀ t' ∈ next, s'.TimelyTask t') →
      (∀ u, s.Relies u → Apart u t → s.TimelyTask u → s'.TimelyTask u) →
      Kept (fun s => s.Sound ∧ s.Timely) (fun s t => s.Relies t ∧ s.TimelyTask t) s t s' next := by
    intro s s' t next hstep hs ht htimely hown hother
    have hkept := hstep.kept hs ht
    exact ⟨⟨hkept.sound, htimely⟩, fun t' ht' => ⟨hkept.own t' ht', hown t' ht'⟩,
      fun u hu hK => ⟨⟨(hkept.other u hu.1 hK).1, hother u hu.1 hK hu.2⟩, (hkept.other u hu.1 hK).2⟩⟩
  have hidle : ∀ {s : RoutedTransport} {next : Option RoutedTask}, (∀ t' ∈ next, t'.Idle) →
      ∀ t' ∈ next, s.TimelyTask t' := fun hnext t' ht' => .of_not (hnext t' ht').2.1
  induction h with
  | idle hi hnext => exact hboth (.idle hi hnext) hs.1 ht.1 hs.2 (hidle hnext) fun _ _ _ hu => hu
  | wait =>
    exact hboth .wait hs.1 ht.1 hs.2 (fun _ ht' => Option.some.inj ht' ▸ ht.2) fun _ _ _ hu => hu
  | giveUp h => exact hboth (.giveUp h) hs.1 ht.1 hs.2 (by simp) fun _ _ _ hu => hu
  | pass hroute hroute' hstage =>
    exact hboth (.pass hroute hroute' hstage) hs.1 ht.1 hs.2
      (fun _ ht' => Option.some.inj ht' ▸ .of_not (not_transits_of_route hroute')) fun _ _ _ hu => hu
  | record hroute hroute' hkeep hkept hstage =>
    exact hboth (.record hroute hroute' hkeep hkept hstage) hs.1 ht.1 { hs.2 with }
      (fun _ ht' => Option.some.inj ht' ▸ .of_not (not_transits_of_route hroute'))
      fun _ _ _ hu => hu.of_pending rfl
  | checkIn hroute hstage hnext =>
    exact hboth (.checkIn hroute hstage hnext) hs.1 ht.1 { hs.2 with } (hidle hnext)
      fun _ _ _ hu => hu.of_pending rfl
  | checkOut hi hclosed htransitioning hlease hpending hroute hstage =>
    exact hboth (.checkOut hi hclosed htransitioning hlease hpending hroute hstage) hs.1 ht.1
      { hs.2 with } (fun _ ht' => Option.some.inj ht' ▸ .of_not (not_transits_of_route hroute))
      fun _ _ _ hu => hu.of_pending rfl
  | acquire hi hclosed htransitioning hlease hactive =>
    exact hboth (.acquire hi hclosed htransitioning hlease hactive) hs.1 ht.1
      { hs.2 with pending := fun h => absurd rfl h }
      (fun _ ht' => Option.some.inj ht' ▸ ⟨nofun, fun _ _ => rfl⟩)
      fun _ hu _ _ => .of_not (hu.not_transits htransitioning)
  | @replaceRoute s t user lease hi hclosed htransitioning hlease hpending hactive =>
    refine hboth (.replaceRoute hi hclosed htransitioning hlease hpending hactive) hs.1 ht.1
      { hs.2 with pending := fun h => absurd rfl h } (fun _ ht' => ?_)
      fun _ hu _ _ => .of_not (hu.not_transits htransitioning)
    obtain rfl := Option.some.inj ht'
    refine ⟨fun r hr g hg => ?_, fun _ _ => rfl⟩
    obtain rfl := Option.some.inj hr
    exact hs.2.pending hpending (by simp [hlease]) g hg
  | request hi hclosed htransitioning hgeneration =>
    exact hboth (.request hi hclosed htransitioning hgeneration) hs.1 ht.1
      { hs.2 with pending := fun _ hlease => hgeneration hfresh hlease }
      (fun _ ht' => Option.some.inj ht' ▸ .of_not hi)
      fun _ hu _ _ => .of_not (hu.not_transits htransitioning)
  | close hi =>
    exact hboth (.close hi) hs.1 ht.1 { hs.2 with }
      (fun _ ht' => Option.some.inj ht' ▸ .of_not rfl) fun _ _ _ hu => hu.of_pending rfl
  | closeEmpty htransitioning hlease =>
    exact hboth (.closeEmpty htransitioning hlease) hs.1 ht.1 hs.2 (by simp) fun _ _ _ hu => hu
  | closeLease htransitioning hactive hlease =>
    exact hboth (.closeLease htransitioning hactive hlease) hs.1 ht.1
      { hs.2 with pending := fun _ h => absurd h Bool.false_ne_true }
      (fun _ ht' => Option.some.inj ht' ▸ ⟨nofun, nofun⟩) fun _ _ _ hu => hu.of_pending rfl
  | release hlease htransits hnone hroute hrotation hcloses =>
    refine hboth (.release hlease htransits hnone hroute hrotation hcloses) hs.1 ht.1 { hs.2 with }
      (fun _ ht' => ?_) fun _ _ _ hu => hu.of_pending rfl
    obtain rfl := Option.some.inj ht'
    exact ⟨by simp [hrotation], fun _ h => ht.2.pending (transits_of_lease hlease) (hcloses ▸ h)⟩
  | @rotate s user lease rotation =>
    refine hboth .rotate hs.1 ht.1 { hs.2 with rotations := fun r hr => ?_ }
      (fun _ ht' => Option.some.inj ht' ▸ ⟨nofun, fun _ _ => ht.2.pending rfl rfl⟩)
      fun _ _ _ hu => hu.of_pending rfl
    rcases List.mem_append.mp hr with hold | hnew
    · exact hs.2.rotations r hold
    · rw [List.mem_singleton.mp hnew]
      exact ht.2.rotation rotation rfl
  | replaced =>
    exact hboth .replaced hs.1 ht.1 { hs.2 with }
      (fun _ ht' => Option.some.inj ht' ▸ ⟨nofun, fun _ _ => ht.2.pending rfl rfl⟩)
      fun _ _ _ hu => hu.of_pending rfl
  | install =>
    exact hboth .install hs.1 ht.1
      { hs.2 with pending := fun h => absurd (ht.2.pending rfl rfl) h }
      (fun _ ht' => Option.some.inj ht' ▸ .of_not rfl) fun _ _ _ hu => hu.of_pending rfl
  | unbuilt =>
    exact hboth .unbuilt hs.1 ht.1 { hs.2 with }
      (fun _ ht' => Option.some.inj ht' ▸ ⟨nofun, fun _ _ => ht.2.pending rfl rfl⟩)
      fun _ _ _ hu => hu.of_pending rfl
  | leave hmine hlease =>
    exact hboth (.leave hmine hlease) hs.1 ht.1 { hs.2 with } (by simp)
      fun _ _ _ hu => hu.of_pending rfl
  | trans h₁ h₂ ih₁ ih₂ =>
    have hfirst := ih₁ hs ht
    exact hfirst.trans (ih₂ hfirst.sound (hfirst.own _ rfl))

end RoutedTransport

/-! ## The middleware over the routed transport -/

namespace MiddlewareTask

variable (config : RoutingConfig)

theorem inner_step {waits fresh : Prop} {s : RoutedTransport} {u : RoutedTask}
    {suspended : RoutedTask → MiddlewareTask} {finished : RoutedResult → Option MiddlewareTask}
    (hsuspended : ∀ t, (suspended t).routed? = some t)
    (hfinished : ∀ result, (finished result).bind routed? = none)
    {r : RoutedTransport × RoutedNext} (h : RouteStep waits fresh s u r.1 r.2.task) :
    RouteStep waits fresh s u (inner suspended finished r).1
      ((inner suspended finished r).2.bind routed?) := by
  obtain ⟨s', next⟩ := r
  cases next with
  | goOn t =>
    unfold inner
    rw [Option.bind_some, hsuspended]
    exact h
  | ended result =>
    unfold inner
    dsimp only
    rw [hfinished]
    exact h
  | endedLeaving result t => exact h

theorem afterRotation_routed (m : MiddlewareRequest) (attempt : ℕ) (result : RoutedResult) :
    (afterRotation m attempt result).bind routed? = none := by
  cases result <;> rfl

/-- A call of the middleware does to the routed transport what a call of that transport does. -/
theorem run_step (s : RoutedTransport) (t : MiddlewareTask) (reply : RoutedReply) :
    ∃ waits u, (t.routed? = some u ∨ t.routed? = none ∧ u.Idle) ∧
      RouteStep waits (t.AsksFresh s) s u (t.run config s reply).1
        ((t.run config s reply).2.bind routed?) := by
  have hquiet : ∀ {fresh : Prop} {m : MiddlewareTask} {next : Option MiddlewareTask},
      m.routed? = none → next.bind routed? = none →
      ∃ waits u, (m.routed? = some u ∨ m.routed? = none ∧ u.Idle) ∧
        RouteStep waits fresh s u s (next.bind routed?) := by
    intro fresh m next hm hnext
    refine ⟨True, .direct, Or.inr ⟨hm, rfl, rfl, rfl, rfl⟩, ?_⟩
    rw [hnext]
    exact .idle ⟨rfl, rfl, rfl, rfl⟩ (by simp)
  cases t with
  | requested m =>
    unfold run
    dsimp only
    split <;> exact hquiet rfl rfl
  | preparing m attempt =>
    unfold run
    dsimp only
    split
    · exact ⟨True, .called (.request m.routed), Or.inr ⟨rfl, rfl, rfl, rfl, rfl⟩,
        inner_step (fun _ => rfl) (fun _ => rfl) (begin_step config s _ id)⟩
    · exact hquiet rfl rfl
  | attempting m attempt t =>
    exact ⟨_, t, Or.inl rfl, inner_step (fun _ => rfl) (fun _ => rfl)
      (RoutedTransport.run_step config s t reply)⟩
  | settling m attempt result =>
    unfold run
    dsimp only
    split
    · unfold settled
      split
      · rename_i hretried
        split
        · rename_i reason hasked
          have hobserved : (settling m attempt result).observed? = result.generation? :=
            if_pos ⟨hretried, by simp [hasked]⟩
          exact ⟨True, .called (.rotateIdentity reason result.generation?),
            Or.inr ⟨rfl, rfl, rfl, rfl, rfl⟩,
            inner_step (fun _ => rfl) (afterRotation_routed m attempt)
              (begin_step config s _ fun h => by
                unfold AsksFresh at h
                rwa [hobserved] at h)⟩
        · exact hquiet rfl rfl
      · exact hquiet rfl rfl
    · exact hquiet rfl rfl
  | rotating m attempt t =>
    exact ⟨_, t, Or.inl rfl, inner_step (fun _ => rfl) (afterRotation_routed m attempt)
      (RoutedTransport.run_step config s t reply)⟩
  | backoff m attempt =>
    unfold run
    dsimp only
    split <;> exact hquiet rfl rfl
  | calling t =>
    exact ⟨_, t, Or.inl rfl, inner_step (fun _ => rfl) (fun _ => rfl)
      (RoutedTransport.run_step config s t reply)⟩

/-- What the calls of the routed transport keep is kept by the calls of the middleware. -/
theorem respects {I : RoutedTransport → Prop} {J : RoutedTransport → RoutedTask → Prop}
    {C : RoutedTransport → MiddlewareTask → RoutedReply → Prop}
    (hidle : ∀ s t, t.Idle → J s t)
    (hstep : ∀ waits s m reply u s' next, C s m reply → RouteStep waits (m.AsksFresh s) s u s' next →
      I s → J s u → Kept I J s u s' next) :
    (middlewareProgram config).Respects I (fun s m => ∀ t ∈ m.routed?, J s t)
      (fun m n => ∀ t ∈ m.routed?, ∀ u ∈ n.routed?, Apart t u) (fun _ => True) C := by
  have hkept : ∀ s m reply, C s m reply → I s → (∀ t ∈ m.routed?, J s t) →
      ∃ u, (m.routed? = some u ∨ m.routed? = none ∧ u.Idle) ∧
        Kept I J s u (m.run config s reply).1 ((m.run config s reply).2.bind routed?) := by
    intro s m reply hC hs hm
    obtain ⟨waits, u, hu, h⟩ := m.run_step config s reply
    refine ⟨u, hu, hstep waits s m reply u _ _ hC h hs ?_⟩
    rcases hu with hu | ⟨-, hu⟩
    · exact hm u hu
    · exact hidle s u hu
  have hnext : ∀ {next : Option MiddlewareTask} {m' : MiddlewareTask} {t' : RoutedTask},
      m' ∈ next → t' ∈ m'.routed? → t' ∈ next.bind routed? := by
    rintro _ m' t' rfl ht'
    exact ht'
  constructor
  · exact fun m n h t ht u hu => (h u hu t ht).symm
  · intro s c _ _ t ht
    refine hidle s t ?_
    cases c with
    | request m => cases ht
    | rotateIdentity reason => exact Option.some.inj ht ▸ ⟨rfl, rfl, rfl, rfl⟩
    | aclose => exact Option.some.inj ht ▸ ⟨rfl, rfl, rfl, rfl⟩
  · intro c m t _ u hu
    refine .of_idle t ?_
    cases c with
    | request m => cases hu
    | rotateIdentity reason => exact Option.some.inj hu ▸ ⟨rfl, rfl, rfl, rfl⟩
    | aclose => exact Option.some.inj hu ▸ ⟨rfl, rfl, rfl, rfl⟩
  · intro s m reply hC hs hm
    obtain ⟨u, -, h⟩ := hkept s m reply hC hs hm
    exact h.sound
  · intro s m reply hC hs hm m' hm' t' ht'
    obtain ⟨u, -, h⟩ := hkept s m reply hC hs hm
    exact h.own t' (hnext hm' ht')
  · intro s m reply hC hs hm n hn hK
    obtain ⟨u, hu, h⟩ := hkept s m reply hC hs hm
    have hother : ∀ v ∈ n.routed?, J (m.run config s reply).1 v ∧
        ∀ t' ∈ (m.run config s reply).2.bind routed?, Apart v t' := by
      intro v hv
      refine h.other v (hn v hv) ?_
      rcases hu with hu | ⟨-, hu⟩
      · exact hK v hv u hu
      · exact .of_idle v hu
    exact ⟨fun v hv => (hother v hv).1,
      fun m' hm' v hv t' ht' => (hother v hv).2 t' (hnext hm' ht')⟩

end MiddlewareTask

/-- **A burst of failures rotates a generation once.**  The pool's `rotate` is called at most once
for each generation.  If a new identity is only asked for because of the lease in use, every lease
is rotated because of a failure that was observed on its own generation. -/
theorem rotations_of_askedFresh (config : RoutingConfig)
    (turns : List (Turn MiddlewareCall RoutedReply)) :
    ((middlewareAfter config turns).shared.rotations.map fun r => r.generation).Nodup ∧
    (Trace.Along (middlewareProgram config).step
        (Program.Meets fun s m _ => m.AsksFresh s) ⟨{}, []⟩ turns →
      ∀ r ∈ (middlewareAfter config turns).shared.rotations, ∀ g ∈ r.observed, g = r.generation) := by
  constructor
  · have hrespects := MiddlewareTask.respects config (I := Sound) (J := Relies)
      (C := fun _ _ _ => True) (fun s t ht => .of_idle s ht)
      (fun waits s m reply u s' next _ h hs hu => h.kept hs hu)
    have hfree := hrespects.after (Program.Free.of_shared sound_start) (fun _ _ => trivial)
      (Program.along_trivial _ _ turns)
    exact hfree.shared.once
  · intro h
    have hrespects := MiddlewareTask.respects config (I := fun s => Sound s ∧ Timely s)
      (J := fun s t => Relies s t ∧ TimelyTask s t) (C := fun s m _ => m.AsksFresh s)
      (fun s t ht => ⟨.of_idle s ht, .of_not ht.2.1⟩)
      (fun waits s m reply u s' next hfresh hstep hs hu => hstep.timely hfresh hs hu)
    have hfree := hrespects.after (Program.Free.of_shared ⟨sound_start, nofun, nofun⟩)
      (fun _ _ => trivial) h
    exact hfree.shared.2.rotations

/-! ## A rotation that comes too late -/

/-- A request with one retry. -/
def retriedOnce : MiddlewareRequest := { routed := { transmittedBytes := 100 }, retries := 1 }

/-- A task goes on for some awaits. -/
def goesOn (i n : ℕ) : List (Turn MiddlewareCall RoutedReply) :=
  List.replicate n (.resume i (.returned {}))

/-- Two requests are dispatched on the first lease, and both are answered by 403. -/
def burst : List (Turn MiddlewareCall RoutedReply) :=
  [.spawn (.request retriedOnce), .spawn (.request retriedOnce)] ++ goesOn 0 4 ++ goesOn 1 3 ++
    [.resume 0 (.returned { status := 403 })] ++ goesOn 0 5 ++
    [.resume 1 (.returned { status := 403 })] ++ goesOn 1 4

/-- The first request rotates while the second one settles its budget; a third request is dispatched
on the new lease; then the second request asks for a new identity. -/
def lateRun : List (Turn MiddlewareCall RoutedReply) :=
  burst ++ goesOn 0 5 ++ [.spawn (.request retriedOnce)] ++ goesOn 2 3 ++ goesOn 1 1 ++
    goesOn 2 6 ++ goesOn 1 2

/-- Both requests ask for a new identity before the rotation begins. -/
def promptRun : List (Turn MiddlewareCall RoutedReply) := burst ++ goesOn 1 3

/-- The lease of the second generation, on which a third request was dispatched, is rotated because
of a failure that was observed on the first one. -/
theorem rotated_late :
    (middlewareAfter alwaysProxied lateRun).shared.rotations =
        [⟨0, 1, .blocked, some 1⟩, ⟨1, 2, .blocked, some 1⟩] ∧
      ∃ a ∈ (middlewareAfter alwaysProxied lateRun).shared.attempts,
        a.route = ⟨3, 2, 1⟩ ∧ a.dispatched = true := by
  constructor <;> decide +kernel

/-- The run in which both requests ask in time rotates once. -/
theorem rotations_of_askedFresh_prompt :
    (middlewareAfter alwaysProxied promptRun).shared.rotations = [⟨0, 1, .blocked, some 1⟩] ∧
      ∀ r ∈ (middlewareAfter alwaysProxied promptRun).shared.rotations,
        ∀ g ∈ r.observed, g = r.generation :=
  ⟨by decide +kernel, (rotations_of_askedFresh alwaysProxied promptRun).2 (by decide +kernel)⟩

end CommerceCollector
