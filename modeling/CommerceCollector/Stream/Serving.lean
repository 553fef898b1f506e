import CommerceCollector.Stream.Joining

/-!
# Serving a client

The loop of `stream.body` (`catalogue_control/app.py`) over the queue of one subscriber.  It takes a
message, yields it, and stops when `resync` is set.  Between any two of its moves the broker offers
messages and flushes the progress: edges, which are rows of the event log, and levels, which have no
id.

An overflow finds the queue full, so the loop has a message to yield that was offered before, and
stops behind it: the edges that a client is sent are a prefix of those it was offered, and end
before one that was dropped.
-/

namespace CommerceCollector

open Relational

/-- A message without id. -/
structure Level where
  event : String
  topic : StreamTopic
  runId : Option Uuid := none
  jobId : Option Uuid := none
  deriving DecidableEq, Repr

/-- What is offered to a subscriber: an edge or a level. -/
inductive Offer
  | edge (row : LogRow)
  | level (l : Level)
  deriving DecidableEq, Repr

/-- The message of an offer. -/
def Offer.message : Offer → Message
  | .edge row => row.message
  | .level l => { event := l.event, topic := l.topic, runId := l.runId, jobId := l.jobId }

/-- Where the loop of the stream stands. -/
inductive ServingPhase
  /-- It waits for the queue. -/
  | reading
  /-- It has taken a message. -/
  | holding (m : Message)
  /-- It has yielded the message, which is being sent. -/
  | sending
  | closed
  deriving DecidableEq, Repr

/-- A client that is served, with all that it was offered and all that was yielded to it. -/
structure Serving where
  subscriber : Subscriber
  phase : ServingPhase := .reading
  offered : List Message := []
  yielded : List Message := []
  deriving DecidableEq, Repr

/-- A step: of the broker, or of the loop. -/
inductive ServingAction
  | offer (o : Offer)
  | flush
  | loop
  deriving DecidableEq, Repr

namespace Serving

/-- A move of the loop; while the queue is empty, it sends `keepalive` comments. -/
def turn (s : Serving) : Serving :=
  match s.phase with
  | .reading =>
    match s.subscriber.queue with
    | [] => s
    | m :: rest => { s with subscriber := { s.subscriber with queue := rest }, phase := .holding m }
  | .holding m => { s with yielded := s.yielded ++ [m], phase := .sending }
  | .sending => { s with phase := if s.subscriber.resync = true then .closed else .reading }
  | .closed => s

/-- The effect of a step. -/
def step (s : Serving) : ServingAction → Serving
  | .offer o =>
    { s with subscriber := s.subscriber.offer o.message, offered := s.offered ++ [o.message] }
  | .flush => { s with subscriber := s.subscriber.flushProgress }
  | .loop => s.turn

/-- The state reached by a run from a new subscriber. -/
def after (topics : List StreamTopic) (runId : Option Uuid) (actions : List ServingAction) : Serving :=
  Trace.exec step { subscriber := { topics := topics, runId := runId } } actions

/-- The edges among messages. -/
def edges (ms : List Message) : List Message := ms.filter (·.eventId.isSome)

/-- An offer is dropped: the queue does not get it. -/
def Drops (s : Serving) (row : LogRow) : Prop :=
  (s.subscriber.offer row.message).queue ≠ s.subscriber.queue ++ [row.message]

variable {s : Serving} {row : LogRow} {before : List Message}

/-! ## Offers -/

@[simp] theorem edges_append (ms ms' : List Message) : edges (ms ++ ms') = edges ms ++ edges ms' :=
  List.filter_append ..

theorem edges_eq_nil {ms : List Message} (h : ∀ m ∈ ms, m.eventId = none) : edges ms = [] :=
  List.filter_eq_nil_iff.mpr fun m hm => by simp [h m hm]

theorem level_of_progress {o : Offer} (h : o.message.topic = .progress) : o.message.eventId = none := by
  cases o with
  | edge row => exact absurd h row.message_topic_ne_progress
  | level l => rfl

/-- What an offer does to the subscriber: it keeps a progress message, puts another one at the end
of the queue, or sets `resync` if the queue is full. -/
theorem offer_cases (c : Subscriber) (o : Offer) :
    (∃ pending, c.offer o.message = { c with pendingProgress := pending } ∧
        edges [o.message] = [] ∧ ∀ p ∈ pending, p ∈ c.pendingProgress ∨ p.2.eventId = none) ∨
      c.offer o.message = { c with queue := c.queue ++ [o.message] } ∨
        (c.offer o.message = { c with resync := true } ∧ queueLimit ≤ c.queue.length) := by
  by_cases hprogress : o.message.topic = .progress
  · refine .inl ?_
    have hlevel : edges [o.message] = [] := by simp [edges, level_of_progress hprogress]
    unfold Subscriber.offer
    rw [if_pos hprogress]
    split
    · exact ⟨c.pendingProgress, rfl, hlevel, fun p hp => .inl hp⟩
    · refine ⟨_, rfl, hlevel, fun p hp => ?_⟩
      obtain ⟨q, hq, rfl⟩ := mem_update.mp hp
      split
      · exact .inr (level_of_progress hprogress)
      · rcases mem_insertNew hq with hold | rfl
        · exact .inl hold
        · exact .inr (level_of_progress hprogress)
  · by_cases hroom : c.queue.length < queueLimit
    · exact .inr (.inl (Subscriber.offer_of_room hprogress hroom))
    · exact .inr (.inr ⟨Subscriber.offer_of_full hprogress hroom, not_lt.mp hroom⟩)

/-- The pending messages are levels. -/
def Levels (s : Serving) : Prop := ∀ p ∈ s.subscriber.pendingProgress, p.2.eventId = none

theorem flush_cases (h : s.Levels) :
    ∃ new, s.subscriber.flushProgress =
        { s.subscriber with queue := s.subscriber.queue ++ new, pendingProgress := [] } ∧
      edges new = [] := by
  obtain ⟨new, heq, hnew⟩ := Client.flush_queue s.subscriber s.subscriber.pendingProgress
  refine ⟨new, ?_, edges_eq_nil fun m hm => ?_⟩
  · unfold Subscriber.flushProgress
    rw [heq]
  · obtain ⟨p, hp, rfl⟩ := hnew m hm
    exact h p hp

/-! ## Before and after an overflow -/

/-- What the loop has taken but not yielded. -/
def held (s : Serving) : List Message :=
  match s.phase with
  | .holding m => [m]
  | _ => []

/-- What the loop still yields once `resync` is set. -/
def last (s : Serving) : List Message :=
  match s.phase with
  | .reading => s.subscriber.queue.take 1
  | _ => s.held

/-- Nothing was dropped: the edges that were offered have been yielded, or wait. -/
structure Intact (s : Serving) : Prop where
  resync : s.subscriber.resync = false
  waiting : edges s.offered = edges (s.yielded ++ s.held ++ s.subscriber.queue)

/-- The loop stops behind edges that were offered before. -/
structure Ends (before : List Message) (s : Serving) : Prop where
  resync : s.subscriber.resync = true
  queue : s.phase = .reading → s.subscriber.queue ≠ []
  upTo : edges (s.yielded ++ s.last) <+: before

theorem Ends.mono {more : List Message} (h : Ends before s) (hmore : before <+: more) :
    Ends more s :=
  ⟨h.resync, h.queue, h.upTo.trans hmore⟩

theorem Ends.put {c : Subscriber} (h : Ends before s) (hresync : c.resync = true)
    (hqueue : ∃ new, c.queue = s.subscriber.queue ++ new) (offered : List Message) :
    Ends before { s with subscriber := c, offered := offered } := by
  obtain ⟨new, hnew⟩ := hqueue
  refine ⟨hresync, fun hphase => ?_, ?_⟩
  · rw [hnew]
    exact List.append_ne_nil_of_left_ne_nil (h.queue hphase) new
  · have hedges := h.upTo
    unfold last held at hedges ⊢
    cases hphase : s.phase with
    | reading =>
      obtain ⟨m, rest, hcons⟩ := List.exists_cons_of_ne_nil (h.queue hphase)
      rw [hphase] at hedges
      dsimp only at hedges ⊢
      rw [hcons] at hnew hedges
      rw [hnew]
      exact hedges
    | holding m =>
      rw [hphase] at hedges
      exact hedges
    | sending =>
      rw [hphase] at hedges
      exact hedges
    | closed =>
      rw [hphase] at hedges
      exact hedges

theorem Ends.turn (h : Ends before s) : Ends before s.turn := by
  have hedges := h.upTo
  unfold Serving.turn
  unfold last held at hedges
  cases hphase : s.phase with
  | reading =>
    obtain ⟨m, rest, hcons⟩ := List.exists_cons_of_ne_nil (h.queue hphase)
    rw [hphase, hcons] at hedges
    dsimp only
    rw [hcons]
    exact ⟨h.resync, by rintro ⟨⟩, hedges⟩
  | holding m =>
    rw [hphase] at hedges
    refine ⟨h.resync, by rintro ⟨⟩, ?_⟩
    change edges (s.yielded ++ [m] ++ []) <+: before
    rw [List.append_nil]
    exact hedges
  | sending =>
    rw [hphase] at hedges
    dsimp only
    rw [if_pos h.resync]
    exact ⟨h.resync, by rintro ⟨⟩, hedges⟩
  | closed =>
    exact h

/-- **Once `resync` is set**, no step changes what the loop stops behind. -/
theorem Ends.step (hlevels : s.Levels) (h : Ends before s) (a : ServingAction) :
    Ends before (s.step a) := by
  cases a with
  | offer o =>
    rcases offer_cases s.subscriber o with ⟨pending, heq, -, -⟩ | heq | ⟨heq, -⟩
    · exact h.put (heq ▸ h.resync) ⟨[], by rw [heq, List.append_nil]⟩ _
    · exact h.put (heq ▸ h.resync) ⟨[o.message], by rw [heq]⟩ _
    · exact h.put (by rw [heq]) ⟨[], by rw [heq, List.append_nil]⟩ _
  | flush =>
    obtain ⟨new, heq, -⟩ := flush_cases hlevels
    exact h.put (heq ▸ h.resync) ⟨new, by rw [heq]⟩ s.offered
  | loop => exact h.turn

/-- **An overflow**: the queue is full, so the loop stops behind what was offered before. -/
theorem Intact.ends (h : s.Intact) (hfull : queueLimit ≤ s.subscriber.queue.length) (o : Offer)
    (hoffer : s.subscriber.offer o.message = { s.subscriber with resync := true }) :
    Ends (edges s.offered) (s.step (.offer o)) := by
  have hne : s.subscriber.queue ≠ [] := by
    intro hnil
    rw [hnil] at hfull
    exact absurd hfull (by decide)
  refine ⟨by rw [step, hoffer], fun _ => by rw [step, hoffer]; exact hne, ?_⟩
  rw [h.waiting, step, hoffer]
  unfold last held
  cases s.phase with
  | reading =>
    simp only [List.append_nil, edges_append]
    exact List.prefix_append_right_inj _ |>.mpr ((List.take_prefix 1 _).filter _)
  | holding m => exact ⟨edges s.subscriber.queue, (edges_append _ _).symm⟩
  | sending => exact ⟨edges s.subscriber.queue, (edges_append _ _).symm⟩
  | closed => exact ⟨edges s.subscriber.queue, (edges_append _ _).symm⟩

theorem Intact.step (hlevels : s.Levels) (h : s.Intact) (a : ServingAction) :
    (s.step a).Intact ∨ Ends (edges s.offered) (s.step a) := by
  cases a with
  | offer o =>
    rcases offer_cases s.subscriber o with ⟨pending, heq, hlevel, -⟩ | heq | ⟨heq, hfull⟩
    · refine .inl ⟨by rw [Serving.step, heq]; exact h.resync, ?_⟩
      rw [Serving.step, heq, edges_append, hlevel, List.append_nil]
      exact h.waiting
    · refine .inl ⟨by rw [Serving.step, heq]; exact h.resync, ?_⟩
      rw [Serving.step, heq, edges_append, h.waiting]
      simp only [edges_append, List.append_assoc]
      rfl
    · exact .inr (h.ends hfull o heq)
  | flush =>
    obtain ⟨new, heq, hnew⟩ := flush_cases hlevels
    refine .inl ⟨by rw [Serving.step, heq]; exact h.resync, ?_⟩
    rw [Serving.step, heq]
    dsimp only
    rw [← List.append_assoc, edges_append, hnew, List.append_nil]
    exact h.waiting
  | loop =>
    refine .inl ?_
    have hwaiting := h.waiting
    unfold held at hwaiting
    unfold Serving.step turn
    cases hphase : s.phase with
    | reading =>
      rw [hphase] at hwaiting
      cases hqueue : s.subscriber.queue with
      | nil => exact h
      | cons m rest =>
        rw [hqueue] at hwaiting
        refine ⟨h.resync, hwaiting.trans ?_⟩
        simp [held]
    | holding m =>
      rw [hphase] at hwaiting
      refine ⟨h.resync, hwaiting.trans ?_⟩
      simp [held]
    | sending =>
      rw [hphase] at hwaiting
      dsimp only
      rw [if_neg (by rw [h.resync]; decide)]
      exact ⟨h.resync, hwaiting⟩
    | closed => exact h

theorem Levels.step (h : s.Levels) (a : ServingAction) : (s.step a).Levels := by
  cases a with
  | offer o =>
    unfold Levels
    rcases offer_cases s.subscriber o with ⟨pending, heq, -, hpending⟩ | heq | ⟨heq, -⟩
    · rw [Serving.step, heq]
      intro p hp
      rcases hpending p hp with hold | hnew
      · exact h p hold
      · exact hnew
    · rw [Serving.step, heq]
      exact h
    · rw [Serving.step, heq]
      exact h
  | flush => exact fun p hp => absurd hp List.not_mem_nil
  | loop =>
    have hsame : s.turn.subscriber.pendingProgress = s.subscriber.pendingProgress := by
      unfold turn
      split
      · split <;> rfl
      · rfl
      · rfl
      · rfl
    unfold Levels Serving.step
    dsimp only
    rw [hsame]
    exact h

/-- What holds in every state of a run: nothing was dropped, or the loop stops behind what was
offered. -/
structure Invariant (s : Serving) : Prop where
  levels : s.Levels
  prefixed : s.Intact ∨ Ends (edges s.offered) s

theorem offered_step (s : Serving) (a : ServingAction) : edges s.offered <+: edges (s.step a).offered := by
  cases a with
  | offer o => exact ⟨edges [o.message], (edges_append _ _).symm⟩
  | flush => exact List.prefix_refl _
  | loop =>
    have hsame : s.turn.offered = s.offered := by
      unfold turn
      split
      · split <;> rfl
      · rfl
      · rfl
      · rfl
    exact ⟨[], (List.append_nil _).trans (congrArg edges hsame.symm)⟩

theorem Invariant.step (h : s.Invariant) (a : ServingAction) : (s.step a).Invariant := by
  refine ⟨h.levels.step a, ?_⟩
  rcases h.prefixed with hintact | hends
  · rcases hintact.step h.levels a with hintact | hends
    · exact .inl hintact
    · exact .inr (hends.mono (offered_step s a))
  · exact .inr ((hends.step h.levels a).mono (offered_step s a))

theorem invariant_after (topics : List StreamTopic) (runId : Option Uuid)
    (as : List ServingAction) : (after topics runId as).Invariant := by
  refine Trace.exec_invariant step (fun s a h => h.step a) ⟨?_, .inl ⟨rfl, rfl⟩⟩ as
  exact fun p hp => absurd hp List.not_mem_nil

/-! ## The end of the loop -/

/-- The moves of the loop that are left once `resync` is set. -/
def moves (s : Serving) : ℕ :=
  match s.phase with
  | .reading => 3
  | .holding _ => 2
  | .sending => 1
  | .closed => 0

theorem moves_step (h : Ends before s) (a : ServingAction) :
    (s.step a).moves ≤ s.moves - [a].count .loop := by
  cases a with
  | offer o => exact le_refl _
  | flush => exact le_refl _
  | loop =>
    unfold Serving.step turn
    cases hphase : s.phase with
    | reading =>
      obtain ⟨m, rest, hcons⟩ := List.exists_cons_of_ne_nil (h.queue hphase)
      simp [hcons, moves, hphase]
    | holding m => simp [moves, hphase]
    | sending => simp [moves, hphase, h.resync]
    | closed => simp [moves, hphase]

/-- **The loop ends** three moves after an overflow at the latest, behind the edges of before. -/
theorem Ends.exec (hlevels : s.Levels) (h : Ends before s) (as : List ServingAction) :
    Ends before (Trace.exec Serving.step s as) ∧
      (Trace.exec Serving.step s as).moves ≤ s.moves - as.count .loop := by
  induction as generalizing s with
  | nil => exact ⟨h, Nat.le_of_eq (by simp)⟩
  | cons a as ih =>
    obtain ⟨hends, hmoves⟩ := ih (hlevels.step a) (h.step hlevels a)
    refine ⟨hends, ?_⟩
    have hstep := moves_step h a
    have hcount : (a :: as).count .loop = [a].count .loop + as.count .loop := by
      rw [← List.count_append, List.singleton_append]
    rw [Trace.exec_cons]
    omega

/-- A dropped edge sets `resync` in a state in which the loop stops behind what was offered
before. -/
theorem Invariant.drops (h : s.Invariant) (hdrop : s.Drops row) :
    Ends (edges s.offered) (s.step (.offer (.edge row))) := by
  rcases offer_cases s.subscriber (.edge row) with ⟨pending, -, hlevel, -⟩ | heq | ⟨heq, hfull⟩
  · cases hlevel
  · exact absurd (congrArg Subscriber.queue heq) hdrop
  · rcases h.prefixed with hintact | hends
    · exact hintact.ends hfull _ heq
    · exact hends.step h.levels _

/-- **Backpressure never serves an incomplete history.**  The edges yielded to a client are a prefix
of those offered to it; and once an edge is dropped, the client gets no edge that was offered behind
it, and is disconnected within three moves of the loop. -/
theorem yielded_edges_in_order (topics : List StreamTopic) (runId : Option Uuid)
    (as : List ServingAction) :
    edges (after topics runId as).yielded <+: edges (after topics runId as).offered ∧
      ∀ pre row post, as = pre ++ .offer (.edge row) :: post →
        (after topics runId pre).Drops row →
          edges (after topics runId as).yielded <+: edges (after topics runId pre).offered ∧
            (3 ≤ post.count .loop → (after topics runId as).phase = .closed) := by
  constructor
  · rcases (invariant_after topics runId as).prefixed with hintact | hends
    · rw [hintact.waiting, List.append_assoc, edges_append]
      exact List.prefix_append _ _
    · exact ((List.prefix_append _ _).filter _).trans hends.upTo
  · rintro pre row post rfl hdrop
    have hpre := invariant_after topics runId pre
    have hsplit : after topics runId (pre ++ .offer (.edge row) :: post) =
        Trace.exec step ((after topics runId pre).step (.offer (.edge row))) post := by
      rw [after, Trace.exec_append, Trace.exec_cons]
      rfl
    obtain ⟨hends, hmoves⟩ := (hpre.drops hdrop).exec (hpre.levels.step _) post
    rw [hsplit]
    refine ⟨((List.prefix_append _ _).filter _).trans hends.upTo, fun hcount => ?_⟩
    have hthree : ∀ s : Serving, s.moves ≤ 3 := fun s => by
      unfold moves
      split <;> decide
    have hnone := hthree ((after topics runId pre).step (.offer (.edge row)))
    have hzero : (Trace.exec step ((after topics runId pre).step (.offer (.edge row))) post).moves =
        0 := by omega
    unfold moves at hzero
    split at hzero
    · cases hzero
    · cases hzero
    · cases hzero
    · assumption

/-- An edge of a run. -/
def runEdge (id : ℕ) : LogRow := ⟨id, { topic := .run, type := "run.started" }⟩

/-- A client that reads nothing while it is offered one edge more than its queue holds: three moves
of the loop later it has been sent the first edge, and is disconnected. -/
theorem overflow_disconnects :
    edges (after [.runs] none (List.replicate queueLimit (.offer (.edge (runEdge 1))) ++
      .offer (.edge (runEdge 2)) :: [.loop, .loop, .loop])).yielded <+:
        edges (after [.runs] none (List.replicate queueLimit (.offer (.edge (runEdge 1))))).offered ∧
      (after [.runs] none (List.replicate queueLimit (.offer (.edge (runEdge 1))) ++
        .offer (.edge (runEdge 2)) :: [.loop, .loop, .loop])).phase = .closed := by
  have hdrop : (after [.runs] none
      (List.replicate queueLimit (.offer (.edge (runEdge 1))))).Drops (runEdge 2) := by
    unfold Drops
    decide +kernel
  have h := (yielded_edges_in_order [.runs] none (List.replicate queueLimit
    (.offer (.edge (runEdge 1))) ++ .offer (.edge (runEdge 2)) :: [.loop, .loop, .loop])).2 _ _ _
      rfl hdrop
  exact ⟨h.1, h.2 (by decide)⟩

end Serving

end CommerceCollector
