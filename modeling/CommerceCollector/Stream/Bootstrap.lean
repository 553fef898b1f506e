import CommerceCollector.Stream.Joining

/-!
# The body of a stream

`stream.body` of the control service (`catalogue_control/app.py`) for one client: the queries of
`queries.bootstrap` run one after another, the snapshot is yielded with the watermark of that
moment, and only then is the client registered by `Broker.subscribe` and replayed to, if it has sent
a `Last-Event-ID`.  Between any two of these steps writers commit and the drains publish.

A table and its edges are written in one transaction, so a query of the bootstrap reflects an edge
exactly when the row of the edge is visible to it.  `Unmissed` says that the client was given, or
will be given, every edge that commits after the query of its table.
-/

namespace CommerceCollector

open Relational

/-! ## The request and its queries -/

/-- The queries of `queries.bootstrap`, in their order. -/
inductive BootstrapQuery
  | workers | activeRuns | notifications | queueDepth | jobs
  deriving DecidableEq, Repr

/-- What `stream` reads from a request. -/
structure StreamRequest where
  topics : List StreamTopic
  runId : Option Uuid
  lastEventId : Option ℤ
  deriving DecidableEq, Repr

/-- The queries that the bootstrap of a request runs. -/
def StreamRequest.queries (q : StreamRequest) : List BootstrapQuery :=
  [.workers, .activeRuns, .notifications, .queueDepth] ++
    if q.runId.isSome && q.topics.contains .progress then [.jobs] else []

/-- The first query that reads the table whose changes the edges of a topic record. -/
def Topic.query : Topic → Option BootstrapQuery
  | .worker => some .workers
  | .run => some .activeRuns
  | .notification => some .notifications
  | .job => some .queueDepth
  | .schedule | .source | .proxy => none

/-- The subscriber of a request. -/
def StreamRequest.subscriber (q : StreamRequest) : Subscriber :=
  { topics := q.topics, runId := q.runId }

/-- The subscriber of a request wants the message of a row. -/
def StreamRequest.wants (q : StreamRequest) (r : LogRow) : Bool := q.subscriber.wants r.message

/-! ## The body -/

/-- Where `stream.body` stands. -/
inductive BodyPhase
  /-- The queries that are left. -/
  | querying (left : List BootstrapQuery)
  /-- The snapshot has been yielded, with a watermark. -/
  | yielded (watermark : ℕ)
  /-- The client was registered. -/
  | subscribed
  deriving DecidableEq, Repr

/-- A running `stream.body`. -/
structure Body where
  request : StreamRequest
  phase : BodyPhase
  /-- The rows of the event log that were visible to the queries. -/
  reads : List (BootstrapQuery × List LogRow) := []
  deriving DecidableEq, Repr

/-- The row became visible after the query of its table. -/
def Body.Behind (b : Body) (r : LogRow) : Prop :=
  ∃ p ∈ b.reads, r.edge.topic.query = some p.1 ∧ r ∉ p.2

instance (b : Body) (r : LogRow) : Decidable (b.Behind r) :=
  inferInstanceAs (Decidable (∃ p ∈ b.reads, _))

/-- The live stream, a stream body and its registered client. -/
structure Opening where
  live : Live
  body : Option Body := none
  client : Option Client := none

/-- A step of the stream, of the body or of its replay. -/
inductive BodyAction
  | live (a : LiveAction)
  | request (q : StreamRequest)
  /-- The next query of the bootstrap runs. -/
  | query
  /-- The snapshot is yielded. -/
  | yield
  /-- `broker.subscribe`, up to its first suspension. -/
  | subscribe
  | readTable
  | replayRows
  | replayFails
  | receive
  | leave
  deriving DecidableEq, Repr

namespace Opening

/-- The stream with its registered client. -/
def joining (s : Opening) : Joining := ⟨s.live, s.client⟩

/-- A step of the stream and of its registered client. -/
def follow (s : Opening) (a : JoinAction) : Opening :=
  let j := s.joining.step a
  { s with live := j.live, client := j.client }

/-- The client of a request as `Broker.subscribe` registers it. -/
def register (b : Broker) (q : StreamRequest) : Client :=
  match q.lastEventId with
  | some n => .join b q.topics q.runId n
  | none => { subscriber := q.subscriber, lastEventId := b.watermark }

/-- The effect of a step. -/
def step (s : Opening) : BodyAction → Opening
  | .live a => s.follow (.live a)
  | .request q =>
    match s.body with
    | none => { s with body := some { request := q, phase := .querying q.queries } }
    | some _ => s
  | .query =>
    { s with
      body := s.body.map fun b =>
        match b.phase with
        | .querying (q :: left) =>
          { b with phase := .querying left, reads := (q, s.live.log.visible) :: b.reads }
        | _ => b }
  | .yield =>
    { s with
      body := s.body.map fun b =>
        match b.phase with
        | .querying [] => { b with phase := .yielded s.live.broker.watermark }
        | _ => b }
  | .subscribe =>
    match s.body with
    | some ⟨q, .yielded _, reads⟩ =>
      { s with body := some ⟨q, .subscribed, reads⟩, client := some (register s.live.broker q) }
    | _ => s
  | .readTable => s.follow .readTable
  | .replayRows => s.follow .replayRows
  | .replayFails => s.follow .replayFails
  | .receive => s.follow .receive
  | .leave => { s with body := none, client := none }

/-- The state reached by a run after the broker has started on a log. -/
def after (log : EventLog) (actions : List BodyAction) : Opening :=
  Trace.exec step { live := .start log } actions

/-- A registered client whose replay is over was sent a `resync`, or was given every wanted row that
became visible after the query of its table, up to the watermark; what lies above the watermark is
still to come. -/
def Unmissed (s : Opening) : Prop :=
  ∀ b ∈ s.body, ∀ c ∈ s.client, c.phase = .done → c.Resynced ∨
    ∀ r ∈ s.live.log.visible, b.request.wants r = true → b.Behind r →
      r.id ≤ s.live.broker.watermark → r.id ∈ c.queuedIds

/-! ## Conditions -/

/-- The drain that a step begins. -/
def asks : BodyAction → Option Drainer
  | .live (.ask d) => some d
  | _ => none

/-- A drain begins only when no drain is under way. -/
def Serialised (s : Opening) (a : BodyAction) : Prop :=
  ∀ d ∈ asks a, ∀ e, Joining.idle s.live e = true

/-- A wanted row that became visible after the query of its table is published before the client is
registered only if the replay will send it again. -/
def Replayed (s : Opening) (a : LiveAction) : Prop :=
  s.client = none → ∀ b ∈ s.body, ∀ d ∈ a.dispatches, ∀ p ∈ s.live.fetched d, ∀ r ∈ p.2,
    b.request.wants r = true → b.Behind r → ∃ n ∈ b.request.lastEventId, n < r.id

/-- Rows commit above the watermark and above the rows that a drain holds, and nothing is published
between the snapshot and the registration that the replay does not send again. -/
def Meets (s : Opening) : BodyAction → Prop
  | .live a => s.live.CommitsAhead a ∧ s.Replayed a
  | _ => True

instance (s : Opening) (a : BodyAction) : Decidable (s.Serialised a) :=
  inferInstanceAs (Decidable (∀ d ∈ asks a, _))

instance (s : Opening) (a : LiveAction) : Decidable (s.Replayed a) :=
  inferInstanceAs (Decidable (s.client = none → ∀ b ∈ s.body, _))

instance (s : Opening) : ∀ a, Decidable (s.Meets a)
  | .live a => inferInstanceAs (Decidable (s.live.CommitsAhead a ∧ s.Replayed a))
  | .request _ | .query | .yield | .subscribe | .readTable | .replayRows | .replayFails | .receive
  | .leave => inferInstanceAs (Decidable True)

end Opening

end CommerceCollector
