import CommerceCollector.Stream.Drains

/-!
# Joining the live stream

`Broker.subscribe` and `Broker.replay` (`catalogue_control/broker.py`) for one client that connects
with a `Last-Event-ID`.  The client is registered first, so that every later publication reaches it,
and is then sent what it missed: from the buffer, without suspending, or from the event log.  The
query of the event log suspends the replay twice, before the snapshot is taken and before the rows
are offered; between these moments the drains go on.

`Joining` is the live stream with such a client beside the other subscribers.  The client has joined
without gap, duplicate or reordering if its queue was given exactly the rows it wants behind its
`Last-Event-ID` and up to the watermark, in order.
-/

namespace CommerceCollector

open Relational

/-! ## The replay -/

/-- `MAX_REPLAY`. -/
def maxReplay : ℕ := 500

/-- The message `resync`. -/
def Message.resync : Message := { event := "resync", topic := .control }

/-- Where the replay takes the missed messages from. -/
inductive ReplaySource
  /-- The gap is too large. -/
  | resync
  | buffer (messages : List Message)
  | table
  deriving DecidableEq, Repr

namespace Broker

/-- The numbered messages of the buffer behind an id. -/
def buffered (b : Broker) (lastEventId : ℤ) : List Message :=
  b.buffer.filter fun m => m.eventId.any fun i => decide (lastEventId < i)

/-- The smallest id of the buffer, and 0 for an empty one. -/
def oldest (b : Broker) : ℕ := (b.buffer.map fun m => m.eventId.getD 0).min?.getD 0

/-- `Broker.replay` up to its first suspension. -/
def replaySource (b : Broker) (lastEventId : ℤ) : ReplaySource :=
  if maxReplay < b.watermark - lastEventId then .resync
  else if b.buffered lastEventId ≠ [] ∧ b.oldest ≤ lastEventId + 1 then
    .buffer (b.buffered lastEventId)
  else .table

end Broker

/-- The query of `Broker.replay`: `id > after order by id limit 500`.  Ids and cursor are shifted by
one, because a negative `Last-Event-ID` comes before every id. -/
def EventLog.replayPage (log : EventLog) (lastEventId : ℤ) : List LogRow :=
  page (fun r => r.id + 1) (lastEventId + 1).toNat maxReplay log.visible

/-! ## The client -/

/-- Where the replay of a client stands. -/
inductive ReplayPhase
  /-- The replay waits for its connection and its query. -/
  | asked
  /-- The query has seen its snapshot. -/
  | fetched (rows : List LogRow)
  | done
  deriving DecidableEq, Repr

/-- A client that joins, and all messages that were ever put on its queue. -/
structure Client where
  subscriber : Subscriber
  lastEventId : ℤ
  phase : ReplayPhase := .done
  queued : List Message := []
  deriving DecidableEq, Repr

namespace Client

/-- The subscriber changes, and what is new on its queue was put there. -/
def put (c : Client) (s : Subscriber) : Client :=
  { c with
    subscriber := s
    queued := c.queued ++ s.queue.drop c.subscriber.queue.length }

/-- `subscriber.offer`. -/
def offer (c : Client) (m : Message) : Client := c.put (c.subscriber.offer m)

/-- `if subscriber.wants(message): subscriber.offer(message)`. -/
def publish (c : Client) (m : Message) : Client := if c.subscriber.wants m then c.offer m else c

/-- Several messages, one after another. -/
def publishAll (c : Client) (ms : List Message) : Client := ms.foldl publish c

/-- The client wants the message of a row. -/
def wants (c : Client) (r : LogRow) : Bool := c.subscriber.wants r.message

/-- The ids of the numbered messages put on the queue. -/
def queuedIds (c : Client) : List ℕ := c.queued.filterMap Message.eventId

/-- The client was offered a `resync`: it was put on the queue, or the queue was full. -/
def Resynced (c : Client) : Prop :=
  c.subscriber.resync = true ∨ ∃ m ∈ c.queued, m.topic = .control

instance (c : Client) : Decidable c.Resynced :=
  inferInstanceAs (Decidable (_ ∨ ∃ m ∈ c.queued, _))

/-- `Broker.subscribe` with a `Last-Event-ID`: the client is registered and replayed to, up to the
first suspension. -/
def join (b : Broker) (topics : List StreamTopic) (runId : Option Uuid) (lastEventId : ℤ) :
    Client :=
  let c : Client := { subscriber := { topics := topics, runId := runId }, lastEventId }
  match b.replaySource lastEventId with
  | .resync => c.offer .resync
  | .buffer messages => c.publishAll messages
  | .table => { c with phase := .asked }

end Client

/-! ## The stream with a joining client -/

/-- The live stream, and the client once it has joined. -/
structure Joining where
  live : Live
  client : Option Client := none

/-- A step of the stream or of the replay. -/
inductive JoinAction
  | live (a : LiveAction)
  | subscribe (topics : List StreamTopic) (runId : Option Uuid) (lastEventId : ℤ)
  /-- The query of the replay sees its snapshot. -/
  | readTable
  /-- The rows have arrived and are offered. -/
  | replayRows
  /-- `psycopg.Error` ends the replay. -/
  | replayFails
  /-- The client is sent the first message of its queue. -/
  | receive
  /-- The client leaves. -/
  | leave
  deriving DecidableEq, Repr

namespace Joining

/-- The messages that a step of the stream publishes. -/
def news (s : Live) (a : LiveAction) : List Message := (s.step a).published.drop s.published.length

/-- A round of `_roster` when the client listens to workers. -/
def rosterMessage : Message := { event := "worker.roster", topic := .workers }

/-- The effect of a step. -/
def step (s : Joining) : JoinAction → Joining
  | .live .coalesce =>
    { live := s.live.step .coalesce
      client := s.client.map fun c => c.put c.subscriber.flushProgress }
  | .live .roster =>
    if s.client.any fun c => c.subscriber.topics.contains .workers then
      { live := s.live.publish rosterMessage
        client := s.client.map fun c => c.publish rosterMessage }
    else { s with live := s.live.step .roster }
  | .live a =>
    { live := s.live.step a
      client := s.client.map fun c => c.publishAll (news s.live a) }
  | .subscribe topics runId lastEventId =>
    match s.client with
    | none => { s with client := some (.join s.live.broker topics runId lastEventId) }
    | some _ => s
  | .readTable =>
    { s with
      client := s.client.map fun c =>
        match c.phase with
        | .asked => { c with phase := .fetched (s.live.log.replayPage c.lastEventId) }
        | _ => c }
  | .replayRows =>
    { s with
      client := s.client.map fun c =>
        match c.phase with
        | .fetched rows => { c.publishAll (rows.map LogRow.message) with phase := .done }
        | _ => c }
  | .replayFails =>
    { s with
      client := s.client.map fun c =>
        match c.phase with
        | .done => c
        | _ => { c.offer .resync with phase := .done } }
  | .receive =>
    { s with
      client := s.client.map fun c =>
        { c with subscriber := { c.subscriber with queue := c.subscriber.queue.tail } } }
  | .leave => { s with client := none }

/-- The state reached by a run after the broker has started on a log. -/
def after (log : EventLog) (actions : List JoinAction) : Joining :=
  Trace.exec step { live := .start log } actions

/-- The numbered messages put on the queue are the rows that the client wants behind a cursor and up
to the watermark, each once and in increasing order. -/
structure Exactly (s : Live) (c : Client) (low : ℤ) : Prop where
  increasing : c.queuedIds.Pairwise (· < ·)
  mem_iff : ∀ i, i ∈ c.queuedIds ↔
    ∃ r ∈ s.log.visible, r.id = i ∧ c.wants r = true ∧ low < i ∧ i ≤ s.broker.watermark

/-- Every client whose replay is over was offered a `resync`, or was given exactly the rows that it
wants behind its `Last-Event-ID`. -/
def Joined (s : Joining) : Prop :=
  ∀ c ∈ s.client, c.phase = .done → c.Resynced ∨ Exactly s.live c c.lastEventId

/-! ## Conditions -/

/-- The drain that a step begins. -/
def asks : JoinAction → Option Drainer
  | .live (.ask d) => some d
  | _ => none

/-- No drain of the task is under way. -/
def idle (s : Live) (d : Drainer) : Bool :=
  match s.drains d with
  | .idle => true
  | _ => false

/-- A drain begins only when no drain is under way. -/
def Serialised (s : Joining) (a : JoinAction) : Prop := ∀ d ∈ asks a, ∀ e, idle s.live e = true

/-- The rows that the replay holds. -/
def held (c : Client) : List LogRow :=
  match c.phase with
  | .fetched rows => rows
  | _ => []

/-- Nothing comes between the replay and the drains.  Rows commit above the watermark and above the
rows that a drain holds; a drain publishes to the client only rows behind its `Last-Event-ID`; and
when the rows of the event log are offered, the client wants none of them, or nothing numbered was
put on its queue while the replay waited and none of them lies above the watermark. -/
def Calm (s : Joining) : JoinAction → Prop
  | .live a => s.live.CommitsAhead a ∧ ∀ c ∈ s.client, ∀ d ∈ a.dispatches, ∀ p ∈ s.live.fetched d,
      ∀ r ∈ p.2, c.wants r = true → c.lastEventId < r.id
  | .replayRows => ∀ c ∈ s.client, (∀ r ∈ held c, c.wants r = false) ∨
      c.queuedIds = [] ∧ ∀ r ∈ held c, c.wants r = true → r.id ≤ s.live.broker.watermark
  | _ => True

instance (s : Joining) (a : JoinAction) : Decidable (s.Serialised a) :=
  inferInstanceAs (Decidable (∀ d ∈ asks a, _))

instance (s : Joining) : ∀ a, Decidable (s.Calm a)
  | .live a => inferInstanceAs (Decidable (s.live.CommitsAhead a ∧ ∀ c ∈ s.client, _))
  | .replayRows => inferInstanceAs (Decidable (∀ c ∈ s.client, _))
  | .subscribe .. | .readTable | .replayFails | .receive | .leave =>
    inferInstanceAs (Decidable True)

end Joining

end CommerceCollector
