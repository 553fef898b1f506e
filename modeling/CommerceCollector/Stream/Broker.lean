import CommerceCollector.Foundation.Cursor
import CommerceCollector.Ops.Schema

/-!
# The live stream

The event log and the broker of the control service (`catalogue_control/broker.py`).  Writers insert
edges in transactions of their own; the id is drawn from the sequence at the insert, the row becomes
visible at the commit.  Two tasks drain the log, one on notifications and one on a timer.  A drain
suspends while its query is under way and while its connection closes, so the watermark it passes to
the query, the snapshot the query sees and the loop that publishes are three separate moments; the
loop itself does not suspend.

A run of `Live.step` contains every interleaving of writers, drains, levels and subscribers.  On the
log, the watermark and the published ids it is a run of two readers behind a shared cursor
(`Live.step_cursor`).
-/

namespace CommerceCollector

open Relational

/-! ## The event log -/

/-- `event_log_topic_check`. -/
inductive Topic
  | run | job | worker | notification | schedule | source | proxy
  deriving DecidableEq, Repr

/-- What `events.emit` records. -/
structure Edge where
  topic : Topic
  type : String
  runId : Option Uuid := none
  jobId : Option Uuid := none
  deriving DecidableEq, Repr

/-- A numbered row of `catalogue.event_log`. -/
structure LogRow where
  id : ℕ
  edge : Edge
  deriving DecidableEq, Repr

/-- `catalogue.event_log`: the visible rows, and the rows of open transactions by their writers. -/
structure EventLog where
  /-- `event_log_id_seq`. -/
  nextId : ℕ
  visible : List LogRow
  uncommitted : List (ℕ × LogRow)
  /-- `event_log_pkey`. -/
  keyed : Keyed LogRow.id (visible ++ uncommitted.map Prod.snd)
  /-- The sequence is ahead of every id it has given. -/
  bounded : ∀ r ∈ visible ++ uncommitted.map Prod.snd, r.id < nextId

namespace EventLog

/-- The empty table. -/
def empty : EventLog := ⟨1, [], [], List.nodup_nil, by simp⟩

/-- The rows that the open transaction of a writer has inserted. -/
def rowsOf (log : EventLog) (writer : ℕ) : List LogRow :=
  (log.uncommitted.filter fun p => p.1 == writer).map Prod.snd

/-- `INSERT_EVENT` in the transaction of a writer. -/
def insert (log : EventLog) (writer : ℕ) (edge : Edge) : EventLog where
  nextId := log.nextId + 1
  visible := log.visible
  uncommitted := log.uncommitted ++ [(writer, ⟨log.nextId, edge⟩)]
  keyed := by
    rw [List.map_append, ← List.append_assoc, Keyed, List.map_append, List.nodup_append]
    refine ⟨log.keyed, by simp, fun a ha b hb => ?_⟩
    obtain ⟨r, hr, rfl⟩ := List.mem_map.mp ha
    have hlt := log.bounded r hr
    rw [List.map_singleton, List.map_singleton, List.mem_singleton] at hb
    exact hb ▸ hlt.ne
  bounded := by
    intro r hr
    rw [List.map_append, ← List.append_assoc] at hr
    rcases List.mem_append.mp hr with hold | hnew
    · exact (log.bounded r hold).trans (Nat.lt_succ_self _)
    · rw [List.map_singleton, List.mem_singleton] at hnew
      exact hnew ▸ Nat.lt_succ_self _

theorem rowsOf_append_perm (log : EventLog) (writer : ℕ) :
    (log.visible ++ log.rowsOf writer ++
      (log.uncommitted.filter fun p => !(p.1 == writer)).map Prod.snd).Perm
        (log.visible ++ log.uncommitted.map Prod.snd) := by
  rw [List.append_assoc, rowsOf, ← List.map_append]
  exact ((List.filter_append_perm _ _).map Prod.snd).append_left _

/-- The transaction of a writer commits, and its rows become visible. -/
def commit (log : EventLog) (writer : ℕ) : EventLog where
  nextId := log.nextId
  visible := log.visible ++ log.rowsOf writer
  uncommitted := log.uncommitted.filter fun p => !(p.1 == writer)
  keyed := ((log.rowsOf_append_perm writer).map LogRow.id).nodup_iff.mpr log.keyed
  bounded := fun r hr => log.bounded r ((log.rowsOf_append_perm writer).subset hr)

/-- The transaction of a writer is rolled back; the ids it has drawn are gone. -/
def rollback (log : EventLog) (writer : ℕ) : EventLog where
  nextId := log.nextId
  visible := log.visible
  uncommitted := log.uncommitted.filter fun p => !(p.1 == writer)
  keyed := log.keyed.sublist
    (((List.filter_sublist.map Prod.snd).append_left log.visible).map LogRow.id)
  bounded := fun r hr =>
    log.bounded r (((List.filter_sublist.map Prod.snd).append_left log.visible).subset hr)

/-- `select coalesce(max(id), 0)`. -/
def maxId (log : EventLog) : ℕ := log.visible.foldl (fun m r => max m r.id) 0

theorem keyed_visible (log : EventLog) : Keyed LogRow.id log.visible :=
  log.keyed.sublist ((List.sublist_append_left _ _).map LogRow.id)

end EventLog

/-- A step of a writer. -/
inductive Write
  | insert (writer : ℕ) (edge : Edge)
  | commit (writer : ℕ)
  | rollback (writer : ℕ)
  deriving DecidableEq, Repr

/-- The effect of a step of a writer. -/
def EventLog.write (log : EventLog) : Write → EventLog
  | .insert writer edge => log.insert writer edge
  | .commit writer => log.commit writer
  | .rollback writer => log.rollback writer

/-! ## Messages and subscribers -/

/-- `ALL_TOPICS`, and the topic of `resync`. -/
inductive StreamTopic
  | workers | runs | jobs | progress | notifications | schedules | sources | proxies | control
  deriving DecidableEq, Repr

/-- `TOPIC_OF`. -/
def Topic.stream : Topic → StreamTopic
  | .run => .runs
  | .job => .jobs
  | .worker => .workers
  | .notification => .notifications
  | .schedule => .schedules
  | .source => .sources
  | .proxy => .proxies

/-- `Message`: a level has no id. -/
structure Message where
  event : String
  topic : StreamTopic
  eventId : Option ℕ := none
  runId : Option Uuid := none
  jobId : Option Uuid := none
  deriving DecidableEq, Repr

/-- `_event_message`. -/
def LogRow.message (r : LogRow) : Message where
  event := r.edge.type
  topic := r.edge.topic.stream
  eventId := some r.id
  runId := r.edge.runId
  jobId := r.edge.jobId

/-- `QUEUE_LIMIT`. -/
def queueLimit : ℕ := 256

/-- `BUFFER_SIZE`. -/
def bufferSize : ℕ := 1000

/-- `Subscriber`: one connected client. -/
structure Subscriber where
  topics : List StreamTopic
  runId : Option Uuid
  queue : List Message := []
  pendingProgress : List (Uuid × Message) := []
  resync : Bool := false
  deriving DecidableEq, Repr

namespace Subscriber

/-- `Subscriber.wants`. -/
def wants (s : Subscriber) (m : Message) : Bool :=
  s.topics.contains m.topic &&
    match s.runId with
    | none => true
    | some run => if m.topic = .jobs ∨ m.topic = .progress then m.runId == some run else true

/-- `queue.put_nowait`, if the queue is not full. -/
def putNowait (s : Subscriber) (m : Message) : Option Subscriber :=
  if s.queue.length < queueLimit then some { s with queue := s.queue ++ [m] } else none

/-- `Subscriber.offer`: a progress message replaces the pending one of its job, any other message
is queued, and an overflow is answered by `resync`. -/
def offer (s : Subscriber) (m : Message) : Subscriber :=
  if m.topic = .progress then
    match m.jobId with
    | none => s
    | some job =>
      { s with
        pendingProgress := update (fun p => p.1 == job) (fun _ => (job, m))
          (insertNew Prod.fst (job, m) s.pendingProgress) }
  else
    match s.putNowait m with
    | some s' => s'
    | none =>
      let s := { s with resync := true }
      (s.putNowait { event := "resync", topic := .control }).getD s

/-- `Subscriber.flush_progress`: what does not fit is dropped. -/
def flushProgress (s : Subscriber) : Subscriber :=
  { s.pendingProgress.foldl (fun s p => (s.putNowait p.2).getD s) s with pendingProgress := [] }

end Subscriber

/-- `Broker`. -/
structure Broker where
  watermark : ℕ
  buffer : List Message := []
  subscribers : List Subscriber := []
  deriving DecidableEq, Repr

/-- `Broker.publish`: an edge enters the bounded buffer, and every message goes to the subscribers
that want it. -/
def Broker.publish (b : Broker) (m : Message) : Broker :=
  { b with
    buffer :=
      if m.eventId.isSome then (b.buffer ++ [m]).drop (b.buffer.length + 1 - bufferSize)
      else b.buffer
    subscribers := b.subscribers.map fun s => if s.wants m then s.offer m else s }

/-! ## Drains -/

/-- The tasks that call `_drain_events`. -/
inductive Drainer
  | listen | reconcile
  deriving DecidableEq, Repr

/-- The limit of the query of `_drain_events`. -/
def drainLimit : ℕ := 500

/-- The event log, the broker, the drains under way, and the messages passed to `publish` so far. -/
structure Live where
  log : EventLog
  broker : Broker
  drains : Drainer → Cursor.Phase LogRow := fun _ => .idle
  published : List Message := []

/-- A step of the live stream. -/
inductive LiveAction
  | write (w : Write)
  /-- A drain is connected and passes the watermark to its query. -/
  | ask (d : Drainer)
  /-- The query sees its snapshot. -/
  | read (d : Drainer)
  /-- The connection is closed, and the loop publishes the rows. -/
  | dispatch (d : Drainer)
  /-- `psycopg.Error` or `OSError` ends the drain. -/
  | fail (d : Drainer)
  /-- `_push_progress`. -/
  | progress (runId jobId : Uuid)
  /-- A round of `_roster`. -/
  | roster
  /-- A round of `_coalesce`. -/
  | coalesce
  | subscribe (topics : List StreamTopic) (runId : Option Uuid)
  | unsubscribe (i : ℕ)
  /-- The client at a position is sent the first message of its queue. -/
  | receive (i : ℕ)
  deriving DecidableEq, Repr

namespace Live

/-- `Broker.start`. -/
def start (log : EventLog) : Live := { log := log, broker := { watermark := log.maxId } }

/-- A message is published. -/
def publish (s : Live) (m : Message) : Live :=
  { s with broker := s.broker.publish m, published := s.published ++ [m] }

/-- The body of the loop of `_drain_events`. -/
def dispatchRow (s : Live) (row : LogRow) : Live :=
  ({ s with broker := { s.broker with watermark := max s.broker.watermark row.id } }).publish
    row.message

/-- The subscribers change. -/
def mapSubscribers (s : Live) (f : List Subscriber → List Subscriber) : Live :=
  { s with broker := { s.broker with subscribers := f s.broker.subscribers } }

/-- A drain enters a phase. -/
def setDrain (s : Live) (d : Drainer) (phase : Cursor.Phase LogRow) : Live :=
  { s with drains := Function.update s.drains d phase }

/-- The effect of a step. -/
def step (s : Live) : LiveAction → Live
  | .write w => { s with log := s.log.write w }
  | .ask d =>
    match s.drains d with
    | .idle => s.setDrain d (.asked s.broker.watermark)
    | _ => s
  | .read d =>
    match s.drains d with
    | .asked after => s.setDrain d (.fetched after (page LogRow.id after drainLimit s.log.visible))
    | _ => s
  | .dispatch d =>
    match s.drains d with
    | .fetched _ rows => (rows.foldl dispatchRow s).setDrain d .idle
    | _ => s
  | .fail d => s.setDrain d .idle
  | .progress runId jobId =>
    s.publish
      { event := "job.progress", topic := .progress, runId := some runId, jobId := some jobId }
  | .roster =>
    if s.broker.subscribers.any fun c => c.topics.contains .workers then
      s.publish { event := "worker.roster", topic := .workers }
    else s
  | .coalesce => s.mapSubscribers fun cs => cs.map Subscriber.flushProgress
  | .subscribe topics runId =>
    s.mapSubscribers fun cs => cs ++ [{ topics := topics, runId := runId }]
  | .unsubscribe i => s.mapSubscribers fun cs => cs.eraseIdx i
  | .receive i => s.mapSubscribers fun cs => cs.modify i fun c => { c with queue := c.queue.tail }

/-- The state reached by a run after the broker has started on a log. -/
def after (log : EventLog) (actions : List LiveAction) : Live :=
  Trace.exec Live.step (start log) actions

/-- The event ids passed to `publish`. -/
def publishedIds (s : Live) : List ℕ := s.published.filterMap Message.eventId

/-! ## The shared cursor -/

/-- The log, the watermark, the published ids and the drains. -/
def cursor (s : Live) : Cursor.State LogRow Drainer where
  visible := s.log.visible
  watermark := s.broker.watermark
  given := s.publishedIds
  phase := s.drains

/-- The step of the cursor that a step of the stream is, if it is one. -/
def cursorAction (s : Live) : LiveAction → Option (Cursor.Action LogRow Drainer)
  | .write (.commit writer) => some (.append (s.log.rowsOf writer))
  | .ask d => some (.ask d)
  | .read d => some (.read d)
  | .dispatch d => some (.give d)
  | .fail d => some (.drop d)
  | _ => none

theorem dispatchRow_cursor (s : Live) (row : LogRow) :
    (s.dispatchRow row).cursor =
      { s.cursor with
        watermark := max s.broker.watermark row.id, given := s.publishedIds ++ [row.id] } := by
  simp [dispatchRow, publish, cursor, publishedIds, Broker.publish, LogRow.message]

/-- The loop of `_drain_events` raises the watermark and publishes the ids of the rows. -/
theorem foldl_dispatchRow_cursor (rows : List LogRow) (s : Live) :
    (rows.foldl dispatchRow s).cursor =
      { s.cursor with
        watermark := Cursor.raise LogRow.id s.broker.watermark rows
        given := s.publishedIds ++ rows.map LogRow.id } := by
  induction rows generalizing s with
  | nil => simp [Cursor.raise, cursor]
  | cons row rows ih =>
    have hrow := dispatchRow_cursor s row
    have hmark : (s.dispatchRow row).broker.watermark = max s.broker.watermark row.id :=
      congrArg Cursor.State.watermark hrow
    have hids : (s.dispatchRow row).publishedIds = s.publishedIds ++ [row.id] :=
      congrArg Cursor.State.given hrow
    rw [List.foldl_cons, ih, hrow, hmark, hids]
    simp [Cursor.raise]

theorem publish_cursor_of_level (s : Live) {m : Message} (hm : m.eventId = none) :
    (s.publish m).cursor = s.cursor := by
  simp [publish, cursor, publishedIds, Broker.publish, hm]

/-- **Refinement.**  On the log, the watermark and the published ids, a step of the stream is a step
of two readers behind a shared cursor, or nothing. -/
theorem step_cursor (s : Live) (a : LiveAction) :
    (s.step a).cursor = match s.cursorAction a with
      | none => s.cursor
      | some b => Cursor.step LogRow.id drainLimit s.cursor b := by
  cases a with
  | write w => cases w <;> rfl
  | ask d =>
    simp only [step, cursorAction, Cursor.step, cursor]
    cases hd : s.drains d <;> rfl
  | read d =>
    simp only [step, cursorAction, Cursor.step, cursor]
    cases hd : s.drains d <;> rfl
  | dispatch d =>
    cases hd : s.drains d with
    | fetched after rows =>
      have hrows := foldl_dispatchRow_cursor rows s
      have hvisible := congrArg Cursor.State.visible hrows
      have hmark := congrArg Cursor.State.watermark hrows
      have hgiven := congrArg Cursor.State.given hrows
      have hphase := congrArg Cursor.State.phase hrows
      simp only [step, cursorAction, Cursor.step, hd, cursor, setDrain, publishedIds] at *
      rw [hvisible, hmark, hgiven, hphase]
    | _ => simp only [step, cursorAction, Cursor.step, hd, cursor]
  | fail d => rfl
  | progress runId jobId => exact publish_cursor_of_level s rfl
  | roster =>
    simp only [step, cursorAction]
    split
    · exact publish_cursor_of_level s rfl
    · rfl
  | _ => rfl

end Live

end CommerceCollector
