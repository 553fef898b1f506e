import CommerceCollector.Stream.Replay

/-!
# Replay and live stream together

A client that joins is given the rows behind its `Last-Event-ID` by three sources: the buffer, the
event log and the drains.  With serialised drains, the sources meet without gap, duplicate or
reordering in every run in which nothing comes between the replay and the drains
(`replay_joins_live`).  A row that commits while the replay waits reaches the client twice
(`row_offered_twice`).
-/

namespace CommerceCollector

open Relational

/-! ## What reaches the queue of a client -/

theorem LogRow.message_topic_ne_progress (r : LogRow) : r.message.topic ≠ .progress := by
  rw [LogRow.message]
  cases r.edge.topic <;> simp [Topic.stream]

namespace Subscriber

variable {s : Subscriber} {m : Message}

theorem offer_of_room (hm : m.topic ≠ .progress) (hroom : s.queue.length < queueLimit) :
    s.offer m = { s with queue := s.queue ++ [m] } := by
  simp [offer, hm, putNowait, hroom]

/-- A message that does not fit is answered by `resync`. -/
theorem offer_of_full (hm : m.topic ≠ .progress) (hfull : ¬ s.queue.length < queueLimit) :
    s.offer m = { s with resync := true } := by
  simp [offer, hm, putNowait, hfull]

/-- What a subscriber wants does not change when it is offered a message. -/
theorem offer_wants (s : Subscriber) (m : Message) : (s.offer m).wants = s.wants := by
  by_cases hm : m.topic = .progress
  · simp only [offer, hm, if_true]
    split <;> rfl
  · by_cases hroom : s.queue.length < queueLimit
    · rw [offer_of_room hm hroom]
      rfl
    · rw [offer_of_full hm hroom]
      rfl

end Subscriber

namespace Client

variable {c : Client} {m : Message}

section

variable (c : Client)

@[simp] theorem offer_lastEventId (m : Message) :
    (c.offer m).lastEventId = c.lastEventId := rfl

@[simp] theorem offer_phase (m : Message) : (c.offer m).phase = c.phase := rfl

@[simp] theorem publish_lastEventId (m : Message) :
    (c.publish m).lastEventId = c.lastEventId := by
  unfold publish
  split <;> rfl

@[simp] theorem publish_phase (m : Message) : (c.publish m).phase = c.phase := by
  unfold publish
  split <;> rfl

theorem publish_wants (m : Message) : (c.publish m).wants = c.wants := by
  unfold publish
  split
  · funext r
    exact congrFun (c.subscriber.offer_wants m) r.message
  · rfl

@[simp] theorem publishAll_lastEventId (ms : List Message) :
    (c.publishAll ms).lastEventId = c.lastEventId :=
  Trace.foldl_keep (g := Client.lastEventId) publish_lastEventId c ms

@[simp] theorem publishAll_phase (ms : List Message) :
    (c.publishAll ms).phase = c.phase :=
  Trace.foldl_keep (g := Client.phase) publish_phase c ms

theorem publishAll_wants (ms : List Message) : (c.publishAll ms).wants = c.wants :=
  Trace.foldl_keep (g := Client.wants) publish_wants c ms

/-- What an offer does: a progress message waits, another message is put on the queue, or the client
is told to resync. -/
theorem offer_cases (m : Message) :
    (m.topic = .progress ∧ (c.offer m).queued = c.queued ∧
        (c.offer m).subscriber.resync = c.subscriber.resync) ∨
      (m.topic ≠ .progress ∧ (c.offer m).queued = c.queued ++ [m] ∧
        (c.offer m).subscriber.resync = c.subscriber.resync) ∨
      m.topic ≠ .progress ∧ (c.offer m).queued = c.queued ∧
        (c.offer m).subscriber.resync = true := by
  by_cases hm : m.topic = .progress
  · refine Or.inl ⟨hm, ?_⟩
    simp only [offer, put, Subscriber.offer, hm, if_true]
    split <;> simp
  · refine Or.inr ?_
    by_cases hroom : c.subscriber.queue.length < queueLimit
    · refine Or.inl ⟨hm, ?_⟩
      simp [offer, put, Subscriber.offer_of_room hm hroom]
    · refine Or.inr ⟨hm, ?_⟩
      simp [offer, put, Subscriber.offer_of_full hm hroom]

end

/-- A client that was offered a `resync` keeps it. -/
theorem Resynced.offer (h : c.Resynced) (m : Message) : (c.offer m).Resynced := by
  rcases c.offer_cases m with ⟨-, hqueued, hresync⟩ | ⟨-, hqueued, hresync⟩ | ⟨-, -, hresync⟩
  · rw [Resynced, hqueued, hresync]
    exact h
  · rw [Resynced, hqueued, hresync]
    refine h.imp_right ?_
    rintro ⟨m', hm', htopic⟩
    exact ⟨m', List.mem_append_left _ hm', htopic⟩
  · exact Or.inl hresync

theorem Resynced.publish (h : c.Resynced) (m : Message) : (c.publish m).Resynced := by
  unfold Client.publish
  split
  · exact h.offer m
  · exact h

theorem Resynced.publishAll (h : c.Resynced) (ms : List Message) : (c.publishAll ms).Resynced := by
  induction ms generalizing c with
  | nil => exact h
  | cons m ms ih => exact ih (h.publish m)

/-- The message `resync` is offered. -/
theorem resynced_offer_resync (c : Client) : (c.offer .resync).Resynced := by
  rcases c.offer_cases .resync with ⟨hprogress, -⟩ | ⟨-, hqueued, -⟩ | ⟨-, -, hresync⟩
  · exact absurd hprogress (by decide)
  · refine Or.inr ⟨.resync, ?_, rfl⟩
    rw [hqueued]
    simp
  · exact Or.inl hresync

theorem publish_level (hm : m.eventId = none) : (c.publish m).queuedIds = c.queuedIds := by
  unfold publish
  split
  · rcases c.offer_cases m with ⟨-, hqueued, -⟩ | ⟨-, hqueued, -⟩ | ⟨-, hqueued, -⟩ <;>
      simp [queuedIds, hqueued, hm]
  · rfl

/-- The messages of rows put the ids of the wanted rows on the queue, unless the queue is full. -/
theorem publishAll_rows (c : Client) (rows : List LogRow) :
    (c.publishAll (rows.map LogRow.message)).Resynced ∨
      (c.publishAll (rows.map LogRow.message)).queuedIds =
        c.queuedIds ++ (rows.filter c.wants).map LogRow.id := by
  induction rows generalizing c with
  | nil => exact Or.inr (by simp [publishAll])
  | cons r rows ih =>
    have hfold : c.publishAll ((r :: rows).map LogRow.message) =
        (c.publish r.message).publishAll (rows.map LogRow.message) := rfl
    rw [hfold]
    cases hwants : c.wants r with
    | false =>
      have hsame : c.publish r.message = c := if_neg (by simpa [wants] using hwants)
      rw [hsame, List.filter_cons_of_neg (by simp [hwants])]
      exact ih c
    | true =>
      have hoffer : c.publish r.message = c.offer r.message := if_pos hwants
      rcases c.offer_cases r.message with ⟨hprogress, -⟩ | ⟨-, hqueued, -⟩ | ⟨-, -, hresync⟩
      · exact absurd hprogress r.message_topic_ne_progress
      · refine (ih (c.publish r.message)).imp_right fun hids => ?_
        have hfirst : (c.publish r.message).queuedIds = c.queuedIds ++ [r.id] := by
          rw [hoffer, queuedIds, hqueued, List.filterMap_append]
          rfl
        rw [hids, hfirst, publish_wants, List.filter_cons_of_pos hwants]
        simp
      · have hresynced : (c.publish r.message).Resynced := hoffer ▸ Or.inl hresync
        exact Or.inl (hresynced.publishAll _)

/-- The pending progress messages are levels. -/
def Levels (c : Client) : Prop := ∀ p ∈ c.subscriber.pendingProgress, p.2.eventId = none

theorem Levels.offer (h : c.Levels) (hm : m.topic = .progress → m.eventId = none) :
    (c.offer m).Levels := by
  unfold Levels Client.offer put Subscriber.offer
  split
  · next hprogress =>
    split
    · exact h
    · intro p hp
      obtain ⟨q, hq, rfl⟩ := mem_update.mp hp
      split
      · exact hm hprogress
      · rcases mem_insertNew hq with hold | rfl
        · exact h q hold
        · exact hm hprogress
  · next hprogress =>
    by_cases hroom : c.subscriber.queue.length < queueLimit
    · simp only [Subscriber.putNowait, hroom, if_true]
      exact h
    · simp only [Subscriber.putNowait, hroom, if_false, Option.getD_none]
      exact h

theorem Levels.publish (h : c.Levels) (hm : m.topic = .progress → m.eventId = none) :
    (c.publish m).Levels := by
  unfold Client.publish
  split
  · exact h.offer hm
  · exact h

theorem Levels.publishAll_rows (h : c.Levels) (rows : List LogRow) :
    (c.publishAll (rows.map LogRow.message)).Levels := by
  induction rows generalizing c with
  | nil => exact h
  | cons r rows ih =>
    apply ih
    apply h.publish
    intro hprogress
    exact absurd hprogress r.message_topic_ne_progress

theorem publishAll_level {ms : List Message} (hms : ∀ m ∈ ms, m.eventId = none) (c : Client) :
    (c.publishAll ms).queuedIds = c.queuedIds ∧ (c.Levels → (c.publishAll ms).Levels) := by
  induction ms generalizing c with
  | nil => exact ⟨rfl, id⟩
  | cons m ms ih =>
    have hm := hms m (by simp)
    obtain ⟨hids, hlevels⟩ := ih (fun m hm => hms m (List.mem_cons_of_mem _ hm)) (c.publish m)
    exact ⟨hids.trans (publish_level hm), fun h => hlevels (h.publish fun _ => hm)⟩

theorem flush_queue (s : Subscriber) (pending : List (Uuid × Message)) :
    ∃ new, (pending.foldl (fun s p => (s.putNowait p.2).getD s) s) =
        { s with queue := s.queue ++ new } ∧ ∀ m ∈ new, ∃ p ∈ pending, p.2 = m := by
  induction pending generalizing s with
  | nil => exact ⟨[], by simp, by simp⟩
  | cons p pending ih =>
    rw [List.foldl_cons]
    by_cases hroom : s.queue.length < queueLimit
    · obtain ⟨new, heq, hnew⟩ := ih { s with queue := s.queue ++ [p.2] }
      have hput : s.putNowait p.2 = some { s with queue := s.queue ++ [p.2] } := if_pos hroom
      refine ⟨p.2 :: new, ?_, ?_⟩
      · rw [hput, Option.getD_some, heq]
        simp
      · intro m hm
        rcases List.mem_cons.mp hm with rfl | hm
        · exact ⟨p, by simp, rfl⟩
        · obtain ⟨q, hq, rfl⟩ := hnew m hm
          exact ⟨q, List.mem_cons_of_mem _ hq, rfl⟩
    · obtain ⟨new, heq, hnew⟩ := ih s
      have hput : s.putNowait p.2 = none := if_neg hroom
      refine ⟨new, ?_, fun m hm => ?_⟩
      · rw [hput, Option.getD_none, heq]
      · obtain ⟨q, hq, rfl⟩ := hnew m hm
        exact ⟨q, List.mem_cons_of_mem _ hq, rfl⟩

theorem flush_queuedIds (h : c.Levels) :
    (c.put c.subscriber.flushProgress).queuedIds = c.queuedIds ∧
      (c.put c.subscriber.flushProgress).wants = c.wants ∧
      (c.put c.subscriber.flushProgress).Levels ∧
      (c.Resynced → (c.put c.subscriber.flushProgress).Resynced) := by
  obtain ⟨new, heq, hnew⟩ := flush_queue c.subscriber c.subscriber.pendingProgress
  have hflush : c.put c.subscriber.flushProgress =
      { c with
        subscriber :=
          { c.subscriber with queue := c.subscriber.queue ++ new, pendingProgress := [] }
        queued := c.queued ++ new } := by
    simp only [put, Subscriber.flushProgress, heq, List.drop_left]
  have hlevels : new.filterMap Message.eventId = [] := by
    refine List.filterMap_eq_nil_iff.mpr fun m hm => ?_
    obtain ⟨p, hp, rfl⟩ := hnew m hm
    exact h p hp
  rw [hflush]
  refine ⟨?_, rfl, nofun, ?_⟩
  · simp [queuedIds, hlevels]
  · rintro (hresync | ⟨m, hm, htopic⟩)
    · exact Or.inl hresync
    · exact Or.inr ⟨m, List.mem_append_left _ hm, htopic⟩

end Client

/-! ## What the stream keeps -/

namespace Joining

/-- The buffer holds the last published rows. -/
def Buffered (s : Live) : Prop :=
  ∃ dropped kept : List LogRow, s.publishedIds = (dropped ++ kept).map LogRow.id ∧
    s.broker.buffer = kept.map LogRow.message ∧ ∀ r ∈ kept, r ∈ s.log.visible

/-- The invariant of the stream. -/
structure StreamInv (start : ℕ) (s : Live) : Prop where
  cursor : Cursor.Inv LogRow.id start s.cursor
  noSkip : Cursor.NoSkip LogRow.id start s.cursor
  alone : Cursor.Alone s.cursor
  increasing : s.publishedIds.Pairwise (· < ·)
  above : ∀ i ∈ s.publishedIds, start < i
  buffered : Buffered s

theorem Buffered.dispatchRow {s : Live} (h : Buffered s) {row : LogRow}
    (hrow : row ∈ s.log.visible) : Buffered (s.dispatchRow row) := by
  obtain ⟨dropped, kept, hids, hbuffer, hkept⟩ := h
  have hnew : (s.dispatchRow row).publishedIds = s.publishedIds ++ [row.id] :=
    congrArg Cursor.State.given (Live.dispatchRow_cursor s row)
  let k := s.broker.buffer.length + 1 - bufferSize
  refine ⟨dropped ++ (kept ++ [row]).take k, (kept ++ [row]).drop k, ?_, ?_, ?_⟩
  · rw [List.append_assoc, List.take_append_drop, hnew, hids]
    simp
  · have hlist : s.broker.buffer ++ [row.message] = (kept ++ [row]).map LogRow.message := by
      rw [hbuffer]
      simp
    rw [List.map_drop, ← hlist]
    simp only [Live.dispatchRow, Live.publish, Broker.publish, LogRow.message, Option.isSome_some,
      if_true, k]
  · intro r hr
    rcases List.mem_append.mp (List.mem_of_mem_drop hr) with hold | hnew
    · exact hkept r hold
    · rw [List.mem_singleton.mp hnew]
      exact hrow

variable {rows : List LogRow}

theorem Buffered.foldl_dispatchRow {s : Live} (h : Buffered s)
    (hrows : ∀ r ∈ rows, r ∈ s.log.visible) : Buffered (rows.foldl Live.dispatchRow s) := by
  induction rows generalizing s with
  | nil => exact h
  | cons row rows ih =>
    apply ih (h.dispatchRow (hrows row (by simp)))
    intro r hr
    exact hrows r (List.mem_cons_of_mem _ hr)

theorem Buffered.publish_level {s : Live} (h : Buffered s) {m : Message} (hm : m.eventId = none) :
    Buffered (s.publish m) := by
  obtain ⟨dropped, kept, hids, hbuffer, hkept⟩ := h
  refine ⟨dropped, kept, ?_, ?_, hkept⟩
  · have hsame := congrArg Cursor.State.given (Live.publish_cursor_of_level s hm)
    exact hsame.trans hids
  · simp [Live.publish, Broker.publish, hm, hbuffer]

theorem mem_visible_step {s : Live} {r : LogRow} (hr : r ∈ s.log.visible) (a : LiveAction) :
    r ∈ (s.step a).log.visible := by
  rcases Live.step_cursor_cases s a with ⟨heq, -⟩ | ⟨b, heq, -⟩
  · have hvisible := congrArg Cursor.State.visible heq
    rw [show (s.step a).log.visible = s.log.visible from hvisible]
    exact hr
  · have hvisible := congrArg Cursor.State.visible heq
    rw [show (s.step a).log.visible = _ from hvisible]
    exact Cursor.mem_visible_step LogRow.id drainLimit hr b

theorem Buffered.step {s : Live} (h : Buffered s)
    (hheld : ∀ d after rows, s.drains d = .fetched after rows → ∀ r ∈ rows, r ∈ s.log.visible)
    (a : LiveAction) : Buffered (s.step a) := by
  cases a with
  | write w =>
    obtain ⟨dropped, kept, hids, hbuffer, hkept⟩ := h
    exact ⟨dropped, kept, hids, hbuffer, fun r hr => mem_visible_step (hkept r hr) (.write w)⟩
  | ask d =>
    simp only [Live.step]
    split <;> exact h
  | read d =>
    simp only [Live.step]
    split <;> exact h
  | dispatch d =>
    simp only [Live.step]
    split
    · next after rows hfetched => exact h.foldl_dispatchRow (hheld d after rows hfetched)
    · exact h
  | progress runId jobId => exact h.publish_level rfl
  | roster =>
    simp only [Live.step]
    split
    · exact h.publish_level rfl
    · exact h
  | _ => exact h

variable {a : LiveAction}

theorem takesTurns_of_cursorAction {s : Live} {b : Cursor.Action LogRow Drainer}
    (h : s.cursorAction a = some b)
    (hserial : ∀ d, a = .ask d → ∀ e, idle s e = true) : Cursor.TakesTurns s.cursor b := by
  cases b with
  | ask d =>
    have ha : a = .ask d := by
      cases a with
      | ask e => rw [Cursor.Action.ask.inj (Option.some.inj h)]
      | write w => cases w <;> exact absurd h (by simp [Live.cursorAction])
      | _ => exact absurd h (by simp [Live.cursorAction])
    intro e
    have hidle := hserial d ha e
    unfold idle at hidle
    simp only [Live.cursor]
    cases hphase : s.drains e with
    | idle => rfl
    | asked w => simp [hphase] at hidle
    | fetched w rows => simp [hphase] at hidle
  | _ => trivial

theorem streamInv_start (log : EventLog) : StreamInv log.maxId (.start log) where
  cursor := Live.inv_start log
  noSkip := by
    refine ⟨fun r _ hlow hhigh => absurd hhigh (not_le.mpr hlow), ?_⟩
    exact fun d after rows h => absurd h (by simp [Live.cursor, Live.start])
  alone := by
    constructor
    · exact fun d w h => absurd h (by simp [Live.cursor, Live.start, Cursor.Phase.noted])
    · exact fun d e h => absurd rfl h
  increasing := List.Pairwise.nil
  above := nofun
  buffered := ⟨[], [], rfl, rfl, nofun⟩

variable {start : ℕ} {s : Live}

theorem StreamInv.publish_level (h : StreamInv start s) {m : Message} (hm : m.eventId = none) :
    StreamInv start (s.publish m) := by
  have hsame := Live.publish_cursor_of_level s hm
  have hids : (s.publish m).publishedIds = s.publishedIds := congrArg Cursor.State.given hsame
  refine ⟨?_, ?_, ?_, ?_, ?_, h.buffered.publish_level hm⟩
  · exact hsame ▸ h.cursor
  · exact hsame ▸ h.noSkip
  · exact hsame ▸ h.alone
  · exact hids ▸ h.increasing
  · exact hids ▸ h.above

/-- Every step keeps the invariant, if rows commit ahead and the drains are serialised. -/
theorem StreamInv.step (h : StreamInv start s) (hahead : s.CommitsAhead a)
    (hserial : ∀ d, a = .ask d → ∀ e, idle s e = true) : StreamInv start (s.step a) := by
  have hbuffered : Buffered (s.step a) := by
    refine h.buffered.step ?_ a
    intro d after rows hfetched r hr
    exact (h.cursor.held d after rows hfetched r hr).1
  rcases Live.step_cursor_cases s a with ⟨heq, -⟩ | ⟨b, heq, hb⟩
  · have hids : (s.step a).publishedIds = s.publishedIds := congrArg Cursor.State.given heq
    refine ⟨Live.inv_step h.cursor a, ?_, ?_, ?_, ?_, hbuffered⟩
    · exact heq ▸ h.noSkip
    · exact heq ▸ h.alone
    · exact hids ▸ h.increasing
    · exact hids ▸ h.above
  · have hids : (s.step a).publishedIds = (Cursor.step LogRow.id drainLimit s.cursor b).given :=
      congrArg Cursor.State.given heq
    refine ⟨Live.inv_step h.cursor a, ?_, ?_, ?_, ?_, hbuffered⟩
    · rw [heq]
      exact h.noSkip.step h.cursor (Live.ahead_of_cursorAction hb hahead)
    · rw [heq]
      exact h.alone.step (takesTurns_of_cursorAction hb hserial)
    · rw [hids]
      exact Cursor.pairwise_given_step h.cursor h.increasing (h.alone.undisturbed b)
    · rw [hids]
      rcases Cursor.given_step LogRow.id drainLimit s.cursor b with
        ⟨hsame, -⟩ | ⟨d, after, rows, -, hphase, hgiven, -⟩
      · rw [hsame]
        exact h.above
      · intro i hi
        rw [hgiven] at hi
        rcases List.mem_append.mp hi with hold | hnew
        · exact h.above i hold
        · obtain ⟨r, hr, rfl⟩ := List.mem_map.mp hnew
          have hafter := (h.cursor.held d after rows hphase r hr).2
          have hstart := (h.cursor.fetched d after rows hphase).1
          omega

/-! ## What a step publishes -/

theorem foldl_dispatchRow_published (rows : List LogRow) (s : Live) :
    (rows.foldl Live.dispatchRow s).published = s.published ++ rows.map LogRow.message := by
  induction rows generalizing s with
  | nil => simp
  | cons r rows ih =>
    rw [List.foldl_cons, ih]
    simp [Live.dispatchRow, Live.publish]

theorem news_dispatch {d : Drainer} {after : ℕ} (hfetched : s.drains d = .fetched after rows) :
    news s (.dispatch d) = rows.map LogRow.message := by
  have hpublished : (s.step (.dispatch d)).published = s.published ++ rows.map LogRow.message := by
    simp only [Live.step, hfetched]
    exact foldl_dispatchRow_published rows s
  rw [news, hpublished, List.drop_left]

theorem news_level (ha : ∀ d ∈ a.dispatches, ∀ after rows, s.drains d ≠ .fetched after rows) :
    ∀ m ∈ news s a, m.eventId = none := by
  have hnone : ∀ {t : Live}, t.published = s.published →
      ∀ m ∈ t.published.drop s.published.length, m.eventId = none := by
    intro t ht m hm
    rw [ht, List.drop_length] at hm
    exact absurd hm (by simp)
  have hlevel : ∀ l : Message, l.eventId = none →
      ∀ m ∈ (s.published ++ [l]).drop s.published.length, m.eventId = none := by
    intro l hl m hm
    rw [List.drop_left, List.mem_singleton] at hm
    rw [hm, hl]
  unfold news
  cases a with
  | dispatch d =>
    have hsame : s.step (.dispatch d) = s := by
      cases hphase : s.drains d with
      | fetched after rows => exact absurd hphase (ha d rfl after rows)
      | _ => simp only [Live.step, hphase]
    rw [hsame]
    exact hnone rfl
  | progress runId jobId => exact hlevel _ rfl
  | roster =>
    simp only [Live.step]
    split
    · exact hlevel _ rfl
    · exact hnone rfl
  | ask d =>
    apply hnone
    simp only [Live.step]
    split <;> rfl
  | read d =>
    apply hnone
    simp only [Live.step]
    split <;> rfl
  | _ => exact hnone rfl

/-! ## The client beside the stream -/

variable {c : Client} {low : ℤ}

variable {c' : Client}

/-- What was put on the queue stays exact when nothing numbered is put on it and rows only become
visible above the watermark. -/
theorem Exactly.quiet {s' : Live} (h : Exactly s c low) (hids : c'.queuedIds = c.queuedIds)
    (hwants : c'.wants = c.wants) (hmark : s'.broker.watermark = s.broker.watermark)
    (hkeep : ∀ r ∈ s.log.visible, r ∈ s'.log.visible)
    (hnew : ∀ r ∈ s'.log.visible, r ∈ s.log.visible ∨ s.broker.watermark < r.id) :
    Exactly s' c' low := by
  refine ⟨hids ▸ h.increasing, fun i => ?_⟩
  rw [hids, h.mem_iff, hwants, hmark]
  constructor
  · rintro ⟨r, hr, hrest⟩
    exact ⟨r, hkeep r hr, hrest⟩
  · rintro ⟨r, hr, hid, hwanted, hlow, hle⟩
    rcases hnew r hr with hold | habove
    · exact ⟨r, hold, hid, hwanted, hlow, hle⟩
    · omega

/-- What was put on the queue stays exact when a drain publishes its rows. -/
theorem Exactly.dispatch (hinv : StreamInv start s) (h : Exactly s c low) {d : Drainer} {after : ℕ}
    (hfetched : s.drains d = .fetched after rows)
    (hlow : ∀ r ∈ rows, c.wants r = true → low < r.id) :
    (c.publishAll (rows.map LogRow.message)).Resynced ∨
      Exactly (s.step (.dispatch d)) (c.publishAll (rows.map LogRow.message)) low := by
  refine (c.publishAll_rows rows).imp_right fun hids => ?_
  have hcursor : (s.step (.dispatch d)).cursor =
      Cursor.step LogRow.id drainLimit s.cursor (.give d) := Live.step_cursor s (.dispatch d)
  have hphase : s.cursor.phase d = .fetched after rows := hfetched
  have hvisible : (s.step (.dispatch d)).log.visible = s.log.visible := by
    have hgive := congrArg Cursor.State.visible hcursor
    simp only [Cursor.step, hphase] at hgive
    exact hgive
  have hmark : (s.step (.dispatch d)).broker.watermark =
      Cursor.raise LogRow.id s.broker.watermark rows := by
    have hgive := congrArg Cursor.State.watermark hcursor
    simp only [Cursor.step, hphase] at hgive
    exact hgive
  have hafter : after = s.broker.watermark :=
    hinv.alone.current d after (by rw [hphase, Cursor.Phase.noted])
  have habove : ∀ r ∈ rows, s.broker.watermark < r.id := by
    intro r hr
    exact hafter ▸ (hinv.cursor.held d after rows hphase r hr).2
  refine ⟨?_, fun i => ?_⟩
  · rw [hids, List.pairwise_append]
    refine ⟨h.increasing, ?_, ?_⟩
    · exact List.pairwise_map.mpr
        ((hinv.cursor.increasing d after rows hphase).sublist List.filter_sublist)
    · intro i hi j hj
      obtain ⟨r, hr, rfl⟩ := List.mem_map.mp hj
      obtain ⟨-, -, -, -, -, hle⟩ := (h.mem_iff i).mp hi
      have hlt := habove r (List.mem_filter.mp hr).1
      omega
  · rw [hids, List.mem_append, h.mem_iff, hvisible, hmark, Client.publishAll_wants]
    constructor
    · rintro (⟨r, hr, hid, hwanted, hbehind, hle⟩ | hnew)
      · have hraise := Cursor.le_raise LogRow.id s.broker.watermark rows
        exact ⟨r, hr, hid, hwanted, hbehind, by omega⟩
      · obtain ⟨r, hr, rfl⟩ := List.mem_map.mp hnew
        obtain ⟨hrow, hwanted⟩ := List.mem_filter.mp hr
        refine ⟨r, (hinv.cursor.held d after rows hphase r hrow).1, rfl, hwanted, ?_, ?_⟩
        · exact hlow r hrow hwanted
        · exact Cursor.key_le_raise LogRow.id _ hrow
    · rintro ⟨r, hr, rfl, hwanted, hbehind, hle⟩
      by_cases hold : r.id ≤ s.broker.watermark
      · exact Or.inl ⟨r, hr, rfl, hwanted, hbehind, hold⟩
      · -- the row lies within the page that raises the watermark
        rcases Cursor.raise_eq LogRow.id s.broker.watermark rows with hsame | ⟨v, hv, hkey⟩
        · omega
        · have hmem := hinv.noSkip.closed d after rows hphase r hr (by omega) v hv (by omega)
          exact Or.inr (List.mem_map_of_mem (List.mem_filter.mpr ⟨hmem, hwanted⟩))

/-- The rows that a replay holds: it has read every row behind the `Last-Event-ID` and up to the
watermark of the moment it was asked. -/
structure Snapshot (s : Live) (lastEventId : ℤ) (mark : ℕ) (rows : List LogRow) : Prop where
  visible : ∀ r ∈ rows, r ∈ s.log.visible
  behind : ∀ r ∈ rows, lastEventId < r.id
  increasing : rows.Pairwise fun a b => a.id < b.id
  complete : ∀ r ∈ s.log.visible, lastEventId < r.id → r.id ≤ mark → r ∈ rows

/-- A replay under way, asked at a watermark: the client was given exactly the rows behind this
watermark. -/
structure Waiting (s : Live) (c : Client) (mark : ℕ) : Prop where
  le_watermark : mark ≤ s.broker.watermark
  reach : (mark : ℤ) ≤ c.lastEventId + maxReplay
  snapshot : ∀ rows, c.phase = .fetched rows → Snapshot s c.lastEventId mark rows
  exactly : c.Resynced ∨ Exactly s c (max mark c.lastEventId)

/-- The invariant of a client. -/
structure ClientInv (s : Live) (c : Client) : Prop where
  levels : c.Levels
  done : c.phase = .done → c.Resynced ∨ Exactly s c c.lastEventId
  waiting : c.phase ≠ .done → ∃ mark, Waiting s c mark

/-- What a step of the stream does to a client. -/
structure Follows (s : Live) (c : Client) (s' : Live) (c' : Client) : Prop where
  phase : c'.phase = c.phase
  lastEventId : c'.lastEventId = c.lastEventId
  levels : c.Levels → c'.Levels
  watermark : s.broker.watermark ≤ s'.broker.watermark
  keep : ∀ r ∈ s.log.visible, r ∈ s'.log.visible
  new : ∀ r ∈ s'.log.visible, r ∈ s.log.visible ∨ s.broker.watermark < r.id
  exactly : ∀ low : ℤ, low ≤ max (s.broker.watermark : ℤ) c.lastEventId →
    c.Resynced ∨ Exactly s c low → c'.Resynced ∨ Exactly s' c' low

theorem Follows.snapshot {s' : Live} (h : Follows s c s' c') {n : ℤ} {mark : ℕ}
    (hmark : mark ≤ s.broker.watermark) (hrows : Snapshot s n mark rows) :
    Snapshot s' n mark rows := by
  refine ⟨fun r hr => h.keep r (hrows.visible r hr), hrows.behind, hrows.increasing, ?_⟩
  intro r hr hbehind hle
  rcases h.new r hr with hold | habove
  · exact hrows.complete r hold hbehind hle
  · omega

theorem Follows.clientInv {s' : Live} (h : Follows s c s' c')
    (hinv : ClientInv s c) : ClientInv s' c' := by
  refine ⟨h.levels hinv.levels, fun hphase => ?_, fun hphase => ?_⟩
  · rw [h.phase] at hphase
    rw [h.lastEventId]
    exact h.exactly c.lastEventId (le_max_right _ _) (hinv.done hphase)
  · rw [h.phase] at hphase
    obtain ⟨mark, hwait⟩ := hinv.waiting hphase
    have hmark := hwait.le_watermark
    refine ⟨mark, hmark.trans h.watermark, ?_, ?_, ?_⟩
    · rw [h.lastEventId]
      exact hwait.reach
    · intro rows hrows
      rw [h.phase] at hrows
      rw [h.lastEventId]
      exact h.snapshot hmark (hwait.snapshot rows hrows)
    · rw [h.lastEventId]
      exact h.exactly _ (by omega) hwait.exactly

theorem visible_step_shows (s : Live) (a : LiveAction) :
    ∀ r ∈ (s.step a).log.visible, r ∈ s.log.visible ∨ r ∈ s.shows a := by
  intro r hr
  rcases Live.step_cursor_cases s a with ⟨heq, -⟩ | ⟨b, heq, hb⟩
  · have hvisible := congrArg Cursor.State.visible heq
    exact Or.inl (show r ∈ s.cursor.visible from hvisible ▸ hr)
  · have hvisible := congrArg Cursor.State.visible heq
    have hmem : r ∈ (Cursor.step LogRow.id drainLimit s.cursor b).visible := hvisible ▸ hr
    rcases Cursor.visible_step LogRow.id drainLimit s.cursor b with hsame | ⟨rows, rfl, hnew⟩
    · exact Or.inl (show r ∈ s.cursor.visible from hsame ▸ hmem)
    · obtain ⟨writer, rfl, rfl⟩ := Live.cursorAction_append hb
      rw [hnew] at hmem
      exact List.mem_append.mp hmem

theorem watermark_step_of_level
    (ha : ∀ d ∈ a.dispatches, ∀ after rows, s.drains d ≠ .fetched after rows) :
    (s.step a).broker.watermark = s.broker.watermark := by
  rcases Live.step_cursor_cases s a with ⟨heq, -⟩ | ⟨b, heq, hb⟩
  · exact congrArg Cursor.State.watermark heq
  · refine (congrArg Cursor.State.watermark heq).trans ?_
    rcases Cursor.given_step LogRow.id drainLimit s.cursor b with
      ⟨-, hsame⟩ | ⟨d, after, rows, rfl, hphase, -, -⟩
    · exact hsame
    · obtain rfl := Live.cursorAction_give hb
      exact absurd hphase (ha d rfl after rows)

theorem follows_publishAll (hinv : StreamInv start s) (hahead : s.CommitsAhead a)
    (hcalm : ∀ d ∈ a.dispatches, ∀ p ∈ s.fetched d, ∀ r ∈ p.2, c.wants r = true →
      c.lastEventId < r.id) : Follows s c (s.step a) (c.publishAll (news s a)) := by
  have hnew : ∀ r ∈ (s.step a).log.visible, r ∈ s.log.visible ∨ s.broker.watermark < r.id := by
    intro r hr
    exact (visible_step_shows s a r hr).imp_right fun hshown => (hahead r hshown).1
  have hkeep : ∀ r ∈ s.log.visible, r ∈ (s.step a).log.visible :=
    fun r hr => mem_visible_step hr a
  by_cases hrows : ∃ d after rows, a.dispatches = some d ∧ s.drains d = .fetched after rows
  · obtain ⟨d, after, rows, hd, hfetched⟩ := hrows
    obtain rfl : a = .dispatch d := by
      cases a with
      | dispatch e => rw [Option.some.inj hd]
      | _ => exact absurd hd (by simp [LiveAction.dispatches])
    have hcursor := Live.step_cursor s (.dispatch d)
    have hle : s.broker.watermark ≤ (s.step (.dispatch d)).broker.watermark := by
      rw [show (s.step (.dispatch d)).broker.watermark = _ from
        congrArg Cursor.State.watermark hcursor]
      exact Cursor.watermark_le_step LogRow.id drainLimit s.cursor (.give d)
    rw [news_dispatch hfetched]
    refine ⟨by simp, by simp, fun h => h.publishAll_rows rows, hle, hkeep, hnew, ?_⟩
    rintro low hlow (hresynced | hexactly)
    · exact Or.inl (hresynced.publishAll _)
    · apply hexactly.dispatch hinv hfetched
      intro r hr hwanted
      have hbehind := hcalm d rfl (after, rows) (Live.fetched_eq_some.mpr hfetched) r hr hwanted
      have hafter := (hinv.cursor.held d after rows hfetched r hr).2
      have hmark : after = s.broker.watermark :=
        hinv.alone.current d after (by rw [show s.cursor.phase d = _ from hfetched,
          Cursor.Phase.noted])
      omega
  · have hquiet : ∀ d ∈ a.dispatches, ∀ after rows, s.drains d ≠ .fetched after rows :=
      fun d hd after rows hfetched => hrows ⟨d, after, rows, hd, hfetched⟩
    obtain ⟨hids, hlevels⟩ := Client.publishAll_level (news_level hquiet) c
    have hmark := watermark_step_of_level hquiet
    refine ⟨by simp, by simp, hlevels, hmark.ge, hkeep, hnew, ?_⟩
    rintro low - (hresynced | hexactly)
    · exact Or.inl (hresynced.publishAll _)
    · exact Or.inr (hexactly.quiet hids (c.publishAll_wants _) hmark hkeep hnew)

theorem follows_quiet {s' : Live} (hlog : s'.log = s.log)
    (hmark : s'.broker.watermark = s.broker.watermark) (hphase : c'.phase = c.phase)
    (hid : c'.lastEventId = c.lastEventId) (hlevels : c.Levels → c'.Levels)
    (hids : c'.queuedIds = c.queuedIds) (hwants : c'.wants = c.wants)
    (hresynced : c.Resynced → c'.Resynced) : Follows s c s' c' := by
  refine ⟨hphase, hid, hlevels, hmark.ge, fun r hr => hlog ▸ hr, ?_, ?_⟩
  · exact fun r hr => Or.inl (hlog ▸ hr)
  · rintro low - (hold | hexactly)
    · exact Or.inl (hresynced hold)
    · refine Or.inr (hexactly.quiet hids hwants hmark (fun r hr => hlog ▸ hr) ?_)
      exact fun r hr => Or.inl (hlog ▸ hr)

/-! ## The replay -/

/-- The page of the replay holds every row behind the `Last-Event-ID` and up to a watermark that is
not too far ahead. -/
theorem snapshot_replayPage (hinv : StreamInv start s) {n : ℤ} {mark : ℕ}
    (hreach : (mark : ℤ) ≤ n + maxReplay) : Snapshot s n mark (s.log.replayPage n) := by
  have hkeyed : Keyed (fun r : LogRow => r.id + 1) s.log.visible := by
    have hids : (s.log.visible.map LogRow.id).Nodup := hinv.cursor.keyed
    have hsucc := hids.map (f := (· + 1)) fun _ _ h => Nat.add_right_cancel h
    rwa [List.map_map] at hsucc
  refine ⟨fun r hr => (mem_page hr).1, fun r hr => ?_, ?_, fun r hr hbehind hle => ?_⟩
  · have hafter := (mem_page hr).2
    omega
  · exact (hkeyed.pairwise_page _ _).imp fun hlt => by omega
  · apply hkeyed.mem_page hr
    · omega
    · unfold maxReplay at *
      omega

/-- The buffer behind the `Last-Event-ID` holds every published row behind it. -/
theorem exactly_buffered (hinv : StreamInv start s) {n : ℤ} (hne : s.broker.buffered n ≠ [])
    (holdest : (s.broker.oldest : ℤ) ≤ n + 1) (hfresh : c.queuedIds = []) :
    (c.publishAll (s.broker.buffered n)).Resynced ∨
      Exactly s (c.publishAll (s.broker.buffered n)) n := by
  obtain ⟨dropped, kept, hpublished, hbuffer, hvisible⟩ := hinv.buffered
  have hsorted := hinv.increasing
  rw [hpublished, List.map_append, List.pairwise_append] at hsorted
  obtain ⟨-, hkept, hacross⟩ := hsorted
  have hrows : s.broker.buffered n =
      (kept.filter fun r => decide (n < r.id)).map LogRow.message := by
    rw [Broker.buffered, hbuffer, List.filter_map]
    rfl
  have hids : s.broker.buffer.map (fun m => m.eventId.getD 0) = kept.map LogRow.id := by
    rw [hbuffer, List.map_map]
    rfl
  -- the smallest id of the buffer belongs to a kept row
  obtain ⟨o, ho⟩ : ∃ o, (kept.map LogRow.id).min? = some o := by
    rcases hmin : (kept.map LogRow.id).min? with _ | o
    · have hnil : kept = [] := by simpa using List.min?_eq_none_iff.mp hmin
      exact absurd (by simp [hrows, hnil]) hne
    · exact ⟨o, rfl⟩
  have hmin := List.min?_eq_some_iff.mp ho
  have holdest' : (o : ℤ) ≤ n + 1 := by
    rw [Broker.oldest, hids, ho, Option.getD_some] at holdest
    exact holdest
  have hstart : start < o := by
    apply hinv.above
    rw [hpublished, List.map_append]
    exact List.mem_append_right _ hmin.1
  rw [hrows]
  refine (c.publishAll_rows _).imp_right fun hqueued => ⟨?_, fun i => ?_⟩
  · rw [hqueued, hfresh, List.nil_append, List.pairwise_map]
    exact (List.pairwise_map.mp hkept).sublist (List.filter_sublist.trans List.filter_sublist)
  · rw [hqueued, hfresh, List.nil_append, Client.publishAll_wants]
    constructor
    · intro hi
      obtain ⟨r, hr, rfl⟩ := List.mem_map.mp hi
      obtain ⟨hr, hwanted⟩ := List.mem_filter.mp hr
      obtain ⟨hr, hbehind⟩ := List.mem_filter.mp hr
      refine ⟨r, hvisible r hr, rfl, hwanted, of_decide_eq_true hbehind, ?_⟩
      apply hinv.cursor.given_le
      rw [show s.cursor.given = _ from hpublished]
      exact List.mem_map_of_mem (List.mem_append_right _ hr)
    · rintro ⟨r, hr, rfl, hwanted, hbehind, hle⟩
      have hgiven : r.id ∈ s.publishedIds := hinv.noSkip.given r hr (by omega) hle
      rw [hpublished, List.map_append] at hgiven
      rcases List.mem_append.mp hgiven with hdropped | hmem
      · have hlt := hacross r.id hdropped o hmin.1
        omega
      · obtain ⟨v, hv, hid⟩ := List.mem_map.mp hmem
        obtain rfl := hinv.cursor.keyed.eq_of_mem (hvisible v hv) hr hid
        exact List.mem_map_of_mem
          (List.mem_filter.mpr ⟨List.mem_filter.mpr ⟨hv, decide_eq_true hbehind⟩, hwanted⟩)

theorem clientInv_join (hinv : StreamInv start s) (topics : List StreamTopic)
    (runId : Option Uuid) (n : ℤ) : ClientInv s (.join s.broker topics runId n) := by
  unfold Client.join Broker.replaySource
  dsimp only
  by_cases hgap : (maxReplay : ℤ) < s.broker.watermark - n
  · rw [if_pos hgap]
    refine ⟨?_, fun _ => Or.inl (Client.resynced_offer_resync _), fun h => absurd rfl h⟩
    exact Client.Levels.offer nofun nofun
  · rw [if_neg hgap]
    by_cases hbuffer : s.broker.buffered n ≠ [] ∧ (s.broker.oldest : ℤ) ≤ n + 1
    · rw [if_pos hbuffer]
      obtain ⟨dropped, kept, -, hmessages, -⟩ := hinv.buffered
      have hrows : s.broker.buffered n =
          (kept.filter fun r => decide (n < r.id)).map LogRow.message := by
        rw [Broker.buffered, hmessages, List.filter_map]
        rfl
      refine ⟨?_, fun _ => ?_, fun h => absurd (by simp) h⟩
      · rw [hrows]
        exact Client.Levels.publishAll_rows (fun p hp => absurd hp (by simp)) _
      · rw [Client.publishAll_lastEventId]
        exact exactly_buffered hinv hbuffer.1 hbuffer.2 rfl
    · rw [if_neg hbuffer]
      refine ⟨nofun, nofun, fun _ => ⟨s.broker.watermark, le_rfl, ?_, nofun, Or.inr ?_⟩⟩
      · simp only
        omega
      · refine ⟨List.Pairwise.nil, fun i => ⟨nofun, ?_⟩⟩
        rintro ⟨r, -, -, -, hlow, hle⟩
        simp only at hlow
        omega

/-- The rows of the event log are offered to a client that was given nothing in the meantime, or
that wants none of them. -/
theorem exactly_replayRows {mark : ℕ} (hrows : Snapshot s c.lastEventId mark rows)
    (hexactly : Exactly s c (max mark c.lastEventId)) (hcalm : (∀ r ∈ rows, c.wants r = false) ∨
      c.queuedIds = [] ∧ ∀ r ∈ rows, c.wants r = true → r.id ≤ s.broker.watermark) :
    (c.publishAll (rows.map LogRow.message)).Resynced ∨
      Exactly s (c.publishAll (rows.map LogRow.message)) c.lastEventId := by
  refine (c.publishAll_rows rows).imp_right fun hids => ?_
  rcases hcalm with hnone | ⟨hempty, hbelow⟩
  · have hfilter : rows.filter c.wants = [] := List.filter_eq_nil_iff.mpr (by simpa using hnone)
    rw [hfilter, List.map_nil, List.append_nil] at hids
    refine ⟨hids ▸ hexactly.increasing, fun i => ?_⟩
    rw [hids, hexactly.mem_iff, Client.publishAll_wants]
    constructor
    · rintro ⟨r, hr, hid, hwanted, hlow, hle⟩
      exact ⟨r, hr, hid, hwanted, by omega, hle⟩
    · rintro ⟨r, hr, rfl, hwanted, hbehind, hle⟩
      refine ⟨r, hr, rfl, hwanted, ?_, hle⟩
      by_contra hold
      have hmem := hrows.complete r hr hbehind (by omega)
      exact absurd hwanted (by simp [hnone r hmem])
  · rw [hempty, List.nil_append] at hids
    refine ⟨?_, fun i => ?_⟩
    · rw [hids, List.pairwise_map]
      exact hrows.increasing.sublist List.filter_sublist
    · rw [hids, Client.publishAll_wants]
      constructor
      · intro hi
        obtain ⟨r, hr, rfl⟩ := List.mem_map.mp hi
        obtain ⟨hr, hwanted⟩ := List.mem_filter.mp hr
        exact ⟨r, hrows.visible r hr, rfl, hwanted, hrows.behind r hr, hbelow r hr hwanted⟩
      · rintro ⟨r, hr, rfl, hwanted, hbehind, hle⟩
        by_cases hold : r.id ≤ mark
        · have hmem := hrows.complete r hr hbehind hold
          exact List.mem_map_of_mem (List.mem_filter.mpr ⟨hmem, hwanted⟩)
        · -- a drain would have put the row on the queue
          have hqueued := (hexactly.mem_iff r.id).mpr ⟨r, hr, rfl, hwanted, by omega, hle⟩
          rw [hempty] at hqueued
          exact absurd hqueued (by simp)

/-! ## Runs -/

/-- The invariant of the stream and of its client. -/
structure Inv (start : ℕ) (s : Joining) : Prop where
  stream : StreamInv start s.live
  client : ∀ c ∈ s.client, ClientInv s.live c

theorem Inv.mapClient {s : Joining} (h : Inv start s) {f : Client → Client}
    (hf : ∀ c ∈ s.client, ClientInv s.live c → ClientInv s.live (f c)) :
    Inv start { s with client := s.client.map f } := by
  refine ⟨h.stream, fun c hc => ?_⟩
  obtain ⟨c₀, hc₀, rfl⟩ := Option.mem_map.mp hc
  exact hf c₀ hc₀ (h.client c₀ hc₀)

theorem Inv.follow {s : Joining} (h : Inv start s) {live : Live} {f : Client → Client}
    (hstream : StreamInv start live) (hf : ∀ c ∈ s.client, c.Levels → Follows s.live c live (f c)) :
    Inv start { live := live, client := s.client.map f } := by
  refine ⟨hstream, fun c hc => ?_⟩
  obtain ⟨c₀, hc₀, rfl⟩ := Option.mem_map.mp hc
  have hold := h.client c₀ hc₀
  exact (hf c₀ hc₀ hold.levels).clientInv hold

theorem Inv.step_live {s : Joining} (h : Inv start s) (hserial : s.Serialised (.live a))
    (hcalm : s.Calm (.live a)) : Inv start (s.step (.live a)) := by
  have hturns : ∀ d, a = .ask d → ∀ e, idle s.live e = true := by
    rintro d rfl
    exact hserial d rfl
  have hstream : StreamInv start (s.live.step a) := h.stream.step hcalm.1 hturns
  have hnews : Inv start
      { live := s.live.step a
        client := s.client.map fun c => c.publishAll (news s.live a) } :=
    h.follow hstream fun c hc _ => follows_publishAll h.stream hcalm.1 (hcalm.2 c hc)
  cases a with
  | coalesce =>
    refine h.follow hstream fun c _ hlevels => ?_
    obtain ⟨hids, hwants, hflushed, hresynced⟩ := Client.flush_queuedIds hlevels
    exact follows_quiet rfl rfl rfl rfl (fun _ => hflushed) hids hwants hresynced
  | roster =>
    simp only [step]
    split
    · refine h.follow (h.stream.publish_level rfl) fun c _ _ => ?_
      exact follows_quiet rfl rfl (by simp) (by simp) (fun hlevels => hlevels.publish fun _ => rfl)
        (Client.publish_level rfl) (c.publish_wants _) fun hresynced => hresynced.publish _
    · next hworkers =>
      refine ⟨hstream, fun c hc => ?_⟩
      have hquiet : Follows s.live c (s.live.step .roster) c := by
        have hmark := watermark_step_of_level (s := s.live) (a := .roster) nofun
        refine follows_quiet ?_ hmark rfl rfl id rfl rfl id
        simp only [Live.step]
        split <;> rfl
      exact hquiet.clientInv (h.client c hc)
  | _ => exact hnews

theorem Inv.step {s : Joining} (h : Inv start s) {a : JoinAction} (hserial : s.Serialised a)
    (hcalm : s.Calm a) : Inv start (s.step a) := by
  cases a with
  | live a => exact h.step_live hserial hcalm
  | subscribe topics runId n =>
    cases hc : s.client with
    | some c => simpa only [Joining.step, hc] using h
    | none =>
      simp only [Joining.step, hc]
      refine ⟨h.stream, fun c hmem => ?_⟩
      obtain rfl := Option.some.inj hmem
      exact clientInv_join h.stream topics runId n
  | readTable =>
    refine h.mapClient fun c hc hinv => ?_
    split
    · next hasked =>
      obtain ⟨mark, hwait⟩ := hinv.waiting (by simp [hasked])
      refine ⟨hinv.levels, nofun, fun _ => ⟨mark, hwait.le_watermark, hwait.reach, ?_, ?_⟩⟩
      · rintro rows hrows
        obtain rfl := ReplayPhase.fetched.inj hrows
        exact snapshot_replayPage h.stream hwait.reach
      · exact hwait.exactly.imp_right fun hold => ⟨hold.increasing, hold.mem_iff⟩
    · exact hinv
  | replayRows =>
    refine h.mapClient fun c hc hinv => ?_
    split
    · next rows hfetched =>
      obtain ⟨mark, hwait⟩ := hinv.waiting (by simp [hfetched])
      have hheld : held c = rows := by simp only [held, hfetched]
      have hquiet := hcalm c hc
      rw [hheld] at hquiet
      refine ⟨hinv.levels.publishAll_rows rows, fun _ => ?_, fun h => absurd rfl h⟩
      rw [show ({ c.publishAll (rows.map LogRow.message) with phase := .done } : Client).lastEventId
        = c.lastEventId from c.publishAll_lastEventId _]
      rcases hwait.exactly with hresynced | hexactly
      · exact Or.inl (hresynced.publishAll _)
      · refine (exactly_replayRows (hwait.snapshot rows hfetched) hexactly hquiet).imp_right ?_
        exact fun hold => ⟨hold.increasing, hold.mem_iff⟩
    · exact hinv
  | replayFails =>
    refine h.mapClient fun c hc hinv => ?_
    split
    · exact hinv
    · refine ⟨hinv.levels.offer nofun, fun _ => Or.inl ?_, fun h => absurd rfl h⟩
      exact c.resynced_offer_resync
  | receive =>
    refine h.mapClient fun c hc hinv => ?_
    refine Follows.clientInv (s := s.live) ?_ hinv
    exact follows_quiet rfl rfl rfl rfl id rfl rfl id
  | leave => exact ⟨h.stream, nofun⟩

/-- **Replay joins the live stream.**  Let the drains be serialised and let nothing come between
the replay and the drains.  Then every client whose replay is over was offered a `resync`, or the
numbered messages put on its queue are the rows that it wants behind its `Last-Event-ID` and up to
the watermark, each once and in increasing order. -/
theorem replay_joins_live (log : EventLog) {actions : List JoinAction}
    (hserial : Trace.Along step Serialised { live := .start log } actions)
    (hcalm : Trace.Along step Calm { live := .start log } actions) :
    (Joining.after log actions).Joined := by
  have hboth : Trace.Along step (fun s a => s.Serialised a ∧ s.Calm a) { live := .start log }
      actions := Trace.Along.and step hserial hcalm
  have hinv : Inv log.maxId (Joining.after log actions) :=
    Trace.exec_invariant_of_along step (I := Inv log.maxId)
      (fun s a hc h => h.step hc.1 hc.2) ⟨streamInv_start log, nofun⟩ hboth
  intro c hc hdone
  exact (hinv.client c hc).done hdone

/-- The numbered messages put on the queue of the client. -/
def clientIds (s : Joining) : List ℕ := s.client.elim [] Client.queuedIds

/-- A writer inserts a row and commits. -/
def commitRow : List JoinAction :=
  [.live (.write (.insert 1 Live.jobEdge)), .live (.write (.commit 1))]

/-- A task drains the log. -/
def drainLog (d : Drainer) : List JoinAction :=
  [.live (.ask d), .live (.read d), .live (.dispatch d)]

/-- A log with one row, on which the broker starts. -/
def oneRow : EventLog := (EventLog.empty.insert 1 Live.jobEdge).commit 1

/-- A client that has seen nothing joins and is replayed the row of the event log; a second row
commits after the replay. -/
def joinsInTurn : List JoinAction :=
  [.subscribe [.jobs] none 0, .readTable, .replayRows] ++ commitRow ++ drainLog .listen

/-- The client is given the replayed and the live row. -/
theorem joins_in_turn :
    clientIds (Joining.after oneRow joinsInTurn) = [1, 2] ∧
      (Joining.after oneRow joinsInTurn).Joined :=
  ⟨by decide, replay_joins_live oneRow (by decide) (by decide)⟩

/-- A client joins with the last published id; before its query runs, a second row commits.  The
replay offers the row, and so does the next drain. -/
def joinsAcrossCommit : List JoinAction :=
  commitRow ++ drainLog .listen ++ [.subscribe [.jobs] none 1] ++ commitRow ++
    [.readTable, .replayRows] ++ drainLog .listen

/-- The drains are serialised, rows commit in order, and the client is given the row twice. -/
theorem row_offered_twice :
    Trace.Along step Serialised { live := .start .empty } joinsAcrossCommit ∧
      clientIds (Joining.after .empty joinsAcrossCommit) = [2, 2] ∧
      ¬ (Joining.after .empty joinsAcrossCommit).Joined := by
  refine ⟨by decide, by decide, fun hjoined => ?_⟩
  obtain ⟨c, hc, hdone, hresynced, hids⟩ : ∃ c ∈ (Joining.after .empty joinsAcrossCommit).client,
      c.phase = .done ∧ ¬ c.Resynced ∧ c.queuedIds = [2, 2] := by decide
  rcases hjoined c hc hdone with hoffered | hexactly
  · exact hresynced hoffered
  · have hsorted := hexactly.increasing
    rw [hids] at hsorted
    exact absurd hsorted (by decide)

end Joining

end CommerceCollector
