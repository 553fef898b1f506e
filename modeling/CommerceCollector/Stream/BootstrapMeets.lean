import CommerceCollector.Stream.Bootstrap

/-!
# Snapshot and live stream together

With serialised drains, the bootstrap meets the live stream in every run in which rows commit ahead
of the drains and nothing is published between the snapshot and the registration that the replay
does not send again (`bootstrap_meets_stream`).  A client without `Last-Event-ID` is replayed
nothing, so an edge that commits behind the query of its table and is published before the
registration never reaches it (`edge_missed_before_registration`).
-/

namespace CommerceCollector

open Relational

namespace Client

variable {c : Client}

theorem queuedIds_publish (c : Client) (m : Message) : c.queuedIds ⊆ (c.publish m).queuedIds := by
  unfold publish
  split
  · rcases c.offer_cases m with ⟨-, hqueued, -⟩ | ⟨-, hqueued, -⟩ | ⟨-, hqueued, -⟩
    · rw [queuedIds, queuedIds, hqueued]
      exact List.Subset.refl _
    · rw [queuedIds, queuedIds, hqueued, List.filterMap_append]
      exact List.subset_append_left _ _
    · rw [queuedIds, queuedIds, hqueued]
      exact List.Subset.refl _
  · exact List.Subset.refl _

theorem queuedIds_publishAll (c : Client) (ms : List Message) :
    c.queuedIds ⊆ (c.publishAll ms).queuedIds := by
  induction ms generalizing c with
  | nil => exact List.Subset.refl _
  | cons m ms ih => exact List.Subset.trans (c.queuedIds_publish m) (ih (c.publish m))

theorem flush_keeps (c : Client) :
    (c.put c.subscriber.flushProgress).wants = c.wants ∧
      c.queuedIds ⊆ (c.put c.subscriber.flushProgress).queuedIds ∧
      (c.Resynced → (c.put c.subscriber.flushProgress).Resynced) := by
  obtain ⟨new, heq, -⟩ := flush_queue c.subscriber c.subscriber.pendingProgress
  have hflush : c.put c.subscriber.flushProgress =
      { c with
        subscriber :=
          { c.subscriber with queue := c.subscriber.queue ++ new, pendingProgress := [] }
        queued := c.queued ++ new } := by
    simp only [put, Subscriber.flushProgress, heq, List.drop_left]
  rw [hflush]
  refine ⟨rfl, ?_, ?_⟩
  · rw [queuedIds, queuedIds, List.filterMap_append]
    exact List.subset_append_left _ _
  · rintro (hresync | ⟨m, hm, htopic⟩)
    · exact Or.inl hresync
    · exact Or.inr ⟨m, List.mem_append_left _ hm, htopic⟩

end Client

namespace Opening

open Joining

variable {start : ℕ} {s s' : Live} {b : Body} {c c' : Client}

/-! ## What a step of the stream passes -/

/-- The stream has moved on, and the rows it has passed with its watermark were `given`. -/
structure Advances (s s' : Live) (given : LogRow → Prop) : Prop where
  keep : ∀ r ∈ s.log.visible, r ∈ s'.log.visible
  watermark : s.broker.watermark ≤ s'.broker.watermark
  new : ∀ r ∈ s'.log.visible, r.id ≤ s'.broker.watermark → r ∈ s.log.visible
  passed : ∀ r ∈ s.log.visible, s.broker.watermark < r.id → r.id ≤ s'.broker.watermark → given r

/-- The rows that a step of the stream publishes. -/
def Given (s : Live) (a : LiveAction) (r : LogRow) : Prop :=
  ∃ d ∈ a.dispatches, ∃ p ∈ s.fetched d, r ∈ p.2

theorem advances_step (hinv : StreamInv start s) {a : LiveAction} (hahead : s.CommitsAhead a) :
    Advances s (s.step a) (Given s a) := by
  by_cases hrows : ∃ d after rows, a.dispatches = some d ∧ s.drains d = .fetched after rows
  · obtain ⟨d, after, rows, hd, hfetched⟩ := hrows
    obtain rfl : a = .dispatch d := by
      cases a with
      | dispatch e => rw [Option.some.inj hd]
      | _ => exact absurd hd (by simp [LiveAction.dispatches])
    have hphase : s.cursor.phase d = .fetched after rows := hfetched
    have hcursor : (s.step (.dispatch d)).cursor =
        Cursor.step LogRow.id drainLimit s.cursor (.give d) := Live.step_cursor s (.dispatch d)
    have hvisible : (s.step (.dispatch d)).log.visible = s.log.visible := by
      have hgive := congrArg Cursor.State.visible hcursor
      simp only [Cursor.step, hphase] at hgive
      exact hgive
    have hmark : (s.step (.dispatch d)).broker.watermark =
        Cursor.raise LogRow.id s.broker.watermark rows := by
      have hgive := congrArg Cursor.State.watermark hcursor
      simp only [Cursor.step, hphase] at hgive
      exact hgive
    refine ⟨fun r hr => hvisible ▸ hr, ?_, fun r hr _ => hvisible ▸ hr, ?_⟩
    · rw [hmark]
      exact Cursor.le_raise LogRow.id s.broker.watermark rows
    · intro r hr hlow hle
      rw [hmark] at hle
      -- the row lies within the page that raises the watermark
      rcases Cursor.raise_eq LogRow.id s.broker.watermark rows with hsame | ⟨v, hv, hkey⟩
      · omega
      · have hafter : after = s.broker.watermark :=
          hinv.alone.current d after (by rw [hphase, Cursor.Phase.noted])
        have hmem := hinv.noSkip.closed d after rows hphase r hr (by omega) v hv (by omega)
        exact ⟨d, rfl, (after, rows), Live.fetched_eq_some.mpr hfetched, hmem⟩
  · have hquiet : ∀ d ∈ a.dispatches, ∀ after rows, s.drains d ≠ .fetched after rows :=
      fun d hd after rows hfetched => hrows ⟨d, after, rows, hd, hfetched⟩
    have hmark := watermark_step_of_level hquiet
    refine ⟨fun r hr => mem_visible_step hr a, hmark.ge, fun r hr hle => ?_, fun r _ hlow hle => ?_⟩
    · rcases visible_step_shows s a r hr with hold | hshown
      · exact hold
      · have habove := (hahead r hshown).1
        omega
    · omega

theorem advances_publish (s : Live) (m : Message) (given : LogRow → Prop) :
    Advances s (s.publish m) given :=
  ⟨fun _ hr => hr, le_rfl, fun _ hr _ => hr, fun _ _ hlow hle => absurd hle (not_le.mpr hlow)⟩

/-! ## What the client is given -/

/-- The client keeps what it was given, and is given the rows that it wants among some. -/
structure Delivers (c c' : Client) (given : LogRow → Prop) : Prop where
  phase : c'.phase = c.phase
  lastEventId : c'.lastEventId = c.lastEventId
  wants : c'.wants = c.wants
  resynced : c.Resynced → c'.Resynced
  queued : c.queuedIds ⊆ c'.queuedIds
  fresh : c'.Resynced ∨ ∀ r, given r → c.wants r = true → r.id ∈ c'.queuedIds

theorem delivers_news (s : Live) (a : LiveAction) (c : Client) :
    Delivers c (c.publishAll (news s a)) (Given s a) := by
  refine ⟨by simp, by simp, c.publishAll_wants _, fun h => h.publishAll _,
    c.queuedIds_publishAll _, ?_⟩
  by_cases hrows : ∃ d after rows, a.dispatches = some d ∧ s.drains d = .fetched after rows
  · obtain ⟨d, after, rows, hd, hfetched⟩ := hrows
    obtain rfl : a = .dispatch d := by
      cases a with
      | dispatch e => rw [Option.some.inj hd]
      | _ => exact absurd hd (by simp [LiveAction.dispatches])
    rw [news_dispatch hfetched]
    refine (c.publishAll_rows rows).imp_right fun hids => ?_
    rintro r ⟨e, he, p, hp, hr⟩ hwanted
    obtain rfl : d = e := Option.some.inj he
    have hrows : p = (after, rows) :=
      Option.some.inj (hp.symm.trans (Live.fetched_eq_some.mpr hfetched))
    subst hrows
    rw [hids]
    exact List.mem_append_right _
      (List.mem_map_of_mem (List.mem_filter.mpr ⟨hr, hwanted⟩))
  · refine Or.inr ?_
    rintro r ⟨d, hd, ⟨after, rows⟩, hp, -⟩
    exact absurd ⟨d, after, rows, hd, Live.fetched_eq_some.mp hp⟩ hrows

/-! ## Before and after the registration -/

/-- The wanted rows behind their queries and up to the watermark are `sent`. -/
def Sends (s : Live) (b : Body) (sent : LogRow → Prop) : Prop :=
  ∀ r ∈ s.log.visible, b.request.wants r = true → b.Behind r → r.id ≤ s.broker.watermark → sent r

/-- Before the registration, every row that has been missed will be replayed. -/
def Early (s : Live) (b : Body) : Prop := Sends s b fun r => ∃ n ∈ b.request.lastEventId, n < r.id

/-- A registered client: what it was not given waits in its replay. -/
structure Covers (s : Live) (b : Body) (c : Client) : Prop where
  wants : c.wants = b.request.wants
  done : c.phase = .done → c.Resynced ∨ Sends s b fun r => r.id ∈ c.queuedIds
  waiting : c.phase ≠ .done → ∃ mark : ℕ, mark ≤ s.broker.watermark ∧
    (mark : ℤ) ≤ c.lastEventId + maxReplay ∧
    (∀ rows, c.phase = .fetched rows → Snapshot s c.lastEventId mark rows) ∧
    (c.Resynced ∨ Sends s b fun r => r.id ∈ c.queuedIds ∨ c.lastEventId < r.id ∧ r.id ≤ mark)

theorem Sends.advance {given sent sent' : LogRow → Prop} (h : Sends s b sent)
    (hstep : Advances s s' given) (hkeep : ∀ r, sent r → sent' r)
    (hgiven : ∀ r, given r → b.request.wants r = true → b.Behind r → sent' r) :
    Sends s' b sent' := by
  intro r hr hwanted hbehind hle
  have hold := hstep.new r hr hle
  by_cases hlow : r.id ≤ s.broker.watermark
  · exact hkeep r (h r hold hwanted hbehind hlow)
  · exact hgiven r (hstep.passed r hold (by omega) hle) hwanted hbehind

theorem snapshot_advance {given : LogRow → Prop} (hstep : Advances s s' given) {n : ℤ} {mark : ℕ}
    (hmark : mark ≤ s.broker.watermark) {rows : List LogRow} (h : Snapshot s n mark rows) :
    Snapshot s' n mark rows := by
  refine ⟨fun r hr => hstep.keep r (h.visible r hr), h.behind, h.increasing, ?_⟩
  intro r hr hbehind hle
  have hmark' := hstep.watermark
  exact h.complete r (hstep.new r hr (by omega)) hbehind hle

theorem Covers.follow {given : LogRow → Prop} (h : Covers s b c) (hstep : Advances s s' given)
    (hclient : Delivers c c' given) : Covers s' b c' := by
  have hsends : ∀ sent : LogRow → Prop, c.Resynced ∨ Sends s b (fun r => r.id ∈ c.queuedIds ∨ sent r) →
      c'.Resynced ∨ Sends s' b (fun r => r.id ∈ c'.queuedIds ∨ sent r) := by
    intro sent hold
    rcases hold with hresynced | hold
    · exact Or.inl (hclient.resynced hresynced)
    · rcases hclient.fresh with hresynced | hfresh
      · exact Or.inl hresynced
      · refine Or.inr (hold.advance hstep (fun r => Or.imp_left fun hr => hclient.queued hr) ?_)
        intro r hr hwanted _
        exact Or.inl (hfresh r hr (by rw [h.wants]; exact hwanted))
  refine ⟨hclient.wants.trans h.wants, fun hphase => ?_, fun hphase => ?_⟩
  · rw [hclient.phase] at hphase
    have hnever := hsends (fun _ => False) ((h.done hphase).imp_right fun hold r hr hw hb hle =>
      Or.inl (hold r hr hw hb hle))
    exact hnever.imp_right fun hnew r hr hw hb hle => (hnew r hr hw hb hle).resolve_right not_false
  · rw [hclient.phase] at hphase
    obtain ⟨mark, hmark, hreach, hsnapshot, hsent⟩ := h.waiting hphase
    refine ⟨mark, hmark.trans hstep.watermark, ?_, ?_, ?_⟩
    · rw [hclient.lastEventId]
      exact hreach
    · intro rows hrows
      rw [hclient.phase] at hrows
      rw [hclient.lastEventId]
      exact snapshot_advance hstep hmark (hsnapshot rows hrows)
    · rw [hclient.lastEventId]
      exact hsends _ hsent

/-- The client that `Broker.subscribe` registers is covered. -/
theorem covers_register (hinv : StreamInv start s) (h : Early s b) :
    Covers s b (register s.broker b.request) := by
  unfold register
  cases hn : b.request.lastEventId with
  | none =>
    refine ⟨rfl, fun _ => Or.inr ?_, fun hphase => absurd rfl hphase⟩
    intro r hr hwanted hbehind hle
    obtain ⟨n, hmem, -⟩ := h r hr hwanted hbehind hle
    rw [hn] at hmem
    exact nomatch hmem
  | some n =>
    have hafter : ∀ r ∈ s.log.visible, b.request.wants r = true → b.Behind r →
        r.id ≤ s.broker.watermark → n < r.id := by
      intro r hr hwanted hbehind hle
      obtain ⟨m, hmem, hlt⟩ := h r hr hwanted hbehind hle
      rw [hn] at hmem
      rwa [← Option.some.inj hmem] at hlt
    have hwants : ({ subscriber := b.request.subscriber, lastEventId := n } : Client).wants =
        b.request.wants := rfl
    simp only
    unfold Client.join Broker.replaySource
    dsimp only
    by_cases hgap : (maxReplay : ℤ) < s.broker.watermark - n
    · rw [if_pos hgap]
      refine ⟨?_, fun _ => Or.inl (Client.resynced_offer_resync _), fun h => absurd rfl h⟩
      rw [← hwants]
      funext r
      exact congrFun (Subscriber.offer_wants b.request.subscriber .resync) r.message
    · rw [if_neg hgap]
      by_cases hbuffer : s.broker.buffered n ≠ [] ∧ (s.broker.oldest : ℤ) ≤ n + 1
      · rw [if_pos hbuffer]
        refine ⟨?_, fun _ => ?_, fun h => absurd (by simp) h⟩
        · rw [← hwants]
          exact Client.publishAll_wants _ _
        · refine (exactly_buffered hinv hbuffer.1 hbuffer.2 rfl).imp_right ?_
          intro hexactly r hr hwanted hbehind hle
          refine (hexactly.mem_iff r.id).mpr ⟨r, hr, rfl, ?_, hafter r hr hwanted hbehind hle, hle⟩
          rw [Client.publishAll_wants]
          exact hwanted
      · rw [if_neg hbuffer]
        refine ⟨hwants, nofun, fun _ => ⟨s.broker.watermark, le_rfl, ?_, nofun, Or.inr ?_⟩⟩
        · simp only
          omega
        · exact fun r hr hwanted hbehind hle => Or.inr ⟨hafter r hr hwanted hbehind hle, hle⟩

/-! ## Runs -/

/-- The invariant of the stream, of a body before its registration, and of its registered client. -/
structure Inv (start : ℕ) (s : Opening) : Prop where
  stream : StreamInv start s.live
  closed : s.body = none → s.client = none
  early : ∀ b ∈ s.body, b.phase ≠ .subscribed → s.client = none ∧ Early s.live b
  covers : ∀ b ∈ s.body, b.phase = .subscribed → ∃ c, s.client = some c ∧ Covers s.live b c

/-- A step of the stream keeps the invariant when no client is registered. -/
theorem Inv.live_unregistered {s : Opening} (h : Inv start s) {a : LiveAction}
    (hserial : s.Serialised (.live a)) (hmeets : s.Meets (.live a)) (hclient : s.client = none) :
    Inv start { s with live := s.live.step a } := by
  have hturns : ∀ d, a = .ask d → ∀ e, idle s.live e = true := by
    rintro d rfl
    exact hserial d rfl
  refine ⟨h.stream.step hmeets.1 hturns, h.closed, fun b hb hphase => ⟨hclient, ?_⟩, ?_⟩
  · refine (h.early b hb hphase).2.advance (advances_step h.stream hmeets.1) (fun _ hr => hr) ?_
    rintro r ⟨d, hd, p, hp, hr⟩ hwanted hbehind
    exact hmeets.2 hclient b hb d hd p hp r hr hwanted hbehind
  · intro b hb hphase
    obtain ⟨c, hc, -⟩ := h.covers b hb hphase
    exact absurd (hclient.symm.trans hc) nofun

/-- A step of the stream keeps the invariant when the registered client follows it. -/
theorem Inv.live_registered {s : Opening} (h : Inv start s) {live : Live} {c c' : Client}
    {given : LogRow → Prop} (hclient : s.client = some c) (hstream : StreamInv start live)
    (hstep : Advances s.live live given) (hdelivers : Delivers c c' given) :
    Inv start { s with live := live, client := some c' } := by
  refine ⟨hstream, fun hnone => ?_, fun b hb hphase => ?_, fun b hb hphase => ⟨c', rfl, ?_⟩⟩
  · exact absurd ((h.closed hnone).symm.trans hclient) nofun
  · exact absurd ((h.early b hb hphase).1.symm.trans hclient) nofun
  · obtain ⟨c₀, hc₀, hcovers⟩ := h.covers b hb hphase
    obtain rfl : c = c₀ := Option.some.inj (hclient.symm.trans hc₀)
    exact hcovers.follow hstep hdelivers

theorem Inv.step_live {s : Opening} (h : Inv start s) {a : LiveAction}
    (hserial : s.Serialised (.live a)) (hmeets : s.Meets (.live a)) :
    Inv start (s.step (.live a)) := by
  have hturns : ∀ d, a = .ask d → ∀ e, idle s.live e = true := by
    rintro d rfl
    exact hserial d rfl
  have hstream : StreamInv start (s.live.step a) := h.stream.step hmeets.1 hturns
  have hadvances := advances_step h.stream hmeets.1
  cases hclient : s.client with
  | none =>
    have hlive := h.live_unregistered hserial hmeets hclient
    cases a <;> simpa [Opening.step, follow, joining, Joining.step, hclient] using hlive
  | some c =>
    have hnews := h.live_registered hclient hstream hadvances (delivers_news s.live a c)
    cases a with
    | coalesce =>
      obtain ⟨hwants, hqueued, hresynced⟩ := c.flush_keeps
      have hdelivers : Delivers c (c.put c.subscriber.flushProgress) (Given s.live .coalesce) := by
        refine ⟨rfl, rfl, hwants, hresynced, hqueued, Or.inr ?_⟩
        rintro r ⟨d, hd, -⟩
        cases hd
      have hflush := h.live_registered hclient hstream hadvances hdelivers
      simpa only [Opening.step, follow, joining, Joining.step, hclient, Option.map_some] using hflush
    | roster =>
      have hlevel : Delivers c (c.publish rosterMessage) fun _ => False :=
        ⟨by simp, by simp, c.publish_wants _, fun h => h.publish _, c.queuedIds_publish _,
          Or.inr fun _ => False.elim⟩
      have hquiet : Delivers c c (Given s.live .roster) := by
        refine ⟨rfl, rfl, rfl, id, List.Subset.refl _, Or.inr ?_⟩
        rintro r ⟨d, hd, -⟩
        cases hd
      have hroster := h.live_registered hclient (h.stream.publish_level rfl)
        (advances_publish s.live rosterMessage _) hlevel
      have hnone := h.live_registered hclient hstream hadvances hquiet
      simp only [Opening.step, follow, joining, Joining.step, hclient]
      split
      · exact hroster
      · exact hnone
    | _ => simpa only [Opening.step, follow, joining, Joining.step, hclient, Option.map_some] using hnews

theorem Inv.mapClient {s : Opening} (h : Inv start s) {f : Client → Client}
    (hf : ∀ b c, Covers s.live b c → Covers s.live b (f c)) :
    Inv start { s with client := s.client.map f } := by
  refine ⟨h.stream, fun hnone => ?_, fun b hb hphase => ?_, fun b hb hphase => ?_⟩
  · simp only [h.closed hnone, Option.map_none]
  · obtain ⟨hnone, hearly⟩ := h.early b hb hphase
    exact ⟨by simp only [hnone, Option.map_none], hearly⟩
  · obtain ⟨c, hc, hcovers⟩ := h.covers b hb hphase
    exact ⟨f c, by simp only [hc, Option.map_some], hf b c hcovers⟩

theorem Inv.mapBody {s : Opening} (h : Inv start s) {f : Body → Body}
    (hf : ∀ b ∈ s.body, f b = b ∨ b.phase ≠ .subscribed ∧ (f b).phase ≠ .subscribed ∧
      (Early s.live b → Early s.live (f b))) :
    Inv start { s with body := s.body.map f } := by
  refine ⟨h.stream, fun hnone => h.closed (Option.map_eq_none_iff.mp hnone), ?_, ?_⟩
  · intro b hmem hphase
    obtain ⟨b₀, hb₀, rfl⟩ := Option.mem_map.mp hmem
    rcases hf b₀ hb₀ with hsame | ⟨hbefore, -, hkeep⟩
    · rw [hsame] at hphase ⊢
      exact h.early b₀ hb₀ hphase
    · obtain ⟨hclient, hearly⟩ := h.early b₀ hb₀ hbefore
      exact ⟨hclient, hkeep hearly⟩
  · intro b hmem hphase
    obtain ⟨b₀, hb₀, rfl⟩ := Option.mem_map.mp hmem
    rcases hf b₀ hb₀ with hsame | ⟨-, hafter, -⟩
    · rw [hsame] at hphase ⊢
      exact h.covers b₀ hb₀ hphase
    · exact absurd hphase hafter

theorem Covers.readTable (hinv : StreamInv start s) (h : Covers s b c) :
    Covers s b (match c.phase with
      | .asked => { c with phase := .fetched (s.log.replayPage c.lastEventId) }
      | _ => c) := by
  split
  · next hasked =>
    obtain ⟨mark, hmark, hreach, -, hsent⟩ := h.waiting (by simp [hasked])
    refine ⟨h.wants, nofun, fun _ => ⟨mark, hmark, hreach, ?_, hsent⟩⟩
    rintro rows hrows
    obtain rfl := ReplayPhase.fetched.inj hrows
    exact snapshot_replayPage hinv hreach
  · exact h

theorem Covers.replayRows (h : Covers s b c) :
    Covers s b (match c.phase with
      | .fetched rows => { c.publishAll (rows.map LogRow.message) with phase := .done }
      | _ => c) := by
  split
  · next rows hfetched =>
    obtain ⟨mark, -, -, hsnapshot, hsent⟩ := h.waiting (by simp [hfetched])
    refine ⟨(c.publishAll_wants _).trans h.wants, fun _ => ?_, fun h => absurd rfl h⟩
    rcases hsent with hresynced | hsent
    · exact Or.inl (hresynced.publishAll _)
    · refine (c.publishAll_rows rows).imp_right fun hids r hr hwanted hbehind hle => ?_
      change r.id ∈ (c.publishAll (rows.map LogRow.message)).queuedIds
      rw [hids]
      rcases hsent r hr hwanted hbehind hle with hold | ⟨hlow, hmark⟩
      · exact List.mem_append_left _ hold
      · have hmem := (hsnapshot rows hfetched).complete r hr hlow hmark
        have hwants : c.wants r = true := by rw [h.wants]; exact hwanted
        exact List.mem_append_right _
          (List.mem_map_of_mem (List.mem_filter.mpr ⟨hmem, hwants⟩))
  · exact h

/-- A replay that fails ends in a `resync`. -/
theorem Covers.replayFails (h : Covers s b c) :
    Covers s b (match c.phase with
      | .done => c
      | _ => { c.offer .resync with phase := .done }) := by
  split
  · exact h
  · refine ⟨?_, fun _ => Or.inl c.resynced_offer_resync, fun h => absurd rfl h⟩
    rw [← h.wants]
    funext r
    exact congrFun (c.subscriber.offer_wants .resync) r.message

theorem Inv.step {s : Opening} (h : Inv start s) {a : BodyAction} (hserial : s.Serialised a)
    (hmeets : s.Meets a) : Inv start (s.step a) := by
  cases a with
  | live a => exact h.step_live hserial hmeets
  | request q =>
    cases hb : s.body with
    | some b => simpa only [Opening.step, hb] using h
    | none =>
      simp only [Opening.step, hb]
      refine ⟨h.stream, nofun, fun b hmem _ => ⟨h.closed hb, ?_⟩, fun b hmem hphase => ?_⟩
      · obtain rfl := Option.some.inj hmem
        rintro r - - ⟨p, hp, -⟩
        exact nomatch hp
      · obtain rfl := Option.some.inj hmem
        exact nomatch hphase
  | query =>
    refine h.mapBody fun b _ => ?_
    split
    · next q left hquerying =>
      refine Or.inr ⟨by simp [hquerying], by simp, fun hearly r hr hwanted hbehind hle => ?_⟩
      obtain ⟨p, hp, hquery, hunread⟩ := hbehind
      rcases List.mem_cons.mp hp with rfl | hp
      · exact absurd hr hunread
      · exact hearly r hr hwanted ⟨p, hp, hquery, hunread⟩ hle
    · exact Or.inl rfl
  | yield =>
    refine h.mapBody fun b _ => ?_
    split
    · next hquerying => exact Or.inr ⟨by simp [hquerying], by simp, id⟩
    · exact Or.inl rfl
  | subscribe =>
    simp only [Opening.step]
    split
    · next q mark reads hbody =>
      obtain ⟨-, hearly⟩ := h.early _ hbody (by simp)
      refine ⟨h.stream, nofun, fun b hmem hphase => ?_, fun b hmem _ => ⟨_, rfl, ?_⟩⟩
      · obtain rfl := Option.some.inj hmem
        exact absurd rfl hphase
      · obtain rfl := Option.some.inj hmem
        exact covers_register h.stream hearly
    · exact h
  | readTable => exact h.mapClient fun b c hcovers => hcovers.readTable h.stream
  | replayRows => exact h.mapClient fun b c hcovers => hcovers.replayRows
  | replayFails => exact h.mapClient fun b c hcovers => hcovers.replayFails
  | receive => exact h.mapClient fun b c hcovers => ⟨hcovers.wants, hcovers.done, hcovers.waiting⟩
  | leave => exact ⟨h.stream, fun _ => rfl, nofun, nofun⟩

/-- **The bootstrap meets the live stream.**  Let the drains be serialised, let rows commit ahead of
them, and let nothing be published between the snapshot and the registration that the replay does
not send again.  Then a client whose replay is over was sent a `resync`, or was given every wanted
edge behind the query of its table that the broker has passed. -/
theorem bootstrap_meets_stream (log : EventLog) {actions : List BodyAction}
    (hserial : Trace.Along step Serialised { live := .start log } actions)
    (hmeets : Trace.Along step Meets { live := .start log } actions) :
    (Opening.after log actions).Unmissed := by
  have hboth : Trace.Along step (fun s a => s.Serialised a ∧ s.Meets a) { live := .start log }
      actions := Trace.Along.and step hserial hmeets
  have hstart : Inv log.maxId { live := .start log } :=
    ⟨streamInv_start log, fun _ => rfl, nofun, nofun⟩
  have hinv : Inv log.maxId (Opening.after log actions) :=
    Trace.exec_invariant_of_along step (I := Inv log.maxId)
      (fun s a hc h => h.step hc.1 hc.2) hstart hboth
  intro b hb c hc hdone
  by_cases hphase : b.phase = .subscribed
  · obtain ⟨c₀, hc₀, hcovers⟩ := hinv.covers b hb hphase
    obtain rfl : c = c₀ := Option.some.inj (hc.symm.trans hc₀)
    exact hcovers.done hdone
  · obtain ⟨hnone, -⟩ := hinv.early b hb hphase
    exact absurd (hnone.symm.trans hc) nofun

/-- A client asks for jobs, without a `Last-Event-ID`. -/
def jobsRequest : StreamRequest := { topics := [.jobs], runId := none, lastEventId := none }

/-- The queries of its bootstrap. -/
def bootstrapQueries : List BodyAction := [.query, .query, .query, .query]

/-- A writer commits an edge and a drain publishes it. -/
def publishEdge : List BodyAction :=
  [.live (.write (.insert 1 Live.jobEdge)), .live (.write (.commit 1)), .live (.ask .listen),
    .live (.read .listen), .live (.dispatch .listen)]

theorem bootstrap_then_edge :
    (Opening.after .empty ([.request jobsRequest] ++ bootstrapQueries ++ [.yield, .subscribe] ++
      publishEdge)).Unmissed :=
  bootstrap_meets_stream .empty (by decide) (by decide)

/-- An edge commits and is published between the snapshot and the registration. -/
def publishedBetween : List BodyAction :=
  [.request jobsRequest] ++ bootstrapQueries ++ [.yield] ++ publishEdge ++ [.subscribe]

/-- **An edge behind the snapshot that is published before the registration is missed.** -/
theorem edge_missed_before_registration :
    Trace.Along step Serialised { live := .start .empty } publishedBetween ∧
      ¬(Opening.after .empty publishedBetween).Unmissed := by
  refine ⟨by decide, fun hunmissed => ?_⟩
  obtain ⟨b, hb, c, hc, hdone, hresynced, r, hr, hwanted, hbehind, hle, hmissed⟩ :
      ∃ b ∈ (Opening.after .empty publishedBetween).body,
        ∃ c ∈ (Opening.after .empty publishedBetween).client, c.phase = .done ∧ ¬c.Resynced ∧
          ∃ r ∈ (Opening.after .empty publishedBetween).live.log.visible,
            b.request.wants r = true ∧ b.Behind r ∧
              r.id ≤ (Opening.after .empty publishedBetween).live.broker.watermark ∧
                r.id ∉ c.queuedIds := by decide
  rcases hunmissed b hb c hc hdone with hoffered | hgiven
  · exact hresynced hoffered
  · exact hmissed (hgiven r hr hwanted hbehind hle)

end Opening

end CommerceCollector
