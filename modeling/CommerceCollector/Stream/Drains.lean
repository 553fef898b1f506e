import CommerceCollector.Stream.Broker

/-!
# What the drains publish

Two properties of the live stream, each with the condition under which the source has it.

The watermark is the largest id published so far, but a row becomes visible when its transaction
commits, not when it draws its id.  A row that commits at or below the watermark is never published
(`skipped_edge_never_published`); as long as every row commits above the watermark and above what
the drains already hold, no row is skipped.

A drain publishes what it has read without a second look at the watermark.  Two drains that read
from the same watermark publish the same rows; the ids are published in increasing order exactly as
long as no drain that holds rows is overtaken.
-/

namespace CommerceCollector

open Relational

/-- The task whose drain a step advances. -/
def LiveAction.drainer : LiveAction → Option Drainer
  | .ask d | .read d | .dispatch d | .fail d => some d
  | _ => none

/-- The task whose rows a step publishes. -/
def LiveAction.dispatches : LiveAction → Option Drainer
  | .dispatch d => some d
  | _ => none

/-- A property of both tasks can be decided. -/
instance Drainer.decidableForall {p : Drainer → Prop} [DecidablePred p] : Decidable (∀ d, p d) :=
  decidable_of_iff (p .listen ∧ p .reconcile)
    ⟨fun h d => match d with
      | .listen => h.1
      | .reconcile => h.2, fun h => ⟨h .listen, h .reconcile⟩⟩

namespace Live

/-! ## Conditions -/

/-- The rows that a step makes visible. -/
def shows (s : Live) : LiveAction → List LogRow
  | .write (.commit writer) => s.log.rowsOf writer
  | _ => []

/-- The page of a drain, with the watermark it was read for. -/
def fetched (s : Live) (d : Drainer) : Option (ℕ × List LogRow) :=
  match s.drains d with
  | .fetched after rows => some (after, rows)
  | _ => none

/-- Rows commit above the watermark and above every row that a drain holds. -/
def CommitsAhead (s : Live) (a : LiveAction) : Prop :=
  ∀ r ∈ s.shows a, s.broker.watermark < r.id ∧ ∀ d, ∀ p ∈ s.fetched d, ∀ v ∈ p.2, v.id < r.id

/-- Rows become visible in increasing id order. -/
def VisibleInOrder (s : Live) (a : LiveAction) : Prop :=
  ∀ r ∈ s.shows a, ∀ v ∈ s.log.visible, v.id < r.id

/-- A drain that publishes rows finds the watermark where it left it. -/
def Undisturbed (s : Live) (a : LiveAction) : Prop :=
  ∀ d ∈ a.dispatches, ∀ p ∈ s.fetched d, p.2 = [] ∨ s.broker.watermark = p.1

instance (s : Live) (a : LiveAction) : Decidable (s.CommitsAhead a) :=
  inferInstanceAs (Decidable (∀ r ∈ s.shows a, _))

instance (s : Live) (a : LiveAction) : Decidable (s.VisibleInOrder a) :=
  inferInstanceAs (Decidable (∀ r ∈ s.shows a, _))

instance (s : Live) (a : LiveAction) : Decidable (s.Undisturbed a) :=
  inferInstanceAs (Decidable (∀ d ∈ a.dispatches, _))

variable {s : Live} {a : LiveAction}

variable {d : Drainer} {rows : List LogRow}

theorem fetched_eq_some {after : ℕ} :
    s.fetched d = some (after, rows) ↔ s.cursor.phase d = .fetched after rows := by
  unfold fetched cursor
  dsimp only
  cases s.drains d <;> simp

/-- The step of the cursor, if there is one, with what it makes visible and publishes. -/
theorem step_cursor_cases (s : Live) (a : LiveAction) :
    (s.step a).cursor = s.cursor ∧ a.dispatches = none ∨
      ∃ b, (s.step a).cursor = Cursor.step LogRow.id drainLimit s.cursor b ∧
        s.cursorAction a = some b := by
  rw [step_cursor]
  cases hb : s.cursorAction a with
  | none =>
    refine Or.inl ⟨rfl, ?_⟩
    cases a with
    | dispatch d => exact absurd hb (by simp [cursorAction])
    | _ => rfl
  | some b => exact Or.inr ⟨b, rfl, rfl⟩

section Conditions

variable {b : Cursor.Action LogRow Drainer}

theorem cursorAction_append (h : s.cursorAction a = some (.append rows)) :
    ∃ writer, a = .write (.commit writer) ∧ rows = s.log.rowsOf writer := by
  cases a with
  | write w =>
    cases w with
    | commit writer => exact ⟨writer, rfl, (Cursor.Action.append.inj (Option.some.inj h)).symm⟩
    | _ => exact absurd h (by simp [cursorAction])
  | _ => exact absurd h (by simp [cursorAction])

theorem cursorAction_give (h : s.cursorAction a = some (.give d)) : a = .dispatch d := by
  cases a with
  | dispatch e => rw [Cursor.Action.give.inj (Option.some.inj h)]
  | write w => cases w <;> exact absurd h (by simp [cursorAction])
  | _ => exact absurd h (by simp [cursorAction])

section

variable (h : s.cursorAction a = some b)

include h

theorem distinct_of_cursorAction :
    Cursor.Distinct LogRow.id s.cursor b := by
  cases b with
  | append rows =>
    obtain ⟨writer, -, rfl⟩ := cursorAction_append h
    exact (s.log.commit writer).keyed_visible
  | _ => trivial

theorem ahead_of_cursorAction (hahead : s.CommitsAhead a) :
    Cursor.Ahead LogRow.id s.cursor b := by
  cases b with
  | append rows =>
    obtain ⟨writer, rfl, rfl⟩ := cursorAction_append h
    intro r hr
    obtain ⟨hmark, hheld⟩ := hahead r hr
    refine ⟨hmark, fun d after rows hphase v hv => ?_⟩
    exact hheld d (after, rows) (fetched_eq_some.mpr hphase) v hv
  | _ => trivial

theorem inOrder_of_cursorAction (horder : s.VisibleInOrder a) :
    Cursor.InOrder LogRow.id s.cursor b := by
  cases b with
  | append rows =>
    obtain ⟨writer, rfl, rfl⟩ := cursorAction_append h
    exact horder
  | _ => trivial

theorem undisturbed_iff_of_cursorAction :
    s.Undisturbed a ↔ Cursor.Undisturbed s.cursor b := by
  cases b with
  | give d =>
    obtain rfl := cursorAction_give h
    constructor
    · intro hcalm after rows hphase
      exact hcalm d rfl (after, rows) (fetched_eq_some.mpr hphase)
    · rintro hcalm e he ⟨after, rows⟩ hp
      obtain rfl : d = e := Option.some.inj he
      exact hcalm after rows (fetched_eq_some.mp hp)
  | _ =>
    refine iff_of_true (fun d hd => ?_) trivial
    cases a with
    | dispatch e => exact absurd h (by simp [cursorAction])
    | _ => exact absurd hd (by simp [LiveAction.dispatches])

end

end Conditions

/-! ## Runs -/

theorem inv_start (log : EventLog) : Cursor.Inv LogRow.id log.maxId (start log).cursor where
  keyed := log.keyed_visible
  asked := fun d after h => absurd h (by simp [cursor, start])
  fetched := fun d after rows h => absurd h (by simp [cursor, start])
  increasing := fun d after rows h => absurd h (by simp [cursor, start])
  held := fun d after rows h => absurd h (by simp [cursor, start])
  given_visible := by simp [cursor, start, publishedIds]
  given_le := by simp [cursor, start, publishedIds]
  start_le := le_rfl
  reached := Or.inl rfl

theorem inv_step {w : ℕ} (h : Cursor.Inv LogRow.id w s.cursor) (a : LiveAction) :
    Cursor.Inv LogRow.id w (s.step a).cursor := by
  rcases step_cursor_cases s a with ⟨heq, -⟩ | ⟨b, heq, hb⟩
  · rwa [heq]
  · rw [heq]
    exact h.step (distinct_of_cursorAction hb)

theorem after_inv (log : EventLog) (actions : List LiveAction) :
    Cursor.Inv LogRow.id log.maxId (Live.after log actions).cursor :=
  Trace.exec_invariant Live.step (I := fun s => Cursor.Inv LogRow.id log.maxId s.cursor)
    (fun _ a h => inv_step h a) (inv_start log) actions

theorem publishedIds_prefix_exec (s : Live) (actions : List LiveAction) :
    s.publishedIds <+: (Trace.exec Live.step s actions).publishedIds := by
  refine Trace.exec_invariant Live.step (I := fun t => s.publishedIds <+: t.publishedIds)
    (fun t a h => h.trans ?_) (List.prefix_refl _) actions
  have hcursor : t.cursor.given <+: (t.step a).cursor.given := by
    rcases step_cursor_cases t a with ⟨heq, -⟩ | ⟨b, heq, -⟩
    · exact heq ▸ List.prefix_refl _
    · rw [heq]
      exact Cursor.given_prefix_step LogRow.id drainLimit t.cursor b
  exact hcursor

theorem step_drains (ha : a.drainer ≠ some d) : (s.step a).drains d = s.drains d := by
  have hother : ∀ {e : Drainer}, some e ≠ some d → d ≠ e := fun h hd => h (congrArg some hd.symm)
  cases a with
  | ask e =>
    simp only [step]
    split
    · exact Function.update_of_ne (hother ha) _ _
    · rfl
  | read e =>
    simp only [step]
    split
    · exact Function.update_of_ne (hother ha) _ _
    · rfl
  | dispatch e =>
    simp only [step]
    split
    · next after rows _ =>
      have hphase := congrArg Cursor.State.phase (foldl_dispatchRow_cursor rows s)
      refine (Function.update_of_ne (hother ha) _ _).trans ?_
      exact congrFun hphase d
    · rfl
  | fail e => exact Function.update_of_ne (hother ha) _ _
  | roster =>
    simp only [step]
    split <;> rfl
  | _ => rfl

/-! ## No edge is skipped -/

theorem after_noSkip (log : EventLog) {actions : List LiveAction}
    (hahead : Trace.Along Live.step CommitsAhead (start log) actions) :
    Cursor.NoSkip LogRow.id log.maxId (Live.after log actions).cursor := by
  have hstart : Cursor.NoSkip LogRow.id log.maxId (start log).cursor := by
    refine ⟨fun r _ hlow hhigh => ?_, fun d after rows h => absurd h (by simp [cursor, start])⟩
    exact absurd hhigh (not_le.mpr hlow)
  have hboth := Trace.exec_invariant_of_along Live.step
    (I := fun s => Cursor.Inv LogRow.id log.maxId s.cursor ∧
      Cursor.NoSkip LogRow.id log.maxId s.cursor)
    (fun s a hc h => ?_) ⟨inv_start log, hstart⟩ hahead
  · exact hboth.2
  · refine ⟨inv_step h.1 a, ?_⟩
    rcases step_cursor_cases s a with ⟨heq, -⟩ | ⟨b, heq, hb⟩
    · rw [heq]
      exact h.2
    · rw [heq]
      exact h.2.step h.1 (ahead_of_cursorAction hb hc)

theorem mem_publishedIds_dispatch {w : ℕ} {r : LogRow} (hphase : s.drains d = .fetched w rows)
    (hr : r ∈ rows) : r.id ∈ (s.step (.dispatch d)).publishedIds := by
  have hstep := step_cursor s (.dispatch d)
  have hgiven : (s.step (.dispatch d)).publishedIds = s.publishedIds ++ rows.map LogRow.id := by
    have := congrArg Cursor.State.given hstep
    simpa only [cursor, cursorAction, Cursor.step, hphase] using this
  rw [hgiven]
  exact List.mem_append_right _ (List.mem_map_of_mem hr)

/-- **No edge is skipped.**  Let rows commit above the watermark and above what the drains hold.
Then every row that is visible when a drain reads fewer rows than its limit, and whose id lies above
the starting watermark, is published once this drain has published. -/
theorem committed_edge_published (log : EventLog) {pre mid : List LiveAction} {d : Drainer} {w : ℕ}
    (hahead : Trace.Along Live.step CommitsAhead (start log) pre)
    (hasked : (Live.after log pre).drains d = .asked w)
    (hshort : (page LogRow.id w drainLimit (Live.after log pre).log.visible).length < drainLimit)
    (hmid : ∀ a ∈ mid, a.drainer ≠ some d) :
    ∀ r ∈ (Live.after log pre).log.visible, log.maxId < r.id →
      r.id ∈ (Live.after log (pre ++ .read d :: mid ++ [.dispatch d])).publishedIds := by
  intro r hr hstart
  have hskip := after_noSkip log hahead
  have hsplit : Live.after log (pre ++ .read d :: mid ++ [.dispatch d]) =
      (Trace.exec Live.step ((Live.after log pre).step (.read d)) mid).step (.dispatch d) := by
    simp only [Live.after, Trace.exec_append, Trace.exec_cons, Trace.exec_nil]
  rcases hskip.mem_given_or_page (after_inv log pre) hasked hshort hr hstart with hgiven | hpage
  · have hprefix := publishedIds_prefix_exec (Live.after log pre) (.read d :: mid ++ [.dispatch d])
    have hrun : Live.after log (pre ++ .read d :: mid ++ [.dispatch d]) =
        Trace.exec Live.step (Live.after log pre) (.read d :: mid ++ [.dispatch d]) := by
      rw [Live.after, List.append_assoc, Trace.exec_append]
      rfl
    rw [hrun]
    exact hprefix.subset hgiven
  · -- the page is kept until the drain publishes it
    have hread : ((Live.after log pre).step (.read d)).drains d =
        .fetched w (page LogRow.id w drainLimit (Live.after log pre).log.visible) := by
      simp only [step, hasked, setDrain, Function.update_self]
    have hkept : (Trace.exec Live.step ((Live.after log pre).step (.read d)) mid).drains d =
        .fetched w (page LogRow.id w drainLimit (Live.after log pre).log.visible) :=
      Trace.exec_invariant_of_along Live.step (C := fun _ a => a.drainer ≠ some d)
        (I := fun s => s.drains d =
          .fetched w (page LogRow.id w drainLimit (Live.after log pre).log.visible))
        (fun s a ha h => (step_drains ha).trans h) hread
        (Trace.along_of_forall Live.step (fun a ha _ => hmid a ha) _)
    rw [hsplit]
    exact mem_publishedIds_dispatch hkept hpage

/-- An edge of a job that a writer inserts. -/
def jobEdge : Edge := { topic := .job, type := "job.started", runId := some 1, jobId := some 10 }

/-- Two writers insert and commit in the order of their ids, and the second commit comes between two
drains. -/
def commitsInOrder : List LiveAction :=
  [ .write (.insert 1 jobEdge), .write (.insert 2 jobEdge), .write (.commit 1),
    .ask .listen, .read .listen, .dispatch .listen, .write (.commit 2), .ask .listen ]

/-- The row of the second commit is published by the drain after it. -/
theorem second_commit_published :
    ∃ r ∈ (Live.after .empty commitsInOrder).log.visible, r.id = 2 ∧
      r.id ∈ (Live.after .empty
        (commitsInOrder ++ .read .listen :: [] ++ [.dispatch .listen])).publishedIds := by
  obtain ⟨r, hr, hid, hstart⟩ : ∃ r ∈ (Live.after .empty commitsInOrder).log.visible,
      r.id = 2 ∧ EventLog.maxId .empty < r.id := by decide
  refine ⟨r, hr, hid, ?_⟩
  exact committed_edge_published .empty (by decide) (w := 1) rfl (by decide) (by decide) r hr hstart

/-- The second writer commits first and is published; then the first writer commits, and a drain
reads an empty page and publishes it. -/
def commitsOutOfOrder : List LiveAction :=
  [ .write (.insert 1 jobEdge), .write (.insert 2 jobEdge), .write (.commit 2),
    .ask .listen, .read .listen, .dispatch .listen, .write (.commit 1), .ask .listen ]

/-- The row of the first writer is visible, the drain after its commit is complete, and the row is
not published. -/
theorem late_commit_skipped :
    (Live.after .empty commitsOutOfOrder).drains .listen = .asked 2 ∧
      (page LogRow.id 2 drainLimit (Live.after .empty commitsOutOfOrder).log.visible).length <
        drainLimit ∧
      ∃ r ∈ (Live.after .empty commitsOutOfOrder).log.visible, EventLog.maxId .empty < r.id ∧
        r.id ∉ (Live.after .empty
          (commitsOutOfOrder ++ .read .listen :: [] ++ [.dispatch .listen])).publishedIds := by
  refine ⟨rfl, by decide, by decide⟩

/-- A row that commits at or below the watermark while no drain is under way is never published. -/
theorem skipped_edge_never_published (log : EventLog) {pre : List LiveAction} {writer : ℕ}
    {r : LogRow} (hr : r ∈ (Live.after log pre).log.rowsOf writer)
    (hle : r.id ≤ (Live.after log pre).broker.watermark)
    (hidle : ∀ d, (Live.after log pre).drains d = .idle) (post : List LiveAction) :
    r.id ∉ (Live.after log (pre ++ .write (.commit writer) :: post)).publishedIds := by
  have hnew : r.id ∉ (Live.after log pre).publishedIds := by
    intro hmem
    obtain ⟨v, hv, hid⟩ := (after_inv log pre).given_visible r.id hmem
    have hkeyed := ((Live.after log pre).log.commit writer).keyed_visible
    rw [EventLog.commit, Keyed, List.map_append, List.nodup_append] at hkeyed
    exact hkeyed.2.2 v.id (List.mem_map_of_mem hv) r.id (List.mem_map_of_mem hr) hid
  have hlost : Cursor.Lost LogRow.id r.id (Live.after log pre).cursor :=
    ⟨hnew, hle, fun d w h => absurd ((hidle d).symm.trans h) (by simp),
      fun d w rows h => absurd ((hidle d).symm.trans h) (by simp)⟩
  have hend : Cursor.Lost LogRow.id r.id
      (Live.after log (pre ++ .write (.commit writer) :: post)).cursor := by
    rw [Live.after, Trace.exec_append]
    refine Trace.exec_invariant Live.step (I := fun s => Cursor.Lost LogRow.id r.id s.cursor)
      (fun s a h => ?_) hlost _
    rcases step_cursor_cases s a with ⟨heq, -⟩ | ⟨b, heq, -⟩
    · rwa [heq]
    · rw [heq]
      exact h.step b
  exact hend.not_given

/-- The first writer commits out of order, and a drain follows. -/
theorem first_edge_never_published :
    1 ∉ (Live.after .empty (commitsOutOfOrder.take 6 ++ .write (.commit 1) ::
      [.ask .listen, .read .listen, .dispatch .listen])).publishedIds :=
  skipped_edge_never_published .empty (r := ⟨1, jobEdge⟩) (by decide) (by decide)
    (fun d => by cases d <;> rfl) _

/-! ## The order of the edges -/

/-- **Edges in order.**  If rows become visible in increasing id order, then the ids passed to
`publish` are strictly increasing iff every drain that publishes rows finds the watermark where it
left it. -/
theorem publishedIds_increasing_iff (log : EventLog) {actions : List LiveAction}
    (horder : Trace.Along Live.step VisibleInOrder (start log) actions) :
    (Live.after log actions).publishedIds.Pairwise (· < ·) ↔
      Trace.Along Live.step Undisturbed (start log) actions := by
  refine Trace.exec_iff_along Live.step (D := VisibleInOrder)
    (I := fun s => Cursor.Inv LogRow.id log.maxId s.cursor ∧ Cursor.First LogRow.id s.cursor ∧
      s.publishedIds.Pairwise (· < ·))
    (Q := fun s => s.publishedIds.Pairwise (· < ·)) ?_ ?_ ?_ (fun s h => h.2.2) ?_ horder
  · rintro s a hvisible hcalm ⟨hinv, hfirst, hsorted⟩
    refine ⟨inv_step hinv a, ?_⟩
    rcases step_cursor_cases s a with ⟨heq, -⟩ | ⟨b, heq, hb⟩
    · have hids : (s.step a).publishedIds = s.publishedIds := congrArg Cursor.State.given heq
      rw [heq, hids]
      exact ⟨hfirst, hsorted⟩
    · have hids := congrArg Cursor.State.given heq
      have hnext : (Cursor.step LogRow.id drainLimit s.cursor b).given.Pairwise (· < ·) :=
        Cursor.pairwise_given_step hinv hsorted ((undisturbed_iff_of_cursorAction hb).mp hcalm)
      rw [← hids] at hnext
      rw [heq]
      exact ⟨hfirst.step hinv (inOrder_of_cursorAction hb hvisible), hnext⟩
  · rintro s a - hmoved ⟨hinv, hfirst, -⟩
    rcases step_cursor_cases s a with ⟨-, hnone⟩ | ⟨b, heq, hb⟩
    · exact absurd (fun d hd => absurd hd (by simp [hnone])) hmoved
    · have hids := congrArg Cursor.State.given heq
      have hnext : ¬ (Cursor.step LogRow.id drainLimit s.cursor b).given.Pairwise (· < ·) :=
        Cursor.not_pairwise_given_step hinv hfirst
          fun hcalm => hmoved ((undisturbed_iff_of_cursorAction hb).mpr hcalm)
      rw [← hids] at hnext
      exact hnext
  · intro s a hbroken hsorted
    exact hbroken (hsorted.sublist (publishedIds_prefix_exec s [a]).sublist)
  · refine ⟨inv_start log, fun d w r rows h => absurd h (by simp [cursor, start]), ?_⟩
    simp [publishedIds, start]

/-- Both tasks drain the log, one after the other. -/
def drainsInTurn : List LiveAction :=
  [ .write (.insert 1 jobEdge), .write (.commit 1), .ask .listen, .read .listen, .dispatch .listen,
    .write (.insert 1 jobEdge), .write (.commit 1), .ask .reconcile, .read .reconcile,
    .dispatch .reconcile ]

/-- The ids are published in order. -/
theorem drains_in_turn_increasing :
    (Live.after .empty drainsInTurn).publishedIds = [1, 2] ∧
      (Live.after .empty drainsInTurn).publishedIds.Pairwise (· < ·) :=
  ⟨by decide, (publishedIds_increasing_iff .empty (by decide)).mpr (by decide)⟩

/-- Both tasks read the log before either of them publishes. -/
def overlappingDrains : List LiveAction :=
  [ .write (.insert 1 jobEdge), .write (.commit 1), .ask .listen, .ask .reconcile,
    .read .listen, .read .reconcile, .dispatch .listen, .dispatch .reconcile ]

/-- The rows become visible in order, and the edge is published twice. -/
theorem overlapping_drains_repeat :
    Trace.Along Live.step VisibleInOrder (start .empty) overlappingDrains ∧
      (Live.after .empty overlappingDrains).publishedIds = [1, 1] ∧
      ¬ (Live.after .empty overlappingDrains).publishedIds.Pairwise (· < ·) := by
  decide

end Live

end CommerceCollector
