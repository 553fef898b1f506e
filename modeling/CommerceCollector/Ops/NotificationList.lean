import CommerceCollector.Ops.Notifications

/-!
# The operator's list of notifications

The handlers of `OpsStream` (`lib/ops/stream.svelte.ts`) for the edges of the topic `notification`,
and the run of a browser beside the calls that write the table.  A connection begins with the
bootstrap list and delivers the edges from some position on, those included that the list already
reflects.

The list agrees with the table if the edges that are still to come leave exactly the open rows, each
once. It does in every run in which `resolve` reports the open row of its key, if there is one, and
a connection does not deliver the edge again that raised an open row (`list_agrees`).
-/

namespace CommerceCollector

open Relational

/-! ## The browser -/

/-- The handler of an edge: a raised row is put in front, a closed one is filtered out. -/
def handle (notifications : List RaisedPayload) : NotificationEdge → List RaisedPayload
  | .raised p => p :: notifications
  | .resolved id _ => notifications.filter fun p => p.id != id
  | .acknowledged id _ => notifications.filter fun p => p.id != id

/-- The handlers of several edges. -/
def handleAll (edges : List NotificationEdge) (notifications : List RaisedPayload) :
    List RaisedPayload := edges.foldl handle notifications

/-- A browser: its list, and how many edges it has passed. -/
structure Browser where
  notifications : List RaisedPayload
  position : ℕ
  deriving DecidableEq, Repr

/-- The table and a browser. -/
structure Watched where
  log : NotificationLog := {}
  browser : Option Browser := none
  deriving DecidableEq, Repr

/-- A call, or a step of the browser. -/
inductive WatchAction
  | call (c : NotificationLog.Call)
  /-- A connection opens with a bootstrap list; the edges from a position on follow, those included
  that the list already reflects. -/
  | connect (position : ℕ)
  /-- The next edge arrives. -/
  | deliver
  deriving DecidableEq, Repr

namespace Watched

/-- The effect of a step. -/
def step (s : Watched) : WatchAction → Watched
  | .call c => { s with log := s.log.step c }
  | .connect position =>
    { s with
      browser := some
        { notifications := s.log.bootstrap
          position := min position s.log.edges.length } }
  | .deliver =>
    { s with
      browser := s.browser.map fun b =>
        match s.log.edges[b.position]? with
        | some e => { notifications := handle b.notifications e, position := b.position + 1 }
        | none => b }

/-- The state reached by a run from an empty table. -/
def after (actions : List WatchAction) : Watched := Trace.exec step {} actions

/-- What the browser shows once the edges emitted so far have arrived. -/
def shown (s : Watched) (b : Browser) : List RaisedPayload :=
  handleAll (s.log.edges.drop b.position) b.notifications

/-- **The list agrees with the table**: it comes to show the open rows, each once. -/
def Agrees (s : Watched) : Prop :=
  ∀ b ∈ s.browser, (s.shown b).Perm (s.log.openRows.map Notification.payload)

/-! ## Conditions -/

/-- At most 50 rows are open. -/
def Few (s : Watched) (_ : WatchAction) : Prop := s.log.openRows.length ≤ 50

/-- A resolution reports the open row of its key, if there is one. -/
def ReportsOpen (s : Watched) : WatchAction → Prop
  | .call (.resolve _ key first) => ∀ r ∈ s.log.reported key first,
      ∀ n ∈ s.log.openRows, n.dedupKey = key → n = r
  | _ => True

/-- A connection does not deliver an edge that raised an open row. -/
def RaisesOnce (s : Watched) : WatchAction → Prop
  | .connect position => ∀ e ∈ s.log.edges.drop position, ∀ n ∈ s.log.openRows,
      e ≠ .raised n.payload
  | _ => True

/-- Both conditions. -/
def Faithful (s : Watched) (a : WatchAction) : Prop := s.ReportsOpen a ∧ s.RaisesOnce a

instance (s : Watched) : ∀ a, Decidable (s.ReportsOpen a)
  | .call (.resolve _ key first) => inferInstanceAs (Decidable (∀ r ∈ s.log.reported key first, _))
  | .call (.notify ..) | .call (.acknowledge ..) | .call (.acknowledgeMany ..) | .connect _
  | .deliver => inferInstanceAs (Decidable True)

instance (s : Watched) : ∀ a, Decidable (s.RaisesOnce a)
  | .connect position => inferInstanceAs (Decidable (∀ e ∈ s.log.edges.drop position, _))
  | .call _ | .deliver => inferInstanceAs (Decidable True)

instance (s : Watched) (a : WatchAction) : Decidable (s.Faithful a) :=
  inferInstanceAs (Decidable (_ ∧ _))

instance (s : Watched) (a : WatchAction) : Decidable (s.Few a) :=
  inferInstanceAs (Decidable (_ ≤ _))

end Watched

/-! ## Folding edges -/

/-- Some edge closes a row. -/
def closedBy (edges : List NotificationEdge) (id : ℕ) : Bool :=
  edges.any fun e => e.closes == some id

/-- The raised rows that no later edge closes. -/
def surviving : List NotificationEdge → List RaisedPayload
  | [] => []
  | .raised p :: edges => surviving edges ++ if closedBy edges p.id then [] else [p]
  | _ :: edges => surviving edges

theorem handle_of_closes {e : NotificationEdge} {i : ℕ} (h : e.closes = some i)
    (l : List RaisedPayload) : handle l e = l.filter fun p => p.id != i := by
  cases e with
  | raised p => exact nomatch h
  | resolved id key => rw [← Option.some.inj h]; rfl
  | acknowledged id operator => rw [← Option.some.inj h]; rfl

theorem surviving_of_closes {e : NotificationEdge} {i : ℕ} (h : e.closes = some i)
    (edges : List NotificationEdge) : surviving (e :: edges) = surviving edges := by
  cases e with
  | raised p => exact nomatch h
  | resolved id key => rfl
  | acknowledged id operator => rfl

/-- **Folding edges**: what stays is what the edges raise for good and what they leave of the
list. -/
theorem handleAll_eq (edges : List NotificationEdge) (l : List RaisedPayload) :
    handleAll edges l = surviving edges ++ l.filter fun p => !closedBy edges p.id := by
  induction edges generalizing l with
  | nil => simp [handleAll, surviving, closedBy]
  | cons e edges ih =>
    have hstep : handleAll (e :: edges) l = handleAll edges (handle l e) := rfl
    have hclosed : ∀ i, closedBy (e :: edges) i = (e.closes == some i || closedBy edges i) :=
      fun _ => rfl
    rw [hstep, ih]
    cases hcloses : e.closes with
    | none =>
      obtain ⟨p, rfl⟩ : ∃ p, e = .raised p := by
        cases e with
        | raised p => exact ⟨p, rfl⟩
        | resolved id key => exact nomatch hcloses
        | acknowledged id operator => exact nomatch hcloses
      have hsame : ∀ i, closedBy (.raised p :: edges) i = closedBy edges i := fun _ => rfl
      simp only [handle, surviving, hsame, List.filter_cons, List.append_assoc]
      cases closedBy edges p.id <;> simp
    | some i =>
      rw [handle_of_closes hcloses, surviving_of_closes hcloses, List.filter_filter]
      congr 1
      refine List.filter_congr fun p _ => ?_
      rw [hclosed, hcloses, Bool.not_or, Bool.and_comm]
      have hswap : (some i == some p.id) = (p.id == i) := by
        rw [Bool.eq_iff_iff, beq_iff_eq, beq_iff_eq, Option.some.injEq, eq_comm]
      rw [hswap, bne]

theorem handleAll_perm (edges : List NotificationEdge) {l l' : List RaisedPayload} (h : l.Perm l') :
    (handleAll edges l).Perm (handleAll edges l') := by
  rw [handleAll_eq, handleAll_eq]
  exact (h.filter _).append_left _

theorem raised_of_surviving {edges : List NotificationEdge} {p : RaisedPayload}
    (h : p ∈ surviving edges) : .raised p ∈ edges := by
  induction edges with
  | nil => exact nomatch h
  | cons e edges ih =>
    cases e with
    | raised q =>
      rcases List.mem_append.mp h with h | h
      · exact List.mem_cons_of_mem _ (ih h)
      · split at h
        · exact nomatch h
        · rw [List.mem_singleton.mp h]
          exact List.mem_cons_self
    | resolved id key => exact List.mem_cons_of_mem _ (ih h)
    | acknowledged id operator => exact List.mem_cons_of_mem _ (ih h)

/-- What survives some edges survives in what follows them, unless it is closed there. -/
theorem surviving_append (edges more : List NotificationEdge) :
    surviving (edges ++ more) = handleAll more (surviving edges) := by
  have hnil : ∀ es : List NotificationEdge, handleAll es [] = surviving es := fun es => by
    rw [handleAll_eq, List.filter_nil, List.append_nil]
  rw [← hnil (edges ++ more), ← hnil edges]
  exact List.foldl_append

/-! ## What a call does to the list -/

namespace Watched

variable {s : NotificationLog}

/-- The edges that a call emits. -/
def news (s : NotificationLog) (c : NotificationLog.Call) : List NotificationEdge :=
  (s.step c).edges.drop s.edges.length

/-- The conditions of a call. -/
def Reports (s : NotificationLog) : NotificationLog.Call → Prop
  | .resolve _ key first => ∀ r ∈ s.reported key first, ∀ n ∈ s.openRows, n.dedupKey = key → n = r
  | _ => True

theorem handleAll_acknowledged (h : s.Inv) (ids : List ℕ) (operator : String) :
    handleAll ((s.unacknowledged ids).map fun n => .acknowledged n.id operator)
        (s.openRows.map Notification.payload) =
      (s.openRows.filter fun n => !ids.contains n.id).map Notification.payload := by
  have hnone : surviving ((s.unacknowledged ids).map fun n => .acknowledged n.id operator) = [] := by
    induction s.unacknowledged ids with
    | nil => rfl
    | cons n ns ih => exact ih
  rw [handleAll_eq, hnone, List.nil_append, List.filter_map]
  congr 1
  refine List.filter_congr fun n hn => ?_
  obtain ⟨hmem, hopen⟩ := List.mem_filter.mp hn
  simp only [Notification.isOpen, Bool.and_eq_true] at hopen
  simp only [Function.comp_apply]
  congr 1
  cases hids : ids.contains n.id with
  | true =>
    refine List.any_eq_true.mpr ⟨.acknowledged n.id operator, ?_, by simp [NotificationEdge.closes,
      Notification.payload]⟩
    exact List.mem_map_of_mem (List.mem_filter.mpr ⟨hmem, by simp only [hids, hopen.2, Bool.and_self]⟩)
  | false =>
    refine List.any_eq_false.mpr fun e he hcloses => ?_
    obtain ⟨m, hm, rfl⟩ := List.mem_map.mp he
    have hid : m.id = n.id := by simpa [NotificationEdge.closes, Notification.payload] using hcloses
    have hmids := (List.mem_filter.mp hm).2
    rw [hid, hids, Bool.false_and] at hmids
    exact Bool.false_ne_true hmids

/-- **What a call emits turns the open rows before it into the open rows after it.** -/
theorem handleAll_news (h : s.Inv) {c : NotificationLog.Call} (hreports : Reports s c) :
    (s.step c).edges = s.edges ++ news s c ∧
      (handleAll (news s c) (s.openRows.map Notification.payload)).Perm
        ((s.step c).openRows.map Notification.payload) := by
  have hsplit : ∀ fs, (s.step c).edges = s.edges ++ fs → news s c = fs := fun fs hfs => by
    rw [news, hfs, List.drop_left]
  cases c with
  | notify now a =>
    rcases s.notify_cases now a with heq | ⟨row, -, hrow, -, heq⟩
    · have hfs : (s.step (.notify now a)).edges = s.edges ++ [] := by
        rw [List.append_nil, NotificationLog.step, heq]
      have hopen : (s.step (.notify now a)).openRows = s.openRows := by
        rw [NotificationLog.step, heq]
        rfl
      rw [hsplit _ hfs, hopen]
      exact ⟨hfs, List.Perm.refl _⟩
    · have hfs : (s.step (.notify now a)).edges = s.edges ++ [.raised row.payload] :=
        congrArg NotificationLog.edges heq
      have hopen : (s.step (.notify now a)).openRows = s.openRows ++ [row] := by
        refine (congrArg NotificationLog.openRows heq).trans ?_
        simp only [NotificationLog.openRows, List.filter_append, List.filter_cons_of_pos hrow,
          List.filter_nil]
      rw [hsplit _ hfs, hopen, List.map_append]
      exact ⟨hfs, (List.perm_append_singleton row.payload _).symm⟩
  | resolve now key first =>
    rcases s.resolve_cases now key first with ⟨-, heq⟩ | ⟨r, hr, hreported, -, hedges, -, hopen⟩
    · have hsame : s.step (.resolve now key first) = s := heq
      have hfs : (s.step (.resolve now key first)).edges = s.edges ++ [] := by
        rw [List.append_nil, hsame]
      rw [hsplit _ hfs, hsame, List.append_nil]
      exact ⟨rfl, List.Perm.refl _⟩
    · have hfs : (s.step (.resolve now key first)).edges = s.edges ++ [.resolved r.id key] := hedges
      have hleft : (s.step (.resolve now key first)).openRows =
          s.openRows.filter fun n => !(n.dedupKey == key) := hopen
      rw [hsplit _ hfs, hleft]
      refine ⟨hfs, List.Perm.of_eq ?_⟩
      change (s.openRows.map Notification.payload).filter (fun p => p.id != r.id) = _
      rw [List.filter_map]
      congr 1
      refine List.filter_congr fun n hn => ?_
      obtain ⟨hmem, hkey⟩ := List.mem_filter.mp hr
      rw [Bool.and_eq_true, beq_iff_eq] at hkey
      simp only [Function.comp_apply, bne]
      congr 1
      rw [Bool.eq_iff_iff, beq_iff_eq, beq_iff_eq]
      constructor
      · intro hid
        rw [h.eq_of_id (NotificationLog.mem_of_mem_openRows hn) hmem hid]
        exact hkey.1
      · intro hsame
        rw [hreports r hreported n hn hsame]
        rfl
  | acknowledge now id operator =>
    have hfs : (s.step (.acknowledge now id operator)).edges =
        s.edges ++ (s.unacknowledged [id]).map fun n => .acknowledged n.id operator := rfl
    have hleft := NotificationLog.openRows_acknowledgeMany s now [id] operator
    rw [hsplit _ hfs, handleAll_acknowledged h]
    exact ⟨hfs, List.Perm.of_eq (congrArg _ hleft.symm)⟩
  | acknowledgeMany now ids operator =>
    have hfs : (s.step (.acknowledgeMany now ids operator)).edges =
        s.edges ++ (s.unacknowledged ids).map fun n => .acknowledged n.id operator := rfl
    have hleft := NotificationLog.openRows_acknowledgeMany s now ids operator
    rw [hsplit _ hfs, handleAll_acknowledged h]
    exact ⟨hfs, List.Perm.of_eq (congrArg _ hleft.symm)⟩

/-! ## Runs -/

/-- The invariant: the table is sound, the edges leave the open rows, and so does what the browser
has and has still to receive. -/
structure Inv (s : Watched) : Prop where
  log : s.log.Inv
  edges : (surviving s.log.edges).Perm (s.log.openRows.map Notification.payload)
  browser : s.Agrees
  position : ∀ b ∈ s.browser, b.position ≤ s.log.edges.length

theorem Inv.call {s : Watched} (h : Inv s) {c : NotificationLog.Call} (hreports : Reports s.log c) :
    Inv (s.step (.call c)) := by
  obtain ⟨hedges, hnews⟩ := handleAll_news h.log hreports
  refine ⟨h.log.step c, ?_, fun b hb => ?_, fun b hb => ?_⟩
  · change (surviving (s.log.step c).edges).Perm ((s.log.step c).openRows.map Notification.payload)
    rw [hedges, surviving_append]
    exact (handleAll_perm _ h.edges).trans hnews
  · have hpassed := h.position b hb
    have hshown : (s.step (.call c)).shown b = handleAll (news s.log c) (s.shown b) := by
      change handleAll ((s.log.step c).edges.drop b.position) b.notifications = _
      rw [hedges, List.drop_append_of_le_length hpassed]
      exact List.foldl_append
    rw [hshown]
    exact (handleAll_perm _ (h.browser b hb)).trans hnews
  · have hpassed := h.position b hb
    change b.position ≤ (s.log.step c).edges.length
    rw [hedges, List.length_append]
    omega

theorem bootstrap_perm {s : NotificationLog} (h : s.openRows.length ≤ 50) :
    s.bootstrap.Perm (s.openRows.map Notification.payload) := by
  have hsorted := List.perm_insertionSort (fun a b : Notification => b.moment ≤ a.moment) s.openRows
  have hlength : (s.openRows.insertionSort fun a b => b.moment ≤ a.moment).length ≤ 50 := by
    rw [hsorted.length_eq]
    exact h
  rw [NotificationLog.bootstrap, List.take_of_length_le hlength]
  exact hsorted.map _

theorem Inv.connect {s : Watched} (h : Inv s) {position : ℕ} (hfew : s.log.openRows.length ≤ 50)
    (hraises : s.RaisesOnce (.connect position)) : Inv (s.step (.connect position)) := by
  have hdrop : s.log.edges.drop (min position s.log.edges.length) = s.log.edges.drop position := by
    rcases Nat.le_total position s.log.edges.length with hle | hle
    · rw [Nat.min_eq_left hle]
    · rw [Nat.min_eq_right hle, List.drop_length, List.drop_of_length_le hle]
  refine ⟨h.log, h.edges, fun b hb => ?_, fun b hb => ?_⟩
  · obtain rfl := Option.some.inj hb
    change (handleAll (s.log.edges.drop (min position s.log.edges.length)) s.log.bootstrap).Perm
      (s.log.openRows.map Notification.payload)
    rw [hdrop]
    have hall : surviving s.log.edges =
        handleAll (s.log.edges.drop position) (surviving (s.log.edges.take position)) := by
      rw [← surviving_append, List.take_append_drop]
    -- What the edges raise for good is open, so they raise nothing for good.
    have hnone : surviving (s.log.edges.drop position) = [] := by
      refine List.eq_nil_iff_forall_not_mem.mpr fun p hp => ?_
      have hmem : p ∈ surviving s.log.edges := by
        rw [hall, handleAll_eq]
        exact List.mem_append_left _ hp
      obtain ⟨n, hn, rfl⟩ := List.mem_map.mp (h.edges.mem_iff.mp hmem)
      exact hraises _ (raised_of_surviving hp) n hn rfl
    -- No edge closes an open row.
    have hkeep : ∀ p ∈ s.log.openRows.map Notification.payload,
        (!closedBy (s.log.edges.drop position) p.id) = true := by
      intro p hp
      obtain ⟨n, hn, rfl⟩ := List.mem_map.mp hp
      rw [Bool.not_eq_true', closedBy, List.any_eq_false]
      intro e he hcloses
      exact (h.log.closed e (List.mem_of_mem_drop he) n.id (beq_iff_eq.mp hcloses)).2 n hn rfl
    refine (handleAll_perm _ (bootstrap_perm hfew)).trans (List.Perm.of_eq ?_)
    rw [handleAll_eq, hnone, List.nil_append]
    exact List.filter_eq_self.mpr hkeep
  · obtain rfl := Option.some.inj hb
    exact Nat.min_le_right _ _

theorem Inv.deliver {s : Watched} (h : Inv s) : Inv (s.step .deliver) := by
  refine ⟨h.log, h.edges, fun b hb => ?_, fun b hb => ?_⟩
  · obtain ⟨b₀, hb₀, rfl⟩ := Option.mem_map.mp hb
    split
    · next e he =>
      obtain ⟨hlt, rfl⟩ := List.getElem?_eq_some_iff.mp he
      have hagrees := h.browser b₀ hb₀
      rw [shown, List.drop_eq_getElem_cons hlt] at hagrees
      exact hagrees
    · exact h.browser b₀ hb₀
  · obtain ⟨b₀, hb₀, rfl⟩ := Option.mem_map.mp hb
    split
    · next e he =>
      obtain ⟨hlt, -⟩ := List.getElem?_eq_some_iff.mp he
      exact hlt
    · exact h.position b₀ hb₀

theorem Inv.step {s : Watched} (h : Inv s) {a : WatchAction} (hfew : s.Few a) (ha : s.Faithful a) :
    Inv (s.step a) := by
  cases a with
  | call c =>
    refine h.call ?_
    cases c with
    | resolve now key first => exact ha.1
    | notify now args => trivial
    | acknowledge now id operator => trivial
    | acknowledgeMany now ids operator => trivial
  | connect position => exact h.connect hfew ha.2
  | deliver => exact h.deliver

/-- **The operator's list agrees with the table** in every run in which resolutions report the open
row and connections raise no open row again, as long as at most 50 rows are open. -/
theorem list_agrees {actions : List WatchAction} (hfew : Trace.Along step Few {} actions)
    (hfaithful : Trace.Along step Faithful {} actions) : (Watched.after actions).Agrees := by
  have hboth : Trace.Along step (fun s a => s.Few a ∧ s.Faithful a) {} actions :=
    Trace.Along.and step hfew hfaithful
  have hlog : NotificationLog.Inv {} := {
    keyed := List.nodup_nil
    bounded := fun _ h => absurd h List.not_mem_nil
    openKey := fun _ h => absurd h List.not_mem_nil
    closed := fun _ h => absurd h List.not_mem_nil }
  have hstart : Inv {} := {
    log := hlog
    edges := List.Perm.refl _
    browser := fun _ h => absurd h (Option.not_mem_none _)
    position := fun _ h => absurd h (Option.not_mem_none _) }
  exact (Trace.exec_invariant_of_along step (I := Inv)
    (fun s a hc h => h.step hc.1 hc.2) hstart hboth).browser

/-- A source goes stale. -/
def stale : NotifyArgs := { kind := "source.stale", title := "No run for a week", sourceId := some "a" }

theorem list_agrees_after_reraise :
    (Watched.after [.connect 0, .call (.notify 1 stale), .deliver, .call (.acknowledge 2 1 "operator"),
      .call (.notify 3 stale), .call (.resolve 4 stale.key 1)]).Agrees :=
  list_agrees (by decide) (by decide)

/-- The condition is raised, acknowledged, raised again and resolved; the update returns the
acknowledged row first. -/
def resolvesAcknowledged : List WatchAction :=
  [.connect 0, .call (.notify 1 stale), .call (.acknowledge 2 1 "operator"),
    .call (.notify 3 stale), .call (.resolve 4 stale.key 0)]

/-- A notification is raised, and a browser connects with a list that shows it before its edge
arrives. -/
def reconnectsBefore : List WatchAction := [.connect 0, .call (.notify 1 stale), .connect 0]

/-- The list shows a resolved row in one run, and an open row twice in the other. -/
theorem list_disagrees :
    (Trace.Along step Few {} resolvesAcknowledged ∧
        ¬(Watched.after resolvesAcknowledged).Agrees) ∧
      Trace.Along step Few {} reconnectsBefore ∧ ¬(Watched.after reconnectsBefore).Agrees := by
  refine ⟨⟨by decide, fun h => ?_⟩, by decide, fun h => ?_⟩
  · obtain ⟨b, hb, hlength⟩ : ∃ b ∈ (Watched.after resolvesAcknowledged).browser,
        ((Watched.after resolvesAcknowledged).shown b).length ≠
          ((Watched.after resolvesAcknowledged).log.openRows.map Notification.payload).length := by
      decide
    exact hlength (h b hb).length_eq
  · obtain ⟨b, hb, hlength⟩ : ∃ b ∈ (Watched.after reconnectsBefore).browser,
        ((Watched.after reconnectsBefore).shown b).length ≠
          ((Watched.after reconnectsBefore).log.openRows.map Notification.payload).length := by
      decide
    exact hlength (h b hb).length_eq

end Watched

end CommerceCollector
