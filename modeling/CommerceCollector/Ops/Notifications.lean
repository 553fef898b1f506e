import CommerceCollector.Ops.Schema
import Mathlib.Data.List.Rotate

/-!
# Notifications

The table `catalogue.notifications` and the four functions of `ops/events.py` that write it:
`notify`, `resolve`, `acknowledge` and `acknowledge_many`.  Each call is one transaction; it changes
the table and emits the edges of `event_log` that tell the browsers.

A row is open while it is neither resolved nor acknowledged.  At most one open row has a key, the
partial unique index `notifications_open_key`; acknowledged rows of the same key may be unresolved
beside it, and `resolve` closes all of them.
-/

namespace CommerceCollector

open Relational

/-! ## The table -/

/-- `Severity`. -/
inductive Severity
  | info | warning | critical
  deriving DecidableEq, Repr

/-- A row of `catalogue.notifications`. -/
structure Notification where
  id : ℕ
  /-- `at`. -/
  moment : Time
  severity : Severity
  kind : String
  title : String
  body : Option String
  runId : Option Uuid
  jobId : Option Uuid
  sourceId : Option String
  workerId : Option Uuid
  dedupKey : String
  resolvedAt : Option Time := none
  acknowledgedAt : Option Time := none
  acknowledgedBy : Option String := none
  deriving DecidableEq, Repr

namespace Notification

/-- `resolved_at is null and acknowledged_at is null`. -/
def isOpen (n : Notification) : Bool := n.resolvedAt.isNone && n.acknowledgedAt.isNone

end Notification

/-- The payload of `notification.raised`. -/
structure RaisedPayload where
  id : ℕ
  severity : Severity
  kind : String
  title : String
  deriving DecidableEq, Repr

/-- What a browser shows of a row. -/
def Notification.payload (n : Notification) : RaisedPayload :=
  { id := n.id, severity := n.severity, kind := n.kind, title := n.title }

/-- An edge with the topic `notification`. -/
inductive NotificationEdge
  | raised (payload : RaisedPayload)
  | resolved (id : ℕ) (dedupKey : String)
  | acknowledged (id : ℕ) (operator : String)
  deriving DecidableEq, Repr

/-- The row that an edge closes in a browser. -/
def NotificationEdge.closes : NotificationEdge → Option ℕ
  | .raised _ => none
  | .resolved id _ => some id
  | .acknowledged id _ => some id

/-- The table and the edges emitted so far. -/
structure NotificationLog where
  /-- `notifications_id_seq`. -/
  nextId : ℕ := 1
  rows : List Notification := []
  edges : List NotificationEdge := []
  deriving DecidableEq, Repr

/-- The arguments of `notify`. -/
structure NotifyArgs where
  kind : String
  title : String
  severity : Severity := .warning
  dedupKey : Option String := none
  body : Option String := none
  runId : Option Uuid := none
  jobId : Option Uuid := none
  sourceId : Option String := none
  workerId : Option Uuid := none
  deriving DecidableEq, Repr

/-- `dedup_key or ":".join(filter(None, [kind, source_id, str(job_id or "")]))`. -/
def NotifyArgs.key (a : NotifyArgs) : String :=
  match a.dedupKey.filter (· ≠ "") with
  | some key => key
  | none =>
    ":".intercalate
      ([a.kind, a.sourceId.getD "", (a.jobId.map toString).getD ""].filter (· ≠ ""))

namespace NotificationLog

/-! ## The calls -/

/-- `notify(connection, kind, title, …)` at a moment.  The id is drawn before the conflict is
found. -/
def notify (s : NotificationLog) (now : Time) (a : NotifyArgs) : NotificationLog :=
  if s.rows.any fun n => n.isOpen && n.dedupKey == a.key then { s with nextId := s.nextId + 1 }
  else
    let row : Notification :=
      { id := s.nextId, moment := now, severity := a.severity, kind := a.kind, title := a.title,
        body := a.body, runId := a.runId, jobId := a.jobId, sourceId := a.sourceId,
        workerId := a.workerId, dedupKey := a.key }
    { nextId := s.nextId + 1, rows := s.rows ++ [row], edges := s.edges ++ [.raised row.payload] }

/-- The unresolved rows of a key. -/
def unresolved (s : NotificationLog) (key : String) : List Notification :=
  s.rows.filter fun n => n.dedupKey == key && n.resolvedAt.isNone

/-- The row that `RESOLVE_NOTIFICATION` returns first, if it returns the rows from a position on. -/
def reported (s : NotificationLog) (key : String) (first : ℕ) : Option Notification :=
  ((s.unresolved key).rotate first).head?

/-- `resolve(connection, dedup_key)`: all unresolved rows of the key are resolved, and the id of the
row that the update returns first is reported. -/
def resolve (s : NotificationLog) (now : Time) (key : String) (first : ℕ) : NotificationLog :=
  match s.reported key first with
  | none => s
  | some n =>
    { s with
      rows := update (fun n => n.dedupKey == key && n.resolvedAt.isNone)
        (fun n => { n with resolvedAt := some now }) s.rows
      edges := s.edges ++ [.resolved n.id key] }

/-- The unacknowledged rows among some ids. -/
def unacknowledged (s : NotificationLog) (ids : List ℕ) : List Notification :=
  s.rows.filter fun n => ids.contains n.id && n.acknowledgedAt.isNone

/-- `acknowledge_many(connection, notification_ids, by)`. -/
def acknowledgeMany (s : NotificationLog) (now : Time) (ids : List ℕ) (operator : String) :
    NotificationLog :=
  { s with
    rows := update (fun n => ids.contains n.id && n.acknowledgedAt.isNone)
      (fun n => { n with acknowledgedAt := some now, acknowledgedBy := some operator }) s.rows
    edges := s.edges ++ (s.unacknowledged ids).map fun n => .acknowledged n.id operator }

/-- `acknowledge(connection, notification_id, by)`: the id is the primary key. -/
def acknowledge (s : NotificationLog) (now : Time) (id : ℕ) (operator : String) : NotificationLog :=
  s.acknowledgeMany now [id] operator

/-- A call. -/
inductive Call
  | notify (now : Time) (args : NotifyArgs)
  | resolve (now : Time) (key : String) (first : ℕ)
  | acknowledge (now : Time) (id : ℕ) (operator : String)
  | acknowledgeMany (now : Time) (ids : List ℕ) (operator : String)
  deriving DecidableEq, Repr

/-- The effect of a call. -/
def step (s : NotificationLog) : Call → NotificationLog
  | .notify now args => s.notify now args
  | .resolve now key first => s.resolve now key first
  | .acknowledge now id operator => s.acknowledge now id operator
  | .acknowledgeMany now ids operator => s.acknowledgeMany now ids operator

/-! ## The open rows -/

/-- The open rows. -/
def openRows (s : NotificationLog) : List Notification := s.rows.filter Notification.isOpen

/-- `NOTIFICATIONS` with `unacknowledged` and the limit of the bootstrap: the newest open rows. -/
def bootstrap (s : NotificationLog) : List RaisedPayload :=
  ((s.openRows.insertionSort fun a b => b.moment ≤ a.moment).take 50).map Notification.payload

/-- What holds of the table after every call: the constraints, and what the edges tell. -/
structure Inv (s : NotificationLog) : Prop where
  /-- The primary key. -/
  keyed : Keyed Notification.id s.rows
  bounded : ∀ n ∈ s.rows, n.id < s.nextId
  /-- `notifications_open_key`. -/
  openKey : ∀ n ∈ s.openRows, ∀ m ∈ s.openRows, n.dedupKey = m.dedupKey → n = m
  /-- No edge closes an open row. -/
  closed : ∀ e ∈ s.edges, ∀ i ∈ e.closes, i < s.nextId ∧ ∀ n ∈ s.openRows, n.id ≠ i

/-! ## What a call does to the open rows -/

variable {s : NotificationLog}

variable {f : Notification → Notification}

theorem filter_update_closing {p q : Notification → Bool} (h : ∀ n, q (f n) = false)
    (rows : List Notification) :
    (update p f rows).filter q = (rows.filter q).filter fun n => !p n := by
  induction rows with
  | nil => rfl
  | cons n rows ih =>
    unfold update at ih ⊢
    rw [List.map_cons, List.filter_cons, ih]
    cases hp : p n <;> cases hq : q n <;> simp [hp, hq, h n]

theorem notify_cases (s : NotificationLog) (now : Time) (a : NotifyArgs) :
    (s.notify now a = { s with nextId := s.nextId + 1 }) ∨
      ∃ row : Notification, row.id = s.nextId ∧ row.isOpen = true ∧
        (∀ n ∈ s.openRows, n.dedupKey ≠ row.dedupKey) ∧
        s.notify now a =
          { nextId := s.nextId + 1
            rows := s.rows ++ [row]
            edges := s.edges ++ [.raised row.payload] } := by
  unfold notify
  split
  · exact Or.inl rfl
  · next hnone =>
    refine Or.inr ⟨_, rfl, rfl, fun n hn hkey => hnone ?_, rfl⟩
    obtain ⟨hmem, hopen⟩ := List.mem_filter.mp hn
    exact List.any_eq_true.mpr ⟨n, hmem, by simp [hopen, hkey]⟩

theorem openRows_acknowledgeMany (s : NotificationLog) (now : Time) (ids : List ℕ)
    (operator : String) :
    (s.acknowledgeMany now ids operator).openRows = s.openRows.filter fun n => !ids.contains n.id := by
  unfold openRows acknowledgeMany
  rw [filter_update_closing (fun n => by simp [Notification.isOpen])]
  refine List.filter_congr fun n hn => ?_
  have hopen := (List.mem_filter.mp hn).2
  simp only [Notification.isOpen, Bool.and_eq_true] at hopen
  simp [hopen.2]

/-- What `resolve` does. -/
theorem resolve_cases (s : NotificationLog) (now : Time) (key : String) (first : ℕ) :
    (s.unresolved key = [] ∧ s.resolve now key first = s) ∨
      ∃ n ∈ s.unresolved key, s.reported key first = some n ∧
        (s.resolve now key first).nextId = s.nextId ∧
        (s.resolve now key first).edges = s.edges ++ [.resolved n.id key] ∧
        (s.resolve now key first).rows =
          update (fun n => n.dedupKey == key && n.resolvedAt.isNone)
            (fun n => { n with resolvedAt := some now }) s.rows ∧
        (s.resolve now key first).openRows = s.openRows.filter fun n => !(n.dedupKey == key) := by
  unfold resolve
  cases hreported : s.reported key first with
  | none =>
    refine Or.inl ⟨?_, rfl⟩
    have hnil := List.head?_eq_none_iff.mp hreported
    exact List.rotate_eq_nil_iff.mp hnil
  | some n =>
    have hmem : n ∈ s.unresolved key :=
      List.mem_rotate.mp (List.mem_of_mem_head? hreported)
    refine Or.inr ⟨n, hmem, rfl, rfl, rfl, rfl, ?_⟩
    unfold openRows
    simp only
    rw [filter_update_closing (fun n => by simp [Notification.isOpen])]
    refine List.filter_congr fun m hm => ?_
    have hopen := (List.mem_filter.mp hm).2
    simp only [Notification.isOpen, Bool.and_eq_true] at hopen
    simp [hopen.1]

theorem mem_of_mem_openRows {n : Notification} (h : n ∈ s.openRows) : n ∈ s.rows :=
  List.mem_of_mem_filter h

theorem map_id_update {p : Notification → Bool} (h : ∀ n, (f n).id = n.id)
    (rows : List Notification) :
    (update p f rows).map Notification.id = rows.map Notification.id := by
  unfold update
  rw [List.map_map]
  refine List.map_congr_left fun n _ => ?_
  simp only [Function.comp_apply]
  split
  · exact h n
  · rfl

theorem Inv.close (h : s.Inv) {s' : NotificationLog} {p : Notification → Bool}
    (hrows : s'.rows = update p f s.rows) (hf : ∀ n, (f n).id = n.id) (hnext : s'.nextId = s.nextId)
    (hopen : ∀ n ∈ s'.openRows, n ∈ s.openRows)
    (hedges : ∀ e ∈ s'.edges, e ∈ s.edges ∨ ∀ i ∈ e.closes, i < s.nextId ∧ ∀ n ∈ s'.openRows, n.id ≠ i) :
    s'.Inv := by
  refine ⟨?_, ?_, ?_, ?_⟩
  · unfold Keyed
    rw [hrows, map_id_update hf]
    exact h.keyed
  · intro n hn
    rw [hrows] at hn
    obtain ⟨m, hm, rfl⟩ := mem_update.mp hn
    have hbound := h.bounded m hm
    rw [hnext]
    split
    · rw [hf m]
      exact hbound
    · exact hbound
  · exact fun n hn m hm => h.openKey n (hopen n hn) m (hopen m hm)
  · intro e he i hi
    rw [hnext]
    rcases hedges e he with hold | hnew
    · obtain ⟨hlt, hne⟩ := h.closed e hold i hi
      exact ⟨hlt, fun n hn => hne n (hopen n hn)⟩
    · exact hnew i hi

theorem Inv.eq_of_id (h : s.Inv) {n m : Notification} (hn : n ∈ s.rows) (hm : m ∈ s.rows)
    (hid : n.id = m.id) : n = m := h.keyed.eq_of_mem hn hm hid

theorem Inv.acknowledgeMany (h : s.Inv) (now : Time) (ids : List ℕ) (operator : String) :
    (s.acknowledgeMany now ids operator).Inv := by
  have hopen := openRows_acknowledgeMany s now ids operator
  refine h.close rfl (fun _ => rfl) rfl (fun n hn => ?_) (fun e he => ?_)
  · rw [hopen] at hn
    exact List.mem_of_mem_filter hn
  · rcases List.mem_append.mp he with hold | hnew
    · exact Or.inl hold
    · obtain ⟨m, hm, rfl⟩ := List.mem_map.mp hnew
      obtain ⟨hmem, hids⟩ := List.mem_filter.mp hm
      refine Or.inr fun i hi => ?_
      obtain rfl : m.id = i := Option.some.inj hi
      refine ⟨h.bounded m hmem, fun n hn hid => ?_⟩
      rw [hopen, List.mem_filter] at hn
      rw [Bool.and_eq_true] at hids
      rw [hid, hids.1] at hn
      exact absurd hn.2 (by decide)

/-- **Every call keeps the invariant.** -/
theorem Inv.step (h : s.Inv) (c : Call) : (s.step c).Inv := by
  cases c with
  | notify now a =>
    change (s.notify now a).Inv
    rcases s.notify_cases now a with heq | ⟨row, hid, hrow, hkey, heq⟩
    · rw [heq]
      exact ⟨h.keyed, fun n hn => (h.bounded n hn).trans (Nat.lt_succ_self _), h.openKey,
        fun e he i hi => ⟨((h.closed e he i hi).1).trans (Nat.lt_succ_self _), (h.closed e he i hi).2⟩⟩
    · have hnew : ∀ n ∈ (s.notify now a).openRows, n ∈ s.openRows ∨ n = row := by
        intro n hn
        rw [heq, openRows, List.filter_append, List.mem_append] at hn
        exact hn.imp_right fun hn => List.mem_singleton.mp (List.mem_of_mem_filter hn)
      refine ⟨?_, ?_, ?_, ?_⟩
      · rw [heq, Keyed, List.map_append, List.nodup_append]
        refine ⟨h.keyed, List.nodup_singleton _, ?_⟩
        intro i hi j hj hij
        obtain ⟨n, hn, rfl⟩ := List.mem_map.mp hi
        rw [List.map_singleton, List.mem_singleton] at hj
        have hlt := h.bounded n hn
        omega
      · rw [heq]
        intro n hn
        rcases List.mem_append.mp hn with hold | hnew
        · exact (h.bounded n hold).trans (Nat.lt_succ_self _)
        · rw [List.mem_singleton.mp hnew, hid]
          exact Nat.lt_succ_self _
      · intro n hn m hm hsame
        rcases hnew n hn with hn | rfl
        · rcases hnew m hm with hm | rfl
          · exact h.openKey n hn m hm hsame
          · exact absurd hsame (hkey n hn)
        · rcases hnew m hm with hm | rfl
          · exact absurd hsame.symm (hkey m hm)
          · rfl
      · intro e he i hi
        have hedges : (s.notify now a).edges = s.edges ++ [.raised row.payload] :=
          congrArg NotificationLog.edges heq
        have hnext : (s.notify now a).nextId = s.nextId + 1 := congrArg NotificationLog.nextId heq
        rw [hedges] at he
        rw [hnext]
        rcases List.mem_append.mp he with hold | hraised
        · obtain ⟨hlt, hne⟩ := h.closed e hold i hi
          refine ⟨hlt.trans (Nat.lt_succ_self _), fun n hn => ?_⟩
          rcases hnew n hn with hn | rfl
          · exact hne n hn
          · omega
        · rw [List.mem_singleton.mp hraised] at hi
          exact nomatch hi
  | resolve now key first =>
    change (s.resolve now key first).Inv
    rcases s.resolve_cases now key first with ⟨-, heq⟩ | ⟨n, hn, -, hnext, hedges, hrows, hopen⟩
    · rw [heq]
      exact h
    · refine h.close hrows (fun _ => rfl) hnext (fun m hm => ?_) (fun e he => ?_)
      · rw [hopen] at hm
        exact List.mem_of_mem_filter hm
      · rw [hedges] at he
        rcases List.mem_append.mp he with hold | hnew
        · exact Or.inl hold
        · refine Or.inr fun i hi => ?_
          rw [List.mem_singleton.mp hnew] at hi
          obtain rfl : n.id = i := Option.some.inj hi
          obtain ⟨hmem, hkey⟩ := List.mem_filter.mp hn
          refine ⟨h.bounded n hmem, fun m hm hid => ?_⟩
          rw [hopen] at hm
          obtain ⟨hm, hother⟩ := List.mem_filter.mp hm
          obtain rfl := h.eq_of_id (mem_of_mem_openRows hm) hmem hid
          rw [Bool.and_eq_true] at hkey
          rw [hkey.1] at hother
          exact absurd hother (by decide)
  | acknowledge now id operator => exact h.acknowledgeMany now [id] operator
  | acknowledgeMany now ids operator => exact h.acknowledgeMany now ids operator

end NotificationLog

end CommerceCollector
