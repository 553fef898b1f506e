import CommerceCollector.Foundation.Trace
import Mathlib.Algebra.BigOperators.Group.List.Basic
import Mathlib.Algebra.GroupWithZero.Nat
import Mathlib.Order.Nat

/-!
# Job logs

`JobLogHandler` of `ops/sink.py`: the lines of a job are queued up to a capacity, beyond which they
are only counted, and a flush writes the queue row by row, with a marker that states how many lines
were dropped. A row that cannot be written is put back with those after it, in front of what was
queued meanwhile, and what exceeds the capacity is counted as dropped, one for each row.  A marker
counts as one there, so that lines get lost without an account exactly when a marker of more than
one line is cut off.
-/

namespace CommerceCollector

variable {δ : Type*}

/-- A row of `catalogue.job_events`, without the job. -/
structure LogEntry (δ : Type*) where
  level : String
  event : String
  message : String
  data : Option δ
  deriving DecidableEq, Repr

/-- What a queued row stands for: the line that was emitted after so many others, or dropped
lines. -/
inductive LogMark
  | line (number : ℕ)
  | truncated (count : ℕ)
  deriving DecidableEq, Repr

/-- A queued row. -/
structure JobLogRow (δ : Type*) where
  mark : LogMark
  entry : LogEntry δ
  deriving DecidableEq, Repr

/-- A log record: the job that is current, and what is made of the record, unless reading it
raises. -/
structure LogRecord (δ : Type*) where
  job : Option String
  entry : Option (LogEntry δ)

/-- A `JobLogHandler`, with the rows of its flushes that are yet to be written and what is in the
database.  The lines that were emitted for the job are counted. -/
structure JobLog (δ : Type*) where
  pending : List (JobLogRow δ) := []
  dropped : ℕ := 0
  flushes : List (List (JobLogRow δ)) := []
  written : List (JobLogRow δ) := []
  emitted : ℕ := 0
  deriving DecidableEq, Repr

/-- The marker of dropped lines. -/
def truncationMarker (dropped : ℕ) : JobLogRow δ where
  mark := .truncated dropped
  entry := { level := "warning", event := "job.log_truncated",
             message := toString dropped ++ " further log lines dropped", data := none }

namespace JobLog

variable (key : String) (capacity : ℕ)

/-- `emit`. -/
def emit (s : JobLog δ) (record : LogRecord δ) : JobLog δ :=
  if record.job ≠ some key then s
  else
    match record.entry with
    | none => { s with emitted := s.emitted + 1 }
    | some entry =>
      if capacity ≤ s.pending.length then
        { s with dropped := s.dropped + 1, emitted := s.emitted + 1 }
      else
        { s with pending := s.pending ++ [{ mark := .line s.emitted, entry := entry }],
                 emitted := s.emitted + 1 }

/-- The rows that `drain` returns. -/
def drained (s : JobLog δ) : List (JobLogRow δ) :=
  s.pending ++ if s.dropped = 0 then [] else [truncationMarker s.dropped]

/-- `drain`, at the start of a flush. -/
def drain (s : JobLog δ) : JobLog δ :=
  { s with pending := [], dropped := 0,
           flushes := s.flushes ++ if s.drained.isEmpty = true then [] else [s.drained] }

/-- The flushes when one of them has other rows left. -/
def carryOn (flushes : List (List (JobLogRow δ))) (i : ℕ) (rest : List (JobLogRow δ)) :
    List (List (JobLogRow δ)) :=
  flushes.take i ++ (if rest.isEmpty = true then [] else [rest]) ++ flushes.drop (i + 1)

/-- The rows of a flush whose write failed, in front of those that were queued meanwhile. -/
def restored (s : JobLog δ) (i : ℕ) : List (JobLogRow δ) := s.flushes.getD i [] ++ s.pending

/-- What is emitted, and the flushes: each begins, writes its next row, or fails to write it. -/
inductive Action (δ : Type*)
  | emit (record : LogRecord δ)
  | flush
  | write (i : ℕ)
  | fail (i : ℕ)

/-- `emit` and `flush_to`, one write at a time. -/
def step (s : JobLog δ) : Action δ → JobLog δ
  | .emit record => s.emit key capacity record
  | .flush => s.drain
  | .write i =>
    match s.flushes[i]? with
    | some (row :: rest) =>
      { s with written := s.written ++ [row], flushes := carryOn s.flushes i rest }
    | _ => s
  | .fail i =>
    if s.flushes[i]?.isSome = true then
      { s with pending := (s.restored i).take capacity,
               dropped := s.dropped + ((s.restored i).length - ((s.restored i).take capacity).length),
               flushes := carryOn s.flushes i [] }
    else s

end JobLog

/-! ## Accounts -/

/-- The number of a line. -/
def JobLogRow.number (row : JobLogRow δ) : Option ℕ :=
  match row.mark with
  | .line number => some number
  | .truncated _ => none

/-- The number of lines that a marker states. -/
def JobLogRow.stated (row : JobLogRow δ) : ℕ :=
  match row.mark with
  | .line _ => 0
  | .truncated count => count

/-- The number of lines that a row accounts for. -/
def JobLogRow.lines (row : JobLogRow δ) : ℕ := row.number.toList.length + row.stated

namespace JobLog

/-- The rows that are written, pending or being flushed. -/
def rows (s : JobLog δ) : List (JobLogRow δ) := s.written ++ (s.flushes.flatten ++ s.pending)

/-- **No line is lost without an account**: the lines that were emitted are those written, pending
or being flushed, those that markers state, and those that are counted as dropped. -/
def Conserves (s : JobLog δ) : Prop :=
  s.emitted = (s.rows.filterMap JobLogRow.number).length + ((s.rows.map JobLogRow.stated).sum + s.dropped)

instance (s : JobLog δ) : Decidable s.Conserves := inferInstanceAs (Decidable (_ = _))

/-- The lines for which some rows account. -/
def total (rows : List (JobLogRow δ)) : ℕ := (rows.map JobLogRow.lines).sum

variable (key : String) (capacity : ℕ)

/-- Every line for the job can be read, and no marker is cut off that states more than one line. -/
def Accounted (s : JobLog δ) : Action δ → Prop
  | .emit record => record.job = some key → record.entry ≠ none
  | .flush => True
  | .write _ => True
  | .fail i => s.flushes[i]? ≠ none → ∀ row ∈ (s.restored i).drop capacity, row.stated ≤ 1

/-- No flush begins while another is in progress. -/
def Apart (s : JobLog δ) : Action δ → Prop
  | .flush => s.flushes = []
  | _ => True

variable {key capacity} {s : JobLog δ}

theorem total_append (rows others : List (JobLogRow δ)) :
    total (rows ++ others) = total rows + total others := by
  rw [total, List.map_append, List.sum_append]
  rfl

theorem total_eq (rows : List (JobLogRow δ)) :
    total rows = (rows.filterMap JobLogRow.number).length + (rows.map JobLogRow.stated).sum := by
  induction rows with
  | nil => rfl
  | cons row rows ih =>
    rw [total, List.map_cons, List.sum_cons, ← total, ih, JobLogRow.lines, List.map_cons, List.sum_cons,
      List.filterMap_cons]
    cases row.number with
    | none => simp; omega
    | some number => simp; omega

theorem conserves_iff :
    s.Conserves ↔ s.emitted = total s.written + total s.flushes.flatten + total s.pending + s.dropped := by
  rw [Conserves, ← add_assoc, ← total_eq, rows, total_append, total_append, ← add_assoc]

theorem flatten_eq {flushes : List (List (JobLogRow δ))} {i : ℕ} {rows : List (JobLogRow δ)}
    (h : flushes[i]? = some rows) : flushes.flatten =
      (flushes.take i).flatten ++ rows ++ (flushes.drop (i + 1)).flatten := by
  obtain ⟨hi, hrows⟩ := List.getElem?_eq_some_iff.mp h
  conv_lhs => rw [← List.take_append_drop i flushes, List.drop_eq_getElem_cons hi, hrows]
  rw [List.flatten_append, List.flatten_cons, List.append_assoc]

theorem flatten_carryOn (flushes : List (List (JobLogRow δ))) (i : ℕ) (rest : List (JobLogRow δ)) :
    (carryOn flushes i rest).flatten =
      (flushes.take i).flatten ++ rest ++ (flushes.drop (i + 1)).flatten := by
  rw [carryOn, List.flatten_append, List.flatten_append]
  cases rest <;> simp

theorem flatten_drain : s.drain.flushes.flatten = s.flushes.flatten ++ s.drained := by
  rw [drain, List.flatten_append]
  cases s.drained <;> simp

theorem total_drained : total s.drained = total s.pending + s.dropped := by
  rw [drained, total_append]
  split <;> simp_all [total, truncationMarker, JobLogRow.lines, JobLogRow.stated, JobLogRow.number]

/-! ## Steps -/

/-- What comes of a record: it is not for the job, cannot be read, is dropped or is queued. -/
theorem emit_cases (s : JobLog δ) (record : LogRecord δ) :
    (record.job ≠ some key ∧ s.emit key capacity record = s) ∨
    (record.job = some key ∧ ((record.entry = none ∧
        s.emit key capacity record = { s with emitted := s.emitted + 1 }) ∨
      ∃ entry, record.entry = some entry ∧
        ((capacity ≤ s.pending.length ∧ s.emit key capacity record =
            { s with dropped := s.dropped + 1, emitted := s.emitted + 1 }) ∨
          (s.pending.length < capacity ∧ s.emit key capacity record =
            { s with pending := s.pending ++ [{ mark := .line s.emitted, entry := entry }],
                     emitted := s.emitted + 1 })))) := by
  rw [emit]
  by_cases hjob : record.job = some key
  · rw [if_neg (not_not.mpr hjob)]
    refine .inr ⟨hjob, ?_⟩
    cases record.entry with
    | none => exact .inl ⟨rfl, rfl⟩
    | some entry =>
      refine .inr ⟨entry, rfl, ?_⟩
      by_cases hfull : capacity ≤ s.pending.length
      · exact .inl ⟨hfull, if_pos hfull⟩
      · exact .inr ⟨Nat.lt_of_not_le hfull, if_neg hfull⟩
  · exact .inl ⟨hjob, if_pos hjob⟩

theorem write_cases (key : String) (capacity : ℕ) (s : JobLog δ) (i : ℕ) :
    (∃ row rest, s.flushes[i]? = some (row :: rest) ∧ s.step key capacity (.write i) =
      { s with written := s.written ++ [row], flushes := carryOn s.flushes i rest }) ∨
    s.step key capacity (.write i) = s := by
  rw [step]
  split
  · exact .inl ⟨_, _, ‹_›, rfl⟩
  · exact .inr rfl

theorem fail_cases (key : String) (capacity : ℕ) (s : JobLog δ) (i : ℕ) :
    (∃ rows, s.flushes[i]? = some rows ∧ s.restored i = rows ++ s.pending ∧
      s.step key capacity (.fail i) =
        { s with pending := (rows ++ s.pending).take capacity,
                 dropped := s.dropped + ((rows ++ s.pending).drop capacity).length,
                 flushes := carryOn s.flushes i [] }) ∨
    (s.flushes[i]? = none ∧ s.step key capacity (.fail i) = s) := by
  cases hrows : s.flushes[i]? with
  | none =>
    refine .inr ⟨rfl, ?_⟩
    rw [step, hrows]
    rfl
  | some rows =>
    have hrestored : s.restored i = rows ++ s.pending := by
      rw [restored, List.getD_eq_getElem?_getD, hrows, Option.getD_some]
    refine .inl ⟨rows, rfl, hrestored, ?_⟩
    have hcut : (rows ++ s.pending).length - ((rows ++ s.pending).take capacity).length =
        ((rows ++ s.pending).drop capacity).length := by
      rw [List.length_take, List.length_drop]
      omega
    rw [step, hrows, hrestored, hcut]
    rfl

/-! ## Conservation -/

/-- Rows that each account for a line account for at least as many as they are, and for no more if
and only if no marker states several lines. -/
theorem length_total {rows : List (JobLogRow δ)} (h : ∀ row ∈ rows, 0 < row.lines) :
    rows.length ≤ total rows ∧ (total rows = rows.length ↔ ∀ row ∈ rows, row.stated ≤ 1) := by
  induction rows with
  | nil => exact ⟨Nat.zero_le _, iff_of_true rfl nofun⟩
  | cons row rows ih =>
    obtain ⟨hrow, hrows⟩ := List.forall_mem_cons.mp h
    obtain ⟨hle, hiff⟩ := ih hrows
    have hone : row.lines = 1 ↔ row.stated ≤ 1 := by
      obtain ⟨_ | _, _⟩ := row
      · exact iff_of_true rfl (Nat.zero_le 1)
      · simp only [JobLogRow.lines, JobLogRow.number, JobLogRow.stated, Option.toList_none, List.length_nil] at hrow ⊢
        omega
    have hcons : total (row :: rows) = row.lines + total rows := List.sum_cons
    rw [List.forall_mem_cons, ← hiff, ← hone, hcons, List.length_cons]
    exact ⟨by omega, by omega⟩

/-- Every row accounts for a line. -/
def Marked (s : JobLog δ) : Prop := ∀ row ∈ s.rows, 0 < row.lines

theorem Marked.step (h : s.Marked) (a : Action δ) : (s.step key capacity a).Marked := by
  have hall : (∀ row ∈ s.written, 0 < row.lines) ∧ (∀ row ∈ s.flushes.flatten, 0 < row.lines) ∧
      ∀ row ∈ s.pending, 0 < row.lines := by
    simpa only [Marked, rows, List.forall_mem_append] using h
  obtain ⟨hwritten, hflushes, hpending⟩ := hall
  cases a with
  | emit record =>
    rw [JobLog.step]
    obtain ⟨-, heq⟩ | ⟨-, ⟨-, heq⟩ | ⟨entry, -, ⟨-, heq⟩ | ⟨-, heq⟩⟩⟩ := emit_cases s record
    · rw [heq]
      exact h
    · rw [heq]
      exact h
    · rw [heq]
      exact h
    · rw [heq]
      simp only [Marked, rows, List.forall_mem_append, List.forall_mem_singleton]
      exact ⟨hwritten, hflushes, hpending, Nat.one_pos⟩
  | flush =>
    have hdrained : ∀ row ∈ s.drained, 0 < row.lines := by
      rw [drained, List.forall_mem_append]
      refine ⟨hpending, ?_⟩
      split_ifs with hdropped
      · nofun
      · rw [List.forall_mem_singleton]
        simpa [truncationMarker, JobLogRow.lines, JobLogRow.stated, JobLogRow.number] using Nat.pos_of_ne_zero hdropped
    rw [JobLog.step, Marked, rows, flatten_drain]
    simp only [List.forall_mem_append]
    exact ⟨hwritten, ⟨hflushes, hdrained⟩, nofun⟩
  | write i =>
    obtain ⟨row, rest, hi, heq⟩ | heq := write_cases key capacity s i
    · rw [heq, Marked, rows, flatten_carryOn]
      rw [flatten_eq hi] at hflushes
      simp only [List.forall_mem_append, List.forall_mem_cons] at hflushes ⊢
      exact ⟨⟨hwritten, hflushes.1.2.1, nofun⟩, ⟨⟨hflushes.1.1, hflushes.1.2.2⟩, hflushes.2⟩, hpending⟩
    · rw [heq]
      exact h
  | fail i =>
    obtain ⟨rows, hi, -, heq⟩ | ⟨-, heq⟩ := fail_cases key capacity s i
    · rw [heq, Marked, JobLog.rows, flatten_carryOn]
      rw [flatten_eq hi] at hflushes
      simp only [List.forall_mem_append] at hflushes ⊢
      refine ⟨hwritten, ⟨⟨hflushes.1.1, nofun⟩, hflushes.2⟩, fun row hrow => ?_⟩
      exact (List.mem_append.mp (List.mem_of_mem_take hrow)).elim (hflushes.1.2 row) (hpending row)
    · rw [heq]
      exact h

/-- **Where no line was lost, a step loses none if and only if it meets the condition.** -/
theorem conserves_step_iff (h : s.Conserves) (hmarked : s.Marked) (a : Action δ) :
    (s.step key capacity a).Conserves ↔ Accounted key capacity s a := by
  rw [conserves_iff] at h ⊢
  cases a with
  | emit record =>
    rw [step, Accounted]
    obtain ⟨hjob, heq⟩ | ⟨hjob, hread⟩ := emit_cases s record
    · rw [heq]
      exact iff_of_true h fun hkey => absurd hkey hjob
    · obtain ⟨hentry, heq⟩ | ⟨entry, hentry, hroom⟩ := hread
      · rw [heq, hentry]
        exact iff_of_false (by dsimp only; omega) fun hall => hall hjob rfl
      · refine iff_of_true ?_ fun _ => hentry ▸ Option.some_ne_none entry
        obtain ⟨-, heq⟩ | ⟨-, heq⟩ := hroom
        · rw [heq]
          dsimp only
          omega
        · rw [heq]
          have hline : total [({ mark := .line s.emitted, entry := entry } : JobLogRow δ)] = 1 := rfl
          rw [total_append, hline]
          dsimp only
          omega
  | flush =>
    refine iff_of_true ?_ trivial
    have hsame : s.drain.emitted = s.emitted ∧ s.drain.written = s.written := ⟨rfl, rfl⟩
    have hempty : total s.drain.pending + s.drain.dropped = 0 := rfl
    rw [step, flatten_drain, total_append, total_drained, add_assoc, hempty, hsame.1, hsame.2]
    omega
  | write i =>
    refine iff_of_true ?_ trivial
    obtain ⟨row, rest, hi, heq⟩ | heq := write_cases key capacity s i
    · have hrow : total (row :: rest) = total [row] + total rest := total_append [row] rest
      rw [flatten_eq hi] at h
      rw [heq]
      simp only [flatten_carryOn, total_append] at h ⊢
      omega
    · rw [heq]
      exact h
  | fail i =>
    obtain ⟨rows, hi, hrestored, heq⟩ | ⟨hnone, heq⟩ := fail_cases key capacity s i
    · have hcut : ∀ row ∈ (rows ++ s.pending).drop capacity, 0 < row.lines := by
        intro row hrow
        have hmem := List.mem_of_mem_drop hrow
        refine hmarked row ?_
        rw [JobLog.rows, flatten_eq hi]
        simp only [List.mem_append] at hmem ⊢
        tauto
      obtain ⟨-, hiff⟩ := length_total hcut
      have hparts := congrArg total (List.take_append_drop capacity (rows ++ s.pending))
      rw [total_append, total_append] at hparts
      have hempty : total ([] : List (JobLogRow δ)) = 0 := rfl
      rw [flatten_eq hi, total_append, total_append] at h
      rw [heq, Accounted, hrestored, ← hiff, flatten_carryOn, total_append, total_append, hempty,
        forall_prop_of_true (hi ▸ Option.some_ne_none rows)]
      dsimp only
      omega
    · rw [heq]
      exact iff_of_true h fun hne => absurd hnone hne

/-! ## Order -/

theorem pending_step_le (h : s.pending.length ≤ capacity) (a : Action δ) :
    (s.step key capacity a).pending.length ≤ capacity := by
  cases a with
  | emit record =>
    rw [step]
    obtain ⟨-, heq⟩ | ⟨-, ⟨-, heq⟩ | ⟨entry, -, ⟨-, heq⟩ | ⟨hroom, heq⟩⟩⟩ := emit_cases s record
    · rwa [heq]
    · rwa [heq]
    · rwa [heq]
    · rw [heq]
      dsimp only
      rw [List.length_append, List.length_singleton]
      exact hroom
  | flush => exact Nat.zero_le _
  | write i =>
    obtain ⟨row, rest, -, heq⟩ | heq := write_cases key capacity s i
    · rwa [heq]
    · rwa [heq]
  | fail i =>
    obtain ⟨rows, -, -, heq⟩ | ⟨-, heq⟩ := fail_cases key capacity s i
    · rw [heq]
      exact List.length_take_le _ _
    · rwa [heq]

/-- At most one flush is in progress, and the lines that are written, being flushed and pending are
in the order in which they were emitted. -/
structure Ordered (s : JobLog δ) : Prop where
  alone : s.flushes.length ≤ 1
  sorted : (s.rows.filterMap JobLogRow.number).Pairwise (· < ·)
  below : ∀ number ∈ s.rows.filterMap JobLogRow.number, number < s.emitted

theorem Ordered.of_sublist (h : s.Ordered) {s' : JobLog δ} (halone : s'.flushes.length ≤ 1)
    (hsub : (s'.rows.filterMap JobLogRow.number).Sublist (s.rows.filterMap JobLogRow.number))
    (hemitted : s.emitted ≤ s'.emitted) : s'.Ordered where
  alone := halone
  sorted := h.sorted.sublist hsub
  below number hnumber := (h.below number (hsub.subset hnumber)).trans_le hemitted

theorem Ordered.carryOn (h : s.Ordered) {i : ℕ} {rows : List (JobLogRow δ)}
    (hi : s.flushes[i]? = some rows) (rest : List (JobLogRow δ)) :
    s.flushes.flatten = rows ∧ (carryOn s.flushes i rest).flatten = rest ∧
      (JobLog.carryOn s.flushes i rest).length ≤ 1 := by
  obtain ⟨hlt, -⟩ := List.getElem?_eq_some_iff.mp hi
  have halone := h.alone
  have htake : s.flushes.take i = [] := List.length_eq_zero_iff.mp (by rw [List.length_take]; omega)
  have hdrop : s.flushes.drop (i + 1) = [] :=
    List.length_eq_zero_iff.mp (by rw [List.length_drop]; omega)
  rw [flatten_eq hi, flatten_carryOn, JobLog.carryOn, htake, hdrop]
  cases rest <;> simp

theorem Ordered.step (h : s.Ordered) (a : Action δ) (hC : Apart s a) :
    (s.step key capacity a).Ordered := by
  cases a with
  | emit record =>
    rw [JobLog.step]
    obtain ⟨-, heq⟩ | ⟨-, ⟨-, heq⟩ | ⟨entry, -, ⟨-, heq⟩ | ⟨-, heq⟩⟩⟩ := emit_cases s record
    · rwa [heq]
    · rw [heq]
      exact h.of_sublist h.alone (.refl _) (Nat.le_succ _)
    · rw [heq]
      exact h.of_sublist h.alone (.refl _) (Nat.le_succ _)
    · rw [heq]
      have hnumbers : (s.rows ++ [({ mark := .line s.emitted, entry := entry } : JobLogRow δ)]).filterMap
          JobLogRow.number = s.rows.filterMap JobLogRow.number ++ [s.emitted] := List.filterMap_append
      refine ⟨h.alone, ?_, fun number hnumber => ?_⟩
      · rw [rows, ← List.append_assoc s.flushes.flatten, ← List.append_assoc s.written, ← rows, hnumbers,
          List.pairwise_append]
        refine ⟨h.sorted, List.pairwise_singleton _ _, fun number hnumber last hlast => ?_⟩
        exact List.mem_singleton.mp hlast ▸ h.below number hnumber
      · rw [rows, ← List.append_assoc s.flushes.flatten, ← List.append_assoc s.written, ← rows,
          hnumbers] at hnumber
        rcases List.mem_append.mp hnumber with hnumber | hnumber
        · exact (h.below number hnumber).trans (Nat.lt_succ_self _)
        · exact List.mem_singleton.mp hnumber ▸ Nat.lt_succ_self _
  | flush =>
    have hnone : s.flushes = [] := hC
    have hdrained : s.drained.filterMap JobLogRow.number = s.pending.filterMap JobLogRow.number := by
      rw [drained, List.filterMap_append]
      split_ifs
      · exact List.append_nil _
      · exact List.append_nil _
    refine h.of_sublist ?_ ?_ le_rfl
    · rw [JobLog.step, drain, hnone]
      dsimp only
      split_ifs
      · exact Nat.zero_le _
      · exact le_rfl
    · have hempty : s.drain.pending = [] := rfl
      rw [JobLog.step, rows, rows, flatten_drain, hempty, List.append_nil, List.filterMap_append,
        List.filterMap_append, List.filterMap_append, List.filterMap_append, hdrained]
      exact .refl _
  | write i =>
    obtain ⟨row, rest, hi, heq⟩ | heq := write_cases key capacity s i
    · obtain ⟨hrows, hrest, halone⟩ := h.carryOn hi rest
      refine heq ▸ h.of_sublist halone ?_ le_rfl
      rw [rows, rows, hrows, hrest, List.append_assoc]
      exact .refl _
    · rwa [heq]
  | fail i =>
    obtain ⟨rows, hi, -, heq⟩ | ⟨-, heq⟩ := fail_cases key capacity s i
    · obtain ⟨hrows, hrest, halone⟩ := h.carryOn hi []
      refine heq ▸ h.of_sublist halone (List.Sublist.filterMap _ ?_) le_rfl
      rw [JobLog.rows, JobLog.rows, hrows, hrest]
      exact (List.take_sublist _ _).append_left _
    · rwa [heq]

/-- Four lines of a job whose log has room for two, and a flush that fails at once. -/
def overflowing : List (Action Unit) :=
  List.replicate 4 (.emit { job := some "job", entry := some ⟨"info", "page", "fetched", none⟩ }) ++
    [.flush, .fail 0]

end JobLog

end CommerceCollector
