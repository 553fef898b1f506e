import Mathlib.Data.List.Basic
import Mathlib.Data.List.Induction
import Mathlib.Order.Lattice

/-!
# The latest write wins

A register holds a value and the greatest stamp that it has seen.  A write that is not older than
the stamp replaces it, and the value with it, if the write brings one.  Writing a list a second time
changes nothing (`writes_writes`), and the value of a register is that of the last write that was in
time (`value_writes`); it is the value of the newest write if no write without a value is newer.

A table of rows under keys takes entries: an entry is merged into the rows of its key, or makes a
new row.  Entries that are merged a second time change nothing, if this holds row by row
(`mergeAll_mergeAll`).
-/

namespace LatestWins

/-! ## Registers -/

/-- A value and its stamp. -/
structure Register (τ α : Type*) where
  stamp : τ
  value : α

/-- A write; one without a value moves the stamp only. -/
structure Write (τ α : Type*) where
  stamp : τ
  value : Option α

section Register

variable {τ α : Type*} [LinearOrder τ]

/-- One write. -/
def Register.write (s : Register τ α) (w : Write τ α) : Register τ α :=
  if s.stamp ≤ w.stamp then { stamp := w.stamp, value := w.value.getD s.value } else s

/-- The writes one after the other. -/
def Register.writes (s : Register τ α) (ws : List (Write τ α)) : Register τ α := ws.foldl write s

/-- The value of the last write that is not older than the stamp and the writes before it. -/
def lastInTime (t : τ) : List (Write τ α) → Option α
  | [] => none
  | w :: ws => (lastInTime (max t w.stamp) ws).or (if t ≤ w.stamp then w.value else none)

variable {s : Register τ α} {w : Write τ α} {ws : List (Write τ α)}

theorem writes_concat (s : Register τ α) (ws : List (Write τ α)) (w : Write τ α) :
    s.writes (ws ++ [w]) = (s.writes ws).write w := by
  rw [Register.writes, List.foldl_append]
  rfl

/-- A write leaves the greater stamp. -/
theorem stamp_write (s : Register τ α) (w : Write τ α) : (s.write w).stamp = max s.stamp w.stamp := by
  unfold Register.write
  split
  · rename_i hle
    exact (max_eq_right hle).symm
  · rename_i hlt
    exact (max_eq_left (not_le.mp hlt).le).symm

/-- The stamp is not older than before, nor than a write. -/
theorem le_stamp_writes (s : Register τ α) (ws : List (Write τ α)) :
    s.stamp ≤ (s.writes ws).stamp ∧ ∀ w ∈ ws, w.stamp ≤ (s.writes ws).stamp := by
  induction ws using List.reverseRecOn with
  | nil => exact ⟨le_rfl, fun _ h => absurd h List.not_mem_nil⟩
  | append_singleton ws w ih =>
    rw [writes_concat, stamp_write]
    refine ⟨ih.1.trans (le_max_left _ _), fun v hv => ?_⟩
    rcases List.mem_append.mp hv with hv | hv
    · exact (ih.2 v hv).trans (le_max_left _ _)
    · rw [List.mem_singleton.mp hv]
      exact le_max_right _ _

/-- The stamp stays below a bound of the writes. -/
theorem stamp_writes_le {b : τ} (hs : s.stamp ≤ b) (hws : ∀ w ∈ ws, w.stamp ≤ b) :
    (s.writes ws).stamp ≤ b := by
  induction ws using List.reverseRecOn with
  | nil => exact hs
  | append_singleton ws w ih =>
    rw [writes_concat, stamp_write]
    exact max_le (ih fun v hv => hws v (List.mem_append_left _ hv)) (hws w (by simp))

/-- Older writes change nothing. -/
theorem writes_of_older (h : ∀ w ∈ ws, w.stamp < s.stamp) : s.writes ws = s := by
  induction ws with
  | nil => rfl
  | cons w ws ih =>
    have hold : s.write w = s := if_neg (not_le.mpr (h w List.mem_cons_self))
    rw [Register.writes, List.foldl_cons, hold]
    exact ih fun v hv => h v (List.mem_cons_of_mem w hv)

/-- **Writes that are repeated change nothing.** -/
theorem writes_writes (s : Register τ α) (ws : List (Write τ α)) :
    (s.writes ws).writes ws = s.writes ws := by
  induction ws using List.reverseRecOn with
  | nil => rfl
  | append_singleton ws w ih =>
    have hbound := (le_stamp_writes s ws).2
    rw [writes_concat, writes_concat]
    generalize s.writes ws = r at ih hbound
    rcases lt_or_ge w.stamp r.stamp with hold | hnew
    · -- The last write is late both times.
      have hr : r.write w = r := if_neg (not_le.mpr hold)
      rw [hr, ih, hr]
    · have hr : r.write w = ⟨w.stamp, w.value.getD r.value⟩ := if_pos hnew
      rcases hnew.lt_or_eq with hlt | heq
      · -- All the other writes are older than the last one.
        rw [writes_of_older fun v hv => by
          rw [hr]
          exact (hbound v hv).trans_lt hlt, hr]
        refine (if_pos le_rfl).trans (congrArg (Register.mk w.stamp) ?_)
        cases w.value <;> rfl
      · cases hvalue : w.value with
        | none =>
          -- Without a value the last write changes nothing.
          have hsame : r.write w = r := by
            rw [hr, hvalue, ← heq]
            rfl
          rw [hsame, ih, hsame]
        | some v =>
          -- The stamp stays, and the last write replaces the value.
          rw [hr, hvalue]
          have hle : (Register.writes ⟨w.stamp, (some v).getD r.value⟩ ws).stamp ≤ w.stamp :=
            stamp_writes_le le_rfl fun u hu => heq ▸ hbound u hu
          refine (if_pos hle).trans ?_
          rw [hvalue]
          rfl

/-- **The value of a register** is that of the last write that was in time. -/
theorem value_writes (s : Register τ α) (ws : List (Write τ α)) :
    (s.writes ws).value = (lastInTime s.stamp ws).getD s.value := by
  induction ws generalizing s with
  | nil => rfl
  | cons w ws ih =>
    have hcons : s.writes (w :: ws) = (s.write w).writes ws := rfl
    rw [hcons, ih, stamp_write, lastInTime]
    cases lastInTime (max s.stamp w.stamp) ws with
    | some v => rfl
    | none =>
      rw [Option.none_or, Option.getD_none, Register.write]
      split
      · rfl
      · rfl

theorem lastInTime_cons {t : τ} (hw : t ≤ w.stamp) :
    lastInTime t (w :: ws) = (lastInTime w.stamp ws).or w.value := by
  rw [lastInTime, max_eq_right hw, if_pos hw]

/-- Writes without a value, and older ones, leave the value. -/
theorem value_writes_of_stale (h : ∀ w ∈ ws, w.value ≠ none → w.stamp < s.stamp) :
    (s.writes ws).value = s.value := by
  induction ws generalizing s with
  | nil => rfl
  | cons w ws ih =>
    have hcons : s.writes (w :: ws) = (s.write w).writes ws := rfl
    have hrest : ∀ v ∈ ws, v.value ≠ none → v.stamp < (s.write w).stamp := fun v hv hvalue => by
      rw [stamp_write]
      exact (h v (List.mem_cons_of_mem w hv) hvalue).trans_le (le_max_left _ _)
    rw [hcons, ih hrest, Register.write]
    split
    · rename_i hle
      cases hvalue : w.value with
      | none => rfl
      | some v => exact absurd (h w List.mem_cons_self (by simp [hvalue])) (not_lt.mpr hle)
    · rfl

/-- A write that is in time, and newer than all those behind it, leaves its stamp and its value. -/
theorem writes_of_newest {front back : List (Write τ α)} {v : α} (hws : ws = front ++ w :: back)
    (hvalue : w.value = some v) (hs : s.stamp ≤ w.stamp) (hfront : ∀ u ∈ front, u.stamp ≤ w.stamp)
    (hback : ∀ u ∈ back, u.stamp < w.stamp) : s.writes ws = ⟨w.stamp, v⟩ := by
  have hsplit : s.writes ws = ((s.writes front).write w).writes back := by
    rw [hws, Register.writes, List.foldl_append]
    rfl
  have hwrite : (s.writes front).write w = ⟨w.stamp, v⟩ := by
    refine (if_pos (stamp_writes_le hs hfront)).trans ?_
    rw [hvalue]
    rfl
  rw [hsplit, hwrite]
  exact writes_of_older hback

end Register

/-! ## Tables -/

/-- How entries `β` are merged into rows `α` under keys `κ`. -/
structure MergeRule (α β κ : Type*) where
  rowKey : α → κ
  key : β → κ
  merge : β → α → α
  make : β → ℕ → α
  merge_key : ∀ e c, rowKey (merge e c) = rowKey c
  make_key : ∀ e i, rowKey (make e i) = key e

/-- The rows of a table, and the identity of the next one. -/
structure Table (α : Type*) where
  rows : List α
  next : ℕ

namespace MergeRule

variable {α β κ : Type*} (rule : MergeRule α β κ) [DecidableEq κ]

/-- A row after an entry. -/
def mergeRow (c : α) (e : β) : α := if rule.rowKey c = rule.key e then rule.merge e c else c

/-- A row after several entries. -/
def mergeRows (c : α) (es : List β) : α := es.foldl rule.mergeRow c

/-- A table after an entry. -/
def mergeOne (t : Table α) (e : β) : Table α :=
  if ∃ c ∈ t.rows, rule.rowKey c = rule.key e then
    { t with rows := t.rows.map (rule.mergeRow · e) }
  else { rows := t.rows ++ [rule.make e t.next], next := t.next + 1 }

/-- A table after several entries. -/
def mergeAll (t : Table α) (es : List β) : Table α := es.foldl rule.mergeOne t

variable {rule} {t : Table α} {es : List β}

/-- A row keeps its key. -/
@[simp] theorem rowKey_mergeRow (c : α) (e : β) : rule.rowKey (rule.mergeRow c e) = rule.rowKey c := by
  unfold mergeRow
  split
  · exact rule.merge_key e c
  · rfl

/-- A row keeps its key under several entries. -/
@[simp] theorem rowKey_mergeRows (c : α) (es : List β) :
    rule.rowKey (rule.mergeRows c es) = rule.rowKey c := by
  induction es using List.reverseRecOn with
  | nil => rfl
  | append_singleton es e ih =>
    rw [mergeRows, List.foldl_append]
    exact (rowKey_mergeRow _ e).trans ih

/-- Entries with other keys leave a row alone. -/
theorem mergeRows_of_ne {c : α} (h : ∀ e ∈ es, rule.rowKey c ≠ rule.key e) :
    rule.mergeRows c es = c := by
  induction es with
  | nil => rfl
  | cons e es ih =>
    have hsame : rule.mergeRow c e = c := if_neg (h e List.mem_cons_self)
    rw [mergeRows, List.foldl_cons, hsame]
    exact ih fun d hd => h d (List.mem_cons_of_mem e hd)

variable (rule) in
/-- A row of the key of an entry that was taken is there. -/
theorem exists_row_mergeAll (t : Table α) (es : List β) :
    (∀ c ∈ t.rows, ∃ d ∈ (rule.mergeAll t es).rows, rule.rowKey d = rule.rowKey c) ∧
      ∀ e ∈ es, ∃ d ∈ (rule.mergeAll t es).rows, rule.rowKey d = rule.key e := by
  induction es using List.reverseRecOn with
  | nil => exact ⟨fun c hc => ⟨c, hc, rfl⟩, fun _ h => absurd h List.not_mem_nil⟩
  | append_singleton es e ih =>
    have hconcat : rule.mergeAll t (es ++ [e]) = rule.mergeOne (rule.mergeAll t es) e := by
      rw [mergeAll, List.foldl_append]
      rfl
    have hkeep : ∀ c ∈ (rule.mergeAll t es).rows, ∃ d ∈ (rule.mergeAll t (es ++ [e])).rows,
        rule.rowKey d = rule.rowKey c := by
      intro c hc
      rw [hconcat, mergeOne]
      split
      · exact ⟨_, List.mem_map_of_mem hc, rowKey_mergeRow c e⟩
      · exact ⟨c, List.mem_append_left _ hc, rfl⟩
    refine ⟨fun c hc => ?_, fun d hd => ?_⟩
    · obtain ⟨d, hd, hkey⟩ := ih.1 c hc
      obtain ⟨d', hd', hkey'⟩ := hkeep d hd
      exact ⟨d', hd', hkey'.trans hkey⟩
    · rcases List.mem_append.mp hd with hd | hd
      · obtain ⟨c, hc, hkey⟩ := ih.2 d hd
        obtain ⟨c', hc', hkey'⟩ := hkeep c hc
        exact ⟨c', hc', hkey'.trans hkey⟩
      · obtain rfl := List.mem_singleton.mp hd
        rw [hconcat, mergeOne]
        split
        · rename_i hfound
          obtain ⟨c, hc, hkey⟩ := hfound
          exact ⟨_, List.mem_map_of_mem hc, (rowKey_mergeRow c d).trans hkey⟩
        · exact ⟨_, List.mem_append_right _ (List.mem_singleton_self _), rule.make_key d _⟩

/-- Entries whose keys are there are merged row by row. -/
theorem mergeAll_of_found (h : ∀ e ∈ es, ∃ c ∈ t.rows, rule.rowKey c = rule.key e) :
    rule.mergeAll t es = { t with rows := t.rows.map (rule.mergeRows · es) } := by
  induction es generalizing t with
  | nil => simp [mergeAll, mergeRows]
  | cons e es ih =>
    have hone : rule.mergeOne t e = { t with rows := t.rows.map (rule.mergeRow · e) } :=
      if_pos (h e List.mem_cons_self)
    have hrest : ∀ d ∈ es, ∃ c ∈ t.rows.map (rule.mergeRow · e), rule.rowKey c = rule.key d := by
      intro d hd
      obtain ⟨c, hc, hkey⟩ := h d (List.mem_cons_of_mem e hd)
      exact ⟨_, List.mem_map_of_mem hc, (rowKey_mergeRow c e).trans hkey⟩
    rw [mergeAll, List.foldl_cons, hone]
    refine (ih hrest).trans ?_
    rw [List.map_map]
    rfl

/-- Entries of one key that no row has make one row. -/
theorem mergeAll_of_new {e : β} (hnew : ∀ c ∈ t.rows, rule.rowKey c ≠ rule.key e)
    (hes : ∀ d ∈ es, rule.key d = rule.key e) :
    rule.mergeAll t (e :: es) =
      { rows := t.rows ++ [rule.mergeRows (rule.make e t.next) es], next := t.next + 1 } := by
  have hone : rule.mergeOne t e =
      { rows := t.rows ++ [rule.make e t.next], next := t.next + 1 } := by
    refine if_neg ?_
    rintro ⟨c, hc, hkey⟩
    exact hnew c hc hkey
  have hmade : rule.rowKey (rule.make e t.next) = rule.key e := rule.make_key e t.next
  have hfound : ∀ d ∈ es, ∃ c ∈ t.rows ++ [rule.make e t.next], rule.rowKey c = rule.key d :=
    fun d hd => ⟨_, List.mem_append_right _ (List.mem_singleton_self _), hmade.trans (hes d hd).symm⟩
  rw [mergeAll, List.foldl_cons, hone]
  refine (mergeAll_of_found hfound).trans ?_
  have hsame : t.rows.map (rule.mergeRows · es) = t.rows := by
    refine (List.map_congr_left fun c hc => ?_).trans (List.map_id _)
    exact mergeRows_of_ne fun d hd hkey => hnew c hc (hkey.trans (hes d hd))
  simp only [List.map_append, List.map_singleton, hsame]

/-- A row of the table comes from a row into which all the entries were merged, if an entry that is
merged into its own row leaves it. -/
theorem exists_mergeRows (hself : ∀ e i, rule.merge e (rule.make e i) = rule.make e i) (t : Table α)
    (es : List β) : ∀ c ∈ (rule.mergeAll t es).rows, ∃ d, c = rule.mergeRows d es := by
  induction es using List.reverseRecOn with
  | nil => exact fun c _ => ⟨c, rfl⟩
  | append_singleton es e ih =>
    have hconcat : rule.mergeAll t (es ++ [e]) = rule.mergeOne (rule.mergeAll t es) e := by
      rw [mergeAll, List.foldl_append]
      rfl
    have hrows : ∀ d, rule.mergeRows d (es ++ [e]) = rule.mergeRow (rule.mergeRows d es) e := by
      intro d
      rw [mergeRows, List.foldl_append]
      rfl
    intro c hc
    rw [hconcat, mergeOne] at hc
    split at hc
    · obtain ⟨c', hc', rfl⟩ := List.mem_map.mp hc
      obtain ⟨d, rfl⟩ := ih c' hc'
      exact ⟨d, (hrows d).symm⟩
    · rename_i hnew
      rcases List.mem_append.mp hc with hc | hc
      · obtain ⟨d, rfl⟩ := ih c hc
        refine ⟨d, ?_⟩
        rw [hrows]
        exact (if_neg fun hkey => hnew ⟨_, hc, hkey⟩).symm
      · -- The entry made the row: no entry before it has its key.
        obtain rfl := List.mem_singleton.mp hc
        refine ⟨rule.make e (rule.mergeAll t es).next, ?_⟩
        have hother : ∀ d ∈ es, rule.rowKey (rule.make e (rule.mergeAll t es).next) ≠ rule.key d := by
          intro d hd hkey
          obtain ⟨c, hc, hkey'⟩ := (exists_row_mergeAll rule t es).2 d hd
          exact hnew ⟨c, hc, hkey'.trans (hkey.symm.trans (rule.make_key e _))⟩
        rw [hrows, mergeRows_of_ne hother, mergeRow, if_pos (rule.make_key e _), hself]

/-- **Entries that are merged again change nothing**, if this holds row by row. -/
theorem mergeAll_mergeAll (hself : ∀ e i, rule.merge e (rule.make e i) = rule.make e i)
    (hagain : ∀ c es, rule.mergeRows (rule.mergeRows c es) es = rule.mergeRows c es) (t : Table α)
    (es : List β) : rule.mergeAll (rule.mergeAll t es) es = rule.mergeAll t es := by
  rw [mergeAll_of_found (exists_row_mergeAll rule t es).2]
  have hrows : (rule.mergeAll t es).rows.map (rule.mergeRows · es) = (rule.mergeAll t es).rows := by
    refine (List.map_congr_left fun c hc => ?_).trans (List.map_id _)
    obtain ⟨d, rfl⟩ := exists_mergeRows hself t es c hc
    exact hagain d es
  rw [hrows]

end MergeRule

end LatestWins
