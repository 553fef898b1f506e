import Mathlib.Data.List.Perm.Basic
import Mathlib.Data.List.Nodup
import Mathlib.Data.List.Pairwise

/-!
# Upserts under two unique indexes

`insert … on conflict (arbiter) do update … where writable`, for a list of entries, into a table
with a second unique index.  An entry finds the row of its key in the arbiter index: it rewrites the
row, leaves it alone if the row is not writable, and makes a new row if there is none.  The row that
it writes must not have the label of another row, or the statement fails.

The statement takes its entries in an order of its own.  It is accepted in every order exactly if
the entries that write are compatible with the rows and with each other, and then its result does
not depend on the order but for the order of the rows that it makes.
-/

namespace Relational

/-- A unique index: no two rows have the same key, and a row without one is not in the index. -/
def UniqueOn {α κ : Type*} (f : α → Option κ) (rows : List α) : Prop := (rows.filterMap f).Nodup

instance {α κ : Type*} [DecidableEq κ] (f : α → Option κ) (rows : List α) :
    Decidable (UniqueOn f rows) := by
  unfold UniqueOn
  infer_instance

section UniqueOn

variable {α κ : Type*} {f : α → Option κ} {rows more : List α}

/-- No row has the key of a later one. -/
theorem uniqueOn_iff_pairwise :
    UniqueOn f rows ↔ rows.Pairwise fun c d => ∀ k, f c = some k → f d ≠ some k := by
  unfold UniqueOn
  rw [List.Nodup, List.pairwise_filterMap]
  refine List.Pairwise.iff fun c d => ?_
  constructor
  · intro h k hc hd
    exact h k hc k hd rfl
  · rintro h k hc l hd rfl
    exact h k hc hd

/-- Two rows with one key are one row. -/
theorem UniqueOn.eq (h : UniqueOn f rows) {c d : α} {k : κ} (hc : c ∈ rows) (hd : d ∈ rows)
    (hck : f c = some k) (hdk : f d = some k) : c = d := by
  by_contra hne
  rw [uniqueOn_iff_pairwise] at h
  have hsymm : Std.Symm fun c d => ∀ k, f c = some k → f d ≠ some k :=
    ⟨fun c d h k hd hc => h k hc hd⟩
  exact h.forall hc hd hne k hck hdk

/-- Rows whose keys others have too are as unique. -/
theorem UniqueOn.map {g : α → α} (h : UniqueOn f rows) (hg : ∀ c ∈ rows, f (g c) = f c) :
    UniqueOn f (rows.map g) := by
  unfold UniqueOn at h ⊢
  rw [List.filterMap_map]
  rwa [List.filterMap_congr (f := f ∘ g) (g := f) hg]

theorem UniqueOn.append (h : UniqueOn f rows) (h' : UniqueOn f more)
    (hne : ∀ c ∈ rows, ∀ d ∈ more, ∀ k, f c = some k → f d ≠ some k) :
    UniqueOn f (rows ++ more) := by
  rw [uniqueOn_iff_pairwise] at h h' ⊢
  exact List.pairwise_append.mpr ⟨h, h', hne⟩

theorem uniqueOn_singleton (c : α) : UniqueOn f [c] :=
  uniqueOn_iff_pairwise.mpr (List.pairwise_singleton _ c)

end UniqueOn

/-- What an upsert does with a row, over rows `α`, entries `β`, keys `κ` and labels `μ`. -/
structure UpsertRule (α β κ μ : Type*) where
  arbiter : α → Option κ
  label : α → Option μ
  writable : α → Bool
  key : β → κ
  mark : β → μ
  write : β → α → α
  make : β → ℕ → α
  write_arbiter : ∀ e c, arbiter (write e c) = arbiter c
  write_label : ∀ e c, label (write e c) = some (mark e)
  write_writable : ∀ e c, writable (write e c) = writable c
  make_arbiter : ∀ e i, arbiter (make e i) = some (key e)
  make_label : ∀ e i, label (make e i) = some (mark e)
  make_writable : ∀ e i, writable (make e i) = true

namespace UpsertRule

variable {α β κ μ : Type*} (rule : UpsertRule α β κ μ)

/-- The rows of a table, and the identity of the next one. -/
structure Table (α : Type*) where
  rows : List α
  next : ℕ

/-- The row of an entry may be written, if there is one. -/
def Writes (rows : List α) (e : β) : Prop :=
  ∀ c ∈ rows, rule.arbiter c = some (rule.key e) → rule.writable c = true

/-- A row other than that of the entry has its label. -/
def Clashes (rows : List α) (e : β) : Prop :=
  ∃ c ∈ rows, rule.arbiter c ≠ some (rule.key e) ∧ rule.label c = some (rule.mark e)

/-- The entries that write do not have the label of another row, or of each other. -/
structure Compatible (rows : List α) (es : List β) : Prop where
  clashes : ∀ e ∈ es, rule.Writes rows e → ¬rule.Clashes rows e
  entries : ∀ e ∈ es, ∀ e' ∈ es, rule.Writes rows e → rule.Writes rows e' →
    rule.key e ≠ rule.key e' → rule.mark e ≠ rule.mark e'

variable {rule} in
/-- Entries with the same keys are as compatible in every order. -/
theorem Compatible.perm {rows : List α} {es es' : List β} (h : rule.Compatible rows es)
    (hperm : es'.Perm es) : rule.Compatible rows es' where
  clashes e he := h.clashes e (hperm.subset he)
  entries e he e' he' := h.entries e (hperm.subset he) e' (hperm.subset he')

variable [DecidableEq κ] [DecidableEq μ]

instance (rows : List α) (e : β) : Decidable (rule.Writes rows e) := by
  unfold Writes
  infer_instance

instance (rows : List α) (e : β) : Decidable (rule.Clashes rows e) := by
  unfold Clashes
  infer_instance

/-- A row after an entry that writes. -/
def rewrite (e : β) (c : α) : α := if rule.arbiter c = some (rule.key e) then rule.write e c else c

/-- One entry; nothing, if the second index is violated. -/
def upsert (t : Table α) (e : β) : Option (Table α) :=
  if ¬rule.Writes t.rows e then some t
  else if rule.Clashes t.rows e then none
  else if ∃ c ∈ t.rows, rule.arbiter c = some (rule.key e) then
    some { t with rows := t.rows.map (rule.rewrite e) }
  else some { rows := t.rows ++ [rule.make e t.next], next := t.next + 1 }

/-- The entries one after the other. -/
def upsertAll : Table α → List β → Option (Table α)
  | t, [] => some t
  | t, e :: es => (rule.upsert t e).bind fun t => upsertAll t es

variable {rule} {t u : Table α} {e : β} {es : List β}

/-! ## One entry -/

omit [DecidableEq μ] in
/-- A rewritten row keeps its key. -/
@[simp] theorem rewrite_arbiter (e : β) (c : α) :
    rule.arbiter (rule.rewrite e c) = rule.arbiter c := by
  unfold rewrite
  split
  · exact rule.write_arbiter e c
  · rfl

omit [DecidableEq μ] in
/-- A rewritten row is as writable as before. -/
@[simp] theorem rewrite_writable (e : β) (c : α) :
    rule.writable (rule.rewrite e c) = rule.writable c := by
  unfold rewrite
  split
  · exact rule.write_writable e c
  · rfl

section

variable (h : rule.upsert t e = some u)

include h

/-- **What an accepted entry does**: nothing, if it does not write; and else every row is rewritten,
and one is made if there was none. -/
theorem upsert_cases :
    (¬rule.Writes t.rows e ∧ u = t) ∨
      (rule.Writes t.rows e ∧ ¬rule.Clashes t.rows e ∧
        (((∃ c ∈ t.rows, rule.arbiter c = some (rule.key e)) ∧
            u = { t with rows := t.rows.map (rule.rewrite e) }) ∨
          ((∀ c ∈ t.rows, rule.arbiter c ≠ some (rule.key e)) ∧
            u = { rows := t.rows ++ [rule.make e t.next], next := t.next + 1 }))) := by
  unfold upsert at h
  split at h
  · rename_i hwrites
    exact .inl ⟨hwrites, (Option.some.inj h).symm⟩
  · rename_i hwrites
    rw [not_not] at hwrites
    split at h
    · cases h
    · rename_i hclash
      split at h
      · rename_i hfound
        exact .inr ⟨hwrites, hclash, .inl ⟨hfound, (Option.some.inj h).symm⟩⟩
      · rename_i hnone
        push Not at hnone
        exact .inr ⟨hwrites, hclash, .inr ⟨hnone, (Option.some.inj h).symm⟩⟩

/-- The rows after an entry: those before, perhaps written by the entry, and one that it made. -/
theorem mem_upsert {c : α} (hc : c ∈ u.rows) :
    c ∈ t.rows ∨ (rule.Writes t.rows e ∧ rule.arbiter c = some (rule.key e) ∧
      rule.label c = some (rule.mark e) ∧ rule.writable c = true) := by
  rcases upsert_cases h with ⟨-, rfl⟩ | ⟨hwrites, -, ⟨-, rfl⟩ | ⟨-, rfl⟩⟩
  · exact .inl hc
  · obtain ⟨d, hd, rfl⟩ := List.mem_map.mp hc
    by_cases hkey : rule.arbiter d = some (rule.key e)
    · refine .inr ⟨hwrites, by rw [rewrite_arbiter, hkey], ?_, ?_⟩
      · rw [rewrite, if_pos hkey, rule.write_label]
      · rw [rewrite_writable, hwrites d hd hkey]
    · rw [rewrite, if_neg hkey]
      exact .inl hd
  · rcases List.mem_append.mp hc with hc | hc
    · exact .inl hc
    · obtain rfl := List.mem_singleton.mp hc
      exact .inr ⟨hwrites, rule.make_arbiter e _, rule.make_label e _, rule.make_writable e _⟩

/-- An entry keeps the keys of the rows. -/
theorem exists_mem_upsert {c : α} (hc : c ∈ t.rows) :
    ∃ d ∈ u.rows, rule.arbiter d = rule.arbiter c ∧ rule.writable d = rule.writable c := by
  rcases upsert_cases h with ⟨-, rfl⟩ | ⟨hwrites, -, ⟨-, rfl⟩ | ⟨-, rfl⟩⟩
  · exact ⟨c, hc, rfl, rfl⟩
  · exact ⟨rule.rewrite e c, List.mem_map_of_mem hc, rewrite_arbiter e c, rewrite_writable e c⟩
  · exact ⟨c, List.mem_append_left _ hc, rfl, rfl⟩

/-- Another entry writes after the entry iff it did before. -/
theorem writes_upsert {e' : β} (hne : rule.key e ≠ rule.key e') :
    rule.Writes u.rows e' ↔ rule.Writes t.rows e' := by
  constructor
  · intro hwrites c hc hkey
    obtain ⟨d, hd, harbiter, hwritable⟩ := exists_mem_upsert h hc
    exact hwritable ▸ hwrites d hd (harbiter.trans hkey)
  · intro hwrites c hc hkey
    rcases mem_upsert h hc with hc | ⟨-, hkey', -, -⟩
    · exact hwrites c hc hkey
    · exact absurd (Option.some.inj (hkey'.symm.trans hkey)) hne

end

/-! ## Acceptance -/

/-- An entry that is compatible leaves the others compatible. -/
theorem Compatible.upsert (h : rule.Compatible t.rows (e :: es)) (hu : rule.upsert t e = some u)
    (hnew : ∀ e' ∈ es, rule.key e ≠ rule.key e') : rule.Compatible u.rows es where
  clashes e' he' hwrites := by
    rw [writes_upsert hu (hnew e' he')] at hwrites
    rintro ⟨c, hc, hkey, hlabel⟩
    rcases mem_upsert hu hc with hc | ⟨hwritesE, -, hlabelE, -⟩
    · exact h.clashes e' (List.mem_cons_of_mem e he') hwrites ⟨c, hc, hkey, hlabel⟩
    · exact h.entries e List.mem_cons_self e' (List.mem_cons_of_mem e he') hwritesE hwrites
        (hnew e' he') (Option.some.inj (hlabelE.symm.trans hlabel))
  entries e₁ h₁ e₂ h₂ hw₁ hw₂ :=
    h.entries e₁ (List.mem_cons_of_mem e h₁) e₂ (List.mem_cons_of_mem e h₂)
      ((writes_upsert hu (hnew e₁ h₁)).mp hw₁) ((writes_upsert hu (hnew e₂ h₂)).mp hw₂)

/-- Compatible entries are accepted. -/
theorem Compatible.isSome (h : rule.Compatible t.rows es) (hnodup : (es.map rule.key).Nodup) :
    (rule.upsertAll t es).isSome := by
  induction es generalizing t with
  | nil => rfl
  | cons e es ih =>
    rw [List.map_cons, List.nodup_cons] at hnodup
    have hnew : ∀ e' ∈ es, rule.key e ≠ rule.key e' := fun e' he' hkey =>
      hnodup.1 (List.mem_map.mpr ⟨e', he', hkey.symm⟩)
    have hfirst : ∃ u, rule.upsert t e = some u := by
      unfold UpsertRule.upsert
      split
      · exact ⟨_, rfl⟩
      · rename_i hwrites
        rw [if_neg (h.clashes e List.mem_cons_self (not_not.mp hwrites))]
        split
        · exact ⟨_, rfl⟩
        · exact ⟨_, rfl⟩
    obtain ⟨u, hu⟩ := hfirst
    rw [upsertAll, hu]
    exact ih (h.upsert hu hnew) hnodup.2

/-- **The statement is accepted in every order iff its entries are compatible.** -/
theorem forall_perm_isSome_iff (hnodup : (es.map rule.key).Nodup) :
    (∀ es' : List β, es'.Perm es → (rule.upsertAll t es').isSome) ↔ rule.Compatible t.rows es := by
  constructor
  · intro hall
    have hclash : ∀ e ∈ es, rule.Writes t.rows e → ¬rule.Clashes t.rows e := by
      intro e he hwrites hclash
      -- The order that begins with the entry fails at once.
      obtain ⟨before, after, rfl⟩ := List.append_of_mem he
      have hsome := hall (e :: (before ++ after)) List.perm_middle.symm
      rw [upsertAll, UpsertRule.upsert, if_neg (not_not.mpr hwrites), if_pos hclash] at hsome
      cases hsome
    refine ⟨hclash, fun e he e' he' hwrites hwrites' hne hmark => ?_⟩
    -- The order that begins with the two entries fails at the second one.
    obtain ⟨before, after, rfl⟩ := List.append_of_mem he
    have hmem : e' ∈ before ++ after := by
      rcases List.mem_append.mp he' with he' | he'
      · exact List.mem_append_left _ he'
      · rcases List.mem_cons.mp he' with rfl | he'
        · exact absurd rfl hne
        · exact List.mem_append_right _ he'
    obtain ⟨front, back, hsplit⟩ := List.append_of_mem hmem
    have hperm : (e :: e' :: (front ++ back)).Perm (before ++ e :: after) := by
      refine ((List.perm_middle.symm.trans (List.Perm.of_eq hsplit.symm)).cons e).trans ?_
      exact List.perm_middle.symm
    have hsome := hall _ hperm
    rw [upsertAll] at hsome
    cases hu : rule.upsert t e with
    | none =>
      rw [hu] at hsome
      cases hsome
    | some u =>
      rw [hu, Option.bind_some, upsertAll] at hsome
      have hclash' : rule.Clashes u.rows e' := by
        rcases upsert_cases hu with ⟨hnot, -⟩ | ⟨-, -, ⟨⟨c, hc, hkey⟩, rfl⟩ | ⟨-, rfl⟩⟩
        · exact absurd hwrites hnot
        · refine ⟨rule.rewrite e c, List.mem_map_of_mem hc, ?_, ?_⟩
          · rw [rewrite_arbiter, hkey]
            exact fun h => hne (Option.some.inj h)
          · rw [rewrite, if_pos hkey, rule.write_label, hmark]
        · refine ⟨rule.make e t.next, by simp, ?_, ?_⟩
          · rw [rule.make_arbiter]
            exact fun h => hne (Option.some.inj h)
          · rw [rule.make_label, hmark]
      rw [UpsertRule.upsert, if_neg (not_not.mpr ((writes_upsert hu hne).mpr hwrites')),
        if_pos hclash'] at hsome
      cases hsome
  · intro h es' hperm
    exact (h.perm hperm).isSome ((hperm.map rule.key).nodup_iff.mpr hnodup)

/-! ## The result -/

variable (rule) in
/-- A row after all entries. -/
def rewriteAll (rows : List α) (es : List β) (c : α) : α :=
  match es.find? fun e => rule.arbiter c = some (rule.key e) with
  | some e => if rule.Writes rows e then rule.write e c else c
  | none => c

variable (rule) in
/-- The entries without a row. -/
def missing (rows : List α) (es : List β) : List β :=
  es.filter fun e => ∀ c ∈ rows, rule.arbiter c ≠ some (rule.key e)

variable (rule) in
/-- The rows that are made. -/
def made (t : Table α) (es : List β) : List α :=
  ((rule.missing t.rows es).zipIdx t.next).map fun e => rule.make e.1 e.2

omit [DecidableEq μ] in
/-- A row that no entry is about stays. -/
theorem rewriteAll_of_none {rows : List α} {c : α}
    (h : ∀ e ∈ es, rule.arbiter c ≠ some (rule.key e)) : rule.rewriteAll rows es c = c := by
  unfold rewriteAll
  rw [List.find?_eq_none.mpr fun e he => by simpa using h e he]

omit [DecidableEq μ] in
/-- The row of the first entry. -/
theorem rewriteAll_cons_pos {rows : List α} {c : α} (h : rule.arbiter c = some (rule.key e)) :
    rule.rewriteAll rows (e :: es) c = if rule.Writes rows e then rule.write e c else c := by
  unfold rewriteAll
  rw [List.find?_cons_of_pos (by simpa using h)]

omit [DecidableEq μ] in
/-- The row of another entry than the first. -/
theorem rewriteAll_cons_neg {rows : List α} {c : α} (h : rule.arbiter c ≠ some (rule.key e)) :
    rule.rewriteAll rows (e :: es) c = rule.rewriteAll rows es c := by
  unfold rewriteAll
  rw [List.find?_cons_of_neg (by simpa using h)]

/-- The entries behind one that was accepted rewrite the rows as they would have without it. -/
theorem rewriteAll_upsert (hu : rule.upsert t e = some u)
    (hnew : ∀ e' ∈ es, rule.key e ≠ rule.key e') (c : α) :
    rule.rewriteAll u.rows es c = rule.rewriteAll t.rows es c := by
  unfold rewriteAll
  split
  · rename_i e' hfind
    simp only [writes_upsert hu (hnew e' (List.mem_of_find?_eq_some hfind))]
  · rfl

/-- The entries behind one that was accepted miss the rows that they would have missed without
it. -/
theorem missing_upsert (hu : rule.upsert t e = some u)
    (hnew : ∀ e' ∈ es, rule.key e ≠ rule.key e') :
    rule.missing u.rows es = rule.missing t.rows es := by
  refine List.filter_congr fun e' he' => ?_
  simp only [decide_eq_decide]
  constructor
  · intro hnone c hc hkey
    obtain ⟨d, hd, harbiter, -⟩ := exists_mem_upsert hu hc
    exact hnone d hd (harbiter.trans hkey)
  · intro hnone c hc hkey
    rcases mem_upsert hu hc with hc | ⟨-, hkey', -, -⟩
    · exact hnone c hc hkey
    · exact hnew e' he' (Option.some.inj (hkey'.symm.trans hkey))

/-- **The result of an accepted statement**: its rows are rewritten, and those that were missing are
made. -/
theorem upsertAll_eq (hnodup : (es.map rule.key).Nodup) (h : rule.upsertAll t es = some u) :
    u = { rows := t.rows.map (rule.rewriteAll t.rows es) ++ rule.made t es,
          next := t.next + (rule.missing t.rows es).length } := by
  induction es generalizing t with
  | nil =>
    cases h
    have hrows : u.rows.map (rule.rewriteAll u.rows []) = u.rows :=
      (List.map_congr_left fun c _ => rewriteAll_of_none (by simp)).trans (List.map_id _)
    simp [hrows, made, missing]
  | cons e es ih =>
    rw [List.map_cons, List.nodup_cons] at hnodup
    have hnew : ∀ e' ∈ es, rule.key e ≠ rule.key e' := fun e' he' hkey =>
      hnodup.1 (List.mem_map.mpr ⟨e', he', hkey.symm⟩)
    obtain ⟨v, hv, hrest⟩ := Option.bind_eq_some_iff.mp h
    have hstays : ∀ c, rule.arbiter c = some (rule.key e) → rule.rewriteAll t.rows es c = c :=
      fun c hc => rewriteAll_of_none fun e' he' hkey =>
        hnew e' he' (Option.some.inj (hc.symm.trans hkey))
    rw [ih hnodup.2 hrest]
    have hmissing := missing_upsert hv hnew
    have hrewrite := rewriteAll_upsert hv hnew
    rcases upsert_cases hv with ⟨hnot, rfl⟩ | ⟨hwrites, -, ⟨⟨d, hd, hdkey⟩, rfl⟩ | ⟨hnone, rfl⟩⟩
    · have hfound : ¬∀ c ∈ v.rows, rule.arbiter c ≠ some (rule.key e) := by
        intro hnone
        exact hnot fun c hc hkey => absurd hkey (hnone c hc)
      have hsame : rule.missing v.rows (e :: es) = rule.missing v.rows es :=
        List.filter_cons_of_neg (by simpa using hfound)
      have hrows : v.rows.map (rule.rewriteAll v.rows (e :: es)) =
          v.rows.map (rule.rewriteAll v.rows es) := by
        refine List.map_congr_left fun c hc => ?_
        by_cases hkey : rule.arbiter c = some (rule.key e)
        · rw [rewriteAll_cons_pos hkey, if_neg hnot, hstays c hkey]
        · rw [rewriteAll_cons_neg hkey]
      rw [made, made, hsame, hrows]
    · have hfound : ¬∀ c ∈ t.rows, rule.arbiter c ≠ some (rule.key e) :=
        fun hnone => hnone d hd hdkey
      have hsame : rule.missing t.rows (e :: es) = rule.missing t.rows es :=
        List.filter_cons_of_neg (by simpa using hfound)
      have hrows : t.rows.map (rule.rewriteAll t.rows (e :: es)) =
          (t.rows.map (rule.rewrite e)).map (rule.rewriteAll (t.rows.map (rule.rewrite e)) es) := by
        rw [List.map_map]
        refine List.map_congr_left fun c hc => ?_
        rw [Function.comp_apply, hrewrite]
        by_cases hkey : rule.arbiter c = some (rule.key e)
        · rw [rewriteAll_cons_pos hkey, if_pos hwrites, rewrite, if_pos hkey]
          refine (rewriteAll_of_none fun e' he' hkey' => ?_).symm
          rw [rule.write_arbiter, hkey] at hkey'
          exact hnew e' he' (Option.some.inj hkey')
        · rw [rewriteAll_cons_neg hkey, rewrite, if_neg hkey]
      dsimp only at hmissing
      rw [made, made, hsame, hmissing, hrows]
    · have hsame : rule.missing t.rows (e :: es) = e :: rule.missing t.rows es :=
        List.filter_cons_of_pos (by simpa using hnone)
      have hrows : t.rows.map (rule.rewriteAll t.rows (e :: es)) =
          t.rows.map (rule.rewriteAll (t.rows ++ [rule.make e t.next]) es) := by
        refine List.map_congr_left fun c hc => ?_
        rw [hrewrite, rewriteAll_cons_neg (hnone c hc)]
      have hmake : rule.rewriteAll (t.rows ++ [rule.make e t.next]) es (rule.make e t.next) =
          rule.make e t.next := by
        refine rewriteAll_of_none fun e' he' hkey => ?_
        rw [rule.make_arbiter] at hkey
        exact hnew e' he' (Option.some.inj hkey)
      dsimp only at hmissing
      rw [made, made, hsame, hmissing, hrows, List.map_append, List.map_singleton, hmake]
      simp [Nat.add_comm, Nat.add_assoc]

/-! ## The rows of the result -/

section Result

variable (hnodup : (es.map rule.key).Nodup) (h : rule.upsertAll t es = some u)

include hnodup h

/-- **Where a row of the result comes from**: it was there, and no entry wrote it; or an entry that
writes has written its row, or made it. -/
theorem mem_upsertAll {c : α} (hc : c ∈ u.rows) :
    (c ∈ t.rows ∧ ∀ e ∈ es, rule.Writes t.rows e → rule.arbiter c ≠ some (rule.key e)) ∨
      ∃ e ∈ es, rule.Writes t.rows e ∧
        ((∃ d ∈ t.rows, rule.arbiter d = some (rule.key e) ∧ c = rule.write e d) ∨
          ((∀ d ∈ t.rows, rule.arbiter d ≠ some (rule.key e)) ∧
            ∃ i, t.next ≤ i ∧ i < u.next ∧ c = rule.make e i)) := by
  have heq := upsertAll_eq hnodup h
  rw [heq] at hc
  rcases List.mem_append.mp hc with hc | hc
  · obtain ⟨d, hd, rfl⟩ := List.mem_map.mp hc
    unfold rewriteAll
    split
    · rename_i e hfind
      have he := List.mem_of_find?_eq_some hfind
      have hkey : rule.arbiter d = some (rule.key e) := by simpa using List.find?_some hfind
      split
      · rename_i hwrites
        exact .inr ⟨e, he, hwrites, .inl ⟨d, hd, hkey, rfl⟩⟩
      · rename_i hnot
        refine .inl ⟨hd, fun e' he' hwrites' hkey' => hnot ?_⟩
        have hsame := Option.some.inj (hkey.symm.trans hkey')
        rwa [List.inj_on_of_nodup_map hnodup he he' hsame]
    · rename_i hnone
      refine .inl ⟨hd, fun e he _ hkey => ?_⟩
      simpa [hkey] using List.find?_eq_none.mp hnone e he
  · obtain ⟨⟨e, i⟩, hmem, rfl⟩ := List.mem_map.mp hc
    obtain ⟨hle, hlt, hget⟩ := List.mem_zipIdx hmem
    have he : e ∈ rule.missing t.rows es := hget ▸ List.getElem_mem _
    rw [missing, List.mem_filter, decide_eq_true_eq] at he
    refine .inr ⟨e, he.1, fun d hd hkey => absurd hkey (he.2 d hd), .inr ⟨he.2, i, hle, ?_, rfl⟩⟩
    rw [heq]
    exact hlt

theorem rewriteAll_mem {c : α} (hc : c ∈ t.rows) : rule.rewriteAll t.rows es c ∈ u.rows := by
  rw [upsertAll_eq hnodup h]
  exact List.mem_append_left _ (List.mem_map_of_mem hc)

/-- Every entry has a row. -/
theorem exists_row (he : e ∈ es) : ∃ c ∈ u.rows, rule.arbiter c = some (rule.key e) := by
  by_cases hfound : ∃ c ∈ t.rows, rule.arbiter c = some (rule.key e)
  · obtain ⟨c, hc, hkey⟩ := hfound
    refine ⟨_, rewriteAll_mem hnodup h hc, ?_⟩
    unfold rewriteAll
    split
    · split
      · rw [rule.write_arbiter, hkey]
      · exact hkey
    · exact hkey
  · push Not at hfound
    have hmissing : e ∈ rule.missing t.rows es :=
      List.mem_filter.mpr ⟨he, decide_eq_true hfound⟩
    obtain ⟨i, hi, hget⟩ := List.getElem_of_mem hmissing
    refine ⟨rule.make e (t.next + i), ?_, rule.make_arbiter e _⟩
    rw [upsertAll_eq hnodup h]
    refine List.mem_append_right _ (List.mem_map.mpr ⟨(e, t.next + i), ?_, rfl⟩)
    rw [List.mk_add_mem_zipIdx_iff_getElem?, List.getElem?_eq_getElem hi, hget]

/-- An entry writes after the statement iff it did before. -/
theorem writes_upsertAll : rule.Writes u.rows e ↔ rule.Writes t.rows e := by
  constructor
  · intro hwrites d hd hkey
    by_contra hnot
    have hstays : rule.rewriteAll t.rows es d = d := by
      unfold rewriteAll
      split
      · rename_i e' hfind
        have hkey' : rule.arbiter d = some (rule.key e') := by simpa using List.find?_some hfind
        rw [if_neg fun hw => hnot (hw d hd hkey')]
      · rfl
    exact hnot (hwrites d (hstays ▸ rewriteAll_mem hnodup h hd) hkey)
  · intro hwrites c hc hkey
    rcases mem_upsertAll hnodup h hc with ⟨hc, -⟩ | ⟨e', -, hw, ⟨d, hd, hkey', rfl⟩ | ⟨-, i, -, -, rfl⟩⟩
    · exact hwrites c hc hkey
    · rw [rule.write_writable, hw d hd hkey']
    · exact rule.make_writable e' i

/-- The entries are compatible with what they wrote. -/
theorem Compatible.upsertAll (hok : rule.Compatible t.rows es) : rule.Compatible u.rows es where
  clashes e he hwrites := by
    rw [writes_upsertAll hnodup h] at hwrites
    rintro ⟨c, hc, hkey, hlabel⟩
    rcases mem_upsertAll hnodup h hc with ⟨hc, -⟩ | ⟨e', he', hw, hfrom⟩
    · exact hok.clashes e he hwrites ⟨c, hc, hkey, hlabel⟩
    · have hrow : rule.arbiter c = some (rule.key e') ∧ rule.label c = some (rule.mark e') := by
        rcases hfrom with ⟨d, -, hkey', rfl⟩ | ⟨-, i, -, -, rfl⟩
        · exact ⟨(rule.write_arbiter e' d).trans hkey', rule.write_label e' d⟩
        · exact ⟨rule.make_arbiter e' i, rule.make_label e' i⟩
      refine hok.entries e he e' he' hwrites hw (fun hsame => hkey ?_) ?_
      · rw [hrow.1, hsame]
      · exact Option.some.inj (hlabel.symm.trans hrow.2)
  entries e he e' he' hw hw' :=
    hok.entries e he e' he' ((writes_upsertAll hnodup h).mp hw)
      ((writes_upsertAll hnodup h).mp hw')

/-- The identities of the rows: those before, and new ones. -/
theorem map_upsertAll {f : α → ℕ} (hwrite : ∀ e c, f (rule.write e c) = f c)
    (hmake : ∀ e i, f (rule.make e i) = i) :
    u.rows.map f = t.rows.map f ++ List.range' t.next (rule.missing t.rows es).length := by
  rw [upsertAll_eq hnodup h, List.map_append, List.map_map]
  congr 1
  · refine List.map_congr_left fun c _ => ?_
    rw [Function.comp_apply]
    unfold rewriteAll
    split
    · split
      · exact hwrite _ _
      · rfl
    · rfl
  · rw [made, List.map_map]
    refine (List.map_congr_left fun e _ => hmake e.1 e.2).trans ?_
    exact List.zipIdx_map_snd t.next (rule.missing t.rows es)

end Result

/-- **An accepted entry keeps both indexes unique.** -/
theorem uniqueOn_upsert (h : rule.upsert t e = some u) (hkeys : UniqueOn rule.arbiter t.rows)
    (hlabels : UniqueOn rule.label t.rows) :
    UniqueOn rule.arbiter u.rows ∧ UniqueOn rule.label u.rows := by
  rcases upsert_cases h with ⟨-, rfl⟩ | ⟨-, hclash, ⟨-, rfl⟩ | ⟨hnone, rfl⟩⟩
  · exact ⟨hkeys, hlabels⟩
  · refine ⟨hkeys.map fun c _ => rewrite_arbiter e c, ?_⟩
    rw [uniqueOn_iff_pairwise] at hkeys hlabels ⊢
    rw [List.pairwise_map]
    refine (hkeys.and hlabels).imp_of_mem fun {c d} hc hd hboth l hlc hld => ?_
    by_cases hkc : rule.arbiter c = some (rule.key e)
    · have hkd : rule.arbiter d ≠ some (rule.key e) := hboth.1 _ hkc
      rw [rewrite, if_pos hkc, rule.write_label] at hlc
      rw [rewrite, if_neg hkd] at hld
      exact hclash ⟨d, hd, hkd, hld.trans hlc.symm⟩
    · rw [rewrite, if_neg hkc] at hlc
      by_cases hkd : rule.arbiter d = some (rule.key e)
      · rw [rewrite, if_pos hkd, rule.write_label] at hld
        exact hclash ⟨c, hc, hkc, hlc.trans hld.symm⟩
      · rw [rewrite, if_neg hkd] at hld
        exact hboth.2 l hlc hld
  · refine ⟨hkeys.append (uniqueOn_singleton _) ?_, hlabels.append (uniqueOn_singleton _) ?_⟩
    · intro c hc d hd k hck hdk
      obtain rfl := List.mem_singleton.mp hd
      rw [rule.make_arbiter] at hdk
      exact hnone c hc (hck.trans hdk.symm)
    · intro c hc d hd l hcl hdl
      obtain rfl := List.mem_singleton.mp hd
      rw [rule.make_label] at hdl
      exact hclash ⟨c, hc, hnone c hc, hcl.trans hdl.symm⟩

/-- **An accepted statement keeps both indexes unique.** -/
theorem uniqueOn_upsertAll (h : rule.upsertAll t es = some u)
    (hkeys : UniqueOn rule.arbiter t.rows) (hlabels : UniqueOn rule.label t.rows) :
    UniqueOn rule.arbiter u.rows ∧ UniqueOn rule.label u.rows := by
  induction es generalizing t with
  | nil =>
    cases h
    exact ⟨hkeys, hlabels⟩
  | cons e es ih =>
    obtain ⟨v, hv, hrest⟩ := Option.bind_eq_some_iff.mp h
    obtain ⟨hkeys', hlabels'⟩ := uniqueOn_upsert hv hkeys hlabels
    exact ih hrest hkeys' hlabels'

end UpsertRule

end Relational
