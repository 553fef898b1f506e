import Mathlib.Data.List.Basic
import Mathlib.Data.List.Nodup
import Mathlib.Data.List.Sort

/-!
# Relational tables as lists of rows

A table is a list of rows.  `update p f` is `update … set … where …`: the set clause `f` is applied
to exactly the rows selected by the where clause `p`.  `insertNew key row` is
`insert … on conflict (key) do nothing`.  `firstBy` and `page` are the two uses of
`order by … limit …`: the first selected row, and the next rows behind a cursor.  A primary key is a
projection whose values are pairwise distinct, `Keyed key rows`.

The lemmas describe membership after each statement and the preservation of a primary key; nothing
here depends on what the rows mean.  `Rewrites R rows rows'` is the summary of a statement: no row
is added or removed, and every row is kept or rewritten as the relation `R` allows.
-/

namespace Relational

variable {α β : Type*}

/-! ## Statements -/

/-- `update … set f where p`: the rows selected by `p` are replaced by their image under `f`. -/
def update (p : α → Bool) (f : α → α) (rows : List α) : List α :=
  rows.map fun r => if p r then f r else r

/-- `insert … on conflict (key) do nothing`: append the row unless its key is already present. -/
def insertNew [DecidableEq β] (key : α → β) (row : α) (rows : List α) : List α :=
  if key row ∈ rows.map key then rows else rows ++ [row]

/-- `insert … select … on conflict (key) do nothing`: the rows are inserted one after another. -/
def insertAll [DecidableEq β] (key : α → β) (new rows : List α) : List α :=
  new.foldl (fun rows row => insertNew key row rows) rows

/-- `select … order by rank limit 1`: the row with the least rank among the selected ones. -/
def firstBy (p : α → Bool) (rank : α → ℕ) (rows : List α) : Option α :=
  ((rows.filter p).insertionSort fun a b => rank a ≤ rank b).head?

/-- `select … where key > after order by key limit n`: the next page behind a cursor. -/
def page (key : α → ℕ) (after limit : ℕ) (rows : List α) : List α :=
  ((rows.filter fun r => decide (after < key r)).insertionSort fun a b => key a ≤ key b).take limit

/-- `gen_random_uuid()`: a key that no row has. -/
def freshKey (key : α → ℕ) (rows : List α) : ℕ := rows.foldl (fun u r => max u (key r + 1)) 0

/-- `key` is a primary key of the table: no two rows share its value. -/
def Keyed (key : α → β) (rows : List α) : Prop := (rows.map key).Nodup

/-! ## Updates -/

variable {rows : List α} {p : α → Bool} {f : α → α}

theorem mem_update {r' : α} : r' ∈ update p f rows ↔ ∃ r ∈ rows, (if p r then f r else r) = r' := by
  simp only [update, List.mem_map]

variable {r : α}

theorem mem_update_of_pos (hr : r ∈ rows) (hp : p r = true) : f r ∈ update p f rows :=
  mem_update.mpr ⟨r, hr, by rw [if_pos hp]⟩

theorem mem_update_of_neg (hr : r ∈ rows) (hp : p r = false) : r ∈ update p f rows :=
  mem_update.mpr ⟨r, hr, by simp [hp]⟩

/-- An update whose where clause selects no row changes nothing. -/
theorem update_eq_self (h : ∀ r ∈ rows, p r = false) : update p f rows = rows := by
  unfold update
  refine (List.map_congr_left fun r hr => ?_).trans (List.map_id _)
  simp [h r hr]

theorem update_cons (p : α → Bool) (f : α → α) (r : α) (rows : List α) :
    update p f (r :: rows) = (if p r then f r else r) :: update p f rows := rfl

/-- Two updates that select the same rows and rewrite them alike are the same. -/
theorem update_congr {p q : α → Bool} {f g : α → α} (hpq : ∀ r ∈ rows, p r = q r)
    (hfg : ∀ r ∈ rows, p r = true → f r = g r) : update p f rows = update q g rows := by
  refine List.map_congr_left fun r hr => ?_
  cases hp : p r with
  | true => simp [← hpq r hr, hp, hfg r hr hp]
  | false => simp [← hpq r hr, hp]

/-- A projection that the set clause does not touch keeps its column. -/
theorem map_update {g : α → β} (hg : ∀ r, g (f r) = g r)
    (rows : List α) : (update p f rows).map g = rows.map g := by
  simp only [update, List.map_map]
  refine List.map_congr_left fun r _ => ?_
  by_cases hp : p r <;> simp [hp, hg]

variable {key : α → β}

/-- An update that does not touch the primary key keeps it. -/
theorem Keyed.update
    (h : Keyed key rows) (hf : ∀ r, key (f r) = key r) : Keyed key (update p f rows) := by
  unfold Keyed
  rw [map_update hf]
  exact h

/-! ## Lookup by primary key -/

theorem Keyed.eq_of_mem (h : Keyed key rows) {r s : α} (hr : r ∈ rows) (hs : s ∈ rows)
    (hk : key r = key s) : r = s :=
  List.inj_on_of_nodup_map h hr hs hk

theorem mem_of_find? (h : rows.find? p = some r) : r ∈ rows ∧ p r = true :=
  ⟨List.mem_of_find?_eq_some h, List.find?_some h⟩

/-- A row is found by every condition that it meets and no row with another key meets. -/
theorem Keyed.find?_of_key (h : Keyed key rows) (hr : r ∈ rows) (hpr : p r = true)
    (hp : ∀ s, p s = true → key s = key r) : rows.find? p = some r := by
  cases hfind : rows.find? p with
  | none => exact absurd hpr (List.find?_eq_none.mp hfind r hr)
  | some s =>
    obtain ⟨hs, hps⟩ := mem_of_find? hfind
    rw [h.eq_of_mem hs hr (hp s hps)]

/-- The first row with a given primary key is the only one. -/
theorem Keyed.find?_eq_some [BEq β] [LawfulBEq β] (h : Keyed key rows)
    (hr : r ∈ rows) : rows.find? (fun s => key s == key r) = some r :=
  h.find?_of_key hr (by simp) fun _ hs => beq_iff_eq.mp hs

/-- The row of a key after an update that keeps the keys. -/
theorem find?_update [BEq β] [LawfulBEq β] (hf : ∀ r, key (f r) = key r) (p : α → Bool)
    (rows : List α) (k : β) :
    (update p f rows).find? (fun r => key r == k) =
      (rows.find? fun r => key r == k).map fun r => if p r then f r else r := by
  have hkey : ((fun r => key r == k) ∘ fun r => if p r then f r else r) = fun r => key r == k := by
    funext r
    by_cases hp : p r <;> simp [hp, hf]
  rw [update, List.find?_map, hkey]

/-- An update that selects no row of a key leaves the row of the key. -/
theorem find?_update_of_not [BEq β] [LawfulBEq β] {k : β} (hf : ∀ r, key (f r) = key r)
    (hp : ∀ r, key r = k → p r = false) :
    (update p f rows).find? (fun r => key r == k) = rows.find? fun r => key r == k := by
  rw [find?_update hf]
  cases hfound : rows.find? fun r => key r == k with
  | none => rfl
  | some r =>
    have hr : key r = k := beq_iff_eq.mp (mem_of_find? hfound).2
    simp [hp r hr]

/-- A condition that only the row with a given key can meet is met by some row iff by that one. -/
theorem Keyed.any_eq (h : Keyed key rows) (hr : r ∈ rows)
    (hp : ∀ s, p s = true → key s = key r) : rows.any p = p r := by
  rw [Bool.eq_iff_iff, List.any_eq_true]
  constructor
  · rintro ⟨s, hs, hps⟩
    rwa [h.eq_of_mem hs hr (hp s hps)] at hps
  · intro hpr
    exact ⟨r, hr, hpr⟩

/-- Conditions that only the row with a given key can meet select one row iff they select any. -/
theorem Keyed.countP_eq_one_iff (h : Keyed key rows) {k : β} (hp : ∀ r, p r = true → key r = k) :
    rows.countP p = 1 ↔ ∃ r ∈ rows, p r = true := by
  constructor
  · intro hcount
    exact List.countP_pos_iff.mp (hcount ▸ Nat.one_pos)
  · intro hex
    refine le_antisymm ?_ (List.countP_pos_iff.mpr hex)
    have hfilter : ((rows.filter p).map key).Nodup := h.sublist (List.filter_sublist.map key)
    have hconst : ∀ k' ∈ (rows.filter p).map key, k' = k := by
      intro k' hk'
      obtain ⟨r, hr, rfl⟩ := List.mem_map.mp hk'
      exact hp r (List.mem_filter.mp hr).2
    rw [List.countP_eq_length_filter, ← List.length_map key]
    exact List.nodup_replicate.mp (List.eq_replicate_of_mem hconst ▸ hfilter)

/-! ## Fresh keys -/

/-- Every key of the table is below the drawn one. -/
theorem key_lt_freshKey {key : α → ℕ} (hr : r ∈ rows) : key r < freshKey key rows := by
  have hle : ∀ (rows : List α) (u : ℕ), u ≤ rows.foldl (fun u r => max u (key r + 1)) u := by
    intro rows
    induction rows with
    | nil => exact fun u => le_rfl
    | cons s rows ih => exact fun u => (le_max_left u _).trans (ih _)
  have hmem : ∀ (rows : List α) (u : ℕ), r ∈ rows →
      key r < rows.foldl (fun u r => max u (key r + 1)) u := by
    intro rows
    induction rows with
    | nil => exact fun u h => absurd h (by simp)
    | cons s rows ih =>
      intro u hr
      rw [List.foldl_cons]
      rcases List.mem_cons.mp hr with rfl | hr
      · exact lt_of_lt_of_le (Nat.lt_succ_self _) ((le_max_right u _).trans (hle rows _))
      · exact ih _ hr
  exact hmem rows 0 hr

/-- A row with a key of its own is appended to a keyed table. -/
theorem Keyed.append (h : Keyed key rows) {row : α}
    (hrow : ∀ r ∈ rows, key r ≠ key row) : Keyed key (rows ++ [row]) := by
  unfold Keyed at h ⊢
  rw [List.map_append, List.map_singleton, List.nodup_append]
  refine ⟨h, by simp, ?_⟩
  rintro a ha b hb rfl
  obtain ⟨r, hr, rfl⟩ := List.mem_map.mp ha
  exact hrow r hr (List.mem_singleton.mp hb)

/-- A row with a drawn key is appended to a keyed table. -/
theorem Keyed.append_fresh {key : α → ℕ} (h : Keyed key rows) {row : α}
    (hrow : key row = freshKey key rows) : Keyed key (rows ++ [row]) := by
  apply h.append
  intro r hr
  rw [hrow]
  exact (key_lt_freshKey hr).ne

/-! ## Rows in an order -/

/-- `order by` orders the rows. -/
theorem pairwise_orderBy (rank : α → ℕ) (rows : List α) :
    (rows.insertionSort fun a b => rank a ≤ rank b).Pairwise fun a b => rank a ≤ rank b := by
  have htotal : Std.Total fun a b : α => rank a ≤ rank b := ⟨fun a b => Nat.le_total _ _⟩
  have htrans : IsTrans α fun a b : α => rank a ≤ rank b := ⟨fun _ _ _ hab hbc => hab.trans hbc⟩
  exact List.pairwise_insertionSort (fun a b => rank a ≤ rank b) rows

/-- The first row is a selected one, and no selected row comes before it. -/
theorem firstBy_eq_some {rank : α → ℕ} (h : firstBy p rank rows = some r) :
    r ∈ rows ∧ p r = true ∧ ∀ s ∈ rows, p s = true → rank r ≤ rank s := by
  have hsorted := pairwise_orderBy rank (rows.filter p)
  have hmem : ∀ s, s ∈ (rows.filter p).insertionSort (fun a b => rank a ≤ rank b) ↔
      s ∈ rows ∧ p s = true := fun s => by rw [List.mem_insertionSort, List.mem_filter]
  unfold firstBy at h
  cases hlist : (rows.filter p).insertionSort (fun a b => rank a ≤ rank b) with
  | nil => rw [hlist] at h; exact absurd h (by simp)
  | cons a l =>
    rw [hlist] at h hsorted hmem
    obtain rfl : a = r := by simpa using h
    have ha := (hmem a).mp (by simp)
    refine ⟨ha.1, ha.2, fun s hs hps => ?_⟩
    rcases List.mem_cons.mp ((hmem s).mpr ⟨hs, hps⟩) with rfl | hsl
    · exact le_rfl
    · exact List.rel_of_pairwise_cons hsorted hsl

/-- There is a first row as soon as some row is selected. -/
theorem exists_firstBy {rank : α → ℕ} {s : α} (hs : s ∈ rows)
    (hps : p s = true) : ∃ r, firstBy p rank rows = some r ∧ rank r ≤ rank s := by
  cases hfirst : firstBy p rank rows with
  | some r => exact ⟨r, rfl, (firstBy_eq_some hfirst).2.2 s hs hps⟩
  | none =>
    have hnil : (rows.filter p).insertionSort (fun a b => rank a ≤ rank b) = [] :=
      List.head?_eq_none_iff.mp hfirst
    have hmem : s ∈ (rows.filter p).insertionSort (fun a b => rank a ≤ rank b) :=
      (List.mem_insertionSort _).mpr (List.mem_filter.mpr ⟨hs, hps⟩)
    rw [hnil] at hmem
    exact absurd hmem (by simp)

/-- A page holds rows of the table behind the cursor. -/
theorem mem_page {key : α → ℕ} {after limit : ℕ}
    (h : r ∈ page key after limit rows) : r ∈ rows ∧ after < key r := by
  have hmem := List.mem_of_mem_take h
  rw [List.mem_insertionSort, List.mem_filter, decide_eq_true_eq] at hmem
  exact hmem

/-- The rows of a page have increasing keys. -/
theorem Keyed.pairwise_page {key : α → ℕ} (h : Keyed key rows) (after limit : ℕ) :
    (page key after limit rows).Pairwise fun a b => key a < key b := by
  have hsorted := pairwise_orderBy key (rows.filter fun r => decide (after < key r))
  have hnodup : (((rows.filter fun r => decide (after < key r)).insertionSort
      fun a b => key a ≤ key b).map key).Nodup := by
    have hperm := List.perm_insertionSort (fun a b : α => key a ≤ key b)
      (rows.filter fun r => decide (after < key r))
    rw [(hperm.map key).nodup_iff]
    exact h.sublist (List.filter_sublist.map key)
  have hstrict := hsorted.and (List.pairwise_map.mp hnodup)
  exact (hstrict.imp fun hab => lt_of_le_of_ne hab.1 hab.2).sublist (List.take_sublist _ _)

/-- A row behind the cursor is on the page, unless the page is full and the row comes after it. -/
theorem mem_page_or_full {key : α → ℕ} {after : ℕ} (hr : r ∈ rows) (hafter : after < key r)
    (limit : ℕ) :
    r ∈ page key after limit rows ∨ ((page key after limit rows).length = limit ∧
      ∀ p ∈ page key after limit rows, key p ≤ key r) := by
  have hsorted := pairwise_orderBy key (rows.filter fun r => decide (after < key r))
  have hmem : r ∈ (rows.filter fun r => decide (after < key r)).insertionSort
      fun a b => key a ≤ key b := by
    rw [List.mem_insertionSort, List.mem_filter, decide_eq_true_eq]
    exact ⟨hr, hafter⟩
  rw [← List.take_append_drop limit (List.insertionSort _ _)] at hmem hsorted
  rcases List.mem_append.mp hmem with hpage | hrest
  · exact Or.inl hpage
  · refine Or.inr ⟨?_, fun p hp => (List.pairwise_append.mp hsorted).2.2 p hp r hrest⟩
    rw [page, List.length_take, min_eq_left]
    by_contra hshort
    rw [List.drop_eq_nil_of_le (by omega)] at hrest
    exact absurd hrest (by simp)

/-- There are at most `hi - lo` increasing keys in an interval. -/
theorem length_le_of_increasing {key : α → ℕ} {lo hi : ℕ}
    (hsorted : rows.Pairwise fun a b => key a < key b)
    (hrows : ∀ r ∈ rows, lo < key r ∧ key r ≤ hi) : rows.length ≤ hi - lo := by
  induction rows generalizing lo with
  | nil => exact Nat.zero_le _
  | cons r rows ih =>
    obtain ⟨hfirst, hrest⟩ := List.pairwise_cons.mp hsorted
    obtain ⟨hlo, hhi⟩ := hrows r (by simp)
    have hlen := ih hrest fun v hv => ⟨hfirst v hv, (hrows v (List.mem_cons_of_mem _ hv)).2⟩
    rw [List.length_cons]
    omega

/-- A row that lies within `limit` keys behind the cursor is on the page. -/
theorem Keyed.mem_page {key : α → ℕ} (h : Keyed key rows) {after limit : ℕ} (hr : r ∈ rows)
    (hafter : after < key r) (hle : key r ≤ after + limit) : r ∈ page key after limit rows := by
  rcases mem_page_or_full hr hafter limit with hmem | ⟨hfull, hlast⟩
  · exact hmem
  · by_contra hout
    have hlow : ∀ v ∈ page key after limit rows, after < key v ∧ key v ≤ key r - 1 := by
      intro v hv
      obtain ⟨hvisible, hbehind⟩ := Relational.mem_page hv
      have hne : key v ≠ key r := by
        intro hsame
        exact hout (h.eq_of_mem hvisible hr hsame ▸ hv)
      have hvr := hlast v hv
      omega
    have hlen := length_le_of_increasing (h.pairwise_page after limit) hlow
    omega

/-! ## Rewriting row by row -/

/-- Every row of the table is kept or rewritten as `R` allows, in place. -/
def Rewrites (R : α → α → Prop) (rows rows' : List α) : Prop :=
  ∃ f : α → α, rows' = rows.map f ∧ ∀ r ∈ rows, f r = r ∨ R r (f r)

theorem Rewrites.refl (R : α → α → Prop) (rows : List α) : Rewrites R rows rows :=
  ⟨id, (List.map_id rows).symm, fun _ _ => Or.inl rfl⟩

variable {R : α → α → Prop}

/-- An update rewrites as `R` allows if its set clause does, on the rows it selects. -/
theorem rewrites_update (h : ∀ r ∈ rows, p r = true → R r (f r)) : Rewrites R rows (update p f rows) := by
  refine ⟨fun r => if p r then f r else r, rfl, fun r hr => ?_⟩
  cases hp : p r with
  | false => exact Or.inl (by simp [hp])
  | true => exact Or.inr (by simpa [hp] using h r hr hp)

/-- Rewriting twice is rewriting, if the relation is transitive. -/
theorem Rewrites.trans {rows rows' rows'' : List α} (hR : ∀ a b c, R a b → R b c → R a c)
    (h : Rewrites R rows rows') (h' : Rewrites R rows' rows'') : Rewrites R rows rows'' := by
  obtain ⟨f, rfl, hf⟩ := h
  obtain ⟨g, rfl, hg⟩ := h'
  refine ⟨g ∘ f, List.map_map, fun r hr => ?_⟩
  rcases hf r hr with hfr | hfr <;> rcases hg (f r) (List.mem_map_of_mem hr) with hgr | hgr
  · exact Or.inl (by rw [Function.comp_apply, hgr, hfr])
  · exact Or.inr (by rw [Function.comp_apply]; rwa [hfr] at hgr ⊢)
  · exact Or.inr (by rw [Function.comp_apply, hgr]; exact hfr)
  · exact Or.inr (hR _ _ _ hfr hgr)

/-- Every row of the rewritten table comes from a row of the old one. -/
theorem Rewrites.exists_old {rows rows' : List α} (h : Rewrites R rows rows') {r' : α}
    (hr : r' ∈ rows') : ∃ r ∈ rows, r' = r ∨ R r r' := by
  obtain ⟨f, rfl, hf⟩ := h
  obtain ⟨r, hmem, rfl⟩ := List.mem_map.mp hr
  exact ⟨r, hmem, hf r hmem⟩

theorem Rewrites.exists_new {rows rows' : List α} (h : Rewrites R rows rows')
    (hr : r ∈ rows) : ∃ r' ∈ rows', r' = r ∨ R r r' := by
  obtain ⟨f, rfl, hf⟩ := h
  exact ⟨f r, List.mem_map_of_mem hr, hf r hr⟩

/-- A column that no rewriting touches keeps its values. -/
theorem Rewrites.map_eq {rows rows' : List α} (h : Rewrites R rows rows') {g : α → β}
    (hg : ∀ r r', R r r' → g r' = g r) : rows'.map g = rows.map g := by
  obtain ⟨f, rfl, hf⟩ := h
  rw [List.map_map]
  refine List.map_congr_left fun r hr => ?_
  rcases hf r hr with heq | hR
  · exact congrArg g heq
  · exact hg r (f r) hR

/-! ## Insertion -/

section Insert

variable [DecidableEq β]

/-- The rows after an insertion are the old rows and possibly the new one. -/
theorem mem_insertNew {row r : α} (h : r ∈ insertNew key row rows) : r ∈ rows ∨ r = row := by
  unfold insertNew at h
  split at h
  · exact Or.inl h
  · simpa using h

/-- No insertion removes a row. -/
theorem mem_insertNew_of_mem {row r : α} (h : r ∈ rows) : r ∈ insertNew key row rows := by
  unfold insertNew
  split
  · exact h
  · exact List.mem_append_left _ h

/-- After an insertion some row carries the key that was to be inserted. -/
theorem exists_key_insertNew (key : α → β) (row : α) (rows : List α) :
    ∃ r ∈ insertNew key row rows, key r = key row := by
  unfold insertNew
  split
  · next h =>
    obtain ⟨r, hr, hk⟩ := List.mem_map.mp h
    exact ⟨r, hr, hk⟩
  · exact ⟨row, by simp, rfl⟩

/-- The row of a key after an insertion. -/
theorem find?_insertNew (key : α → β) (row : α) (rows : List α) (k : β) :
    (insertNew key row rows).find? (fun r => key r == k) =
      (rows.find? fun r => key r == k).or (if key row = k then some row else none) := by
  unfold insertNew
  split
  · next hmem =>
    cases hfind : rows.find? fun r => key r == k with
    | some r => rfl
    | none =>
      obtain ⟨r, hr, hkey⟩ := List.mem_map.mp hmem
      have hne : key row ≠ k := by
        have hall := List.find?_eq_none.mp hfind r hr
        simpa [← hkey] using hall
      simp [hne]
  · rw [List.find?_append]
    congr 1
    by_cases hk : key row = k <;> simp [hk]

/-- Insertion keeps the primary key it conflicts on. -/
theorem Keyed.insertNew {row : α} (h : Keyed key rows) : Keyed key (insertNew key row rows) := by
  unfold Relational.insertNew
  split
  · exact h
  · next hnew =>
    unfold Keyed at h ⊢
    rw [List.map_append, List.nodup_append]
    refine ⟨h, by simp, ?_⟩
    intro a ha b hb
    rw [List.map_singleton, List.mem_singleton] at hb
    rintro rfl
    exact hnew (hb ▸ ha)

/-- The rows after an insertion of several rows are old rows and new ones. -/
theorem mem_insertAll {new rows : List α} (h : r ∈ insertAll key new rows) :
    r ∈ rows ∨ r ∈ new := by
  induction new generalizing rows with
  | nil => exact Or.inl h
  | cons row new ih =>
    rcases ih h with hr | hr
    · rcases mem_insertNew hr with hr | rfl
      · exact Or.inl hr
      · exact Or.inr (by simp)
    · exact Or.inr (List.mem_cons_of_mem _ hr)

/-- No insertion of several rows removes a row. -/
theorem mem_insertAll_of_mem {new rows : List α} (h : r ∈ rows) : r ∈ insertAll key new rows := by
  induction new generalizing rows with
  | nil => exact h
  | cons row new ih => exact ih (mem_insertNew_of_mem h)

/-- After an insertion of several rows every inserted key is present. -/
theorem exists_key_insertAll {new rows : List α} {row : α} (h : row ∈ new) :
    ∃ r ∈ insertAll key new rows, key r = key row := by
  induction new generalizing rows with
  | nil => exact absurd h (by simp)
  | cons row' new ih =>
    rcases List.mem_cons.mp h with rfl | h
    · obtain ⟨r, hr, hkey⟩ := exists_key_insertNew key row rows
      have hmem : r ∈ insertAll key new (insertNew key row rows) := mem_insertAll_of_mem hr
      exact ⟨r, hmem, hkey⟩
    · exact ih h

/-- Insertion of several rows keeps the primary key it conflicts on. -/
theorem Keyed.insertAll {new rows : List α} (h : Keyed key rows) :
    Keyed key (insertAll key new rows) := by
  induction new generalizing rows with
  | nil => exact h
  | cons row new ih => exact ih h.insertNew

end Insert

theorem mem_of_lookup {κ : Type*} [BEq κ] [LawfulBEq κ] {key : κ} {value : α}
    {entries : List (κ × α)} (h : entries.lookup key = some value) : (key, value) ∈ entries := by
  obtain ⟨before, rest, rfl, -⟩ := List.lookup_eq_some_iff.mp h
  exact List.mem_append_right _ List.mem_cons_self

end Relational
