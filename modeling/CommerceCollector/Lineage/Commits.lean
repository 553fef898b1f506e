import CommerceCollector.Lineage.Resolve
import Mathlib.Algebra.Order.Ring.Nat

/-!
# What a commit does

`commit_page` either finds the page and changes at most the partitions of the lineage, or appends
the page with its batches and outcomes and adds the records to the counters of the datasets
(`commitPage_ok`).  Every other call leaves pages, batches and outcomes alone.

Along every run, the pages of a partition are committed in increasing order and nothing is appended
after a terminal page; a repeated commit returns `False` and changes no page, batch, outcome or
counter; and the counter of a dataset that has not failed since its last reset is the sum of the
records committed since then (`commits_append_only`).  A dataset that has failed still accepts
succeeded outcomes (`succeeded_after_failed`), but they are not counted.
-/

namespace CommerceCollector

open Relational Transaction

namespace Manifest

variable {m m' : Manifest} {lineage : Uuid} {p : PageCommit}

/-! ## The parts of a commit -/

/-- The outcomes of a page, recorded in the rows of their datasets. -/
def recordAll (outcomes : List DatasetOutcome) (rows : List DatasetRow) : List DatasetRow :=
  outcomes.foldl (fun rows o => update (fun d => d.key == o.key) (DatasetRow.record o) rows) rows

/-- The lineage accepts pages of the connector. -/
structure OpenFor (m : Manifest) (lineage : Uuid) (p : PageCommit) : Prop where
  active : ∃ l, m.lineageRow lineage = some l ∧ l.status = .active ∧
    l.identity.connectorVersion = p.connectorVersion

/-- The manifests after the partition was declared. -/
def opened (m : Manifest) (lineage : Uuid) (p : PageCommit) : Manifest :=
  if p.declarePartition then m.declarePartition lineage p.partitionKey else m

@[simp] theorem opened_pages (m : Manifest) (lineage : Uuid) (p : PageCommit) :
    (m.opened lineage p).pages = m.pages := by
  unfold opened
  split <;> rfl

@[simp] theorem opened_batches (m : Manifest) (lineage : Uuid) (p : PageCommit) :
    (m.opened lineage p).batches = m.batches := by
  unfold opened
  split <;> rfl

@[simp] theorem opened_outcomes (m : Manifest) (lineage : Uuid) (p : PageCommit) :
    (m.opened lineage p).outcomes = m.outcomes := by
  unfold opened
  split <;> rfl

@[simp] theorem opened_datasets (m : Manifest) (lineage : Uuid) (p : PageCommit) :
    (m.opened lineage p).datasets = m.datasets := by
  unfold opened
  split <;> rfl

theorem openLineage_eq_ok :
    m.openLineage lineage p = .ok m' ↔ m.OpenFor lineage p ∧ m' = m.opened lineage p := by
  unfold openLineage
  simp only [bind_eq_ok, getRow_eq_ok, require_eq_ok, pure_eq_ok, exists_const]
  constructor
  · rintro ⟨l, hl, hactive, hversion, rfl⟩
    exact ⟨⟨l, hl, hactive, hversion⟩, rfl⟩
  · rintro ⟨⟨l, hl, hactive, hversion⟩, rfl⟩
    exact ⟨l, hl, hactive, hversion, rfl⟩

/-- The page was committed with the same arguments. -/
structure Replays (m : Manifest) (lineage : Uuid) (p : PageCommit) : Prop where
  page : m.pages.find? (fun q => q.ref.names lineage p) = some (p.row lineage)
  batches : ((m.batches.filter fun b => b.page.names lineage p).map BatchRow.batch).Perm p.batches
  outcomes : ((m.outcomes.filter fun o => o.page.names lineage p).map OutcomeRow.outcome).Perm
    p.committedOutcomes

/-- The page is new and comes after the pages of its partition. -/
structure Follows (m : Manifest) (lineage : Uuid) (p : PageCommit) : Prop where
  fresh : m.pages.find? (fun q => q.ref.names lineage p) = none
  terminal : ∀ q ∈ m.partitionPages lineage p.partitionKey, q.terminal = false
  later : ∀ q ∈ m.partitionPages lineage p.partitionKey, q.ref.sequence < p.sequence

/-- The page, its batches and its outcomes are appended. -/
structure Appended (m : Manifest) (lineage : Uuid) (p : PageCommit) (m' : Manifest) : Prop where
  pages : m'.pages = m.pages ++ [p.row lineage]
  batches : m'.batches = m.batches ++ p.batches.map (BatchRow.mk (p.ref lineage))
  outcomes : m'.outcomes = m.outcomes ++ p.committedOutcomes.map (OutcomeRow.mk (p.ref lineage))
  datasets : m'.datasets = recordAll p.committedOutcomes m.datasets
  lineages : m'.lineages = (m.opened lineage p).lineages
  declared : ∀ o ∈ p.committedOutcomes, ∃ d ∈ m.datasets, d.key = o.key

/-! ## Inserts -/

theorem insertPage_ok (h : m.insertPage lineage p = .ok m') :
    m' = { m with pages := m.pages ++ [p.row lineage] } := by
  unfold insertPage at h
  simp only [bind_eq_ok, require_eq_ok, pure_eq_ok, exists_const] at h
  exact h.2.2.2.symm

variable {page : PageRef}

theorem insertBatch_ok {batch : PageBatch} (h : insertBatch page m batch = .ok m') :
    m' = { m with batches := m.batches ++ [BatchRow.mk page batch] } := by
  unfold insertBatch at h
  simp only [bind_eq_ok, require_eq_ok, pure_eq_ok, exists_const] at h
  exact h.2.2.2.2.symm

variable {batches : List PageBatch}

theorem insertBatches_ok (h : batches.foldlM (insertBatch page) m = .ok m') :
    m' = { m with batches := m.batches ++ batches.map (BatchRow.mk page) } := by
  induction batches generalizing m with
  | nil =>
    rw [List.foldlM_nil, pure_eq_ok] at h
    simp [h]
  | cons b batches ih =>
    rw [List.foldlM_cons, bind_eq_ok] at h
    obtain ⟨t, hfirst, hrest⟩ := h
    rw [ih hrest, insertBatch_ok hfirst]
    simp

theorem recordOutcome_ok {o : DatasetOutcome} (h : recordOutcome batches page m o = .ok m') :
    (∃ d ∈ m.datasets, d.key = o.key) ∧
      m' = { m with
        outcomes := m.outcomes ++ [OutcomeRow.mk page o]
        datasets := update (fun d => d.key == o.key) (DatasetRow.record o) m.datasets } := by
  unfold recordOutcome at h
  simp only [bind_eq_ok, require_eq_ok, getRow_eq_ok, pure_eq_ok, exists_const] at h
  obtain ⟨-, -, -, -, d, hd, -, rfl⟩ := h
  obtain ⟨hmem, hkey⟩ := mem_of_find? hd
  exact ⟨⟨d, hmem, by simpa using hkey⟩, rfl⟩

theorem map_key_recordAll (outcomes : List DatasetOutcome) (rows : List DatasetRow) :
    (recordAll outcomes rows).map DatasetRow.key = rows.map DatasetRow.key := by
  refine Trace.foldl_keep (g := fun rows => rows.map DatasetRow.key) (fun rows o => ?_) rows outcomes
  refine map_update (fun d => ?_) rows
  unfold DatasetRow.record
  split
  · split <;> rfl
  · rfl
  · rfl

theorem recordLoop_ok {outcomes : List DatasetOutcome}
    (h : outcomes.foldlM (recordOutcome batches page) m = .ok m') :
    (∀ o ∈ outcomes, ∃ d ∈ m.datasets, d.key = o.key) ∧
      m' = { m with
        outcomes := m.outcomes ++ outcomes.map (OutcomeRow.mk page)
        datasets := recordAll outcomes m.datasets } := by
  induction outcomes generalizing m with
  | nil =>
    rw [List.foldlM_nil, pure_eq_ok] at h
    simp [h, recordAll]
  | cons o outcomes ih =>
    rw [List.foldlM_cons, bind_eq_ok] at h
    obtain ⟨t, hfirst, hrest⟩ := h
    obtain ⟨hdeclared, rfl⟩ := recordOutcome_ok hfirst
    obtain ⟨hall, rfl⟩ := ih hrest
    refine ⟨?_, by simp [recordAll]⟩
    intro o' ho'
    rcases List.mem_cons.mp ho' with rfl | htail
    · exact hdeclared
    · obtain ⟨d, hd, hkey⟩ := hall o' htail
      have hkeys := map_key_recordAll [o] m.datasets
      have hmem : d.key ∈ m.datasets.map DatasetRow.key := hkeys ▸ List.mem_map_of_mem hd
      obtain ⟨d₀, hd₀, hsame⟩ := List.mem_map.mp hmem
      exact ⟨d₀, hd₀, hsame.trans hkey⟩

/-! ## The whole commit -/

/-- **What a commit does.**  The lineage accepts pages, and the page is either replayed or
appended. -/
theorem commitPage_ok {new : Bool} (h : m.commitPage lineage p = .ok (new, m')) :
    m.OpenFor lineage p ∧
      ((new = false ∧ m.Replays lineage p ∧ m' = m.opened lineage p) ∨
        new = true ∧ m.Follows lineage p ∧ m.Appended lineage p m') := by
  unfold commitPage at h
  rw [bind_eq_ok] at h
  obtain ⟨m₁, hopen, h⟩ := h
  obtain ⟨hactive, rfl⟩ := openLineage_eq_ok.mp hopen
  refine ⟨hactive, ?_⟩
  rw [opened_pages] at h
  split at h
  · next existing hfind =>
    unfold verifyReplay at h
    simp only [bind_eq_ok, require_eq_ok, pure_eq_ok, exists_const, opened_batches,
      opened_outcomes, Prod.mk.injEq] at h
    obtain ⟨⟨rfl, hbatches, houtcomes⟩, hnew, hm⟩ := h
    exact Or.inl ⟨hnew.symm, ⟨hfind, hbatches, houtcomes⟩, hm.symm⟩
  · next hfind =>
    unfold checkPosition recordOutcomes at h
    simp only [bind_eq_ok, require_eq_ok, pure_eq_ok, exists_const, Prod.mk.injEq] at h
    obtain ⟨⟨hterminal, hlater⟩, m₂, hpage, m₃, hbatches, m₄, ⟨-, hrecord⟩, hnew, rfl⟩ := h
    obtain rfl := insertPage_ok hpage
    obtain rfl := insertBatches_ok hbatches
    obtain ⟨hdeclared, rfl⟩ := recordLoop_ok hrecord
    refine Or.inr ⟨hnew.symm, ⟨hfind, ?_, ?_⟩, ?_⟩
    · simpa [partitionPages] using hterminal
    · simpa [partitionPages] using hlater
    · exact ⟨by simp, by simp, by simp, by simp, rfl, by simpa using hdeclared⟩

/-- An exact replay returns `False`. -/
theorem commitPage_replay (hopen : m.OpenFor lineage p) (h : m.Replays lineage p) :
    m.commitPage lineage p = .ok (false, m.opened lineage p) := by
  unfold commitPage
  rw [bind_eq_ok]
  refine ⟨_, openLineage_eq_ok.mpr ⟨hopen, rfl⟩, ?_⟩
  rw [opened_pages, h.page]
  simp only [bind_eq_ok, verifyReplay, require_eq_ok, pure_eq_ok, exists_const, opened_batches,
    opened_outcomes]
  exact ⟨⟨trivial, h.batches, h.outcomes⟩, trivial⟩

/-! ## What the other calls leave alone -/

variable {lib : Library}

theorem sameContent_step {a : ManifestAction} (ha : ∀ lineage p, a ≠ .commit lineage p)
    (m : Manifest) : SameContent m (m.step lib a) := by
  cases a with
  | commit lineage p => exact absurd rfl (ha lineage p)
  | resolve now spec datasets =>
    exact attempt_induction (.refl m) fun resolved m' h => sameContent_resolve h
  | create now identity lineage =>
    refine attempt_induction (.refl m) fun created m' h => ?_
    rcases (createLineage_ok h).2 with ⟨rfl, -⟩ | ⟨-, rfl⟩
    · exact .refl _
    · exact ⟨rfl, rfl, rfl⟩
  | complete lineage expected checksum =>
    refine attempt_induction (.refl m) fun new m' h => ?_
    obtain ⟨l, -, ⟨-, -, rfl⟩ | ⟨-, -, -, -, -, -, rfl⟩⟩ := completeLineage_ok h
    · exact .refl _
    · exact ⟨rfl, rfl, rfl⟩
  | completeLimited lineage checksum =>
    refine attempt_induction (.refl m) fun new m' h => ?_
    obtain ⟨l, -, ⟨-, -, rfl⟩ | ⟨-, -, rfl⟩⟩ := completeLimitedLineage_ok h
    · exact .refl _
    · exact ⟨rfl, rfl, rfl⟩
  | prepare | publish | finish =>
    exact onDataset_induction trivial fun _ _ => ⟨rfl, rfl, rfl⟩

/-- What any call does to pages, batches and outcomes: nothing, or it appends a new page. -/
theorem content_step (lib : Library) (m : Manifest) (a : ManifestAction) :
    SameContent m (m.step lib a) ∨
      ∃ lineage p, a = .commit lineage p ∧ m.commitPage lineage p = .ok (true, m.step lib a) ∧
        m.OpenFor lineage p ∧ m.Follows lineage p ∧ m.Appended lineage p (m.step lib a) := by
  by_cases hcommit : ∃ lineage p, a = .commit lineage p
  · obtain ⟨lineage, p, rfl⟩ := hcommit
    rcases attempt_cases m (m.commitPage lineage p) with heq | ⟨new, hok⟩
    · have hsame : m.step lib (.commit lineage p) = m := heq
      rw [hsame]
      exact Or.inl (.refl m)
    · have hstep : m.commitPage lineage p = .ok (new, m.step lib (.commit lineage p)) := hok
      obtain ⟨hopen, ⟨-, -, heq⟩ | ⟨rfl, hfollows, happended⟩⟩ := commitPage_ok hstep
      · rw [heq]
        exact Or.inl ⟨by simp, by simp, by simp⟩
      · exact Or.inr ⟨lineage, p, rfl, hstep, hopen, hfollows, happended⟩
  · refine Or.inl (sameContent_step (fun lineage p ha => ?_) m)
    exact hcommit ⟨lineage, p, ha⟩

/-! ## The pages of a run -/

/-- Batches and outcomes belong to pages, and the pages of a partition are in increasing order, only
the last of them terminal. -/
structure PagesOrdered (m : Manifest) : Prop where
  batches : ∀ b ∈ m.batches, ∃ q ∈ m.pages, q.ref = b.page
  outcomes : ∀ o ∈ m.outcomes, ∃ q ∈ m.pages, q.ref = o.page
  increasing : ∀ lineage partitionKey, (m.partitionPages lineage partitionKey).Pairwise
    fun a b => a.terminal = false ∧ a.ref.sequence < b.ref.sequence

theorem PagesOrdered.step (h : m.PagesOrdered) (a : ManifestAction) :
    (m.step lib a).PagesOrdered := by
  rcases content_step lib m a with hsame | ⟨lineage, p, -, -, -, hfollows, happended⟩
  · refine ⟨?_, ?_, fun ℓ k => ?_⟩
    · rw [hsame.batches, hsame.pages]
      exact h.batches
    · rw [hsame.outcomes, hsame.pages]
      exact h.outcomes
    · rw [partitionPages, hsame.pages]
      exact h.increasing ℓ k
  · refine ⟨?_, ?_, fun ℓ k => ?_⟩
    · rw [happended.batches, happended.pages]
      intro b hb
      rcases List.mem_append.mp hb with hold | hnew
      · obtain ⟨q, hq, href⟩ := h.batches b hold
        exact ⟨q, List.mem_append_left _ hq, href⟩
      · obtain ⟨b₀, -, rfl⟩ := List.mem_map.mp hnew
        exact ⟨p.row lineage, by simp, rfl⟩
    · rw [happended.outcomes, happended.pages]
      intro o ho
      rcases List.mem_append.mp ho with hold | hnew
      · obtain ⟨q, hq, href⟩ := h.outcomes o hold
        exact ⟨q, List.mem_append_left _ hq, href⟩
      · obtain ⟨o₀, -, rfl⟩ := List.mem_map.mp hnew
        exact ⟨p.row lineage, by simp, rfl⟩
    · rw [partitionPages, happended.pages, List.filter_append, List.pairwise_append]
      refine ⟨h.increasing ℓ k, ?_, fun q hq r hr => ?_⟩
      · exact (List.pairwise_singleton _ _).sublist List.filter_sublist
      · obtain ⟨hrow, hpart⟩ := List.mem_filter.mp hr
        obtain rfl := List.mem_singleton.mp hrow
        simp only [Bool.and_eq_true, beq_iff_eq] at hpart
        obtain ⟨rfl, rfl⟩ := hpart
        exact ⟨hfollows.terminal q hq, hfollows.later q hq⟩

theorem after_pagesOrdered (lib : Library) (actions : List ManifestAction) :
    (after lib actions).PagesOrdered :=
  Trace.exec_invariant (step lib) (fun _ a h => h.step a)
    ⟨by simp, by simp, fun _ _ => List.Pairwise.nil⟩ actions

/-! ## Replays -/

theorem Appended.replays (h : m.Appended lineage p m') (hordered : m.PagesOrdered)
    (hfresh : m.pages.find? (fun q => q.ref.names lineage p) = none) : m'.Replays lineage p := by
  have hnone : ∀ q ∈ m.pages, q.ref.names lineage p = false := by
    intro q hq
    simpa using List.find?_eq_none.mp hfresh q hq
  have hself : (p.ref lineage).names lineage p = true := by simp [PageRef.names, PageCommit.ref]
  have hbatches : m.batches.filter (fun b => b.page.names lineage p) = [] := by
    refine List.filter_eq_nil_iff.mpr fun b hb => ?_
    obtain ⟨q, hq, href⟩ := hordered.batches b hb
    simp [← href, hnone q hq]
  have houtcomes : m.outcomes.filter (fun o => o.page.names lineage p) = [] := by
    refine List.filter_eq_nil_iff.mpr fun o ho => ?_
    obtain ⟨q, hq, href⟩ := hordered.outcomes o ho
    simp [← href, hnone q hq]
  refine ⟨?_, ?_, ?_⟩
  · rw [h.pages, List.find?_append, hfresh]
    simp [PageCommit.row, hself]
  · rw [h.batches, List.filter_append, hbatches, List.nil_append, List.filter_map]
    simp [Function.comp_def, hself]
  · rw [h.outcomes, List.filter_append, houtcomes, List.nil_append, List.filter_map]
    simp [Function.comp_def, hself]

theorem Replays.step (h : m.Replays lineage p) (a : ManifestAction) :
    (m.step lib a).Replays lineage p := by
  rcases content_step lib m a with hsame | ⟨ℓ, q, -, -, -, hfollows, happended⟩
  · refine ⟨?_, ?_, ?_⟩
    · rw [hsame.pages]
      exact h.page
    · rw [hsame.batches]
      exact h.batches
    · rw [hsame.outcomes]
      exact h.outcomes
  · -- the appended page has another name
    have hother : (q.ref ℓ).names lineage p = false := by
      have hmem := List.mem_of_find?_eq_some h.page
      have hne := List.find?_eq_none.mp hfollows.fresh _ hmem
      by_contra hnamed
      simp only [PageRef.names, PageCommit.ref, PageCommit.row, Bool.and_eq_true, beq_iff_eq,
        Bool.not_eq_false] at hnamed hne
      obtain ⟨⟨h₁, h₂⟩, h₃⟩ := hnamed
      exact hne ⟨⟨h₁.symm, h₂.symm⟩, h₃.symm⟩
    refine ⟨?_, ?_, ?_⟩
    · rw [happended.pages, List.find?_append, h.page]
      rfl
    · rw [happended.batches, List.filter_append, List.filter_map]
      simpa [Function.comp_def, hother] using h.batches
    · rw [happended.outcomes, List.filter_append, List.filter_map]
      simpa [Function.comp_def, hother] using h.outcomes

end Manifest

/-! ## Counters -/

/-- The records of the succeeded outcomes. -/
def succeededRecords (outcomes : List DatasetOutcome) : ℕ :=
  ((outcomes.filter fun o => decide (o.state = .succeeded)).map DatasetOutcome.records).sum

variable {d : DatasetRow}

namespace DatasetRow

@[simp] theorem record_key (o : DatasetOutcome) (d : DatasetRow) : (record o d).key = d.key := by
  unfold record
  split
  · split <;> rfl
  · rfl
  · rfl

theorem record_of_failed (hd : d.state = .failed) (o : DatasetOutcome) :
    (record o d).state = .failed ∧ (record o d).records = d.records := by
  unfold record
  split
  · rw [if_pos hd]
    exact ⟨hd, rfl⟩
  · exact ⟨rfl, rfl⟩
  · exact ⟨hd, rfl⟩

/-- A failed dataset stays failed and does not count, whatever outcomes are recorded. -/
theorem foldl_record_of_failed (hd : d.state = .failed) (outcomes : List DatasetOutcome) :
    (outcomes.foldl (fun d o => record o d) d).state = .failed ∧
      (outcomes.foldl (fun d o => record o d) d).records = d.records := by
  induction outcomes generalizing d with
  | nil => exact ⟨hd, rfl⟩
  | cons o outcomes ih =>
    obtain ⟨hstate, hrecords⟩ := record_of_failed hd o
    rw [List.foldl_cons]
    exact ⟨(ih hstate).1, (ih hstate).2.trans hrecords⟩

/-- A dataset that has not failed counts the records of its succeeded outcomes. -/
theorem foldl_record {outcomes : List DatasetOutcome}
    (h : (outcomes.foldl (fun d o => record o d) d).state ≠ .failed) :
    (outcomes.foldl (fun d o => record o d) d).records =
      d.records + succeededRecords outcomes := by
  induction outcomes generalizing d with
  | nil => simp [succeededRecords]
  | cons o outcomes ih =>
    rw [List.foldl_cons] at h ⊢
    rw [ih h]
    have hfirst : (record o d).state ≠ .failed := by
      intro hfailed
      exact h (foldl_record_of_failed hfailed outcomes).1
    have hd : d.state ≠ .failed := by
      intro hfailed
      exact hfirst (record_of_failed hfailed o).1
    cases hstate : o.state with
    | succeeded =>
      simp only [record, hstate, hd, if_false, succeededRecords, decide_true,
        List.filter_cons_of_pos, List.map_cons, List.sum_cons]
      omega
    | failed => exact absurd (by simp [record, hstate]) hfirst
    | skipped => simp [record, hstate, succeededRecords]
    | invalid text => simp [record, hstate, succeededRecords]

end DatasetRow

namespace Manifest

variable {m m' : Manifest} {lineage : Uuid} {p : PageCommit} {lib : Library}

theorem find?_recordAll (outcomes : List DatasetOutcome) (rows : List DatasetRow)
    (key : DatasetKey) :
    (recordAll outcomes rows).find? (fun d => d.key == key) =
      (rows.find? fun d => d.key == key).map fun d =>
        (outcomes.filter fun o => o.key == key).foldl (fun d o => DatasetRow.record o d) d := by
  induction outcomes generalizing rows with
  | nil => simp [recordAll]
  | cons o outcomes ih =>
    have hcons : recordAll (o :: outcomes) rows =
        recordAll outcomes (update (fun d => d.key == o.key) (DatasetRow.record o) rows) := rfl
    rw [hcons, ih, find?_update (DatasetRow.record_key o), Option.map_map]
    cases hfind : rows.find? fun d => d.key == key with
    | none => rfl
    | some d =>
      have hkey : d.key = key := by simpa using List.find?_some hfind
      by_cases ho : o.key = key
      · simp [hkey, ho]
      · simp [hkey, ho, Ne.symm ho]

theorem Appended.dataset (h : m.Appended lineage p m') (key : DatasetKey) :
    m'.dataset key = (m.dataset key).map fun d =>
      (p.committedOutcomes.filter fun o => o.key == key).foldl
        (fun d o => DatasetRow.record o d) d := by
  rw [Manifest.dataset, h.datasets]
  exact find?_recordAll _ _ key

/-- The call resets a dataset. -/
def resets (lib : Library) (m : Manifest) (key : DatasetKey) : ManifestAction → Bool
  | .prepare resuming key' =>
    match m.prepareDatasetForCollection resuming key' with
    | .ok _ => !resuming && key' == key
    | .error _ => false
  | .resolve now spec datasets =>
    match m.resolveLibraryLineage lib now spec datasets with
    | .ok (resolved, _) => !resolved.resuming && datasets.contains key
    | .error _ => false
  | _ => false

/-- The outcomes of a dataset that a call commits. -/
def commits (m : Manifest) (key : DatasetKey) : ManifestAction → List DatasetOutcome
  | .commit lineage p =>
    match m.commitPage lineage p with
    | .ok (true, _) => p.committedOutcomes.filter fun o => o.key == key
    | _ => []
  | _ => []

/-- The counter of a dataset is kept, or the dataset is declared. -/
def Counts (key : DatasetKey) (m m' : Manifest) : Prop :=
  (m'.dataset key).map DatasetRow.records = (m.dataset key).map DatasetRow.records ∨
    m.dataset key = none ∧ (m'.dataset key).map DatasetRow.records = some 0

theorem Counts.refl (key : DatasetKey) (m : Manifest) : Counts key m m := Or.inl rfl

theorem Counts.trans {key : DatasetKey} {m'' : Manifest} (h : Counts key m m')
    (h' : Counts key m' m'') : Counts key m m'' := by
  rcases h' with hsame' | ⟨hnone', hzero'⟩
  · rcases h with hsame | ⟨hnone, hzero⟩
    · exact Or.inl (hsame'.trans hsame)
    · exact Or.inr ⟨hnone, hsame'.trans hzero⟩
  · rcases h with hsame | ⟨hnone, -⟩
    · rw [hnone'] at hsame
      exact Or.inr ⟨by simpa using hsame.symm, hzero'⟩
    · exact Or.inr ⟨hnone, hzero'⟩

theorem counts_updateDataset {f : DatasetRow → DatasetRow} (hkey : ∀ d, (f d).key = d.key)
    (hrecords : ∀ d, (f d).records = d.records) (m : Manifest) (other key : DatasetKey) :
    Counts key m (m.updateDataset other f) := by
  have hfind : (m.updateDataset other f).dataset key =
      (m.dataset key).map fun d => if d.key == other then f d else d :=
    find?_update hkey (fun d => d.key == other) m.datasets key
  refine Or.inl ?_
  rw [hfind, Option.map_map]
  congr 1
  funext d
  by_cases hd : d.key = other <;> simp [hd, hrecords]

theorem counts_prepare {resuming : Bool} {other key : DatasetKey}
    (h : m.prepareDatasetForCollection resuming other = .ok m')
    (hreset : resuming = true ∨ other ≠ key) : Counts key m m' := by
  have hdataset := prepareDatasetForCollection_dataset h key
  have hrestore : ∀ d : DatasetRow, d.restore.records = d.records := by
    intro d
    unfold DatasetRow.restore
    split <;> rfl
  by_cases hother : other = key
  · have hresuming : resuming = true := hreset.resolve_right (fun hne => hne hother)
    cases hd : m.dataset key with
    | none =>
      refine Or.inr ⟨hd, ?_⟩
      rw [hdataset, hd]
      simp [hother, hresuming, hrestore]
    | some d =>
      refine Or.inl ?_
      rw [hdataset, hd]
      by_cases hkey : d.key = other <;> simp [hkey, hresuming, hrestore]
  · refine Or.inl ?_
    rw [hdataset, if_neg hother, Option.or_none, Option.map_map]
    cases hd : m.dataset key with
    | none => rfl
    | some d =>
      have hkey : d.key = key := by simpa using List.find?_some hd
      have hne : key ≠ other := fun heq => hother heq.symm
      simp [hkey, hne]

theorem counts_resolve {now : Time} {spec : LibraryLineageSpec} {datasets : List DatasetKey}
    {resolved : ResolvedLibraryLineage} {key : DatasetKey}
    (h : m.resolveLibraryLineage lib now spec datasets = .ok (resolved, m'))
    (hreset : resolved.resuming = true ∨ key ∉ datasets) : Counts key m m' := by
  obtain ⟨active, fingerprint, candidate, m₁, m₂, -, -, -, hreject, hsettle, hprepare⟩ :=
    resolveLibraryLineage_ok h
  have hfirst : m₂.datasets = m.datasets := by
    have hrejected : m₁.datasets = m.datasets := by rw [rejectAll_ok hreject]
    rcases settle_ok hsettle with ⟨-, -, rfl, -⟩ | ⟨m₃, hreject', hcreate, -⟩
    · exact hrejected
    · have hrejected' : m₃.datasets = m₁.datasets := by rw [rejectAll_ok hreject']
      rcases (createLineage_ok hcreate).2 with ⟨rfl, -⟩ | ⟨-, rfl⟩
      · exact hrejected'.trans hrejected
      · exact hrejected'.trans hrejected
  have hstart : Counts key m m₂ := by
    refine Or.inl ?_
    rw [dataset, hfirst]
    rfl
  refine foldlM_invariant (I := Counts key m) ?_ hprepare hstart
  intro other hother t t' hok ht
  refine ht.trans (counts_prepare hok ?_)
  refine hreset.imp_right fun hnot heq => ?_
  exact hnot (heq ▸ hother)

theorem counts_step {a : ManifestAction} {key : DatasetKey}
    (ha : ∀ lineage p, a ≠ .commit lineage p) (hreset : m.resets lib key a = false) :
    Counts key m (m.step lib a) := by
  cases a with
  | commit lineage p => exact absurd rfl (ha lineage p)
  | resolve now spec datasets =>
    refine attempt_induction (.refl key m) fun resolved m' h => counts_resolve h ?_
    simp only [resets, h] at hreset
    cases hresuming : resolved.resuming with
    | true => exact Or.inl rfl
    | false => exact Or.inr (by simpa [hresuming] using hreset)
  | create now identity lineage =>
    refine attempt_induction (.refl key m) fun created m' h => ?_
    rcases (createLineage_ok h).2 with ⟨rfl, -⟩ | ⟨-, rfl⟩ <;> exact .refl key _
  | prepare resuming other =>
    refine attempt_induction (.refl key m) fun _ m' h => ?_
    have hok := ok_of_map h
    refine counts_prepare hok ?_
    simp only [resets, hok] at hreset
    cases resuming with
    | true => exact Or.inl rfl
    | false => exact Or.inr (by simpa using hreset)
  | complete lineage expected checksum =>
    refine attempt_induction (.refl key m) fun new m' h => ?_
    obtain ⟨l, -, ⟨-, -, rfl⟩ | ⟨-, -, -, -, -, -, rfl⟩⟩ := completeLineage_ok h <;>
      exact .refl key _
  | completeLimited lineage checksum =>
    refine attempt_induction (.refl key m) fun new m' h => ?_
    obtain ⟨l, -, ⟨-, -, rfl⟩ | ⟨-, -, rfl⟩⟩ := completeLimitedLineage_ok h <;> exact .refl key _
  | publish other artifact kind =>
    refine attempt_induction (.refl key m) fun _ m' h => ?_
    have hok := ok_of_map h
    obtain ⟨artifacts, f, rfl, hf⟩ := recordPublication_ok hok
    exact counts_updateDataset (fun d => (hf d).1) (fun d => (hf d).2.1) { m with artifacts } other key
  | finish other state complete rejected error promoted =>
    refine attempt_induction (.refl key m) fun _ m' h => ?_
    have hok := ok_of_map h
    obtain ⟨f, rfl, hf⟩ := finishDataset_ok hok
    exact counts_updateDataset (fun d => (hf d).1) (fun d => (hf d).2) m other key

theorem dataset_of_resets {a : ManifestAction} {key : DatasetKey}
    (hreset : m.resets lib key a = true) : (m.step lib a).dataset key = some { key } := by
  cases a with
  | prepare resuming other =>
    cases hok : m.prepareDatasetForCollection resuming other with
    | error e => exact absurd hreset (by simp [resets, hok])
    | ok m' =>
      simp only [resets, hok, Bool.and_eq_true, Bool.not_eq_true', beq_iff_eq] at hreset
      obtain ⟨rfl, rfl⟩ := hreset
      have hloop : [other].foldlM (fun m key => m.prepareDatasetForCollection false key) m =
          .ok m' := by
        rw [List.foldlM_cons, bind_eq_ok]
        exact ⟨m', hok, rfl⟩
      have hstep : m.step lib (.prepare false other) = m' := by
        simp only [step, hok, Except.map, attempt]
      rw [hstep]
      exact prepareAll_reset (by simp) hloop
  | resolve now spec datasets =>
    cases hok : m.resolveLibraryLineage lib now spec datasets with
    | error e => exact absurd hreset (by simp [resets, hok])
    | ok r =>
      obtain ⟨resolved, m'⟩ := r
      simp only [resets, hok, Bool.and_eq_true, Bool.not_eq_true', List.contains_iff_mem] at hreset
      obtain ⟨hresuming, hkey⟩ := hreset
      obtain ⟨active, fingerprint, candidate, m₁, m₂, -, -, -, -, -, hprepare⟩ :=
        resolveLibraryLineage_ok hok
      rw [hresuming] at hprepare
      have hstep : m.step lib (.resolve now spec datasets) = m' := by
        simp only [step, hok, attempt]
      rw [hstep]
      exact prepareAll_reset hkey hprepare
  | _ => exact absurd hreset (by simp [resets])

end Manifest

/-! ## Runs -/

/-- The manifests, and for every dataset the outcomes committed since its last reset and whether it
has failed since then. -/
structure Audit where
  manifest : Manifest := {}
  since : DatasetKey → List DatasetOutcome := fun _ => []
  failed : DatasetKey → Bool := fun _ => false

namespace Audit

variable {lib : Library} {s : Audit}

/-- A call, and what it commits. -/
def step (lib : Library) (s : Audit) (a : ManifestAction) : Audit where
  manifest := s.manifest.step lib a
  since := fun key =>
    if s.manifest.resets lib key a then [] else s.since key ++ s.manifest.commits key a
  failed := fun key =>
    (!s.manifest.resets lib key a && s.failed key) ||
      ((s.manifest.step lib a).dataset key).any fun d => d.state == .failed

/-- The state reached by a run of a job that has no manifests. -/
def after (lib : Library) (actions : List ManifestAction) : Audit := Trace.exec (step lib) {} actions

/-- The counter of a dataset that has not failed is the sum of the records committed since its last
reset. -/
structure Counted (s : Audit) (key : DatasetKey) : Prop where
  undeclared : s.manifest.dataset key = none → s.since key = []
  failed : ∀ d, s.manifest.dataset key = some d → d.state = .failed → s.failed key = true
  records : ∀ d, s.manifest.dataset key = some d → s.failed key = false →
    d.records = succeededRecords (s.since key)

theorem succeededRecords_append (xs ys : List DatasetOutcome) :
    succeededRecords (xs ++ ys) = succeededRecords xs + succeededRecords ys := by
  simp [succeededRecords]

theorem commits_of_not_new (lib : Library) {m : Manifest} {a : ManifestAction} (key : DatasetKey)
    (h : ∀ lineage p, a = .commit lineage p →
      m.commitPage lineage p ≠ .ok (true, m.step lib a)) : m.commits key a = [] := by
  cases a with
  | commit lineage p =>
    simp only [Manifest.commits]
    split
    · next m' hok =>
      have hstep : m.step lib (.commit lineage p) = m' := by
        simp only [Manifest.step, hok, attempt]
      exact absurd hok (hstep ▸ h lineage p rfl)
    · rfl
  | _ => rfl

theorem datasets_of_not_new (lib : Library) {m : Manifest} {lineage : Uuid} {p : PageCommit}
    (h : m.commitPage lineage p ≠ .ok (true, m.step lib (.commit lineage p))) :
    (m.step lib (.commit lineage p)).datasets = m.datasets := by
  rcases attempt_cases m (m.commitPage lineage p) with heq | ⟨new, hok⟩
  · have hsame : m.step lib (.commit lineage p) = m := heq
    rw [hsame]
  · have hstep : m.commitPage lineage p = .ok (new, m.step lib (.commit lineage p)) := hok
    obtain ⟨-, ⟨-, -, heq⟩ | ⟨rfl, -, -⟩⟩ := Manifest.commitPage_ok hstep
    · rw [heq]
      simp
    · exact absurd hstep h

section Step

variable {key : DatasetKey} {a : ManifestAction}

theorem failed_step (hd : (s.step lib a).manifest.dataset key = some d)
    (hstate : d.state = .failed) : (s.step lib a).failed key = true := by
  have hd' : (s.manifest.step lib a).dataset key = some d := hd
  simp [Audit.step, hd', hstate]

theorem not_failed_of_step (hreset : s.manifest.resets lib key a = false)
    (hnot : (s.step lib a).failed key = false) : s.failed key = false := by
  simp only [Audit.step, hreset, Bool.not_false, Bool.true_and, Bool.or_eq_false_iff] at hnot
  exact hnot.1

theorem since_step (hreset : s.manifest.resets lib key a = false) :
    (s.step lib a).since key = s.since key ++ s.manifest.commits key a :=
  if_neg (by simp [hreset])

theorem counted_of_resets (hreset : s.manifest.resets lib key a = true) :
    (s.step lib a).Counted key := by
  have hrow := Manifest.dataset_of_resets hreset
  have hnone : (s.step lib a).since key = [] := if_pos hreset
  refine ⟨fun _ => hnone, fun d => failed_step, fun d hd _ => ?_⟩
  obtain rfl : { key } = d := Option.some.inj (hrow.symm.trans hd)
  rw [hnone]
  rfl

theorem Counted.append (h : s.Counted key) {lineage : Uuid} {p : PageCommit}
    (hok : s.manifest.commitPage lineage p = .ok (true, s.manifest.step lib (.commit lineage p))) :
    (s.step lib (.commit lineage p)).Counted key := by
  have hreset : s.manifest.resets lib key (.commit lineage p) = false := rfl
  have hcommits : s.manifest.commits key (.commit lineage p) =
      p.committedOutcomes.filter fun o => o.key == key := by
    simp only [Manifest.commits, hok]
  obtain ⟨-, ⟨hfalse, -⟩ | ⟨-, -, happended⟩⟩ := Manifest.commitPage_ok hok
  · exact absurd hfalse (by simp)
  have hrow := happended.dataset key
  refine ⟨fun hnone => ?_, fun d => failed_step, fun d hd hnot => ?_⟩
  · -- the outcomes of a page are those of declared datasets
    have hbefore : s.manifest.dataset key = none := by simpa using hrow.symm.trans hnone
    rw [since_step hreset, h.undeclared hbefore, hcommits, List.nil_append,
      List.filter_eq_nil_iff]
    intro o ho hkey
    obtain ⟨d, hd, hdkey⟩ := happended.declared o ho
    have hout := List.find?_eq_none.mp hbefore d hd
    simp only [beq_iff_eq] at hkey hout
    exact hout (hdkey.trans hkey)
  · have hend : d.state ≠ .failed := by
      intro hstate
      exact absurd (failed_step hd hstate) (by simp [hnot])
    have hafter := hrow.symm.trans hd
    cases hd₀ : s.manifest.dataset key with
    | none => simp [hd₀] at hafter
    | some d₀ =>
      rw [hd₀, Option.map_some] at hafter
      obtain rfl := Option.some.inj hafter
      have hbefore := h.records d₀ hd₀ (not_failed_of_step hreset hnot)
      rw [DatasetRow.foldl_record hend, hbefore, since_step hreset, hcommits,
        succeededRecords_append]

theorem Counted.keep (h : s.Counted key) (hreset : s.manifest.resets lib key a = false)
    (hcommits : s.manifest.commits key a = [])
    (hcounts : Manifest.Counts key s.manifest (s.manifest.step lib a)) :
    (s.step lib a).Counted key := by
  have hsince : (s.step lib a).since key = s.since key := by
    rw [since_step hreset, hcommits, List.append_nil]
  refine ⟨fun hnone => ?_, fun d => failed_step, fun d hd hnot => ?_⟩
  · have hafter : (s.manifest.step lib a).dataset key = none := hnone
    rw [hsince]
    rcases hcounts with hsame | ⟨hbefore, -⟩
    · rw [hafter] at hsame
      exact h.undeclared (by simpa using hsame.symm)
    · exact h.undeclared hbefore
  · have hafter : (s.manifest.step lib a).dataset key = some d := hd
    rw [hsince]
    rcases hcounts with hsame | ⟨hbefore, hzero⟩
    · rw [hafter, Option.map_some] at hsame
      obtain ⟨d₀, hd₀, hrecords⟩ := Option.map_eq_some_iff.mp hsame.symm
      rw [← hrecords]
      exact h.records d₀ hd₀ (not_failed_of_step hreset hnot)
    · rw [hafter] at hzero
      rw [h.undeclared hbefore, Option.some.inj hzero]
      rfl

theorem Counted.step (h : s.Counted key) (a : ManifestAction) : (s.step lib a).Counted key := by
  cases hreset : s.manifest.resets lib key a with
  | true => exact counted_of_resets hreset
  | false =>
    by_cases hnew : ∃ lineage p, a = .commit lineage p ∧
        s.manifest.commitPage lineage p = .ok (true, s.manifest.step lib a)
    · obtain ⟨lineage, p, rfl, hok⟩ := hnew
      exact h.append hok
    · have hcommits : s.manifest.commits key a = [] :=
        commits_of_not_new lib key fun lineage p ha hok => hnew ⟨lineage, p, ha, hok⟩
      refine h.keep hreset hcommits ?_
      by_cases ha : ∃ lineage p, a = .commit lineage p
      · obtain ⟨lineage, p, rfl⟩ := ha
        have hdatasets := datasets_of_not_new lib
          fun hok => hnew ⟨lineage, p, rfl, hok⟩
        refine Or.inl ?_
        rw [Manifest.dataset, hdatasets]
        rfl
      · exact Manifest.counts_step (fun lineage p heq => ha ⟨lineage, p, heq⟩) hreset

end Step

theorem after_counted (lib : Library) (actions : List ManifestAction) (key : DatasetKey) :
    (after lib actions).Counted key := by
  have hstart : ∀ d, ({} : Audit).manifest.dataset key ≠ some d := by
    intro d
    simp [Manifest.dataset]
  refine Trace.exec_invariant (step lib) (I := fun s => s.Counted key) (fun _ a h => h.step a)
    ⟨fun _ => rfl, fun d hd => ?_, fun d hd => ?_⟩ actions
  · exact absurd hd (hstart d)
  · exact absurd hd (hstart d)

theorem exec_manifest (lib : Library) (s : Audit) (actions : List ManifestAction) :
    (Trace.exec (step lib) s actions).manifest =
      Trace.exec (Manifest.step lib) s.manifest actions := by
  induction actions generalizing s with
  | nil => rfl
  | cons a actions ih => exact ih (s.step lib a)

theorem after_manifest (lib : Library) (actions : List ManifestAction) :
    (after lib actions).manifest = Manifest.after lib actions := exec_manifest lib {} actions

theorem replays_exec {m : Manifest} {lineage : Uuid} {p : PageCommit} (h : m.Replays lineage p)
    (actions : List ManifestAction) :
    (Trace.exec (Manifest.step lib) m actions).Replays lineage p :=
  Trace.exec_invariant (Manifest.step lib) (I := fun t => t.Replays lineage p)
    (fun _ a h => h.step a) h actions

/-- What holds of the commits of a run. -/
structure CommitsSound (lib : Library) (actions : List ManifestAction) : Prop where
  /-- A call that raises changes nothing. -/
  rollback : ∀ lineage p e, (Manifest.after lib actions).commitPage lineage p = .error e →
    Manifest.after lib (actions ++ [.commit lineage p]) = Manifest.after lib actions
  /-- A repeated commit returns `False` as long as the lineage accepts pages. -/
  replay : ∀ pre lineage p post m', actions = pre ++ .commit lineage p :: post →
    (Manifest.after lib pre).commitPage lineage p = .ok (true, m') →
    (Manifest.after lib actions).OpenFor lineage p →
    ∃ m'', (Manifest.after lib actions).commitPage lineage p = .ok (false, m'')
  /-- A commit that returns `False` changes no page, batch, outcome or dataset. -/
  unchanged : ∀ lineage p m', (Manifest.after lib actions).commitPage lineage p = .ok (false, m') →
    Manifest.SameContent (Manifest.after lib actions) m' ∧
      m'.datasets = (Manifest.after lib actions).datasets
  /-- The pages of a partition are in increasing order, and only the last one may be terminal. -/
  increasing : ∀ lineage partitionKey,
    ((Manifest.after lib actions).partitionPages lineage partitionKey).Pairwise
      fun a b => a.terminal = false ∧ a.ref.sequence < b.ref.sequence
  /-- The counter of a dataset that has not failed since its last reset. -/
  counted : ∀ key d, (Manifest.after lib actions).dataset key = some d →
    (after lib actions).failed key = false →
    d.records = succeededRecords ((after lib actions).since key)
  /-- A failed dataset stays failed, and what is committed to it is not counted. -/
  afterFailure : ∀ key d lineage p new m', (Manifest.after lib actions).dataset key = some d →
    d.state = .failed → (Manifest.after lib actions).commitPage lineage p = .ok (new, m') →
    ∃ d', m'.dataset key = some d' ∧ d'.state = .failed ∧ d'.records = d.records

/-- **Commits are atomic, idempotent and append-only** along every run. -/
theorem commits_append_only (lib : Library) (actions : List ManifestAction) :
    CommitsSound lib actions where
  rollback := by
    intro lineage p e herror
    rw [Manifest.after, Trace.exec_append, Trace.exec_cons, Trace.exec_nil]
    change attempt _ ((Manifest.after lib actions).commitPage lineage p) = _
    rw [herror]
    rfl
  replay := by
    rintro pre lineage p post m' rfl hok hopen
    obtain ⟨-, ⟨hfalse, -⟩ | ⟨-, hfollows, happended⟩⟩ := Manifest.commitPage_ok hok
    · exact absurd hfalse (by simp)
    have hstep : (Manifest.after lib pre).step lib (.commit lineage p) = m' := by
      simp only [Manifest.step, hok, attempt]
    have hend : (Manifest.after lib (pre ++ .commit lineage p :: post)).Replays lineage p := by
      rw [Manifest.after, Trace.exec_append, Trace.exec_cons]
      refine replays_exec ?_ post
      rw [show Manifest.step lib (Trace.exec (Manifest.step lib) {} pre) (.commit lineage p) = m'
        from hstep]
      exact happended.replays (Manifest.after_pagesOrdered lib pre) hfollows.fresh
    exact ⟨_, Manifest.commitPage_replay hopen hend⟩
  unchanged := by
    intro lineage p m' hok
    obtain ⟨-, ⟨-, -, rfl⟩ | ⟨htrue, -⟩⟩ := Manifest.commitPage_ok hok
    · exact ⟨⟨by simp, by simp, by simp⟩, by simp⟩
    · exact absurd htrue (by simp)
  increasing := (Manifest.after_pagesOrdered lib actions).increasing
  counted := by
    intro key d hd hnot
    refine (after_counted lib actions key).records d ?_ hnot
    rw [after_manifest]
    exact hd
  afterFailure := by
    intro key d lineage p new m' hd hfailed hok
    obtain ⟨-, ⟨-, -, rfl⟩ | ⟨-, -, happended⟩⟩ := Manifest.commitPage_ok hok
    · refine ⟨d, ?_, hfailed, rfl⟩
      rw [Manifest.dataset, Manifest.opened_datasets]
      exact hd
    · refine ⟨_, (happended.dataset key).trans (by rw [hd, Option.map_some]), ?_⟩
      exact DatasetRow.foldl_record_of_failed hfailed _

/-- No succeeded outcome comes after a failed one. -/
def FailureIsLast (outcomes : List DatasetOutcome) : Prop :=
  outcomes.Pairwise fun a b => a.state = .failed → b.state ≠ .succeeded

instance (outcomes : List DatasetOutcome) : Decidable (FailureIsLast outcomes) :=
  inferInstanceAs (Decidable (outcomes.Pairwise _))

/-- A library for examples. -/
def plainLibrary : Library where
  collectionFingerprint := fun _ _ _ => some 7
  validateRequest := fun _ => none
  dumpRequest := fun r => r.fields
  acceptsCheckpoint := fun _ => true
  manifestDigest := fun _ _ _ => 9

/-- The dataset of the examples. -/
def glazes : DatasetKey := ⟨"glazes", "1", "1"⟩

/-- The identity of a lineage of the catalogue runtime. -/
def catalogueIdentity : LineageIdentity where
  sourceId := "shop"
  sourceUrl := "https://shop.test"
  connector := "shopify"
  connectorVersion := "1"
  partitions := ["main"]
  connectorConfigFingerprint := 7
  datasetFingerprint := 8
  datasetSelection := ⟨"[]"⟩
  runtimeFormat := .catalogueV1
  collectionRequest := none
  connectorOptions := none
  budgetState := ⟨"{}"⟩
  expiresAt := none

/-- The page of the examples, with what is committed of the dataset. -/
def mainPage (pageId : String) (sequence : ℕ) (batches : List PageBatch)
    (outcome : DatasetOutcome) : PageCommit where
  partitionKey := "main"
  pageId := pageId
  sequence := sequence
  resumeAfter := some ⟨pageId⟩
  terminal := false
  enumerationIntact := true
  connectorVersion := "1"
  batches := batches
  outcomes := some [outcome]

/-- The projector of the first page fails, and that of the second page succeeds. -/
def failsThenSucceeds : List ManifestAction :=
  [ .create 1 catalogueIdentity none, .prepare false glazes,
    .commit 0 (mainPage "p1" 1 [] ⟨glazes, .failed, 0, some "bad price"⟩),
    .commit 0 (mainPage "p2" 2 [⟨glazes, "p2.gz", 5, 100, 3⟩] ⟨glazes, .succeeded, 3, none⟩) ]

/-- Both pages are committed, and the succeeded outcome comes after the failed one. -/
theorem succeeded_after_failed :
    ((Manifest.after plainLibrary failsThenSucceeds).pages.map fun q => q.ref.pageId) =
        ["p1", "p2"] ∧
      ¬ FailureIsLast ((after plainLibrary failsThenSucceeds).since glazes) := by
  decide

end Audit

end CommerceCollector
