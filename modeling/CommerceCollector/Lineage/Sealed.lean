import CommerceCollector.Lineage.Cursors

/-!
# Lineages that no longer change

Only an active lineage is written: pages are committed to it, and it is rejected or sealed.  Every
other lineage keeps its row, its pages, its batches and its outcomes (`Frozen`), so what was checked
when a lineage was completed still holds whenever it is read.
-/

namespace CommerceCollector

open Relational Transaction

namespace Manifest

variable {m m' : Manifest} {lib : Library} {lineage : Uuid} {l : Lineage}

/-- The lineage, and everything that was committed to it, is the same. -/
structure Frozen (lineage : Uuid) (m m' : Manifest) : Prop where
  row : m'.lineageRow lineage = m.lineageRow lineage
  pages : m'.pagesOf lineage = m.pagesOf lineage
  batches : (m'.batches.filter fun b => b.page.lineage == lineage) =
    m.batches.filter fun b => b.page.lineage == lineage
  outcomes : (m'.outcomes.filter fun o => o.page.lineage == lineage) =
    m.outcomes.filter fun o => o.page.lineage == lineage

theorem Frozen.refl (lineage : Uuid) (m : Manifest) : Frozen lineage m m := ⟨rfl, rfl, rfl, rfl⟩

theorem Frozen.trans {m'' : Manifest} (h : Frozen lineage m m') (h' : Frozen lineage m' m'') :
    Frozen lineage m m'' :=
  ⟨h'.row.trans h.row, h'.pages.trans h.pages, h'.batches.trans h.batches,
    h'.outcomes.trans h.outcomes⟩

theorem SameContent.frozen (h : SameContent m m')
    (hrow : m'.lineageRow lineage = m.lineageRow lineage) : Frozen lineage m m' := by
  refine ⟨hrow, ?_, ?_, ?_⟩
  · rw [pagesOf, h.pages, pagesOf]
  · rw [h.batches]
  · rw [h.outcomes]

/-! ## Rows -/

variable {f : Lineage → Lineage}

theorem lineageRow_of_update {p : Lineage → Bool} (hf : ∀ l, (f l).lineage = l.lineage)
    (h : m'.lineages = update p f m.lineages) (lineage : Uuid) :
    m'.lineageRow lineage = (m.lineageRow lineage).map fun l => if p l then f l else l := by
  rw [lineageRow, h]
  exact find?_update hf p m.lineages lineage

theorem lineageRow_updateLineage (hf : ∀ l, (f l).lineage = l.lineage) (m : Manifest)
    (other lineage : Uuid) :
    (m.updateLineage other f).lineageRow lineage =
      (m.lineageRow lineage).map fun l => if l.lineage == other then f l else l :=
  lineageRow_of_update hf rfl lineage

theorem lineageRow_rejectAll (hl : m.lineageRow lineage = some l) (hstatus : l.status ≠ .active)
    {lineages : List Uuid} (h : m.rejectAll lineages = .ok m') :
    m'.lineageRow lineage = some l := by
  rw [rejectAll_ok h, lineageRow_of_update (fun l => (Lineage.reject_kept l).1) rfl lineage, hl,
    Option.map_some]
  have hsame : l.reject = l := by simp [Lineage.reject, hstatus]
  simp [hsame]

theorem lineageRow_createLineage (hl : m.lineageRow lineage = some l) {now : Time}
    {identity : LineageIdentity} {id : Option Uuid} {created : Uuid}
    (h : m.createLineage now identity id = .ok (created, m')) :
    m'.lineageRow lineage = some l := by
  rcases (createLineage_ok h).2 with ⟨rfl, -⟩ | ⟨-, rfl⟩
  · exact hl
  · have hfind : m.lineages.find? (fun r => r.lineage == lineage) = some l := hl
    simp [lineageRow, List.find?_append, hfind]

theorem lineageRow_resolve (hl : m.lineageRow lineage = some l) (hstatus : l.status ≠ .active)
    {now : Time} {spec : LibraryLineageSpec} {datasets : List DatasetKey}
    {resolved : ResolvedLibraryLineage}
    (h : m.resolveLibraryLineage lib now spec datasets = .ok (resolved, m')) :
    m'.lineageRow lineage = some l :=
  resolve_induction (P := fun t => t.lineageRow lineage = some l) h hl
    (fun hreject hrow => lineageRow_rejectAll hrow hstatus hreject)
    (fun hcreate hrow => lineageRow_createLineage hrow hcreate) fun hrow => hrow

variable {other : Uuid}

theorem lineageRow_opened (m : Manifest) (hother : other ≠ lineage)
    (p : PageCommit) : (m.opened other p).lineageRow lineage = m.lineageRow lineage := by
  unfold opened
  split
  · refine (lineageRow_updateLineage (fun l => ?_) m other lineage).trans ?_
    · split <;> rfl
    · refine (Option.map_congr fun l hl => ?_).trans Option.map_id'
      have hid : l.lineage = lineage := beq_iff_eq.mp (mem_of_find? hl).2
      rw [if_neg (by simp [hid, Ne.symm hother])]
  · rfl

theorem lineageRow_of_seal (m : Manifest) (other : Uuid) (status : LineageStatus)
    (checksum : Digest) (lineage : Uuid) :
    (m.sealLineage other status checksum).lineageRow lineage =
      (m.lineageRow lineage).map fun l =>
        if l.lineage == other then { l with status, checksum := some checksum } else l :=
  lineageRow_updateLineage (f := fun l => { l with status, checksum := some checksum })
    (fun _ => rfl) m other lineage

theorem lineageRow_sealLineage (m : Manifest) (hother : other ≠ lineage) (status : LineageStatus)
    (checksum : Digest) :
    (m.sealLineage other status checksum).lineageRow lineage = m.lineageRow lineage := by
  rw [lineageRow_of_seal]
  refine (Option.map_congr fun l hl => ?_).trans Option.map_id'
  have hid : l.lineage = lineage := beq_iff_eq.mp (mem_of_find? hl).2
  rw [if_neg (by simp [hid, Ne.symm hother])]

theorem lineageRow_sealLineage_self (hl : m.lineageRow lineage = some l) (status : LineageStatus)
    (checksum : Digest) :
    (m.sealLineage lineage status checksum).lineageRow lineage =
      some { l with status, checksum := some checksum } := by
  have hid : l.lineage = lineage := beq_iff_eq.mp (mem_of_find? hl).2
  rw [lineageRow_of_seal, hl, Option.map_some, if_pos (by simp [hid])]

theorem lineageRow_step (hl : m.lineageRow lineage = some l) (hstatus : l.status ≠ .active)
    (a : ManifestAction) : (m.step lib a).lineageRow lineage = some l := by
  cases a with
  | resolve now spec datasets =>
    exact attempt_induction (P := fun t : Manifest => t.lineageRow lineage = some l) hl
      fun resolved m' h => lineageRow_resolve hl hstatus h
  | create now identity id =>
    exact attempt_induction (P := fun t : Manifest => t.lineageRow lineage = some l) hl
      fun created m' h => lineageRow_createLineage hl h
  | commit other p =>
    refine attempt_induction (P := fun t : Manifest => t.lineageRow lineage = some l) hl
      fun new m' h => ?_
    obtain ⟨⟨l', hl', hactive, -⟩, hcases⟩ := commitPage_ok h
    have hother : other ≠ lineage := by
      rintro rfl
      obtain rfl := Option.some.inj (hl.symm.trans hl')
      exact hstatus hactive
    rcases hcases with ⟨-, -, rfl⟩ | ⟨-, -, happended⟩
    · exact (lineageRow_opened m hother p).trans hl
    · rw [lineageRow, happended.lineages]
      exact (lineageRow_opened m hother p).trans hl
  | complete other expected checksum =>
    refine attempt_induction (P := fun t : Manifest => t.lineageRow lineage = some l) hl
      fun new m' h => ?_
    obtain ⟨l', hl', ⟨-, -, rfl⟩ | ⟨hactive, -, -, -, -, -, rfl⟩⟩ := completeLineage_ok h
    · exact hl
    · refine (lineageRow_sealLineage m ?_ .completed checksum).trans hl
      rintro rfl
      obtain rfl := Option.some.inj (hl.symm.trans hl')
      exact hstatus hactive
  | completeLimited other checksum =>
    refine attempt_induction (P := fun t : Manifest => t.lineageRow lineage = some l) hl
      fun new m' h => ?_
    obtain ⟨l', hl', ⟨-, -, rfl⟩ | ⟨hactive, -, rfl⟩⟩ := completeLimitedLineage_ok h
    · exact hl
    · refine (lineageRow_sealLineage m ?_ .limited checksum).trans hl
      rintro rfl
      obtain rfl := Option.some.inj (hl.symm.trans hl')
      exact hstatus hactive
  | prepare | publish | finish =>
    exact onDataset_induction (P := fun t : Manifest => t.lineageRow lineage = some l) trivial
      fun _ _ => hl

/-! ## Completions -/

/-- A lineage that is completed was completed before. -/
def NoneCompleted (lineage : Uuid) (m m' : Manifest) : Prop :=
  ∀ l', m'.lineageRow lineage = some l' → l'.status = .completed → m.lineageRow lineage = some l'

theorem NoneCompleted.refl (lineage : Uuid) (m : Manifest) : NoneCompleted lineage m m :=
  fun _ h _ => h

theorem NoneCompleted.trans {m'' : Manifest} (h : NoneCompleted lineage m m')
    (h' : NoneCompleted lineage m' m'') : NoneCompleted lineage m m'' :=
  fun l' hl' hstatus => h l' (h' l' hl' hstatus) hstatus

theorem noneCompleted_of_lineages (h : m'.lineages = m.lineages) : NoneCompleted lineage m m' := by
  intro l' hl' _
  rwa [lineageRow, h] at hl'

/-- An update completes no lineage if it changes only rows that are not completed by it. -/
theorem noneCompleted_of_update {p : Lineage → Bool} (hf : ∀ l, (f l).lineage = l.lineage)
    (hkeep : ∀ l, p l = true → m.lineageRow lineage = some l → (f l).status = .completed → f l = l)
    (h : m'.lineages = update p f m.lineages) : NoneCompleted lineage m m' := by
  intro l' hl' hstatus
  rw [lineageRow_of_update hf h] at hl'
  obtain ⟨l, hl, rfl⟩ := Option.map_eq_some_iff.mp hl'
  by_cases hp : p l = true
  · rw [if_pos hp] at hstatus ⊢
    rw [hkeep l hp hl hstatus]
    exact hl
  · rw [if_neg hp]
    exact hl

theorem noneCompleted_rejectAll {lineages : List Uuid} (h : m.rejectAll lineages = .ok m') :
    NoneCompleted lineage m m' := by
  rw [rejectAll_ok h]
  refine noneCompleted_of_update (fun l => (Lineage.reject_kept l).1) (fun l _ _ hstatus => ?_) rfl
  unfold Lineage.reject at hstatus ⊢
  split
  · next hactive =>
    rw [if_pos hactive] at hstatus
    exact absurd hstatus (by simp)
  · rfl

theorem noneCompleted_createLineage {now : Time} {identity : LineageIdentity} {id : Option Uuid}
    {created : Uuid} (h : m.createLineage now identity id = .ok (created, m')) :
    NoneCompleted lineage m m' := by
  rcases (createLineage_ok h).2 with ⟨rfl, -⟩ | ⟨-, rfl⟩
  · exact .refl lineage _
  · intro l' hl' hstatus
    rw [lineageRow, List.find?_append] at hl'
    rcases Option.or_eq_some_iff.mp hl' with hold | ⟨-, hnew⟩
    · exact hold
    · obtain ⟨hmem, -⟩ := mem_of_find? hnew
      rw [List.mem_singleton.mp hmem] at hstatus
      exact absurd hstatus (by simp)

theorem noneCompleted_resolve {now : Time} {spec : LibraryLineageSpec} {datasets : List DatasetKey}
    {resolved : ResolvedLibraryLineage}
    (h : m.resolveLibraryLineage lib now spec datasets = .ok (resolved, m')) :
    NoneCompleted lineage m m' :=
  resolve_induction h (.refl lineage m)
    (fun hreject hnone => hnone.trans (noneCompleted_rejectAll hreject))
    (fun hcreate hnone => hnone.trans (noneCompleted_createLineage hcreate))
    fun hnone => hnone.trans (noneCompleted_of_lineages rfl)

theorem noneCompleted_opened {p : PageCommit} (hopen : m.OpenFor other p) :
    NoneCompleted lineage m (m.opened other p) := by
  unfold opened
  split
  · refine noneCompleted_of_update (fun l => ?_) (fun l hp hl hstatus => ?_) rfl
    · split <;> rfl
    · obtain ⟨l', hl', hactive, -⟩ := hopen.active
      obtain rfl : lineage = other := by
        have hid : l.lineage = lineage := beq_iff_eq.mp (mem_of_find? hl).2
        rw [← hid]
        exact beq_iff_eq.mp hp
      obtain rfl := Option.some.inj (hl.symm.trans hl')
      split at hstatus
      · exact absurd (hactive.symm.trans hstatus) (by simp)
      · exact absurd (hactive.symm.trans hstatus) (by simp)
  · exact .refl lineage m

/-- **Only `complete_lineage` completes a lineage.** -/
theorem noneCompleted_step (m : Manifest) (a : ManifestAction) :
    NoneCompleted lineage m (m.step lib a) ∨ ∃ expected checksum new,
      a = .complete lineage expected checksum ∧
        m.completeLineage lineage expected checksum = .ok (new, m.step lib a) := by
  cases a with
  | resolve now spec datasets =>
    exact Or.inl (attempt_induction (.refl lineage m) fun resolved m' h => noneCompleted_resolve h)
  | create now identity id =>
    exact Or.inl
      (attempt_induction (.refl lineage m) fun created m' h => noneCompleted_createLineage h)
  | commit other p =>
    refine Or.inl (attempt_induction (.refl lineage m) fun new m' h => ?_)
    obtain ⟨hopen, ⟨-, -, rfl⟩ | ⟨-, -, happended⟩⟩ := commitPage_ok h
    · exact noneCompleted_opened hopen
    · exact (noneCompleted_opened hopen).trans (noneCompleted_of_lineages happended.lineages)
  | complete other expected checksum =>
    rcases attempt_cases m (m.completeLineage other expected checksum) with hsame | ⟨new, hok⟩
    · left
      have hstep : m.step lib (.complete other expected checksum) = m := hsame
      rw [hstep]
      exact .refl lineage m
    · have hstep : m.completeLineage other expected checksum =
          .ok (new, m.step lib (.complete other expected checksum)) := hok
      obtain ⟨l, hl, ⟨-, -, hsame⟩ | ⟨hactive, -, -, -, -, -, hseal⟩⟩ := completeLineage_ok hstep
      · rw [hsame]
        exact Or.inl (.refl lineage m)
      · by_cases hother : other = lineage
        · subst hother
          exact Or.inr ⟨expected, checksum, new, rfl, hstep⟩
        · left
          intro l' hl' _
          rwa [hseal, lineageRow_sealLineage m hother] at hl'
  | completeLimited other checksum =>
    refine Or.inl (attempt_induction (.refl lineage m) fun new m' h => ?_)
    obtain ⟨l, -, ⟨-, -, rfl⟩ | ⟨-, -, rfl⟩⟩ := completeLimitedLineage_ok h
    · exact .refl lineage _
    · exact noneCompleted_of_update
        (f := fun l => { l with status := .limited, checksum := some checksum }) (fun _ => rfl)
        (fun l _ _ hstatus => absurd hstatus (by simp)) rfl
  | prepare | publish | finish =>
    exact Or.inl (onDataset_induction trivial fun _ _ => noneCompleted_of_lineages rfl)

/-! ## Contents -/

theorem Appended.frozen {p : PageCommit} (h : m.Appended other p m') (hother : other ≠ lineage)
    (hrow : m'.lineageRow lineage = m.lineageRow lineage) : Frozen lineage m m' := by
  refine ⟨hrow, ?_, ?_, ?_⟩
  · rw [pagesOf, h.pages, List.filter_append, pagesOf]
    simp [PageCommit.row, PageCommit.ref, hother]
  · rw [h.batches, List.filter_append]
    simp [PageCommit.ref, hother, List.filter_map, Function.comp_def]
  · rw [h.outcomes, List.filter_append]
    simp [PageCommit.ref, hother, List.filter_map, Function.comp_def]

/-- **A lineage that is not active never changes.** -/
theorem frozen_step (hl : m.lineageRow lineage = some l) (hstatus : l.status ≠ .active)
    (a : ManifestAction) : Frozen lineage m (m.step lib a) := by
  have hrow : (m.step lib a).lineageRow lineage = m.lineageRow lineage :=
    (lineageRow_step hl hstatus a).trans hl.symm
  rcases content_step lib m a with hsame | ⟨other, p, -, -, hopen, -, happended⟩
  · exact hsame.frozen hrow
  · refine happended.frozen ?_ hrow
    rintro rfl
    obtain ⟨l', hl', hactive, -⟩ := hopen.active
    obtain rfl := Option.some.inj (hl.symm.trans hl')
    exact hstatus hactive

theorem frozen_exec (hl : m.lineageRow lineage = some l) (hstatus : l.status ≠ .active)
    (actions : List ManifestAction) :
    Frozen lineage m (Trace.exec (step lib) m actions) := by
  refine Trace.exec_invariant (step lib) (I := fun t => Frozen lineage m t) (fun t a h => ?_)
    (.refl lineage m) actions
  exact h.trans (frozen_step (h.row.trans hl) hstatus a)

namespace Frozen

variable (h : Frozen lineage m m')

include h

theorem partitionPages (partitionKey : String) :
    m'.partitionPages lineage partitionKey = m.partitionPages lineage partitionKey := by
  have hsplit : ∀ t : Manifest, t.partitionPages lineage partitionKey =
      (t.pagesOf lineage).filter fun q => q.ref.partitionKey == partitionKey := by
    intro t
    rw [Manifest.partitionPages, pagesOf, List.filter_filter]
    exact List.filter_congr fun q _ => Bool.and_comm _ _
  rw [hsplit, hsplit, h.pages]

theorem reconstructBatches (key : DatasetKey) :
    m'.reconstructBatches lineage key = m.reconstructBatches lineage key := by
  have hsplit : ∀ t : Manifest, (t.batches.filter fun b =>
        b.page.lineage == lineage && b.batch.key == key) =
      (t.batches.filter fun b => b.page.lineage == lineage).filter fun b => b.batch.key == key := by
    intro t
    rw [List.filter_filter]
    exact List.filter_congr fun b _ => Bool.and_comm _ _
  rw [Manifest.reconstructBatches, Manifest.reconstructBatches, h.row, hsplit, hsplit, h.batches]

theorem lineageChecksum : m'.lineageChecksum lib lineage = m.lineageChecksum lib lineage := by
  rw [Manifest.lineageChecksum, Manifest.lineageChecksum, h.row, h.pages, h.batches, h.outcomes]

end Frozen

end Manifest

end CommerceCollector
