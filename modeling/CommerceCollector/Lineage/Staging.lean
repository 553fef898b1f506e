import CommerceCollector.Lineage.Retirement

/-!
# Staging a page again

An attempt that dies between the staging of a page and its commit leaves the staged files.  The next
attempt fetches the page again, and `stage_batch` compares what it writes with the file that is
there: the same lines are accepted, and other lines are refused, because a staged batch is
immutable.  The refused dataset has failed, the page is committed without it, and the file stays
(`staged_again`).
-/

namespace CommerceCollector

open Relational Transaction

variable {codec : ArtifactCodec} {projection : Projection} {lineage : String} {page : EntityPage}

/-- The batches of a dataset that a round has staged. -/
def Staged.batchesOf (s : Staged) (key : DatasetKey) : List StoredBatch :=
  s.batches.filter fun b => b.pageBatch.key == key

/-- The outcomes of a dataset in a round. -/
def Staged.outcomesOf (s : Staged) (key : DatasetKey) : List DatasetOutcome :=
  s.outcomes.filter fun o => o.key == key

/-- What a round leaves alone of a dataset. -/
structure Staged.SameFor (key : DatasetKey) (s s' : Staged) : Prop where
  files : Extends s.files s'.files
  failed : key ∈ s'.failed ↔ key ∈ s.failed
  batches : s'.batchesOf key = s.batchesOf key
  outcomes : s'.outcomesOf key = s.outcomesOf key

theorem Staged.SameFor.refl (key : DatasetKey) (s : Staged) : s.SameFor key s :=
  ⟨.refl _, Iff.rfl, rfl, rfl⟩

theorem Staged.SameFor.trans {key : DatasetKey} {s s' s'' : Staged} (h : s.SameFor key s')
    (h' : s'.SameFor key s'') : s.SameFor key s'' :=
  ⟨h.files.trans h'.files, h'.failed.trans h.failed, h'.batches.trans h.batches,
    h'.outcomes.trans h.outcomes⟩

theorem key_pageBatch {batch : StoredBatch} {jobId : String} {key : DatasetKey}
    (h : batch.identity = page.identity jobId lineage key) : batch.pageBatch.key = key := by
  rw [StoredBatch.pageBatch, h]
  rfl

theorem stageDataset_other {key other : DatasetKey} (hother : other ≠ key) (s : Staged) :
    s.SameFor key (stageDataset codec projection lineage page s other) := by
  unfold stageDataset
  split
  · exact ⟨.refl _, Iff.rfl, rfl, by simp [Staged.outcomesOf, hother]⟩
  · split
    · exact ⟨.refl _, by simp [Ne.symm hother], rfl, by simp [Staged.outcomesOf, hother]⟩
    · next batch files hok =>
      obtain ⟨lines, f, -, hextends, hidentity, -⟩ := stageBatch_ok hok
      refine ⟨hextends, Iff.rfl, ?_, by simp [Staged.outcomesOf, hother]⟩
      simp [Staged.batchesOf, key_pageBatch hidentity, hother]

theorem foldl_stageDataset_other {key : DatasetKey} {datasets : List DatasetKey}
    (h : key ∉ datasets) (s : Staged) :
    s.SameFor key (datasets.foldl (stageDataset codec projection lineage page) s) := by
  induction datasets generalizing s with
  | nil => exact .refl key s
  | cons other datasets ih =>
    have hother : other ≠ key := fun heq => h (by simp [heq])
    rw [List.foldl_cons]
    exact (stageDataset_other hother s).trans (ih (fun hmem => h (List.mem_cons_of_mem _ hmem)) _)

/-- The batch describes a file that holds the lines. -/
def PageBatch.Describes (codec : ArtifactCodec) (files : List StoredFile) (b : PageBatch)
    (lines : List Json) : Prop :=
  fileAt files b.objectKey = some ⟨b.objectKey, lines⟩ ∧ b.sha256 = codec.fileSha256 lines ∧
    b.size = codec.fileSize lines ∧ b.records = lines.length

/-! ## The dataset itself -/

section Again

variable {key : DatasetKey} {r₁ r₂ : List Json}

/-- The location of the batch of a dataset page. -/
def EntityPage.stagedAt (page : EntityPage) (codec : ArtifactCodec) (projection : Projection)
    (lineage : String) (key : DatasetKey) : String :=
  codec.stagedLocation (page.identity projection.jobId lineage key)

/-- Staging the records of a page whose file is there: the file is compared with them. -/
theorem stageBatch_again {files : List StoredFile} {identity : BatchIdentity}
    {records : Except String (List Json)} (hrecords : records = .ok r₂)
    (hcomponents : codec.components identity = .ok ())
    (hfile : fileAt files (codec.stagedLocation identity) =
      some ⟨codec.stagedLocation identity, r₁⟩) :
    stageBatch codec files identity records =
      if codec.fileSha256 r₁ = codec.fileSha256 r₂ then
        .ok (⟨⟨codec.stagedLocation identity, codec.fileSha256 r₁, codec.fileSize r₁, r₂.length⟩,
          identity⟩, files)
      else .error ("staged batch changed for " ++ codec.identityRepr identity) := by
  unfold stageBatch
  rw [hcomponents, hrecords]
  by_cases hsha : codec.fileSha256 r₁ = codec.fileSha256 r₂
  · simp only [bind, Except.bind, hfile, require, if_pos hsha]
    rfl
  · simp only [bind, Except.bind, hfile, require, if_neg hsha]

/-- The round after the dataset was staged again: the batch is accepted, or the dataset has
failed. -/
structure Staged.Accepts (codec : ArtifactCodec) (key : DatasetKey) (lines : List Json)
    (s : Staged) : Prop where
  batch : ∃ b, s.batchesOf key = [b] ∧ b.pageBatch.Describes codec s.files lines
  outcome : s.outcomesOf key = [⟨key, .succeeded, lines.length, none⟩]

/-- The round after the dataset was refused. -/
structure Staged.Refuses (key : DatasetKey) (message : String) (s : Staged) : Prop where
  batch : s.batchesOf key = []
  outcome : s.outcomesOf key = [⟨key, .failed, 0, some message⟩]

theorem Staged.Accepts.same {s s' : Staged} (h : s.Accepts codec key r₁) (hs : s.SameFor key s') :
    s'.Accepts codec key r₁ := by
  obtain ⟨b, hb, hfile, hdescribes⟩ := h.batch
  refine ⟨⟨b, hs.batches.trans hb, hs.files _ _ hfile, hdescribes⟩, ?_⟩
  rw [hs.outcomes]
  exact h.outcome

theorem Staged.Refuses.same {s s' : Staged} {message : String} (h : s.Refuses key message)
    (hs : s.SameFor key s') : s'.Refuses key message :=
  ⟨hs.batches.trans h.batch, hs.outcomes.trans h.outcome⟩

variable (hcomponents : codec.components (page.identity projection.jobId lineage key) = .ok ())
  (hrecords : projection.records key page.items = .ok r₂)

include hcomponents hrecords

theorem stageDataset_again {s : Staged} (hfailed : key ∉ s.failed)
    (hbatches : s.batchesOf key = []) (houtcomes : s.outcomesOf key = [])
    (hfile : fileAt s.files (page.stagedAt codec projection lineage key) =
      some ⟨page.stagedAt codec projection lineage key, r₁⟩) :
    (r₁ = r₂ → (stageDataset codec projection lineage page s key).Accepts codec key r₂) ∧
      (codec.fileSha256 r₁ ≠ codec.fileSha256 r₂ →
        (stageDataset codec projection lineage page s key).Refuses key
          ("staged batch changed for " ++
            codec.identityRepr (page.identity projection.jobId lineage key))) := by
  have hstage := stageBatch_again hrecords hcomponents hfile
  constructor
  · rintro rfl
    rw [if_pos rfl] at hstage
    let batch : StoredBatch :=
      ⟨⟨page.stagedAt codec projection lineage key, codec.fileSha256 r₁, codec.fileSize r₁,
        r₁.length⟩, page.identity projection.jobId lineage key⟩
    have hstep : stageDataset codec projection lineage page s key =
        { s with
          batches := s.batches ++ [batch]
          outcomes := s.outcomes ++ [⟨key, .succeeded, r₁.length, none⟩] } := by
      unfold stageDataset
      rw [if_neg hfailed, hstage]
      rfl
    have hkey : batch.pageBatch.key = key := key_pageBatch rfl
    rw [hstep]
    refine ⟨⟨batch, ?_, hfile, rfl, rfl, rfl⟩, ?_⟩
    · rw [Staged.batchesOf] at hbatches ⊢
      rw [List.filter_append, hbatches]
      simp [hkey]
    · rw [Staged.outcomesOf] at houtcomes ⊢
      rw [List.filter_append, houtcomes]
      simp
  · intro hsha
    rw [if_neg hsha] at hstage
    unfold stageDataset
    rw [if_neg hfailed, hstage]
    refine ⟨hbatches, ?_⟩
    rw [Staged.outcomesOf] at houtcomes ⊢
    rw [List.filter_append, houtcomes]
    simp

/-- **A page is staged again.**  The dataset is accepted if its records have not changed, and
refused if its file has another digest. -/
theorem stagePage_again {files : List StoredFile} {failed datasets : List DatasetKey}
    (hnodup : datasets.Nodup) (hkey : key ∈ datasets) (hfailed : key ∉ failed)
    (hfile : fileAt files (page.stagedAt codec projection lineage key) =
      some ⟨page.stagedAt codec projection lineage key, r₁⟩) :
    (r₁ = r₂ →
        (stagePage codec projection lineage datasets page files failed).Accepts codec key r₂) ∧
      (codec.fileSha256 r₁ ≠ codec.fileSha256 r₂ →
        (stagePage codec projection lineage datasets page files failed).Refuses key
          ("staged batch changed for " ++
            codec.identityRepr (page.identity projection.jobId lineage key))) := by
  obtain ⟨pre, post, rfl⟩ := List.append_of_mem hkey
  have hpre : key ∉ pre := fun hmem =>
    (List.disjoint_of_nodup_append hnodup) hmem (by simp)
  have hpost : key ∉ post := (List.nodup_cons.mp (List.nodup_append.mp hnodup).2.1).1
  have hbefore : Staged.SameFor key { files, failed }
      (pre.foldl (stageDataset codec projection lineage page) { files, failed }) :=
    foldl_stageDataset_other hpre _
  have hat := stageDataset_again hcomponents hrecords
    (fun hmem => hfailed (hbefore.failed.mp hmem)) hbefore.batches hbefore.outcomes
    (hbefore.files _ _ hfile)
  rw [stagePage, List.foldl_append, List.foldl_cons]
  exact ⟨fun heq => (hat.1 heq).same (foldl_stageDataset_other hpost _),
    fun hne => (hat.2 hne).same (foldl_stageDataset_other hpost _)⟩

end Again

/-! ## The page is committed -/

/-- The reference of a page of a connector. -/
def EntityPage.ref (page : EntityPage) (lineage : Uuid) : PageRef :=
  ⟨lineage, page.partitionKey, page.pageId, page.sequence⟩

namespace Manifest

/-- The batches of a page and a dataset. -/
def batchesAt (m : Manifest) (page : PageRef) (key : DatasetKey) : List PageBatch :=
  (m.batches.filter fun b => b.page == page && b.batch.key == key).map BatchRow.batch

/-- The outcomes of a page and a dataset. -/
def outcomesAt (m : Manifest) (page : PageRef) (key : DatasetKey) : List DatasetOutcome :=
  (m.outcomes.filter fun o => o.page == page && o.outcome.key == key).map OutcomeRow.outcome

theorem appended_rows {m m' : Manifest} (hordered : m.PagesOrdered) {lineage : Uuid}
    {page : EntityPage} {version : String} {dynamic : Bool} {staged : Staged}
    (h : m.Appended lineage (page.commit version dynamic staged.batches staged.outcomes) m')
    (hfresh : m.pages.find? (fun q => q.ref.names lineage
      (page.commit version dynamic staged.batches staged.outcomes)) = none) (key : DatasetKey) :
    m'.batchesAt (page.ref lineage) key =
        (staged.batchesOf key).map StoredBatch.pageBatch ∧
      m'.outcomesAt (page.ref lineage) key = staged.outcomesOf key := by
  have hother : ∀ q ∈ m.pages, q.ref ≠ page.ref lineage := by
    intro q hq heq
    have hnot := List.find?_eq_none.mp hfresh q hq
    rw [heq] at hnot
    exact hnot (by simp [PageRef.names, EntityPage.ref, EntityPage.commit])
  have hbatches : m.batches.filter
      (fun b => b.page == page.ref lineage && b.batch.key == key) = [] := by
    refine List.filter_eq_nil_iff.mpr fun b hb => ?_
    obtain ⟨q, hq, href⟩ := hordered.batches b hb
    simp [← href, hother q hq]
  have houtcomes : m.outcomes.filter
      (fun o => o.page == page.ref lineage && o.outcome.key == key) = [] := by
    refine List.filter_eq_nil_iff.mpr fun o ho => ?_
    obtain ⟨q, hq, href⟩ := hordered.outcomes o ho
    simp [← href, hother q hq]
  constructor
  · rw [batchesAt, h.batches, List.filter_append, hbatches, List.nil_append]
    simp [List.filter_map, Function.comp_def, EntityPage.ref, PageCommit.ref, EntityPage.commit,
      Staged.batchesOf]
  · rw [outcomesAt, h.outcomes, List.filter_append, houtcomes, List.nil_append]
    simp [List.filter_map, Function.comp_def, EntityPage.ref, PageCommit.ref, EntityPage.commit,
      PageCommit.committedOutcomes, Staged.outcomesOf]

end Manifest

namespace Canary

variable {rt : CanaryRuntime} {s : Canary} {plan : CollectionPlan} {lineage : Uuid}
  {run : PipelineRun} {page : EntityPage}

theorem exec_page_commit
    (hattempt : s.attempt = some ⟨plan, lineage, .collecting run⟩)
    (hcommit : (Trace.exec (Canary.step rt) s [.page page, .commit]).attempt ≠ none) :
    let staged := stagePage rt.codec rt.projection (rt.codec.uuidText lineage) plan.datasets page
      s.files run.failed
    (Trace.exec (Canary.step rt) s [.page page, .commit]).files = staged.files ∧
      ∃ new, s.manifest.commitPage lineage (page.commit plan.connectorVersion plan.dynamic
        staged.batches staged.outcomes) =
          .ok (new, (Trace.exec (Canary.step rt) s [.page page, .commit]).manifest) := by
  intro staged
  revert hcommit
  rw [Trace.exec_cons, Trace.exec_cons, Trace.exec_nil]
  have hpage : s.step rt (.page page) = s.leave ∨ s.step rt (.page page) =
      { s with
        files := staged.files
        attempt := some ⟨plan, lineage, .committing run page staged⟩ } := by
    simp only [step, hattempt]
    split
    · exact Or.inl rfl
    · exact Or.inr rfl
  rcases hpage with hleave | hstaged
  · intro hcommit
    rw [hleave] at hcommit
    exact absurd rfl hcommit
  · rw [hstaged]
    simp only [step]
    split
    · intro hcommit
      exact absurd rfl hcommit
    · next new m hok => exact fun _ => ⟨rfl, new, hok⟩

/-- **A page is staged again after a crash.**  The staged file of the uncommitted page holds `r₁`,
and the records of the page are now `r₂`.  Unchanged records are accepted: the outcome is
succeeded, and the committed batch describes the file that holds them.  Records of another digest
are refused: the outcome is failed, no batch is committed, and the file stays. -/
theorem staged_again (rt : CanaryRuntime) (actions : List CanaryAction) (page : EntityPage)
    (key : DatasetKey) (r₁ r₂ : List Json)
    (hattempt : (after rt actions).attempt = some ⟨plan, lineage, .collecting run⟩)
    (hkey : key ∈ plan.datasets) (hfailed : key ∉ run.failed)
    (hcomponents : rt.codec.components
      (page.identity rt.projection.jobId (rt.codec.uuidText lineage) key) = .ok ())
    (hrecords : rt.projection.records key page.items = .ok r₂)
    (hfile : fileAt (after rt actions).files
        (page.stagedAt rt.codec rt.projection (rt.codec.uuidText lineage) key) =
      some ⟨page.stagedAt rt.codec rt.projection (rt.codec.uuidText lineage) key, r₁⟩)
    (hfresh : ∀ q ∈ (after rt actions).manifest.pages, ¬ (q.ref.lineage = lineage ∧
      q.ref.partitionKey = page.partitionKey ∧ q.ref.pageId = page.pageId))
    (hcommit : (after rt (actions ++ [CanaryAction.page page, CanaryAction.commit])).attempt ≠ none) :
    (r₁ = r₂ →
      ∃ b, (after rt (actions ++ [CanaryAction.page page, CanaryAction.commit])).manifest.batchesAt (page.ref lineage) key =
          [b] ∧
        b.Describes rt.codec (after rt (actions ++ [CanaryAction.page page, CanaryAction.commit])).files r₂ ∧
        (after rt (actions ++ [CanaryAction.page page, CanaryAction.commit])).manifest.outcomesAt (page.ref lineage) key =
          [⟨key, .succeeded, r₂.length, none⟩]) ∧
      (rt.codec.fileSha256 r₁ ≠ rt.codec.fileSha256 r₂ →
        (after rt (actions ++ [CanaryAction.page page, CanaryAction.commit])).manifest.batchesAt (page.ref lineage) key =
            [] ∧
          (after rt (actions ++ [CanaryAction.page page, CanaryAction.commit])).manifest.outcomesAt (page.ref lineage) key =
            [⟨key, .failed, 0, some ("staged batch changed for " ++ rt.codec.identityRepr
              (page.identity rt.projection.jobId (rt.codec.uuidText lineage) key))⟩] ∧
          fileAt (after rt (actions ++ [CanaryAction.page page, CanaryAction.commit])).files
              (page.stagedAt rt.codec rt.projection (rt.codec.uuidText lineage) key) =
            some ⟨page.stagedAt rt.codec rt.projection (rt.codec.uuidText lineage) key, r₁⟩) := by
  have hafter : after rt (actions ++ [CanaryAction.page page, CanaryAction.commit]) =
      Trace.exec (step rt) (after rt actions) [.page page, .commit] := Trace.exec_append ..
  rw [hafter] at hcommit ⊢
  obtain ⟨hfiles, new, hok⟩ := exec_page_commit hattempt hcommit
  obtain ⟨calls, hcalls⟩ := exists_after_manifest rt actions
  have hordered : (after rt actions).manifest.PagesOrdered :=
    hcalls ▸ Manifest.after_pagesOrdered rt.lib calls
  have hstaged := stagePage_again hcomponents hrecords plan.datasets_nodup hkey hfailed hfile
  have hextends : Extends (after rt actions).files (stagePage rt.codec rt.projection
      (rt.codec.uuidText lineage) plan.datasets page (after rt actions).files run.failed).files :=
    extends_stagePage rt.projection _ _ page _ _
  have hnone : (after rt actions).manifest.pages.find? (fun q => q.ref.names lineage
      (page.commit plan.connectorVersion plan.dynamic
        (stagePage rt.codec rt.projection (rt.codec.uuidText lineage) plan.datasets page
          (after rt actions).files run.failed).batches
        (stagePage rt.codec rt.projection (rt.codec.uuidText lineage) plan.datasets page
          (after rt actions).files run.failed).outcomes)) = none := by
    refine List.find?_eq_none.mpr fun q hq hnames => hfresh q hq ?_
    simpa [PageRef.names, EntityPage.commit, and_assoc] using hnames
  obtain ⟨-, ⟨-, hreplays, -⟩ | ⟨-, hfollows, happended⟩⟩ := Manifest.commitPage_ok hok
  · rw [hreplays.page] at hnone
    exact absurd hnone (by simp)
  · obtain ⟨hbatches, houtcomes⟩ := Manifest.appended_rows hordered happended hnone key
    rw [hbatches, houtcomes, hfiles]
    constructor
    · intro hsame
      obtain ⟨⟨b, hb, hdescribes⟩, houtcome⟩ := hstaged.1 hsame
      exact ⟨b.pageBatch, by rw [hb]; rfl, hdescribes, houtcome⟩
    · intro hsha
      obtain ⟨hb, houtcome⟩ := hstaged.2 hsha
      exact ⟨by rw [hb]; rfl, houtcome, hextends _ _ hfile⟩

/-- An attempt dies between staging and commit, and the next one begins. -/
def shelfStaged : List CanaryAction :=
  [.resolve 1 shelfPlan, .page (shelfPage "2" 0 false), .crash, .resolve 2 shelfPlan]

/-- The attempt collects the lineage, and the dataset has not failed. -/
def Attempt.collects (lineage : Uuid) (key : DatasetKey) (a : Attempt) : Bool :=
  match a.stage with
  | .collecting run => a.lineage == lineage && a.plan.datasets.contains key && !run.failed.contains key
  | _ => false

/-- The same product is staged again and committed. -/
theorem shelf_staged_again :
    ∃ b, (after shelf (shelfStaged ++ [CanaryAction.page (shelfPage "2" 0 false), CanaryAction.commit])).manifest.batchesAt
        ((shelfPage "2" 0 false).ref 0) ⟨"ceramics.catalogue", "2", "1"⟩ = [b] ∧
      b.Describes shelf.codec
        (after shelf (shelfStaged ++ [CanaryAction.page (shelfPage "2" 0 false), CanaryAction.commit])).files [⟨"2"⟩] := by
  have hcollects : ((after shelf shelfStaged).attempt.any fun a =>
      Attempt.collects 0 ⟨"ceramics.catalogue", "2", "1"⟩ a) = true := by decide
  have hcommit : (after shelf (shelfStaged ++
      [CanaryAction.page (shelfPage "2" 0 false), CanaryAction.commit])).attempt.isSome = true := by decide
  have hpages : (after shelf shelfStaged).manifest.pages = [] := by decide
  obtain ⟨⟨plan, lineage, stage⟩, hattempt, hcollects⟩ :=
    (Option.any_eq_true _ _).mp hcollects
  cases stage with
  | collecting run =>
    simp only [Attempt.collects, Bool.and_eq_true, beq_iff_eq, List.contains_iff_mem,
      Bool.not_eq_true'] at hcollects
    obtain ⟨⟨rfl, hkey⟩, hfailed⟩ := hcollects
    have hcommitted : (after shelf (shelfStaged ++
        [.page (shelfPage "2" 0 false), .commit])).attempt ≠ none := by
      intro hnone
      rw [hnone] at hcommit
      exact absurd hcommit (by simp)
    obtain ⟨b, hb, hdescribes, -⟩ := (staged_again shelf shelfStaged (shelfPage "2" 0 false)
      ⟨"ceramics.catalogue", "2", "1"⟩ [⟨"2"⟩] [⟨"2"⟩] hattempt hkey (by simpa using hfailed) rfl
      rfl (by decide) (by simp [hpages]) hcommitted).1 rfl
    exact ⟨b, hb, hdescribes⟩
  | committing run page staged => exact absurd hcollects (by simp [Attempt.collects])
  | collected result => exact absurd hcollects (by simp [Attempt.collects])
  | publishing result todo published => exact absurd hcollects (by simp [Attempt.collects])

/-- The price of the product changed between the two attempts: the dataset fails. -/
theorem changed_page_refused :
    (after shelf (shelfStaged ++ [CanaryAction.page (shelfPage "3" 0 false), CanaryAction.commit])).manifest.outcomes.map
        (fun o => (o.outcome.state, o.outcome.error)) =
      [(.failed, some "staged batch changed for identity")] ∧
    (after shelf (shelfStaged ++ [CanaryAction.page (shelfPage "3" 0 false), CanaryAction.commit])).manifest.batches = [] := by
  decide

end Canary

end CommerceCollector
