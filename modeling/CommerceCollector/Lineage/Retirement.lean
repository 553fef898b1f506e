import CommerceCollector.Lineage.Canary
import CommerceCollector.Lineage.Sealed

/-!
# Retirement on the connector path

A load makes products inactive only if the result of its attempt is whole.  The result is computed
from the pages of the attempt alone, so a whole result says nothing about the pages that earlier
attempts have committed; these are checked when the lineage is completed.  `Enumerated` is what
`complete_lineage` has checked.  It holds of every completed lineage from then on
(`AllEnumerated`), under every plan that may go on with the lineage, because such a plan has the
same partitions.

`Canary.Sound` is the invariant of a run, and `retirement_whole` what follows for a load.
-/

namespace CommerceCollector

open Relational Transaction

/-! ## Completed lineages -/

/-- The digest of a collection covers its partitions. -/
def Library.CoversPartitions (lib : Library) : Prop :=
  ∀ (r r' : CollectionRequest) (connector : String) (options options' : Json) (d : Digest),
    lib.collectionFingerprint r connector options = some d →
      lib.collectionFingerprint r' connector options' = some d → r.partitions = r'.partitions

namespace CollectionPlan

variable {lib : Library} {plan plan' : CollectionPlan} {m m' : Manifest} {lineage : Uuid}

/-- The lineage was created for the collection of the plan. -/
structure Owns (lib : Library) (plan : CollectionPlan) (l : LineageIdentity) : Prop where
  connector : l.connector = plan.connector
  fingerprint : plan.spec.connectorConfigFingerprint lib = some l.connectorConfigFingerprint

theorem Owns.kept {l l' : LineageIdentity} (h : plan.Owns lib l) (hl : l'.frozen = l.frozen) :
    plan.Owns lib l' where
  connector := (congrArg LineageIdentity.connector hl).trans h.connector
  fingerprint := h.fingerprint.trans
    (congrArg some (congrArg LineageIdentity.connectorConfigFingerprint hl).symm)

theorem Owns.expectedPartitions_eq (hlib : lib.CoversPartitions) {l : LineageIdentity}
    (h : plan.Owns lib l) (h' : plan'.Owns lib l) (m : Manifest) (lineage : Uuid) :
    plan.expectedPartitions m lineage = plan'.expectedPartitions m lineage := by
  have hconnector : plan.connector = plan'.connector := h.connector.symm.trans h'.connector
  have hrequest : plan.request.partitions = plan'.request.partitions := by
    have hfirst := h.fingerprint
    have hsecond := h'.fingerprint
    unfold LibraryLineageSpec.connectorConfigFingerprint spec at hfirst hsecond
    dsimp only at hfirst hsecond
    rw [← hconnector] at hsecond
    exact hlib _ _ _ _ _ _ hfirst hsecond
  have hdynamic : plan.dynamic = plan'.dynamic := by rw [dynamic, dynamic, hconnector, hrequest]
  have hpartitions : plan.partitions = plan'.partitions := by
    rw [partitions, partitions, hrequest]
  rw [expectedPartitions, expectedPartitions, hdynamic, hpartitions]

theorem expectedPartitions_of_row (plan : CollectionPlan)
    (h : m'.lineageRow lineage = m.lineageRow lineage) :
    plan.expectedPartitions m' lineage = plan.expectedPartitions m lineage := by
  rw [expectedPartitions, expectedPartitions, Manifest.declaredPartitions,
    Manifest.declaredPartitions, h]

end CollectionPlan

namespace Manifest

variable {lib : Library} {m m' : Manifest} {lineage : Uuid} {l : Lineage}

/-- What `complete_lineage` checks: every page is intact, and every partition that a plan of the
lineage expects has ended. -/
structure Enumerated (lib : Library) (m : Manifest) (lineage : Uuid) (l : Lineage) : Prop where
  intact : ∀ q ∈ m.pagesOf lineage, q.enumerationIntact = true
  terminal : ∀ plan : CollectionPlan, plan.Owns lib l.identity →
    ∀ expected, plan.expectedPartitions m lineage = .ok expected →
      ∀ k ∈ expected, ∃ t ∈ m.partitionPages lineage k, t.terminal = true

/-- Every completed lineage is enumerated. -/
def AllEnumerated (lib : Library) (m : Manifest) : Prop :=
  ∀ lineage l, m.lineageRow lineage = some l → l.status = .completed → m.Enumerated lib lineage l

theorem Enumerated.frozen (h : m.Enumerated lib lineage l) (hf : Frozen lineage m m') :
    m'.Enumerated lib lineage l := by
  refine ⟨?_, fun plan hplan expected hexpected k hk => ?_⟩
  · rw [hf.pages]
    exact h.intact
  · rw [plan.expectedPartitions_of_row hf.row] at hexpected
    rw [hf.partitionPages]
    exact h.terminal plan hplan expected hexpected k hk

/-- A call after which a completed lineage was completed before keeps it enumerated. -/
theorem AllEnumerated.of_noneCompleted (h : m.AllEnumerated lib) (a : ManifestAction)
    (hnone : NoneCompleted lineage m (m.step lib a)) (hl : (m.step lib a).lineageRow lineage = some l)
    (hstatus : l.status = .completed) : (m.step lib a).Enumerated lib lineage l := by
  have hold : m.lineageRow lineage = some l := hnone l hl hstatus
  have hactive : l.status ≠ .active := by
    rw [hstatus]
    simp
  exact (h lineage l hold hstatus).frozen (frozen_step hold hactive a)

/-- Calls other than `complete_lineage` keep the completed lineages enumerated. -/
theorem AllEnumerated.advances (h : m.AllEnumerated lib) (hadv : Advances lib m m') :
    m'.AllEnumerated lib := by
  obtain ⟨calls, hcalls, rfl⟩ := hadv
  refine Trace.exec_invariant_of_along (step lib) (C := fun _ a => a.completes = false)
    (I := fun t => t.AllEnumerated lib) ?_ h
    (Trace.along_of_forall (step lib) (fun a ha _ => hcalls a ha) m)
  intro t a ha ht lineage l hl hstatus
  have hnone : NoneCompleted lineage t (t.step lib a) := by
    refine (noneCompleted_step t a).resolve_right ?_
    rintro ⟨expected, checksum, new, rfl, -⟩
    exact absurd ha (by simp [ManifestAction.completes])
  exact ht.of_noneCompleted a hnone hl hstatus

/-- **What a completion establishes.** -/
theorem AllEnumerated.complete (hlib : lib.CoversPartitions) (h : m.AllEnumerated lib)
    {plan : CollectionPlan} {expected : List String} {checksum : Digest} {new : Bool}
    (hrow : m.lineageRow lineage = some l) (hplan : plan.Owns lib l.identity)
    (hexpected : plan.expectedPartitions m lineage = .ok expected)
    (hok : m.completeLineage lineage expected checksum = .ok (new, m')) : m'.AllEnumerated lib := by
  have hstep : m.step lib (.complete lineage expected checksum) = m' := by
    simp only [step, hok, attempt]
  intro other l' hl' hstatus
  have hcases : NoneCompleted other m (m.step lib (.complete lineage expected checksum)) ∨ _ :=
    noneCompleted_step m (.complete lineage expected checksum)
  rcases hcases with hnone | ⟨_, _, _, heq, -⟩
  · rw [← hstep] at hl' ⊢
    exact h.of_noneCompleted _ hnone hl' hstatus
  · obtain ⟨rfl, -, -⟩ := ManifestAction.complete.inj heq
    obtain ⟨l₁, hl₁, hcases⟩ := completeLineage_ok hok
    obtain rfl := Option.some.inj (hrow.symm.trans hl₁)
    rcases hcases with ⟨-, -, rfl⟩ | ⟨-, -, -, hall, hintact, hterminal, rfl⟩
    · exact h lineage l' hl' hstatus
    · rw [lineageRow_sealLineage_self hrow] at hl'
      obtain rfl := Option.some.inj hl'
      refine ⟨hintact, fun plan' hplan' expected' hexpected' k hk => ?_⟩
      have hsame : plan'.expectedPartitions (m.sealLineage lineage .completed checksum) lineage =
          plan.expectedPartitions m lineage := by
        rw [hplan'.expectedPartitions_eq hlib hplan, CollectionPlan.expectedPartitions,
          CollectionPlan.expectedPartitions, declaredPartitions, declaredPartitions, hrow,
          lineageRow_sealLineage_self hrow]
        rfl
      rw [hsame, hexpected] at hexpected'
      obtain rfl := Except.ok.inj hexpected'
      obtain ⟨q, hq, rfl⟩ := hall k hk
      exact hterminal q hq

theorem completed_of_completeLineage {expected : List String} {checksum : Digest} {new : Bool}
    (hok : m.completeLineage lineage expected checksum = .ok (new, m')) :
    ∃ l, m'.lineageRow lineage = some l ∧ l.status = .completed := by
  obtain ⟨l, hl, ⟨hstatus, -, rfl⟩ | ⟨-, -, -, -, -, -, rfl⟩⟩ := completeLineage_ok hok
  · exact ⟨l, hl, hstatus⟩
  · exact ⟨_, lineageRow_sealLineage_self hl .completed checksum, rfl⟩

theorem resolve_row {now : Time} {spec : LibraryLineageSpec} {datasets : List DatasetKey}
    {resolved : ResolvedLibraryLineage} (hkeyed : Keyed Lineage.lineage m.lineages)
    (h : m.resolveLibraryLineage lib now spec datasets = .ok (resolved, m')) :
    ∃ l, m'.lineageRow resolved.lineage = some l ∧ l.identity.connector = spec.connector ∧
      spec.connectorConfigFingerprint lib = some l.identity.connectorConfigFingerprint := by
  obtain ⟨active, fingerprint, candidate, m₁, m₂, -, hfingerprint, hcandidate, hreject, hsettle,
    hprepare⟩ := resolveLibraryLineage_ok h
  have hrow : ∀ lineage, m'.lineageRow lineage = m₂.lineageRow lineage := by
    intro lineage
    rw [prepareAll_ok hprepare]
    rfl
  rcases settle_ok hsettle with ⟨hsame, -, rfl, -⟩ | ⟨m₃, hreject', hcreate, -⟩
  · rw [hcandidate] at hsame
    obtain ⟨found, hfound, hid, hrecoverable⟩ := findRecoverable_some hsame
    have hfind : m.lineageRow resolved.lineage = some found := by
      rw [← hid]
      exact hkeyed.find?_eq_some hfound
    obtain ⟨l', hl', hfrozen⟩ := (kept_rejectAll hreject).row _ found hfind
    simp only [Lineage.recoverable, Bool.and_eq_true, beq_iff_eq] at hrecoverable
    refine ⟨l', (hrow _).trans hl', ?_, ?_⟩
    · exact (congrArg LineageIdentity.connector hfrozen).trans hrecoverable.1.1.1.1.2
    · rw [hfingerprint, ← hrecoverable.1.1.2]
      exact congrArg some (congrArg LineageIdentity.connectorConfigFingerprint hfrozen).symm
  · obtain ⟨hcreated, ⟨rfl, l, hl, hidentity⟩ | ⟨hnone, rfl⟩⟩ := createLineage_ok hcreate
    · refine ⟨l, (hrow _).trans hl, ?_, ?_⟩
      · rw [hidentity]
        rfl
      · rw [hidentity]
        exact hfingerprint
    · refine ⟨{ lineage := resolved.lineage, identity := spec.identity lib fingerprint,
                createdAt := now }, ?_, rfl, hfingerprint⟩
      have hnone' : m₃.lineages.find? (fun l => l.lineage == resolved.lineage) = none := hnone
      rw [hrow, lineageRow, List.find?_append, hnone']
      simp

end Manifest

/-! ## Publications -/

/-- The lines of the files of some batches, one file after another. -/
def contents (files : List StoredFile) (batches : List BatchRow) : List Json :=
  batches.flatMap fun b => linesAt files b.batch.objectKey

/-- The batches of a dataset in their order, and an object that has the digest of their lines. -/
structure Published (codec : ArtifactCodec) (files : List StoredFile) (m : Manifest)
    (lineage : Uuid) (key : DatasetKey) (object : StoredObject) (batches : List BatchRow) :
    Prop where
  order : m.reconstructBatches lineage key = .ok batches
  intact : ∀ b ∈ batches, Intact codec files b.batch.objectKey b.batch.sha256 b.batch.size
  present : (fileAt files object.location).isSome = true
  sha256 : codec.fileSha256 (linesAt files object.location) =
    codec.fileSha256 (contents files batches)

variable {files files' : List StoredFile} {batches : List BatchRow}

theorem contents_of_extends (h : Extends files files')
    (hpresent : ∀ b ∈ batches, (fileAt files b.batch.objectKey).isSome = true) :
    contents files' batches = contents files batches :=
  List.flatMap_congr fun b hb => h.linesAt_eq (hpresent b hb)

variable {key : DatasetKey}

/-- A publication stays what it is while files are added and the lineage does not change. -/
theorem Published.mono {codec : ArtifactCodec} {m m' : Manifest} {lineage : Uuid}
    {object : StoredObject} (h : Published codec files m lineage key object batches)
    (hfiles : Extends files files') (hm : Manifest.Frozen lineage m m') :
    Published codec files' m' lineage key object batches where
  order := (hm.reconstructBatches key).trans h.order
  intact := fun b hb => (h.intact b hb).mono hfiles
  present := by
    obtain ⟨f, hf⟩ := Option.isSome_iff_exists.mp h.present
    rw [hfiles _ f hf]
    rfl
  sha256 := by
    rw [hfiles.linesAt_eq h.present, h.sha256,
      contents_of_extends hfiles fun b hb => (h.intact b hb).present]

namespace Canary

variable {rt : CanaryRuntime} {s : Canary}

/-- **What a compaction does.** -/
theorem compact_ok {lineage : Uuid} {object : StoredObject} {files' : List StoredFile}
    (h : s.compact rt lineage key = .ok (object, files')) :
    Extends s.files files' ∧
      ∃ batches, Published rt.codec files' s.manifest lineage key object batches := by
  unfold compact at h
  simp only [bind_eq_ok] at h
  obtain ⟨-, -, batches, hbatches, h⟩ := h
  obtain ⟨hfiles, hintact, hpresent, hsha⟩ := publishObject_ok h
  have hold : ∀ b ∈ batches,
      Intact rt.codec s.files b.batch.objectKey b.batch.sha256 b.batch.size := fun b hb =>
    hintact _ (List.mem_map_of_mem hb)
  refine ⟨hfiles, batches, hbatches, fun b hb => (hold b hb).mono hfiles, hpresent, ?_⟩
  rw [hsha, contents_of_extends hfiles fun b hb => (hold b hb).present, List.flatMap_map]
  rfl

end Canary

/-! ## The invariant of a run -/

/-- What an attempt has established at a stage. -/
def CanaryStage.Sound (rt : CanaryRuntime) (files : List StoredFile) (m : Manifest)
    (lineage : Uuid) : CanaryStage → Prop
  | .collecting _ => True
  | .committing .. => True
  | .collected result => result.limited = true → result.enumerationIntact = false
  | .publishing result _ published => result.whole = true →
      (∃ l, m.lineageRow lineage = some l ∧ l.status = .completed) ∧
        ∀ p ∈ published, ∃ batches, Published rt.codec files m lineage p.1 p.2 batches

/-- The lineage of an attempt belongs to its plan. -/
structure Attempt.Sound (rt : CanaryRuntime) (files : List StoredFile) (m : Manifest)
    (a : Attempt) : Prop where
  owned : ∃ l, m.lineageRow a.lineage = some l ∧ a.plan.Owns rt.lib l.identity
  stage : a.stage.Sound rt files m a.lineage

theorem owned_exec {lib : Library} {m : Manifest} {plan : CollectionPlan} {lineage : Uuid}
    (h : ∃ l, m.lineageRow lineage = some l ∧ plan.Owns lib l.identity)
    (calls : List ManifestAction) :
    ∃ l, (Trace.exec (Manifest.step lib) m calls).lineageRow lineage = some l ∧
      plan.Owns lib l.identity := by
  obtain ⟨l, hl, howns⟩ := h
  obtain ⟨l', hl', hfrozen⟩ := (Manifest.kept_exec m calls).row lineage l hl
  exact ⟨l', hl', howns.kept hfrozen⟩

variable {result : PipelineResult} {published : List (DatasetKey × StoredObject)}
  {todo : List DatasetKey}

theorem frozen_of_whole {rt : CanaryRuntime} {files : List StoredFile} {m : Manifest} {lineage : Uuid}
    (h : CanaryStage.Sound rt files m lineage (.publishing result todo published))
    (hwhole : result.whole = true) (calls : List ManifestAction) :
    Manifest.Frozen lineage m (Trace.exec (Manifest.step rt.lib) m calls) := by
  obtain ⟨⟨l, hl, hstatus⟩, -⟩ := h hwhole
  have hactive : l.status ≠ .active := by
    rw [hstatus]
    simp
  exact Manifest.frozen_exec hl hactive calls

theorem sound_publishing_exec {rt : CanaryRuntime} {m : Manifest} {lineage : Uuid}
    {todo todo' : List DatasetKey}
    (h : CanaryStage.Sound rt files m lineage (.publishing result todo published))
    (hfiles : Extends files files') (calls : List ManifestAction) :
    CanaryStage.Sound rt files' (Trace.exec (Manifest.step rt.lib) m calls) lineage
      (.publishing result todo' published) := by
  intro hwhole
  have hfrozen := frozen_of_whole h hwhole calls
  obtain ⟨⟨l, hl, hstatus⟩, hall⟩ := h hwhole
  refine ⟨⟨l, hfrozen.row.trans hl, hstatus⟩, fun p hp => ?_⟩
  obtain ⟨batches, hbatches⟩ := hall p hp
  exact ⟨batches, hbatches.mono hfiles hfrozen⟩

namespace Canary

/-- The invariant of a run. -/
structure Sound (rt : CanaryRuntime) (s : Canary) : Prop where
  keyed : Keyed Lineage.lineage s.manifest.lineages
  enumerated : s.manifest.AllEnumerated rt.lib
  attempt : ∀ a, s.attempt = some a → a.Sound rt s.files s.manifest

variable {rt : CanaryRuntime} {s : Canary}

theorem sound_start (plan : CollectionPlan) (resolved : ResolvedLibraryLineage) (m : Manifest)
    (files : List StoredFile) (lineage : Uuid) :
    (plan.start resolved m).Sound rt files m lineage := by
  unfold CollectionPlan.start
  dsimp only
  split
  · intro hlimited
    simpa using hlimited
  · trivial

theorem sound_result {files : List StoredFile} {m : Manifest} {lineage : Uuid} {run : PipelineRun}
    (h : run.result = .ok result) : CanaryStage.Sound rt files m lineage (.collected result) := by
  unfold PipelineRun.result at h
  simp only [bind_eq_ok, require_eq_ok, pure_eq_ok, exists_const] at h
  obtain ⟨hlimited, rfl⟩ := h
  exact fun h => (hlimited h).2

variable {a : Attempt}

theorem sound_sealing {files : List StoredFile} {m : Manifest}
    (hresult : result.limited = true → result.enumerationIntact = false)
    (h : sealing rt.lib s.manifest a result = .ok m) :
    CanaryStage.Sound rt files m a.lineage (.publishing result todo []) := by
  intro hwhole
  rcases sealing_ok h with ⟨hlimited, -⟩ | ⟨-, expected, checksum, new, -, hok⟩
  · rw [PipelineResult.whole, hresult hlimited] at hwhole
    exact absurd hwhole (by simp)
  · exact ⟨Manifest.completed_of_completeLineage hok, by simp⟩

theorem sound_goto {files' : List StoredFile} {plan : CollectionPlan} {lineage : Uuid}
    {stage stage' : CanaryStage} (h : Attempt.Sound rt s.files s.manifest ⟨plan, lineage, stage⟩)
    (calls : List ManifestAction)
    (hstage : stage'.Sound rt files' (Trace.exec (Manifest.step rt.lib) s.manifest calls) lineage) :
    Attempt.Sound rt files' (Trace.exec (Manifest.step rt.lib) s.manifest calls)
      ⟨plan, lineage, stage'⟩ :=
  ⟨owned_exec h.owned calls, hstage⟩

theorem sound_publish {plan : CollectionPlan} {lineage : Uuid}
    (h : Attempt.Sound rt s.files s.manifest
      ⟨plan, lineage, .publishing result (key :: todo) published⟩)
    (ha : (s.publish rt ⟨plan, lineage, .publishing result (key :: todo) published⟩ result key todo
      published).attempt = some a) :
    a.Sound rt
      (s.publish rt ⟨plan, lineage, .publishing result (key :: todo) published⟩ result key todo
        published).files
      (s.publish rt ⟨plan, lineage, .publishing result (key :: todo) published⟩ result key todo
        published).manifest := by
  revert ha
  unfold publish
  split
  · intro ha
    obtain rfl := Option.some.inj ha
    have hadv : Manifest.Advances rt.lib s.manifest (s.manifest.finish key .failed false 0
        (some (key.dataset ++ " projector failed"))) := Manifest.advances_finish ..
    obtain ⟨calls, -, hcalls⟩ := hadv
    dsimp only [goto]
    rw [hcalls]
    exact sound_goto h calls (sound_publishing_exec h.stage (.refl _) calls)
  · split
    · intro ha
      exact absurd ha (by simp [leave])
    · next object files hcompact =>
      obtain ⟨hfiles, batches, hbatches⟩ := compact_ok hcompact
      split
      · intro ha
        exact absurd ha (by simp [leave])
      · next m hok =>
        intro ha
        obtain rfl := Option.some.inj ha
        have hadv : Manifest.Advances rt.lib s.manifest
            (if key.isCeramics = true then m else m.finish key .succeeded true 0 none) := by
          split
          · exact Manifest.advances_recordPublication hok
          · exact (Manifest.advances_recordPublication hok).trans (Manifest.advances_finish ..)
        obtain ⟨calls, -, hcalls⟩ := hadv
        dsimp only [goto]
        rw [hcalls]
        refine sound_goto h calls fun hwhole => ?_
        have hold : CanaryStage.Sound rt files
            (Trace.exec (Manifest.step rt.lib) s.manifest calls) lineage
            (.publishing result todo published) := sound_publishing_exec h.stage hfiles calls
        obtain ⟨hcompleted, hall⟩ := hold hwhole
        refine ⟨hcompleted, fun p hp => ?_⟩
        rcases List.mem_append.mp hp with hold | hnew
        · exact hall p hold
        · obtain rfl := List.mem_singleton.mp hnew
          exact ⟨batches, hbatches.mono (.refl _) (frozen_of_whole h.stage hwhole calls)⟩

theorem exists_calls_of_sealing {m : Manifest} (h : sealing rt.lib s.manifest a result = .ok m) :
    ∃ calls, m = Trace.exec (Manifest.step rt.lib) s.manifest calls := by
  rcases sealing_ok h with ⟨-, checksum, new, hok⟩ | ⟨-, expected, checksum, new, -, hok⟩
  · refine ⟨[.completeLimited a.lineage checksum], ?_⟩
    simp only [Trace.exec_cons, Trace.exec_nil, Manifest.step, hok, Transaction.attempt]
  · refine ⟨[.complete a.lineage expected checksum], ?_⟩
    simp only [Trace.exec_cons, Trace.exec_nil, Manifest.step, hok, Transaction.attempt]

theorem load_attempt (rt : CanaryRuntime) (s : Canary) (owned : Bool) (db : Catalogue) :
    (s.load rt owned db).attempt = none := by
  unfold load
  split
  · rfl
  · split
    · rfl
    · split <;> rfl

theorem Sound.attempt_step (h : s.Sound rt) (act : CanaryAction)
    (ha : (s.step rt act).attempt = some a) :
    a.Sound rt (s.step rt act).files (s.step rt act).manifest := by
  cases act with
  | resolve now plan =>
    revert ha
    simp only [step]
    split
    · exact h.attempt a
    · split
      · exact h.attempt a
      · next resolved m hok =>
        intro ha
        obtain rfl := Option.some.inj ha
        obtain ⟨l, hl, hconnector, hfingerprint⟩ := Manifest.resolve_row h.keyed hok
        exact ⟨⟨l, hl, hconnector, hfingerprint⟩, sound_start plan resolved m s.files _⟩
  | page page =>
    revert ha
    simp only [step]
    split
    · next plan lineage run hattempt =>
      split
      · intro ha
        exact absurd ha (by simp [leave])
      · intro ha
        obtain rfl := Option.some.inj ha
        exact sound_goto (h.attempt _ hattempt) [] trivial
    · exact h.attempt a
  | commit =>
    revert ha
    simp only [step]
    split
    · next plan lineage run page staged hattempt =>
      split
      · intro ha
        exact absurd ha (by simp [leave])
      · next new m hok =>
        intro ha
        obtain rfl := Option.some.inj ha
        have hm : m = Trace.exec (Manifest.step rt.lib) s.manifest
            [.commit lineage (page.commit plan.connectorVersion plan.dynamic staged.batches
              staged.outcomes)] := by
          simp only [Trace.exec_cons, Trace.exec_nil, Manifest.step, hok, Transaction.attempt]
        dsimp only
        rw [hm]
        exact sound_goto (h.attempt _ hattempt) _ trivial
    · exact h.attempt a
  | exhausted =>
    revert ha
    simp only [step]
    split
    · next plan lineage run hattempt =>
      split
      · intro ha
        exact absurd ha (by simp [leave])
      · next result hresult =>
        intro ha
        obtain rfl := Option.some.inj ha
        exact sound_goto (h.attempt _ hattempt) [] (sound_result hresult)
    · exact h.attempt a
  | conclude cancelled =>
    revert ha
    simp only [step]
    split
    · next plan lineage result hattempt =>
      unfold conclude
      split
      · intro ha
        exact absurd ha (by simp)
      · split
        · intro ha
          exact absurd ha (by simp)
        · split
          · intro ha
            exact absurd ha (by simp [leave])
          · next m hok =>
            intro ha
            obtain rfl := Option.some.inj ha
            have hcalls : ∃ calls, m = Trace.exec (Manifest.step rt.lib) s.manifest calls :=
              exists_calls_of_sealing hok
            obtain ⟨calls, rfl⟩ := hcalls
            exact sound_goto (h.attempt _ hattempt) calls
              (sound_sealing (h.attempt _ hattempt).stage hok)
    · exact h.attempt a
  | publish =>
    revert ha
    simp only [step]
    split
    · next plan lineage result key todo published hattempt =>
      exact sound_publish (h.attempt _ hattempt)
    · exact h.attempt a
  | load owned db =>
    revert ha
    simp only [step]
    split
    · intro ha
      rw [load_attempt] at ha
      exact absurd ha (by simp)
    · exact h.attempt a
  | crash => exact absurd ha (by simp [step, leave])

/-- **Every step keeps the invariant.** -/
theorem Sound.step (hlib : rt.lib.CoversPartitions) (h : s.Sound rt) (act : CanaryAction) :
    (s.step rt act).Sound rt := by
  obtain ⟨calls, hcalls⟩ : ∃ calls, (s.step rt act).manifest =
      Trace.exec (Manifest.step rt.lib) s.manifest calls := exists_calls s act
  refine ⟨?_, ?_, fun a ha => h.attempt_step act ha⟩
  · rw [hcalls]
    exact (Manifest.kept_exec s.manifest calls).keyed h.keyed
  · rcases step_manifest s act with hadv | ⟨plan, lineage, result, hcompletes⟩
    · exact h.enumerated.advances hadv
    · obtain ⟨hattempt, -, expected, checksum, new, hexpected, hok⟩ := hcompletes
      obtain ⟨l, hl, howns⟩ := (h.attempt _ hattempt).owned
      exact h.enumerated.complete hlib hl howns hexpected hok

theorem after_sound (rt : CanaryRuntime) (hlib : rt.lib.CoversPartitions)
    (actions : List CanaryAction) : (after rt actions).Sound rt := by
  refine Trace.exec_invariant (Canary.step rt) (I := fun s => s.Sound rt)
    (fun s act h => h.step hlib act) ?_ actions
  refine ⟨List.nodup_nil, fun lineage l hl => ?_, fun a ha => ?_⟩
  · exact absurd hl (by simp [Manifest.lineageRow])
  · exact absurd ha (by simp)

/-! ## Loads -/

theorem mem_pages_exec {lib : Library} {m : Manifest} {q : PageRow} (hq : q ∈ m.pages)
    (calls : List ManifestAction) : q ∈ (Trace.exec (Manifest.step lib) m calls).pages := by
  refine Trace.exec_invariant (Manifest.step lib) (I := fun t => q ∈ t.pages) (fun t a h => ?_) hq
    calls
  rcases Manifest.content_step lib t a with hsame | ⟨lineage, p, -, -, -, -, happended⟩
  · rw [hsame.pages]
    exact h
  · rw [happended.pages]
    exact List.mem_append_left _ h

theorem mem_pages_after {actions pre : List CanaryAction} (hpre : pre <+: actions) {q : PageRow}
    (hq : q ∈ (after rt pre).manifest.pages) : q ∈ (after rt actions).manifest.pages := by
  obtain ⟨post, rfl⟩ := hpre
  rw [after, Trace.exec_append]
  refine Trace.exec_invariant (Canary.step rt) (I := fun s => q ∈ s.manifest.pages)
    (fun s act h => ?_) hq post
  obtain ⟨calls, hcalls⟩ : ∃ calls, (s.step rt act).manifest =
      Trace.exec (Manifest.step rt.lib) s.manifest calls := exists_calls s act
  rw [hcalls]
  exact mem_pages_exec h calls

/-- No file of the store has the digest of the lines that are to be published, and other lines. -/
def Distinguishes (rt : CanaryRuntime) (s : Canary) : Prop :=
  ∀ l batches, s.due = some l → s.manifest.reconstructBatches l.lineage l.key = .ok batches →
    ∀ f ∈ s.files, rt.codec.fileSha256 f.lines = rt.codec.fileSha256 (contents s.files batches) →
      f.lines = contents s.files batches

/-- The batches are those committed to a lineage for a dataset, in the order of their pages. -/
structure InPageOrder (m : Manifest) (lineage : Uuid) (key : DatasetKey) (batches : List BatchRow) :
    Prop where
  perm : batches.Perm (m.batches.filter fun b => b.page.lineage == lineage && b.batch.key == key)
  sorted : ∃ l, m.lineageRow lineage = some l ∧ batches.Pairwise fun b b' =>
    b.page.rank l.identity.partitions ≤ b'.page.rank l.identity.partitions

/-- What is behind a load that makes products inactive. -/
structure WholeEnumeration (rt : CanaryRuntime) (actions : List CanaryAction) (owned : Bool)
    (l : Load) : Prop where
  due : (after rt actions).due = some l
  ceramics : l.plan.ceramics = some l.key
  /-- Every page ever committed to the lineage is intact. -/
  intact : ∀ pre, pre <+: actions → ∀ q ∈ (after rt pre).manifest.pages,
    q.ref.lineage = l.lineage → q.enumerationIntact = true
  /-- Every expected partition has a terminal page. -/
  terminal : ∃ expected,
    l.plan.expectedPartitions (after rt actions).manifest l.lineage = .ok expected ∧
      ∀ k ∈ expected, ∃ q ∈ (after rt actions).manifest.pages,
        q.ref.lineage = l.lineage ∧ q.ref.partitionKey = k ∧ q.terminal = true
  /-- The records are those of the committed batches, whose files are intact. -/
  content : ∃ batches, InPageOrder (after rt actions).manifest l.lineage l.key batches ∧
    (∀ b ∈ batches, Intact rt.codec (after rt actions).files b.batch.objectKey b.batch.sha256
      b.batch.size) ∧
    (after rt actions).records rt l owned =
      some ((contents (after rt actions).files batches).map rt.readRecord)

/-- `reconstruct_batches` sorts the batches of the dataset. -/
theorem inPageOrder_of_reconstruct {m : Manifest} {lineage : Uuid}
    (h : m.reconstructBatches lineage key = .ok batches) : InPageOrder m lineage key batches := by
  unfold Manifest.reconstructBatches at h
  simp only [bind_eq_ok, getRow_eq_ok, pure_eq_ok] at h
  obtain ⟨l, hl, rfl⟩ := h
  refine ⟨List.perm_insertionSort _ _, l, hl, ?_⟩
  have htotal : Std.Total fun b b' : BatchRow =>
      b.page.rank l.identity.partitions ≤ b'.page.rank l.identity.partitions :=
    ⟨fun b b' => le_total _ _⟩
  have htrans : IsTrans BatchRow fun b b' =>
      b.page.rank l.identity.partitions ≤ b'.page.rank l.identity.partitions :=
    ⟨fun _ _ _ h h' => h.trans h'⟩
  exact List.pairwise_insertionSort _ _

/-- A load that makes products inactive is due, reads its records, and its result is whole. -/
theorem due_of_deactivates {owned : Bool} {db : Catalogue}
    (h : db.Deactivates (s.loaded rt owned db)) :
    ∃ l records, s.due = some l ∧ s.records rt l owned = some records ∧ l.result.whole = true := by
  have hkeep : ¬ db.Deactivates db := (Catalogue.KeepsActive.refl db).not_deactivates
  unfold loaded at h
  split at h
  · exact absurd h hkeep
  · next l hdue =>
    split at h
    · exact absurd h hkeep
    · next records hrecords =>
      exact ⟨l, records, hdue, hrecords, Catalogue.deactivates_loadSource h⟩

theorem due_eq_some {l : Load} (h : s.due = some l) :
    ∃ published, s.attempt = some ⟨l.plan, l.lineage, .publishing l.result [] published⟩ ∧
      l.plan.ceramics = some l.key ∧ (l.key, l.object) ∈ published := by
  unfold due at h
  split at h
  · next plan lineage result published hattempt =>
    obtain ⟨key, hkey, h⟩ := Option.bind_eq_some_iff.mp h
    obtain ⟨p, hp, rfl⟩ := Option.map_eq_some_iff.mp h
    obtain ⟨hmem, hsame⟩ := mem_of_find? hp
    refine ⟨published, hattempt, hkey, ?_⟩
    rw [← beq_iff_eq.mp hsame]
    exact hmem
  · exact absurd h (by simp)

theorem records_eq_some {l : Load} {owned : Bool} {records : List Record}
    (h : s.records rt l owned = some records) :
    records = (linesAt s.files l.object.location).map rt.readRecord ∧
      ∃ f ∈ s.files, f.lines = linesAt s.files l.object.location := by
  unfold Canary.records at h
  split at h
  · exact absurd h (by simp)
  · split at h
    · obtain ⟨f, hf, rfl⟩ := Option.map_eq_some_iff.mp h
      have hlines : linesAt s.files l.object.location = f.lines := by
        rw [linesAt, hf]
        rfl
      exact ⟨by rw [hlines], f, List.mem_of_find?_eq_some hf, hlines.symm⟩
    · exact absurd h (by simp)

/-- **Products are retired only against a whole enumeration**: whatever attempts were made on the
lineage, and wherever they ended, a load makes a product inactive only if every page ever committed
to the published lineage is intact, every expected partition has a terminal page, and the records
are those of the committed batches in their order. -/
theorem retirement_whole (rt : CanaryRuntime) (hlib : rt.lib.CoversPartitions)
    (actions : List CanaryAction) (hsha : (after rt actions).Distinguishes rt) (owned : Bool)
    (db : Catalogue) (h : db.Deactivates ((after rt actions).loaded rt owned db)) :
    ∃ l, WholeEnumeration rt actions owned l := by
  obtain ⟨l, records, hdue, hrecords, hwhole⟩ := due_of_deactivates h
  obtain ⟨published, hattempt, hceramics, hpublished⟩ := due_eq_some hdue
  have hsound := after_sound rt hlib actions
  obtain ⟨⟨row, hrow, howns⟩, hstage⟩ := hsound.attempt _ hattempt
  obtain ⟨⟨row', hrow', hstatus⟩, hall⟩ := hstage hwhole
  obtain rfl := Option.some.inj (hrow.symm.trans hrow')
  obtain ⟨batches, hbatches⟩ := hall _ hpublished
  have henumerated := hsound.enumerated _ row hrow hstatus
  refine ⟨l, hdue, hceramics, fun pre hpre q hq hlineage => ?_, ?_, batches,
    inPageOrder_of_reconstruct hbatches.order, hbatches.intact, ?_⟩
  · apply henumerated.intact
    exact List.mem_filter.mpr ⟨mem_pages_after hpre hq, by simp [hlineage]⟩
  · have hexpected : ∃ expected,
        l.plan.expectedPartitions (after rt actions).manifest l.lineage = .ok expected := by
      unfold CollectionPlan.expectedPartitions Manifest.declaredPartitions
      rw [hrow]
      split <;> exact ⟨_, rfl⟩
    obtain ⟨expected, hexpected⟩ := hexpected
    refine ⟨expected, hexpected, fun k hk => ?_⟩
    obtain ⟨t, ht, hterminal⟩ := henumerated.terminal l.plan howns expected hexpected k hk
    obtain ⟨hmem, hpage⟩ := List.mem_filter.mp ht
    simp only [Bool.and_eq_true, beq_iff_eq] at hpage
    exact ⟨t, hmem, hpage.1, hpage.2, hterminal⟩
  · obtain ⟨hlines, f, hf, hfile⟩ := records_eq_some hrecords
    have hsame : f.lines = contents (after rt actions).files batches := by
      apply hsha l batches hdue hbatches.order f hf
      rw [hfile]
      exact hbatches.sha256
    rw [hrecords, hlines, ← hfile, hsame]

/-- The environment of the example: lines name products, and a digest tells the three files of the
run apart. -/
def shelf : CanaryRuntime where
  lib := {
    collectionFingerprint := fun r _ _ => if r.partitions = [] then some 7 else none
    validateRequest := fun _ => some Manifest.shopRequest
    dumpRequest := fun r => r.fields
    acceptsCheckpoint := fun _ => true
    manifestDigest := fun _ _ _ => 9 }
  codec := {
    uuidText := fun _ => "lineage"
    hexdigest := id
    repr := id
    identityRepr := fun _ => "identity"
    fileSha256 := fun lines =>
      if lines = [⟨"2"⟩] then 1 else if lines = [⟨"3"⟩] then 2
      else if lines = [⟨"2"⟩, ⟨"3"⟩] then 3 else 0
    fileSize := List.length
    digestText := fun _ => "digest" }
  projection := { jobId := "job", project := fun _ item => .ok [item] }
  pg := {
    btrim := id
    lower := id
    upper := id
    numeric := fun _ => none
    bigint := fun _ => none
    timestamptz := fun _ => some 1
    contextSha256 := fun _ => 0
    recordSha256 := fun _ => 1 }
  readRecord := fun line => {
    format := some "ceramics.catalogue_item.v2", source := some "shop"
    externalId := some line.text, name := some "Glaze"
    productUrl := some "https://shop.test/p", fetchedAt := some "2026-08-08T00:00:00Z" }

/-- The plan of the example. -/
def shelfPlan : CollectionPlan where
  request := Manifest.shopRequest
  connector := "shopify"
  connectorVersion := "1"
  connectorOptions := ⟨"{}"⟩
  datasets := [⟨"ceramics.catalogue", "2", "1"⟩]
  datasets_nodup := by simp
  datasetFingerprint := 8
  datasetSelection := ⟨"[]"⟩
  budgetState := ⟨"{}"⟩
  allowEmpty := false

/-- A page with one product; all but the last have a cursor. -/
def shelfPage (product : String) (sequence : ℕ) (last : Bool) : EntityPage where
  pageId := if last then "last" else "page"
  sequence := sequence
  items := [⟨product⟩]
  resumeAfter := if last then none else some ⟨"cursor"⟩
  terminal := last
  discovered := 1
  pageId_ne := by split <;> simp
  partitionKey_ne := by simp
  terminal_cursor := fun h _ => by rw [h]; rfl
  partition_cursor := by simp
  incomplete_terminal := by simp
  incomplete_diagnostic := by simp
  discovered_le := by simp

/-- The first attempt dies behind its first page, and the second one goes on and publishes. -/
def shelfRun : List CanaryAction :=
  [.resolve 1 shelfPlan, .page (shelfPage "2" 0 false), .commit, .crash, .resolve 2 shelfPlan,
    .page (shelfPage "3" 1 true), .commit,
    .exhausted, .conclude false, .publish]

/-- A catalogue with a product of the source that the pages do not list. -/
def shelfCatalogue : Catalogue where
  sources := ["shop"]
  nextProduct := 2
  products := [{
    id := 1, sourceId := "shop", externalId := "1", parentExternalId := none
    recordFormat := .itemV2, name := "Old", brand := none, sku := none, manufacturerSku := none
    supplierReference := none, family := none, description := none, firingRange := none
    productUrl := "https://shop.test/p/1", imageUrl := none, availability := none
    firstSeenAt := 0, lastSeenAt := 0, active := true, attributes := {} }]

theorem shelf_distinguishes : (after shelf shelfRun).Distinguishes shelf := by
  have hfiles : ∀ f ∈ (after shelf shelfRun).files,
      f.lines = [⟨"2"⟩] ∨ f.lines = [⟨"3"⟩] ∨ f.lines = [⟨"2"⟩, ⟨"3"⟩] := by decide
  have hinj : ∀ lines : List Json, (shelf.codec.fileSha256 lines = 1 → lines = [⟨"2"⟩]) ∧
      (shelf.codec.fileSha256 lines = 2 → lines = [⟨"3"⟩]) ∧
      (shelf.codec.fileSha256 lines = 3 → lines = [⟨"2"⟩, ⟨"3"⟩]) := by
    intro lines
    dsimp only [shelf]
    split_ifs with h₁ h₂ h₃
    · exact ⟨fun _ => h₁, fun h => absurd h (by decide), fun h => absurd h (by decide)⟩
    · exact ⟨fun h => absurd h (by decide), fun _ => h₂, fun h => absurd h (by decide)⟩
    · exact ⟨fun h => absurd h (by decide), fun h => absurd h (by decide), fun _ => h₃⟩
    · exact ⟨fun h => absurd h (by decide), fun h => absurd h (by decide),
        fun h => absurd h (by decide)⟩
  intro l batches _ _ f hf hsha
  obtain ⟨hone, htwo, hthree⟩ := hinj (contents (after shelf shelfRun).files batches)
  rcases hfiles f hf with hlines | hlines | hlines
  · rw [hlines] at hsha ⊢
    exact (hone hsha.symm).symm
  · rw [hlines] at hsha ⊢
    exact (htwo hsha.symm).symm
  · rw [hlines] at hsha ⊢
    exact (hthree hsha.symm).symm

/-- The product that is no longer listed is retired, against both pages. -/
theorem shelf_retired :
    shelfCatalogue.Deactivates ((after shelf shelfRun).loaded shelf true shelfCatalogue) ∧
      ∃ l, WholeEnumeration shelf shelfRun true l := by
  have hlib : shelf.lib.CoversPartitions := by
    intro r r' connector options options' d h h'
    have hnone : ∀ r : CollectionRequest,
        (if r.partitions = [] then some (7 : Digest) else none) = some d → r.partitions = [] := by
      intro r h
      by_contra hne
      rw [if_neg hne] at h
      exact absurd h (by simp)
    exact (hnone r h).trans (hnone r' h').symm
  have hretired :
      shelfCatalogue.Deactivates ((after shelf shelfRun).loaded shelf true shelfCatalogue) := by
    refine ⟨0, shelfCatalogue.products[0], { shelfCatalogue.products[0] with active := false }, rfl,
      by decide, rfl, rfl⟩
  exact ⟨hretired, retirement_whole shelf hlib shelfRun shelf_distinguishes true shelfCatalogue
    hretired⟩

end Canary

end CommerceCollector
