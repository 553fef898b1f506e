import CommerceCollector.Catalogue.LoadSource
import CommerceCollector.Lineage.Pipeline

/-!
# The connector path of a worker

`Worker._crawl_connector_canary` (`ops/worker.py`) over the manifests and the store of one job.  An
attempt is a program counter; between two stages lies one transaction on the manifests, or one file
of the store, so a run of `Canary.step` in which attempts die between any two steps contains every
crash and every resumption.  A statement that raises ends the attempt, and what was committed before
it stays.

The plan of an attempt is what `plan_collection` computes from the source and the parameters of the
job; it may change between two attempts.  The check of `PostgresPageCommitter` that a batch belongs
to its page always holds of the batches that the pipeline stages, and is left out.
-/

namespace CommerceCollector

open Relational Transaction

/-! ## Plans -/

/-- `_plan_dynamic_partitions`: only the factory of WooCommerce overrides it. -/
def planDynamicPartitions (connector : String) (partitions : List String) : Bool :=
  connector == "woocommerce" && !partitions.isEmpty

/-- `name.startswith("ceramics.")`. -/
def DatasetKey.isCeramics (key : DatasetKey) : Bool :=
  "ceramics.".toList.isPrefixOf key.dataset.toList

/-- `NativeCollectionPlan`, and what `_crawl_connector_canary` computes from it. -/
structure CollectionPlan where
  request : CollectionRequest
  connector : String
  /-- The version of the registered connector, which is also that of the opened one. -/
  connectorVersion : String
  connectorOptions : Json
  /-- The values of `keys`, a dictionary. -/
  datasets : List DatasetKey
  datasets_nodup : datasets.Nodup
  datasetFingerprint : Digest
  datasetSelection : Json
  budgetState : Json
  allowEmpty : Bool

namespace CollectionPlan

variable (plan : CollectionPlan)

/-- `route.dynamic_partitions`. -/
def dynamic : Bool := planDynamicPartitions plan.connector plan.request.partitions

/-- `library_request.partitions or ("main",)`. -/
def partitions : List String :=
  if plan.request.partitions = [] then ["main"] else plan.request.partitions

/-- The specification that is resolved. -/
def spec : LibraryLineageSpec where
  request := plan.request
  connector := plan.connector
  connectorVersion := plan.connectorVersion
  connectorOptions := plan.connectorOptions
  datasetFingerprint := plan.datasetFingerprint
  datasetSelection := plan.datasetSelection
  partitions := if plan.dynamic then [] else plan.partitions
  budgetState := plan.budgetState

/-- The argument `expected_partitions` of `complete_lineage`. -/
def expectedPartitions (m : Manifest) (lineage : Uuid) : Except String (List String) :=
  if plan.dynamic then m.declaredPartitions lineage else .ok plan.partitions

/-- The key of `ceramics_name`. -/
def ceramics : Option DatasetKey := plan.datasets.find? DatasetKey.isCeramics

/-- `pipeline_dataset_states`: the datasets that stay failed. -/
def restoredFailures (m : Manifest) : List DatasetKey :=
  plan.datasets.filter fun key => (m.dataset key).any fun d => d.state == .failed

end CollectionPlan

/-! ## Attempts -/

/-- The program counter of an attempt. -/
inductive CanaryStage
  /-- `ConnectorPipeline.run` waits for the next page. -/
  | collecting (run : PipelineRun)
  /-- The page is staged, and is to be committed. -/
  | committing (run : PipelineRun) (page : EntityPage) (staged : Staged)
  /-- The pipeline has ended, or the lineage had ended before. -/
  | collected (result : PipelineResult)
  /-- The lineage is sealed: the datasets that are still to be published, and the publications. -/
  | publishing (result : PipelineResult) (todo : List DatasetKey)
      (published : List (DatasetKey × StoredObject))

/-- An attempt on a lineage. -/
structure Attempt where
  plan : CollectionPlan
  lineage : Uuid
  stage : CanaryStage

/-- The store and the manifests of a job, and the attempt under way. -/
structure Canary where
  files : List StoredFile := []
  manifest : Manifest := {}
  attempt : Option Attempt := none

/-- The environment of the worker. -/
structure CanaryRuntime where
  lib : Library
  codec : ArtifactCodec
  projection : Projection
  pg : Postgres
  /-- The members of a line as `load_record` reads them. -/
  readRecord : Json → Record

/-- A step of an attempt. -/
inductive CanaryAction
  /-- An attempt begins with `resolve_library_lineage`. -/
  | resolve (now : Time) (plan : CollectionPlan)
  /-- The connector yields a page, whose datasets are staged. -/
  | page (page : EntityPage)
  | commit
  /-- The connector has no more pages. -/
  | exhausted
  /-- The branch on the result, with the cancel flag of the job. -/
  | conclude (cancelled : Bool)
  /-- The next dataset is published. -/
  | publish
  /-- `_load_connector_artifact`, which raises unless the job is still owned. -/
  | load (owned : Bool) (db : Catalogue)
  /-- The process dies, or a statement raises. -/
  | crash

/-- The outcome of a dataset is recorded. -/
def Manifest.finish (m : Manifest) (key : DatasetKey) (state : DatasetState) (complete : Bool)
    (rejected : ℕ) (error : Option String) : Manifest :=
  attempt m ((m.finishDataset key state complete rejected error none).map fun m => ((), m))

/-- The outcome of every dataset is recorded. -/
def Manifest.finishAll (m : Manifest) (keys : List DatasetKey) (state : DatasetState)
    (error : Option String) : Manifest :=
  keys.foldl (fun m key => m.finish key state false 0 error) m

/-- A batch as `reconstruct_batches` returns it. -/
def BatchRow.stored (codec : ArtifactCodec) (jobId : String) (b : BatchRow) : StoredBatch where
  location := b.batch.objectKey
  sha256 := b.batch.sha256
  size := b.batch.size
  records := b.batch.records
  identity := {
    jobId := jobId
    checkpointLineage := codec.uuidText b.page.lineage
    partitionKey := b.page.partitionKey
    pageId := b.page.pageId
    pageSequence := b.page.sequence
    dataset := b.batch.key.dataset
    contractVersion := b.batch.key.contractVersion
    projectorVersion := b.batch.key.projectorVersion }

/-- The stage in which an attempt begins: a lineage that has ended is not collected again. -/
def CollectionPlan.start (plan : CollectionPlan) (resolved : ResolvedLibraryLineage)
    (m : Manifest) : CanaryStage :=
  let limited := decide (resolved.progress = .terminalLimited)
  if limited ∨ resolved.progress = .terminalIntact then
    .collected { pages := 0, terminal := true, enumerationIntact := !limited, limited,
                 failed := plan.restoredFailures m }
  else .collecting { failed := plan.restoredFailures m }

/-- A load that is due: the result of the collection, and the publication of its dataset. -/
structure Load where
  plan : CollectionPlan
  lineage : Uuid
  result : PipelineResult
  key : DatasetKey
  object : StoredObject

namespace Canary

variable (rt : CanaryRuntime)

/-- The attempt ends; what it committed stays. -/
def leave (s : Canary) : Canary := { s with attempt := none }

/-- The attempt goes on at a stage. -/
def goto (s : Canary) (a : Attempt) (stage : CanaryStage) : Canary :=
  { s with attempt := some { a with stage } }

@[simp] theorem leave_manifest (s : Canary) : s.leave.manifest = s.manifest := rfl

@[simp] theorem leave_files (s : Canary) : s.leave.files = s.files := rfl

@[simp] theorem goto_manifest (s : Canary) (a : Attempt) (stage : CanaryStage) :
    (s.goto a stage).manifest = s.manifest := rfl

@[simp] theorem goto_files (s : Canary) (a : Attempt) (stage : CanaryStage) :
    (s.goto a stage).files = s.files := rfl

/-- The lineage is sealed with its checksum. -/
def sealing (lib : Library) (m : Manifest) (a : Attempt) (result : PipelineResult) :
    Except String Manifest := do
  let checksum ← m.lineageChecksum lib a.lineage
  if result.limited then (m.completeLimitedLineage a.lineage checksum).map Prod.snd
  else
    let expected ← a.plan.expectedPartitions m a.lineage
    (m.completeLineage a.lineage expected checksum).map Prod.snd

/-- The branch on the result. -/
def conclude (s : Canary) (a : Attempt) (result : PipelineResult) (cancelled : Bool) : Canary :=
  if cancelled || !result.terminal then
    { s with manifest := s.manifest.finishAll a.plan.datasets .cancelled none, attempt := none }
  else if !result.enumerationIntact && !result.limited then
    { s with
      manifest := s.manifest.finishAll a.plan.datasets .failed
        (some "connector enumeration incomplete")
      attempt := none }
  else
    match sealing rt.lib s.manifest a result with
    | .error _ => s.leave
    | .ok m =>
      let (failed, others) := a.plan.datasets.partition fun key => decide (key ∈ result.failed)
      { s with manifest := m }.goto a (.publishing result (failed ++ others) [])

/-- The compaction of a dataset: the check and the query of `publish_dataset`, and the store. -/
def compact (s : Canary) (lineage : Uuid) (key : DatasetKey) :
    Except String (StoredObject × List StoredFile) := do
  s.manifest.requireSealed lineage
  let batches ← s.manifest.reconstructBatches lineage key
  publishObject rt.codec s.files rt.projection.jobId key.dataset key.contractVersion
    (batches.map (BatchRow.stored rt.codec rt.projection.jobId))

/-- The next dataset is finished as failed, or published. -/
def publish (s : Canary) (a : Attempt) (result : PipelineResult) (key : DatasetKey)
    (todo : List DatasetKey) (published : List (DatasetKey × StoredObject)) : Canary :=
  if key ∈ result.failed then
    { s with
      manifest := s.manifest.finish key .failed false 0
        (some (key.dataset ++ " projector failed")) }.goto a (.publishing result todo published)
  else
    match s.compact rt a.lineage key with
    | .error _ => s.leave
    | .ok (object, files) =>
      match s.manifest.recordPublication key object "ndjson.gz" with
      | .error _ => { s with files }.leave
      | .ok m =>
        { s with
          files := files
          manifest := if key.isCeramics then m else m.finish key .succeeded true 0 none }.goto a
            (.publishing result todo (published ++ [(key, object)]))

/-- The load that is due: the ceramics dataset is published, and it may be loaded. -/
def due (s : Canary) : Option Load :=
  match s.attempt with
  | some ⟨plan, lineage, .publishing result [] published⟩ =>
    plan.ceramics.bind fun key =>
      (published.find? fun p => p.1 == key).map fun p =>
        { plan, lineage, result, key, object := p.2 }
  | _ => none

/-- The records that a load reads, unless it raises or is not made. -/
def records (s : Canary) (l : Load) (owned : Bool) : Option (List Record) :=
  if l.object.records = 0 ∧ l.plan.allowEmpty = false then none
  else if owned then
    (fileAt s.files l.object.location).map fun file => file.lines.map rt.readRecord
  else none

/-- The load, and the outcome of its dataset. -/
def load (s : Canary) (owned : Bool) (db : Catalogue) : Canary :=
  match s.due with
  | none => s.leave
  | some l =>
    if l.object.records = 0 ∧ l.plan.allowEmpty = false then
      { s with
        manifest := s.manifest.finish l.key .failed true 0
          (some "connector canary produced no ceramics records") }.leave
    else
      match s.records rt l owned with
      | none =>
        { s with
          manifest := s.manifest.finish l.key .failed true 0
            (some (if owned then "[Errno 2] No such file or directory"
              else "job execution token was lost before catalogue load")) }.leave
      | some records =>
        let rejected :=
          (db.loadSource rt.pg l.plan.request.sourceId records l.result.whole).1.rejected
        { s with
          manifest := s.manifest.finish l.key (if 0 < rejected then .degraded else .succeeded) true
            rejected (if 0 < rejected then some "database rejected projected records" else none)
          }.leave

/-- The state after a step. -/
def step (s : Canary) : CanaryAction → Canary
  | .resolve now plan =>
    match s.attempt with
    | some _ => s
    | none =>
      match s.manifest.resolveLibraryLineage rt.lib now plan.spec plan.datasets with
      | .error _ => s
      | .ok (resolved, m) =>
        { s with manifest := m, attempt := some ⟨plan, resolved.lineage, plan.start resolved m⟩ }
  | .page page =>
    match s.attempt with
    | some ⟨plan, lineage, .collecting run⟩ =>
      match page.checkLimit with
      | .error _ => s.leave
      | .ok _ =>
        let staged := stagePage rt.codec rt.projection (rt.codec.uuidText lineage) plan.datasets
          page s.files run.failed
        { s with
          files := staged.files, attempt := some ⟨plan, lineage, .committing run page staged⟩ }
    | _ => s
  | .commit =>
    match s.attempt with
    | some ⟨plan, lineage, .committing run page staged⟩ =>
      match s.manifest.commitPage lineage (page.commit plan.connectorVersion plan.dynamic
          staged.batches staged.outcomes) with
      | .error _ => s.leave
      | .ok (_, m) =>
        { s with
          manifest := m
          attempt := some ⟨plan, lineage, .collecting (run.next page staged)⟩ }
    | _ => s
  | .exhausted =>
    match s.attempt with
    | some ⟨plan, lineage, .collecting run⟩ =>
      match run.result with
      | .error _ => s.leave
      | .ok result => { s with attempt := some ⟨plan, lineage, .collected result⟩ }
    | _ => s
  | .conclude cancelled =>
    match s.attempt with
    | some ⟨plan, lineage, .collected result⟩ =>
      s.conclude rt ⟨plan, lineage, .collected result⟩ result cancelled
    | _ => s
  | .publish =>
    match s.attempt with
    | some ⟨plan, lineage, .publishing result (key :: todo) published⟩ =>
      s.publish rt ⟨plan, lineage, .publishing result (key :: todo) published⟩ result key todo
        published
    | _ => s
  | .load owned db =>
    match s.attempt with
    | some ⟨_, _, .publishing _ [] _⟩ => s.load rt owned db
    | _ => s
  | .crash => s.leave

/-- The state after a run of a job that has no manifests and no files. -/
def after (actions : List CanaryAction) : Canary := Trace.exec (step rt) {} actions

/-- The catalogue after a load. -/
def loaded (s : Canary) (owned : Bool) (db : Catalogue) : Catalogue :=
  match s.due with
  | none => db
  | some l =>
    match s.records rt l owned with
    | none => db
    | some records => (db.loadSource rt.pg l.plan.request.sourceId records l.result.whole).2

end Canary

/-! ## The manifests of a run -/

/-- The call is `complete_lineage`. -/
def ManifestAction.completes : ManifestAction → Bool
  | .complete .. => true
  | _ => false

namespace Manifest

variable {lib : Library} {m m' : Manifest}

/-- The manifests are reached by calls of `ops/outputs.py` other than `complete_lineage`. -/
def Advances (lib : Library) (m m' : Manifest) : Prop :=
  ∃ calls : List ManifestAction, (∀ c ∈ calls, c.completes = false) ∧
    m' = Trace.exec (step lib) m calls

theorem Advances.refl (m : Manifest) : Advances lib m m := ⟨[], by simp, rfl⟩

theorem Advances.trans {m'' : Manifest} (h : Advances lib m m') (h' : Advances lib m' m'') :
    Advances lib m m'' := by
  obtain ⟨calls, hcalls, rfl⟩ := h
  obtain ⟨calls', hcalls', rfl⟩ := h'
  refine ⟨calls ++ calls', fun c hc => ?_, (Trace.exec_append (step lib) m calls calls').symm⟩
  exact (List.mem_append.mp hc).elim (hcalls c) (hcalls' c)

theorem advances_step (m : Manifest) {a : ManifestAction} (ha : a.completes = false) :
    Advances lib m (m.step lib a) :=
  ⟨[a], by simpa using ha, rfl⟩

theorem advances_of_ok {α : Type} {b : α} {r : Except String (α × Manifest)} {a : ManifestAction}
    (ha : a.completes = false) (hstep : m.step lib a = attempt m r) (h : r = .ok (b, m')) :
    Advances lib m m' := by
  have hm : m.step lib a = m' := by
    rw [hstep, h]
    rfl
  exact hm ▸ advances_step m ha

theorem advances_finish (m : Manifest) (key : DatasetKey) (state : DatasetState) (complete : Bool)
    (rejected : ℕ) (error : Option String) :
    Advances lib m (m.finish key state complete rejected error) :=
  advances_step (a := .finish key state complete rejected error none) m rfl

theorem advances_finishAll (m : Manifest) (keys : List DatasetKey) (state : DatasetState)
    (error : Option String) : Advances lib m (m.finishAll keys state error) :=
  Trace.exec_invariant (fun (t : Manifest) key => t.finish key state false 0 error)
    (I := fun t => Advances lib m t)
    (fun t key h => h.trans (advances_finish t key state false 0 error)) (.refl m) keys

theorem advances_recordPublication {key : DatasetKey} {object : StoredObject} {kind : String}
    (h : m.recordPublication key object kind = .ok m') : Advances lib m m' :=
  advances_of_ok (b := ()) (a := .publish key object kind) rfl rfl (by rw [h]; rfl)

end Manifest

namespace Canary

variable {rt : CanaryRuntime}

/-- A step completes the lineage of its attempt. -/
structure Completes (rt : CanaryRuntime) (s : Canary) (plan : CollectionPlan) (lineage : Uuid)
    (result : PipelineResult) (m' : Manifest) : Prop where
  attempt : s.attempt = some ⟨plan, lineage, .collected result⟩
  unlimited : result.limited = false
  complete : ∃ expected checksum new, plan.expectedPartitions s.manifest lineage = .ok expected ∧
    s.manifest.completeLineage lineage expected checksum = .ok (new, m')

theorem sealing_ok {m m' : Manifest} {a : Attempt} {result : PipelineResult}
    (h : sealing rt.lib m a result = .ok m') :
    (result.limited = true ∧ ∃ checksum new,
        m.completeLimitedLineage a.lineage checksum = .ok (new, m')) ∨
      result.limited = false ∧ ∃ expected checksum new,
        a.plan.expectedPartitions m a.lineage = .ok expected ∧
          m.completeLineage a.lineage expected checksum = .ok (new, m') := by
  unfold sealing at h
  rw [bind_eq_ok] at h
  obtain ⟨checksum, -, h⟩ := h
  cases hlimited : result.limited with
  | true =>
    rw [hlimited, if_pos rfl] at h
    obtain ⟨⟨new, m₁⟩, hok, rfl⟩ := map_eq_ok.mp h
    exact Or.inl ⟨rfl, checksum, new, hok⟩
  | false =>
    rw [hlimited, if_neg (by simp), bind_eq_ok] at h
    obtain ⟨expected, hexpected, h⟩ := h
    obtain ⟨⟨new, m₁⟩, hok, rfl⟩ := map_eq_ok.mp h
    exact Or.inr ⟨rfl, expected, checksum, new, hexpected, hok⟩

/-- **Refinement.**  On the manifests, a step of an attempt is calls of `ops/outputs.py`; a call of
`complete_lineage` completes the lineage of the attempt. -/
theorem step_manifest (s : Canary) (a : CanaryAction) :
    Manifest.Advances rt.lib s.manifest (s.step rt a).manifest ∨
      ∃ plan lineage result, s.Completes rt plan lineage result (s.step rt a).manifest := by
  cases a with
  | resolve now plan =>
    left
    simp only [step]
    split
    · exact .refl _
    · split
      · exact .refl _
      · next resolved m hok =>
        exact Manifest.advances_of_ok (a := .resolve now plan.spec plan.datasets) rfl rfl hok
  | page page =>
    left
    simp only [step]
    split
    · split <;> exact .refl _
    · exact .refl _
  | commit =>
    left
    simp only [step]
    split
    · next plan lineage run page staged _ =>
      split
      · exact .refl _
      · next new m hok =>
        exact Manifest.advances_of_ok (a := .commit lineage (page.commit plan.connectorVersion
          plan.dynamic staged.batches staged.outcomes)) rfl rfl hok
    · exact .refl _
  | exhausted =>
    left
    simp only [step]
    split
    · split <;> exact .refl _
    · exact .refl _
  | conclude cancelled =>
    simp only [step]
    split
    · next plan lineage result hattempt =>
      unfold conclude
      split
      · exact Or.inl (Manifest.advances_finishAll ..)
      · split
        · exact Or.inl (Manifest.advances_finishAll ..)
        · split
          · exact Or.inl (.refl _)
          · next m hok =>
            rcases sealing_ok hok with ⟨-, checksum, new, hseal⟩ | ⟨hunlimited, hcomplete⟩
            · exact Or.inl (Manifest.advances_of_ok
                (a := .completeLimited lineage checksum) rfl rfl hseal)
            · exact Or.inr ⟨plan, lineage, result, hattempt, hunlimited, hcomplete⟩
    · exact Or.inl (.refl _)
  | publish =>
    left
    simp only [step]
    split
    · unfold publish
      split
      · simp only [goto_manifest]
        exact Manifest.advances_finish ..
      · split
        · exact .refl _
        · split
          · exact .refl _
          · next m hok =>
            have hfirst : Manifest.Advances rt.lib s.manifest m :=
              Manifest.advances_recordPublication hok
            simp only [goto_manifest]
            split
            · exact hfirst
            · exact hfirst.trans (Manifest.advances_finish ..)
    · exact .refl _
  | load owned db =>
    left
    simp only [step]
    split
    · unfold load
      split
      · exact .refl _
      · split
        · simp only [leave_manifest]
          exact Manifest.advances_finish ..
        · split
          · simp only [leave_manifest]
            exact Manifest.advances_finish ..
          · exact Manifest.advances_finish ..
    · exact .refl _
  | crash => exact Or.inl (.refl _)

theorem exists_calls (s : Canary) (a : CanaryAction) :
    ∃ calls, (s.step rt a).manifest = Trace.exec (Manifest.step rt.lib) s.manifest calls := by
  rcases step_manifest s a with ⟨calls, -, h⟩ | ⟨plan, lineage, result, -, -, hcomplete⟩
  · exact ⟨calls, h⟩
  · obtain ⟨expected, checksum, new, -, hok⟩ := hcomplete
    refine ⟨[.complete lineage expected checksum], ?_⟩
    simp only [Trace.exec_cons, Trace.exec_nil, Manifest.step, hok, Transaction.attempt]

theorem exists_after_manifest (rt : CanaryRuntime) (actions : List CanaryAction) :
    ∃ calls, (after rt actions).manifest = Manifest.after rt.lib calls := by
  refine Trace.exec_invariant (step rt)
    (I := fun s => ∃ calls, s.manifest = Manifest.after rt.lib calls) (fun s a h => ?_)
    ⟨[], rfl⟩ actions
  obtain ⟨calls, hcalls⟩ := h
  obtain ⟨more, hmore⟩ : ∃ calls, (s.step rt a).manifest =
      Trace.exec (Manifest.step rt.lib) s.manifest calls := exists_calls s a
  refine ⟨calls ++ more, ?_⟩
  rw [hmore, hcalls, Manifest.after, Manifest.after, Trace.exec_append]

end Canary

end CommerceCollector
