import CommerceCollector.Ops.RetentionSafety

/-!
# Backups

`catalogue_control/backup.py`: `backup` dumps the database and copies the artifact directory
afterwards, file by file; `verify` resolves every reference of the dump in the copy.  Meanwhile jobs
publish artifacts, each one written before its row, and retention runs select their targets and take
one after another: they commit the reference change and unlink the file.

No file is written twice, so a copy can only miss what is unlinked: a run of the system whose
unlinked paths are named neither by the database nor by a dump whose copy has not read them ends
every backup in a pair that verifies.
-/

namespace CommerceCollector.Retention.Backup

open Relational

variable {γ : Type*}

/-! ## Verification -/

/-- `ARTIFACT_REFERENCES`: the paths that the database records, with their digests. -/
def artifactReferences (db : Tables) : List (String × Option Digest) :=
  ((references db).map fun x => (x.path, x.sha256)).dedup

/-- `resolve_artifact(root, recorded, expected_sha256)`. -/
def resolveArtifact (host : Host γ) (files : Files γ) (recorded : String)
    (expected : Option Digest) : Except String String :=
  let path := host.resolve recorded
  if host.inside path then
    match files.read path with
    | none => .error "artifact is unavailable: No such file or directory"
    | some body =>
      if expected.any fun digest => digest != host.sha256 body then
        .error "artifact checksum does not match the job record"
      else .ok path
  else .error "artifact path is outside the configured artifact directory"

/-- `verify(artifacts_dir, references)`: the failures. -/
def verify (host : Host γ) (files : Files γ) (refs : List (String × Option Digest)) :
    List String :=
  refs.filterMap fun x =>
    match resolveArtifact host files x.1 x.2 with
    | .ok _ => none
    | .error error => some s!"{x.1}: {error}"

/-! ## The system -/

/-- A run of `execute`: the targets that are left, and the path whose reference change is committed
and which is unlinked next. -/
structure Sweeping where
  todo : List Target
  due : Option String := none
  deriving DecidableEq, Repr

/-- How far `backup` has come: the references of the dump; the paths that the copy has still to
read, and what it has read. -/
inductive Pass (γ : Type*)
  | idle
  | dumped (refs : List (String × Option Digest))
  | copying (refs : List (String × Option Digest)) (awaited : List String) (copied : Files γ)
  | done (refs : List (String × Option Digest)) (copied : Files γ)

/-- The database, the files, the runs of retention and the backup. -/
structure Site (γ : Type*) where
  tables : Tables
  files : Files γ
  sweeps : List Sweeping
  pass : Pass γ

/-- Nothing is recorded and nothing runs. -/
def Site.start : Site γ where
  tables := ⟨[], [], [], List.nodup_nil, List.nodup_nil, List.nodup_nil⟩
  files := []
  sweeps := []
  pass := .idle

/-- What the parts of the system do. -/
inductive Act (γ : Type*)
  | write (path : String) (content : γ)
  | register (a : JobArtifact)
  | finish (id : Uuid) (path : String) (sha256 : Option Digest)
  | other (db : Tables)
  | select (order : List Output) (now : Time)
  | commit (sweep : ℕ) (now : Time)
  | unlink (sweep : ℕ)
  | stop (sweep : ℕ)
  | dump
  | copy
  | visit (path : String)
  | close

/-- A recorded path resolves. -/
def resolves (host : Host γ) (files : Files γ) (path : String) (sha256 : Option Digest) : Bool :=
  (resolveArtifact host files path sha256).isOk

/-- The insert of `register_artifact`. -/
def registerArtifact (db : Tables) (a : JobArtifact) : Tables :=
  if h : ∀ b ∈ db.artifacts, b.id ≠ a.id then
    { db with artifacts := db.artifacts ++ [a], artifacts_keyed := db.artifacts_keyed.append h }
  else db

/-- `artifact_path = coalesce(path, artifact_path)` and the same for the digest. -/
def Job.record (path : String) (sha256 : Option Digest) (j : Job) : Job :=
  { j with artifactPath := some path, artifactSha256 := sha256 <|> j.artifactSha256 }

/-- The update of `finish_job`. -/
def finishJob (db : Tables) (id : Uuid) (path : String) (sha256 : Option Digest) : Tables :=
  { db with
    jobs := update (fun j => j.id == id) (Job.record path sha256) db.jobs
    jobs_keyed := db.jobs_keyed.update fun _ => rfl }

/-- One step of `execute`: the reference change of the next target, or the error that ends the
run. -/
def commitTarget (s : Site γ) (sweep : ℕ) (now : Time) : Site γ :=
  match s.sweeps[sweep]? with
  | some ⟨t :: ts, none⟩ =>
    if s.tables.named t = 1 then
      { s with
        tables := s.tables.retire now t
        sweeps := s.sweeps.set sweep ⟨ts, some t.path⟩ }
    else { s with sweeps := s.sweeps.set sweep ⟨[], none⟩ }
  | _ => s

/-- One step of `execute`: the unlink that follows the reference change. -/
def unlinkTarget (s : Site γ) (sweep : ℕ) : Site γ :=
  match s.sweeps[sweep]? with
  | some ⟨ts, some path⟩ =>
    { s with files := s.files.unlink path, sweeps := s.sweeps.set sweep ⟨ts, none⟩ }
  | _ => s

/-- The second pass reads a file, or finds it gone. -/
def visitFile (s : Site γ) (path : String) : Site γ :=
  match s.pass with
  | .copying refs awaited copied =>
    if (copied.read path).isSome then s
    else
      { s with
        pass := .copying refs (awaited.filter fun p => p != path)
          (copied ++ ((s.files.read path).map fun content => (path, content)).toList) }
  | _ => s

/-- One step.  A publication finds its file written; other statements leave the references alone. -/
def step (host : Host γ) (s : Site γ) : Act γ → Site γ
  | .write path content =>
    if (s.files.read path).isSome then s else { s with files := s.files ++ [(path, content)] }
  | .register a =>
    if a.available && resolves host s.files a.location (some a.sha256) then
      { s with tables := registerArtifact s.tables a }
    else s
  | .finish id path sha256 =>
    if s.tables.jobs.all fun j =>
        j.id != id || resolves host s.files path (sha256 <|> j.artifactSha256) then
      { s with tables := finishJob s.tables id path sha256 }
    else s
  | .other db => if references db = references s.tables then { s with tables := db } else s
  | .select order now =>
    if h : order.Perm (outputs s.tables) ∧ order.Pairwise Newer then
      match select host s.files ⟨order, h.1, h.2⟩ now with
      | .ok report => { s with sweeps := s.sweeps ++ [⟨report.targets, none⟩] }
      | .error _ => s
    else s
  | .commit sweep now => commitTarget s sweep now
  | .unlink sweep => unlinkTarget s sweep
  | .stop sweep => { s with sweeps := s.sweeps.set sweep ⟨[], none⟩ }
  | .dump =>
    match s.pass with
    | .idle | .done .. => { s with pass := .dumped (artifactReferences s.tables) }
    | _ => s
  | .copy =>
    match s.pass with
    | .dumped refs =>
      { s with pass := .copying refs ((s.files.map Prod.fst).filter host.inside) [] }
    | _ => s
  | .visit path => visitFile s path
  | .close =>
    match s.pass with
    | .copying refs [] copied => { s with pass := .done refs copied }
    | _ => s

/-- A backup that is complete restores to a pair that verifies: every dumped reference names a
copied file with the recorded digest. -/
def Restorable (host : Host γ) (s : Site γ) : Prop :=
  ∀ refs copied, s.pass = .done refs copied →
    (∀ x ∈ refs, ∃ content, copied.read (host.resolve x.1) = some content ∧
        ∀ digest ∈ x.2, host.sha256 content = digest) ∧
      verify host copied refs = []

/-! ## What an unlink may hit -/

/-- No reference of the list leads to the path. -/
def avoids (host : Host γ) (refs : List (String × Option Digest)) (path : String) : Bool :=
  refs.all fun x => host.resolve x.1 != path

/-- The copy does not need the path any more. -/
def Pass.spares (host : Host γ) (path : String) : Pass γ → Bool
  | .dumped refs => avoids host refs path
  | .copying refs awaited _ => !awaited.contains path || avoids host refs path
  | .idle | .done .. => true

/-- An unlinked path is named neither by the database nor by a dump whose copy has not read it. -/
def spares (host : Host γ) (s : Site γ) : Act γ → Bool
  | .unlink sweep =>
    match s.sweeps[sweep]? with
    | some ⟨_, some path⟩ =>
      avoids host (artifactReferences s.tables) path && s.pass.spares host path
    | _ => true
  | _ => true

/-- The action takes no file that is still needed. -/
def Spares (host : Host γ) (s : Site γ) (a : Act γ) : Prop := spares host s a = true

instance (host : Host γ) (s : Site γ) (a : Act γ) : Decidable (Spares host s a) :=
  inferInstanceAs (Decidable (_ = true))

end CommerceCollector.Retention.Backup
