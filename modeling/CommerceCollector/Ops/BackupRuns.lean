import CommerceCollector.Ops.Backup

/-!
# Backups that verify

The invariant of a run: every recorded reference resolves, and every reference of the dump resolves
in the copy or waits for it and still resolves in the directory.  Files are written once, so every
step keeps it but an unlink of a path that is still named; the exception is real, since retention
takes no notice of a backup that has dumped the database and not yet read the file.
-/

namespace CommerceCollector.Retention.Backup

open Relational

variable {γ : Type*} {host : Host γ} {s : Site γ}

/-! ## References that resolve -/

variable {path : String} {sha256 : Option Digest}

/-- A recorded path resolves iff it leads to a file below the directory that has the recorded
digest. -/
theorem resolves_iff {files : Files γ} :
    resolves host files path sha256 = true ↔
      host.inside (host.resolve path) = true ∧
        ∃ content, files.read (host.resolve path) = some content ∧
          ∀ digest ∈ sha256, host.sha256 content = digest := by
  unfold resolves resolveArtifact
  dsimp only
  cases hinside : host.inside (host.resolve path) with
  | false => simp [Except.isOk, Except.toBool]
  | true =>
    cases hread : files.read (host.resolve path) with
    | none => simp [Except.isOk, Except.toBool]
    | some content =>
      cases sha256 with
      | none => simp [Except.isOk, Except.toBool]
      | some digest =>
        by_cases hdigest : digest = host.sha256 content
        · simp [Except.isOk, Except.toBool, hdigest]
        · simp [Except.isOk, Except.toBool, hdigest, Ne.symm hdigest]

/-- `verify` finds no failure iff every reference resolves. -/
theorem verify_eq_nil {files : Files γ} {refs : List (String × Option Digest)} :
    verify host files refs = [] ↔ ∀ x ∈ refs, resolves host files x.1 x.2 = true := by
  unfold verify resolves
  rw [List.filterMap_eq_nil_iff]
  refine forall₂_congr fun x _ => ?_
  cases resolveArtifact host files x.1 x.2 <;> simp [Except.isOk, Except.toBool]

/-- A file that can be read at the paths of another one holds what it holds. -/
theorem resolves_of_read {files files' : Files γ} (h : resolves host files path sha256 = true)
    (hread : ∀ content, files.read (host.resolve path) = some content →
      files'.read (host.resolve path) = some content) :
    resolves host files' path sha256 = true := by
  rw [resolves_iff] at h ⊢
  obtain ⟨hinside, content, hcontent, hdigest⟩ := h
  exact ⟨hinside, content, hread content hcontent, hdigest⟩

theorem read_append {files added : Files γ} {content : γ}
    (h : files.read path = some content) : (files ++ added).read path = some content := by
  unfold Files.read at h ⊢
  rw [List.lookup_append, h]
  rfl

theorem avoids_iff {refs : List (String × Option Digest)} :
    avoids host refs path = true ↔ ∀ x ∈ refs, host.resolve x.1 ≠ path := by
  simp [avoids]

variable {db : Tables}

theorem mem_artifactReferences {x : String × Option Digest} :
    x ∈ artifactReferences db ↔ ∃ r ∈ references db, (r.path, r.sha256) = x := by
  simp [artifactReferences]

/-! ## The invariant -/

/-- What the dump refers to is in the copy, or waits for it. -/
def Pass.Holds (host : Host γ) (files : Files γ) : Pass γ → Prop
  | .idle => True
  | .dumped refs => ∀ x ∈ refs, resolves host files x.1 x.2 = true
  | .copying refs awaited copied => ∀ x ∈ refs, resolves host copied x.1 x.2 = true ∨
      host.resolve x.1 ∈ awaited ∧ resolves host files x.1 x.2 = true
  | .done refs copied => ∀ x ∈ refs, resolves host copied x.1 x.2 = true

/-- Every recorded reference resolves, and the backup is on its way to a copy that verifies. -/
structure Inv (host : Host γ) (s : Site γ) : Prop where
  sound : ∀ r ∈ references s.tables, resolves host s.files r.path r.sha256 = true
  holds : s.pass.Holds host s.files

/-- Every reference that `ARTIFACT_REFERENCES` selects resolves. -/
theorem Inv.selected (h : Inv host s) {x : String × Option Digest}
    (hx : x ∈ artifactReferences s.tables) : resolves host s.files x.1 x.2 = true := by
  obtain ⟨r, hr, rfl⟩ := mem_artifactReferences.mp hx
  exact h.sound r hr

theorem Pass.Holds.mono {files files' : Files γ} {pass : Pass γ} (h : pass.Holds host files)
    (hfiles : ∀ path, pass.spares host path = false → ∀ content,
      files.read path = some content → files'.read path = some content) :
    pass.Holds host files' := by
  cases pass with
  | idle => trivial
  | done refs copied => exact h
  | dumped refs =>
    intro x hx
    refine resolves_of_read (h x hx) (hfiles _ ?_)
    rw [← Bool.not_eq_true]
    exact fun hspares => avoids_iff.mp hspares x hx rfl
  | copying refs awaited copied =>
    intro x hx
    refine (h x hx).imp_right fun ⟨hawaited, hresolves⟩ => ⟨hawaited, ?_⟩
    refine resolves_of_read hresolves (hfiles _ ?_)
    rw [← Bool.not_eq_true]
    intro hspares
    rcases Bool.or_eq_true_iff.mp hspares with hread | havoids
    · simp [hawaited] at hread
    · exact avoids_iff.mp havoids x hx rfl

theorem Inv.append (h : Inv host s) (added : Files γ) :
    Inv host { s with files := s.files ++ added } :=
  ⟨fun r hr => resolves_of_read (h.sound r hr) fun _ => read_append,
    h.holds.mono fun _ _ _ => read_append⟩

/-- Rows that refer to files that resolve may come, and references may go. -/
theorem Inv.setTables (h : Inv host s) (hdb : ∀ r ∈ references db, r ∈ references s.tables ∨
      resolves host s.files r.path r.sha256 = true) : Inv host { s with tables := db } :=
  ⟨fun r hr => (hdb r hr).elim (h.sound r) id, h.holds⟩

theorem Inv.setSweeps (h : Inv host s) (sweeps : List Sweeping) :
    Inv host { s with sweeps := sweeps } := ⟨h.sound, h.holds⟩

/-! ## The steps -/

theorem references_registerArtifact {a : JobArtifact} {r : Reference}
    (h : r ∈ references (registerArtifact db a)) :
    r ∈ references db ∨ r = ⟨.artifact a.id, a.location, some a.sha256⟩ := by
  unfold registerArtifact at h
  split at h
  · simp only [references, List.filter_append, List.map_append, List.mem_append] at h
    rcases h with hjob | hold | hnew
    · exact .inl (List.mem_append_left _ hjob)
    · exact .inl (List.mem_append_right _ hold)
    · obtain ⟨b, hb, rfl⟩ := List.mem_map.mp hnew
      obtain rfl := List.mem_singleton.mp (List.mem_filter.mp hb).1
      exact .inr rfl
  · exact .inl h

theorem references_finishJob {id : Uuid} {r : Reference}
    (h : r ∈ references (finishJob db id path sha256)) :
    r ∈ references db ∨ ∃ j ∈ db.jobs, j.id = id ∧ r.path = path ∧
      r.sha256 = (sha256 <|> j.artifactSha256) := by
  rcases List.mem_append.mp h with hjob | hartifact
  · obtain ⟨j', hj', hr⟩ := List.mem_filterMap.mp hjob
    obtain ⟨j, hj, rfl⟩ := mem_update.mp hj'
    by_cases hid : j.id = id
    · simp only [hid, beq_self_eq_true, if_true, Job.record, Option.map_some,
        Option.some.injEq] at hr
      subst hr
      exact .inr ⟨j, hj, hid, rfl, rfl⟩
    · simp only [beq_iff_eq, hid, if_false] at hr
      exact .inl (List.mem_append_left _ (List.mem_filterMap.mpr ⟨j, hj, hr⟩))
  · exact .inl (List.mem_append_right _ hartifact)

theorem Inv.commitTarget (h : Inv host s) (sweep : ℕ) (now : Time) :
    Inv host (commitTarget s sweep now) := by
  unfold Backup.commitTarget
  split
  · split
    · rename_i t ts _ _
      have hretired : Inv host { s with tables := s.tables.retire now t } := by
        refine h.setTables fun r hr => .inl ?_
        rw [references_retire] at hr
        exact (List.mem_filter.mp hr).1
      exact hretired.setSweeps _
    · exact h.setSweeps _
  · exact h

theorem Inv.unlinkTarget (h : Inv host s) {sweep : ℕ} (hspares : Spares host s (.unlink sweep)) :
    Inv host (unlinkTarget s sweep) := by
  unfold Backup.unlinkTarget
  unfold Spares spares at hspares
  dsimp only at hspares
  split
  · rename_i ts path hsweep
    rw [hsweep] at hspares
    obtain ⟨hrows, hpass⟩ := Bool.and_eq_true_iff.mp hspares
    refine Inv.setSweeps (s := { s with files := s.files.unlink path }) ⟨?_, ?_⟩ _
    · intro r hr
      have hne : host.resolve r.path ≠ path :=
        avoids_iff.mp hrows _ (mem_artifactReferences.mpr ⟨r, hr, rfl⟩)
      refine resolves_of_read (h.sound r hr) fun content hread => ?_
      rw [Files.read_unlink, if_neg hne, hread]
    · refine h.holds.mono fun p hp content hread => ?_
      have hne : p ≠ path := by
        rintro rfl
        exact absurd hpass (by simp [hp])
      rw [Files.read_unlink, if_neg hne, hread]
  · exact h

theorem Inv.visitFile (h : Inv host s) (path : String) : Inv host (visitFile s path) := by
  unfold Backup.visitFile
  split
  · rename_i refs awaited copied hpass
    split
    · exact h
    · rename_i hfresh
      have hholds := h.holds
      rw [hpass] at hholds
      refine ⟨h.sound, fun x hx => ?_⟩
      rcases hholds x hx with hcopied | ⟨hawaited, hresolves⟩
      · exact .inl (resolves_of_read hcopied fun _ => read_append)
      · by_cases hpath : host.resolve x.1 = path
        · -- The file is still there, and nothing was copied under its path.
          refine .inl (resolves_of_read hresolves fun content hread => ?_)
          rw [hpath] at hread ⊢
          have hnone : copied.read path = none := by simpa using hfresh
          unfold Files.read at hnone hread ⊢
          rw [List.lookup_append, hnone, hread]
          simp
        · exact .inr ⟨List.mem_filter.mpr ⟨hawaited, by simpa using hpath⟩, hresolves⟩
  · exact h

theorem Inv.step (h : Inv host s) {a : Act γ} (hspares : Spares host s a) :
    Inv host (step host s a) := by
  cases a with
  | write path content =>
    simp only [Backup.step]
    split
    · exact h
    · exact h.append _
  | register a =>
    simp only [Backup.step]
    split
    · rename_i hwritten
      refine h.setTables fun r hr => ?_
      refine (references_registerArtifact hr).imp_right ?_
      rintro rfl
      exact (Bool.and_eq_true_iff.mp hwritten).2
    · exact h
  | finish id path sha256 =>
    simp only [Backup.step]
    split
    · rename_i hwritten
      refine h.setTables fun r hr => ?_
      refine (references_finishJob hr).imp_right ?_
      rintro ⟨j, hj, hid, hpath, hsha⟩
      have hj' := List.all_eq_true.mp hwritten j hj
      rw [hpath, hsha]
      simpa [hid] using hj'
    · exact h
  | other db =>
    simp only [Backup.step]
    split
    · rename_i hsame
      exact h.setTables fun r hr => .inl (hsame ▸ hr)
    · exact h
  | select order now =>
    simp only [Backup.step]
    split
    · split
      · exact h.setSweeps _
      · exact h
    · exact h
  | commit sweep now => exact h.commitTarget sweep now
  | unlink sweep => exact h.unlinkTarget hspares
  | stop sweep => exact h.setSweeps _
  | dump =>
    simp only [Backup.step]
    split
    · exact ⟨h.sound, fun x hx => h.selected hx⟩
    · exact ⟨h.sound, fun x hx => h.selected hx⟩
    · exact h
  | copy =>
    simp only [Backup.step]
    split
    · rename_i refs hpass
      have hholds := h.holds
      rw [hpass] at hholds
      refine ⟨h.sound, fun x hx => .inr ⟨?_, hholds x hx⟩⟩
      obtain ⟨hinside, content, hread, -⟩ := resolves_iff.mp (hholds x hx)
      refine List.mem_filter.mpr ⟨?_, hinside⟩
      obtain ⟨before, after, hfiles, -⟩ := List.lookup_eq_some_iff.mp hread
      rw [hfiles]
      simp
    · exact h
  | visit path => exact h.visitFile path
  | close =>
    simp only [Backup.step]
    split
    · rename_i refs copied hpass
      have hholds := h.holds
      rw [hpass] at hholds
      exact ⟨h.sound, fun x hx => (hholds x hx).resolve_right fun hawaited =>
        List.not_mem_nil hawaited.1⟩
    · exact h

theorem inv_start : Inv host Site.start := ⟨nofun, trivial⟩

/-- **Backups verify.**  In every run whose unlinks take no file that is named by the database, or
by a dump whose copy has not read it, every complete backup restores to a pair that verifies. -/
theorem backup_restorable (host : Host γ) {acts : List (Act γ)}
    (hspares : Trace.Along (step host) (Spares host) .start acts) :
    Restorable host (Trace.exec (step host) .start acts) := by
  have hinv : Inv host (Trace.exec (step host) .start acts) :=
    Trace.exec_invariant_of_along (step host) (I := Inv host)
      (fun _ _ hc h => h.step hc) inv_start hspares
  intro refs copied hdone
  have hholds := hinv.holds
  rw [hdone] at hholds
  refine ⟨fun x hx => ?_, verify_eq_nil.mpr hholds⟩
  exact (resolves_iff.mp (hholds x hx)).2

/-! ## Retention during a backup -/

/-- The rows of three published jobs without their artifacts. -/
def threeJobs : Tables where
  jobs := [⟨1, "pots", .succeeded, some (days 10), none, none, {}⟩,
    ⟨2, "pots", .succeeded, some (days 20), none, none, {}⟩,
    ⟨3, "pots", .succeeded, some (days 29), none, none, {}⟩]
  datasets := [publishedDataset 1, publishedDataset 2, publishedDataset 3]
  artifacts := []
  jobs_keyed := by unfold Keyed; decide
  datasets_keyed := publishedThrice.datasets_keyed
  artifacts_keyed := List.nodup_nil

/-- The output of one of them. -/
def threeOutput (id : Uuid) (finished : Time) (path : String) : Output :=
  ⟨id, "pots", .succeeded, some finished, path, some id, "products", true⟩

/-- The three jobs publish their artifacts. -/
def publishThree : List (Act ℕ) :=
  [.other threeJobs, .write "/a/1" 1, .register (publishedArtifact 1 "/a/1"), .write "/a/2" 2,
    .register (publishedArtifact 2 "/a/2"), .write "/a/3" 3,
    .register (publishedArtifact 3 "/a/3")]

/-- Retention takes the artifact of the oldest one. -/
def retireOldest : List (Act ℕ) :=
  [.select [threeOutput 3 (days 29) "/a/3", threeOutput 2 (days 20) "/a/2",
      threeOutput 1 (days 10) "/a/1"] (days 30), .commit 0 (days 30), .unlink 0]

/-- The copy reads the three files. -/
def copyThree : List (Act ℕ) := [.copy, .visit "/a/1", .visit "/a/2", .visit "/a/3", .close]

theorem backup_restorable_before_retention :
    Restorable plainHost
      (Trace.exec (step plainHost) .start (publishThree ++ [.dump] ++ copyThree ++ retireOldest)) :=
  backup_restorable plainHost (by decide +kernel)

/-- A file that is unlinked between the dump and the copy is missing in the backup. -/
theorem retention_during_backup :
    ¬ ∀ acts : List (Act ℕ), Restorable plainHost (Trace.exec (step plainHost) .start acts) := by
  intro h
  have hrun := h (publishThree ++ [.dump] ++ retireOldest ++ copyThree)
  obtain ⟨-, hverify⟩ := hrun [("/a/1", some 1), ("/a/2", some 2), ("/a/3", some 3)]
    [("/a/2", 2), ("/a/3", 3)] rfl
  exact absurd hverify (by decide)

end CommerceCollector.Retention.Backup
