import CommerceCollector.Ops.RetentionSafety

/-!
# Retention that was interrupted

A run of `execute` may crash between two targets, or between the reference change of a target and
its unlink.  A later run selects files through references only: it raises for nothing that a crash
leaves, but the file of a target whose reference change was committed stays where it is, unless
another reference leads to it.
-/

namespace CommerceCollector.Retention

open Relational

variable {γ : Type*}

/-- Where a run crashes: after some targets, and whether the reference change of the next is
committed. -/
structure Crash where
  done : ℕ
  committed : Bool

/-- What a run leaves that crashes. -/
def interrupted (now : Time) (s : Swept γ) (crash : Crash) (ts : List Target) : Swept γ :=
  let s := execute now s (ts.take crash.done)
  match ts[crash.done]? with
  | some t =>
    if crash.committed = true ∧ s.tables.named t = 1 then { s with tables := s.tables.retire now t } else s
  | none => s

/-- What later runs leave, at whatever moments and with whatever rankings. -/
inductive Sweeps (host : Host γ) (s : Swept γ) : Swept γ → Prop
  | start : Sweeps host s s
  | sweep {s'} (before : Sweeps host s s') (r : Ranking s'.tables) (now : Time) :
      Sweeps host s (sweep host s'.files r now)

/-- A file on disk, all of whose references an interrupted run has removed. -/
structure Orphaned (host : Host γ) (before crashed : Tables) (files : Files γ) (path : String) : Prop where
  file : (files.read path).isSome = true
  referenced : ∃ x ∈ references before, host.resolve x.path = path
  removed : ∀ x ∈ references crashed, host.resolve x.path ≠ path

/-- The message of a path outside the artifact directory. -/
def Outside (host : Host γ) (db : Tables) (message : String) : Prop :=
  ∃ x ∈ references db, host.inside (host.resolve x.path) = false ∧
    message = s!"artifact path is outside retention root: {x.path}"

/-! ## Selected targets -/

section Select

variable {host : Host γ} {files : Files γ} {db : Tables} {r : Ranking db} {now : Time}

theorem select_error {message : String} (h : select host files r now = .error message) :
    Outside host db message := by
  unfold select at h
  dsimp only at h
  split at h
  · rename_i c hc
    have hin := List.mem_of_find?_eq_some hc
    obtain ⟨x, hx, -, hpath⟩ := availableIn_of_mem_ranked (mem_selectCandidates.mp hin).mem
    refine ⟨x, hx, ?_, ?_⟩
    · simpa [hpath] using List.find?_some hc
    · rw [hpath]
      exact (Except.error.inj h).symm
  · exact nomatch h

/-- The targets come from different rows, and each takes the path of its row. -/
theorem select_targets {report : Report} (h : select host files r now = .ok report) :
    (report.targets.map Target.ref).Nodup ∧
      ∀ t ∈ report.targets, ∃ x ∈ references db, x.ref = t.ref ∧ host.resolve x.path = t.path := by
  have htargets : report.targets = (selectCandidates r now).map (target host files) := by
    unfold select at h
    dsimp only at h
    split at h
    · exact nomatch h
    · rw [← Except.ok.inj h]
  rw [htargets, List.map_map]
  refine ⟨nodup_ref_selectCandidates r now, fun t ht => ?_⟩
  obtain ⟨c, hc, rfl⟩ := List.mem_map.mp ht
  obtain ⟨x, hx, href, hpath⟩ := availableIn_of_mem_ranked (mem_selectCandidates.mp hc).mem
  exact ⟨x, hx, href, congrArg host.resolve hpath⟩

end Select

theorem nodup_ref_references (db : Tables) : ((references db).map Reference.ref).Nodup := by
  have hj := sublist_filterMap (k := fun j => RefId.job j.id) (g := Reference.ref)
    (f := fun j : Job => j.artifactPath.map fun path => ⟨.job j.id, path, j.artifactSha256⟩)
    (fun j x h => by obtain ⟨path, -, rfl⟩ := Option.map_eq_some_iff.mp h; rfl) db.jobs
  have ha : ((db.artifacts.filter JobArtifact.available).map fun a => RefId.artifact a.id).Sublist
      (db.artifacts.map fun a => .artifact a.id) := List.Sublist.map _ List.filter_sublist
  obtain ⟨hnd, hnd', hdisjoint⟩ := nodup_append_refs ha hj
  rw [references, List.map_append, List.map_map]
  exact hnd'.append hnd hdisjoint.symm

/-! ## Files -/

theorem read_execute (now : Time) (files : Files γ) (ts : List Target) {s : Swept γ}
    (h : ∀ path, s.files.read path = if path ∈ s.unlinked then none else files.read path) (path : String) :
    (execute now s ts).files.read path =
      if path ∈ (execute now s ts).unlinked then none else files.read path := by
  induction ts generalizing s with
  | nil => exact h path
  | cons t ts ih =>
    rw [execute]
    by_cases hnamed : s.tables.named t = 1
    · rw [if_pos hnamed]
      refine ih fun other => ?_
      rw [Files.read_unlink, h]
      simp only [List.mem_append, List.mem_singleton]
      split_ifs <;> tauto
    · rw [if_neg hnamed]
      exact h path

section Runs

variable {host : Host γ} {files : Files γ} {db : Tables} {r : Ranking db} {now : Time} {report : Report}

/-- **What a crash leaves.** -/
theorem interrupted_spec (h : select host files r now = .ok report) (crash : Crash) :
    let s := interrupted now ⟨db, files, [], none⟩ crash report.targets
    s.error = none ∧
    (∀ x, x ∈ references s.tables ↔ x ∈ references db ∧ x.ref ∉
      (report.targets.take (crash.done + crash.committed.toNat)).map Target.ref) ∧
    ∀ path, s.files.read path =
      if path ∈ (report.targets.take crash.done).map Target.path then none else files.read path := by
  obtain ⟨hnodup, hrows⟩ := select_targets h
  have hsub := List.take_sublist crash.done report.targets
  obtain ⟨herror, hrefs, hunlinked⟩ := execute_targets now (report.targets.take crash.done)
    ⟨db, files, [], none⟩ (hnodup.sublist (hsub.map _)) rfl fun t ht => by
      obtain ⟨x, hx, href, -⟩ := hrows t (hsub.subset ht)
      exact List.mem_map.mpr ⟨x, hx, href⟩
  have hread := read_execute now files (report.targets.take crash.done)
    (s := ⟨db, files, [], none⟩) fun path => by rw [if_neg List.not_mem_nil]
  rw [hunlinked] at hread
  have hleft : ∀ x, x ∈ references (execute now ⟨db, files, [], none⟩
      (report.targets.take crash.done)).tables ↔
        x ∈ references db ∧ x.ref ∉ (report.targets.take crash.done).map Target.ref := by
    intro x
    rw [hrefs, List.mem_filter, decide_eq_true_eq]
  unfold interrupted
  dsimp only
  cases hnext : report.targets[crash.done]? with
  | none =>
    refine ⟨herror, fun x => ?_, hread⟩
    have hlength := List.getElem?_eq_none_iff.mp hnext
    rw [hleft, List.take_of_length_le hlength, List.take_of_length_le (by omega)]
  | some t =>
    have htake : report.targets.take (crash.done + 1) = report.targets.take crash.done ++ [t] := by
      rw [List.take_add_one, hnext]
      rfl
    cases hcommitted : crash.committed with
    | false =>
      dsimp only
      rw [if_neg (by simp)]
      exact ⟨herror, hleft, hread⟩
    | true =>
      -- The row of the next target is none of those of the targets before it.
      have hnamed : (execute now ⟨db, files, [], none⟩
          (report.targets.take crash.done)).tables.named t = 1 := by
        obtain ⟨x, hx, href, -⟩ := hrows t (List.mem_of_getElem? hnext)
        refine named_eq_one_iff.mpr (List.mem_map.mpr ⟨x, (hleft x).mpr ⟨hx, fun hin => ?_⟩, href⟩)
        have hprefix := hnodup.sublist ((List.take_sublist (crash.done + 1) _).map Target.ref)
        rw [htake, List.map_append] at hprefix
        exact List.disjoint_of_nodup_append hprefix hin (href ▸ List.mem_singleton.mpr rfl)
      dsimp only
      rw [if_pos ⟨rfl, hnamed⟩]
      refine ⟨herror, fun x => ?_, hread⟩
      rw [references_retire, List.mem_filter, hleft, bne_iff_ne, Bool.toNat_true, htake, List.map_append,
        List.mem_append, not_or, and_assoc]
      simp

/-- What one run leaves: references and files only go, files only where references lead. -/
theorem sweep_spec (host : Host γ) (files : Files γ) {db : Tables} (r : Ranking db) (now : Time) :
    (references (sweep host files r now).tables ⊆ references db) ∧
    (∀ path, (∀ x ∈ references db, host.resolve x.path ≠ path) →
      (sweep host files r now).files.read path = files.read path) ∧
    (∀ path, files.read path = none → (sweep host files r now).files.read path = none) ∧
    ∀ message, (sweep host files r now).error = some message → Outside host db message := by
  unfold sweep
  cases hselect : select host files r now with
  | error message =>
    refine ⟨fun _ h => h, fun _ _ => rfl, fun _ h => h, fun message' h => ?_⟩
    exact Option.some.inj h ▸ select_error hselect
  | ok report =>
    obtain ⟨hnodup, hrows⟩ := select_targets hselect
    obtain ⟨herror, hrefs, hunlinked⟩ := execute_targets now report.targets
      ⟨db, files, [], none⟩ hnodup rfl fun t ht => by
        obtain ⟨x, hx, href, -⟩ := hrows t ht
        exact List.mem_map.mpr ⟨x, hx, href⟩
    have hread := read_execute now files report.targets (s := ⟨db, files, [], none⟩) fun path => by
      rw [if_neg List.not_mem_nil]
    dsimp only
    refine ⟨fun x hx => ?_, fun path hpath => ?_, fun path hpath => ?_, fun message hmessage => ?_⟩
    · rw [hrefs] at hx
      exact (List.mem_filter.mp hx).1
    · rw [hread, if_neg]
      intro hin
      rw [hunlinked] at hin
      obtain ⟨t, ht, rfl⟩ := List.mem_map.mp hin
      obtain ⟨x, hx, -, hsame⟩ := hrows t ht
      exact hpath x hx hsame
    · rw [hread, hpath, ite_self]
    · exact nomatch herror.symm.trans hmessage

theorem Sweeps.spec {s s' : Swept γ} (h : Sweeps host s s') :
    (references s'.tables ⊆ references s.tables) ∧
    (∀ path, (∀ x ∈ references s.tables, host.resolve x.path ≠ path) →
      s'.files.read path = s.files.read path) ∧
    (∀ path, s.files.read path = none → s'.files.read path = none) ∧
    (s.error = none → ∀ message, s'.error = some message → Outside host s.tables message) := by
  induction h with
  | start => exact ⟨fun _ h => h, fun _ _ => rfl, fun _ h => h, fun hs _ h => nomatch hs.symm.trans h⟩
  | sweep before r now ih =>
    obtain ⟨hrefs, hkept, hgone, -⟩ := ih
    obtain ⟨hrefs', hkept', hgone', herror'⟩ := sweep_spec host _ r now
    refine ⟨fun x hx => hrefs (hrefs' hx), fun path hpath => ?_, fun path hpath => ?_,
      fun _ message hmessage => ?_⟩
    · exact (hkept' path fun x hx => hpath x (hrefs hx)).trans (hkept path hpath)
    · exact hgone' path (hgone path hpath)
    · obtain ⟨x, hx, hout⟩ := herror' message hmessage
      exact ⟨x, hrefs hx, hout⟩

/-- **The run crashes between the reference change and the unlink of a target** whose file is on
disk and to which only references lead that the run has removed. -/
def Stranded (host : Host γ) (files : Files γ) (db : Tables) (ts : List Target) (crash : Crash) : Prop :=
  crash.committed = true ∧ ∃ t, ts[crash.done]? = some t ∧ (files.read t.path).isSome = true ∧
    t.path ∉ (ts.take crash.done).map Target.path ∧
    ∀ x ∈ references db, host.resolve x.path = t.path → x.ref ∈ (ts.take (crash.done + 1)).map Target.ref

end Runs

/-! ## A file that nobody removes -/

/-- Three jobs without datasets: the oldest one has expired. -/
def legacyThrice : Tables where
  jobs := [publishedJob 1 (days 10) "/a/1", publishedJob 2 (days 20) "/a/2",
    publishedJob 3 (days 29) "/a/3"]
  datasets := []
  artifacts := []
  jobs_keyed := publishedThrice.jobs_keyed
  datasets_keyed := .nil
  artifacts_keyed := .nil

/-- The only order of their outputs. -/
def legacyRanking : Ranking legacyThrice where
  order := (outputs legacyThrice).reverse
  perm := List.reverse_perm _
  sorted := by decide

/-- The target of the oldest job. -/
def legacyTarget : Target :=
  { jobId := 1, sourceId := "pots", path := "/a/1", bytes := 5, artifactId := none }

theorem select_legacy : select plainHost [("/a/1", 5)] legacyRanking (days 30) =
    .ok { targets := [legacyTarget], missing := 0 } := by
  decide

/-- What a run leaves that crashes before the unlink. -/
def legacyCrash : Swept ℕ := interrupted (days 30) ⟨legacyThrice, [("/a/1", 5)], [], none⟩ ⟨0, true⟩
  [legacyTarget]

end CommerceCollector.Retention
