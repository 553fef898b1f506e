import CommerceCollector.Ops.Retention

/-!
# What retention may delete

A run of retention is safe when no reference that is left names an unlinked path and the two newest
usable outputs of a source and dataset are still referenced.  `execute` removes the references of
its targets, one after another, and nothing else (`execute_targets`); so a run is safe iff every
selected row may go and takes along all references to its file.

The selection compares the text of the paths, and the jobs in place of the outputs: a reference from
the same job, from a row that is no output, or in another spelling survives the file.
-/

namespace CommerceCollector.Retention

open Relational

variable {γ : Type*}

theorem Files.read_unlink (files : Files γ) (path other : String) :
    (files.unlink other).read path = if path = other then none else files.read path := by
  unfold unlink read
  induction files with
  | nil => simp
  | cons f files ih =>
    rw [List.filter_cons]
    by_cases hf : f.1 = other
    · rw [if_neg (by simp [hf]), ih, List.lookup_cons]
      by_cases hpath : path = other
      · rw [if_pos hpath, if_pos hpath]
      · rw [if_neg hpath, if_neg hpath, beq_eq_false_iff_ne.mpr fun h => hpath (h.trans hf)]
    · rw [if_pos (by simp [hf]), List.lookup_cons, List.lookup_cons, ih]
      by_cases hpath : path = f.1
      · subst hpath
        simp [hf]
      · rw [beq_eq_false_iff_ne.mpr hpath]

/-! ## The row of an output -/

/-- The row that records the path of an output. -/
def Output.ref (o : Output) : RefId :=
  match o.artifactId with
  | some id => .artifact id
  | none => .job o.id

/-- The row that a target changes. -/
def Target.ref (t : Target) : RefId :=
  match t.artifactId with
  | some id => .artifact id
  | none => .job t.jobId

/-- The output is still available. -/
def Output.AvailableIn (o : Output) (db : Tables) : Prop :=
  ∃ x ∈ references db, x.ref = o.ref ∧ x.path = o.artifactPath

variable {db : Tables}

theorem datasetOutput_some {a : JobArtifact} {o : Output} (h : datasetOutput db a = some o) :
    o.ref = .artifact a.id ∧ o.artifactPath = a.location ∧ a.available = true := by
  unfold datasetOutput at h
  split at h
  · split at h
    · rename_i hc
      simp only [Option.some.injEq] at h
      subst h
      simp only [Bool.and_eq_true] at hc
      exact ⟨rfl, rfl, hc.1.1⟩
    · exact absurd h (by simp)
  · exact absurd h (by simp)

theorem legacyOutput_some {j : Job} {o : Output} (h : legacyOutput db j = some o) :
    o.ref = .job j.id ∧ j.artifactPath = some o.artifactPath := by
  unfold legacyOutput at h
  split at h
  · rename_i path hpath
    split at h
    · exact absurd h (by simp)
    · simp only [Option.some.injEq] at h
      subst h
      exact ⟨rfl, hpath⟩
  · exact absurd h (by simp)

theorem availableIn_of_mem_outputs {o : Output} (h : o ∈ outputs db) : o.AvailableIn db := by
  rcases List.mem_append.mp h with h | h
  · obtain ⟨a, ha, hao⟩ := List.mem_filterMap.mp h
    obtain ⟨href, hpath, havailable⟩ := datasetOutput_some hao
    refine ⟨⟨.artifact a.id, a.location, some a.sha256⟩, ?_, href.symm, hpath.symm⟩
    exact List.mem_append_right _
      (List.mem_map_of_mem (List.mem_filter.mpr ⟨ha, havailable⟩))
  · obtain ⟨j, hj, hjo⟩ := List.mem_filterMap.mp h
    obtain ⟨href, hpath⟩ := legacyOutput_some hjo
    refine ⟨⟨.job j.id, o.artifactPath, j.artifactSha256⟩, ?_, href.symm, rfl⟩
    refine List.mem_append_left _ (List.mem_filterMap.mpr ⟨j, hj, ?_⟩)
    rw [hpath]
    rfl

/-- The column of a query that keeps a column of its rows is a sublist of it. -/
theorem sublist_filterMap {α β δ : Type*} {f : α → Option β} {k : α → δ} {g : β → δ}
    (hf : ∀ r o, f r = some o → g o = k r) (rows : List α) :
    ((rows.filterMap f).map g).Sublist (rows.map k) := by
  induction rows with
  | nil => exact .slnil
  | cons r rows ih =>
    rw [List.map_cons]
    cases hr : f r with
    | none =>
      rw [List.filterMap_cons_none hr]
      exact ih.cons _
    | some o =>
      rw [List.filterMap_cons_some hr, List.map_cons, hf r o hr]
      exact ih.cons_cons _

theorem nodup_append_refs {as js : List RefId}
    (has : as.Sublist (db.artifacts.map fun a => .artifact a.id))
    (hjs : js.Sublist (db.jobs.map fun j => .job j.id)) : as.Nodup ∧ js.Nodup ∧ as.Disjoint js := by
  have hartifacts : (db.artifacts.map fun a => RefId.artifact a.id).Nodup := by
    have h := db.artifacts_keyed.map (f := RefId.artifact) fun i j h => RefId.artifact.inj h
    rwa [List.map_map] at h
  have hjobs : (db.jobs.map fun j => RefId.job j.id).Nodup := by
    have h := db.jobs_keyed.map (f := RefId.job) fun i j h => RefId.job.inj h
    rwa [List.map_map] at h
  refine ⟨has.nodup hartifacts, hjs.nodup hjobs, ?_⟩
  intro ref ha hj
  obtain ⟨a, -, rfl⟩ := List.mem_map.mp (has.subset ha)
  obtain ⟨j, -, hj⟩ := List.mem_map.mp (hjs.subset hj)
  exact RefId.noConfusion hj

theorem nodup_ref_outputs (db : Tables) : ((outputs db).map Output.ref).Nodup := by
  have ha := sublist_filterMap (k := fun a => RefId.artifact a.id) (g := Output.ref)
    (f := datasetOutput db) (fun _ _ h => (datasetOutput_some h).1) db.artifacts
  have hj := sublist_filterMap (k := fun j => RefId.job j.id) (g := Output.ref)
    (f := legacyOutput db) (fun _ _ h => (legacyOutput_some h).1) db.jobs
  obtain ⟨hnd, hnd', hdisjoint⟩ := nodup_append_refs ha hj
  unfold outputs
  rw [List.map_append]
  exact hnd.append hnd' hdisjoint

/-! ## Execution -/

theorem named_eq_one_iff {t : Target} :
    db.named t = 1 ↔ t.ref ∈ (references db).map Reference.ref := by
  have hmem : t.ref ∈ (references db).map Reference.ref ↔
      (∃ j ∈ db.jobs, .job j.id = t.ref ∧ j.artifactPath.isSome = true) ∨
        ∃ a ∈ db.artifacts, .artifact a.id = t.ref ∧ a.available = true := by
    unfold references
    simp only [List.map_append, List.mem_append, List.mem_map, List.mem_filterMap, List.mem_filter,
      Option.map_eq_some_iff, Option.isSome_iff_exists]
    constructor
    · rintro (⟨x, ⟨j, hj, path, hpath, rfl⟩, href⟩ | ⟨x, ⟨a, ⟨ha, havailable⟩, rfl⟩, href⟩)
      · exact .inl ⟨j, hj, href, path, hpath⟩
      · exact .inr ⟨a, ha, href, havailable⟩
    · rintro (⟨j, hj, href, path, hpath⟩ | ⟨a, ha, href, havailable⟩)
      · exact .inl ⟨_, ⟨j, hj, path, hpath, rfl⟩, href⟩
      · exact .inr ⟨_, ⟨a, ⟨ha, havailable⟩, rfl⟩, href⟩
  rw [hmem]
  unfold Tables.named Target.ref
  cases t.artifactId with
  | some id =>
    rw [db.artifacts_keyed.countP_eq_one_iff (k := id)]
    · simp
    · intro a ha
      simp only [Bool.and_eq_true, beq_iff_eq] at ha
      exact ha.1
  | none =>
    rw [db.jobs_keyed.countP_eq_one_iff (k := t.jobId)]
    · simp
    · intro j hj
      simp only [Bool.and_eq_true, beq_iff_eq] at hj
      exact hj.1

theorem references_retire (db : Tables) (now : Time) (t : Target) :
    references (db.retire now t) = (references db).filter fun x => x.ref != t.ref := by
  unfold Tables.retire Target.ref references
  cases t.artifactId with
  | some id =>
    rw [List.filter_append]
    congr 1
    · symm
      rw [List.filter_eq_self]
      intro x hx
      obtain ⟨j, -, hj⟩ := List.mem_filterMap.mp hx
      obtain ⟨path, -, rfl⟩ := Option.map_eq_some_iff.mp hj
      rfl
    · dsimp only
      induction db.artifacts with
      | nil => rfl
      | cons a rows ih =>
        rw [update_cons, List.filter_cons, List.filter_cons]
        by_cases hid : a.id = id <;> cases havailable : a.available <;>
          simp [hid, havailable, JobArtifact.retire, ih]
  | none =>
    rw [List.filter_append]
    congr 1
    · dsimp only
      induction db.jobs with
      | nil => rfl
      | cons j rows ih =>
        rw [update_cons, List.filterMap_cons, List.filterMap_cons]
        by_cases hid : j.id = t.jobId <;> cases hpath : j.artifactPath <;>
          simp [hid, hpath, Job.retire, ih]
    · symm
      rw [List.filter_eq_self]
      intro x hx
      obtain ⟨a, -, rfl⟩ := List.mem_map.mp hx
      rfl

/-- What one target after another leaves: every target loses its reference and its file. -/
theorem execute_targets (now : Time) (ts : List Target) (s : Swept γ)
    (hnodup : (ts.map Target.ref).Nodup) (herror : s.error = none)
    (hrefs : ∀ t ∈ ts, t.ref ∈ (references s.tables).map Reference.ref) :
    (execute now s ts).error = none ∧
      references (execute now s ts).tables =
        (references s.tables).filter (fun x => decide (x.ref ∉ ts.map Target.ref)) ∧
      (execute now s ts).unlinked = s.unlinked ++ ts.map Target.path := by
  induction ts generalizing s with
  | nil => simp [execute, herror]
  | cons t ts ih =>
    rw [List.map_cons, List.nodup_cons] at hnodup
    have hnamed : s.tables.named t = 1 := named_eq_one_iff.mpr (hrefs t List.mem_cons_self)
    rw [execute, if_pos hnamed]
    -- The other targets keep their references.
    have hrest : ∀ u ∈ ts, u.ref ∈
        (references (s.tables.retire now t)).map Reference.ref := by
      intro u hu
      obtain ⟨x, hx, href⟩ := List.mem_map.mp (hrefs u (List.mem_cons_of_mem _ hu))
      rw [references_retire]
      refine List.mem_map.mpr ⟨x, List.mem_filter.mpr ⟨hx, ?_⟩, href⟩
      rw [bne_iff_ne, href]
      rintro heq
      exact hnodup.1 (heq ▸ List.mem_map_of_mem hu)
    obtain ⟨herr, hafter, hunlinked⟩ :=
      ih ⟨s.tables.retire now t, s.files.unlink t.path, s.unlinked ++ [t.path], s.error⟩ hnodup.2
        herror hrest
    refine ⟨herr, ?_, ?_⟩
    · rw [hafter, references_retire, List.filter_filter]
      refine List.filter_congr fun x _ => ?_
      rw [Bool.eq_iff_iff]
      simp only [Bool.and_eq_true, decide_eq_true_eq, bne_iff_ne, List.map_cons, List.mem_cons,
        not_or]
      exact And.comm
    · rw [hunlinked, List.map_cons, List.append_assoc, List.singleton_append]

/-! ## Selection -/

theorem map_output_rankFrom (seen os : List Output) :
    (rankFrom seen os).map Ranked.output = os := by
  induction os generalizing seen with
  | nil => rfl
  | cons o os ih => rw [rankFrom, List.map_cons, ih]

theorem availableIn_of_mem_ranked {r : Ranking db} {c : Ranked} (h : c ∈ ranked r) :
    c.output.AvailableIn db := by
  have hmem : c.output ∈ (ranked r).map Ranked.output := List.mem_map_of_mem h
  rw [ranked, map_output_rankFrom] at hmem
  exact availableIn_of_mem_outputs (r.perm.mem_iff.mp hmem)

theorem nodup_ref_ranked (r : Ranking db) : ((ranked r).map fun c => c.output.ref).Nodup := by
  have hmap : (ranked r).map (fun c => c.output.ref) = r.order.map Output.ref := by
    conv_rhs => rw [← map_output_rankFrom [] r.order, List.map_map]
    rfl
  rw [hmap, (r.perm.map Output.ref).nodup_iff]
  exact nodup_ref_outputs db

/-- The row is selected. -/
structure Selected {db : Tables} (r : Ranking db) (now : Time) (c : Ranked) : Prop where
  mem : c ∈ ranked r
  expired : c.expired now = true
  bare : shielded r now c = false

theorem mem_selectCandidates {r : Ranking db} {now : Time} {c : Ranked} :
    c ∈ selectCandidates r now ↔ Selected r now c := by
  simp only [selectCandidates, candidates, List.mem_insertionSort, List.mem_filter,
    Bool.not_eq_true']
  constructor
  · rintro ⟨⟨hmem, hexpired⟩, hbare⟩
    exact ⟨hmem, hexpired, hbare⟩
  · rintro ⟨hmem, hexpired, hbare⟩
    exact ⟨⟨hmem, hexpired⟩, hbare⟩

theorem nodup_ref_selectCandidates (r : Ranking db) (now : Time) :
    ((selectCandidates r now).map fun c => c.output.ref).Nodup := by
  unfold selectCandidates
  rw [((List.perm_insertionSort _ _).map fun c : Ranked => c.output.ref).nodup_iff]
  refine (nodup_ref_ranked r).sublist (List.Sublist.map _ ?_)
  exact List.filter_sublist.trans List.filter_sublist

theorem Selected.of_path {r : Ranking db} {now : Time} {c d : Ranked} (hc : Selected r now c)
    (hmem : d ∈ ranked r) (hexpired : d.expired now = true)
    (hpath : d.output.artifactPath = c.output.artifactPath) : Selected r now d := by
  refine ⟨hmem, hexpired, ?_⟩
  have hbare := hc.bare
  simp only [shielded, List.any_eq_false, Bool.and_eq_true, beq_iff_eq, bne_iff_ne,
    Bool.not_eq_true', not_and] at hbare ⊢
  rintro retained hretained ⟨hsame, -⟩
  by_cases hid : retained.output.id = c.output.id
  · intro hnone
    exact hnone c (List.mem_filter.mpr ⟨hc.mem, hc.expired⟩) hid.symm
  · exact hbare retained hretained ⟨hsame.trans hpath, hid⟩

/-! ## Safety -/

/-- What the run has left is safe: no unlinked path is named, and the two newest usable outputs of
every source and dataset are available. -/
structure Safe (host : Host γ) {db : Tables} (r : Ranking db) (after : Swept γ) : Prop where
  named : ∀ x ∈ references after.tables, host.resolve x.path ∉ after.unlinked
  newest : ∀ c ∈ ranked r, c.output.usable = true → c.successfulRank ≤ 2 →
    c.output.AvailableIn after.tables

/-- `select` refuses a path outside the artifact directory. -/
def Refused (host : Host γ) {db : Tables} (r : Ranking db) (now : Time) : Prop :=
  ∃ c, Selected r now c ∧ host.inside (host.resolve c.output.artifactPath) = false

/-- Every selected row may go: it is none of the two newest usable outputs, and every other
reference to its file comes from an expired output, with the same text or selected itself. -/
def Deletable (host : Host γ) {db : Tables} (r : Ranking db) (now : Time) : Prop :=
  ∀ c, Selected r now c →
    (c.output.usable = true → 2 < c.successfulRank) ∧
      ∀ x ∈ references db, host.resolve x.path = host.resolve c.output.artifactPath →
        ∃ d ∈ ranked r, d.output.ref = x.ref ∧ d.expired now = true ∧
          (d.output.artifactPath = c.output.artifactPath ∨ shielded r now d = false)

/-- What a run leaves that `select` does not refuse. -/
theorem sweep_of_not_refused {host : Host γ} (files : Files γ) {r : Ranking db} {now : Time}
    (h : ¬ Refused host r now) :
    references (sweep host files r now).tables =
        (references db).filter (fun x =>
          decide (x.ref ∉ (selectCandidates r now).map fun c => c.output.ref)) ∧
      (sweep host files r now).unlinked =
        (selectCandidates r now).map fun c => host.resolve c.output.artifactPath := by
  have hinside : (selectCandidates r now).find?
      (fun c => !host.inside (host.resolve c.output.artifactPath)) = none := by
    rw [List.find?_eq_none]
    intro c hc
    simp only [Bool.not_eq_true', Bool.not_eq_false]
    by_contra hout
    exact h ⟨c, mem_selectCandidates.mp hc, eq_false_of_ne_true hout⟩
  have hrefs : ((selectCandidates r now).map (target host files)).map Target.ref =
      (selectCandidates r now).map fun c => c.output.ref := by
    rw [List.map_map]
    rfl
  obtain ⟨-, hafter, hunlinked⟩ :=
    execute_targets now ((selectCandidates r now).map (target host files)) ⟨db, files, [], none⟩
      (hrefs ▸ nodup_ref_selectCandidates r now) rfl fun t ht => by
        obtain ⟨c, hc, rfl⟩ := List.mem_map.mp ht
        obtain ⟨x, hx, href, -⟩ := availableIn_of_mem_ranked (mem_selectCandidates.mp hc).mem
        exact List.mem_map.mpr ⟨x, hx, href⟩
  have hsweep : sweep host files r now = execute now ⟨db, files, [], none⟩
      ((selectCandidates r now).map (target host files)) := by
    unfold sweep select
    dsimp only
    rw [hinside]
  rw [hsweep]
  refine ⟨by rw [hafter, hrefs], ?_⟩
  rw [hunlinked, List.nil_append, List.map_map]
  rfl

theorem sweep_of_refused {host : Host γ} (files : Files γ) {r : Ranking db} {now : Time}
    (h : Refused host r now) :
    (sweep host files r now).tables = db ∧ (sweep host files r now).unlinked = [] := by
  obtain ⟨c, hc, hout⟩ := h
  have hsome : ((selectCandidates r now).find?
      fun c => !host.inside (host.resolve c.output.artifactPath)).isSome := by
    rw [List.find?_isSome]
    exact ⟨c, mem_selectCandidates.mpr hc, by rw [hout]; rfl⟩
  obtain ⟨d, hd⟩ := Option.isSome_iff_exists.mp hsome
  unfold sweep select
  dsimp only
  rw [hd]
  exact ⟨rfl, rfl⟩

/-- Retention is safe iff `select` refuses or every selected row may go. -/
theorem sweep_safe_iff (host : Host γ) (files : Files γ) {db : Tables} (r : Ranking db)
    (now : Time) :
    Safe host r (sweep host files r now) ↔ Refused host r now ∨ Deletable host r now := by
  by_cases hrefused : Refused host r now
  · obtain ⟨htables, hunlinked⟩ := sweep_of_refused files hrefused
    refine ⟨fun _ => .inl hrefused, fun _ => ⟨?_, ?_⟩⟩
    · intro x _
      rw [hunlinked]
      exact List.not_mem_nil
    · intro c hc _ _
      rw [htables]
      exact availableIn_of_mem_ranked hc
  obtain ⟨hafter, hunlinked⟩ := sweep_of_not_refused files hrefused
  have hleft : ∀ x, x ∈ references (sweep host files r now).tables ↔
      x ∈ references db ∧ ∀ d, Selected r now d → d.output.ref ≠ x.ref := by
    intro x
    rw [hafter, List.mem_filter, decide_eq_true_eq, List.mem_map]
    simp only [mem_selectCandidates, not_exists, not_and]
  constructor
  · intro hsafe
    refine .inr fun c hc => ⟨?_, ?_⟩
    · intro husable
      by_contra hnewest
      obtain ⟨x, hx, href, -⟩ := hsafe.newest c hc.mem husable (Nat.le_of_not_lt hnewest)
      exact ((hleft x).mp hx).2 c hc href.symm
    · intro x hx hsame
      -- The file of `x` is unlinked, so its reference is gone.
      have hgone : x ∉ references (sweep host files r now).tables := by
        intro hx'
        refine hsafe.named x hx' ?_
        rw [hunlinked, hsame]
        exact List.mem_map_of_mem (mem_selectCandidates.mpr hc)
      rw [hleft] at hgone
      push Not at hgone
      obtain ⟨d, hd, href⟩ := hgone hx
      exact ⟨d, hd.mem, href, hd.expired, .inr hd.bare⟩
  · rintro (h | hdeletable)
    · exact absurd h hrefused
    refine ⟨?_, ?_⟩
    · intro x hx hnamed
      rw [hleft] at hx
      rw [hunlinked] at hnamed
      obtain ⟨c, hc, hsame⟩ := List.mem_map.mp hnamed
      have hc' := mem_selectCandidates.mp hc
      obtain ⟨d, hd, href, hexpired, hpath | hbare⟩ := (hdeletable c hc').2 x hx.1 hsame.symm
      · exact hx.2 d (hc'.of_path hd hexpired hpath) href
      · exact hx.2 d ⟨hd, hexpired, hbare⟩ href
    · intro c hc husable hnewest
      obtain ⟨x, hx, href, hpath⟩ := availableIn_of_mem_ranked hc
      refine ⟨x, (hleft x).mpr ⟨hx, ?_⟩, href, hpath⟩
      intro d hd hdx
      have hdc : d = c :=
        List.inj_on_of_nodup_map (nodup_ref_ranked r) hd.mem hc (hdx.trans href)
      exact absurd ((hdeletable d hd).1 (hdc ▸ husable)) (by rw [hdc]; omega)

/-! ## An artifact that the job still names -/

/-- A job of the source `pots` with its only dataset artifact, whose location the worker has also
put into `artifact_path`. -/
def publishedJob (id : Uuid) (finished : Time) (path : String) : Job :=
  { id := id, sourceId := "pots", state := .succeeded, finishedAt := some finished
    artifactPath := some path, artifactSha256 := some (.ofNat 256 id) }

def publishedDataset (id : Uuid) : JobDataset :=
  { jobId := id, key := ⟨"products", "1", "1"⟩, state := .succeeded, complete := true }

def publishedArtifact (id : Uuid) (path : String) : JobArtifact :=
  { id := id, jobId := id, key := ⟨"products", "1", "1"⟩, location := path, sha256 := .ofNat 256 id }

/-- Three published jobs: the oldest one has expired. -/
def publishedThrice : Tables where
  jobs := [publishedJob 1 (days 10) "/a/1", publishedJob 2 (days 20) "/a/2",
    publishedJob 3 (days 29) "/a/3"]
  datasets := [publishedDataset 1, publishedDataset 2, publishedDataset 3]
  artifacts := [publishedArtifact 1 "/a/1", publishedArtifact 2 "/a/2", publishedArtifact 3 "/a/3"]
  jobs_keyed := by unfold Keyed; decide
  datasets_keyed := by unfold Keyed; decide
  artifacts_keyed := by unfold Keyed; decide

/-- The only order of their outputs. -/
def publishedRanking : Ranking publishedThrice where
  order := (outputs publishedThrice).reverse
  perm := List.reverse_perm _
  sorted := by decide

/-- A directory that holds every path as it is spelled, with contents that are their own digests. -/
def plainHost : Host ℕ := ⟨id, fun _ => true, fun n => n, .ofNat 256⟩

/-- The job of a deleted dataset artifact goes on naming its file. -/
theorem sweep_unlinks_named_path :
    ¬ ∀ (host : Host ℕ) (files : Files ℕ) (db : Tables) (r : Ranking db) (now : Time),
      Safe host r (sweep host files r now) := by
  intro h
  have hsafe := h plainHost [("/a/1", 1), ("/a/2", 2), ("/a/3", 3)] publishedThrice publishedRanking
    (days 30)
  exact hsafe.named ⟨.job 1, "/a/1", some 1⟩ (by decide) (by decide)

end CommerceCollector.Retention
