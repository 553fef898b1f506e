import CommerceCollector.Lineage.Commits

/-!
# Cursors and configurations

`resolve_library_lineage` keeps at most one active lineage of the scraper runtime.  A checkpoint it
returns was committed to the returned lineage, under the collection fingerprint of the
specification, and a new lineage starts with datasets that are pending and have no records
(`resolution_sound`).

The columns of a lineage that identify its configuration never change (`Kept`), so a cursor that is
found under a fingerprint was also committed under it.
-/

namespace CommerceCollector

open Relational Transaction

/-- The columns of a lineage that never change. -/
def LineageIdentity.frozen (l : LineageIdentity) : LineageIdentity := { l with partitions := [] }

namespace Manifest

variable {m m' : Manifest} {lib : Library}

/-! ## Lineages are kept -/

/-- Lineages have distinct ids, and stay with the columns that never change. -/
structure Kept (m m' : Manifest) : Prop where
  keyed : Keyed Lineage.lineage m.lineages → Keyed Lineage.lineage m'.lineages
  row : ∀ lineage l, m.lineageRow lineage = some l →
    ∃ l', m'.lineageRow lineage = some l' ∧ l'.identity.frozen = l.identity.frozen

theorem Kept.refl (m : Manifest) : Kept m m := ⟨id, fun _ l h => ⟨l, h, rfl⟩⟩

theorem Kept.trans {m'' : Manifest} (h : Kept m m') (h' : Kept m' m'') : Kept m m'' := by
  refine ⟨fun hk => h'.keyed (h.keyed hk), fun lineage l hl => ?_⟩
  obtain ⟨l₁, hl₁, hsame₁⟩ := h.row lineage l hl
  obtain ⟨l₂, hl₂, hsame₂⟩ := h'.row lineage l₁ hl₁
  exact ⟨l₂, hl₂, hsame₂.trans hsame₁⟩

theorem kept_of_update {f : Lineage → Lineage} {p : Lineage → Bool}
    (hf : ∀ l, (f l).lineage = l.lineage ∧ (f l).identity.frozen = l.identity.frozen)
    (hrows : m'.lineages = update p f m.lineages) : Kept m m' := by
  refine ⟨fun hk => ?_, fun lineage l hl => ?_⟩
  · rw [hrows]
    exact hk.update fun l => (hf l).1
  · have hfind : m'.lineageRow lineage =
        (m.lineageRow lineage).map fun l => if p l then f l else l := by
      rw [lineageRow, hrows]
      exact find?_update (fun l => (hf l).1) p m.lineages lineage
    rw [hfind, hl]
    refine ⟨_, rfl, ?_⟩
    by_cases hp : p l <;> simp [hp, (hf l).2]

theorem Lineage.reject_kept (l : Lineage) :
    l.reject.lineage = l.lineage ∧ l.reject.identity.frozen = l.identity.frozen := by
  unfold CommerceCollector.Lineage.reject
  split <;> exact ⟨rfl, rfl⟩

theorem kept_rejectAll {lineages : List Uuid} (h : m.rejectAll lineages = .ok m') : Kept m m' := by
  rw [rejectAll_ok h]
  exact kept_of_update Lineage.reject_kept rfl

theorem kept_createLineage {now : Time} {identity : LineageIdentity} {lineage : Option Uuid}
    {created : Uuid} (h : m.createLineage now identity lineage = .ok (created, m')) :
    Kept m m' := by
  rcases (createLineage_ok h).2 with ⟨rfl, -⟩ | ⟨hnone, rfl⟩
  · exact .refl _
  · refine ⟨fun hk => ?_, fun other l hl => ⟨l, ?_, rfl⟩⟩
    · unfold Keyed at hk ⊢
      rw [List.map_append, List.nodup_append]
      refine ⟨hk, by simp, fun a ha b hb => ?_⟩
      obtain ⟨l, hl, rfl⟩ := List.mem_map.mp ha
      have hother := List.find?_eq_none.mp hnone l hl
      rw [List.map_singleton, List.mem_singleton] at hb
      rw [hb]
      simpa using hother
    · rw [lineageRow, List.find?_append]
      have hl' : m.lineages.find? (fun r => r.lineage == other) = some l := hl
      rw [hl']
      rfl

variable {spec : LibraryLineageSpec}

theorem kept_resolve {now : Time} {datasets : List DatasetKey} {resolved : ResolvedLibraryLineage}
    (h : m.resolveLibraryLineage lib now spec datasets = .ok (resolved, m')) : Kept m m' :=
  resolve_induction h (.refl m) (fun hreject hkept => hkept.trans (kept_rejectAll hreject))
    (fun hcreate hkept => hkept.trans (kept_createLineage hcreate))
    fun hkept => hkept.trans ⟨id, fun _ l hl => ⟨l, hl, rfl⟩⟩

theorem kept_opened (m : Manifest) (lineage : Uuid) (p : PageCommit) :
    Kept m (m.opened lineage p) := by
  unfold opened
  split
  · refine kept_of_update (fun l => ?_) rfl
    split <;> exact ⟨rfl, rfl⟩
  · exact .refl m

theorem kept_sealLineage (m : Manifest) (lineage : Uuid) (status : LineageStatus)
    (checksum : Digest) : Kept m (m.sealLineage lineage status checksum) :=
  kept_of_update (f := fun l => { l with status, checksum := some checksum })
    (fun _ => ⟨rfl, rfl⟩) rfl

theorem kept_step (m : Manifest) (a : ManifestAction) : Kept m (m.step lib a) := by
  cases a with
  | resolve now spec datasets =>
    exact attempt_induction (.refl m) fun resolved m' h => kept_resolve h
  | create now identity lineage =>
    exact attempt_induction (.refl m) fun created m' h => kept_createLineage h
  | commit lineage p =>
    refine attempt_induction (.refl m) fun new m' h => ?_
    obtain ⟨-, ⟨-, -, rfl⟩ | ⟨-, -, happended⟩⟩ := commitPage_ok h
    · exact kept_opened m lineage p
    · have hopened := kept_opened m lineage p
      refine ⟨fun hk => ?_, fun other l hl => ?_⟩
      · rw [happended.lineages]
        exact hopened.keyed hk
      · rw [lineageRow, happended.lineages]
        exact hopened.row other l hl
  | complete lineage expected checksum =>
    refine attempt_induction (.refl m) fun new m' h => ?_
    obtain ⟨l, -, ⟨-, -, rfl⟩ | ⟨-, -, -, -, -, -, rfl⟩⟩ := completeLineage_ok h
    · exact .refl _
    · exact kept_sealLineage m _ _ checksum
  | completeLimited lineage checksum =>
    refine attempt_induction (.refl m) fun new m' h => ?_
    obtain ⟨l, -, ⟨-, -, rfl⟩ | ⟨-, -, rfl⟩⟩ := completeLimitedLineage_ok h
    · exact .refl _
    · exact kept_sealLineage m _ _ checksum
  | prepare | publish | finish =>
    exact onDataset_induction trivial fun _ _ => ⟨id, fun _ l hl => ⟨l, hl, rfl⟩⟩

theorem kept_exec (m : Manifest) (actions : List ManifestAction) :
    Kept m (Trace.exec (step lib) m actions) :=
  Trace.exec_invariant (step lib) (I := fun t => Kept m t)
    (fun t a h => h.trans (kept_step t a)) (.refl m) actions

theorem after_keyed (lib : Library) (actions : List ManifestAction) :
    Keyed Lineage.lineage (after lib actions).lineages :=
  (kept_exec {} actions).keyed List.nodup_nil

/-! ## The active lineage -/

/-- The active lineages, as `active_lineages_for_runtime` returns them. -/
theorem mem_activeLineages {runtimeFormat : RuntimeFormat} {active : List Uuid}
    (h : m.activeLineagesForRuntime runtimeFormat = .ok active) (lineage : Uuid) :
    lineage ∈ active ↔ ∃ l ∈ m.lineages, l.activeFor runtimeFormat = true ∧ l.lineage = lineage := by
  unfold activeLineagesForRuntime at h
  simp only [bind_eq_ok, require_eq_ok, pure_eq_ok, exists_const] at h
  obtain ⟨-, rfl⟩ := h
  simp only [List.mem_map, List.mem_insertionSort, List.mem_filter, and_assoc]

theorem Lineage.not_activeFor_reject (l : Lineage) (runtimeFormat : RuntimeFormat) :
    l.reject.activeFor runtimeFormat = false := by
  by_cases hactive : l.status = .active <;>
    simp [CommerceCollector.Lineage.reject, Lineage.activeFor, hactive]

theorem activeFor_rejectAll {lineages : List Uuid} {runtimeFormat : RuntimeFormat}
    (h : m.rejectAll lineages = .ok m') {l : Lineage} (hl : l ∈ m'.lineages)
    (hactive : l.activeFor runtimeFormat = true) :
    l ∈ m.lineages ∧ l.lineage ∉ lineages := by
  rw [rejectAll_ok h] at hl
  obtain ⟨l₀, hl₀, rfl⟩ := mem_update.mp hl
  by_cases hrejected : l₀.lineage ∈ lineages
  · rw [if_pos (decide_eq_true hrejected), Lineage.not_activeFor_reject] at hactive
    exact absurd hactive (by simp)
  · rw [if_neg (by simpa using hrejected)]
    exact ⟨hl₀, hrejected⟩

variable {lineage : Uuid}

theorem length_filter_le_one {rows : List Lineage} (hkeyed : Keyed Lineage.lineage rows)
    {p : Lineage → Bool}
    (h : ∀ l ∈ rows, p l = true → l.lineage = lineage) : (rows.filter p).length ≤ 1 := by
  have hnodup : ((rows.filter p).map Lineage.lineage).Nodup :=
    hkeyed.sublist (List.filter_sublist.map Lineage.lineage)
  have hall : ∀ u ∈ (rows.filter p).map Lineage.lineage, u = lineage := by
    intro u hu
    obtain ⟨l, hl, rfl⟩ := List.mem_map.mp hu
    obtain ⟨hmem, hp⟩ := List.mem_filter.mp hl
    exact h l hmem hp
  have hle : ((rows.filter p).map Lineage.lineage).length ≤ [lineage].length := by
    apply List.Subperm.length_le
    apply List.subperm_of_subset hnodup
    intro u hu
    simpa using hall u hu
  simpa using hle

/-- **One live cursor.**  After a resolution, the returned lineage is the only active one of the
scraper runtime. -/
theorem single_active {now : Time} {datasets : List DatasetKey} {resolved : ResolvedLibraryLineage}
    (h : m.resolveLibraryLineage lib now spec datasets = .ok (resolved, m')) {l : Lineage}
    (hl : l ∈ m'.lineages) (hactive : l.activeFor .commerceScraperV1 = true) :
    l.lineage = resolved.lineage := by
  obtain ⟨active, fingerprint, candidate, m₁, m₂, hactives, -, -, hreject, hsettle, hprepare⟩ :=
    resolveLibraryLineage_ok h
  rw [prepareAll_ok hprepare] at hl
  have hcandidate : ∀ l ∈ m₁.lineages, l.activeFor .commerceScraperV1 = true →
      l.lineage ∈ active ∧ candidate = some l.lineage := by
    intro l hl hactive
    obtain ⟨hold, hkept⟩ := activeFor_rejectAll hreject hl hactive
    have hmem := (mem_activeLineages hactives l.lineage).mpr ⟨l, hold, hactive, rfl⟩
    refine ⟨hmem, ?_⟩
    simpa [hmem] using hkept
  rcases settle_ok hsettle with ⟨hcontinue, -, rfl, -⟩ | ⟨m₃, hreject', hcreate, -⟩
  · have hsame := (hcandidate l hl hactive).2
    exact Option.some.inj (hsame.symm.trans hcontinue)
  · obtain ⟨hcreated, ⟨-, l', hrow, -⟩ | ⟨-, rfl⟩⟩ := createLineage_ok hcreate
    · rw [hcreated, Option.getD_none, lineageRow_uuid4] at hrow
      exact absurd hrow (by simp)
    · rcases List.mem_append.mp hl with hold | hnew
      · -- the candidate was rejected too
        obtain ⟨hold, hkept⟩ := activeFor_rejectAll hreject' hold hactive
        obtain ⟨hmem, hsame⟩ := hcandidate l hold hactive
        exact absurd (List.mem_filter.mpr ⟨hmem, by simp [hsame]⟩) hkept
      · rw [List.mem_singleton.mp hnew]

/-! ## The cursor -/

theorem findRecoverable_some {now : Time} {sourceUrl connector connectorVersion : String}
    {fingerprint datasetFingerprint : Digest}
    (h : m.findRecoverableLibraryLineage now sourceUrl connector connectorVersion fingerprint
      datasetFingerprint = some lineage) :
    ∃ l ∈ m.lineages, l.lineage = lineage ∧
      l.recoverable now sourceUrl connector connectorVersion fingerprint datasetFingerprint =
        true := by
  obtain ⟨l, hl, hid⟩ := Option.map_eq_some_iff.mp h
  obtain ⟨hmem, hrecoverable⟩ := List.mem_filter.mp (List.argmax_mem hl)
  exact ⟨l, hmem, hid, hrecoverable⟩

theorem lineageProgress_checkpoint {progress : LineageProgress}
    (h : m.lineageProgress lib lineage = .ok progress) {c : Checkpoint}
    (hc : progress.checkpoint = some c) :
    ∃ l q, m.lineageRow lineage = some l ∧ q ∈ m.pages ∧ q.ref.lineage = lineage ∧
      q.resumeAfter = some c.resumeAfter ∧ c.lineage = lineage := by
  unfold lineageProgress at h
  simp only [bind_eq_ok, getRow_eq_ok, require_eq_ok, exists_const] at h
  obtain ⟨l, hl, -, h⟩ := h
  have hid : l.lineage = lineage := by simpa using List.find?_some hl
  split at h
  · simp only [bind_eq_ok, require_eq_ok, pure_eq_ok, exists_const] at h
    obtain ⟨-, rfl⟩ := h
    exact absurd hc (by simp)
  · next latest hlatest =>
    split at h
    · obtain rfl := pure_eq_ok.mp h
      exact absurd hc (by simp)
    · obtain ⟨hmem, hpage⟩ := List.mem_filter.mp (List.argmax_mem hlatest)
      unfold classify at h
      split at h
      · next cursor hcursor =>
        simp only [bind_eq_ok, require_eq_ok, pure_eq_ok, exists_const] at h
        obtain ⟨-, rfl⟩ := h
        obtain rfl := Option.some.inj hc
        refine ⟨l, latest, hl, hmem, ?_, hcursor, hid⟩
        simpa [hid] using hpage
      · split at h
        · split at h <;> obtain rfl := Except.ok.inj h <;> exact absurd hc (by simp)
        · obtain rfl := Except.ok.inj h
          exact absurd hc (by simp)

theorem recovery_checkpoint {fingerprint : Digest} {c : Checkpoint}
    (hc : (m.recovery lib spec fingerprint lineage).checkpoint = some c) :
    c.collectionFingerprint = some fingerprint ∧
      ∃ progress, m.lineageProgress lib lineage = .ok progress ∧ progress.checkpoint = some c := by
  unfold recovery at hc
  split at hc
  · exact absurd hc (by simp)
  · exact absurd hc (by simp)
  · next progress row hprogress hrow =>
    split at hc
    · exact absurd hc (by simp)
    · split at hc
      · exact absurd hc (by simp)
      · unfold Recovery.ofProgress at hc
        split at hc
        · next checkpoint hstate hcheckpoint =>
          split at hc
          · next hvalid =>
            obtain rfl := Option.some.inj hc
            refine ⟨?_, progress, hprogress, hcheckpoint⟩
            unfold validatedResumeCheckpoint at hvalid
            split at hvalid
            · exact absurd hvalid (by simp)
            · next found hfound =>
              split at hvalid
              · exact absurd hvalid (by simp)
              · next hsame =>
                simp only [not_or, not_not] at hsame
                rw [hfound, hsame.2.2.2]
          · exact absurd hc (by simp)
        · exact absurd hc (by simp)
        · exact absurd hc (by simp)

/-! ## Runs -/

/-- A page of a run was committed by a call of the run, to a lineage that keeps its identity. -/
theorem exists_commit_of_mem_pages (lib : Library) {actions : List ManifestAction} {q : PageRow}
    (hq : q ∈ (after lib actions).pages) :
    ∃ pre p post m', actions = pre ++ .commit q.ref.lineage p :: post ∧
      (after lib pre).commitPage q.ref.lineage p = .ok (true, m') ∧ q = p.row q.ref.lineage ∧
      ∃ l l', (after lib pre).lineageRow q.ref.lineage = some l ∧
        (after lib actions).lineageRow q.ref.lineage = some l' ∧
        l'.identity.frozen = l.identity.frozen := by
  obtain ⟨pre, a, post, hsplit, hbefore, hafter⟩ := Trace.exists_step_of_change (step lib)
    (P := fun m => q ∉ m.pages) (s := {}) (by simp) (not_not_intro hq)
  have hadded : q ∈ ((after lib pre).step lib a).pages := not_not.mp hafter
  rcases content_step lib (after lib pre) a with
    hsame | ⟨lineage, p, rfl, hok, hopen, -, happended⟩
  · rw [hsame.pages] at hadded
    exact absurd hadded hbefore
  · rw [happended.pages] at hadded
    have hrow : q = p.row lineage := by
      rcases List.mem_append.mp hadded with hold | hnew
      · exact absurd hold hbefore
      · exact List.mem_singleton.mp hnew
    obtain rfl : lineage = q.ref.lineage := by
      rw [hrow]
      rfl
    obtain ⟨l, hl, -, -⟩ := hopen.active
    have hkept : Kept (after lib pre) (after lib actions) := by
      rw [hsplit, after, after, Trace.exec_append]
      exact kept_exec _ _
    obtain ⟨l', hl', hfrozen⟩ := hkept.row _ l hl
    exact ⟨pre, p, post, _, hsplit, hok, hrow, l, l', hl, hl', hfrozen⟩

/-- What holds of every resolution after a run. -/
structure ResolutionSound (lib : Library) (actions : List ManifestAction)
    (spec : LibraryLineageSpec) (datasets : List DatasetKey) (resolved : ResolvedLibraryLineage)
    (m' : Manifest) : Prop where
  /-- At most one lineage of the scraper runtime is active, and it is the returned one. -/
  single : (m'.lineages.filter (Lineage.activeFor .commerceScraperV1)).length ≤ 1 ∧
    ∀ l ∈ m'.lineages, l.activeFor .commerceScraperV1 = true → l.lineage = resolved.lineage
  /-- A checkpoint was committed to the returned lineage, under the fingerprint of the
  specification. -/
  checkpoint : ∀ c, resolved.checkpoint = some c →
    c.lineage = resolved.lineage ∧
      c.collectionFingerprint = spec.connectorConfigFingerprint lib ∧
      ∃ pre p post m'', actions = pre ++ .commit resolved.lineage p :: post ∧
        (after lib pre).commitPage resolved.lineage p = .ok (true, m'') ∧
        p.resumeAfter = some c.resumeAfter ∧
        ∃ l, (after lib pre).lineageRow resolved.lineage = some l ∧
          some l.identity.connectorConfigFingerprint = spec.connectorConfigFingerprint lib
  /-- Requested datasets of a new lineage are pending and have no records. -/
  reset : (after lib actions).lineageRow resolved.lineage = none →
    ∀ key ∈ datasets, m'.dataset key = some { key }

/-- **No cursor crosses a configuration change**, whatever calls came before the resolution. -/
theorem resolution_sound (lib : Library) (actions : List ManifestAction) {now : Time}
    {spec : LibraryLineageSpec} {datasets : List DatasetKey} {resolved : ResolvedLibraryLineage}
    {m' : Manifest}
    (h : (after lib actions).resolveLibraryLineage lib now spec datasets = .ok (resolved, m')) :
    ResolutionSound lib actions spec datasets resolved m' where
  single := by
    refine ⟨?_, fun l hl hactive => single_active h hl hactive⟩
    exact length_filter_le_one ((kept_resolve h).keyed (after_keyed lib actions))
      fun l hl hactive => single_active h hl hactive
  checkpoint := by
    intro c hc
    obtain ⟨active, fingerprint, candidate, m₁, m₂, -, hfingerprint, hcandidate, hreject,
      hsettle, -⟩ := resolveLibraryLineage_ok h
    rcases settle_ok hsettle with ⟨hsame, -, -, -, hcheckpoint, -⟩ | ⟨m₃, -, -, -, hnone, -⟩
    · rw [hcheckpoint] at hc
      obtain ⟨hcf, progress, hprogress, hpc⟩ := recovery_checkpoint hc
      obtain ⟨row, q, -, hq, hlineage, hcursor, hcl⟩ := lineageProgress_checkpoint hprogress hpc
      rw [rejectAll_ok hreject] at hq
      obtain ⟨pre, p, post, m'', hsplit, hok, hrow, l, l', hl, hl', hfrozen⟩ :=
        exists_commit_of_mem_pages lib hq
      rw [hlineage] at hsplit hok hrow hl hl'
      refine ⟨hcl, hcf.trans hfingerprint.symm, pre, p, post, m'', hsplit, hok, ?_, l, hl, ?_⟩
      · rw [hrow] at hcursor
        exact hcursor
      · -- the candidate was found under the fingerprint, and columns are kept
        rw [hcandidate] at hsame
        obtain ⟨found, hfound, hid, hrecoverable⟩ := findRecoverable_some hsame
        have hfind : (after lib actions).lineageRow resolved.lineage = some found := by
          rw [← hid]
          exact (after_keyed lib actions).find?_eq_some hfound
        obtain rfl := Option.some.inj (hfind.symm.trans hl')
        have hfp : found.identity.connectorConfigFingerprint = fingerprint := by
          simp only [Lineage.recoverable, Bool.and_eq_true, beq_iff_eq] at hrecoverable
          exact hrecoverable.1.1.2
        have hkeep := congrArg LineageIdentity.connectorConfigFingerprint hfrozen
        rw [hfingerprint, ← hfp]
        exact congrArg some hkeep.symm
    · rw [hnone] at hc
      exact absurd hc (by simp)
  reset := by
    intro hnew key hkey
    obtain ⟨active, fingerprint, candidate, m₁, m₂, -, -, hcandidate, -, hsettle, hprepare⟩ :=
      resolveLibraryLineage_ok h
    rcases settle_ok hsettle with ⟨hsame, -, -, -⟩ | ⟨m₃, -, -, hresuming, -, -⟩
    · rw [hcandidate] at hsame
      obtain ⟨found, hfound, hid, -⟩ := findRecoverable_some hsame
      have hother := List.find?_eq_none.mp hnew found hfound
      exact absurd hid (by simpa using hother)
    · rw [hresuming] at hprepare
      exact prepareAll_reset hkey hprepare

/-- The request of the examples. -/
def shopRequest : CollectionRequest where
  sourceId := "shop"
  baseUrl := "https://shop.test"
  fields := ⟨"{}"⟩

/-- A library whose fingerprint tells the options of the connector apart. -/
def shopLibrary : Library where
  collectionFingerprint := fun _ _ options => some (if options.text = "a" then 7 else 8)
  validateRequest := fun _ => some shopRequest
  dumpRequest := fun r => r.fields
  acceptsCheckpoint := fun _ => true
  manifestDigest := fun _ _ _ => 9

/-- A specification with the options of the connector. -/
def shopSpec (options : String) : LibraryLineageSpec where
  request := shopRequest
  connector := "shopify"
  connectorVersion := "1"
  connectorOptions := ⟨options⟩
  datasetFingerprint := 8
  datasetSelection := ⟨"[]"⟩
  partitions := ["main"]
  budgetState := ⟨"{}"⟩

/-- A collection is resumed after its first page. -/
def firstPage : List ManifestAction :=
  [ .resolve 1 (shopSpec "a") [Audit.glazes],
    .commit 0 (Audit.mainPage "p1" 1 [⟨Audit.glazes, "p1.gz", 5, 100, 3⟩]
      ⟨Audit.glazes, .succeeded, 3, none⟩) ]

/-- The unchanged specification finds its cursor. -/
theorem own_cursor_found :
    ∃ r, (after shopLibrary firstPage).resolveLibraryLineage shopLibrary 2 (shopSpec "a")
        [Audit.glazes] = .ok r ∧
      r.1.checkpoint.isSome = true ∧
      ResolutionSound shopLibrary firstPage (shopSpec "a") [Audit.glazes] r.1 r.2 := by
  obtain ⟨r, hok, hcheckpoint⟩ : ∃ r, (after shopLibrary firstPage).resolveLibraryLineage
      shopLibrary 2 (shopSpec "a") [Audit.glazes] = .ok r ∧ r.1.checkpoint.isSome = true :=
    exists_ok (p := fun r : ResolvedLibraryLineage × Manifest => r.1.checkpoint.isSome) (by decide)
  exact ⟨r, hok, hcheckpoint, resolution_sound shopLibrary firstPage hok⟩

/-- The cursor of `a` does not survive a resolution of `b`: the third resolution creates a third
lineage. -/
example :
    (after shopLibrary (firstPage ++ [.resolve 2 (shopSpec "b") [Audit.glazes],
      .resolve 3 (shopSpec "a") [Audit.glazes]])).lineages.map (fun l => l.status) =
        [.rejected, .rejected, .active] := by
  decide

end Manifest

end CommerceCollector
