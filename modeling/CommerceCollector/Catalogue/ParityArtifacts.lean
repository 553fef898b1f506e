import CommerceCollector.Catalogue.ParityPaths

/-!
# Artifacts of parity in any order

An artifact is accepted if every record is an object with an identity of its own, its values have a
text in JSON, and the numbers of records and of paths are within the limits.  What is kept of it are
its records by identity and how often each path is covered, so that a report does not change with
the order of the records.
-/

namespace CommerceCollector.Parity

open JsonText

/-! ## What is accepted -/

/-- The identity of a record, as a text. -/
def identityOf (identityField : String) (record : Value) : Option String :=
  identityKey (lookup (splitDots identityField) record)

/-- **The records of an artifact that is accepted.** -/
structure Acceptable (identityField : String) (rules : ComparisonRules) (limits : ComparisonLimits)
    (records : List Value) : Prop where
  objects : ∀ record ∈ records, isObject record = true
  identified : ∀ record ∈ records, ∃ key, identityOf identityField record = some key
  distinct : (records.filterMap (identityOf identityField)).Nodup
  texts : ∀ record ∈ records, hasText (withoutIgnored rules.ignoreFields record) = true
  records_le : records.length ≤ limits.maxRecordsPerArtifact
  paths_le : (records.flatMap coveredPaths).dedup.length ≤ limits.maxFieldPaths

section Summary

variable (identityField : String) (rules : ComparisonRules)

/-- What is kept of one record, under its identity. -/
def row (record : Value) : Option (String × Value) :=
  (identityOf identityField record).map fun key => (key, kept rules.ignoreFields "" record)

/-- What is kept of the records of an artifact. -/
def summary (records : List Value) : Artifact where
  rows := records.filterMap (row identityField rules)
  coverage := records.flatMap coveredPaths
  records := records.length

variable {identityField rules}

theorem keys_rows (records : List Value) : (records.filterMap (row identityField rules)).map Prod.fst =
    records.filterMap (identityOf identityField) := by
  rw [List.map_filterMap]
  congr 1
  funext record
  rw [row, Option.map_map]
  exact Option.map_id_apply

theorem mem_rows {records : List Value} {key : String} {payload : Value} :
    (key, payload) ∈ records.filterMap (row identityField rules) ↔
      ∃ record ∈ records, identityOf identityField record = some key ∧
        kept rules.ignoreFields "" record = payload := by
  rw [List.mem_filterMap]
  refine exists_congr fun record => and_congr_right fun _ => ?_
  rw [row, Option.map_eq_some_iff]
  constructor
  · rintro ⟨found, hfound, heq⟩
    exact ⟨hfound.trans (congrArg some (Prod.mk.inj heq).1), (Prod.mk.inj heq).2⟩
  · rintro ⟨hfound, hpayload⟩
    exact ⟨key, hfound, Prod.ext rfl hpayload⟩

end Summary

/-- What an accepted artifact holds, but for its last record, is accepted. -/
theorem Acceptable.init {identityField : String} {rules : ComparisonRules} {limits : ComparisonLimits}
    {records : List Value} {record : Value}
    (h : Acceptable identityField rules limits (records ++ [record])) :
    Acceptable identityField rules limits records := by
  have hmem : ∀ {other : Value}, other ∈ records → other ∈ records ++ [record] :=
    fun hother => List.mem_append_left _ hother
  have hrecords := h.records_le
  rw [List.length_append, List.length_singleton] at hrecords
  have hdistinct := h.distinct
  rw [List.filterMap_append] at hdistinct
  refine ⟨fun other hother => h.objects other (hmem hother),
    fun other hother => h.identified other (hmem hother), hdistinct.of_append_left,
    fun other hother => h.texts other (hmem hother), by omega, le_trans ?_ h.paths_le⟩
  have hsub : (records.flatMap coveredPaths).dedup ⊆
      ((records ++ [record]).flatMap coveredPaths).dedup := by
    intro path hpath
    rw [List.mem_dedup] at hpath ⊢
    rw [List.flatMap_append]
    exact List.mem_append_left _ hpath
  exact (List.subperm_of_subset (List.nodup_dedup _) hsub).length_le

section Ingest

variable {side identityField : String} {rules : ComparisonRules} {limits : ComparisonLimits}

/-- One more record of an accepted artifact is taken if it leaves the artifact acceptable. -/
theorem ingestRecord_iff {records : List Value} {line : ℕ} {record : Value} {before artifact : Artifact}
    (h : Acceptable identityField rules limits records)
    (hbefore : before = summary identityField rules records) :
    ingestRecord side identityField rules limits before (line, record) = .ok artifact ↔
      Acceptable identityField rules limits (records ++ [record]) ∧
        artifact = summary identityField rules (records ++ [record]) := by
  have hcoverage : ((records ++ [record]).flatMap coveredPaths) =
      records.flatMap coveredPaths ++ coveredPaths record := by
    rw [List.flatMap_append, List.flatMap_singleton]
  have hlast : record ∈ records ++ [record] := List.mem_append_right _ List.mem_cons_self
  have hrecords : before.records = records.length := by rw [hbefore]; rfl
  have hcovered : before.coverage = records.flatMap coveredPaths := by rw [hbefore]; rfl
  have hrows : before.rows = records.filterMap (row identityField rules) := by rw [hbefore]; rfl
  have hrefused : ∀ {message : String}, ¬Acceptable identityField rules limits (records ++ [record]) →
      (Except.error message = .ok artifact ↔ Acceptable identityField rules limits (records ++ [record]) ∧
        artifact = summary identityField rules (records ++ [record])) := by
    refine fun hnot => iff_of_false ?_ fun haccept => hnot haccept.1
    rintro ⟨⟩
  rw [ingestRecord]
  dsimp only
  by_cases hcount : limits.maxRecordsPerArtifact < before.records + 1
  · rw [if_pos hcount]
    refine hrefused fun haccept => ?_
    have hle := haccept.records_le
    rw [List.length_append, List.length_singleton] at hle
    omega
  rw [if_neg hcount]
  by_cases hobject : isObject record = false
  · rw [if_pos hobject]
    refine hrefused fun haccept => ?_
    exact Bool.false_ne_true (hobject.symm.trans (haccept.objects record hlast))
  rw [if_neg hobject]
  cases hkeyed : identityKey (lookup (splitDots identityField) record) with
  | none =>
    refine hrefused fun haccept => ?_
    obtain ⟨key, hkey⟩ := haccept.identified record hlast
    cases hkeyed.symm.trans hkey
  | some key =>
    have hidentity : identityOf identityField record = some key := hkeyed
    dsimp only
    by_cases hpaths : limits.maxFieldPaths < (before.coverage ++ coveredPaths record).dedup.length
    · rw [if_pos hpaths]
      refine hrefused fun haccept => ?_
      have hle := haccept.paths_le
      rw [hcoverage, ← hcovered] at hle
      omega
    rw [if_neg hpaths]
    by_cases htext : hasText (withoutIgnored rules.ignoreFields record) = false
    · rw [if_pos htext]
      refine hrefused fun haccept => ?_
      exact Bool.false_ne_true (htext.symm.trans (haccept.texts record hlast))
    rw [if_neg htext]
    have hkeys : (records ++ [record]).filterMap (identityOf identityField) =
        records.filterMap (identityOf identityField) ++ [key] := by
      rw [List.filterMap_append, List.filterMap_cons_some hidentity, List.filterMap_nil]
    have hrowKeys : before.rows.map Prod.fst = records.filterMap (identityOf identityField) := by
      rw [hrows, keys_rows]
    by_cases hknown : key ∈ before.rows.map Prod.fst
    · rw [if_pos hknown]
      refine hrefused fun haccept => ?_
      have hnodup := haccept.distinct
      rw [hkeys] at hnodup
      exact List.disjoint_of_nodup_append hnodup (hrowKeys ▸ hknown) List.mem_cons_self
    rw [if_neg hknown, Except.ok.injEq]
    have hall : ∀ {p : Value → Prop}, (∀ other ∈ records, p other) → p record →
        ∀ other ∈ records ++ [record], p other := by
      intro p hbefore hhere other hother
      rcases List.mem_append.mp hother with hother | hother
      · exact hbefore other hother
      · exact List.mem_singleton.mp hother ▸ hhere
    have haccept : Acceptable identityField rules limits (records ++ [record]) := by
      refine ⟨hall h.objects (Bool.not_eq_false _ ▸ hobject), hall h.identified ⟨key, hidentity⟩, ?_,
        hall h.texts (Bool.not_eq_false _ ▸ htext), ?_, ?_⟩
      · rw [hkeys, List.nodup_append_comm]
        exact List.nodup_cons.mpr ⟨hrowKeys ▸ hknown, h.distinct⟩
      · rw [List.length_append, List.length_singleton]
        omega
      · rw [hcoverage, ← hcovered]
        omega
    have hsummary : summary identityField rules (records ++ [record]) =
        { rows := before.rows ++ [(key, sortKeys (withoutIgnored rules.ignoreFields record))],
          coverage := before.coverage ++ coveredPaths record, records := before.records + 1 } := by
      have hrow : row identityField rules record =
          some (key, sortKeys (withoutIgnored rules.ignoreFields record)) := by
        rw [row, hidentity]
        rfl
      rw [summary, hcoverage, List.filterMap_append, List.filterMap_cons_some hrow,
        List.filterMap_nil, List.length_append, List.length_singleton, hrows, hcovered, hrecords]
    rw [hsummary, and_iff_right haccept, eq_comm]

/-- **An artifact is taken if and only if its records are acceptable.** -/
theorem ingest_iff {records : List (ℕ × Value)} {artifact : Artifact} :
    ingest side identityField rules limits records = .ok artifact ↔
      Acceptable identityField rules limits (records.map Prod.snd) ∧
        artifact = summary identityField rules (records.map Prod.snd) := by
  induction records using List.reverseRecOn generalizing artifact with
  | nil =>
    have hnone : Acceptable identityField rules limits [] :=
      ⟨nofun, nofun, List.nodup_nil, nofun, Nat.zero_le _, Nat.zero_le _⟩
    change Except.ok (summary identityField rules []) = .ok artifact ↔ _
    rw [List.map_nil, and_iff_right hnone, Except.ok.injEq, eq_comm]
  | append_singleton records record ih =>
    rw [ingest, List.foldlM_append, List.map_append]
    change (ingest side identityField rules limits records >>= _) = _ ↔ _
    constructor
    · intro hok
      cases hbefore : ingest side identityField rules limits records with
      | error e =>
        rw [hbefore] at hok
        exact nomatch hok
      | ok before =>
        obtain ⟨haccept, rfl⟩ := ih.mp hbefore
        rw [hbefore] at hok
        exact (ingestRecord_iff haccept rfl).mp ((bind_pure _).symm.trans hok)
    · intro hafter
      have hbefore := ih.mpr ⟨hafter.1.init, rfl⟩
      rw [hbefore]
      exact (bind_pure _).trans ((ingestRecord_iff hafter.1.init rfl).mpr hafter)

end Ingest

/-! ## Any order -/

section Order

theorem sortedSet_perm {paths others : List String} (h : paths.Perm others) :
    sortedSet paths = sortedSet others := by
  have hperm : (sortedSet paths).Perm (sortedSet others) :=
    (List.perm_insertionSort _ _).trans (h.dedup.trans (List.perm_insertionSort _ _).symm)
  exact hperm.eq_of_pairwise (fun _ _ _ _ => le_antisymm) (List.pairwise_insertionSort _ _)
    (List.pairwise_insertionSort _ _)

theorem counter_perm {paths others : List String} (h : paths.Perm others) :
    counter paths = counter others := by
  rw [counter, counter, sortedSet_perm h]
  exact List.map_congr_left fun path _ => by rw [h.count_eq]

theorem sortedRows_perm {rows others : List (String × Value)} (h : rows.Perm others)
    (hnodup : (rows.map Prod.fst).Nodup) : sortedRows rows = sortedRows others := by
  have hsorted := List.perm_insertionSort (fun row other : String × Value => row.1 ≤ other.1) rows
  have hperm : (sortedRows rows).Perm (sortedRows others) :=
    hsorted.trans (h.trans (List.perm_insertionSort _ _).symm)
  refine hperm.eq_of_pairwise (fun row other hrow hother hle hge => ?_)
    (List.pairwise_insertionSort _ _) (List.pairwise_insertionSort _ _)
  exact List.inj_on_of_nodup_map hnodup (hsorted.mem_iff.mp hrow)
    (h.mem_iff.mpr ((List.perm_insertionSort _ _).mem_iff.mp hother)) (le_antisymm hle hge)

/-- Two artifacts of the same rows, in any order, and the same counts. -/
structure Alike (artifact other : Artifact) : Prop where
  rows : artifact.rows.Perm other.rows
  distinct : (artifact.rows.map Prod.fst).Nodup
  coverage : artifact.coverage.Perm other.coverage
  records : artifact.records = other.records

variable {legacy legacy' connector connector' : Artifact}

theorem absentIdentities_perm {rows others absent absent' : List (String × Value)}
    (h : rows.Perm others) (hnodup : (rows.map Prod.fst).Nodup) (habsent : absent.Perm absent') :
    absentIdentities rows absent = absentIdentities others absent' := by
  rw [absentIdentities, absentIdentities, sortedRows_perm h hnodup]
  congr 1
  refine List.filter_congr fun row _ => ?_
  exact decide_eq_decide.mpr (not_congr (habsent.map Prod.fst).mem_iff)

theorem joinedRows_perm (hl : Alike legacy legacy') (hc : Alike connector connector') :
    joinedRows legacy.rows connector.rows = joinedRows legacy'.rows connector'.rows := by
  rw [joinedRows, joinedRows, sortedRows_perm hl.rows hl.distinct]
  congr 1
  funext row
  rw [lookup_eq_of_perm hc.rows hc.distinct]

theorem coverageDifferences_perm (hl : Alike legacy legacy') (hc : Alike connector connector') :
    coverageDifferences legacy.coverage connector.coverage =
      coverageDifferences legacy'.coverage connector'.coverage := by
  rw [coverageDifferences, coverageDifferences, sortedSet_perm (hl.coverage.append hc.coverage)]
  simp only [hl.coverage.count_eq, hc.coverage.count_eq]

/-- **The comparison of artifacts does not depend on the order of their rows.** -/
theorem compare_perm {φ : Type*} (library : Library φ) (rules : ComparisonRules)
    (limits : ComparisonLimits) (hl : Alike legacy legacy') (hc : Alike connector connector')
    (legacyMetadata connectorMetadata : Option Value) :
    compare library rules limits legacy connector legacyMetadata connectorMetadata =
      compare library rules limits legacy' connector' legacyMetadata connectorMetadata := by
  rw [compare, compare, absentIdentities_perm hc.rows hc.distinct hl.rows,
    absentIdentities_perm hl.rows hl.distinct hc.rows, joinedRows_perm hl hc,
    counter_perm hl.coverage, counter_perm hc.coverage, coverageDifferences_perm hl hc, hl.records,
    hc.records]

variable {identityField : String} {rules : ComparisonRules} {limits : ComparisonLimits}
  {records others : List Value}

theorem Acceptable.perm (h : Acceptable identityField rules limits records)
    (hperm : records.Perm others) : Acceptable identityField rules limits others where
  objects record hrecord := h.objects record (hperm.mem_iff.mpr hrecord)
  identified record hrecord := h.identified record (hperm.mem_iff.mpr hrecord)
  distinct := (hperm.filterMap _).nodup_iff.mp h.distinct
  texts record hrecord := h.texts record (hperm.mem_iff.mpr hrecord)
  records_le := hperm.length_eq ▸ h.records_le
  paths_le := by
    rw [← (hperm.flatMap_right coveredPaths).dedup.length_eq]
    exact h.paths_le

theorem Acceptable.alike (h : Acceptable identityField rules limits records)
    (hperm : records.Perm others) :
    Alike (summary identityField rules records) (summary identityField rules others) where
  rows := hperm.filterMap _
  distinct := (keys_rows records).symm ▸ h.distinct
  coverage := hperm.flatMap_right _
  records := hperm.length_eq

end Order

end CommerceCollector.Parity
