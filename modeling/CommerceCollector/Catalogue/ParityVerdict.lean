import CommerceCollector.Catalogue.ParityArtifacts

/-!
# The verdict of parity

A comparison reports that two artifacts are equal if and only if both are accepted, they hold
records of the same identities, and the records of each identity agree.
-/

namespace CommerceCollector.Parity

open JsonText

variable {φ : Type*} {library : Library φ} {tolerances : List (String × NumericTolerance)}
  {identityField : String} {rules : ComparisonRules} {limits : ComparisonLimits}

theorem changedRows_nil_iff {rows : List (String × Value × Value)} :
    changedRows library tolerances rows = .ok [] ↔
      ∀ row ∈ rows, fieldDifferences library row.2.1 row.2.2 tolerances = .ok [] := by
  induction rows with
  | nil => exact iff_of_true rfl nofun
  | cons row rows ih =>
    rw [changedRows, List.forall_mem_cons, ← ih]
    cases fieldDifferences library row.2.1 row.2.2 tolerances with
    | error e => exact iff_of_false nofun fun h => nomatch h.1
    | ok differences =>
      cases changedRows library tolerances rows with
      | error e => exact iff_of_false nofun fun h => nomatch h.2
      | ok rest =>
        cases differences with
        | nil => exact (and_iff_right rfl).symm
        | cons difference differences => exact iff_of_false nofun fun h => nomatch h.1

theorem absentIdentities_nil_iff {rows absent : List (String × Value)} :
    absentIdentities rows absent = [] ↔ rows.map Prod.fst ⊆ absent.map Prod.fst := by
  rw [absentIdentities, List.map_eq_nil_iff, List.filter_eq_nil_iff]
  simp [sortedRows, List.subset_def]

theorem mem_joinedRows {rows others : List (String × Value)} (h : (others.map Prod.fst).Nodup)
    {row : String × Value × Value} :
    row ∈ joinedRows rows others ↔ (row.1, row.2.1) ∈ rows ∧ (row.1, row.2.2) ∈ others := by
  obtain ⟨key, payload, other⟩ := row
  simp only [joinedRows, List.mem_filterMap, sortedRows, List.mem_insertionSort, Option.map_eq_some_iff,
    Prod.exists, Prod.mk.injEq, lookup_of_mem h]
  constructor
  · rintro ⟨_, _, hrow, _, hother, rfl, rfl, rfl⟩
    exact ⟨hrow, hother⟩
  · rintro ⟨hrow, hother⟩
    exact ⟨key, payload, hrow, other, hother, rfl, rfl, rfl⟩

/-- Two artifacts are equal if they have the same identities and no rows that differ. -/
theorem compare_equal_iff {legacy connector : Artifact} :
    (∃ report, compare library rules limits legacy connector none none = .ok report ∧
        report.equal = true) ↔
      absentIdentities connector.rows legacy.rows = [] ∧
      absentIdentities legacy.rows connector.rows = [] ∧
      changedRows library rules.numericTolerances (joinedRows legacy.rows connector.rows) = .ok [] := by
  rw [compare]
  cases changedRows library rules.numericTolerances (joinedRows legacy.rows connector.rows) with
  | error e =>
    refine iff_of_false ?_ ?_
    · rintro ⟨_, h, -⟩
      cases h
    · rintro ⟨-, -, h⟩
      cases h
  | ok changed =>
    constructor
    · rintro ⟨report, hreport, hequal⟩
      obtain rfl := Except.ok.inj hreport
      simpa [metadataReport, and_assoc] using hequal
    · rintro ⟨hadded, hremoved, hchanged⟩
      refine ⟨_, rfl, ?_⟩
      rw [Except.ok.injEq] at hchanged
      simp [hadded, hremoved, hchanged]

/-- A report is given if and only if both artifacts are accepted and their rows can be compared. -/
theorem compareArtifacts_iff {legacy connector : List (ℕ × Value)}
    {legacyMetadata connectorMetadata : Option Value} {report : ComparisonReport} :
    compareArtifacts library identityField rules limits legacy connector legacyMetadata
        connectorMetadata = .ok report ↔
      (splitDots identityField).any (· == "") = false ∧
      Acceptable identityField rules limits (legacy.map Prod.snd) ∧
      Acceptable identityField rules limits (connector.map Prod.snd) ∧
      compare library rules limits (summary identityField rules (legacy.map Prod.snd))
        (summary identityField rules (connector.map Prod.snd)) legacyMetadata connectorMetadata =
          .ok report := by
  rw [compareArtifacts]
  cases (splitDots identityField).any (· == "") with
  | true => exact iff_of_false nofun fun h => nomatch h.1
  | false =>
    rw [and_iff_right rfl, if_neg Bool.false_ne_true]
    constructor
    · intro hok
      cases hlegacy : ingest "legacy" identityField rules limits legacy with
      | error e =>
        rw [hlegacy] at hok
        exact nomatch hok
      | ok left =>
        cases hconnector : ingest "connector" identityField rules limits connector with
        | error e =>
          rw [hlegacy, hconnector] at hok
          exact nomatch hok
        | ok right =>
          rw [hlegacy, hconnector] at hok
          obtain ⟨hleft, rfl⟩ := ingest_iff.mp hlegacy
          obtain ⟨hright, rfl⟩ := ingest_iff.mp hconnector
          exact ⟨hleft, hright, hok⟩
    · rintro ⟨hleft, hright, hok⟩
      rw [ingest_iff.mpr ⟨hleft, rfl⟩, ingest_iff.mpr ⟨hright, rfl⟩]
      exact hok

theorem compareArtifacts_perm {legacy legacy' connector connector' : List (ℕ × Value)}
    (hl : (legacy.map Prod.snd).Perm (legacy'.map Prod.snd))
    (hc : (connector.map Prod.snd).Perm (connector'.map Prod.snd))
    {legacyMetadata connectorMetadata : Option Value} {report : ComparisonReport}
    (h : compareArtifacts library identityField rules limits legacy connector legacyMetadata
      connectorMetadata = .ok report) :
    compareArtifacts library identityField rules limits legacy' connector' legacyMetadata
      connectorMetadata = .ok report := by
  obtain ⟨hfield, hleft, hright, hok⟩ := compareArtifacts_iff.mp h
  rw [compare_perm library rules limits (hleft.alike hl) (hright.alike hc)] at hok
  exact compareArtifacts_iff.mpr ⟨hfield, hleft.perm hl, hright.perm hc, hok⟩

/-- **Records that parity tells apart**: the keys of no `dict` occur twice, those that are kept have
no dots, and no truth value stands opposite the number that it is in Python. -/
structure Comparable (library : Library φ) (ignored : List String) (record other : Value) : Prop where
  distinct : DistinctKeys record
  distinct' : DistinctKeys other
  dots : DotFree ignored "" record
  dots' : DotFree ignored "" other
  clash : ¬Clash library ignored "" record other

/-- Numbers compared by their text, with nothing redacted. -/
def textLibrary : Library Unit where
  same m n := m.text == n.text
  float _ := some ()
  close _ _ _ := false
  sensitive _ := false
  redactScalar s := s

/-- A record with nothing but its identity. -/
def bare : ℕ × Value := (1, .object [("id", .string "g-1")])

end CommerceCollector.Parity
