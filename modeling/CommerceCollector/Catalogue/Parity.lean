import CommerceCollector.Foundation.JsonEquality
import CommerceCollector.Models.Sanitization

/-!
# Shadow parity

`pipeline/parity.py`: two artifacts are compared record by record.  The records of each are kept in
a table under their identity, without the fields that are ignored and with sorted keys; a record
that has no identity, or the identity of another, refuses the artifact.  Records of one identity are
taken apart into fields under dotted paths, which are compared one by one.

How numbers compare, when they are close, and the patterns of what is redacted are parameters.
-/

namespace CommerceCollector.Parity

open JsonText
open Sanitization (assigned isFinite)

/-! ## Rules and limits -/

/-- `NumericTolerance`. -/
structure NumericTolerance where
  absolute : Number
  relative : Number

/-- `ComparisonRules`. -/
structure ComparisonRules where
  ignoreFields : List String := []
  numericTolerances : List (String × NumericTolerance) := []
  metadataIgnoreFields : List String := []

/-- `ComparisonLimits`, without that of the bytes of a line. -/
structure ComparisonLimits where
  maxRecordsPerArtifact : ℕ := 5000000
  sampleLimit : ℕ := 20
  maxFieldPaths : ℕ := 10000

/-- Python's numbers and the patterns of what is sensitive. -/
structure Library (φ : Type*) where
  /-- `first == second`. -/
  same : Number → Number → Bool
  /-- `float(value)`; nothing, if it overflows. -/
  float : Number → Option φ
  /-- The difference is finite and at most what the tolerance allows. -/
  close : NumericTolerance → φ → φ → Bool
  /-- `SENSITIVE_KEY.search(key)`. -/
  sensitive : String → Bool
  /-- `_redact_scalar`. -/
  redactScalar : String → String

/-! ## Paths -/

/-- `f"{path}.{key}" if path else key`. -/
def joinPath (path key : String) : String := if path = "" then key else path ++ "." ++ key

/-- `_ignored`. -/
def isIgnored (ignored : List String) (path : String) : Bool :=
  ignored.any fun candidate => path == candidate || (candidate ++ ".").toList.isPrefixOf path.toList

section Visit

variable (ignored : List String)

mutual

/-- `visit` of `_without_ignored`. -/
def visit (path : String) : Value → Value
  | .object entries => .object (visitEntries path entries)
  | .array items => .array (visitItems path items)
  | .string s => .string s
  | .number n => .number n
  | .bool b => .bool b
  | .null => .null

/-- The items of a list, which have its path. -/
def visitItems (path : String) : List Value → List Value
  | [] => []
  | item :: items => visit path item :: visitItems path items

/-- The entries of a `dict` that are not ignored. -/
def visitEntries (path : String) : List (String × Value) → List (String × Value)
  | [] => []
  | (key, child) :: entries =>
    if isIgnored ignored (joinPath path key) = true then visitEntries path entries
    else (key, visit (joinPath path key) child) :: visitEntries path entries

end

/-- `_without_ignored`. -/
def withoutIgnored (value : Value) : Value := visit ignored "" value

end Visit

mutual

/-- What `_flatten` assigns for the entries of a `dict`, in order. -/
def flattenEntries (path : String) : List (String × Value) → List (String × Value)
  | [] => []
  | (key, item) :: entries => flattenItem (joinPath path key) item ++ flattenEntries path entries

/-- What `_flatten` assigns for a value: one field, unless it is a `dict` with entries. -/
def flattenItem (path : String) : Value → List (String × Value)
  | .object entries =>
    if entries.isEmpty = true then [(path, .object entries)] else flattenEntries path entries
  | .array items => [(path, .array items)]
  | .string s => [(path, .string s)]
  | .number n => [(path, .number n)]
  | .bool b => [(path, .bool b)]
  | .null => [(path, .null)]

end

/-- `_flatten`. -/
def flatten : Value → List (String × Value)
  | .object entries => assigned (flattenEntries "" entries)
  | _ => []

/-- `_lookup`; nothing, if it is missing. -/
def lookup : List String → Value → Option Value
  | [], value => some value
  | part :: parts, .object entries => (entries.lookup part).bind (lookup parts)
  | _ :: _, _ => none

/-- `path.split(".")`. -/
def splitDots (path : String) : List String :=
  (pieces '.' path.toList).map String.ofList

/-- `_present`. -/
def present : Value → Bool
  | .null => false
  | .string s => s != ""
  | .array items => !items.isEmpty
  | .object entries => !entries.isEmpty
  | _ => true

mutual

/-- The value has a text in JSON: every number is finite. -/
def hasText : Value → Bool
  | .number n => isFinite n
  | .array items => hasTextItems items
  | .object entries => hasTextEntries entries
  | .string _ => true
  | .bool _ => true
  | .null => true

/-- Every item has a text. -/
def hasTextItems : List Value → Bool
  | [] => true
  | item :: items => hasText item && hasTextItems items

/-- Every entry has a text. -/
def hasTextEntries : List (String × Value) → Bool
  | [] => true
  | (_, item) :: entries => hasText item && hasTextEntries entries

end

/-! ## Artifacts -/

/-- The rows of an artifact and what is counted of it. -/
structure Artifact where
  rows : List (String × Value) := []
  coverage : List String := []
  records : ℕ := 0

/-- `str(identity)`, if it is a string with characters or an `int`. -/
def identityKey : Option Value → Option String
  | some (.string s) => if s = "" then none else some s
  | some (.number n) =>
    if n.text.all (fun c => c.isDigit || c == '-') = true then some (String.ofList n.text) else none
  | _ => none

/-- `isinstance(value, dict)`. -/
def isObject : Value → Bool
  | .object _ => true
  | _ => false

/-- The paths of the fields that are present. -/
def coveredPaths (record : Value) : List String :=
  ((flatten record).filter fun field => present field.2).map Prod.fst

section Ingest

variable (side identityField : String) (rules : ComparisonRules) (limits : ComparisonLimits)

/-- One record with the number of its line. -/
def ingestRecord (artifact : Artifact) (record : ℕ × Value) : Except String Artifact :=
  let line := side ++ " line " ++ toString record.1
  if limits.maxRecordsPerArtifact < artifact.records + 1 then
    .error (side ++ " artifact exceeds " ++ toString limits.maxRecordsPerArtifact ++ " records")
  else if isObject record.2 = false then .error (line ++ " is not an object")
  else
    match identityKey (lookup (splitDots identityField) record.2) with
    | none => .error (line ++ " has no scalar " ++ identityField)
    | some key =>
      let normalized := withoutIgnored rules.ignoreFields record.2
      let coverage := artifact.coverage ++ coveredPaths record.2
      if limits.maxFieldPaths < coverage.dedup.length then
        .error (side ++ " artifact exceeds " ++ toString limits.maxFieldPaths ++ " distinct field paths")
      else if hasText normalized = false then
        .error "artifact contains a non-finite or invalid JSON value"
      else if key ∈ artifact.rows.map Prod.fst then
        .error (line ++ " duplicates a stable identity")
      else
        .ok { rows := artifact.rows ++ [(key, sortKeys normalized)], coverage := coverage,
              records := artifact.records + 1 }

/-- `_ingest`. -/
def ingest (records : List (ℕ × Value)) : Except String Artifact :=
  records.foldlM (ingestRecord side identityField rules limits) {}

end Ingest

/-! ## Differences -/

section Compare

variable {φ : Type*} (library : Library φ)

/-- `_equivalent`; nothing stands for a field that is missing. -/
def equivalent (first second : Option Value) (tolerance : Option NumericTolerance) :
    Except String Bool :=
  match first, second with
  | none, none => .ok true
  | none, some _ => .ok false
  | some _, none => .ok false
  | some v, some w =>
    if equal library.same v w = true then .ok true
    else
      match tolerance, v, w with
      | some tolerance, .number m, .number n =>
        match library.float m, library.float n with
        | some x, some y => .ok (library.close tolerance x y)
        | _, _ => .error "int too large to convert to float"
      | _, _, _ => .ok false

/-- A field that differs: its path, and what stands there on either side. -/
abbrev Difference : Type := String × Option Value × Option Value

/-- The fields at some paths that differ. -/
def differencesAt (left right : List (String × Value))
    (tolerances : List (String × NumericTolerance)) : List String → Except String (List Difference)
  | [] => .ok []
  | path :: paths => do
    let alike ← equivalent library (left.lookup path) (right.lookup path) (tolerances.lookup path)
    let rest ← differencesAt left right tolerances paths
    return if alike = true then rest else (path, left.lookup path, right.lookup path) :: rest

/-- `sorted(set(paths))`. -/
def sortedSet (paths : List String) : List String := paths.dedup.insertionSort (· ≤ ·)

/-- `_field_differences`. -/
def fieldDifferences (left right : Value) (tolerances : List (String × NumericTolerance)) :
    Except String (List Difference) :=
  differencesAt library (flatten left) (flatten right) tolerances
    (sortedSet ((flatten left).map Prod.fst ++ (flatten right).map Prod.fst))

/-! ## Redaction -/

mutual

/-- `_redact_value` of a value under a key. -/
def redactValue (key : String) (value : Value) : Value :=
  if library.sensitive key = true then .string "[redacted]"
  else
    match value with
    | .object entries => .object (redactEntries entries)
    | .array items => .array (redactItems key items 20)
    | .string s => .string (library.redactScalar s)
    | .number n => .number n
    | .bool b => .bool b
    | .null => .null

/-- The first items of a list. -/
def redactItems (key : String) : List Value → ℕ → List Value
  | [], _ => []
  | item :: items, room =>
    if room = 0 then [] else redactValue key item :: redactItems key items (room - 1)

/-- The entries of a `dict`, each under its own key. -/
def redactEntries : List (String × Value) → List (String × Value)
  | [] => []
  | (name, item) :: entries => (name, redactValue name item) :: redactEntries entries

end

/-- `_redact_value` of what stands in a field. -/
def redactField (key : String) : Option Value → Value
  | none => .object [("missing", .bool true)]
  | some value => redactValue library key value

/-- A field of a sample: its path and both values. -/
def redactDifference (difference : Difference) : String × Value × Value :=
  (difference.1, redactField library difference.1 difference.2.1,
    redactField library difference.1 difference.2.2)

/-! ## Reports -/

/-- How often each path occurs, the paths sorted. -/
def counter (paths : List String) : List (String × ℕ) :=
  (sortedSet paths).map fun path => (path, paths.count path)

/-- `metadata` of the report. -/
structure MetadataReport where
  provided : Bool
  equal : Bool
  legacy : Option Value
  connector : Option Value
  differences : List (String × Value × Value)

/-- A record that differs. -/
structure Sample where
  id : String
  fields : List (String × Value × Value)

/-- `ComparisonReport`, without the rules and the sizes of the artifacts. -/
structure ComparisonReport where
  equal : Bool
  legacyRecords : ℕ
  connectorRecords : ℕ
  legacyCoverage : List (String × ℕ)
  connectorCoverage : List (String × ℕ)
  addedCount : ℕ
  removedCount : ℕ
  changedCount : ℕ
  addedIds : List String
  removedIds : List String
  changedIds : List String
  fieldDifferences : List (String × ℕ)
  samples : List Sample
  coverageDifferences : List (String × ℕ × ℕ × ℤ)
  metadata : MetadataReport

/-- `_metadata_report`. -/
def metadataReport (legacy connector : Option Value) (rules : ComparisonRules) :
    Except String MetadataReport :=
  match legacy, connector with
  | none, none =>
    .ok { provided := false, equal := true, legacy := none, connector := none, differences := [] }
  | _, _ => do
    let left := withoutIgnored rules.metadataIgnoreFields (legacy.getD (.object []))
    let right := withoutIgnored rules.metadataIgnoreFields (connector.getD (.object []))
    let differences ← Parity.fieldDifferences library left right []
    return { provided := true, equal := differences.isEmpty,
             legacy := some (redactValue library "" left),
             connector := some (redactValue library "" right),
             differences := differences.map (redactDifference library) }

/-- The rows in the order of their identities. -/
def sortedRows (rows : List (String × Value)) : List (String × Value) :=
  rows.insertionSort fun row other => row.1 ≤ other.1

/-- `_identities`: the identities of one side that the other has not. -/
def absentIdentities (rows absent : List (String × Value)) : List String :=
  ((sortedRows rows).filter fun row => row.1 ∉ absent.map Prod.fst).map Prod.fst

/-- The rows that both sides have, by identity. -/
def joinedRows (legacy connector : List (String × Value)) : List (String × Value × Value) :=
  (sortedRows legacy).filterMap fun row =>
    (connector.lookup row.1).map fun payload => (row.1, row.2, payload)

/-- The records that differ, with their differences. -/
def changedRows (tolerances : List (String × NumericTolerance)) :
    List (String × Value × Value) → Except String (List (String × List Difference))
  | [] => .ok []
  | row :: rows => do
    let differences ← Parity.fieldDifferences library row.2.1 row.2.2 tolerances
    let rest ← changedRows tolerances rows
    return if differences.isEmpty = true then rest else (row.1, differences) :: rest

/-- The paths that are not covered as often on both sides. -/
def coverageDifferences (legacy connector : List String) : List (String × ℕ × ℕ × ℤ) :=
  ((sortedSet (legacy ++ connector)).filter fun path =>
      legacy.count path != connector.count path).map fun path =>
    (path, legacy.count path, connector.count path,
      (connector.count path : ℤ) - (legacy.count path : ℤ))

/-- `_compare`. -/
def compare (rules : ComparisonRules) (limits : ComparisonLimits) (legacy connector : Artifact)
    (legacyMetadata connectorMetadata : Option Value) : Except String ComparisonReport := do
  let added := absentIdentities connector.rows legacy.rows
  let removed := absentIdentities legacy.rows connector.rows
  let changed ← changedRows library rules.numericTolerances
    (joinedRows legacy.rows connector.rows)
  let metadata ← metadataReport library legacyMetadata connectorMetadata rules
  return {
    equal := added.isEmpty && removed.isEmpty && changed.isEmpty && metadata.equal
    legacyRecords := legacy.records
    connectorRecords := connector.records
    legacyCoverage := counter legacy.coverage
    connectorCoverage := counter connector.coverage
    addedCount := added.length
    removedCount := removed.length
    changedCount := changed.length
    addedIds := (added.take limits.sampleLimit).map library.redactScalar
    removedIds := (removed.take limits.sampleLimit).map library.redactScalar
    changedIds := (changed.take limits.sampleLimit).map fun row => library.redactScalar row.1
    fieldDifferences := counter (changed.flatMap fun row => row.2.map Prod.fst)
    samples := (changed.take limits.sampleLimit).map fun row =>
      { id := library.redactScalar row.1, fields := row.2.map (redactDifference library) }
    coverageDifferences := Parity.coverageDifferences legacy.coverage connector.coverage
    metadata := metadata }

/-- `_compare_artifacts`. -/
def compareArtifacts (identityField : String) (rules : ComparisonRules) (limits : ComparisonLimits)
    (legacy connector : List (ℕ × Value)) (legacyMetadata connectorMetadata : Option Value) :
    Except String ComparisonReport := do
  if (splitDots identityField).any (· == "") = true then
    throw "identity_field must be a non-empty dotted path"
  let legacyArtifact ← ingest "legacy" identityField rules limits legacy
  let connectorArtifact ← ingest "connector" identityField rules limits connector
  compare library rules limits legacyArtifact connectorArtifact legacyMetadata connectorMetadata

end Compare

end CommerceCollector.Parity
