import CommerceCollector.Catalogue.LoadSource
import CommerceCollector.Foundation.Savepoints
import Mathlib.Data.Set.List

/-!
# Loading a source through the staging table

`load_source` and `_load_staged` of `storage/postgres.py`, statement by statement and over any
`load_record`: the records are copied into `import_staging`, all of them are loaded in one statement
under a savepoint, and if this raises, one after the other, each under a savepoint of its own.
Every statement may raise.  Either way the tables are those of loading row by row in the order of
the lines and skipping what raises (`load_source_eq_fold`).
-/

namespace CommerceCollector

open Relational Savepoints Session

namespace StagedLoad

/-- A row of `import_staging`. -/
structure StagedRow where
  lineNumber : ℕ
  record : Record

/-- The tables, and the staging table of the connection with its identity column. -/
structure Database where
  catalogue : Catalogue
  staging : List StagedRow := []
  nextLine : ℕ := 1

/-- `SourceReport`. -/
structure Report (ε : Type*) where
  records : ℕ := 0
  rejected : ℕ := 0
  retired : ℕ := 0
  rejects : List (ℕ × ε) := []

/-- The statements of `load_source` other than the loads. -/
inductive Statement
  | setConfig | truncate | copy | stagedLines | retire | clear | commit

/-- `REJECT_SAMPLE`. -/
def rejectSample : ℕ := 5

variable {ε : Type*}

/-- A row that the database refused. -/
def Report.refuse (report : Report ε) (line : ℕ) (e : ε) : Report ε :=
  { report with
    rejected := report.rejected + 1
    rejects := if report.rejects.length < rejectSample then report.rejects ++ [(line, e)]
      else report.rejects }

section Load

variable (faults : Statement → Option ε) (load : Record → Session Catalogue ε Unit)

/-- A statement, which may raise. -/
def execute {α : Type*} (statement : Statement) (block : Session Database ε α) :
    Session Database ε α := fun db =>
  match faults statement with
  | some e => (.error e, db)
  | none => block db

/-- A computation on the tables. -/
def onCatalogue (block : Session Catalogue ε Unit) : Session Database ε Unit := fun db =>
  ((block db.catalogue).1, { db with catalogue := (block db.catalogue).2 })

/-- `truncate import_staging`. -/
def truncateStaging : Session Database ε Unit := fun db => (.ok (), { db with staging := [] })

/-- `copy import_staging (source_file, record) from stdin`: the records are written one after the
other, and the iteration over them may raise; how many there are. -/
def copyStaging : List (Except ε Record) → Session Database ε ℕ
  | [] => pure 0
  | .error e :: _ => fun db => (.error e, db)
  | .ok record :: records => fun db =>
    ((copyStaging records).andThen fun count => pure (count + 1))
      { db with staging := db.staging ++ [⟨db.nextLine, record⟩], nextLine := db.nextLine + 1 }

/-- The staged rows, `order by line_number`. -/
def stagedRows (db : Database) : List StagedRow :=
  db.staging.insertionSort fun a b => a.lineNumber ≤ b.lineNumber

/-- `LOAD`. -/
def loadAll : Session Database ε Unit := fun db =>
  forAll (fun row => onCatalogue (load row.record)) (stagedRows db) db

/-- `LOAD_ONE`. -/
def loadOne (line : ℕ) : Session Database ε Unit := fun db =>
  forAll (fun row => onCatalogue (load row.record))
    (db.staging.filter fun row => row.lineNumber == line) db

/-- A line under a savepoint of its own. -/
def loadLine (acc : Report ε × Database) (line : ℕ) : Report ε × Database :=
  match transaction (loadOne load line) acc.2 with
  | (.ok _, db) => (acc.1, db)
  | (.error e, db) => (acc.1.refuse line e, db)

/-- `_load_staged`. -/
def loadStaged (report : Report ε) : Session Database ε (Report ε) := fun db =>
  match transaction (loadAll load) db with
  | (.ok _, db) => (.ok report, db)
  | (.error _, db) =>
    execute faults .stagedLines (fun db =>
      let acc := ((stagedRows db).map StagedRow.lineNumber).foldl (loadLine load) (report, db)
      (.ok acc.1, acc.2)) db

/-- `RETIRE`; how many products are retired. -/
def retire (source : String) : Session Database ε ℕ := fun db =>
  let unlisted := Catalogue.unlisted source (db.staging.map StagedRow.record)
  (.ok (db.catalogue.products.filter unlisted).length,
    { db with catalogue := { db.catalogue with
      products := update unlisted (fun p => { p with active := false }) db.catalogue.products } })

/-- `load_source`. -/
def loadSource (source : String) (records : List (Except ε Record)) (whole : Bool) :
    Session Database ε (Report ε) :=
  transaction <|
    (execute faults .setConfig (pure ())).andThen fun _ =>
    (execute faults .truncate truncateStaging).andThen fun _ =>
    (execute faults .copy (copyStaging records)).andThen fun count =>
    (loadStaged faults load { records := count }).andThen fun report =>
    (if whole = true then execute faults .retire (retire source) else pure 0).andThen fun retired =>
    (execute faults .clear truncateStaging).andThen fun _ =>
    execute faults .commit (pure { report with retired })

end Load

/-! ## Staging -/

/-- The line numbers of the staged rows are different, and below the next one. -/
structure Database.Numbered (db : Database) : Prop where
  keyed : Keyed StagedRow.lineNumber db.staging
  bounded : ∀ row ∈ db.staging, row.lineNumber < db.nextLine

variable {db : Database}

theorem stagedRows_eq
    (h : db.staging.Pairwise fun a b => a.lineNumber < b.lineNumber) : stagedRows db = db.staging :=
  List.Pairwise.insertionSort_eq (h.imp le_of_lt)

variable {faults : Statement → Option ε} {load : Record → Session Catalogue ε Unit}

/-- A statement raises nothing iff the database does not, nor the statement itself. -/
theorem execute_ok {α : Type*} {statement : Statement} {block : Session Database ε α}
    {db db' : Database} {a : α} :
    execute faults statement block db = (.ok a, db') ↔
      faults statement = none ∧ block db = (.ok a, db') := by
  unfold execute
  cases faults statement <;> simp

variable {records : List (Except ε Record)}

/-- What `copy` does, if nothing raises. -/
theorem copyStaging_ok {db db' : Database} {count : ℕ}
    (h : copyStaging records db = (.ok count, db'))
    (hsorted : db.staging.Pairwise fun a b => a.lineNumber < b.lineNumber)
    (hbounded : ∀ row ∈ db.staging, row.lineNumber < db.nextLine) :
    ∃ recs : List Record, records = recs.map .ok ∧ count = recs.length ∧
      db'.catalogue = db.catalogue ∧
      db'.staging.map StagedRow.record = db.staging.map StagedRow.record ++ recs ∧
      db'.staging.Pairwise fun a b => a.lineNumber < b.lineNumber := by
  induction records generalizing db count with
  | nil =>
    obtain ⟨hcount, rfl⟩ := Prod.mk.inj h
    exact ⟨[], rfl, (Except.ok.inj hcount).symm, rfl, by rw [List.append_nil], hsorted⟩
  | cons record records ih =>
    cases record with
    | error e =>
      cases (Prod.mk.inj h).1
    | ok record =>
      obtain ⟨n, t, hrest, hlast⟩ := andThen_ok.mp h
      obtain ⟨hcount, rfl⟩ := Prod.mk.inj hlast
      have hsorted' : (db.staging ++ [StagedRow.mk db.nextLine record]).Pairwise fun a b =>
          a.lineNumber < b.lineNumber := by
        refine List.pairwise_append.mpr ⟨hsorted, List.pairwise_singleton _ _, fun a ha b hb => ?_⟩
        rw [List.mem_singleton.mp hb]
        exact hbounded a ha
      have hbounded' : ∀ row ∈ db.staging ++ [StagedRow.mk db.nextLine record],
          row.lineNumber < db.nextLine + 1 := by
        intro row hrow
        rcases List.mem_append.mp hrow with hrow | hrow
        · exact (hbounded row hrow).trans (Nat.lt_succ_self _)
        · rw [List.mem_singleton.mp hrow]
          exact Nat.lt_succ_self _
      obtain ⟨recs, rfl, rfl, hcatalogue, hstaging, hpairwise⟩ := ih hrest hsorted' hbounded'
      refine ⟨record :: recs, rfl, (Except.ok.inj hcount).symm, hcatalogue, ?_, hpairwise⟩
      rw [hstaging, List.map_append, List.append_assoc]
      rfl

/-! ## The staged rows -/

theorem forAll_onCatalogue (rows : List StagedRow) (db : Database) :
    forAll (fun row => onCatalogue (load row.record)) rows db =
      ((forAll load (rows.map StagedRow.record) db.catalogue).1,
        { db with catalogue := (forAll load (rows.map StagedRow.record) db.catalogue).2 }) := by
  induction rows generalizing db with
  | nil => rfl
  | cons row rows ih =>
    rw [forAll, List.map_cons, forAll, andThen, andThen, onCatalogue]
    rcases hload : load row.record db.catalogue with ⟨e | a, c⟩
    · rfl
    · exact ih { db with catalogue := c }

theorem transaction_onCatalogue {block : Session Database ε Unit} {inner : Session Catalogue ε Unit}
    (h : block db = ((inner db.catalogue).1, { db with catalogue := (inner db.catalogue).2 })) :
    transaction block db = ((transaction inner db.catalogue).1,
      { db with catalogue := (transaction inner db.catalogue).2 }) := by
  unfold transaction
  rw [h]
  rcases inner db.catalogue with ⟨e | a, c⟩
  · rfl
  · rfl

theorem loadOne_eq (h : Keyed StagedRow.lineNumber db.staging) {row : StagedRow}
    (hrow : row ∈ db.staging) :
    loadOne load row.lineNumber db = ((load row.record db.catalogue).1,
      { db with catalogue := (load row.record db.catalogue).2 }) := by
  have hfilter : db.staging.filter (fun r => r.lineNumber == row.lineNumber) = [row] := by
    have hmem : row ∈ db.staging.filter fun r => r.lineNumber == row.lineNumber :=
      List.mem_filter.mpr ⟨hrow, beq_self_eq_true _⟩
    have hall : ∀ r ∈ db.staging.filter (fun r => r.lineNumber == row.lineNumber), r = row := by
      intro r hr
      obtain ⟨hr, hline⟩ := List.mem_filter.mp hr
      exact h.eq_of_mem hr hrow (beq_iff_eq.mp hline)
    have hnodup : (db.staging.filter fun r => r.lineNumber == row.lineNumber).Nodup :=
      (List.Nodup.of_map _ h).filter _
    exact List.perm_singleton.mp ((List.perm_ext_iff_of_nodup hnodup (List.nodup_singleton row)).mpr
      fun r => ⟨fun hr => List.mem_singleton.mpr (hall r hr), fun hr =>
        List.mem_singleton.mp hr ▸ hmem⟩)
  rw [loadOne, hfilter, forAll, andThen, onCatalogue]
  rcases load row.record db.catalogue with ⟨e | a, c⟩
  · rfl
  · rfl

theorem loadLine_eq (h : Keyed StagedRow.lineNumber db.staging) {row : StagedRow}
    (hrow : row ∈ db.staging) (report : Report ε) :
    loadLine load (report, db) row.lineNumber =
      (((attempt load db.catalogue row.record).1.elim report (report.refuse row.lineNumber)),
        { db with catalogue := (attempt load db.catalogue row.record).2 }) := by
  rw [loadLine, attempt, transaction_onCatalogue (loadOne_eq h hrow)]
  rcases transaction (load row.record) db.catalogue with ⟨e | a, c⟩
  · rfl
  · rfl

variable (load) in
theorem foldl_loadLine (rows : List StagedRow) (report : Report ε) (db : Database)
    (h : Keyed StagedRow.lineNumber db.staging) (hrows : ∀ row ∈ rows, row ∈ db.staging) :
    ∃ report' : Report ε,
      (rows.map StagedRow.lineNumber).foldl (loadLine load) (report, db) =
        (report', { db with
          catalogue := (skipping load db.catalogue (rows.map StagedRow.record)).2 }) ∧
      report'.records = report.records ∧ report'.retired = report.retired ∧
      report'.rejected = report.rejected +
        (skipping load db.catalogue (rows.map StagedRow.record)).1.length := by
  induction rows generalizing report db with
  | nil => exact ⟨report, rfl, rfl, rfl, rfl⟩
  | cons row rows ih =>
    rw [List.map_cons, List.foldl_cons, loadLine_eq h (hrows row List.mem_cons_self), List.map_cons,
      skipping]
    obtain ⟨report', hfold, hrecords, hretired, hrejected⟩ := ih
      ((attempt load db.catalogue row.record).1.elim report (report.refuse row.lineNumber))
      { db with catalogue := (attempt load db.catalogue row.record).2 } h
      fun r hr => hrows r (List.mem_cons_of_mem row hr)
    refine ⟨report', hfold, hrecords.trans ?_, hretired.trans ?_, hrejected.trans ?_⟩
    · cases (attempt load db.catalogue row.record).1 <;> rfl
    · cases (attempt load db.catalogue row.record).1 <;> rfl
    · cases (attempt load db.catalogue row.record).1 with
      | none => simp
      | some e =>
        simp only [Option.elim_some, Option.map_some, Option.toList_some, List.length_append,
          List.length_singleton, Report.refuse]
        omega

/-- **The staged rows are loaded as if one after the other**, in the order of the lines, and what
raises is skipped and counted. -/
theorem loadStaged_eq (h : Keyed StagedRow.lineNumber db.staging) {report report' : Report ε}
    {db' : Database} (hload : loadStaged faults load report db = (.ok report', db')) :
    db' = { db with
        catalogue := (skipping load db.catalogue ((stagedRows db).map StagedRow.record)).2 } ∧
      report'.records = report.records ∧ report'.retired = report.retired ∧
      report'.rejected = report.rejected +
        (skipping load db.catalogue ((stagedRows db).map StagedRow.record)).1.length := by
  have hall : transaction (loadAll load) db = _ :=
    transaction_onCatalogue (forAll_onCatalogue (stagedRows db) db)
  unfold loadStaged at hload
  rw [hall] at hload
  rcases hone : transaction (forAll load ((stagedRows db).map StagedRow.record)) db.catalogue
    with ⟨e | a, c⟩
  · -- the one statement raised, and its savepoint restores the tables
    have hc : c = db.catalogue := by
      have hrestored := transaction_error (congrArg Prod.fst hone)
      rw [hone] at hrestored
      exact (Prod.mk.inj hrestored).2
    rw [hone, hc] at hload
    obtain ⟨report'', hfold, hcounts⟩ := foldl_loadLine load (stagedRows db) report db h
      fun row hrow => (List.mem_insertionSort _).mp hrow
    obtain ⟨-, hrows⟩ := execute_ok.mp hload
    obtain ⟨hreport, rfl⟩ := Prod.mk.inj hrows
    obtain rfl := Except.ok.inj hreport
    rw [hfold]
    exact ⟨rfl, hcounts⟩
  · -- the one statement raised nothing, nor does any of its rows
    rw [hone] at hload
    obtain ⟨hreport, rfl⟩ := Prod.mk.inj hload
    obtain rfl := Except.ok.inj hreport
    have hskipping := skipping_of_forAll_ok (transaction_ok.mp hone)
    rw [hskipping]
    exact ⟨rfl, rfl, rfl, rfl⟩

variable (load) in
/-- The rows that raise do not make `_load_staged` raise. -/
theorem loadStaged_total (hlines : faults .stagedLines = none) (report : Report ε) (db : Database) :
    ∃ report' db', loadStaged faults load report db = (.ok report', db') := by
  unfold loadStaged
  split
  · exact ⟨_, _, rfl⟩
  · exact ⟨_, _, execute_ok.mpr ⟨hlines, rfl⟩⟩

/-! ## Loading a source -/

/-- The statements of `load_source` that are always executed, and the retirement of a whole file. -/
def Executed (whole : Bool) : Statement → Prop
  | .stagedLines => False
  | .retire => whole = true
  | _ => True

/-- The tables after `RETIRE`. -/
def retired (source : String) (recs : List Record) (whole : Bool) (db : Catalogue) : Catalogue :=
  if whole = true then
    { db with
      products := update (Catalogue.unlisted source recs) (fun p => { p with active := false })
        db.products }
  else db

theorem retire_ok {source : String} {whole : Bool} {db db' : Database} {count : ℕ}
    (h : (if whole = true then execute faults .retire (retire source) else pure 0) db =
      (.ok count, db')) :
    (whole = true → faults .retire = none) ∧
      db'.catalogue = retired source (db.staging.map StagedRow.record) whole db.catalogue ∧
      count = if whole = true then (db.catalogue.products.filter
        (Catalogue.unlisted source (db.staging.map StagedRow.record))).length else 0 := by
  cases whole with
  | true =>
    obtain ⟨hretire, hrows⟩ := execute_ok.mp h
    obtain ⟨hcount, rfl⟩ := Prod.mk.inj hrows
    exact ⟨fun _ => hretire, rfl, (Except.ok.inj hcount).symm⟩
  | false =>
    obtain ⟨hcount, rfl⟩ := Prod.mk.inj h
    exact ⟨fun h => absurd h Bool.false_ne_true, rfl, (Except.ok.inj hcount).symm⟩

/-- A run of `load_source` that raises nothing. -/
theorem loadSource_ok {source : String} {whole : Bool} {db db' : Database} {report : Report ε}
    (h : loadSource faults load source records whole db = (.ok report, db')) :
    (∀ statement, Executed whole statement → faults statement = none) ∧
    ∃ recs : List Record, records = recs.map .ok ∧
      db'.catalogue = retired source recs whole (skipping load db.catalogue recs).2 ∧
      db'.staging = [] ∧ report.records = recs.length ∧
      report.rejected = (skipping load db.catalogue recs).1.length ∧
      report.retired = if whole = true then
        ((skipping load db.catalogue recs).2.products.filter
          (Catalogue.unlisted source recs)).length else 0 := by
  obtain ⟨⟨⟩, d₁, hconfig, h⟩ := andThen_ok.mp (transaction_ok.mp h)
  obtain ⟨hset, hpure⟩ := execute_ok.mp hconfig
  obtain ⟨-, rfl⟩ := Prod.mk.inj hpure
  obtain ⟨⟨⟩, d₂, htruncate, h⟩ := andThen_ok.mp h
  obtain ⟨hempty, hemptied⟩ := execute_ok.mp htruncate
  obtain ⟨-, rfl⟩ := Prod.mk.inj hemptied
  obtain ⟨count, d₃, hcopy, h⟩ := andThen_ok.mp h
  obtain ⟨hread, hcopied⟩ := execute_ok.mp hcopy
  obtain ⟨recs, rfl, rfl, hcatalogue, hrecs, hsorted⟩ :=
    copyStaging_ok hcopied List.Pairwise.nil fun row hrow => absurd hrow List.not_mem_nil
  obtain ⟨loaded, d₄, hload, h⟩ := andThen_ok.mp h
  have hkeyed : Keyed StagedRow.lineNumber d₃.staging :=
    List.pairwise_map.mpr (hsorted.imp ne_of_lt)
  obtain ⟨rfl, hrecords, hzero, hrejected⟩ := loadStaged_eq hkeyed hload
  obtain ⟨gone, d₅, hretire, h⟩ := andThen_ok.mp h
  obtain ⟨⟨⟩, d₆, hclear, h⟩ := andThen_ok.mp h
  obtain ⟨hlast, hcleared⟩ := execute_ok.mp hclear
  obtain ⟨-, rfl⟩ := Prod.mk.inj hcleared
  obtain ⟨hcommit, hdone⟩ := execute_ok.mp h
  obtain ⟨hreport, rfl⟩ := Prod.mk.inj hdone
  obtain rfl := Except.ok.inj hreport
  obtain ⟨hretire, hgone, hcount⟩ := retire_ok hretire
  simp only [stagedRows_eq hsorted, hrecs, hcatalogue, List.map_nil, List.nil_append]
    at hrejected hgone hcount
  refine ⟨?_, recs, rfl, hgone, rfl, hrecords, hrejected.trans (Nat.zero_add _), hcount⟩
  rintro (_ | _ | _ | _ | _ | _ | _) hexecuted
  · exact hset
  · exact hempty
  · exact hread
  · exact hexecuted.elim
  · exact hretire hexecuted
  · exact hlast
  · exact hcommit

theorem records_read (h : ∀ e, .error e ∉ records) :
    ∃ recs : List Record, records = recs.map .ok := by
  have hmem : records ∈ {l : List (Except ε Record) | ∀ r ∈ l, r ∈ Set.range Except.ok} := by
    rintro (e | r) hr
    · exact absurd hr (h e)
    · exact ⟨r, rfl⟩
  rw [← Set.range_list_map] at hmem
  obtain ⟨recs, hrecs⟩ := hmem
  exact ⟨recs, hrecs.symm⟩

theorem copyStaging_total (recs : List Record) (db : Database) :
    ∃ db', copyStaging (recs.map .ok : List (Except ε Record)) db = (.ok recs.length, db') := by
  induction recs generalizing db with
  | nil => exact ⟨db, rfl⟩
  | cons record recs ih =>
    obtain ⟨db', h⟩ := ih
      { db with staging := db.staging ++ [⟨db.nextLine, record⟩], nextLine := db.nextLine + 1 }
    exact ⟨db', andThen_ok.mpr ⟨recs.length, db', h, rfl⟩⟩

/-- If no statement raises, whatever the rows do, then neither does `load_source`. -/
theorem loadSource_total (hfaults : ∀ statement, faults statement = none) (source : String)
    (recs : List Record) (whole : Bool) (db : Database) :
    ∃ report db', loadSource faults load source (recs.map .ok) whole db = (.ok report, db') := by
  obtain ⟨d₃, hcopy⟩ := copyStaging_total (ε := ε) recs { db with staging := [] }
  obtain ⟨loaded, d₄, hload⟩ := loadStaged_total load (hfaults .stagedLines)
    { records := recs.length } d₃
  have hretire : ∃ count d₅,
      (if whole = true then execute faults .retire (retire source) else pure 0) d₄ =
        (.ok count, d₅) := by
    cases whole with
    | true => exact ⟨_, _, execute_ok.mpr ⟨hfaults .retire, rfl⟩⟩
    | false => exact ⟨_, _, rfl⟩
  obtain ⟨count, d₅, hretire⟩ := hretire
  refine ⟨{ loaded with retired := count }, { d₅ with staging := [] }, transaction_ok.mpr ?_⟩
  refine andThen_ok.mpr ⟨(), db, execute_ok.mpr ⟨hfaults .setConfig, rfl⟩, ?_⟩
  refine andThen_ok.mpr ⟨(), _, execute_ok.mpr ⟨hfaults .truncate, rfl⟩, ?_⟩
  refine andThen_ok.mpr ⟨_, _, execute_ok.mpr ⟨hfaults .copy, hcopy⟩, ?_⟩
  refine andThen_ok.mpr ⟨_, _, hload, andThen_ok.mpr ⟨_, _, hretire, ?_⟩⟩
  refine andThen_ok.mpr ⟨(), _, execute_ok.mpr ⟨hfaults .clear, rfl⟩, ?_⟩
  exact execute_ok.mpr ⟨hfaults .commit, rfl⟩

variable (faults load)

/-- **Loading a source is loading its rows one after the other** and skipping those that raise in
the state reached so far.  Only these are counted as rejected; a whole file then retires the active
products of the source that no row lists, a rejected one included; and what raises leaves
everything. -/
theorem load_source_eq_fold (source : String) (records : List (Except ε Record)) (whole : Bool)
    (db : Database) :
    -- `_load_staged` on any staging table
    (∀ (staged : Database) (report : Report ε), Keyed StagedRow.lineNumber staged.staging →
      faults .stagedLines = none →
      ∃ report' : Report ε,
        loadStaged faults load report staged = (.ok report', { staged with
          catalogue :=
            (skipping load staged.catalogue ((stagedRows staged).map StagedRow.record)).2 }) ∧
        report'.rejected = report.rejected +
          (skipping load staged.catalogue
            ((stagedRows staged).map StagedRow.record)).1.length) ∧
    -- a `load_source` that raises nothing
    (∀ (report : Report ε) (db' : Database),
      loadSource faults load source records whole db = (.ok report, db') →
      ∃ recs : List Record, records = recs.map .ok ∧
        db'.catalogue = retired source recs whole (skipping load db.catalogue recs).2 ∧
        db'.staging = [] ∧ report.records = recs.length ∧
        report.rejected = (skipping load db.catalogue recs).1.length ∧
        report.retired = if whole = true then
          ((skipping load db.catalogue recs).2.products.filter
            (Catalogue.unlisted source recs)).length else 0) ∧
    -- it raises nothing if no statement does and every record can be read
    ((∀ statement, faults statement = none) → (∀ e, .error e ∉ records) →
      ∃ (report : Report ε) (db' : Database),
        loadSource faults load source records whole db = (.ok report, db')) ∧
    -- it raises if one of its statements does, or a record cannot be read
    ((∃ statement, Executed whole statement ∧ faults statement ≠ none) ∨
      (∃ e, .error e ∈ records) →
      ∃ e, loadSource faults load source records whole db = (.error e, db)) ∧
    -- what raises leaves the database
    (∀ (e : ε) (db' : Database),
      loadSource faults load source records whole db = (.error e, db') → db' = db) := by
  have hleft : ∀ (e : ε) (db' : Database),
      loadSource faults load source records whole db = (.error e, db') → db' = db := by
    intro e db' h
    have hrestored := transaction_error (congrArg Prod.fst h)
    exact (Prod.mk.inj (h.symm.trans hrestored)).2
  refine ⟨?_, fun report db' h => (loadSource_ok h).2, ?_, ?_, hleft⟩
  · intro staged report hkeyed hlines
    obtain ⟨report', d, h⟩ := loadStaged_total load hlines report staged
    obtain ⟨rfl, -, -, hrejected⟩ := loadStaged_eq hkeyed h
    exact ⟨report', h, hrejected⟩
  · intro hfaults hrecords
    obtain ⟨recs, rfl⟩ := records_read hrecords
    exact loadSource_total hfaults source recs whole db
  · intro hraises
    rcases h : loadSource faults load source records whole db with ⟨e | report, db'⟩
    · rw [hleft e db' h]
      exact ⟨e, rfl⟩
    · obtain ⟨hfaults, recs, rfl, -⟩ := loadSource_ok h
      rcases hraises with ⟨statement, hexecuted, hraises⟩ | ⟨e, he⟩
      · exact absurd (hfaults statement hexecuted) hraises
      · obtain ⟨r, -, hr⟩ := List.mem_map.mp he
        cases hr

/-- A load that refuses what has no name: the second of three rows is rejected. -/
example : (loadSource (fun _ => (none : Option Unit))
    (fun r c => if r.name = none then (.error (), c)
      else (.ok (), { c with sources := c.sources ++ r.name.toList }))
    "shop" [.ok { name := some "clay" }, .ok {}, .ok { name := some "glaze" }]
    true { catalogue := {} }).1.toOption.map (fun report => (report.rejected, report.rejects)) =
      some (1, [(2, ())]) := by decide +kernel

end StagedLoad

end CommerceCollector
