import SchemaDiagram.Command.Source
import SchemaDiagram.Config.Basic
import SchemaDiagram.Diagram.Integrity
import SchemaDiagram.Report

/-!
# Checking diagram files

Every file is compiled. A source error fails a file in any case; under strict rules warnings and
integrity issues do so too. The totals and the verdict depend on the files alone, and the console
only decides how they are shown.
-/

namespace SchemaDiagram

namespace SourceFile

/-- What was passed over in a file that could be read. -/
def warnings (f : SourceFile) : List Diagnostic :=
  match f.outcome with
  | .ok compiled => compiled.warnings
  | .error _ => []

/-- The integrity issues of a file that could be read. -/
def issues (f : SourceFile) : List IntegrityIssue :=
  match f.outcome with
  | .ok compiled => compiled.diagram.integrityIssues
  | .error _ => []

end SourceFile

/-- What a check counted. -/
structure CheckTotals where
  /-- All files. -/
  files : Nat
  /-- The files that failed. -/
  failed : Nat
  /-- The tables of all files. -/
  tables : Nat
  /-- The warnings of all files. -/
  warnings : Nat
  /-- The integrity issues of all files. -/
  issues : Nat
  deriving DecidableEq, Repr

namespace CheckTotals

/-- Counts what one more file holds. Nothing is counted in a file that could not be read, but it has
failed. A file that could be read fails under strict rules if there is anything to tell about it. -/
def add (strict : Bool) (t : CheckTotals) (f : SourceFile) : CheckTotals :=
  match f.outcome with
  | .error _ => { t with failed := t.failed + 1 }
  | .ok compiled =>
    let fails := strict && (!f.warnings.isEmpty || !f.issues.isEmpty)
    { t with
      failed := if fails then t.failed + 1 else t.failed
      tables := t.tables + compiled.diagram.tables.length
      warnings := t.warnings + f.warnings.length
      issues := t.issues + f.issues.length }

/-- The totals of some files, which are counted one after the other. -/
def ofFiles (strict : Bool) (files : List SourceFile) : CheckTotals :=
  files.foldl (add strict) ⟨files.length, 0, 0, 0, 0⟩

/-- Whether there is nothing to complain about. -/
def clean (t : CheckTotals) : Bool := t.failed == 0 && t.warnings == 0 && t.issues == 0

/-- A check fails if a file does. -/
def failure? (t : CheckTotals) : Option Failure :=
  if 0 < t.failed then some (.check t.failed t.files) else none

end CheckTotals

namespace Check

/-- The report of a source error for people, which is written even if the console is quiet. How a
report is drawn for people is not modelled: its compact JSON form stands for the text. -/
def fatalReport (e : SourceError) (f : SourceFile) : Output :=
  .note (Report.ofSourceError e f.text f.path).toJson.compact

/-- The report of a warning for people. As with source errors, its compact JSON form stands for the
text, whose drawing is not modelled. -/
def warningReport (f : SourceFile) (d : Diagnostic) : Output :=
  .note (Report.ofDiagnostic d f.text f.path).toJson.compact

/-- What people are told about a file that could be read. -/
def humanReport (console : Console) (f : SourceFile) (d : Diagram) : Output :=
  let warnings := if console.quiet then .empty else .concat (f.warnings.map (warningReport f))
  let issues := Output.concat (f.issues.map fun i => console.warning f.path i.message)
  let counts := s!"{d.tables.length} tables, {d.references.length} references, " ++
    s!"{d.areas.length} areas"
  warnings ++ issues ++ console.progress f.path counts

/-- What other programs are told about a file that could be read. -/
def plainReport (f : SourceFile) : Output :=
  let warnings := f.warnings.map fun d =>
    Output.note s!"{f.path}\twarning\t{d.position.line}:{d.position.column}\t{d.summary}"
  let issues := f.issues.map fun i => Output.note s!"{f.path}\tintegrity\t{i.message}"
  .concat (warnings ++ issues)

/-- What is written about a file as soon as it has been checked. -/
def report (console : Console) (f : SourceFile) : Output :=
  match console.style, f.outcome with
  | .human, .error e => fatalReport e f
  | .human, .ok compiled => humanReport console f compiled.diagram
  | .json, _ => .empty
  | .plain, .error e => .note s!"{f.path}\terror\t{e.message}"
  | .plain, .ok _ => plainReport f

/-- The JSON form of a warning, its fields sorted by name. -/
def warningJson (d : Diagnostic) : Json :=
  .object [("column", .count d.position.column), ("line", .count d.position.line),
    ("message", .string d.summary)]

/-- The JSON form of what checking a file gave, its fields sorted by name. -/
def resultJson (f : SourceFile) : Json :=
  match f.outcome with
  | .error e => .object [("fatal", .string e.message), ("file", .string f.path)]
  | .ok compiled =>
    .object [("areas", .count compiled.diagram.areas.length), ("file", .string f.path),
      ("integrity_issues", .array (f.issues.map IntegrityIssue.toJson)),
      ("references", .count compiled.diagram.references.length),
      ("tables", .count compiled.diagram.tables.length),
      ("warnings", .array (f.warnings.map warningJson))]

/-- The JSON form of a whole check, its fields sorted by name. -/
def toJson (t : CheckTotals) (files : List SourceFile) : Json :=
  .object [("failed", .count t.failed), ("files", .count t.files),
    ("integrity_issues", .count t.issues), ("results", .array (files.map resultJson)),
    ("tables", .count t.tables), ("warnings", .count t.warnings)]

/-- What is written when all files have been checked. -/
def closing (console : Console) (t : CheckTotals) (files : List SourceFile) : Output :=
  match console.style with
  | .human =>
    console.summary t.clean
      s!"{t.tables} tables in {t.files} files, {t.warnings} warnings, {t.issues} integrity issues"
  | .json => .line (toJson t files).pretty
  | .plain => .line s!"{t.files}\t{t.failed}\t{t.warnings}\t{t.issues}"

/-- The outcome of a check whose files could all be opened. -/
def outcome (console : Console) (strict : Bool) (files : List SourceFile) : Outcome :=
  let totals := CheckTotals.ofFiles strict files
  ⟨.concat (files.map (report console)) ++ closing console totals files, totals.failure?⟩

/-- Checks the diagram files that some paths stand for. -/
def run {m : Type → Type} [Monad m] [MonadFiles m] (console : Console) (config : Config)
    (options : CompileOptions) (paths : List String) (strict : Bool) : m Outcome := do
  match ← (diagramFiles config.extension (config.inputPaths paths)).run with
  | .error e => return .ofFailure (.ofSearchError e)
  | .ok files =>
    match ← upToFailure (SourceFile.load options) files with
    | (checked, some f) => return ⟨.concat (checked.map (report console)), some f⟩
    | (checked, none) => return outcome console strict checked

end Check

end SchemaDiagram
