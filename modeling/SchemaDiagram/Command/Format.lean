import SchemaDiagram.Command.Source
import SchemaDiagram.Config.Basic
import SchemaDiagram.Diagram.Markup

/-!
# Formatting diagram files

The canonical form of a file is the markup of its diagram. Files with warnings are left as they are,
since their canonical form would lack what was passed over; a source error ends the command.
-/

namespace SchemaDiagram

/-- What is done with canonical forms. -/
inductive FormatMode where
  /-- They are written to standard output. -/
  | print
  /-- Files that are not in their canonical form are told. -/
  | verify
  /-- Files that are not in their canonical form are written anew. -/
  | inPlace
  deriving DecidableEq, Repr

/-- What formatting a file came to. -/
inductive Formatted where
  /-- The file has warnings and was left alone. -/
  | skipped (warnings : Nat)
  /-- The file has a canonical form. -/
  | canonical (text : String) (changed : Bool)
  deriving DecidableEq, Repr

namespace Formatted

/-- The canonical form of a file that could be compiled. -/
def ofCompiled (source : String) (compiled : Compiled) : Formatted :=
  if compiled.warnings.isEmpty then
    .canonical compiled.diagram.markup (compiled.diagram.markup ≠ source)
  else .skipped compiled.warnings.length

/-- Whether a file was left alone because of its warnings. -/
def isSkipped : Formatted → Bool
  | skipped _ => true
  | canonical .. => false

/-- Whether a file is not in its canonical form. -/
def isChanged : Formatted → Bool
  | skipped _ => false
  | canonical _ changed => changed

end Formatted

namespace Format

variable {m : Type → Type} [Monad m] [MonadFiles m]

/-- Formats a file; it is written anew if the mode says so and its canonical form differs. -/
def formatFile (options : CompileOptions) (mode : FormatMode) (path : String) :
    m (Except Failure (String × Formatted)) := do
  match ← SourceFile.load options path with
  | .error e => return .error e
  | .ok file =>
    match file.compiled with
    | .error e => return .error e
    | .ok compiled =>
      match mode, Formatted.ofCompiled file.text compiled with
      | .inPlace, .canonical text true =>
        match ← MonadFiles.write path text with
        | .ok () => return .ok (path, .canonical text true)
        | .error e => return .error (.inaccessible path e)
      | _, formatted => return .ok (path, formatted)

/-- What is written about a file. -/
def report (console : Console) (mode : FormatMode) (path : String) : Formatted → Output
  | .skipped warnings =>
    console.warning path s!"skipped, {warnings} syntax errors (run 'diagram-forge check')"
  | .canonical text changed =>
    match mode, changed with
    | .print, _ => .text text
    | .verify, true =>
      if console.style = .plain then .line path else console.progress path "needs formatting"
    | .inPlace, true => console.progress path "formatted"
    | _, false => .empty

/-- What is written about some files. -/
def reports (console : Console) (mode : FormatMode) (files : List (String × Formatted)) : Output :=
  .concat (files.map fun (path, formatted) => report console mode path formatted)

/-- The files that are not in their canonical form. -/
def unformatted (files : List (String × Formatted)) : List String :=
  (files.filter (·.2.isChanged)).map (·.1)

/-- Formatting fails if files that were to be verified are not in their canonical form, and else if
files were skipped. -/
def failure? (mode : FormatMode) (files : List (String × Formatted)) : Option Failure :=
  let skipped := files.countP (·.2.isSkipped)
  if mode = .verify ∧ unformatted files ≠ [] then some (.unformatted (unformatted files))
  else if 0 < skipped then some (.check skipped files.length)
  else none

/-- What is written when all files have been formatted. -/
def closing (console : Console) (mode : FormatMode) (files : List (String × Formatted)) : Output :=
  if mode = .inPlace then
    console.summary true s!"{(unformatted files).length} of {files.length} files reformatted"
  else .empty

/-- Formats files in their order. -/
def formatFiles (console : Console) (options : CompileOptions) (mode : FormatMode)
    (paths : List String) : m Outcome := do
  match ← upToFailure (formatFile options mode) paths with
  | (files, some f) => return ⟨reports console mode files, some f⟩
  | (files, none) =>
    return ⟨reports console mode files ++ closing console mode files, failure? mode files⟩

/-- Formats the diagram files that some paths stand for. -/
def run (console : Console) (config : Config) (options : CompileOptions) (paths : List String)
    (mode : FormatMode) : m Outcome := do
  match ← (diagramFiles config.extension (config.inputPaths paths)).run with
  | .error e => return .ofFailure (.ofSearchError e)
  | .ok files => formatFiles console options mode files

end Format

end SchemaDiagram
