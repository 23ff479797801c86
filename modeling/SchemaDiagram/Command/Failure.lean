import SchemaDiagram.Files.Search
import SchemaDiagram.Json.Basic
import SchemaDiagram.Source.Error

/-!
# Failures of commands

Why a command did not succeed, with the messages and exit codes that show it.
-/

namespace SchemaDiagram

/-- How a command can end. -/
inductive ExitCode where
  | success
  /-- Files that are not formatted, or trouble with a file. -/
  | failure
  /-- Arguments or settings that cannot be used. -/
  | usage
  /-- Source texts that cannot be read, or failed checks. -/
  | source
  deriving DecidableEq, Repr

/-- The number of an exit code. -/
def ExitCode.toNat : ExitCode → Nat
  | success => 0
  | failure => 1
  | usage => 2
  | source => 3

/-- Why a command did not succeed. -/
inductive Failure where
  /-- A source text cannot be read. -/
  | unreadable (file : String) (error : SourceError)
  /-- Some of all files have problems. -/
  | check (failed total : Nat)
  /-- Some files are not in their canonical form. -/
  | unformatted (files : List String)
  /-- A file cannot be read or written. -/
  | inaccessible (path : String) (error : FileError)
  /-- The configuration cannot be used. -/
  | config (message : String)
  /-- There are no diagram files at a path. -/
  | noDiagramFiles (path : String)
  /-- Anything else. -/
  | other (message : String)
  deriving DecidableEq, Repr

namespace Failure

/-- The message of a failure. -/
def message : Failure → String
  | unreadable file error => s!"cannot parse {file}: {error.message}"
  | check failed total => s!"{failed} of {total} files failed checks"
  | unformatted files => s!"{files.length} files are not formatted"
  | inaccessible path error => s!"IO error for {path}: {error.message}"
  | config message => s!"configuration error: {message}"
  | noDiagramFiles path => s!"no diagram files found in {path}"
  | other message => message

/-- The exit code of a failure. -/
def exitCode : Failure → ExitCode
  | unreadable .. | check .. => .source
  | config _ | noDiagramFiles _ => .usage
  | unformatted _ | inaccessible .. | other _ => .failure

/-- The JSON form of a failure, its fields sorted by name. -/
def toJson : Failure → Json
  | unreadable file error =>
    let position := error.position?
    .object [("column", position.elim .null (.count ·.column)), ("error", .string "parse_error"),
      ("file", .string file), ("line", position.elim .null (.count ·.line)),
      ("message", .string error.message)]
  | check failed total =>
    .object [("error", .string "check_failed"), ("failed", .count failed), ("total", .count total)]
  | unformatted files =>
    .object [("error", .string "unformatted"), ("files", .array (files.map .string))]
  | inaccessible path error =>
    .object [("error", .string "io_error"), ("message", .string error.message),
      ("path", .string path)]
  | config message => .object [("error", .string "config_error"), ("message", .string message)]
  | noDiagramFiles path => .object [("error", .string "no_diagram_files"), ("path", .string path)]
  | other message => .object [("error", .string "error"), ("message", .string message)]

/-- The failure of a search for diagram files. -/
def ofSearchError : SearchError → Failure
  | .nothingAt path => noDiagramFiles path
  | .badPattern error => other error.message

end Failure

end SchemaDiagram
