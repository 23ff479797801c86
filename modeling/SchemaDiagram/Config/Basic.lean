import SchemaDiagram.Config.Toml.Document
import SchemaDiagram.Diagram.Compile

/-!
# Configuration

A configuration file has the tables `dsl`, for how source texts are compiled, and `cli`, for where
diagram files are found. Whatever is not set has a default, and settings of other names are passed
over.
-/

namespace SchemaDiagram

/-- The settings of a configuration file. -/
structure Config where
  /-- The greatest size of a source text in bytes. -/
  maxInputBytes : Nat := defaultMaxInputBytes
  /-- The kind of database for documents that name none. -/
  defaultDatabaseType : Option String := none
  /-- The folder of diagram files for commands without paths. -/
  diagramFolder : String := "diagrams/"
  /-- What the names of diagram files in folders end with, behind a point. -/
  extension : String := "dbml"
  deriving DecidableEq, Repr

namespace Config

/-- A setting of a table; one that is not there has a default. -/
def setting? {α : Type} (fields : Toml.Document) (name : String) (default : α)
    (ofValue : Toml.Value → Option α) : Option α :=
  match fields.lookup name with
  | none => some default
  | some v => ofValue v

/-- A size: an integer that is not negative. -/
def size? : Toml.Value → Option Nat
  | .integer n => if 0 ≤ n then some n.toNat else none
  | _ => none

/-- A text. -/
def text? : Toml.Value → Option String
  | .string s => some s
  | _ => none

/-- The settings in a value whose settings have some names. An array gives them in the order of the
names, as far as it goes, and a date has none of them. -/
def settings? (names : List String) : Toml.Value → Option Toml.Document
  | .table fields => some fields
  | .array values => some (names.zip values)
  | .dateTime _ => some []
  | _ => none

/-- The configuration of a document, if every setting is of its kind. -/
def ofDocument? (document : Toml.Document) : Option Config := do
  let dsl ← setting? document "dsl" [] (settings? ["max_input_bytes", "default_database_type"])
  let cli ← setting? document "cli" [] (settings? ["default_diagram_dir", "extension"])
  return {
    maxInputBytes := ← setting? dsl "max_input_bytes" defaultMaxInputBytes size?
    defaultDatabaseType :=
      ← setting? dsl "default_database_type" none fun v => (text? v).map some
    diagramFolder := ← setting? cli "default_diagram_dir" "diagrams/" text?
    extension := ← setting? cli "extension" "dbml" text? }

/-- The configuration that a text describes. -/
def ofString? (text : String) : Option Config := (Toml.Document.ofString? text).bind ofDocument?

/-- The given paths, or the folder of diagram files if there are none. -/
def inputPaths (config : Config) (paths : List String) : List String :=
  if paths.isEmpty then [config.diagramFolder] else paths

/-- How source texts are compiled into diagrams of an identifier and a moment. -/
def compileOptions (config : Config) (id : String) (timestamp : Timestamp) : CompileOptions where
  defaults := { id, timestamp, databaseType := config.defaultDatabaseType }
  maxInputBytes := some config.maxInputBytes

end Config

end SchemaDiagram
