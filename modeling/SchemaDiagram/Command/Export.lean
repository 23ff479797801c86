import SchemaDiagram.Command.Source
import SchemaDiagram.Diagram.Json

/-!
# Exporting a diagram

The diagram of a file is written as JSON, to standard output or into a file.
-/

namespace SchemaDiagram.Export

/-- The JSON text of a diagram. -/
def jsonText (d : Diagram) : String := d.toJson.pretty ++ "\n"

/-- Exports the diagram of a file. -/
def run {m : Type → Type} [Monad m] [MonadFiles m] (console : Console) (options : CompileOptions)
    (path : String) (target? : Option String) : m Outcome := do
  match (← SourceFile.load options path).bind SourceFile.compiled with
  | .error e => return .ofFailure e
  | .ok compiled =>
    let warnings := Output.concat (compiled.warnings.map fun d => console.warning path d.message)
    let json := jsonText compiled.diagram
    match target? with
    | none => return ⟨warnings ++ .text json, none⟩
    | some target =>
      match ← MonadFiles.write target json with
      | .error e => return ⟨warnings, some (.inaccessible target e)⟩
      | .ok () => return ⟨warnings ++ console.summary true s!"exported {path} to {target}", none⟩

end SchemaDiagram.Export
