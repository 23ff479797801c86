import SchemaDiagram.Diagram.OfDocument
import SchemaDiagram.Document.Read
import SchemaDiagram.Token.Scan

/-!
# Compiling a source text

A source text within the size limit is cut into tokens, read as a document and turned into a
diagram. Only the size limit and the tokens can refuse a text; what is wrong with a construct is
answered as a warning beside the diagram of the rest.
-/

namespace SchemaDiagram

/-- How a source text is compiled. -/
structure CompileOptions where
  /-- What a document does not say itself. -/
  defaults : DiagramDefaults
  /-- The greatest size of a source text in bytes; `none` if there is no limit. -/
  maxInputBytes : Option Nat

/-- The greatest size of a source text if nothing else is asked for: four mebibytes. -/
def defaultMaxInputBytes : Nat := 4194304

/-- A diagram and what its source text had that could not be used. -/
structure Compiled where
  /-- The diagram. -/
  diagram : Diagram
  /-- The problems that were passed over. -/
  warnings : List Diagnostic
  deriving DecidableEq

/-- Compiles a source text. -/
def compile (options : CompileOptions) (source : String) : Except SourceError Compiled := do
  match options.maxInputBytes with
  | some limit => if limit < source.utf8ByteSize then .error (.tooLarge source.utf8ByteSize limit)
  | none => .ok ()
  let tokens ← Token.scan source
  let reading := Document.ofTokens tokens
  return ⟨.ofDocument reading.document options.defaults, reading.diagnostics⟩

end SchemaDiagram
