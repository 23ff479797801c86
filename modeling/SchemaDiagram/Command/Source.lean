import SchemaDiagram.Command.Output
import SchemaDiagram.Diagram.Compile

/-!
# The source files of a command

Commands work on files one after the other, and the first file that a command cannot go on with ends
it. What it did and wrote before that stays.
-/

namespace SchemaDiagram

/-- What a command wrote and why it failed, if it did. -/
structure Outcome where
  /-- What was written. -/
  output : Output
  /-- The failure, if there is one. -/
  failure? : Option Failure
  deriving DecidableEq, Repr

/-- The outcome of a failure before anything was written. -/
def Outcome.ofFailure (f : Failure) : Outcome := ⟨.empty, some f⟩

/-- A source file and what compiling it gave. -/
structure SourceFile where
  /-- The path of the file. -/
  path : String
  /-- The text of the file. -/
  text : String
  /-- The diagram of the text, or why there is none. -/
  outcome : Except SourceError Compiled

namespace SourceFile

/-- The compiled diagram; a text that has none is a failure. -/
def compiled (f : SourceFile) : Except Failure Compiled :=
  f.outcome.mapError (.unreadable f.path)

variable {m : Type → Type} [Monad m] [MonadFiles m]

/-- Reads and compiles a file. -/
def load (options : CompileOptions) (path : String) : m (Except Failure SourceFile) := do
  match ← MonadFiles.read path with
  | .ok text => return .ok ⟨path, text, compile options text⟩
  | .error e => return .error (.inaccessible path e)

end SourceFile

/-- Treats things one after the other up to the first failure: the results before it, and the
failure if there is one. -/
def upToFailure {m : Type → Type} [Monad m] {α β : Type} (treat : α → m (Except Failure β)) :
    List α → m (List β × Option Failure)
  | [] => return ([], none)
  | a :: as => do
    match ← treat a with
    | .error e => return ([], some e)
    | .ok b =>
      let (bs, failure?) ← upToFailure treat as
      return (b :: bs, failure?)

end SchemaDiagram
