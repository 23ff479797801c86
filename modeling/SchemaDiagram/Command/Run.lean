import SchemaDiagram.Command.Arguments
import SchemaDiagram.Command.Check
import SchemaDiagram.Command.Configuration
import SchemaDiagram.Command.Export

/-!
# Running a program

Arguments that are no request are told before anything is read. Otherwise the configuration is
loaded, the command is carried out, and a failure of either is written last.
-/

namespace SchemaDiagram

/-- What the diagrams that a program makes are called, and when they are made. -/
structure Origin where
  /-- The identifier of the diagrams. -/
  id : String
  /-- The moment. -/
  timestamp : Timestamp

/-- What running a program came to. -/
inductive Answer where
  /-- The arguments are no request. -/
  | usage (u : Usage)
  /-- The command was carried out. -/
  | done (log : LogLevel) (exitCode : ExitCode) (output : Output)

/-- The exit code of an answer. -/
def Answer.exitCode : Answer → ExitCode
  | usage u => u.exitCode
  | done _ exitCode _ => exitCode

namespace Request

variable {m : Type → Type} [Monad m] [MonadFiles m]

/-- Carries out a command. Completion scripts are not written here: their command has no output. -/
def perform (config : Config) (options : CompileOptions) (request : Request) : m Outcome :=
  match request.command with
  | .check paths strict => Check.run request.console config options paths strict
  | .format paths mode => Format.run request.console config options paths mode
  | .export file target? => Export.run request.console options file target?
  | .completions _ => return ⟨.empty, none⟩

/-- Loads the configuration and carries out the command. -/
def run (environment : Environment) (origin : Origin) (request : Request) : m Outcome := do
  match ← Config.load environment request.config? with
  | .error f => return .ofFailure f
  | .ok config =>
    request.perform config (config.compileOptions origin.id origin.timestamp)

end Request

/-- The exit code and the whole output of an outcome. -/
def Outcome.close (console : Console) (o : Outcome) : ExitCode × Output :=
  match o.failure? with
  | none => (.success, o.output)
  | some f => (f.exitCode, o.output ++ console.failure f)

/-- Runs a program with its arguments. -/
def runProgram {m : Type → Type} [Monad m] [MonadFiles m] (environment : Environment)
    (origin : Origin) (arguments : List String) : m Answer := do
  match Request.ofArguments environment arguments with
  | .error u => return .usage u
  | .ok request =>
    let outcome : Outcome ← request.run environment origin
    let (exitCode, output) := outcome.close request.console
    return .done request.log exitCode output

end SchemaDiagram
