import SchemaDiagram.Command.Request
import SchemaDiagram.Config.Basic

/-!
# Finding the configuration

A configuration file that is named has to be there. Otherwise the first one wins that is there: the
one in the working folder, the one in the folder of configuration files, the one in the home folder.
If there is none, every setting has its default.
-/

namespace SchemaDiagram.Config

/-- The paths at which a configuration file is looked for if none is named. -/
def candidates (environment : Environment) : List String :=
  let below (folder? : Option String) (path : String) : List String :=
    (folder?.map fun folder => Path.join folder path).toList
  "diagram-forge.toml" :: (below environment.configHome? "diagram-forge/config.toml" ++
    below environment.home? ".config/diagram-forge/config.toml")

variable {m : Type → Type} [Monad m] [MonadFiles m]

/-- The configuration of a file. -/
def ofFile (path : String) : m (Except Failure Config) := do
  match ← MonadFiles.read path with
  | .error e => return .error (.inaccessible path e)
  | .ok text =>
    match ofString? text with
    | some config => return .ok config
    | none => return .error (.config s!"failed to parse {path}")

/-- The first path that leads to something. -/
def firstThere? : List String → m (Option String)
  | [] => return none
  | path :: paths => do
    if (← MonadFiles.kind? path).isSome then return some path else firstThere? paths

/-- The configuration that holds for a program. -/
def load (environment : Environment) (named? : Option String) : m (Except Failure Config) := do
  match named? with
  | some path => ofFile path
  | none =>
    match ← firstThere? (candidates environment) with
    | some path => ofFile path
    | none => return .ok {}

end SchemaDiagram.Config
