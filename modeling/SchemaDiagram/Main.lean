import SchemaDiagram.Command.Run
import SchemaDiagram.Diagram.Identifier
import Std.Time.DateTime.Timestamp

/-!
# The program

The outer layer: arguments, variables, files, the clock and the standard streams of a process.
-/

namespace SchemaDiagram

/-- The error of a file that the system tells. -/
def FileError.ofSystem : IO.Error → FileError
  | .noFileOrDirectory .. => .notFound
  | .inappropriateType .. => .notFolder
  | .permissionDenied .. => .forbidden
  | .invalidArgument _ 36 _ => .nameTooLong
  | e => .other (toString e)

/-- What is below a folder of the system; folders that cannot be looked into count as empty. -/
partial def systemBelow (names : List String) (folder : String) :
    IO (List (List String × FileKind)) := do
  let here : IO.FS.DirEntry := { root := folder, fileName := "" }
  let entries ← try here.root.readDir catch _ => pure #[]
  entries.toList.flatMapM fun e => do
    let names := names ++ [e.fileName]
    if ← e.path.isDir then
      return (names, .folder) :: (← systemBelow names e.path.toString)
    else return [(names, .file)]

/-- The files of the system. -/
instance : MonadFiles IO where
  kind? path := do
    let here : IO.FS.DirEntry := { root := path, fileName := "" }
    if ← here.root.isDir then return some .folder
    else if ← here.root.pathExists then return some .file
    else return none
  below folder := systemBelow [] folder
  read path := do
    if path.toList.contains '\x00' then return .error .zeroInPath
    let here : IO.FS.DirEntry := { root := path, fileName := "" }
    if ← here.root.isDir then return .error .isFolder
    try
      match String.fromUTF8? (← IO.FS.readBinFile path) with
      | some text => return .ok text
      | none => return .error .notText
    catch e => return .error (.ofSystem e)
  write path content := do
    if path.toList.contains '\x00' then return .error .zeroInPath
    let here : IO.FS.DirEntry := { root := path, fileName := "" }
    if ← here.root.isDir then return .error .isFolder
    try
      IO.FS.writeFile path content
      return .ok ()
    catch e => return .error (.ofSystem e)

/-- The variables that are set around the program. -/
def systemEnvironment : IO Environment := do
  return {
    home? := ← IO.getEnv "HOME"
    configHome? := ← IO.getEnv "XDG_CONFIG_HOME"
    config? := ← IO.getEnv "DIAGRAM_FORGE_CONFIG"
    noColor? := ← IO.getEnv "NO_COLOR" }

/-- A new identifier and the present moment. -/
def systemOrigin : IO Origin := do
  let nanoseconds := (← Std.Time.Timestamp.now).toNanosecondsSinceUnixEpoch.val.toNat
  let bytes ← IO.getRandomBytes 10
  let random := bytes.toList.foldl (fun n b => 256 * n + b.toNat) 0
  return ⟨freshDiagramId (nanoseconds / 1000000) random, .ofNanoseconds nanoseconds⟩

/-- What is told if arguments are no request. -/
def Usage.message : Usage → String
  | help => "usage: diagram-forge [-c FILE] [--format human|json|plain] [-v] [-q] [--no-color] " ++
      "check|fmt|export|completions ..."
  | version => "diagram-forge 0.1.0"
  | nothingGiven | missingCommand => "error: a command is required"
  | unknownCommand => "error: unknown command"
  | unknownArgument => "error: unknown argument"
  | invalidValue => "error: invalid or missing value"
  | missingArgument => "error: a required argument is missing"
  | conflict => "error: arguments cannot be used together"
  | unexpectedValue => "error: an option without a value was given one"

end SchemaDiagram

open SchemaDiagram in
/-- Runs the program and writes what it answers. -/
def main (arguments : List String) : IO UInt32 := do
  let answer : Answer ← runProgram (← systemEnvironment) (← systemOrigin) arguments
  let output : Output := match answer with
    | .usage u => if u.exitCode = .success then .line u.message else .note u.message
    | .done _ _ output => output
  (← IO.getStdout).putStr output.out
  (← IO.getStderr).putStr output.err
  return answer.exitCode.toNat.toUInt32
