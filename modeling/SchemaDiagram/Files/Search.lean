import SchemaDiagram.Files.Access
import SchemaDiagram.Files.Pattern

/-!
# Searching for files

A path pattern leads from the working folder, or from the root if a slash stands in front of it, to
every path that it matches. A path that is given for diagram files stands for itself if it is a
file; if it is a folder, it stands for what the pattern `**/*.ext` finds in it, where the path of
the folder is read as a part of the pattern.
-/

namespace SchemaDiagram

/-- A path pattern: the patterns of its pieces. -/
structure PathPattern where
  /-- The path that it leads from. -/
  start : String
  /-- The patterns between the slashes. -/
  pieces : List NamePattern
  /-- Whether a slash stands at the end, so that only folders match. -/
  foldersOnly : Bool
  deriving DecidableEq, Repr

namespace PathPattern

/-- The pieces of a text between its slashes, without the empty one behind a slash at the end. -/
def texts (text : String) : List String :=
  let pieces := Path.pieces text
  if pieces.getLast? = some "" then pieces.dropLast else pieces

/-- The pattern that a text stands for. -/
def ofString (text : String) : Except PatternError PathPattern := do
  let _ ← NamePattern.ofString text
  let foldersOnly := text.toList.getLast? = some '/'
  match text.toList with
  | '/' :: letters =>
    return ⟨"/", ← (texts (String.ofList letters)).mapM NamePattern.ofString, foldersOnly⟩
  | _ => return ⟨".", ← (texts text).mapM NamePattern.ofString, foldersOnly⟩

section Expansion

variable {m : Type → Type} [Monad m] [MonadFiles m]

/-- Whether a path leads to a folder. -/
def isFolder (path : String) : m Bool :=
  return (← MonadFiles.kind? path) == some .folder

/-- The path of an entry of a folder; the working folder is left out. -/
def child (folder name : String) : String :=
  if Path.same folder "." then name else Path.join folder name

/-- The paths that the pieces of a pattern lead to from a path. A piece without wildcards leads to
the entry of that name, two stars lead to every folder below, and another piece leads to all entries
that match it; if it starts with a point, it can also match the folder itself and the one above. -/
def expand : List NamePattern → String → m (List String)
  | [], path => return [path]
  | [[.anyFolders]], path => do
    let below ← MonadFiles.below path
    return below.filterMap fun (names, kind) =>
      if kind = .folder then some (names.foldl child path) else none
  | [.anyFolders] :: [.anyFolders] :: pieces, path => expand ([.anyFolders] :: pieces) path
  | [.anyFolders] :: piece :: pieces, path => do
    let below ← MonadFiles.below path
    let found := below.filter fun (names, _) => piece.accepts (names.getLast?.getD "").toList
    found.flatMapM fun (names, _) => expand pieces (names.foldl child path)
  | piece :: pieces, path => do
    match piece.literal? with
    | some letters =>
      let name := String.ofList letters
      let next := child path name
      let isThere ← if name = "." ∨ name = ".." then isFolder path
        else Option.isSome <$> MonadFiles.kind? next
      if isThere then expand pieces next else return []
    | none =>
      let below ← MonadFiles.below path
      let names := below.filterMap fun
        | ([name], _) => if piece.accepts name.toList then some name else none
        | _ => none
      let points := if piece.head? = some (.char '.') then
          [".", ".."].filter fun name => piece.accepts name.toList
        else []
      let inFolder ← isFolder path
      let here := if inFolder then points.map (Path.join path) else []
      (names.map (child path) ++ here).flatMapM (expand pieces)
termination_by pieces => pieces.length

/-- The paths that match a pattern. -/
def matchingPaths (pattern : PathPattern) : m (List String) := do
  let found ← expand pattern.pieces pattern.start
  if pattern.foldersOnly then found.filterM isFolder else return found

end Expansion

end PathPattern

/-! ## Diagram files -/

/-- Why there are no diagram files to work on. -/
inductive SearchError where
  /-- There are none at a path. -/
  | nothingAt (path : String)
  /-- The path of a folder is no pattern. -/
  | badPattern (error : PatternError)
  deriving DecidableEq, Repr

section Search

variable {m : Type → Type} [Monad m] [MonadFiles m]

/-- The diagram files that a path stands for. -/
def diagramFilesAt (extension path : String) : ExceptT SearchError m (List String) := do
  match ← (MonadFiles.kind? path : m (Option FileKind)) with
  | some .file => return [path]
  | some .folder =>
    match PathPattern.ofString (Path.join path ("**/*." ++ extension)) with
    | .ok pattern => (pattern.matchingPaths : m (List String))
    | .error e => throw (.badPattern e)
  | none => throw (.nothingAt path)

/-- The diagram files that some paths stand for, each once and in the order of paths. There is at
least one. -/
def diagramFiles (extension : String) (paths : List String) :
    ExceptT SearchError m (List String) := do
  let found ← paths.flatMapM (diagramFilesAt extension)
  if found.isEmpty then throw (.nothingAt (paths.headD "diagrams/"))
  return Path.sortOnce found

end Search

end SchemaDiagram
