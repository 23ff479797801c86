import SchemaDiagram.Files.Tree

/-!
# Access to files

Commands name files by their paths and ask for no more than these four things. They run on a file
tree that is kept in a state, and on anything else that answers the same questions.
-/

namespace SchemaDiagram

/-- Access to the files around a command. -/
class MonadFiles (m : Type → Type) where
  /-- The kind of what a path leads to, or `none` if it leads to nothing. -/
  kind? (path : String) : m (Option FileKind)
  /-- The names that lead from a folder to what is below it, at any depth. -/
  below (folder : String) : m (List (List String × FileKind))
  /-- The text of a file. -/
  read (path : String) : m (Except FileError String)
  /-- Puts a text into a file, which is made if there is none. -/
  write (path content : String) : m (Except FileError Unit)

/-- A tree answers the questions, and writing changes it. -/
instance : MonadFiles (StateM FileTree) where
  kind? path := return (← get).kind? path
  below folder := return (← get).below folder
  read path := return (← get).read path
  write path content := do
    match (← get).write path content with
    | .error e => return .error e
    | .ok tree =>
      set tree
      return .ok ()

end SchemaDiagram
