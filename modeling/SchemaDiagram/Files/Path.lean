/-!
# Paths

A path is a text; its parts are compared instead of its characters. Empty parts and single points
inside a path do not count, so `d//x` and `d/./x` are the same path as `d/x`, but a point in front
does. A folder's contents come directly behind it in the order of paths.
-/

namespace SchemaDiagram.Path

/-- A part of a path. -/
inductive Part where
  /-- The slash in front of a path that starts at the root. -/
  | root
  /-- The point in front of a path. -/
  | here
  /-- Two points, the folder above. -/
  | above
  /-- A name. -/
  | name (text : String)
  deriving DecidableEq, Repr

/-- The pieces of a path between its slashes. -/
def pieces (path : String) : List String :=
  (path.toList.splitOn '/').map String.ofList

/-- The part that a piece stands for; empty pieces and single points stand for none. -/
def partOf? (piece : String) : Option Part :=
  if piece = "" ∨ piece = "." then none
  else if piece = ".." then some .above
  else some (.name piece)

/-- The parts of a path. -/
def parts (path : String) : List Part :=
  match pieces path with
  | [] => []
  | first :: others =>
    let front : List Part :=
      if first = "." then [.here]
      else if first = "" ∧ others ≠ [] then [.root]
      else []
    front ++ (first :: others).filterMap partOf?

/-- The rank of a part among parts of other kinds. -/
def Part.rank : Part → Nat
  | root => 0
  | here => 1
  | above => 2
  | name _ => 3

/-- The order of parts; names are compared character by character. -/
def Part.le : Part → Part → Bool
  | name s, name t => decide (s ≤ t)
  | p, q => p.rank ≤ q.rank

/-- The order of part lists: part by part, and a list before its continuations. -/
def partsLe : List Part → List Part → Bool
  | [], _ => true
  | _ :: _, [] => false
  | p :: ps, q :: qs => if p = q then partsLe ps qs else p.le q

/-- The order of paths. -/
def le (p q : String) : Bool := partsLe (parts p) (parts q)

/-- Whether two paths have the same parts. -/
def same (p q : String) : Bool := parts p == parts q

/-- The path of an entry of a folder. -/
def join (folder entry : String) : String :=
  if folder = "" then entry
  else if folder.toList.getLast? = some '/' then folder ++ entry
  else folder ++ "/" ++ entry

/-- Each path once, in the order of paths. Of several spellings of a path the first one stays. -/
def sortOnce (paths : List String) : List String := dropRepeats (paths.mergeSort le)
where
  /-- Drops paths that are the same as the one before them. -/
  dropRepeats : List String → List String
    | [] => []
    | [p] => [p]
    | p :: q :: ps =>
      if same p q then dropRepeats (p :: ps) else p :: dropRepeats (q :: ps)
  termination_by ps => ps.length

end SchemaDiagram.Path
