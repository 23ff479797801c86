import SchemaDiagram.Files.Path

/-!
# File trees

The files and folders around a working folder, each at its place: the names that lead to it from
the working folder, from a folder above it or from the root. A path is followed piece by piece, and
each piece but the last has to lead into a folder.

Writing at a place changes what is found there (`get?_insert_self`) and nothing else
(`get?_insert_of_ne`).
-/

namespace SchemaDiagram

/-- The kinds of things that paths lead to. -/
inductive FileKind where
  | file
  | folder
  deriving DecidableEq, Repr

/-- Something in a file tree. -/
inductive FileEntry where
  /-- A folder. -/
  | folder
  /-- A file that holds a text. -/
  | text (content : String)
  /-- A file whose bytes are no text. -/
  | binary
  deriving DecidableEq, Repr

/-- The kind of an entry. -/
def FileEntry.kind : FileEntry → FileKind
  | folder => .folder
  | text _ | binary => .file

/-- Why a file cannot be read or written. -/
inductive FileError where
  /-- There is nothing at the path. -/
  | notFound
  /-- The path goes through a file. -/
  | notFolder
  /-- There is a folder at the path. -/
  | isFolder
  /-- The path or a name in it has too many bytes. -/
  | nameTooLong
  /-- A character with the code zero is in the path. -/
  | zeroInPath
  /-- The file holds no text. -/
  | notText
  /-- The system forbids it. -/
  | forbidden
  /-- Any other cause. -/
  | other (message : String)
  deriving DecidableEq, Repr

/-- The message of an error. -/
def FileError.message : FileError → String
  | notFound => "No such file or directory (os error 2)"
  | notFolder => "Not a directory (os error 20)"
  | isFolder => "Is a directory (os error 21)"
  | nameTooLong => "File name too long (os error 36)"
  | zeroInPath => "file name contained an unexpected NUL byte"
  | notText => "stream did not contain valid UTF-8"
  | forbidden => "Permission denied (os error 13)"
  | other message => message

/-- A folder that is there in every tree. -/
inductive Start where
  /-- The working folder, or a folder some levels above it. -/
  | working (levels : Nat)
  /-- The root. -/
  | root
  deriving DecidableEq, Repr

/-- The folder above a start; nothing is above the root. -/
def Start.above : Start → Start
  | working levels => working (levels + 1)
  | root => root

/-- Where something is in a file tree. -/
structure Place where
  /-- The folder that the names lead from. -/
  start : Start
  /-- The names that lead there. -/
  names : List String
  deriving DecidableEq, Repr

namespace Place

/-- The working folder. -/
def here : Place := ⟨.working 0, []⟩

/-- The root. -/
def root : Place := ⟨.root, []⟩

/-- The place of a name in a folder. -/
def child (place : Place) (name : String) : Place := ⟨place.start, place.names ++ [name]⟩

/-- The place of the folder around a place. -/
def above (place : Place) : Place :=
  if place.names = [] then ⟨place.start.above, []⟩ else ⟨place.start, place.names.dropLast⟩

/-- The place that the first names of a place lead to. -/
def take (n : Nat) (place : Place) : Place := ⟨place.start, place.names.take n⟩

end Place

/-- The entries around a working folder. What the working folder and those above it are called is
not known, so that no path leads down to them again. -/
structure FileTree where
  /-- Every file and every folder that is no start, at its place. -/
  entries : List (Place × FileEntry)
  deriving DecidableEq, Repr

namespace FileTree

/-- The tree without any entry. -/
def empty : FileTree := ⟨[]⟩

/-- The entry at a place. -/
def get? (tree : FileTree) (place : Place) : Option FileEntry :=
  if place.names = [] then some .folder else tree.entries.lookup place

/-- Replaces the entry of a place in a list of entries, or adds it at the end. -/
def replace (place : Place) (entry : FileEntry) :
    List (Place × FileEntry) → List (Place × FileEntry)
  | [] => [(place, entry)]
  | (p, e) :: es =>
    if place = p then (place, entry) :: es else (p, e) :: replace place entry es

/-- Puts an entry at a place, instead of the one there if there is one. -/
def insert (place : Place) (entry : FileEntry) (tree : FileTree) : FileTree :=
  ⟨replace place entry tree.entries⟩

/-- An entry is found where it was just put. -/
theorem lookup_replace_self (place : Place) (entry : FileEntry) (es : List (Place × FileEntry)) :
    (replace place entry es).lookup place = some entry := by
  induction es with
  | nil => simp [replace]
  | cons e es ih =>
    obtain ⟨p, e⟩ := e
    by_cases h : place = p
    · simp [replace, h]
    · simp [replace, h, List.lookup_cons, beq_eq_false_iff_ne.mpr h, ih]

/-- Putting an entry somewhere leaves all other places as they were. -/
theorem lookup_replace_of_ne {place other : Place} (h : other ≠ place) (entry : FileEntry)
    (es : List (Place × FileEntry)) : (replace place entry es).lookup other = es.lookup other := by
  induction es with
  | nil => simp [replace, List.lookup_cons, beq_eq_false_iff_ne.mpr h]
  | cons e es ih =>
    obtain ⟨p, e⟩ := e
    by_cases he : place = p
    · subst he
      simp [replace, List.lookup_cons, beq_eq_false_iff_ne.mpr h]
    · simp [replace, he, List.lookup_cons, ih]

/-- What was put at a place is found there. -/
theorem get?_insert_self {place : Place} (h : place.names ≠ []) (entry : FileEntry)
    (tree : FileTree) : (tree.insert place entry).get? place = some entry := by
  simp [get?, insert, h, lookup_replace_self]

/-- Other places are as before. -/
theorem get?_insert_of_ne {place other : Place} (h : other ≠ place) (entry : FileEntry)
    (tree : FileTree) : (tree.insert place entry).get? other = tree.get? other := by
  simp [get?, insert, lookup_replace_of_ne h]

/-- Puts folders at a place and at the places that lead to it, where nothing is yet. -/
def insertFolder (place : Place) (tree : FileTree) : FileTree :=
  (List.range place.names.length).foldl
    (fun tree n =>
      let above := place.take (n + 1)
      if (tree.get? above).isSome then tree else tree.insert above .folder)
    tree

/-! ## From paths to places -/

/-- The greatest number of bytes in a name. -/
def longestName : Nat := 255

/-- The greatest number of bytes in a path. -/
def longestPath : Nat := 4095

/-- Follows the pieces of a path from a place. All but the last piece have to lead into a folder;
there need not be anything at the last one. -/
def follow (tree : FileTree) (place : Place) : List String → Except FileError Place
  | [] => .ok place
  | piece :: pieces =>
    match tree.get? place with
    | none => .error .notFound
    | some (.text _) | some .binary => .error .notFolder
    | some .folder =>
      if piece = "" ∨ piece = "." then tree.follow place pieces
      else if piece = ".." then tree.follow place.above pieces
      else if longestName < piece.utf8ByteSize then .error .nameTooLong
      else tree.follow (place.child piece) pieces

/-- The place that a path leads from and its pieces. -/
def route (path : String) : Except FileError (Place × List String) :=
  if path.toList.contains '\x00' then .error .zeroInPath
  else if path = "" then .error .notFound
  else if longestPath < path.utf8ByteSize then .error .nameTooLong
  else
    let start : Place := if path.toList.head? = some '/' then .root else .here
    .ok (start, Path.pieces path)

/-- The place that a path leads to. -/
def place (tree : FileTree) (path : String) : Except FileError Place := do
  let (start, pieces) ← route path
  tree.follow start pieces

/-- The entry that a path leads to. -/
def lookup (tree : FileTree) (path : String) : Except FileError FileEntry := do
  let place ← tree.place path
  match tree.get? place with
  | some entry => .ok entry
  | none => .error .notFound

/-- The kind of what a path leads to. -/
def kind? (tree : FileTree) (path : String) : Option FileKind :=
  match tree.lookup path with
  | .ok entry => some entry.kind
  | .error _ => none

/-! ## Reading and writing -/

/-- The text of the file at a path. -/
def read (tree : FileTree) (path : String) : Except FileError String := do
  match ← tree.lookup path with
  | .text content => .ok content
  | .folder => .error .isFolder
  | .binary => .error .notText

/-- The place of the file that a path names for writing. A path with a slash at its end names a
folder. -/
def placeToWrite (tree : FileTree) (path : String) : Except FileError Place := do
  let (start, pieces) ← route path
  if path.toList.getLast? = some '/' then
    let named := (pieces.reverse.dropWhile (· = "")).reverse
    let _ ← tree.follow start (named.dropLast ++ [""])
    .error .isFolder
  else
    let place ← tree.follow start pieces
    if tree.get? place = some .folder then .error .isFolder else .ok place

/-- The tree with a text in the file at a path, which is made if there is none. -/
def write (path content : String) (tree : FileTree) : Except FileError FileTree := do
  return tree.insert (← tree.placeToWrite path) (.text content)

/-- The names that lead from a folder to the entries below it, at any depth. -/
def below (tree : FileTree) (folder : String) : List (List String × FileKind) :=
  match tree.place folder with
  | .error _ => []
  | .ok above =>
    tree.entries.filterMap fun (place, entry) =>
      match above.names.isPrefixOf? place.names with
      | some (name :: names) =>
        if place.start = above.start then some (name :: names, entry.kind) else none
      | _ => none

end FileTree

end SchemaDiagram
