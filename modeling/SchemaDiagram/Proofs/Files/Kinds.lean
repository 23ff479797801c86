import Mathlib.Tactic.SplitIfs
import SchemaDiagram.Files.Tree

/-!
# The kinds of things in a file tree

Where a path leads and what is below a folder depends on the kinds of the entries of a tree, not on
the texts that its files hold. A file that can be read can be written through the same path
(`write_of_read`), and writing it changes the kind of nothing (`sameKinds_insert`).
-/

namespace SchemaDiagram.FileTree

/-! ## What a place holds -/

/-- A path with a place has the entry at that place. -/
theorem lookup_of_place {tree : FileTree} {path : String} {place : Place}
    (h : tree.place path = .ok place) :
    tree.lookup path = match tree.get? place with
      | some entry => .ok entry
      | none => .error .notFound := by
  rw [lookup, h]
  rfl

/-- A path without a place has no entry, for the same reason. -/
theorem lookup_of_place_error {tree : FileTree} {path : String} {e : FileError}
    (h : tree.place path = .error e) : tree.lookup path = .error e := by
  rw [lookup, h]
  rfl

/-! ## Trees of the same kinds -/

/-- Two trees have entries of the same kinds at the same places. -/
def SameKinds (s t : FileTree) : Prop :=
  s.entries.map (fun e => (e.1, e.2.kind)) = t.entries.map fun e => (e.1, e.2.kind)

/-- A tree has the kinds that it has. -/
theorem SameKinds.refl (t : FileTree) : t.SameKinds t := rfl

/-- Trees of the kinds of a third have the same kinds. -/
theorem SameKinds.trans {r s t : FileTree} (h : r.SameKinds s) (h' : s.SameKinds t) :
    r.SameKinds t := Eq.trans h h'

/-- The kind at a place is that of the entry there. -/
theorem lookup_map_kind (place : Place) (es : List (Place × FileEntry)) :
    (es.map fun e => (e.1, e.2.kind)).lookup place = (es.lookup place).map FileEntry.kind := by
  induction es with
  | nil => rfl
  | cons e es ih =>
    rw [List.map_cons, List.lookup_cons, List.lookup_cons, ih]
    cases place == e.1 <;> rfl

section SameKinds

variable {s t : FileTree}

/-- Trees of the same kinds have the same kind at a place. -/
theorem SameKinds.map_kind_get? (h : s.SameKinds t) (place : Place) :
    (s.get? place).map FileEntry.kind = (t.get? place).map FileEntry.kind := by
  unfold get?
  split
  · rfl
  · rw [← lookup_map_kind, ← lookup_map_kind, h]

/-- Following a path asks of each place on the way no more than of what kind it is. -/
theorem follow_cons (tree : FileTree) (place : Place) (piece : String) (pieces : List String) :
    tree.follow place (piece :: pieces) =
      match (tree.get? place).map FileEntry.kind with
      | none => .error .notFound
      | some .file => .error .notFolder
      | some .folder =>
        if piece = "" ∨ piece = "." then tree.follow place pieces
        else if piece = ".." then tree.follow place.above pieces
        else if longestName < piece.utf8ByteSize then .error .nameTooLong
        else tree.follow (place.child piece) pieces := by
  rw [follow]
  rcases tree.get? place with _ | _ | _ | _ <;> rfl

/-- Following pieces of a path leads to the same place. -/
theorem SameKinds.follow (h : s.SameKinds t) (place : Place) (pieces : List String) :
    s.follow place pieces = t.follow place pieces := by
  induction pieces generalizing place with
  | nil => rfl
  | cons piece pieces ih => simp only [follow_cons, h.map_kind_get? place, ih]

/-- A path leads to the same place. -/
theorem SameKinds.place (h : s.SameKinds t) (path : String) : s.place path = t.place path :=
  congrArg (route path >>= ·) (funext fun start => h.follow start.1 start.2)

/-- The kind of a path is that of the entry at its place. -/
theorem kind?_eq (tree : FileTree) (path : String) :
    tree.kind? path = match tree.place path with
      | .ok place => (tree.get? place).map FileEntry.kind
      | .error _ => none := by
  rcases hplace : tree.place path with e | place
  · simp only [FileTree.kind?, lookup_of_place_error hplace]
  · simp only [FileTree.kind?, lookup_of_place hplace]
    cases tree.get? place <;> rfl

/-- A path leads to things of the same kind. -/
theorem SameKinds.kind? (h : s.SameKinds t) (path : String) : s.kind? path = t.kind? path := by
  simp only [kind?_eq, h.place, h.map_kind_get?]

/-- What a folder is told of an entry: the names that lead to it from there, and its kind. -/
def told (above : Place) : Place × FileKind → Option (List String × FileKind)
  | (place, kind) =>
    match above.names.isPrefixOf? place.names with
    | some (name :: names) =>
      if place.start = above.start then some (name :: names, kind) else none
    | _ => none

/-- What is below a folder is told of the entries' kinds alone. -/
theorem below_eq (tree : FileTree) (folder : String) :
    tree.below folder = match tree.place folder with
      | .error _ => []
      | .ok above => (tree.entries.map fun e => (e.1, e.2.kind)).filterMap (told above) := by
  unfold FileTree.below
  cases tree.place folder with
  | error e => rfl
  | ok above =>
    dsimp only
    rw [List.filterMap_map]
    rfl

/-- The same is below a folder. -/
theorem SameKinds.below (h : s.SameKinds t) (folder : String) :
    s.below folder = t.below folder := by
  rw [below_eq, below_eq, h.place]
  cases t.place folder with
  | error e => rfl
  | ok above => exact congrArg (List.filterMap (told above)) h

end SameKinds

/-! ## Reading and writing through a path -/

section Access

variable {tree : FileTree} {path text : String}

/-- What can be read is the text at the place that the path leads to. -/
theorem read_eq_ok_iff : tree.read path = .ok text ↔
    ∃ place, tree.place path = .ok place ∧ tree.get? place = some (.text text) := by
  rcases hplace : tree.place path with e | place
  · rw [read, lookup_of_place_error hplace]
    constructor
    · intro h
      cases h
    · rintro ⟨_, h, -⟩
      cases h
  · rw [read, lookup_of_place hplace]
    constructor
    · intro h
      refine ⟨place, rfl, ?_⟩
      rcases hget : tree.get? place with _ | _ | content | _ <;> rw [hget] at h <;> cases h
      rfl
    · rintro ⟨_, h, hget⟩
      cases h
      rw [hget]
      rfl

/-- Following names goes to where the first ones lead, and on from there. -/
theorem follow_append (place : Place) (front back : List String) :
    tree.follow place (front ++ back) =
      tree.follow place front >>= fun middle => tree.follow middle back := by
  induction front generalizing place with
  | nil => rfl
  | cons piece front ih =>
    simp only [List.cons_append, follow_cons, ih]
    split
    · rfl
    · rfl
    · split_ifs <;> rfl

/-- The pieces of a path with a slash at its end have an empty one at their end. -/
theorem pieces_of_getLast?_slash (hlast : path.toList.getLast? = some '/') :
    ∃ front, Path.pieces path = front ++ [""] := by
  obtain ⟨front, hfront⟩ := List.getLast?_eq_some_iff.1 hlast
  refine ⟨(front.splitOn '/').map String.ofList, ?_⟩
  rw [Path.pieces, hfront, List.splitOn_append_cons_self, List.splitOn_nil, List.map_append]
  rfl

/-- An empty piece at the end of a path leads to a folder if it leads anywhere. -/
theorem get?_of_follow_empty {start place : Place} {front : List String}
    (h : tree.follow start (front ++ [""]) = .ok place) : tree.get? place = some .folder := by
  rw [follow_append] at h
  rcases hfront : tree.follow start front with e | middle
  · rw [hfront] at h
    cases h
  · rw [hfront] at h
    change tree.follow middle [""] = .ok place at h
    rw [follow] at h
    rcases hget : tree.get? middle with _ | _ | _ | _ <;> rw [hget] at h <;> cases h
    exact hget

/-- A path that leads to something other than a folder leads there also for writing. -/
theorem placeToWrite_of_place {place : Place} (hplace : tree.place path = .ok place)
    (hget : tree.get? place ≠ some .folder) : tree.placeToWrite path = .ok place := by
  unfold FileTree.place at hplace
  rw [placeToWrite]
  rcases hroute : route path with e | ⟨start, pieces⟩
  · rw [hroute] at hplace
    cases hplace
  · have hpieces : pieces = Path.pieces path := by
      unfold route at hroute
      split_ifs at hroute <;> cases hroute <;> rfl
    rw [hroute] at hplace
    change tree.follow start pieces = .ok place at hplace
    -- behind a slash at the end there could only be a folder
    have hlast : path.toList.getLast? ≠ some '/' := fun hlast => by
      obtain ⟨front, hfront⟩ := pieces_of_getLast?_slash hlast
      rw [hpieces, hfront] at hplace
      exact hget (get?_of_follow_empty hplace)
    show (if path.toList.getLast? = some '/' then _ else tree.follow start pieces >>= _ : _) = _
    rw [if_neg hlast, hplace]
    exact if_neg hget

/-- A file that can be read can be written, and is found at the place where it was. -/
theorem write_of_read (h : tree.read path = .ok text) (content : String) :
    ∃ place, tree.place path = .ok place ∧ tree.get? place = some (.text text) ∧
      tree.write path content = .ok (tree.insert place (.text content)) := by
  obtain ⟨place, hplace, hget⟩ := read_eq_ok_iff.1 h
  refine ⟨place, hplace, hget, ?_⟩
  rw [write, placeToWrite_of_place hplace (by rw [hget]; exact nofun)]
  rfl

/-- Putting something of the same kind in the place of an entry changes the kind of nothing. -/
theorem map_kind_replace {place : Place} {es : List (Place × FileEntry)} {old : FileEntry}
    (h : es.lookup place = some old) {new : FileEntry} (hkind : new.kind = old.kind) :
    (replace place new es).map (fun e => (e.1, e.2.kind)) = es.map fun e => (e.1, e.2.kind) := by
  induction es with
  | nil => cases h
  | cons e es ih =>
    obtain ⟨p, e⟩ := e
    by_cases hp : place = p
    · subst hp
      rw [List.lookup_cons_self] at h
      cases h
      simp only [replace, if_pos, List.map_cons, hkind]
    · rw [List.lookup_cons, beq_eq_false_iff_ne.2 hp] at h
      simp only [replace, if_neg hp, List.map_cons, ih h]

/-- Writing a file changes the kind of nothing. -/
theorem sameKinds_insert {place : Place} (hget : tree.get? place = some (.text text))
    (content : String) : tree.SameKinds (tree.insert place (.text content)) := by
  unfold get? at hget
  split at hget
  · cases hget
  · have hkind : (FileEntry.text content).kind = (FileEntry.text text).kind := rfl
    exact Eq.symm (map_kind_replace hget hkind)

end Access

end SchemaDiagram.FileTree
