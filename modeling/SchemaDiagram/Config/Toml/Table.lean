import SchemaDiagram.Config.Toml.Value

/-!
# Building TOML tables

A document defines its tables piece by piece, so that a table under construction remembers how it
came about: dotted keys add to tables that dotted keys have made, a header gives a table to what
only headers of inner tables have named before, and a finished value takes nothing more. What would
define a key again, or as something else, is refused.
-/

namespace SchemaDiagram.Toml

/-- How a table came about. -/
inductive TableKind where
  /-- By a header of its own. -/
  | header
  /-- By headers of tables inside it. -/
  | implied
  /-- By a dotted key in front of a value. -/
  | dotted
  deriving DecidableEq, Repr

/-- What a key stands for while a document is built. -/
inductive Item where
  /-- A finished value. -/
  | value (v : Value)
  /-- A table. -/
  | table (kind : TableKind) (fields : List (String × Item))
  /-- An array of tables. Only the last one can still grow. -/
  | tables (before : List Value) (last : List (String × Item))
  deriving Repr, Inhabited

/-- The fields of a table while a document is built. -/
abbrev Fields := List (String × Item)

/-- A dotted key: the tables that it leads through and the name in the last of them. -/
structure Key where
  /-- The names of the tables. -/
  path : List String
  /-- The name in the last table. -/
  name : String
  deriving DecidableEq, Repr

/-! ## Finished tables -/

mutual

/-- The value of an item that is finished. -/
def Item.close : Item → Value
  | .value v => v
  | .table _ fields => .table (closeFields fields)
  | .tables before last => .array (before ++ [.table (closeFields last)])

/-- The values of fields that are finished. -/
def closeFields : List (String × Item) → List (String × Value)
  | [] => []
  | (name, item) :: fields => (name, item.close) :: closeFields fields

end

/-! ## Definitions -/

namespace Fields

/-- Changes what a name stands for, or gives a new name something to stand for. -/
def alter (name : String) (f : Option Item → Option Item) : Fields → Option Fields
  | [] => (f none).map fun item => [(name, item)]
  | (other, item) :: fields =>
    if other = name then (f (some item)).map fun item => (name, item) :: fields
    else (alter name f fields).map ((other, item) :: ·)

/-- A change inside an item: of the fields of a table, or of the last table of an array. What is not
there yet becomes a table that is implied. -/
def inside (f : Fields → Option Fields) : Option Item → Option Item
  | none => (f []).map (.table .implied)
  | some (.table kind fields) => (f fields).map (.table kind)
  | some (.tables before last) => (f last).map (.tables before)
  | some (.value _) => none

/-- A change of the fields that some names lead to. -/
def update (f : Fields → Option Fields) : List String → Fields → Option Fields
  | [], fields => f fields
  | name :: names, fields => fields.alter name (inside (update f names))

/-- The table of a header. It may have been implied before. -/
def openItem : Option Item → Option Item
  | none => some (.table .header [])
  | some (.table .implied fields) => some (.table .header fields)
  | some _ => none

/-- One more table in an array of tables. -/
def pushItem : Option Item → Option Item
  | none => some (.tables [] [])
  | some (.tables before last) => some (.tables (before ++ [.table (closeFields last)]) [])
  | some _ => none

/-- Defines a table by its header. -/
def openTable (key : Key) (fields : Fields) : Option Fields :=
  fields.update (fun inner => inner.alter key.name openItem) key.path

/-- Defines one more table of an array by its header. -/
def pushTable (key : Key) (fields : Fields) : Option Fields :=
  fields.update (fun inner => inner.alter key.name pushItem) key.path

/-- Defines a value by the rest of a dotted key. The key may lead through implied tables and arrays
of tables, but where it ends has to be open: the table that it starts in or one that dotted keys
have made. -/
def assignFrom (isOpen : Bool) (v : Value) (name : String) :
    List String → Fields → Option Fields
  | [], fields =>
    if isOpen then
      fields.alter name fun
        | none => some (.value v)
        | some _ => none
    else none
  | next :: path, fields =>
    fields.alter next fun
      | none => (assignFrom true v name path []).map (.table .dotted)
      | some (.table .dotted inner) => (assignFrom true v name path inner).map (.table .dotted)
      | some (.table .implied inner) => (assignFrom false v name path inner).map (.table .implied)
      | some (.tables before last) => (assignFrom false v name path last).map (.tables before)
      | some (.table .header _) | some (.value _) => none

/-- Defines a value in a table. -/
def assign (key : Key) (v : Value) (fields : Fields) : Option Fields :=
  assignFrom true v key.name key.path fields

end Fields

end SchemaDiagram.Toml
