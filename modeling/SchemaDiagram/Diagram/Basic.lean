import SchemaDiagram.Diagram.Identifier
import SchemaDiagram.Diagram.Relationship
import SchemaDiagram.Timestamp

/-!
# Diagrams

A diagram is the meaning of a document: tables with columns and indexes, references between columns,
and areas that group tables. Nothing forbids two tables of one name or a reference to a column that
is not there; where an identifier or a name is looked up, the first match counts.

Numbers are compared by value when two diagrams are compared with `==`, so a diagram with a
coordinate that is not a number differs from itself.
-/

namespace SchemaDiagram

/-! ## Columns and indexes -/

/-- A column of a table, or a common column of an area. -/
structure Column where
  /-- The name of the column. -/
  name : String
  /-- Another name. -/
  aliasName : Option String := none
  /-- The name of the type. -/
  columnType : String
  /-- The text between the parentheses of the type. -/
  typeParams : Option String := none
  /-- Part of the primary key. -/
  pk : Bool := false
  /-- A foreign key. -/
  fk : Bool := false
  /-- No two rows share a value. -/
  unique : Bool := false
  /-- Every row has a value. -/
  notNull : Bool := false
  /-- Values are counted up. -/
  increment : Bool := false
  /-- The value of a row that gives none. -/
  default : Option String := none
  /-- A remark. -/
  note : Option String := none
  /-- The line comments filed with the column. -/
  comments : List String := []
  deriving DecidableEq, Repr, Inhabited

namespace Column

/-- The type with its parameters. -/
def fullType (c : Column) : String :=
  match c.typeParams with
  | some params => s!"{c.columnType}({params})"
  | none => c.columnType

/-- The words for the flags that are set, in a fixed order. -/
def flagWords (c : Column) : List String :=
  [(c.pk, "pk"), (c.fk, "fk"), (c.unique, "unique"), (c.notNull, "not null"),
    (c.increment, "increment")].filterMap fun (isSet, word) => if isSet then some word else none

/-- A short text for a column: its name, its type and its flags. -/
def text (c : Column) : String :=
  let flags := if c.flagWords.isEmpty then "" else " [" ++ ", ".intercalate c.flagWords ++ "]"
  s!"{c.name} {c.fullType}" ++ flags

end Column

/-- An index of a table. -/
structure Index where
  /-- The columns or expressions that the index covers. -/
  columns : List String
  /-- No two rows share an entry. -/
  unique : Bool := false
  /-- The primary key. -/
  pk : Bool := false
  /-- The name of the index. -/
  name : Option String := none
  deriving DecidableEq, Repr, Inhabited

/-! ## Tables -/

/-- A table. -/
structure Table where
  /-- The identifier. -/
  id : TableId
  /-- The name of the table. -/
  name : String
  /-- Another name. -/
  aliasName : Option String := none
  /-- The columns in order. -/
  columns : List Column
  /-- The indexes in order. -/
  indexes : List Index := []
  /-- The color of the table's head. -/
  color : Option Color := none
  /-- The place on the canvas. -/
  position : Option Point := none
  /-- The areas that the table belongs to, in their order. -/
  areaIds : List AreaId := []
  /-- A remark. -/
  note : Option String := none
  /-- The line comments filed with the table. -/
  comments : List String := []
  deriving DecidableEq, BEq, Repr, Inhabited

namespace Table

/-- A table with columns and nothing else. -/
def ofColumns (name : String) (columns : List Column) : Table :=
  { id := .ofName name, name, columns }

/-- The first column with a given name. -/
def column? (t : Table) (name : String) : Option Column := t.columns.find? fun c => c.name == name

/-- A short text for a table: its name and a line for each column. -/
def text (t : Table) : String :=
  s!"Table {t.name} \x7b\n" ++ String.join (t.columns.map fun c => s!"  {c.text}\n") ++ "\x7d"

end Table

/-! ## References -/

/-- A reference from a column to another one. -/
structure Reference where
  /-- The identifier. -/
  id : ReferenceId
  /-- The table that refers. -/
  fromTable : TableId
  /-- The column that refers. -/
  fromColumn : String
  /-- The table that is referred to. -/
  toTable : TableId
  /-- The column that is referred to. -/
  toColumn : String
  /-- The cardinality. -/
  kind : Relationship
  /-- Whether the edge is drawn from the other side. -/
  swapEdge : Option Bool := none
  /-- A remark. -/
  note : Option String := none
  /-- The line comments filed with the reference. -/
  comments : List String := []
  deriving DecidableEq, Repr

/-- A reference between two endpoints, which are given by names. -/
def Reference.between (fromTable fromColumn toTable toColumn : String) (kind : Relationship) :
    Reference :=
  { id := .ofEndpoints fromTable fromColumn toTable toColumn
    fromTable := .ofName fromTable, fromColumn
    toTable := .ofName toTable, toColumn, kind }

/-! ## Areas -/

/-- A group of tables. -/
structure Area where
  /-- The identifier. -/
  id : AreaId
  /-- The name of the area. -/
  name : String
  /-- The member tables in the order in which they are listed. -/
  tableIds : List TableId := []
  /-- The color of the area. -/
  color : Option Color := none
  /-- The place on the canvas. -/
  position : Option Point := none
  /-- The width on the canvas. -/
  width : Option Number := none
  /-- The height on the canvas. -/
  height : Option Number := none
  /-- The horizontal place of the label. -/
  labelHorizontal : Option HorizontalLabel := none
  /-- The vertical place of the label. -/
  labelVertical : Option VerticalLabel := none
  /-- The kind of database that the member tables live in. -/
  databaseType : Option String := none
  /-- The columns that all member tables are meant to have. -/
  commonColumns : List Column := []
  /-- A remark. -/
  note : Option String := none
  /-- The line comments filed with the area. -/
  comments : List String := []
  deriving DecidableEq, BEq, Repr, Inhabited

namespace Area

/-- An area with a name and nothing else. -/
def ofName (name : String) : Area := { id := .ofName name, name }

/-- Whether a table is a member of an area. -/
def contains (a : Area) (id : TableId) : Bool := a.tableIds.contains id

end Area

/-! ## Diagrams -/

/-- A diagram. -/
structure Diagram where
  /-- The identifier. -/
  id : String
  /-- The name of the diagram. -/
  name : String
  /-- The name of the document's project. -/
  projectName : Option String := none
  /-- The kind of database that is described. -/
  databaseType : String
  /-- The tables in order. -/
  tables : List Table := []
  /-- The references in order. -/
  references : List Reference := []
  /-- The areas in order. -/
  areas : List Area := []
  /-- A remark. -/
  note : Option String := none
  /-- When the diagram was made. -/
  createdAt : Timestamp
  /-- When the diagram was last changed. -/
  updatedAt : Timestamp
  deriving DecidableEq, BEq, Repr, Inhabited

namespace Diagram

/-- The kind of database of a diagram when nothing names one. -/
def defaultDatabaseType : String := "PostgreSQL"

/-- The name of a diagram whose document has no project. -/
def defaultName : String := "Untitled Diagram"

/-- A diagram with nothing in it. -/
def empty (id name databaseType : String) (timestamp : Timestamp) : Diagram :=
  { id, name, databaseType, createdAt := timestamp, updatedAt := timestamp }

/-- The first table with a given name. -/
def table? (d : Diagram) (name : String) : Option Table := d.tables.find? fun t => t.name == name

/-- The first table with a given identifier. -/
def tableById? (d : Diagram) (id : TableId) : Option Table := d.tables.find? fun t => t.id == id

/-- The first area with a given name. -/
def area? (d : Diagram) (name : String) : Option Area := d.areas.find? fun a => a.name == name

end Diagram

/-! ## Changing the first match -/

/-- Changes the first element that has a property. -/
def modifyFirst {α : Type} (p : α → Bool) (f : α → α) : List α → List α
  | [] => []
  | x :: xs => if p x then f x :: xs else x :: modifyFirst p f xs

namespace Diagram

/-- Changes the first table with a given identifier. -/
def modifyTable (d : Diagram) (id : TableId) (f : Table → Table) : Diagram :=
  { d with tables := modifyFirst (fun t => t.id == id) f d.tables }

end Diagram

/-- Changes the first column with a given name. -/
def Table.modifyColumn (t : Table) (name : String) (f : Column → Column) : Table :=
  { t with columns := modifyFirst (fun c => c.name == name) f t.columns }

namespace Diagram

/-- Marks the column that a reference starts from as a foreign key, if there is such a column. -/
def markForeignKey (d : Diagram) (r : Reference) : Diagram :=
  d.modifyTable r.fromTable fun t => t.modifyColumn r.fromColumn fun c => { c with fk := true }

/-- Marks the columns that references start from as foreign keys. -/
def markForeignKeys (d : Diagram) : Diagram := d.references.foldl markForeignKey d

end Diagram

end SchemaDiagram
