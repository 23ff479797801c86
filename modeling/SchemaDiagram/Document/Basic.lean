import SchemaDiagram.Diagram.Relationship
import SchemaDiagram.Source.Error

/-!
# Documents

A document is the list of its constructs in the order in which they stand: projects, tables,
references and areas. Names are kept as they were meant, without quotes; every construct, column,
index and endpoint has the span of its text; constructs and columns have the line comments that
were filed with them.
-/

namespace SchemaDiagram.Document

/-- A project: the document's own name and settings. -/
structure Project where
  /-- The name of the project. -/
  name : String
  /-- The kind of database that the document describes. -/
  databaseType : Option String
  /-- A remark. -/
  note : Option String
  /-- From the keyword to the end of the construct. -/
  span : Span
  /-- The line comments filed with the project. -/
  comments : List String
  deriving DecidableEq, Repr

/-- How the default of a column was written. -/
inductive DefaultForm where
  /-- A quoted text. -/
  | string
  /-- An expression in backticks, or a call. -/
  | expression
  /-- A number, `null` or another word. -/
  | literal
  deriving DecidableEq, Repr

/-- The default of a column. -/
structure Default where
  /-- The value without quotes. -/
  value : String
  /-- How it was written. -/
  form : DefaultForm
  deriving DecidableEq, Repr

/-- What the bracketed settings of a column say. -/
structure ColumnSettings where
  /-- Part of the primary key. -/
  pk : Bool
  /-- A foreign key. -/
  fk : Bool
  /-- No two rows share a value. -/
  unique : Bool
  /-- Every row has a value. -/
  notNull : Bool
  /-- Values are counted up. -/
  increment : Bool
  /-- The value of a row that gives none. -/
  default : Option Default
  /-- Another name. -/
  aliasName : Option String
  /-- A remark. -/
  note : Option String
  deriving DecidableEq, Repr

/-- A column without settings. -/
def ColumnSettings.none : ColumnSettings := ⟨false, false, false, false, false, .none, .none, .none⟩

/-- A column of a table, or a common column of an area. -/
structure Column where
  /-- The name of the column. -/
  name : String
  /-- The type as it was written. -/
  type : String
  /-- The text between the parentheses of the type. -/
  params : Option String
  /-- The bracketed settings. -/
  settings : ColumnSettings
  /-- From the name to the end of the column. -/
  span : Span
  /-- The line comments filed with the column. -/
  comments : List String
  deriving DecidableEq, Repr

/-- An index of a table. -/
structure Index where
  /-- The columns or expressions that the index covers. -/
  columns : List String
  /-- No two rows share an entry. -/
  unique : Bool
  /-- The primary key. -/
  pk : Bool
  /-- The name of the index. -/
  name : Option String
  /-- From the first column or parenthesis to the end of the index. -/
  span : Span
  deriving DecidableEq, Repr

/-- A table. -/
structure Table where
  /-- The name of the table. -/
  name : String
  /-- Another name. -/
  aliasName : Option String
  /-- The columns in order. -/
  columns : List Column
  /-- The indexes in order. -/
  indexes : List Index
  /-- The horizontal place on the canvas. -/
  posX : Option Number
  /-- The vertical place on the canvas. -/
  posY : Option Number
  /-- The color of the table's head. -/
  color : Option Color
  /-- A remark. -/
  note : Option String
  /-- From the keyword to the end of the construct. -/
  span : Span
  /-- The line comments filed with the table. -/
  comments : List String
  deriving DecidableEq, Repr

/-- One side of a reference. -/
structure Endpoint where
  /-- The table's name. -/
  table : String
  /-- The column's name. -/
  column : String
  /-- From the table's name to the column's. -/
  span : Span
  deriving DecidableEq, Repr

/-- A reference between two columns. -/
structure Reference where
  /-- The name of the reference. -/
  name : Option String
  /-- The side that refers. -/
  source : Endpoint
  /-- The side that is referred to. -/
  target : Endpoint
  /-- The cardinality. -/
  relationship : Relationship
  /-- Whether the edge is drawn from the other side. -/
  swapEdge : Option Bool
  /-- A remark. -/
  note : Option String
  /-- From the keyword to the end of the construct. -/
  span : Span
  /-- The line comments filed with the reference. -/
  comments : List String
  deriving DecidableEq, Repr

/-- A group of tables. -/
structure Area where
  /-- The name of the area. -/
  name : String
  /-- The names of the member tables as they are listed. -/
  tables : List String
  /-- The horizontal place on the canvas. -/
  posX : Option Number
  /-- The vertical place on the canvas. -/
  posY : Option Number
  /-- The width on the canvas. -/
  width : Option Number
  /-- The height on the canvas. -/
  height : Option Number
  /-- The color of the area. -/
  color : Option Color
  /-- The kind of database that the member tables live in. -/
  databaseType : Option String
  /-- The horizontal place of the label. -/
  labelHorizontal : Option HorizontalLabel
  /-- The vertical place of the label. -/
  labelVertical : Option VerticalLabel
  /-- The columns that all member tables are meant to have. -/
  commonColumns : List Column
  /-- A remark. -/
  note : Option String
  /-- From the keyword to the end of the construct. -/
  span : Span
  /-- The line comments filed with the area. -/
  comments : List String
  deriving DecidableEq, Repr

/-- A construct of a document. -/
inductive Construct where
  | project (p : Project)
  | table (t : Table)
  | reference (r : Reference)
  | area (a : Area)
  deriving DecidableEq, Repr

/-- Files line comments with a construct. -/
def Construct.withComments (comments : List String) : Construct → Construct
  | project p => project { p with comments }
  | table t => table { t with comments }
  | reference r => reference { r with comments }
  | area a => area { a with comments }

end SchemaDiagram.Document

namespace SchemaDiagram

/-- A document that has been read. -/
structure Document where
  /-- The constructs in the order in which they stand. -/
  constructs : List Document.Construct
  deriving DecidableEq, Repr

namespace Document

/-- The project of a document. The last one counts. -/
def project? (d : Document) : Option Project :=
  (d.constructs.filterMap fun
    | .project p => some p
    | _ => none).getLast?

/-- The tables in order. -/
def tables (d : Document) : List Table :=
  d.constructs.filterMap fun
    | .table t => some t
    | _ => none

/-- The references in order. -/
def references (d : Document) : List Reference :=
  d.constructs.filterMap fun
    | .reference r => some r
    | _ => none

/-- The areas in order. -/
def areas (d : Document) : List Area :=
  d.constructs.filterMap fun
    | .area a => some a
    | _ => none

end Document

end SchemaDiagram
