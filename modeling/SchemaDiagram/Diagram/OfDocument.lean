import SchemaDiagram.Diagram.Basic
import SchemaDiagram.Diagram.TypeName
import SchemaDiagram.Document.Basic

/-!
# The diagram of a document

Tables and references are taken over one by one. Areas come last, so that an area can list tables
that stand behind it: a listed name stands for the first table of that name, names of no table are
left out, and membership is recorded at the area and at the table. Columns that references start
from are foreign keys.
-/

namespace SchemaDiagram

/-- What a document does not say itself. -/
structure DiagramDefaults where
  /-- The identifier of the diagram. -/
  id : String
  /-- When the diagram is made. -/
  timestamp : Timestamp
  /-- The kind of database if the document names none. -/
  databaseType : Option String := none

namespace Document

/-- The model of a column. -/
def Column.toModel (c : Column) : SchemaDiagram.Column where
  name := c.name
  aliasName := c.settings.aliasName
  columnType := canonicalType c.type
  typeParams := c.params
  pk := c.settings.pk
  fk := c.settings.fk
  unique := c.settings.unique
  notNull := c.settings.notNull
  increment := c.settings.increment
  default := c.settings.default.map Default.value
  note := c.settings.note
  comments := c.comments

/-- The model of an index. -/
def Index.toModel (i : Index) : SchemaDiagram.Index where
  columns := i.columns
  unique := i.unique
  pk := i.pk
  name := i.name

/-- The model of a table, without the areas that it belongs to. -/
def Table.toModel (t : Table) : SchemaDiagram.Table where
  id := .ofName t.name
  name := t.name
  aliasName := t.aliasName
  columns := t.columns.map Column.toModel
  indexes := t.indexes.map Index.toModel
  color := t.color
  position := Point.ofCoordinates? t.posX t.posY
  note := t.note
  comments := t.comments

/-- The model of a reference. -/
def Reference.toModel (r : Reference) : SchemaDiagram.Reference :=
  { SchemaDiagram.Reference.between r.source.table r.source.column r.target.table r.target.column
      r.relationship with
    swapEdge := r.swapEdge
    note := r.note
    comments := r.comments }

/-- The model of an area, without its members. -/
def Area.toModel (a : Area) : SchemaDiagram.Area where
  id := .ofName a.name
  name := a.name
  color := a.color
  position := Point.ofCoordinates? a.posX a.posY
  width := a.width
  height := a.height
  labelHorizontal := a.labelHorizontal
  labelVertical := a.labelVertical
  databaseType := a.databaseType
  commonColumns := a.commonColumns.map Column.toModel
  note := a.note
  comments := a.comments

end Document

/-- A list with an element behind it, unless that is in it already. -/
def insertNew {α : Type} [BEq α] (x : α) (xs : List α) : List α :=
  if xs.contains x then xs else xs ++ [x]

/-- Records that a table is a member of an area. -/
def Table.joinArea (id : AreaId) (t : Table) : Table := { t with areaIds := insertNew id t.areaIds }

/-- Records a member of an area on both sides, if there is a table of that name. -/
def Area.addMember (member : String) : Area × List Table → Area × List Table
  | (area, tables) =>
    match tables.find? fun t => t.name == member with
    | none => (area, tables)
    | some table =>
      ({ area with tableIds := insertNew table.id area.tableIds },
        modifyFirst (fun t => t.name == member) (Table.joinArea area.id) tables)

namespace Diagram

/-- Adds an area of a document to a diagram. -/
def addArea (d : Diagram) (a : Document.Area) : Diagram :=
  let (area, tables) := a.tables.foldl (fun state member => Area.addMember member state)
    (a.toModel, d.tables)
  { d with tables, areas := d.areas ++ [area] }

/-- The diagram of a document before its areas are added. -/
def withoutAreas (document : Document) (defaults : DiagramDefaults) : Diagram :=
  let project := document.project?
  { id := defaults.id
    name := (project.map Document.Project.name).getD defaultName
    projectName := project.map Document.Project.name
    databaseType :=
      ((project.bind Document.Project.databaseType).or defaults.databaseType).getD
        defaultDatabaseType
    tables := document.tables.map Document.Table.toModel
    references := document.references.map Document.Reference.toModel
    note := project.bind Document.Project.note
    createdAt := defaults.timestamp
    updatedAt := defaults.timestamp }

/-- The diagram of a document. -/
def ofDocument (document : Document) (defaults : DiagramDefaults) : Diagram :=
  (document.areas.foldl addArea (withoutAreas document defaults)).markForeignKeys

end Diagram

end SchemaDiagram
