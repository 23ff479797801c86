import SchemaDiagram.Diagram.Basic
import SchemaDiagram.Json.Record

/-!
# Diagrams in JSON

The fields of every record have a fixed order. Parts that are empty are left out, except for the
lists that make up a diagram or an area. A coordinate that is not finite is `null`, which reads as
no coordinate.
-/

namespace SchemaDiagram

open Json (field fieldIfSome fieldIfNonempty ofList parts? required optional withDefault)

namespace Point

/-- The JSON form of a point. -/
def toJson (p : Point) : Json := .object [("x", Json.ofNumber p.x), ("y", Json.ofNumber p.y)]

/-- The point of a JSON value. -/
def ofJson? (j : Json) : Option Point := do
  let parts ← parts? ["x", "y"] j
  return ⟨← required Json.toNumber? "x" parts, ← required Json.toNumber? "y" parts⟩

end Point

/-- The color of a JSON value. -/
def Color.ofJson? (j : Json) : Option Color := j.toString?.bind Color.ofString?

/-- The horizontal place of a JSON value. -/
def HorizontalLabel.ofJson? (j : Json) : Option HorizontalLabel := j.toWord?.bind ofWord?

/-- The vertical place of a JSON value. -/
def VerticalLabel.ofJson? (j : Json) : Option VerticalLabel := j.toWord?.bind ofWord?

/-- The relationship of a JSON value. -/
def Relationship.ofJson? (j : Json) : Option Relationship := j.toWord?.bind ofWords?

namespace Column

/-- The parts of a column in order. -/
def partNames : List String :=
  ["name", "alias", "column_type", "type_params", "pk", "fk", "unique", "not_null", "increment",
    "default", "note", "comments"]

/-- The JSON form of a column. -/
def toJson (c : Column) : Json :=
  .object (field "name" .string c.name ++ fieldIfSome "alias" .string c.aliasName ++
    field "column_type" .string c.columnType ++ fieldIfSome "type_params" .string c.typeParams ++
    field "pk" .bool c.pk ++ field "fk" .bool c.fk ++ field "unique" .bool c.unique ++
    field "not_null" .bool c.notNull ++ field "increment" .bool c.increment ++
    fieldIfSome "default" .string c.default ++ fieldIfSome "note" .string c.note ++
    fieldIfNonempty "comments" .string c.comments)

/-- The column of a JSON value. -/
def ofJson? (j : Json) : Option Column := do
  let parts ← parts? partNames j
  return {
    name := ← required Json.toString? "name" parts
    aliasName := ← optional Json.toString? "alias" parts
    columnType := ← required Json.toString? "column_type" parts
    typeParams := ← optional Json.toString? "type_params" parts
    pk := ← withDefault false Json.toBool? "pk" parts
    fk := ← withDefault false Json.toBool? "fk" parts
    unique := ← withDefault false Json.toBool? "unique" parts
    notNull := ← withDefault false Json.toBool? "not_null" parts
    increment := ← withDefault false Json.toBool? "increment" parts
    default := ← optional Json.toString? "default" parts
    note := ← optional Json.toString? "note" parts
    comments := ← withDefault [] (Json.toList? Json.toString?) "comments" parts }

end Column

namespace Index

/-- The JSON form of an index. -/
def toJson (i : Index) : Json :=
  .object (field "columns" (ofList .string) i.columns ++ field "unique" .bool i.unique ++
    field "pk" .bool i.pk ++ fieldIfSome "name" .string i.name)

/-- The index of a JSON value. -/
def ofJson? (j : Json) : Option Index := do
  let parts ← parts? ["columns", "unique", "pk", "name"] j
  return {
    columns := ← required (Json.toList? Json.toString?) "columns" parts
    unique := ← withDefault false Json.toBool? "unique" parts
    pk := ← withDefault false Json.toBool? "pk" parts
    name := ← optional Json.toString? "name" parts }

end Index

/-- The JSON form of a table's identifier. -/
def TableId.toJson (id : TableId) : Json := .string id.text

/-- The table's identifier of a JSON value. -/
def TableId.ofJson? (j : Json) : Option TableId := j.toString?.map TableId.mk

/-- The JSON form of an area's identifier. -/
def AreaId.toJson (id : AreaId) : Json := .string id.text

/-- The area's identifier of a JSON value. -/
def AreaId.ofJson? (j : Json) : Option AreaId := j.toString?.map AreaId.mk

/-- The JSON form of a reference's identifier. -/
def ReferenceId.toJson (id : ReferenceId) : Json := .string id.text

/-- The reference's identifier of a JSON value. -/
def ReferenceId.ofJson? (j : Json) : Option ReferenceId := j.toString?.map ReferenceId.mk

namespace Table

/-- The parts of a table in order. -/
def partNames : List String :=
  ["id", "name", "alias", "columns", "indexes", "color", "position", "area_ids", "note", "comments"]

/-- The JSON form of a table. -/
def toJson (t : Table) : Json :=
  .object (field "id" TableId.toJson t.id ++ field "name" .string t.name ++
    fieldIfSome "alias" .string t.aliasName ++ field "columns" (ofList Column.toJson) t.columns ++
    fieldIfNonempty "indexes" Index.toJson t.indexes ++
    fieldIfSome "color" (fun c => .string c.text) t.color ++
    fieldIfSome "position" Point.toJson t.position ++
    fieldIfNonempty "area_ids" AreaId.toJson t.areaIds ++ fieldIfSome "note" .string t.note ++
    fieldIfNonempty "comments" .string t.comments)

/-- The table of a JSON value. -/
def ofJson? (j : Json) : Option Table := do
  let parts ← parts? partNames j
  return {
    id := ← required TableId.ofJson? "id" parts
    name := ← required Json.toString? "name" parts
    aliasName := ← optional Json.toString? "alias" parts
    columns := ← required (Json.toList? Column.ofJson?) "columns" parts
    indexes := ← withDefault [] (Json.toList? Index.ofJson?) "indexes" parts
    color := ← optional Color.ofJson? "color" parts
    position := ← optional Point.ofJson? "position" parts
    areaIds := ← withDefault [] (Json.toList? AreaId.ofJson?) "area_ids" parts
    note := ← optional Json.toString? "note" parts
    comments := ← withDefault [] (Json.toList? Json.toString?) "comments" parts }

end Table

namespace Reference

/-- The parts of a reference in order. -/
def partNames : List String :=
  ["id", "from_table", "from_column", "to_table", "to_column", "kind", "swap_edge", "note",
    "comments"]

/-- The JSON form of a reference. -/
def toJson (r : Reference) : Json :=
  .object (field "id" ReferenceId.toJson r.id ++ field "from_table" TableId.toJson r.fromTable ++
    field "from_column" .string r.fromColumn ++ field "to_table" TableId.toJson r.toTable ++
    field "to_column" .string r.toColumn ++ field "kind" (fun k => .string k.words) r.kind ++
    fieldIfSome "swap_edge" .bool r.swapEdge ++ fieldIfSome "note" .string r.note ++
    fieldIfNonempty "comments" .string r.comments)

/-- The reference of a JSON value. -/
def ofJson? (j : Json) : Option Reference := do
  let parts ← parts? partNames j
  return {
    id := ← required ReferenceId.ofJson? "id" parts
    fromTable := ← required TableId.ofJson? "from_table" parts
    fromColumn := ← required Json.toString? "from_column" parts
    toTable := ← required TableId.ofJson? "to_table" parts
    toColumn := ← required Json.toString? "to_column" parts
    kind := ← required Relationship.ofJson? "kind" parts
    swapEdge := ← optional Json.toBool? "swap_edge" parts
    note := ← optional Json.toString? "note" parts
    comments := ← withDefault [] (Json.toList? Json.toString?) "comments" parts }

end Reference

namespace Area

/-- The parts of an area in order. -/
def partNames : List String :=
  ["id", "name", "table_ids", "color", "position", "width", "height", "label_horizontal",
    "label_vertical", "database_type", "common_columns", "note", "comments"]

/-- The JSON form of an area. -/
def toJson (a : Area) : Json :=
  .object (field "id" AreaId.toJson a.id ++ field "name" .string a.name ++
    field "table_ids" (ofList TableId.toJson) a.tableIds ++
    fieldIfSome "color" (fun c => .string c.text) a.color ++
    fieldIfSome "position" Point.toJson a.position ++ fieldIfSome "width" Json.ofNumber a.width ++
    fieldIfSome "height" Json.ofNumber a.height ++
    fieldIfSome "label_horizontal" (fun l => .string l.word) a.labelHorizontal ++
    fieldIfSome "label_vertical" (fun l => .string l.word) a.labelVertical ++
    fieldIfSome "database_type" .string a.databaseType ++
    fieldIfNonempty "common_columns" Column.toJson a.commonColumns ++
    fieldIfSome "note" .string a.note ++ fieldIfNonempty "comments" .string a.comments)

/-- The area of a JSON value. -/
def ofJson? (j : Json) : Option Area := do
  let parts ← parts? partNames j
  return {
    id := ← required AreaId.ofJson? "id" parts
    name := ← required Json.toString? "name" parts
    tableIds := ← required (Json.toList? TableId.ofJson?) "table_ids" parts
    color := ← optional Color.ofJson? "color" parts
    position := ← optional Point.ofJson? "position" parts
    width := ← optional Json.toNumber? "width" parts
    height := ← optional Json.toNumber? "height" parts
    labelHorizontal := ← optional HorizontalLabel.ofJson? "label_horizontal" parts
    labelVertical := ← optional VerticalLabel.ofJson? "label_vertical" parts
    databaseType := ← optional Json.toString? "database_type" parts
    commonColumns := ← withDefault [] (Json.toList? Column.ofJson?) "common_columns" parts
    note := ← optional Json.toString? "note" parts
    comments := ← withDefault [] (Json.toList? Json.toString?) "comments" parts }

end Area

/-- The timestamp of a JSON value. -/
def Timestamp.ofJson? (j : Json) : Option Timestamp := j.toString?.bind Timestamp.ofString?

namespace Diagram

/-- The parts of a diagram in order. -/
def partNames : List String :=
  ["id", "name", "project_name", "database_type", "tables", "references", "areas", "note",
    "created_at", "updated_at"]

/-- The JSON form of a diagram. -/
def toJson (d : Diagram) : Json :=
  .object (field "id" .string d.id ++ field "name" .string d.name ++
    fieldIfSome "project_name" .string d.projectName ++
    field "database_type" .string d.databaseType ++ field "tables" (ofList Table.toJson) d.tables ++
    field "references" (ofList Reference.toJson) d.references ++
    field "areas" (ofList Area.toJson) d.areas ++ fieldIfSome "note" .string d.note ++
    field "created_at" (fun t => .string t.text) d.createdAt ++
    field "updated_at" (fun t => .string t.text) d.updatedAt)

/-- The diagram of a JSON value. -/
def ofJson? (j : Json) : Option Diagram := do
  let parts ← parts? partNames j
  return {
    id := ← required Json.toString? "id" parts
    name := ← required Json.toString? "name" parts
    projectName := ← optional Json.toString? "project_name" parts
    databaseType := ← required Json.toString? "database_type" parts
    tables := ← required (Json.toList? Table.ofJson?) "tables" parts
    references := ← withDefault [] (Json.toList? Reference.ofJson?) "references" parts
    areas := ← withDefault [] (Json.toList? Area.ofJson?) "areas" parts
    note := ← optional Json.toString? "note" parts
    createdAt := ← required Timestamp.ofJson? "created_at" parts
    updatedAt := ← required Timestamp.ofJson? "updated_at" parts }

end Diagram

end SchemaDiagram
