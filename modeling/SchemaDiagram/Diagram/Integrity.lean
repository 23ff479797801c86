import SchemaDiagram.Diagram.Basic
import SchemaDiagram.Json.Basic

/-!
# Integrity of a diagram

What a diagram should not have: two tables, areas or references with one identifier, and references
to tables or columns that are not there. The issues come in the order of the tables, the areas and
the references; those of a reference are its repetition, its source and its target.
-/

namespace SchemaDiagram

/-- An integrity issue. -/
inductive IntegrityIssue where
  /-- A table with the identifier of an earlier one. -/
  | duplicateTable (id : TableId)
  /-- An area with the identifier of an earlier one. -/
  | duplicateArea (id : AreaId)
  /-- A reference with the identifier of an earlier one. -/
  | duplicateReference (id : ReferenceId)
  /-- An endpoint at a table that is not there. -/
  | unknownTable (reference : ReferenceId) (table : TableId)
  /-- An endpoint at a column that its table does not have. -/
  | unknownColumn (reference : ReferenceId) (table : TableId) (column : String)
  deriving DecidableEq, Repr

namespace IntegrityIssue

/-- The message of an issue. -/
def message : IntegrityIssue → String
  | duplicateTable id => s!"duplicate table '{id.text}'"
  | duplicateArea id => s!"duplicate area '{id.text}'"
  | duplicateReference id => s!"duplicate reference '{id.text}'"
  | unknownTable reference table =>
    s!"reference '{reference.text}' points at unknown table '{table.text}'"
  | unknownColumn reference table column =>
    s!"reference '{reference.text}' points at unknown column '{column}' of '{table.text}'"

/-- The JSON form of an issue, its fields sorted by name. -/
def toJson : IntegrityIssue → Json
  | duplicateTable id => .object [("id", .string id.text), ("kind", .string "duplicate_table")]
  | duplicateArea id => .object [("id", .string id.text), ("kind", .string "duplicate_area")]
  | duplicateReference id =>
    .object [("id", .string id.text), ("kind", .string "duplicate_reference")]
  | unknownTable reference table =>
    .object [("kind", .string "unknown_table"), ("reference", .string reference.text),
      ("table", .string table.text)]
  | unknownColumn reference table column =>
    .object [("column", .string column), ("kind", .string "unknown_column"),
      ("reference", .string reference.text), ("table", .string table.text)]

end IntegrityIssue

/-- The elements of a list that stand behind an equal one. The first argument holds the elements
before the list. -/
def repeatsAfter {α : Type} [BEq α] (seen : List α) : List α → List α
  | [] => []
  | x :: xs => if seen.contains x then x :: repeatsAfter seen xs else repeatsAfter (x :: seen) xs

namespace Diagram

/-- The issue with an endpoint of a reference, if there is one. -/
def endpointIssue? (d : Diagram) (reference : ReferenceId) (table : TableId) (column : String) :
    Option IntegrityIssue :=
  match d.tableById? table with
  | none => some (.unknownTable reference table)
  | some t =>
    match t.column? column with
    | none => some (.unknownColumn reference table column)
    | some _ => none

/-- The issues with the endpoints of a reference. -/
def endpointIssues (d : Diagram) (r : Reference) : List IntegrityIssue :=
  (d.endpointIssue? r.id r.fromTable r.fromColumn).toList ++
    (d.endpointIssue? r.id r.toTable r.toColumn).toList

/-- The issues with references. The first argument holds the identifiers before the list. -/
def referenceIssues (d : Diagram) (seen : List ReferenceId) : List Reference → List IntegrityIssue
  | [] => []
  | r :: rs =>
    (if seen.contains r.id then [.duplicateReference r.id] else []) ++ d.endpointIssues r ++
      d.referenceIssues (r.id :: seen) rs

/-- Every integrity issue of a diagram. -/
def integrityIssues (d : Diagram) : List IntegrityIssue :=
  (repeatsAfter [] (d.tables.map Table.id)).map .duplicateTable ++
    (repeatsAfter [] (d.areas.map Area.id)).map .duplicateArea ++
    d.referenceIssues [] d.references

end Diagram

end SchemaDiagram
