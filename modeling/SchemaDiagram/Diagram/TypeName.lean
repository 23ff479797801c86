import SchemaDiagram.Text.Letters

/-!
# Names of column types

Common type names have one canonical spelling, in small letters. Any other name is kept as it is,
since it may belong to the database at hand.
-/

namespace SchemaDiagram

/-- The canonical type names, each with its spellings in small letters. -/
def canonicalTypes : List (String × List String) :=
  [("integer", ["int", "int4", "integer"]),
    ("smallint", ["int2", "smallint"]),
    ("bigint", ["int8", "bigint"]),
    ("boolean", ["bool", "boolean"]),
    ("real", ["float4", "real"]),
    ("double", ["float8", "double"]),
    ("decimal", ["dec", "decimal"])] ++
  ["numeric", "float", "serial", "bigserial", "smallserial", "varchar", "char", "text", "uuid",
    "date", "time", "timestamp", "timestamptz", "json", "jsonb", "bytea", "blob"].map
    fun name => (name, [name])

/-- The canonical spelling of a type name, in whatever case it was written. -/
def canonicalType (name : String) : String :=
  match canonicalTypes.find? fun entry => entry.2.contains (Text.lower name) with
  | some entry => entry.1
  | none => name

end SchemaDiagram
