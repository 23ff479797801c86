import SchemaDiagram.Number.Decimal

/-!
# TOML values

A document is a table, and a table holds a value for each of its keys. Tables that are written with
headers, with dotted keys or between braces are all the same here, and so are arrays of tables and
other arrays.
-/

namespace SchemaDiagram.Toml

/-- A value. -/
inductive Value where
  | string (s : String)
  | integer (n : Int)
  | number (x : Number)
  | bool (b : Bool)
  /-- A date, a time of day, or both, as it is written. -/
  | dateTime (text : String)
  | array (values : List Value)
  /-- A table; no key stands in it twice. -/
  | table (fields : List (String × Value))
  deriving Repr, Inhabited

end SchemaDiagram.Toml
