import SchemaDiagram.Number.Format

/-!
# JSON values

The fields of an object have an order, which is the order in which they are written. Whole counts
are kept apart from floating-point numbers, since the two are written differently.
-/

namespace SchemaDiagram

/-- A JSON value. -/
inductive Json where
  | null
  | bool (b : Bool)
  /-- A count. -/
  | count (n : Nat)
  /-- A floating-point number. -/
  | number (x : Number)
  | string (s : String)
  | array (items : List Json)
  /-- An object, its fields in order. -/
  | object (fields : List (String × Json))
  deriving Repr, Inhabited

namespace Json

/-- The value of the first field with a given name. -/
def field? (name : String) : Json → Option Json
  | object fields => fields.lookup name
  | _ => none

/-- The text of an optional text, or `null`. -/
def ofString? : Option String → Json
  | some s => string s
  | none => null

/-! ## Writing -/

/-- The two hexadecimal digits of a control character. -/
def controlDigits (c : Char) : List Char :=
  [(c.toNat / 16).digitChar, (c.toNat % 16).digitChar]

/-- A character of a JSON string: quotes, backslashes and control characters are escaped. -/
def escapeChar (c : Char) : List Char :=
  if c = '"' then ['\\', '"']
  else if c = '\\' then ['\\', '\\']
  else if c = '\n' then ['\\', 'n']
  else if c = '\r' then ['\\', 'r']
  else if c = '\t' then ['\\', 't']
  else if c = '\x08' then ['\\', 'b']
  else if c = '\x0c' then ['\\', 'f']
  else if c < ' ' then '\\' :: 'u' :: '0' :: '0' :: controlDigits c
  else [c]

/-- A JSON string. -/
def quote (s : String) : String :=
  String.ofList ('"' :: (s.toList.flatMap escapeChar ++ ['"']))

/-- The text of a floating-point number; JSON has none for the ones that are not finite. -/
def numberText (x : Number) : String := if x.isFinite then NumberLayout.json.text x else "null"

mutual

/-- A value without any space. -/
def compact : Json → String
  | null => "null"
  | bool b => if b then "true" else "false"
  | count n => toString n
  | number x => numberText x
  | string s => quote s
  | array items => "[" ++ ",".intercalate (compactItems items) ++ "]"
  | object fields => "\x7b" ++ ",".intercalate (compactFields fields) ++ "\x7d"

/-- The items of an array, one text each. -/
def compactItems : List Json → List String
  | [] => []
  | item :: items => compact item :: compactItems items

/-- The fields of an object, one text each. -/
def compactFields : List (String × Json) → List String
  | [] => []
  | (name, value) :: fields => (quote name ++ ":" ++ compact value) :: compactFields fields

end

/-- What stands in front of a line at a depth of nesting. -/
def indentation (depth : Nat) : String := "".pushn ' ' (2 * depth)

/-- Lines with commas between them, inside brackets that stand on lines of their own. -/
def bracketed (opening closing : String) (depth : Nat) (items : List String) : String :=
  if items.isEmpty then opening ++ closing
  else
    opening ++ "\n" ++ ",\n".intercalate (items.map fun item => indentation (depth + 1) ++ item) ++
      "\n" ++ indentation depth ++ closing

mutual

/-- A value with every item and field on a line of its own, at a depth of nesting. -/
def prettyAt (depth : Nat) : Json → String
  | array items => bracketed "[" "]" depth (prettyItems (depth + 1) items)
  | object fields => bracketed "\x7b" "\x7d" depth (prettyFields (depth + 1) fields)
  | null => "null"
  | bool b => if b then "true" else "false"
  | count n => toString n
  | number x => numberText x
  | string s => quote s

/-- The items of an array at a depth of nesting. -/
def prettyItems (depth : Nat) : List Json → List String
  | [] => []
  | item :: items => prettyAt depth item :: prettyItems depth items

/-- The fields of an object at a depth of nesting. -/
def prettyFields (depth : Nat) : List (String × Json) → List String
  | [] => []
  | (name, value) :: fields =>
    (quote name ++ ": " ++ prettyAt depth value) :: prettyFields depth fields

end

/-- A value with every item and field on a line of its own. -/
def pretty (value : Json) : String := prettyAt 0 value

end Json

end SchemaDiagram
