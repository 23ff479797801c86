import SchemaDiagram.Json.Basic

/-!
# Records in JSON

A record is an object with a field for each part, or the array of the parts in order. Fields that
the record does not know are passed over. A required part has to be there; an optional one may be
left out or be `null`; one with a default may be left out but not be `null`.
-/

namespace SchemaDiagram.Json

/-! ## Single values -/

/-- A truth value. -/
def toBool? : Json → Option Bool
  | bool b => some b
  | _ => none

/-- A text. -/
def toString? : Json → Option String
  | string s => some s
  | _ => none

/-- A number, whether it is written as a count or not. -/
def toNumber? : Json → Option Number
  | count n => some (.ofDecimal false ⟨n, 0⟩)
  | number x => some x
  | _ => none

/-- A list. -/
def toList? {α : Type} (decode : Json → Option α) : Json → Option (List α)
  | array items => items.mapM decode
  | _ => none

/-- A word, which may also stand as the only field of an object with the value `null`. -/
def toWord? : Json → Option String
  | string s => some s
  | object [(word, null)] => some word
  | _ => none

/-! ## Parts of a record -/

/-- The parts of a record with the given names. -/
def parts? (names : List String) : Json → Option (List (String × Json))
  | object fields => some fields
  | array items => if items.length ≤ names.length then some (names.zip items) else none
  | _ => none

/-- A part that has to be there. -/
def required {α : Type} (decode : Json → Option α) (name : String) (parts : List (String × Json)) :
    Option α :=
  (parts.lookup name).bind decode

/-- A part that may be left out or be `null`. -/
def optional {α : Type} (decode : Json → Option α) (name : String) (parts : List (String × Json)) :
    Option (Option α) :=
  match parts.lookup name with
  | none | some null => some none
  | some value => (decode value).map some

/-- A part that may be left out for a default. -/
def withDefault {α : Type} (default : α) (decode : Json → Option α) (name : String)
    (parts : List (String × Json)) : Option α :=
  match parts.lookup name with
  | none => some default
  | some value => decode value

/-! ## Writing a record -/

/-- A number as a JSON value; a number that is not finite has none and is `null`. -/
def ofNumber (x : Number) : Json := if x.isFinite then number x else null

/-- A field that is always written. -/
def field {α : Type} (name : String) (encode : α → Json) (value : α) : List (String × Json) :=
  [(name, encode value)]

/-- A field that is written if there is a value. -/
def fieldIfSome {α : Type} (name : String) (encode : α → Json) : Option α → List (String × Json)
  | some value => [(name, encode value)]
  | none => []

/-- A field that is written if the list is not empty. -/
def fieldIfNonempty {α : Type} (name : String) (encode : α → Json) (values : List α) :
    List (String × Json) :=
  if values.isEmpty then [] else [(name, array (values.map encode))]

/-- A list of values. -/
def ofList {α : Type} (encode : α → Json) (values : List α) : Json := array (values.map encode)

end SchemaDiagram.Json
