/-!
# Identifiers

Tables and areas are identified by their names, references by their endpoints. The four parts of a
reference's identifier are separated by a point, a dash and a point, which a backslash marks where
they belong to a part, so no two references share an identifier unless they share all four parts.
A diagram without an identifier of its own gets one from the time and some random bits.
-/

namespace SchemaDiagram

/-- The identifier of a table. -/
structure TableId where
  /-- The text of the identifier. -/
  text : String
  deriving DecidableEq, Repr, Inhabited

namespace TableId

/-- What the identifiers of tables start with. -/
def start : String := "table-"

/-- The identifier of the tables with a given name. -/
def ofName (name : String) : TableId := ⟨start ++ name⟩

/-- The name that an identifier was made from; the whole text if it was not made from a name. -/
def tableName (id : TableId) : String :=
  match start.toList.isPrefixOf? id.text.toList with
  | some name => String.ofList name
  | none => id.text

end TableId

/-- The identifier of an area. -/
structure AreaId where
  /-- The text of the identifier. -/
  text : String
  deriving DecidableEq, Repr, Inhabited

/-- The identifier of the areas with a given name. -/
def AreaId.ofName (name : String) : AreaId := ⟨"area-" ++ name⟩

/-- The identifier of a reference. -/
structure ReferenceId where
  /-- The text of the identifier. -/
  text : String
  deriving DecidableEq, Repr, Inhabited

namespace ReferenceId

/-- A part of an identifier: separators in it are marked by a backslash. -/
def escapePart : List Char → List Char
  | [] => []
  | c :: cs =>
    if c = '\\' ∨ c = '.' ∨ c = '-' then '\\' :: c :: escapePart cs else c :: escapePart cs

/-- The identifier of the references between two endpoints. -/
def ofEndpoints (fromTable fromColumn toTable toColumn : String) : ReferenceId :=
  ⟨String.ofList ('r' :: 'e' :: 'f' :: '-' ::
    (escapePart fromTable.toList ++ '.' :: (escapePart fromColumn.toList ++ '-' ::
      (escapePart toTable.toList ++ '.' :: escapePart toColumn.toList))))⟩

end ReferenceId

/-! ## Diagrams -/

/-- The digits of base 32 that are hard to mistake for one another. -/
def base32Digits : List Char := "0123456789abcdefghjkmnpqrstvwxyz".toList

/-- Some digits of base 32, the last ones of a number. -/
def base32 (n : Nat) : Nat → List Char
  | 0 => []
  | count + 1 => base32 (n / 32) count ++ [base32Digits.getD (n % 32) '0']

/-- A number with the last `bits` bits of another one put behind it. -/
def appendBits (n bits other : Nat) : Nat := (n <<< bits) + other % (1 <<< bits)

/-- A new identifier of a diagram: the form of a unique identifier of version 7, which starts with
the time in milliseconds, in 26 digits. Of the random bits 74 are used. -/
def freshDiagramId (milliseconds random : Nat) : String :=
  let version := appendBits (milliseconds % (1 <<< 48)) 4 7
  let variant := appendBits (appendBits version 12 (random >>> 62)) 2 2
  "diagram_" ++ String.ofList (base32 (appendBits variant 62 random) 26)

end SchemaDiagram
