/-!
# Letter case

Keywords, type names and most words of a document ignore the case of the ASCII letters.
-/

namespace SchemaDiagram.Text

/-- The text with ASCII capitals made small; every other character stays. -/
def lower (s : String) : String := String.ofList (s.toList.map Char.toLower)

/-- Two texts are spelled alike if they differ in the case of ASCII letters only. -/
def spelledAlike (s t : String) : Bool := s.toList.map Char.toLower == t.toList.map Char.toLower

/-- A hexadecimal digit in either case. -/
def isHexDigit (c : Char) : Bool :=
  c.isDigit || ('a' ≤ c && c ≤ 'f') || ('A' ≤ c && c ≤ 'F')

end SchemaDiagram.Text
