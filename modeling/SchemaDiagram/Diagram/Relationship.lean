import SchemaDiagram.Diagram.Appearance

/-!
# Relationships

How many rows stand on each side of a reference. A document writes a relationship as a symbol; a
diagram file writes it as words.
-/

namespace SchemaDiagram

/-- The cardinality of a reference. -/
inductive Relationship where
  | manyToOne | oneToMany | oneToOne | manyToMany
  /-- The document does not say. -/
  | inferred
  deriving DecidableEq, Repr

namespace Relationship

/-- Every relationship. -/
def all : List Relationship := [manyToOne, oneToMany, oneToOne, manyToMany, inferred]

/-- The symbol of a relationship in markup. -/
def symbol : Relationship → String
  | manyToOne => ">"
  | oneToMany => "<"
  | oneToOne => "-"
  | manyToMany => "<>"
  | inferred => "~"

/-- The words for a relationship. -/
def words : Relationship → String
  | manyToOne => "many-to-one"
  | oneToMany => "one-to-many"
  | oneToOne => "one-to-one"
  | manyToMany => "many-to-many"
  | inferred => "inferred"

/-- Reads the symbol of a relationship. -/
def ofSymbol (text : String) : Except ValueError Relationship :=
  match all.find? fun r => r.symbol == text with
  | some r => .ok r
  | none => .error (.invalidRelationshipSymbol text)

/-- The relationship with the given words. -/
def ofWords? (text : String) : Option Relationship := all.find? fun r => r.words == text

end Relationship

end SchemaDiagram
