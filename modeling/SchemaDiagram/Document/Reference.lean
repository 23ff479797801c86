import SchemaDiagram.Document.Block

/-!
# References

A reference joins two endpoints, each a table's name and a column's name with a point between them,
by the symbol of a relationship. A name, a colon and braces around it all may be left out.
-/

namespace SchemaDiagram.Document.Parser

/-- Reads an endpoint. -/
def endpoint : Parser Endpoint := do
  let table ← name "table name"
  let _ ← expect (.mark .dot)
  let column ← name "column name"
  return ⟨table.value, column.value, table.span.through column.span⟩

/-- The relationship of a symbol. -/
def relationshipOf? : TokenKind → Option Relationship
  | .mark .greater => some .manyToOne
  | .mark .less => some .oneToMany
  | .mark .minus => some .oneToOne
  | .mark .lessGreater => some .manyToMany
  | .mark .tilde => some .inferred
  | _ => none

/-- Reads the symbol of a relationship. -/
def relationship : Parser Relationship := do
  let t ← take (fun t => (relationshipOf? t.kind).isSome)
    "relationship operator ('>', '<', '-', '<>' or '~')"
  return (relationshipOf? t.kind).getD .inferred

/-- Reads what follows a key of a reference's settings. -/
def referenceSetting (r : Reference) (key : SettingKey) : Parser (Option Reference) :=
  match key.form with
  | "swapedge" => do
    let swap ← settingFlag key
    return some { r with swapEdge := swap.or r.swapEdge }
  | "note" => do
    let text ← settingString
    return some { r with note := some text }
  | _ => return none

/-- Reads the name of a reference, which is a name in front of a colon or a brace. -/
def referenceName? : Parser (Option String) := do
  let first ← kind?
  let second ← secondKind?
  if first.any TokenKind.isName ∧ isColonOrBrace second = true then do
    let t ← name "reference name"
    return some t.value
  else return none

/-- Reads a reference whose keyword stands at `start`. -/
def reference (start : Span) : Parser Reference := do
  let referenceName ← referenceName?
  let _ ← accept (.mark .colon)
  let isBraced ← accept (.mark .leftBrace)
  let source ← endpoint
  let relationship ← relationship
  let target ← endpoint
  let r ← settings? referenceSetting
    ⟨referenceName, source, target, relationship, none, none, start, []⟩
  if isBraced then do
    let _ ← expect (.mark .rightBrace)
    let last ← lastSpan
    return { r with span := start.through last }
  else do
    let last ← lastSpan
    return { r with span := start.through last }

end SchemaDiagram.Document.Parser
