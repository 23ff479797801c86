import SchemaDiagram.Document.Block

/-!
# Columns

A column is a name and a type, the text in parentheses behind the type if there is any, and a list
of settings. The text in parentheses is kept without being understood, in a spelling of its own: one
space between tokens and none around commas.
-/

namespace SchemaDiagram.Document.Parser

/-! ## Text in parentheses -/

/-- How many tokens stand before the parenthesis that closes a text with `depth` more parentheses
open, and whether that parenthesis follows them. A keyword that opens a construct breaks the text
off. -/
def rawLength (depth : Nat) : List CommentedToken → Nat × Bool
  | [] => (0, false)
  | t :: ts =>
    let k := t.token.kind
    if k = .mark .rightParen ∧ depth = 0 then (0, true)
    else if k.opensConstruct then (0, false)
    else
      let inner := if k = .mark .leftParen then depth + 1
        else if k = .mark .rightParen then depth - 1 else depth
      let (n, closed) := rawLength inner ts
      (n + 1, closed)

/-- The texts of the tokens behind a token of the given kind: a space stands between two tokens
neither of which is a comma. -/
def rawTextAfter (previous : TokenKind) : List Token → String
  | [] => ""
  | t :: ts =>
    let space := if t.kind ≠ .mark .comma ∧ previous ≠ .mark .comma then " " else ""
    space ++ t.text ++ rawTextAfter t.kind ts

/-- The text of a run of tokens. -/
def rawText : List Token → String
  | [] => ""
  | t :: ts => t.text ++ rawTextAfter t.kind ts

/-- Reads a text in parentheses. -/
def parenthesized : Parser String := do
  let _ ← expect (.mark .leftParen)
  let (n, closed) ← ahead (rawLength 0)
  let tokens ← ahead fun ts => (ts.take n).map (·.token)
  skip n
  if closed then do
    let _ ← any
    return rawText tokens
  else unexpected "')'"

/-- Reads a text in parentheses if there is one. -/
def parenthesized? : Parser (Option String) := do
  if ← at? (.mark .leftParen) then do
    let text ← parenthesized
    return some text
  else return none

/-! ## Settings -/

/-- How a default is written that starts with a token of the given kind. -/
def defaultForm? : TokenKind → Option DefaultForm
  | .string .backtick => some .expression
  | .string _ => some .string
  | .number | .keyword .null | .identifier => some .literal
  | _ => none

/-- Reads a colon and a default. A word with a text in parentheses behind it is a call. -/
def settingDefault : Parser Default := do
  let _ ← expect (.mark .colon)
  let t ← take (fun t => (defaultForm? t.kind).isSome) "default value"
  let isCall ← at? (.mark .leftParen)
  if t.kind = .identifier ∧ isCall then do
    let arguments ← parenthesized
    return ⟨s!"{t.text}({arguments})", .expression⟩
  else return ⟨t.value, (defaultForm? t.kind).getD .literal⟩

/-- Whether the word `key` is next. -/
def keyAhead : Parser Bool := ahead fun ts => ts.head?.any fun t => t.token.isWord "key"

/-- Reads what follows a key of a column's settings. -/
def columnSetting (s : ColumnSettings) (key : SettingKey) : Parser (Option ColumnSettings) :=
  match key.form with
  | "pk" => return some { s with pk := true }
  | "primary" => do
    if ← keyAhead then do
      let _ ← any
      return some { s with pk := true }
    else return none
  | "fk" => return some { s with fk := true }
  | "unique" => return some { s with unique := true }
  | "not" => do
    let _ ← expect (.keyword .null)
    return some { s with notNull := true }
  | "null" => return some { s with notNull := false }
  | "increment" | "autoincrement" => return some { s with increment := true }
  | "default" => do
    let value ← settingDefault
    return some { s with default := some value }
  | "alias" => do
    let text ← settingText
    return some { s with aliasName := some text }
  | "note" => do
    let text ← settingString
    return some { s with note := some text }
  | _ => return none

/-! ## Columns -/

/-- Reads a column. -/
def column : Parser Column := do
  let columnName ← name "column name"
  let type ← name "column type"
  let params ← parenthesized?
  let settings ← settings? columnSetting .none
  let last ← lastSpan
  return ⟨columnName.value, type.value, params, settings, columnName.span.through last, []⟩

/-- A column takes its name. -/
theorem consumes_column : column.Consumes := (consumes_take _ _).bind _

/-- Reads a column and files the comments before it. -/
def commentedColumn : Parser Column := do
  let (column, comments) ← takingComments column
  return { column with comments }

/-- A column with its comments takes its name. -/
theorem consumes_commentedColumn : commentedColumn.Consumes := consumes_column.takingComments.bind _

end SchemaDiagram.Document.Parser
