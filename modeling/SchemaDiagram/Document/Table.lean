import SchemaDiagram.Document.Column

/-!
# Tables

A table has a name, possibly another name behind the word `as`, a list of settings, and a block of
columns, indexes and notes in any order.
-/

namespace SchemaDiagram.Document.Parser

/-! ## Indexes -/

/-- Whether a token can be a column of an index: a name, or an expression in backticks. -/
def isIndexColumn (k : TokenKind) : Bool := k.isName || k == .string .backtick

/-- Reads a column of an index. -/
def indexColumn : Parser String := do
  let t ← take (fun t => isIndexColumn t.kind) "index column"
  return t.value

/-- Reads a column of an index and the comma behind it, if there is one. -/
def indexColumnsStep (columns : List String) : Parser (List String ⊕ List String) := do
  let column ← indexColumn
  if ← accept (.mark .comma) then return .inl (columns ++ [column])
  else return .inr (columns ++ [column])

/-- A round of reading index columns takes a token. -/
theorem consumes_indexColumnsStep (columns : List String) :
    (indexColumnsStep columns).Consumes :=
  ((consumes_take _ _).bind _).bind _

/-- Reads the columns of an index: one, or several in parentheses. -/
def indexColumns : Parser (List String) := do
  if ← accept (.mark .leftParen) then do
    let columns ← iterate indexColumnsStep consumes_indexColumnsStep []
    let _ ← expect (.mark .rightParen)
    return columns
  else do
    let column ← indexColumn
    return [column]

/-- Reads what follows a key of an index's settings. -/
def indexSetting (i : Index) (key : SettingKey) : Parser (Option Index) :=
  match key.form with
  | "unique" => return some { i with unique := true }
  | "pk" => return some { i with pk := true }
  | "name" => do
    let text ← settingText
    return some { i with name := some text }
  | _ => return none

/-- Reads an index that starts with the token at `start`. -/
def index (start : Span) : Parser Index := do
  let columns ← indexColumns
  let i ← settings? indexSetting ⟨columns, false, false, none, start⟩
  let last ← lastSpan
  return { i with span := start.through last }

/-- The columns of an index take a token. -/
theorem consumes_indexColumns : indexColumns.Consumes := by
  intro c a d h
  unfold indexColumns at h
  rw [run_bind] at h
  simp only [accept] at h
  by_cases hk : c.kind? = some (.mark .leftParen)
  · simp only [if_pos hk, if_true] at h
    have hlt : c.advance.rest.length < c.rest.length := by
      refine Cursor.length_advance_lt ?_
      rintro he
      simp [Cursor.kind?, he] at hk
    have hle := Parser.reaches
      (do let columns ← iterate indexColumnsStep consumes_indexColumnsStep []
          let _ ← expect (.mark .rightParen)
          return columns) c.advance |>.length_le
    rw [h] at hle
    simp only [Outcome.cursor] at hle
    omega
  · simp only [if_neg hk, Bool.false_eq_true, if_false] at h
    exact ((consumes_take _ _).bind _).bind _ c a d h

/-- An index takes a token: the columns come first. -/
theorem consumes_index (start : Span) : (index start).Consumes := consumes_indexColumns.bind _

/-- Reads an entry of an `indexes` block. -/
def indexesEntry (indexes : List Index) (k : TokenKind) : Parser (List Index) := do
  if k = .mark .leftParen ∨ isIndexColumn k = true then do
    let start ← nextSpan
    let i ← index start
    return indexes ++ [i]
  else ignore indexes

/-- An entry of a block of indexes takes a token. -/
theorem consumes_indexesEntry (indexes : List Index) (k : TokenKind) :
    (indexesEntry indexes k).Consumes := by
  unfold indexesEntry
  split
  · exact consumes_bind_of_forall fun _ => (consumes_index _).bind _
  · exact consumes_ignore _

/-- Reads a block of indexes. -/
def indexes : Parser (List Index) := do
  let keyword ← expect (.keyword .indexes)
  let brace ← expect (.mark .leftBrace)
  block "indexes" "indexes" (keyword.span.through brace.span) indexesEntry consumes_indexesEntry []

/-- A block of indexes takes its keyword. -/
theorem consumes_indexes : indexes.Consumes := (consumes_expect _).bind _

/-! ## Tables -/

/-- Reads what follows a key of a table's settings. -/
def tableSetting (t : Table) (key : SettingKey) : Parser (Option Table) :=
  match key.form with
  | "alias" => do
    let text ← settingText
    return some { t with aliasName := some text }
  | "posx" => do
    let x ← settingNumber key
    return some { t with posX := x.or t.posX }
  | "posy" => do
    let y ← settingNumber key
    return some { t with posY := y.or t.posY }
  | "color" | "headercolor" => do
    let color ← settingColor key
    return some { t with color := color.or t.color }
  | "note" => do
    let text ← settingString
    return some { t with note := some text }
  | _ => return none

/-- Reads an entry of a table's block: a note, a block of indexes or a column. -/
def tableEntry (t : Table) (k : TokenKind) : Parser Table := do
  let second ← secondKind?
  if k = .keyword .note ∧ isColonOrBrace second = true then do
    let text ← note
    return { t with note := some text }
  else if k = .keyword .indexes ∧ second = some (.mark .leftBrace) then do
    let more ← indexes
    return { t with indexes := t.indexes ++ more }
  else if k.isName then do
    let column ← commentedColumn
    return { t with columns := t.columns ++ [column] }
  else ignore t

/-- An entry of a table takes a token, whatever it is. -/
theorem consumes_tableEntry (t : Table) (k : TokenKind) : (tableEntry t k).Consumes := by
  refine consumes_bind_of_forall fun second => ?_
  split
  · exact consumes_note.bind _
  · split
    · exact consumes_indexes.bind _
    · split
      · exact consumes_commentedColumn.bind _
      · exact consumes_ignore _

/-- Reads another name behind the word `as`, if that is next. -/
def tableAlias? : Parser (Option String) := do
  if ← ahead (fun ts => ts.head?.any fun t => t.token.isWord "as") then do
    let _ ← any
    let t ← name "table alias"
    return some t.value
  else return none

/-- Reads a table whose keyword stands at `start`. -/
def table (start : Span) : Parser Table := do
  let tableName ← name "table name"
  let aliasName ← tableAlias?
  let head ← settings? tableSetting
    ⟨tableName.value, aliasName, [], [], none, none, none, none, start, []⟩
  let brace ← expect (.mark .leftBrace)
  let t ← block "table" head.name (start.through brace.span) tableEntry consumes_tableEntry head
  let last ← lastSpan
  return { t with span := start.through last }

end SchemaDiagram.Document.Parser
