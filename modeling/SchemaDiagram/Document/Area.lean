import SchemaDiagram.Document.Column

/-!
# Areas and projects

An area has a name, a list of settings, and a block of member tables, settings line by line, common
columns and notes in any order. A project has a name, a list of settings, and possibly a block of
settings line by line and notes.
-/

namespace SchemaDiagram.Document.Parser

/-! ## Common columns -/

/-- Reads a common column, or the bracket that closes the list. Any other token is passed over. -/
def commonColumnsStep (columns : List Column) : Parser (List Column ⊕ List Column) := do
  match ← kind? with
  | none => unexpected "']'"
  | some k =>
    if k = .mark .rightBracket then do
      let _ ← any
      return .inr columns
    else if k.opensConstruct then unexpected "']'"
    else if k.isName then do
      let column ← commentedColumn
      return .inl (columns ++ [column])
    else do
      let _ ← any
      return .inl columns

/-- A round of reading common columns takes a token. -/
theorem consumes_commonColumnsStep (columns : List Column) :
    (commonColumnsStep columns).Consumes := by
  refine consumes_bind_of_forall fun k => ?_
  split
  · exact consumes_unexpected _
  · split
    · exact consumes_any.bind _
    · split
      · exact consumes_unexpected _
      · split
        · exact consumes_commentedColumn.bind _
        · exact consumes_any.bind _

/-- Reads a list of common columns. -/
def commonColumns : Parser (List Column) := do
  let _ ← expect (.keyword .commonColumns)
  let _ ← accept (.mark .colon)
  let _ ← expect (.mark .leftBracket)
  iterate commonColumnsStep consumes_commonColumnsStep []

/-- A list of common columns takes its keyword. -/
theorem consumes_commonColumns : commonColumns.Consumes := (consumes_expect _).bind _

/-! ## Areas -/

/-- Reads what follows a key of an area's settings. -/
def areaSetting (a : Area) (key : SettingKey) : Parser (Option Area) :=
  match key.form with
  | "posx" => do
    let x ← settingNumber key
    return some { a with posX := x.or a.posX }
  | "posy" => do
    let y ← settingNumber key
    return some { a with posY := y.or a.posY }
  | "width" => do
    let width ← settingNumber key
    return some { a with width := width.or a.width }
  | "height" => do
    let height ← settingNumber key
    return some { a with height := height.or a.height }
  | "color" => do
    let color ← settingColor key
    return some { a with color := color.or a.color }
  | "databasetype" => do
    let text ← settingText
    return some { a with databaseType := some text }
  | "labelhorizontal" => do
    let label ← settingHorizontalLabel key
    return some { a with labelHorizontal := label.or a.labelHorizontal }
  | "labelvertical" => do
    let label ← settingVerticalLabel key
    return some { a with labelVertical := label.or a.labelVertical }
  | "note" => do
    let text ← settingString
    return some { a with note := some text }
  | _ => return none

/-- Reads a line of a key and a value in a block. -/
def settingLine {σ : Type} (apply : σ → SettingKey → Parser (Option σ)) (s : σ) : Parser σ := do
  let key ← settingKey
  match ← apply s key with
  | some t => return t
  | none => do
    skipLineValue
    return s

/-- A line of a key and a value takes its key. -/
theorem consumes_settingLine {σ : Type} (apply : σ → SettingKey → Parser (Option σ)) (s : σ) :
    (settingLine apply s).Consumes :=
  consumes_settingKey.bind _

/-- Reads an entry of an area's block. -/
def areaEntry (a : Area) (k : TokenKind) : Parser Area := do
  let second ← secondKind?
  if k = .keyword .note ∧ isColonOrBrace second = true then do
    let text ← note
    return { a with note := some text }
  else if k = .keyword .commonColumns then do
    let more ← commonColumns
    return { a with commonColumns := a.commonColumns ++ more }
  else if k.isName = true ∧ second = some (.mark .colon) then settingLine areaSetting a
  else if k.isName then do
    let t ← name "table name"
    return { a with tables := a.tables ++ [t.value] }
  else ignore a

/-- An entry of an area takes a token, whatever it is. -/
theorem consumes_areaEntry (a : Area) (k : TokenKind) : (areaEntry a k).Consumes := by
  refine consumes_bind_of_forall fun second => ?_
  split
  · exact consumes_note.bind _
  · split
    · exact consumes_commonColumns.bind _
    · split
      · exact consumes_settingLine _ _
      · split
        · exact (consumes_take _ _).bind _
        · exact consumes_ignore _

/-- Reads an area whose keyword stands at `start`. -/
def area (start : Span) : Parser Area := do
  let areaName ← name "area name"
  let head ← settings? areaSetting
    ⟨areaName.value, [], none, none, none, none, none, none, none, none, [], none, start, []⟩
  let brace ← expect (.mark .leftBrace)
  let a ← block "area" head.name (start.through brace.span) areaEntry consumes_areaEntry head
  let last ← lastSpan
  return { a with span := start.through last }

/-! ## Projects -/

/-- Reads what follows a key of a project's settings. -/
def projectSetting (p : Project) (key : SettingKey) : Parser (Option Project) :=
  match key.form with
  | "databasetype" => do
    let text ← settingText
    return some { p with databaseType := some text }
  | "note" => do
    let text ← settingString
    return some { p with note := some text }
  | _ => return none

/-- Reads an entry of a project's block. -/
def projectEntry (p : Project) (k : TokenKind) : Parser Project := do
  let second ← secondKind?
  if k = .keyword .note ∧ isColonOrBrace second = true then do
    let text ← note
    return { p with note := some text }
  else if k.isName = true ∧ second = some (.mark .colon) then settingLine projectSetting p
  else ignore p

/-- An entry of a project takes a token, whatever it is. -/
theorem consumes_projectEntry (p : Project) (k : TokenKind) : (projectEntry p k).Consumes := by
  refine consumes_bind_of_forall fun second => ?_
  split
  · exact consumes_note.bind _
  · split
    · exact consumes_settingLine _ _
    · exact consumes_ignore _

/-- Reads the block of a project, if there is one. -/
def projectBlock? (start : Span) (p : Project) : Parser Project := do
  if ← at? (.mark .leftBrace) then do
    let brace ← any
    block "project" p.name (start.through brace.span) projectEntry consumes_projectEntry p
  else return p

/-- Reads a project whose keyword stands at `start`. -/
def project (start : Span) : Parser Project := do
  let projectName ← name "project name"
  let head ← settings? projectSetting ⟨projectName.value, none, none, start, []⟩
  let p ← projectBlock? start head
  let last ← lastSpan
  return { p with span := start.through last }

end SchemaDiagram.Document.Parser
