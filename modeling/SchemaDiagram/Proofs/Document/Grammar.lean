import SchemaDiagram.Document.Read

/-!
# The grammar of documents

Which token lists are documents, and what they stand for. A rule puts tokens one after another and
says what they denote, spans included; the line comments of a construct are not part of it. Where a
rule has parts that change what was there before, such as settings, it relates what is denoted so
far to what is denoted with the part.

Nothing is said here of how a document is read; only what a single token is or stands for is taken
from there. Any token that is a name may stand for a name, so the word `Note` can name a column and
`indexes` a table, and the rules do not say how to tell.
-/

namespace SchemaDiagram.Document.Grammar

open Document.Parser

/-- The span of the last token; `before` is the span of the token in front of them. -/
def lastOf (before : Span) (ts : List Token) : Span := (ts.getLast?.map Token.span).getD before

variable {σ : Type} {α : Type}

/-! ## Repetition -/

/-- Entries one after another, each of which changes what was there before. -/
inductive Entries (Entry : σ → List Token → σ → Prop) : σ → List Token → σ → Prop
  | nil {s : σ} : Entries Entry s [] s
  | cons {s s' s'' : σ} {ts us : List Token} (entry : Entry s ts s')
    (others : Entries Entry s' us s'') : Entries Entry s (ts ++ us) s''

/-- Entries with commas between them; a comma may also stand behind the last one. -/
inductive Separated (Entry : σ → List Token → σ → Prop) : σ → List Token → σ → Prop
  | nil {s : σ} : Separated Entry s [] s
  | last {s s' : σ} {ts : List Token} (entry : Entry s ts s') : Separated Entry s ts s'
  | cons {s s' s'' : σ} {ts us : List Token} {comma : Token} (entry : Entry s ts s')
    (hcomma : comma.kind = .mark .comma) (others : Separated Entry s' us s'') :
    Separated Entry s (ts ++ comma :: us) s''

/-- `("[" (entry ("," entry)*)? "]")?` -/
inductive Settings (Entry : σ → List Token → σ → Prop) : σ → List Token → σ → Prop
  | none {s : σ} : Settings Entry s [] s
  | list {s s' : σ} {ts : List Token} {opening closing : Token}
    (hopening : opening.kind = .mark .leftBracket) (entries : Separated Entry s ts s')
    (hclosing : closing.kind = .mark .rightBracket) :
    Settings Entry s (opening :: (ts ++ [closing])) s'

/-! ## Keys and values -/

/-- A key in any spelling that has the form. -/
def IsKey (form : String) (t : Token) : Prop :=
  t.kind.isName = true ∧ SettingKey.form ⟨t.value⟩ = form

/-- The text that a token stands for. -/
def textOf? (t : Token) : Option String := some t.value

/-- The text of a token in quotes. -/
def stringOf? (t : Token) : Option String := if t.kind.isString then some t.value else none

/-- The color that a token stands for. -/
def colorOf? (t : Token) : Option Color := Color.ofString? t.value

/-- The horizontal place of a label that a token spells. -/
def horizontalLabelOf? (t : Token) : Option HorizontalLabel :=
  HorizontalLabel.ofWord? (Text.lower t.value)

/-- The vertical place of a label that a token spells. -/
def verticalLabelOf? (t : Token) : Option VerticalLabel :=
  VerticalLabel.ofWord? (Text.lower t.value)

/-- `key ":" value`, with a value that the key can take. -/
inductive KeyValue (view : Token → Option α) (form : String) : List Token → α → Prop
  | mk {key colon value : Token} {a : α} (hkey : IsKey form key)
    (hcolon : colon.kind = .mark .colon) (hvalue : isSettingValue value.kind = true)
    (hview : view value = some a) : KeyValue view form [key, colon, value] a

/-- `Note ":" string | Note "{" string "}"` -/
inductive Note : List Token → String → Prop
  | line {keyword colon text : Token} (hkeyword : keyword.kind = .keyword .note)
    (hcolon : colon.kind = .mark .colon) (htext : text.kind.isString = true) :
    Note [keyword, colon, text] text.value
  | block {keyword opening text closing : Token} (hkeyword : keyword.kind = .keyword .note)
    (hopening : opening.kind = .mark .leftBrace) (htext : text.kind.isString = true)
    (hclosing : closing.kind = .mark .rightBrace) :
    Note [keyword, opening, text, closing] text.value

/-! ## Columns -/

/-- Tokens with balanced parentheses, none of which opens a construct. -/
inductive Balanced : List Token → Prop
  | nil : Balanced []
  | cons {t : Token} {ts : List Token} (hleft : t.kind ≠ .mark .leftParen)
    (hright : t.kind ≠ .mark .rightParen) (hopens : t.kind.opensConstruct = false)
    (others : Balanced ts) : Balanced (t :: ts)
  | group {opening closing : Token} {ts us : List Token}
    (hopening : opening.kind = .mark .leftParen) (inner : Balanced ts)
    (hclosing : closing.kind = .mark .rightParen) (others : Balanced us) :
    Balanced (opening :: (ts ++ closing :: us))

/-- `"(" raw ")"` -/
inductive Parenthesized : List Token → String → Prop
  | mk {opening closing : Token} {ts : List Token} (hopening : opening.kind = .mark .leftParen)
    (inner : Balanced ts) (hclosing : closing.kind = .mark .rightParen) :
    Parenthesized (opening :: (ts ++ [closing])) (rawText ts)

/-- `("(" raw ")")?` -/
inductive Params : List Token → Option String → Prop
  | none : Params [] none
  | some {ts : List Token} {text : String} (h : Parenthesized ts text) : Params ts (some text)

/-- A default: a text in quotes, a number, a word, or a call. -/
inductive DefaultValue : List Token → Default → Prop
  | value {t : Token} {form : DefaultForm} (h : defaultForm? t.kind = some form) :
    DefaultValue [t] ⟨t.value, form⟩
  | call {t : Token} {ts : List Token} {arguments : String} (hname : t.kind = .identifier)
    (h : Parenthesized ts arguments) :
    DefaultValue (t :: ts) ⟨s!"{t.text}({arguments})", .expression⟩

/-- A setting of a column. -/
inductive ColumnSetting (s : ColumnSettings) : List Token → ColumnSettings → Prop
  | pk {key : Token} (h : IsKey "pk" key) : ColumnSetting s [key] { s with pk := true }
  | primaryKey {key word : Token} (h : IsKey "primary" key) (hword : word.isWord "key" = true) :
    ColumnSetting s [key, word] { s with pk := true }
  | fk {key : Token} (h : IsKey "fk" key) : ColumnSetting s [key] { s with fk := true }
  | unique {key : Token} (h : IsKey "unique" key) : ColumnSetting s [key] { s with unique := true }
  | notNull {key word : Token} (h : IsKey "not" key) (hword : word.kind = .keyword .null) :
    ColumnSetting s [key, word] { s with notNull := true }
  | null {key : Token} (h : IsKey "null" key) : ColumnSetting s [key] { s with notNull := false }
  | increment {key : Token} (h : IsKey "increment" key ∨ IsKey "autoincrement" key) :
    ColumnSetting s [key] { s with increment := true }
  | default {key colon : Token} {ts : List Token} {value : Default} (h : IsKey "default" key)
    (hcolon : colon.kind = .mark .colon) (hvalue : DefaultValue ts value) :
    ColumnSetting s (key :: colon :: ts) { s with default := some value }
  | aliasName {ts : List Token} {text : String} (h : KeyValue textOf? "alias" ts text) :
    ColumnSetting s ts { s with aliasName := some text }
  | note {ts : List Token} {text : String} (h : KeyValue stringOf? "note" ts text) :
    ColumnSetting s ts { s with note := some text }

/-- `name name ("(" raw ")")? settings?` -/
inductive IsColumn : List Token → Column → Prop
  | mk {name type : Token} {ps ss : List Token} {params : Option String}
    {settings : ColumnSettings} (hname : name.kind.isName = true)
    (htype : type.kind.isName = true) (hparams : Params ps params)
    (hsettings : Settings ColumnSetting .none ss settings) :
    IsColumn (name :: type :: (ps ++ ss))
      ⟨name.value, type.value, params, settings,
        name.span.through (lastOf type.span (ps ++ ss)), []⟩

/-! ## Tables -/

/-- A setting of an index. -/
inductive IndexSetting (i : Index) : List Token → Index → Prop
  | unique {key : Token} (h : IsKey "unique" key) : IndexSetting i [key] { i with unique := true }
  | pk {key : Token} (h : IsKey "pk" key) : IndexSetting i [key] { i with pk := true }
  | name {ts : List Token} {text : String} (h : KeyValue textOf? "name" ts text) :
    IndexSetting i ts { i with name := some text }

/-- `column ("," column)*` -/
inductive IndexColumns : List Token → List String → Prop
  | last {t : Token} (h : isIndexColumn t.kind = true) : IndexColumns [t] [t.value]
  | cons {t comma : Token} {ts : List Token} {columns : List String}
    (h : isIndexColumn t.kind = true) (hcomma : comma.kind = .mark .comma)
    (others : IndexColumns ts columns) : IndexColumns (t :: comma :: ts) (t.value :: columns)

/-- `column settings? | "(" column ("," column)* ")" settings?` -/
inductive IsIndex : List Token → Index → Prop
  | one {t : Token} {ss : List Token} {i : Index} (h : isIndexColumn t.kind = true)
    (hsettings : Settings IndexSetting ⟨[t.value], false, false, none, t.span⟩ ss i) :
    IsIndex (t :: ss) { i with span := t.span.through (lastOf t.span ss) }
  | many {opening closing : Token} {ts ss : List Token} {columns : List String} {i : Index}
    (hopening : opening.kind = .mark .leftParen) (hcolumns : IndexColumns ts columns)
    (hclosing : closing.kind = .mark .rightParen)
    (hsettings : Settings IndexSetting ⟨columns, false, false, none, opening.span⟩ ss i) :
    IsIndex (opening :: (ts ++ closing :: ss))
      { i with span := opening.span.through (lastOf closing.span ss) }

/-- An index behind others. -/
inductive IndexEntry (indexes : List Index) : List Token → List Index → Prop
  | index {ts : List Token} {i : Index} (h : IsIndex ts i) :
    IndexEntry indexes ts (indexes ++ [i])

/-- A setting of a table. -/
inductive TableSetting (t : Table) : List Token → Table → Prop
  | aliasName {ts : List Token} {text : String} (h : KeyValue textOf? "alias" ts text) :
    TableSetting t ts { t with aliasName := some text }
  | posX {ts : List Token} {x : Number} (h : KeyValue numberOf? "posx" ts x) :
    TableSetting t ts { t with posX := some x }
  | posY {ts : List Token} {y : Number} (h : KeyValue numberOf? "posy" ts y) :
    TableSetting t ts { t with posY := some y }
  | color {ts : List Token} {color : Color}
    (h : KeyValue colorOf? "color" ts color ∨ KeyValue colorOf? "headercolor" ts color) :
    TableSetting t ts { t with color := some color }
  | note {ts : List Token} {text : String} (h : KeyValue stringOf? "note" ts text) :
    TableSetting t ts { t with note := some text }

/-- A column, a note, or `indexes "{" index* "}"`. -/
inductive TableEntry (t : Table) : List Token → Table → Prop
  | column {ts : List Token} {c : Column} (h : IsColumn ts c) :
    TableEntry t ts { t with columns := t.columns ++ [c] }
  | note {ts : List Token} {text : String} (h : Note ts text) :
    TableEntry t ts { t with note := some text }
  | indexes {keyword opening closing : Token} {ts : List Token} {more : List Index}
    (hkeyword : keyword.kind = .keyword .indexes) (hopening : opening.kind = .mark .leftBrace)
    (h : Entries IndexEntry [] ts more) (hclosing : closing.kind = .mark .rightBrace) :
    TableEntry t (keyword :: opening :: (ts ++ [closing]))
      { t with indexes := t.indexes ++ more }

/-- `("as" name)?` -/
inductive Alias : List Token → Option String → Prop
  | none : Alias [] none
  | some {word name : Token} (hword : word.isWord "as" = true) (hname : name.kind.isName = true) :
    Alias [word, name] (some name.value)

/-- `Table name ("as" name)? settings? "{" entry* "}"` -/
inductive IsTable : List Token → Table → Prop
  | mk {keyword name opening closing : Token} {aliasTokens ss body : List Token}
    {aliasName : Option String} {head t : Table} (hkeyword : keyword.kind = .keyword .table)
    (hname : name.kind.isName = true) (halias : Alias aliasTokens aliasName)
    (hsettings : Settings TableSetting
      ⟨name.value, aliasName, [], [], none, none, none, none, keyword.span, []⟩ ss head)
    (hopening : opening.kind = .mark .leftBrace) (hbody : Entries TableEntry head body t)
    (hclosing : closing.kind = .mark .rightBrace) :
    IsTable (keyword :: name :: (aliasTokens ++ (ss ++ opening :: (body ++ [closing]))))
      { t with span := keyword.span.through closing.span }

/-! ## References -/

/-- `name "." name` -/
inductive IsEndpoint : List Token → Endpoint → Prop
  | mk {table dot column : Token} (htable : table.kind.isName = true)
    (hdot : dot.kind = .mark .dot) (hcolumn : column.kind.isName = true) :
    IsEndpoint [table, dot, column]
      ⟨table.value, column.value, table.span.through column.span⟩

/-- A setting of a reference. -/
inductive ReferenceSetting (r : Reference) : List Token → Reference → Prop
  | swapEdge {ts : List Token} {swap : Bool} (h : KeyValue flagOf? "swapedge" ts swap) :
    ReferenceSetting r ts { r with swapEdge := some swap }
  | note {ts : List Token} {text : String} (h : KeyValue stringOf? "note" ts text) :
    ReferenceSetting r ts { r with note := some text }

/-- What may stand between `Ref` and the first endpoint, braces apart: a name and a colon, a name in
front of a brace, a colon, or nothing. -/
inductive ReferenceName : (isBraced : Bool) → List Token → Option String → Prop
  | named {isBraced : Bool} {name colon : Token} (hname : name.kind.isName = true)
    (hcolon : colon.kind = .mark .colon) :
    ReferenceName isBraced [name, colon] (some name.value)
  | namedBraces {name : Token} (hname : name.kind.isName = true) :
    ReferenceName true [name] (some name.value)
  | colon {isBraced : Bool} {colon : Token} (hcolon : colon.kind = .mark .colon) :
    ReferenceName isBraced [colon] none
  | nothing {isBraced : Bool} : ReferenceName isBraced [] none

/-- `endpoint relationship endpoint settings?` -/
inductive Edge (start : Span) (name : Option String) : List Token → Reference → Prop
  | mk {source target ss : List Token} {symbol : Token} {from_ to_ : Endpoint}
    {relationship : Relationship} {r : Reference} (hsource : IsEndpoint source from_)
    (hsymbol : relationshipOf? symbol.kind = some relationship) (htarget : IsEndpoint target to_)
    (hsettings : Settings ReferenceSetting
      ⟨name, from_, to_, relationship, none, none, start, []⟩ ss r) :
    Edge start name (source ++ symbol :: (target ++ ss)) r

/-- `Ref name? ":"? edge | Ref name? ":"? "{" edge "}"` -/
inductive IsReference : List Token → Reference → Prop
  | plain {keyword : Token} {ns ts : List Token} {name : Option String} {r : Reference}
    (hkeyword : keyword.kind = .keyword .ref) (hname : ReferenceName false ns name)
    (h : Edge keyword.span name ts r) :
    IsReference (keyword :: (ns ++ ts))
      { r with span := keyword.span.through (lastOf keyword.span ts) }
  | braced {keyword opening closing : Token} {ns ts : List Token} {name : Option String}
    {r : Reference} (hkeyword : keyword.kind = .keyword .ref) (hname : ReferenceName true ns name)
    (hopening : opening.kind = .mark .leftBrace) (h : Edge keyword.span name ts r)
    (hclosing : closing.kind = .mark .rightBrace) :
    IsReference (keyword :: (ns ++ opening :: (ts ++ [closing])))
      { r with span := keyword.span.through closing.span }

/-! ## Areas -/

/-- A setting of an area. -/
inductive AreaSetting (a : Area) : List Token → Area → Prop
  | posX {ts : List Token} {x : Number} (h : KeyValue numberOf? "posx" ts x) :
    AreaSetting a ts { a with posX := some x }
  | posY {ts : List Token} {y : Number} (h : KeyValue numberOf? "posy" ts y) :
    AreaSetting a ts { a with posY := some y }
  | width {ts : List Token} {width : Number} (h : KeyValue numberOf? "width" ts width) :
    AreaSetting a ts { a with width := some width }
  | height {ts : List Token} {height : Number} (h : KeyValue numberOf? "height" ts height) :
    AreaSetting a ts { a with height := some height }
  | color {ts : List Token} {color : Color} (h : KeyValue colorOf? "color" ts color) :
    AreaSetting a ts { a with color := some color }
  | databaseType {ts : List Token} {text : String} (h : KeyValue textOf? "databasetype" ts text) :
    AreaSetting a ts { a with databaseType := some text }
  | labelHorizontal {ts : List Token} {label : HorizontalLabel}
    (h : KeyValue horizontalLabelOf? "labelhorizontal" ts label) :
    AreaSetting a ts { a with labelHorizontal := some label }
  | labelVertical {ts : List Token} {label : VerticalLabel}
    (h : KeyValue verticalLabelOf? "labelvertical" ts label) :
    AreaSetting a ts { a with labelVertical := some label }
  | note {ts : List Token} {text : String} (h : KeyValue stringOf? "note" ts text) :
    AreaSetting a ts { a with note := some text }

/-- The forms of the keys that an area knows. -/
def areaKeys : List String :=
  ["posx", "posy", "width", "height", "color", "databasetype", "labelhorizontal", "labelvertical",
    "note"]

/-- `key ":" value` with a key that is not known; it says nothing. -/
inductive UnknownLine (known : List String) : List Token → Prop
  | mk {key colon value : Token} (hkey : key.kind.isName = true)
    (hform : SettingKey.form ⟨key.value⟩ ∉ known) (hcolon : colon.kind = .mark .colon)
    (hvalue : isSettingValue value.kind = true) : UnknownLine known [key, colon, value]

/-- `column | ","` -/
inductive CommonColumn (columns : List Column) : List Token → List Column → Prop
  | column {ts : List Token} {c : Column} (h : IsColumn ts c) :
    CommonColumn columns ts (columns ++ [c])
  | comma {t : Token} (h : t.kind = .mark .comma) : CommonColumn columns [t] columns

/-- `":"?` -/
inductive Colon : List Token → Prop
  | none : Colon []
  | some {t : Token} (h : t.kind = .mark .colon) : Colon [t]

/-- A member, a line with a key and a value, `CommonColumns ":"? "[" (column ","?)* "]"`, or a note.
A key is not the word `Note`, in front of a colon, nor `CommonColumns`, which stand for themselves;
nor is a member the word `CommonColumns`. -/
inductive AreaEntry (a : Area) : List Token → Area → Prop
  | member {t : Token} (hname : t.kind.isName = true)
    (hother : t.kind ≠ .keyword .commonColumns) :
    AreaEntry a [t] { a with tables := a.tables ++ [t.value] }
  | setting {key : Token} {ts : List Token} {b : Area} (hnote : key.kind ≠ .keyword .note)
    (hother : key.kind ≠ .keyword .commonColumns) (h : AreaSetting a (key :: ts) b) :
    AreaEntry a (key :: ts) b
  | unknown {key : Token} {ts : List Token} (hnote : key.kind ≠ .keyword .note)
    (hother : key.kind ≠ .keyword .commonColumns) (h : UnknownLine areaKeys (key :: ts)) :
    AreaEntry a (key :: ts) a
  | commonColumns {keyword opening closing : Token} {cs ts : List Token} {more : List Column}
    (hkeyword : keyword.kind = .keyword .commonColumns) (hcolon : Colon cs)
    (hopening : opening.kind = .mark .leftBracket) (h : Entries CommonColumn [] ts more)
    (hclosing : closing.kind = .mark .rightBracket) :
    AreaEntry a (keyword :: (cs ++ opening :: (ts ++ [closing])))
      { a with commonColumns := a.commonColumns ++ more }
  | note {ts : List Token} {text : String} (h : Note ts text) :
    AreaEntry a ts { a with note := some text }

/-- `Area name settings? "{" entry* "}"` -/
inductive IsArea : List Token → Area → Prop
  | mk {keyword name opening closing : Token} {ss body : List Token} {head a : Area}
    (hkeyword : keyword.kind = .keyword .area) (hname : name.kind.isName = true)
    (hsettings : Settings AreaSetting
      ⟨name.value, [], none, none, none, none, none, none, none, none, [], none, keyword.span, []⟩
      ss head)
    (hopening : opening.kind = .mark .leftBrace) (hbody : Entries AreaEntry head body a)
    (hclosing : closing.kind = .mark .rightBrace) :
    IsArea (keyword :: name :: (ss ++ opening :: (body ++ [closing])))
      { a with span := keyword.span.through closing.span }

/-! ## Projects -/

/-- A setting of a project. -/
inductive ProjectSetting (p : Project) : List Token → Project → Prop
  | databaseType {ts : List Token} {text : String} (h : KeyValue textOf? "databasetype" ts text) :
    ProjectSetting p ts { p with databaseType := some text }
  | note {ts : List Token} {text : String} (h : KeyValue stringOf? "note" ts text) :
    ProjectSetting p ts { p with note := some text }

/-- The forms of the keys that a project knows. -/
def projectKeys : List String := ["databasetype", "note"]

/-- A line with a key and a value, or a note. A key is not the word `Note`. -/
inductive ProjectEntry (p : Project) : List Token → Project → Prop
  | setting {key : Token} {ts : List Token} {q : Project} (hnote : key.kind ≠ .keyword .note)
    (h : ProjectSetting p (key :: ts) q) : ProjectEntry p (key :: ts) q
  | unknown {key : Token} {ts : List Token} (hnote : key.kind ≠ .keyword .note)
    (h : UnknownLine projectKeys (key :: ts)) : ProjectEntry p (key :: ts) p
  | note {ts : List Token} {text : String} (h : Note ts text) :
    ProjectEntry p ts { p with note := some text }

/-- `Project name settings? ("{" entry* "}")?` -/
inductive IsProject : List Token → Project → Prop
  | head {keyword name : Token} {ss : List Token} {p : Project}
    (hkeyword : keyword.kind = .keyword .project) (hname : name.kind.isName = true)
    (hsettings : Settings ProjectSetting ⟨name.value, none, none, keyword.span, []⟩ ss p) :
    IsProject (keyword :: name :: ss)
      { p with span := keyword.span.through (lastOf name.span ss) }
  | body {keyword name opening closing : Token} {ss body : List Token} {head p : Project}
    (hkeyword : keyword.kind = .keyword .project) (hname : name.kind.isName = true)
    (hsettings : Settings ProjectSetting ⟨name.value, none, none, keyword.span, []⟩ ss head)
    (hopening : opening.kind = .mark .leftBrace) (hbody : Entries ProjectEntry head body p)
    (hclosing : closing.kind = .mark .rightBrace) :
    IsProject (keyword :: name :: (ss ++ opening :: (body ++ [closing])))
      { p with span := keyword.span.through closing.span }

/-! ## Documents -/

/-- A construct. -/
inductive IsConstruct : List Token → Construct → Prop
  | project {ts : List Token} {p : Project} (h : IsProject ts p) : IsConstruct ts (.project p)
  | table {ts : List Token} {t : Table} (h : IsTable ts t) : IsConstruct ts (.table t)
  | reference {ts : List Token} {r : Reference} (h : IsReference ts r) :
    IsConstruct ts (.reference r)
  | area {ts : List Token} {a : Area} (h : IsArea ts a) : IsConstruct ts (.area a)

/-- Constructs one after another. -/
inductive IsDocument : List Token → List Construct → Prop
  | nil : IsDocument [] []
  | cons {ts us : List Token} {x : Construct} {xs : List Construct} (construct : IsConstruct ts x)
    (others : IsDocument us xs) : IsDocument (ts ++ us) (x :: xs)

end SchemaDiagram.Document.Grammar
