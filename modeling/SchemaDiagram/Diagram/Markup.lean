import SchemaDiagram.Diagram.Basic
import SchemaDiagram.Diagram.TypeName
import SchemaDiagram.Text.Blank
import SchemaDiagram.Text.Quoted

/-!
# Canonical markup

The markup of a diagram has one form: a project, the tables, the references and the areas, with an
empty line between blocks, two spaces for each depth, and settings in a fixed order. Reading it
gives the diagram back, up to what markup cannot say: coordinates and sizes that are not finite, and
areas without anything to show.
-/

namespace SchemaDiagram.Markup

/-! ## Words and values -/

/-- Keywords that are structure where a name could stand, in all spellings. -/
def reservedWords : List String :=
  ["project", "table", "area", "ref", "note", "indexes", "commoncolumns", "common_columns"]

/-- Whether a name can be written without quotes: ASCII letters, digits and underscores, no digit in
front, and no reserved word. -/
def isBareName (name : String) : Bool :=
  match name.toList with
  | [] => false
  | c :: cs =>
    !c.isDigit && (c :: cs).all (fun d => d.isAlphanum || d == '_') &&
      !reservedWords.contains (Text.lower name)

/-- A text in double quotes. -/
def text (s : String) : String := Text.quoted .double s

/-- A name, in quotes where it needs them. -/
def name (s : String) : String := if isBareName s then s else text s

/-- Whether a value is a numeral: digits with an optional minus, and possibly a fraction. -/
def isNumeral (cs : List Char) : Bool :=
  let digits := match cs with
    | '-' :: rest => rest
    | _ => cs
  let isDigits (ds : List Char) : Bool := !ds.isEmpty && ds.all Char.isDigit
  match digits.dropWhile (· ≠ '.') with
  | [] => isDigits digits
  | _ :: fraction => isDigits (digits.takeWhile (· ≠ '.')) && isDigits fraction

/-- Whether the default of a column can be written without quotes: a truth value, `null` or a
numeral. -/
def isBareDefault (value : String) : Bool :=
  ["true", "false", "null"].any (Text.spelledAlike value) || isNumeral value.toList

/-- The default of a column: a call is an expression in backticks, anything else but a truth value,
`null` and a numeral is a text in single quotes. -/
def defaultValue (value : String) : String :=
  if value.toList.contains '(' && value.toList.contains ')' then Text.quoted .backtick value
  else if isBareDefault value then value
  else Text.quoted .single value

/-! ## Lines -/

/-- What stands in front of a line at a depth. -/
def indentation (depth : Nat) : String := "".pushn ' ' (2 * depth)

/-- A line at a depth. -/
def line (depth : Nat) (content : String) : String := indentation depth ++ content ++ "\n"

/-- A comment: a line comment for each of its lines, without the blanks at their ends. -/
def comment (depth : Nat) (c : String) : String :=
  match Text.lines c.toList with
  | [] => line depth "//"
  | ls => String.join (ls.map fun l => line depth ("// " ++ String.ofList (Text.trimEnd l)))

/-- The comments of a construct or column. -/
def comments (depth : Nat) (cs : List String) : String := String.join (cs.map (comment depth))

/-- A list of settings in brackets, if there are any. -/
def settings (entries : List String) : String :=
  if entries.isEmpty then "" else " [" ++ ", ".intercalate entries ++ "]"

/-- An entry with a value, if there is a value. -/
def setting? {α : Type} (key : String) (write : α → String) : Option α → List String
  | some value => [key ++ ": " ++ write value]
  | none => []

/-- A key without a value, if it is set. -/
def flag? (word : String) (isSet : Bool) : List String := if isSet then [word] else []

/-- The entries for a place on the canvas, if both coordinates are finite. -/
def position? (p : Option Point) : List String :=
  match p.filter Point.isFinite with
  | some p => ["pos_x: " ++ p.x.plainText, "pos_y: " ++ p.y.plainText]
  | none => []

/-- The entry for a size, if it is finite. -/
def size? (key : String) (x : Option Number) : List String :=
  setting? key Number.plainText (x.filter Number.isFinite)

/-- A line with a value, if there is a value. -/
def line? (depth : Nat) (key : String) : Option String → String
  | some value => line depth (key ++ ": " ++ text value)
  | none => ""

/-! ## Blocks -/

/-- The settings of a column. -/
def columnSettings (c : Column) : List String :=
  c.flagWords ++ setting? "default" defaultValue c.default ++ setting? "alias" text c.aliasName ++
    setting? "note" text c.note

/-- The text in parentheses behind a type, if there is any. -/
def params : Option String → String
  | some text => "(" ++ text ++ ")"
  | none => ""

/-- A column and the comments before it. -/
def column (depth : Nat) (c : Column) : String :=
  comments depth c.comments ++
    line depth (name c.name ++ " " ++ name (canonicalType c.columnType) ++ params c.typeParams ++
      settings (columnSettings c))

/-- A column of an index; one with an opening parenthesis is an expression in backticks. -/
def indexColumn (c : String) : String :=
  if c.toList.contains '(' then Text.quoted .backtick c else name c

/-- An index. -/
def index (i : Index) : String :=
  line 2 ("(" ++ ", ".intercalate (i.columns.map indexColumn) ++ ")" ++
    settings (flag? "unique" i.unique ++ flag? "pk" i.pk ++ setting? "name" text i.name))

/-- The indexes of a table, if there are any. -/
def indexes (is : List Index) : String :=
  if is.isEmpty then "" else line 1 "indexes \x7b" ++ String.join (is.map index) ++ line 1 "\x7d"

/-- A table and the comments before it. -/
def table (t : Table) : String :=
  let header := setting? "alias" text t.aliasName ++ position? t.position ++
    setting? "color" Color.text t.color
  comments 0 t.comments ++
    line 0 ("Table " ++ name t.name ++ settings header ++ " \x7b") ++
    String.join (t.columns.map (column 1)) ++ indexes t.indexes ++ line? 1 "Note" t.note ++
    line 0 "\x7d"

/-- An endpoint of a reference. -/
def endpoint (id : TableId) (column : String) : String := name id.tableName ++ "." ++ name column

/-- A reference and the comments before it. -/
def reference (r : Reference) : String :=
  let entries := setting? "swap_edge" (fun swap => if swap then "true" else "false") r.swapEdge ++
    setting? "note" text r.note
  comments 0 r.comments ++
    line 0 ("Ref: " ++ endpoint r.fromTable r.fromColumn ++ " " ++ r.kind.symbol ++ " " ++
      endpoint r.toTable r.toColumn ++ settings entries)

/-- The member tables of an area that a diagram has. -/
def members (d : Diagram) (a : Area) : List Table := a.tableIds.filterMap d.tableById?

/-- Whether an area has anything to show: a member table, a common column or a note. -/
def isShown (d : Diagram) (a : Area) : Bool :=
  !(members d a).isEmpty || !a.commonColumns.isEmpty || a.note.isSome

/-- The common columns of an area, if there are any. -/
def commonColumns (cs : List Column) : String :=
  if cs.isEmpty then ""
  else line 1 "CommonColumns: [" ++ String.join (cs.map (column 2)) ++ line 1 "]"

/-- An area and the comments before it. -/
def area (d : Diagram) (a : Area) : String :=
  let header := position? a.position ++ size? "width" a.width ++ size? "height" a.height ++
    setting? "color" Color.text a.color ++
    setting? "labelHorizontal" HorizontalLabel.word a.labelHorizontal ++
    setting? "labelVertical" VerticalLabel.word a.labelVertical
  comments 0 a.comments ++
    line 0 ("Area " ++ name a.name ++ settings header ++ " \x7b") ++
    String.join ((members d a).map fun t => line 1 (name t.name)) ++
    line? 1 "database_type" a.databaseType ++ commonColumns a.commonColumns ++
    line? 1 "Note" a.note ++ line 0 "\x7d"

/-- The project of a diagram. -/
def project (d : Diagram) : String :=
  line 0 ("Project " ++ name (d.projectName.getD d.name) ++ " \x7b") ++
    line 1 ("database_type: " ++ text d.databaseType) ++ line? 1 "Note" d.note ++ line 0 "\x7d"

/-- The references of a diagram, in one block. -/
def references (rs : List Reference) : String :=
  if rs.isEmpty then "" else "\n" ++ String.join (rs.map reference)

end Markup

/-- The markup of a diagram. -/
def Diagram.markup (d : Diagram) : String :=
  Markup.project d ++ String.join (d.tables.map fun t => "\n" ++ Markup.table t) ++
    Markup.references d.references ++
    String.join ((d.areas.filter (Markup.isShown d)).map fun a => "\n" ++ Markup.area d a)

end SchemaDiagram
