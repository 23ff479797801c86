import SchemaDiagram.Document.Read

/-!
# What the entries of a list of settings change

Each key of a list of settings stands for a field of what the list belongs to, and what follows the
key in an entry has one of seven forms (`AfterKey`). One table says both for every key of every list
(`ListKind.meaning?`), and the functions that read entries are the readers of these forms
(`ListKind.apply_eq`). So what all readers do is shown for the forms and not for each key of each
list (`ListKind.apply_of_reader`). An entry sets its field and nothing else, and changes of different
fields can be made in either order (`ListKind.set_comm`).
-/

namespace SchemaDiagram.Document

open SchemaDiagram.Document.Parser

/-! ## Lists of settings -/

/-- The constructs and parts of constructs that can have a list of settings. -/
inductive ListKind where
  | project | table | column | index | reference | area
  deriving DecidableEq, Repr

namespace ListKind

/-- What the entries of a list change. -/
def State : ListKind → Type
  | project => Project
  | table => Table
  | column => ColumnSettings
  | index => Index
  | reference => Reference
  | area => Area

/-- Reads what follows a key. -/
def apply : (l : ListKind) → l.State → SettingKey → Parser (Option l.State)
  | project => projectSetting
  | table => tableSetting
  | column => columnSetting
  | index => indexSetting
  | reference => referenceSetting
  | area => areaSetting

end ListKind

/-! ## Fields and changes -/

/-- What an entry of a list of settings can set. -/
inductive Field where
  | posX | posY | width | height | color | labelHorizontal | labelVertical | databaseType
  | aliasName | note | pk | fk | unique | notNull | increment | default | indexName | swapEdge
  deriving DecidableEq, Repr

/-- A new value for a field. -/
inductive Change where
  | posX (x : Number)
  | posY (y : Number)
  | width (width : Number)
  | height (height : Number)
  | color (color : Color)
  | labelHorizontal (label : HorizontalLabel)
  | labelVertical (label : VerticalLabel)
  | databaseType (text : String)
  | aliasName (text : String)
  | note (text : String)
  | pk
  | fk
  | unique
  | notNull (isSet : Bool)
  | increment
  | default (value : Default)
  | indexName (text : String)
  | swapEdge (swap : Bool)

/-- The field that a change sets. -/
def Change.field : Change → Field
  | posX _ => .posX
  | posY _ => .posY
  | width _ => .width
  | height _ => .height
  | color _ => .color
  | labelHorizontal _ => .labelHorizontal
  | labelVertical _ => .labelVertical
  | databaseType _ => .databaseType
  | aliasName _ => .aliasName
  | note _ => .note
  | pk => .pk
  | fk => .fk
  | unique => .unique
  | notNull _ => .notNull
  | increment => .increment
  | default _ => .default
  | indexName _ => .indexName
  | swapEdge _ => .swapEdge

namespace ListKind

/-- Makes a change. What has no such field stays as it is. -/
def set : (l : ListKind) → l.State → Change → l.State
  | project, (p : Project), .databaseType text => ({ p with databaseType := some text } : Project)
  | project, (p : Project), .note text => ({ p with note := some text } : Project)
  | table, (t : Table), .aliasName text => ({ t with aliasName := some text } : Table)
  | table, (t : Table), .posX x => ({ t with posX := some x } : Table)
  | table, (t : Table), .posY y => ({ t with posY := some y } : Table)
  | table, (t : Table), .color color => ({ t with color := some color } : Table)
  | table, (t : Table), .note text => ({ t with note := some text } : Table)
  | column, (s : ColumnSettings), .pk => ({ s with pk := true } : ColumnSettings)
  | column, (s : ColumnSettings), .fk => ({ s with fk := true } : ColumnSettings)
  | column, (s : ColumnSettings), .unique => ({ s with unique := true } : ColumnSettings)
  | column, (s : ColumnSettings), .notNull isSet => ({ s with notNull := isSet } : ColumnSettings)
  | column, (s : ColumnSettings), .increment => ({ s with increment := true } : ColumnSettings)
  | column, (s : ColumnSettings), .default value =>
    ({ s with default := some value } : ColumnSettings)
  | column, (s : ColumnSettings), .aliasName text =>
    ({ s with aliasName := some text } : ColumnSettings)
  | column, (s : ColumnSettings), .note text => ({ s with note := some text } : ColumnSettings)
  | index, (i : Index), .unique => ({ i with unique := true } : Index)
  | index, (i : Index), .pk => ({ i with pk := true } : Index)
  | index, (i : Index), .indexName text => ({ i with name := some text } : Index)
  | reference, (r : Reference), .swapEdge swap => ({ r with swapEdge := some swap } : Reference)
  | reference, (r : Reference), .note text => ({ r with note := some text } : Reference)
  | area, (a : Area), .posX x => ({ a with posX := some x } : Area)
  | area, (a : Area), .posY y => ({ a with posY := some y } : Area)
  | area, (a : Area), .width width => ({ a with width := some width } : Area)
  | area, (a : Area), .height height => ({ a with height := some height } : Area)
  | area, (a : Area), .color color => ({ a with color := some color } : Area)
  | area, (a : Area), .databaseType text => ({ a with databaseType := some text } : Area)
  | area, (a : Area), .labelHorizontal label => ({ a with labelHorizontal := some label } : Area)
  | area, (a : Area), .labelVertical label => ({ a with labelVertical := some label } : Area)
  | area, (a : Area), .note text => ({ a with note := some text } : Area)
  | _, s, _ => s

/-- Changes of different fields can be made in either order. -/
theorem set_comm {l : ListKind} {x y : Change} (h : x.field ≠ y.field) (s : l.State) :
    l.set (l.set s x) y = l.set (l.set s y) x := by
  cases l <;> cases x <;> first
    | rfl
    | cases y <;> first | rfl | exact absurd rfl h

end ListKind

/-! ## What follows a key -/

/-- What has to follow a key in an entry, and the change that it says. -/
inductive AfterKey where
  /-- Nothing. -/
  | nothing (change : Change)
  /-- The keyword `null`. -/
  | null (change : Change)
  /-- The word `key`; the key is unknown without it. -/
  | key (change : Change)
  /-- A colon and a value. -/
  | text (change : String → Change)
  /-- A colon and a text in quotes. -/
  | string (change : String → Change)
  /-- A colon and a value that is checked. -/
  | checked (view : Token → Option Change) (expectation : String)
  /-- A colon and a default. -/
  | default

/-- Reads what has to follow a key. -/
def AfterKey.reader (l : ListKind) (s : l.State) (key : SettingKey) :
    AfterKey → Parser (Option l.State)
  | nothing change => return some (l.set s change)
  | null change => do
    let _ ← expect (.keyword .null)
    return some (l.set s change)
  | .key change => do
    if ← keyAhead then do
      let _ ← any
      return some (l.set s change)
    else return none
  | text change => do
    let text ← settingText
    return some (l.set s (change text))
  | string change => do
    let text ← settingString
    return some (l.set s (change text))
  | checked view expectation => do
    let change ← settingOf view expectation key
    return some (change.elim s (l.set s))
  | default => do
    let value ← settingDefault
    return some (l.set s (.default value))

/-- A colon and a number. -/
def AfterKey.number (change : Number → Change) : AfterKey :=
  .checked (fun t => (numberOf? t).map change) "expected a number"

/-- A colon and a color. -/
def AfterKey.color : AfterKey :=
  .checked (fun t => (Color.ofString? t.value).map .color) "expected #RGB or #RRGGBB"

namespace ListKind

/-- The keys of a project's settings: the field that each stands for, and what has to follow. -/
def projectKey? : String → Option (Field × AfterKey)
  | "databasetype" => some (.databaseType, .text .databaseType)
  | "note" => some (.note, .string .note)
  | _ => none

/-- The keys of a table's settings. -/
def tableKey? : String → Option (Field × AfterKey)
  | "alias" => some (.aliasName, .text .aliasName)
  | "posx" => some (.posX, .number .posX)
  | "posy" => some (.posY, .number .posY)
  | "color" | "headercolor" => some (.color, .color)
  | "note" => some (.note, .string .note)
  | _ => none

/-- The keys of a column's settings. -/
def columnKey? : String → Option (Field × AfterKey)
  | "pk" => some (.pk, .nothing .pk)
  | "primary" => some (.pk, .key .pk)
  | "fk" => some (.fk, .nothing .fk)
  | "unique" => some (.unique, .nothing .unique)
  | "not" => some (.notNull, .null (.notNull true))
  | "null" => some (.notNull, .nothing (.notNull false))
  | "increment" | "autoincrement" => some (.increment, .nothing .increment)
  | "default" => some (.default, .default)
  | "alias" => some (.aliasName, .text .aliasName)
  | "note" => some (.note, .string .note)
  | _ => none

/-- The keys of an index's settings. -/
def indexKey? : String → Option (Field × AfterKey)
  | "unique" => some (.unique, .nothing .unique)
  | "pk" => some (.pk, .nothing .pk)
  | "name" => some (.indexName, .text .indexName)
  | _ => none

/-- The keys of a reference's settings. -/
def referenceKey? : String → Option (Field × AfterKey)
  | "swapedge" =>
    some (.swapEdge, .checked (fun t => (flagOf? t).map .swapEdge) "expected true or false")
  | "note" => some (.note, .string .note)
  | _ => none

/-- The keys of an area's settings. -/
def areaKey? : String → Option (Field × AfterKey)
  | "posx" => some (.posX, .number .posX)
  | "posy" => some (.posY, .number .posY)
  | "width" => some (.width, .number .width)
  | "height" => some (.height, .number .height)
  | "color" => some (.color, .color)
  | "databasetype" => some (.databaseType, .text .databaseType)
  | "labelhorizontal" =>
    some (.labelHorizontal, .checked (fun t => (HorizontalLabel.ofWord? (Text.lower t.value)).map
      .labelHorizontal) "expected left, center or right")
  | "labelvertical" =>
    some (.labelVertical, .checked (fun t => (VerticalLabel.ofWord? (Text.lower t.value)).map
      .labelVertical) "expected top, center or bottom")
  | "note" => some (.note, .string .note)
  | _ => none

/-- The field that a key stands for and what has to follow the key, by the form of the key. -/
def meaning? : ListKind → String → Option (Field × AfterKey)
  | project => projectKey?
  | table => tableKey?
  | column => columnKey?
  | index => indexKey?
  | reference => referenceKey?
  | area => areaKey?

/-- The checks that there are, each with what it expects. -/
inductive IsCheck : (Token → Option Change) → String → Prop
  | number (change : Number → Change) :
    IsCheck (fun t => (numberOf? t).map change) "expected a number"
  | color (change : Color → Change) :
    IsCheck (fun t => (Color.ofString? t.value).map change) "expected #RGB or #RRGGBB"
  | flag (change : Bool → Change) :
    IsCheck (fun t => (flagOf? t).map change) "expected true or false"
  | horizontalLabel (change : HorizontalLabel → Change) :
    IsCheck (fun t => (HorizontalLabel.ofWord? (Text.lower t.value)).map change)
      "expected left, center or right"
  | verticalLabel (change : VerticalLabel → Change) :
    IsCheck (fun t => (VerticalLabel.ofWord? (Text.lower t.value)).map change)
      "expected top, center or bottom"

/-- A checked value of a key is checked by one of the known forms. -/
theorem isCheck_of_meaning? {l : ListKind} {form : String} {field : Field}
    {view : Token → Option Change} {expectation : String}
    (h : l.meaning? form = some (field, .checked view expectation)) : IsCheck view expectation := by
  cases l
  all_goals
    simp only [meaning?, projectKey?, tableKey?, columnKey?, indexKey?, referenceKey?, areaKey?]
      at h
    split at h <;> cases h <;> constructor

end ListKind

/-- A checked value that is read as a change. -/
theorem AfterKey.reader_checked {α : Type} (l : ListKind) {s : l.State} {key : SettingKey}
    {view : Token → Option α} {change : α → Change} {expectation : String}
    {g : Option α → l.State} (hg : ∀ a, (a.map change).elim s (l.set s) = g a) :
    (checked (fun t => (view t).map change) expectation).reader l s key =
      settingOf view expectation key >>= fun a => (Pure.pure (some (g a)) : Parser _) := by
  show (settingOf _ expectation key >>= fun a => _) = _
  unfold settingOf
  rw [bind_assoc, bind_assoc]
  refine congrArg (settingValue >>= ·) (funext fun t => ?_)
  cases hview : view t with
  | none => simp [← hg, hview]
  | some a => simp [← hg, hview]

/-- The functions that read what follows a key are the readers of the table's forms. -/
theorem ListKind.apply_eq (l : ListKind) (s : l.State) (key : SettingKey) :
    l.apply s key =
      match l.meaning? key.form with
      | some (_, after) => after.reader l s key
      | none => (Pure.pure none : Parser _) := by
  cases l with
  | project =>
    show projectSetting s key = _
    unfold projectSetting meaning?
    split
    case h_3 =>
      simp_all [projectKey?]
      rfl
    all_goals
      next h =>
      simp only [projectKey?, h]
      rfl
  | table =>
    show tableSetting s key = _
    unfold tableSetting meaning?
    split
    case h_7 =>
      simp_all [tableKey?]
      rfl
    all_goals
      next h =>
      simp only [tableKey?, h]
      first
        | rfl
        | exact (AfterKey.reader_checked .table (by rintro (_ | _) <;> rfl)).symm
  | column =>
    show columnSetting s key = _
    unfold columnSetting meaning?
    split
    case h_12 =>
      simp_all [columnKey?]
      rfl
    all_goals
      next h =>
      simp only [columnKey?, h]
      rfl
  | index =>
    show indexSetting s key = _
    unfold indexSetting meaning?
    split
    case h_4 =>
      simp_all [indexKey?]
      rfl
    all_goals
      next h =>
      simp only [indexKey?, h]
      rfl
  | reference =>
    show referenceSetting s key = _
    unfold referenceSetting meaning?
    split
    case h_3 =>
      simp_all [referenceKey?]
      rfl
    all_goals
      next h =>
      simp only [referenceKey?, h]
      first
        | rfl
        | exact (AfterKey.reader_checked .reference (by rintro (_ | _) <;> rfl)).symm
  | area =>
    show areaSetting s key = _
    unfold areaSetting meaning?
    split
    case h_10 =>
      simp_all [areaKey?]
      rfl
    all_goals
      next h =>
      simp only [areaKey?, h]
      first
        | rfl
        | exact (AfterKey.reader_checked .area (by rintro (_ | _) <;> rfl)).symm

/-- What the readers of the forms do, what follows any key does. -/
theorem ListKind.apply_of_reader {l : ListKind} {s : l.State} {key : SettingKey}
    {P : Parser (Option l.State) → Prop}
    (hreader : ∀ field after, l.meaning? key.form = some (field, after) → P (after.reader l s key))
    (hnone : P (Pure.pure none)) : P (l.apply s key) := by
  rw [l.apply_eq]
  split
  · next hform => exact hreader _ _ hform
  · exact hnone

end SchemaDiagram.Document
