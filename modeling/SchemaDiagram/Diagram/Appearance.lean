import SchemaDiagram.Number.Format
import SchemaDiagram.Text.Letters

/-!
# Colors, labels and places on the canvas

Values that say how a table or an area is drawn. Each is read from a text that a document or a
diagram file holds; a text that is no such value is refused with a reason.
-/

namespace SchemaDiagram

/-- Why a text is not a value of the model. -/
inductive ValueError where
  /-- Not a color. -/
  | invalidColor (text : String)
  /-- Not a horizontal label placement. -/
  | invalidHorizontalLabel (text : String)
  /-- Not a vertical label placement. -/
  | invalidVerticalLabel (text : String)
  /-- Not the symbol of a relationship. -/
  | invalidRelationshipSymbol (text : String)
  deriving DecidableEq, Repr

/-- The message of a refused value. -/
def ValueError.message : ValueError → String
  | invalidColor text => s!"invalid color '{text}': must be #RGB or #RRGGBB"
  | invalidHorizontalLabel text =>
    s!"invalid horizontal label alignment '{text}': must be left, center or right"
  | invalidVerticalLabel text =>
    s!"invalid vertical label alignment '{text}': must be top, center or bottom"
  | invalidRelationshipSymbol text =>
    s!"invalid relationship symbol '{text}': must be one of >, <, -, <>, ~"

/-! ## Colors -/

/-- A color literal is `#` and three or six hexadecimal digits. -/
def Color.IsLiteral (cs : List Char) : Prop :=
  ∃ digits, cs = '#' :: digits ∧ (digits.length = 3 ∨ digits.length = 6) ∧
    ∀ d ∈ digits, Text.isHexDigit d = true

instance : DecidablePred Color.IsLiteral
  | [] => isFalse (by rintro ⟨_, h, _⟩; cases h)
  | c :: digits =>
    if h : c = '#' ∧ (digits.length = 3 ∨ digits.length = 6) ∧
        digits.all Text.isHexDigit = true then
      isTrue ⟨digits, by rw [h.1], h.2.1, List.all_eq_true.1 h.2.2⟩
    else isFalse (by
      rintro ⟨_, he, hlength, hd⟩
      cases he
      exact h ⟨rfl, hlength, List.all_eq_true.2 hd⟩)

/-- A color, in the spelling in which it was given. -/
structure Color where
  /-- The color literal. -/
  text : String
  /-- The text is a color literal. -/
  isLiteral : Color.IsLiteral text.toList
  deriving DecidableEq

namespace Color

instance : Repr Color := ⟨fun c _ => repr c.text⟩

/-- The color that a text spells, if it spells one. -/
def ofString? (text : String) : Option Color :=
  if h : IsLiteral text.toList then some ⟨text, h⟩ else none

/-- Reads a color. -/
def ofString (text : String) : Except ValueError Color :=
  match ofString? text with
  | some color => .ok color
  | none => .error (.invalidColor text)

/-- A color is read back from its text. -/
@[simp] theorem ofString?_text (c : Color) : ofString? c.text = some c := dif_pos c.isLiteral

end Color

/-! ## Labels -/

/-- The horizontal place of an area's label. -/
inductive HorizontalLabel where
  | left | center | right
  deriving DecidableEq, Repr

namespace HorizontalLabel

/-- Every horizontal place. -/
def all : List HorizontalLabel := [left, center, right]

/-- The word for a horizontal place. -/
def word : HorizontalLabel → String
  | left => "left"
  | center => "center"
  | right => "right"

/-- The place with a given word, spelled in small letters. -/
def ofWord? (word : String) : Option HorizontalLabel := all.find? fun label => label.word == word

/-- Reads a horizontal place in any case. -/
def ofString (text : String) : Except ValueError HorizontalLabel :=
  match ofWord? (Text.lower text) with
  | some label => .ok label
  | none => .error (.invalidHorizontalLabel text)

end HorizontalLabel

/-- The vertical place of an area's label. -/
inductive VerticalLabel where
  | top | center | bottom
  deriving DecidableEq, Repr

namespace VerticalLabel

/-- Every vertical place. -/
def all : List VerticalLabel := [top, center, bottom]

/-- The word for a vertical place. -/
def word : VerticalLabel → String
  | top => "top"
  | center => "center"
  | bottom => "bottom"

/-- The place with a given word, spelled in small letters. -/
def ofWord? (word : String) : Option VerticalLabel := all.find? fun label => label.word == word

/-- Reads a vertical place in any case. -/
def ofString (text : String) : Except ValueError VerticalLabel :=
  match ofWord? (Text.lower text) with
  | some label => .ok label
  | none => .error (.invalidVerticalLabel text)

end VerticalLabel

/-! ## Places on the canvas -/

/-- A point of the canvas. -/
structure Point where
  /-- The horizontal coordinate. -/
  x : Number
  /-- The vertical coordinate. -/
  y : Number
  deriving DecidableEq, BEq, Repr, Inhabited

namespace Point

/-- The point that two coordinates fix. It exists once one of them is given; the other is zero. -/
def ofCoordinates? (x y : Option Number) : Option Point :=
  if x.isNone && y.isNone then none else some ⟨x.getD .zero, y.getD .zero⟩

/-- Both coordinates are finite. -/
def isFinite (p : Point) : Bool := p.x.isFinite && p.y.isFinite

end Point

end SchemaDiagram
