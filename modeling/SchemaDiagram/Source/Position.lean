/-!
# Places in a text

A position is found by walking over the characters before it: a line feed starts a line, every other
character takes one column, and the offset grows by the bytes of the character's UTF-8 form.

Main statements: `Position.advance_append`, walking over two texts is walking over one after the
other, and `Position.offset_advance`, the offset counts bytes.
-/

namespace SchemaDiagram

/-- A place between two characters of a text. -/
structure Position where
  /-- The line, counted from 1. -/
  line : Nat
  /-- The character in its line, counted from 1. -/
  column : Nat
  /-- The bytes before the place. -/
  offset : Nat
  deriving DecidableEq, Repr, Inhabited

namespace Position

/-- The place before the first character. -/
def start : Position := ⟨1, 1, 0⟩

/-- The place after one more character. -/
def next (p : Position) (c : Char) : Position :=
  if c = '\n' then ⟨p.line + 1, 1, p.offset + c.utf8Size⟩
  else ⟨p.line, p.column + 1, p.offset + c.utf8Size⟩

/-- The place after a run of characters. -/
def advance (p : Position) (cs : List Char) : Position := cs.foldl next p

/-- The text of a position in a message. -/
def text (p : Position) : String := s!"line {p.line}, column {p.column}"

/-- The order of positions: by line, then by column, then by offset. -/
def compare (p q : Position) : Ordering :=
  (Ord.compare p.line q.line).then
    ((Ord.compare p.column q.column).then (Ord.compare p.offset q.offset))

/-- Walking over no characters goes nowhere. -/
@[simp] theorem advance_nil (p : Position) : p.advance [] = p := rfl

/-- Walking over characters is walking over the first one and then over the others. -/
@[simp] theorem advance_cons (p : Position) (c : Char) (cs : List Char) :
    p.advance (c :: cs) = (p.next c).advance cs := rfl

/-- Walking over two texts is walking over one after the other. -/
theorem advance_append (p : Position) (xs ys : List Char) :
    p.advance (xs ++ ys) = (p.advance xs).advance ys := by
  simp [advance]

/-- The offset counts the bytes that were walked over. -/
theorem offset_advance (p : Position) (cs : List Char) :
    (p.advance cs).offset = p.offset + (String.ofList cs).utf8ByteSize := by
  induction cs generalizing p with
  | nil => simp
  | cons c cs ih =>
    have hnext : (p.next c).offset = p.offset + c.utf8Size := by
      unfold next; split <;> rfl
    rw [advance_cons, ih, hnext, String.ofList_cons, String.utf8ByteSize_append,
      String.utf8ByteSize_singleton, Nat.add_assoc]

end Position

/-- A range of a text, from its first character to just after its last one. -/
structure Span where
  /-- Where the range starts. -/
  start : Position
  /-- Where the range ends; the character there is no longer part of it. -/
  stop : Position
  deriving DecidableEq, Repr, Inhabited

namespace Span

/-- The empty range at a position. -/
def point (p : Position) : Span := ⟨p, p⟩

/-- The range from the start of one span to the end of another. -/
def through (s t : Span) : Span := ⟨s.start, t.stop⟩

/-- The length in bytes, zero if the range ends before it starts. -/
def length (s : Span) : Nat := s.stop.offset - s.start.offset

/-- A range without a byte. -/
def isEmpty (s : Span) : Bool := s.length == 0

/-- The text of a span in a message. -/
def text (s : Span) : String :=
  s!"{s.start.line}:{s.start.column}..{s.stop.line}:{s.stop.column}"

end Span

end SchemaDiagram
