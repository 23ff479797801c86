import SchemaDiagram.Source.Position

/-!
# Looking up places

The place at an offset can be looked up without walking over all of the text in front of it. A line
index knows where the lines start. The line is found by halving the list of starts, and only the
characters of that line are counted. There is no place at an offset inside a character or behind the
end of the text.
-/

namespace SchemaDiagram

/-- Where the front of an array ends whose elements pass a test, if none behind it does. It is
looked for from `first` to `last`, and one half of that is left after each test. -/
def partitionPoint {α : Type} (test : α → Bool) (xs : Array α) (first last : Nat)
    (h : last ≤ xs.size) : Nat :=
  if _ : first < last then
    let middle := first + (last - first) / 2
    if test xs[middle] then partitionPoint test xs (middle + 1) last h
    else partitionPoint test xs first middle (by omega)
  else first
termination_by last - first

/-- The text between two offsets. There is none if an offset is inside a character or behind the
end, or if the first one is greater. -/
def textBetween? (source : String) (first last : Nat) : Option String := do
  let start ← source.pos? ⟨first⟩
  let stop ← source.pos? ⟨last⟩
  return (← source.slice? start stop).copy

/-- A text and the offsets at which its lines start. -/
structure LineIndex where
  /-- The text. -/
  source : String
  /-- The offsets of the lines. -/
  starts : Array Nat
  deriving DecidableEq, Repr

namespace LineIndex

/-- The offsets just behind the line feeds of a text that stands at an offset. -/
def behindNewlines (offset : Nat) : List Char → List Nat
  | [] => []
  | c :: cs =>
    if c = '\n' then (offset + 1) :: behindNewlines (offset + c.utf8Size) cs
    else behindNewlines (offset + c.utf8Size) cs

/-- The line index of a text. -/
def ofText (source : String) : LineIndex := ⟨source, (0 :: behindNewlines 0 source.toList).toArray⟩

/-- The place at an offset. There is none in front of the first line start. -/
def position? (index : LineIndex) (offset : Nat) : Option Position :=
  match partitionPoint (fun start => start ≤ offset) index.starts 0 index.starts.size
    (Nat.le_refl _) with
  | 0 => none
  | linesBefore + 1 => do
    let lineStart ← index.starts[linesBefore]?
    let text ← textBetween? index.source lineStart offset
    return ⟨linesBefore + 1, text.length + 1, offset⟩

/-- The range between two offsets. -/
def span? (index : LineIndex) (first last : Nat) : Option Span := do
  return ⟨← index.position? first, ← index.position? last⟩

end LineIndex

end SchemaDiagram
