import SchemaDiagram.Json.Basic
import SchemaDiagram.Source.Error

/-!
# Reports

A report shows a problem at its place in the source text: a message, a label for the marked range,
and often some help. The marked range lies within the text.
-/

namespace SchemaDiagram

/-- A problem prepared for showing it in its source text. -/
structure Report where
  /-- The name of the file. -/
  file : String
  /-- What is wrong. -/
  message : String
  /-- What the marked range is. -/
  label : String
  /-- The first marked byte. -/
  offset : Nat
  /-- The number of marked bytes. -/
  length : Nat
  /-- What can be done. -/
  help : Option String
  deriving DecidableEq, Repr

namespace Report

/-- The bytes of the character that starts at an offset, zero at the end of a text. -/
def sizeAt (offset : Nat) : List Char → Nat
  | [] => 0
  | c :: cs => if offset = 0 then c.utf8Size else sizeAt (offset - c.utf8Size) cs

/-- The part of a range of bytes that lies within a source text, as an offset and a length. -/
def clamp (offset length : Nat) (source : String) : Nat × Nat :=
  let start := min offset source.utf8ByteSize
  (start, min length (source.utf8ByteSize - start))

/-- The character at a position, or nothing at the end of the text. -/
def characterAt (p : Position) (source : String) : Nat × Nat :=
  let start := min p.offset source.utf8ByteSize
  (start, sizeAt start source.toList)

/-- The report of a diagnostic. -/
def ofDiagnostic (d : Diagnostic) (source file : String) : Report :=
  let (offset, length) := clamp d.span.start.offset d.span.length source
  match d with
  | .unexpectedToken expected _ _ =>
    ⟨file, d.summary, s!"expected {expected}", offset, length,
      some "This construct was skipped; the rest of the file was kept."⟩
  | .unexpectedEnd expected _ =>
    ⟨file, d.summary, "input ended here", offset, length,
      some s!"Add {expected} to complete the definition."⟩
  | .unclosedBlock .. =>
    ⟨file, d.summary, "block opened here", offset, length,
      some "Close the block with '\x7d' before the next declaration."⟩
  | .invalidValue key value reason _ =>
    ⟨file, s!"invalid value '{value}' for {key}", reason, offset, length,
      some s!"The {key} setting was ignored."⟩

/-- The report of an error that ended the reading. -/
def ofSourceError (e : SourceError) (source file : String) : Report :=
  match e with
  | .unterminatedString quote p _ =>
    let (offset, length) := characterAt p source
    ⟨file, s!"unterminated string starting with {quote}", "string starts here", offset, length,
      some s!"Add a closing {quote}."⟩
  | .unexpectedCharacter character p _ =>
    let (offset, length) := characterAt p source
    ⟨file, s!"unexpected character '{character}'", "not part of any token", offset, length,
      some "Quote the name if it contains special characters."⟩
  | .invalidColor literal p _ =>
    let (offset, length) := clamp p.offset literal.utf8ByteSize source
    ⟨file, s!"invalid color '{literal}'", "expected #RGB or #RRGGBB", offset, length, none⟩
  | .tooLarge .. => ⟨file, e.message, "error", 0, 0, none⟩

/-- The JSON form of a report, its fields sorted by name. -/
def toJson (r : Report) : Json :=
  .object [("file", .string r.file), ("help", .ofString? r.help), ("label", .string r.label),
    ("length", .count r.length), ("message", .string r.message), ("offset", .count r.offset)]

end Report

end SchemaDiagram
