import SchemaDiagram.Source.Position

/-!
# What can be wrong with a document

A source error ends the reading of a document. A diagnostic tells of a construct that was left out,
or of a setting that was ignored, while the rest of the document was read.
-/

namespace SchemaDiagram

/-- A reason why a document cannot be read at all. The lexical ones show the text that starts at
the bad place. -/
inductive SourceError where
  /-- A quoted text without a closing quote. -/
  | unterminatedString (quote : Char) (position : Position) (context : String)
  /-- A character that starts no token. -/
  | unexpectedCharacter (character : Char) (position : Position) (context : String)
  /-- A `#` literal that is not a color. -/
  | invalidColor (literal : String) (position : Position) (context : String)
  /-- A document over the size limit; both sizes are in bytes. -/
  | tooLarge (size limit : Nat)
  deriving DecidableEq, Repr

namespace SourceError

/-- Where the error is, if it is at a place. -/
def position? : SourceError → Option Position
  | unterminatedString _ p _ => some p
  | unexpectedCharacter _ p _ => some p
  | invalidColor _ p _ => some p
  | tooLarge _ _ => none

/-- The message of an error. -/
def message : SourceError → String
  | unterminatedString quote p context =>
    s!"{p.text}: unterminated string starting with {quote} near \x60{context}\x60"
  | unexpectedCharacter character p context =>
    s!"{p.text}: unexpected character '{character}' near \x60{context}\x60"
  | invalidColor literal p context =>
    s!"{p.text}: invalid color '{literal}': expected #RGB or #RRGGBB near \x60{context}\x60"
  | tooLarge size limit => s!"input is {size} bytes, exceeding the limit of {limit} bytes"

end SourceError

/-- A problem that reading recovered from. -/
inductive Diagnostic where
  /-- A token that cannot stand where it does. -/
  | unexpectedToken (expected found : String) (span : Span)
  /-- The document ended inside a construct. -/
  | unexpectedEnd (expected : String) (span : Span)
  /-- A block that was still open when the document ended or another construct began. The span
  covers the opening of the block. -/
  | unclosedBlock (construct name : String) (span : Span)
  /-- A setting with a value it cannot take. -/
  | invalidValue (key value reason : String) (span : Span)
  deriving DecidableEq, Repr

namespace Diagnostic

/-- The range that a diagnostic is about. -/
def span : Diagnostic → Span
  | unexpectedToken _ _ s => s
  | unexpectedEnd _ s => s
  | unclosedBlock _ _ s => s
  | invalidValue _ _ _ s => s

/-- Where the range of a diagnostic starts. -/
def position (d : Diagnostic) : Position := d.span.start

/-- The message without its place. -/
def summary : Diagnostic → String
  | unexpectedToken expected found _ => s!"unexpected token: expected {expected}, found {found}"
  | unexpectedEnd expected _ => s!"unexpected end of input: expected {expected}"
  | unclosedBlock construct name _ => s!"{construct} '{name}' is missing its closing '\x7d'"
  | invalidValue key value reason _ => s!"invalid value '{value}' for {key}: {reason}"

/-- The message of a diagnostic. -/
def message (d : Diagnostic) : String := s!"{d.position.text}: {d.summary}"

end Diagnostic

end SchemaDiagram
