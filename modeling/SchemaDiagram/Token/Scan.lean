import SchemaDiagram.Diagram.Appearance
import SchemaDiagram.Source.Error
import SchemaDiagram.Token.Lexeme

/-!
# Tokens of a document

A document is cut into its longest lexemes from the front, by the rule of generated lexers (logos):
the longest match wins, and the first place where no pattern matches is an error. Skipped lexemes
leave nothing, every other one is a token with its place, and one more token marks the end of the
document. A `#` literal that is not a color ends the reading with an error as well.
-/

namespace SchemaDiagram

namespace SourceError

/-- How many characters an error shows of the text at the bad place. -/
def contextLength : Nat := 20

/-- The text shown with an error: the rest of the line, cut off if it is long. -/
def contextOf (cs : List Char) : String :=
  String.ofList ((cs.takeWhile (· ≠ '\n')).take contextLength)

/-- The error for a place where no lexeme starts. -/
def atNoLexeme (p : Position) (c : Char) (cs : List Char) : SourceError :=
  match Text.Quote.ofChar? c with
  | some _ => unterminatedString c p (contextOf (c :: cs))
  | none => unexpectedCharacter c p (contextOf (c :: cs))

end SourceError

namespace Token

/-- The token that ends a document. -/
def endAt (p : Position) : Token := ⟨.endOfInput, .point p, ""⟩

/-- The tokens of the text that follows a position. -/
def scanFrom (p : Position) (cs : List Char) : Except SourceError (List Token) :=
  match _scanned : Lexeme.scan cs with
  | some lexeme =>
    let after := p.advance lexeme.text
    match lexeme.kind? with
    | none => scanFrom after lexeme.rest
    | some kind =>
      if kind = .color ∧ ¬ Color.IsLiteral lexeme.text then
        .error (.invalidColor (String.ofList lexeme.text) p (SourceError.contextOf cs))
      else do
        let others ← scanFrom after lexeme.rest
        return ⟨kind, ⟨p, after⟩, String.ofList lexeme.text⟩ :: others
  | none =>
    match cs with
    | [] => .ok [endAt p]
    | c :: others => .error (.atNoLexeme p c others)
termination_by cs.length
decreasing_by all_goals exact Lexeme.length_rest_lt _scanned

/-- The tokens of a document, line comments among them, and the token that ends it. -/
def scan (source : String) : Except SourceError (List Token) := scanFrom .start source.toList

end Token

end SchemaDiagram
