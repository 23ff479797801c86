import SchemaDiagram.Source.Position
import SchemaDiagram.Text.Letters
import SchemaDiagram.Text.Quoted

/-!
# Tokens

The words, marks and literals that a document is made of. Keywords are reserved only where they
give structure: all but the four that open a construct may be names as well.
-/

namespace SchemaDiagram

/-- The words with a meaning of their own. -/
inductive Keyword where
  | project | table | area | ref
  | note | indexes | commonColumns
  | pk | fk | unique | not | null | increment | default
  deriving DecidableEq, Repr

namespace Keyword

/-- Every keyword. -/
def all : List Keyword :=
  [project, table, area, ref, note, indexes, commonColumns,
    pk, fk, unique, not, null, increment, default]

/-- The spellings of a keyword in small letters. -/
def spellings : Keyword → List String
  | project => ["project"]
  | table => ["table"]
  | area => ["area"]
  | ref => ["ref"]
  | note => ["note"]
  | indexes => ["indexes"]
  | commonColumns => ["commoncolumns", "common_columns"]
  | pk => ["pk"]
  | fk => ["fk"]
  | unique => ["unique"]
  | not => ["not"]
  | null => ["null"]
  | increment => ["increment"]
  | default => ["default"]

/-- The keyword that a word spells in any case, if it spells one. -/
def ofWord? (word : String) : Option Keyword :=
  all.find? fun k => k.spellings.any (Text.spelledAlike word)

/-- The keywords that open a construct of the document. -/
def opensConstruct : Keyword → Bool
  | project | table | area | ref => true
  | _ => false

/-- How messages name a keyword. -/
def description : Keyword → String
  | project => "'Project'"
  | table => "'Table'"
  | area => "'Area'"
  | ref => "'Ref'"
  | note => "'Note'"
  | indexes => "'indexes'"
  | commonColumns => "'CommonColumns'"
  | pk => "'pk'"
  | fk => "'fk'"
  | unique => "'unique'"
  | not => "'not'"
  | null => "'null'"
  | increment => "'increment'"
  | default => "'default'"

end Keyword

/-- The punctuation marks. -/
inductive Mark where
  | leftBrace | rightBrace | leftBracket | rightBracket | leftParen | rightParen
  | colon | comma | dot
  | greater | less | lessGreater | minus | tilde
  deriving DecidableEq, Repr

namespace Mark

/-- Every punctuation mark. -/
def all : List Mark :=
  [leftBrace, rightBrace, leftBracket, rightBracket, leftParen, rightParen, colon, comma, dot,
    greater, less, lessGreater, minus, tilde]

/-- The characters of a mark. -/
def chars : Mark → List Char
  | leftBrace => ['{']
  | rightBrace => ['}']
  | leftBracket => ['[']
  | rightBracket => [']']
  | leftParen => ['(']
  | rightParen => [')']
  | colon => [':']
  | comma => [',']
  | dot => ['.']
  | greater => ['>']
  | less => ['<']
  | lessGreater => ['<', '>']
  | minus => ['-']
  | tilde => ['~']

/-- How messages name a mark. -/
def description (m : Mark) : String := String.ofList ('\'' :: (m.chars ++ ['\'']))

end Mark

/-- What a token is. -/
inductive TokenKind where
  /-- A keyword, in any case. -/
  | keyword (k : Keyword)
  /-- A punctuation mark. -/
  | mark (m : Mark)
  /-- A text in quotes; one in backticks is an expression. -/
  | string (q : Text.Quote)
  /-- A decimal numeral. -/
  | number
  /-- A `#` literal. -/
  | color
  /-- A comment that runs to the end of its line. -/
  | comment
  /-- A word that is no keyword. -/
  | identifier
  /-- The end of the document. -/
  | endOfInput
  deriving DecidableEq, Repr

namespace TokenKind

/-- How messages name a kind of token. -/
def description : TokenKind → String
  | keyword k => k.description
  | mark m => m.description
  | string .backtick => "expression literal"
  | string _ => "string literal"
  | number => "number"
  | color => "color literal"
  | comment => "comment"
  | identifier => "identifier"
  | endOfInput => "end of input"

/-- A keyword that opens a construct. Such a token is never a name. -/
def opensConstruct : TokenKind → Bool
  | keyword k => k.opensConstruct
  | _ => false

/-- A token that can name a table, a column or an area. -/
def isName : TokenKind → Bool
  | identifier => true
  | string q => q != .backtick
  | keyword k => !k.opensConstruct
  | _ => false

/-- A text in quotes. -/
def isString : TokenKind → Bool
  | string _ => true
  | _ => false

end TokenKind

/-- A token of a document. -/
structure Token where
  /-- What the token is. -/
  kind : TokenKind
  /-- Where the token stands. -/
  span : Span
  /-- The characters of the token as they stand in the document. -/
  text : String
  deriving DecidableEq, Repr

namespace Token

/-- The value of a token: quoted texts lose their quotes and escapes, everything else stays. -/
def value (t : Token) : String := if t.kind.isString then Text.unquoted t.text else t.text

/-- How messages describe a token that was found. -/
def found (t : Token) : String := s!"{t.kind.description} ('{t.text}')"

/-- An identifier that spells a word in any case. -/
def isWord (t : Token) (word : String) : Bool :=
  t.kind == .identifier && Text.spelledAlike t.text word

end Token

end SchemaDiagram
