/-!
# Quoted texts

A quoted text stands between two equal quotes. Inside it a backslash, the quote itself, a line
feed, a tab and a carriage return are written with a backslash in front. Reading knows these
escapes for all three quotes, and keeps the backslash of any other.

Main statement: `unescape_escape`, reading undoes writing, for each of the three quotes.
-/

namespace SchemaDiagram.Text

/-- The three characters that open and close a quoted text. -/
inductive Quote where
  /-- `"` -/
  | double
  /-- `'` -/
  | single
  /-- The backtick, for expressions. -/
  | backtick
  deriving DecidableEq, Repr

namespace Quote

/-- The character of a quote. -/
def char : Quote → Char
  | double => '"'
  | single => '\''
  | backtick => '\x60'

/-- The quote that a character opens, if it opens one. -/
def ofChar? (c : Char) : Option Quote :=
  if c = '"' then some double
  else if c = '\'' then some single
  else if c = '\x60' then some backtick
  else none

/-- The character of a quote opens that quote. -/
@[simp] theorem ofChar?_char (q : Quote) : ofChar? q.char = some q := by
  cases q <;> rfl

/-- A character opens a quote exactly if it is the character of that quote. -/
theorem ofChar?_eq_some_iff {c : Char} {q : Quote} : ofChar? c = some q ↔ c = q.char := by
  constructor
  · intro h
    unfold ofChar? at h
    split at h
    · cases h; assumption
    split at h
    · cases h; assumption
    split at h
    · cases h; assumption
    · cases h
  · rintro rfl
    exact ofChar?_char q

end Quote

/-- The body of a quoted text: what needs an escape gets one. -/
def escape (q : Quote) : List Char → List Char
  | [] => []
  | c :: rest =>
    if c = '\\' then '\\' :: '\\' :: escape q rest
    else if c = '\n' then '\\' :: 'n' :: escape q rest
    else if c = '\t' then '\\' :: 't' :: escape q rest
    else if c = '\r' then '\\' :: 'r' :: escape q rest
    else if c = q.char then '\\' :: c :: escape q rest
    else c :: escape q rest

/-- The character that a backslash and `c` stand for, if they stand for one. -/
def escaped? (c : Char) : Option Char :=
  if c = 'n' then some '\n'
  else if c = 't' then some '\t'
  else if c = 'r' then some '\r'
  else if c = '\\' || c = '"' || c = '\'' || c = '\x60' then some c
  else none

/-- Resolves the escapes of a quoted text's body. A backslash that starts no escape stays. -/
def unescape : List Char → List Char
  | [] => []
  | '\\' :: c :: rest =>
    match escaped? c with
    | some d => d :: unescape rest
    | none => '\\' :: c :: unescape rest
  | c :: rest => c :: unescape rest

/-- Reading the body of a quoted text undoes writing it. -/
@[simp] theorem unescape_escape (q : Quote) (s : List Char) : unescape (escape q s) = s := by
  induction s with
  | nil => rfl
  | cons c rest ih =>
    unfold escape
    split
    · next h => subst h; simp [unescape, escaped?, ih]
    split
    · next h => subst h; simp [unescape, escaped?, ih]
    split
    · next h => subst h; simp [unescape, escaped?, ih]
    split
    · next h => subst h; simp [unescape, escaped?, ih]
    split
    · next h => subst h; cases q <;> simp [unescape, escaped?, ih, Quote.char]
    · next h _ _ _ _ => simp [unescape, h, ih]

/-- A text between two quotes. -/
def quoted (q : Quote) (s : String) : String :=
  String.ofList (q.char :: (escape q s.toList ++ [q.char]))

/-- The text that a quoted text stands for: the two quotes go, and the escapes are resolved. -/
def unquoted (s : String) : String := String.ofList (unescape s.toList.tail.dropLast)

/-- Reading a quoted text gives back what was quoted. -/
@[simp] theorem unquoted_quoted (q : Quote) (s : String) : unquoted (quoted q s) = s := by
  simp [unquoted, quoted]

end SchemaDiagram.Text
