import SchemaDiagram.Config.Toml.Table
import SchemaDiagram.Config.Toml.Word

/-!
# TOML documents

A document is a list of statements, each on a line of its own: headers of tables, and keys with
their values. Statements are read first and build the table of the document then.
-/

namespace SchemaDiagram.Toml

/-- Keys have fewer parts than this, and values lie inside fewer brackets and braces. -/
def depthLimit : Nat := 80

/-! ## Keys -/

/-- A character of a key without quotes. -/
def isKeyCharacter (c : Char) : Bool := c.isAlphanum || c == '_' || c == '-'

/-- A part of a key. -/
def keyPart (cs : List Char) : Option (List Char × Rest cs) :=
  match cs with
  | '"' :: cs => (oneLine .double cs).map fun (text, rest) => (text, rest.cons _)
  | '\'' :: cs => (oneLine .single cs).map fun (text, rest) => (text, rest.cons _)
  | cs =>
    let part := cs.takeWhile isKeyCharacter
    if h : 0 < part.length then
      some (part, ⟨cs.drop part.length, by
        have : part.length ≤ cs.length := (List.takeWhile_sublist _).length_le
        simp only [List.length_drop]; omega⟩)
    else none

/-- The parts of a key, with points between them and spaces around each. -/
def keyParts (cs : List Char) : Option (List String × Rest cs) := do
  let (part, behind) ← keyPart (skipSpaces cs)
  have := behind.2
  have := length_skipSpaces_le cs
  have hle := length_skipSpaces_le behind.1
  match hs : skipSpaces behind.1 with
  | '.' :: more =>
    have : more.length < behind.1.length := by rw [hs, List.length_cons] at hle; omega
    let (parts, rest) ← keyParts more
    return (String.ofList part :: parts, rest.within cs (by omega))
  | rest => return ([String.ofList part], ⟨rest, by rw [hs] at hle; omega⟩)
termination_by cs.length

/-- A key and the spaces around it. -/
def key (cs : List Char) : Option (Key × Rest cs) := do
  let (parts, rest) ← keyParts cs
  let name ← parts.getLast?
  if parts.length < depthLimit then return (⟨parts.dropLast, name⟩, rest) else none

/-- A key with a character behind it. -/
def keyBefore (mark : Char) (cs : List Char) : Option (Key × Rest cs) := do
  let (key, behind) ← key cs
  match h : behind.1 with
  | c :: _ => if c = mark then return (key, behind.next h) else none
  | [] => none

/-! ## Values -/

/-- A text without the spaces, line ends and comments in front of it; it can start inside a
comment. -/
def skipComments (inside : Bool) : List Char → List Char
  | [] => []
  | c :: cs =>
    if inside && isPrintable c || c == '#' then skipComments true cs
    else if isSpace c || c == '\n' then skipComments false cs
    else if c == '\r' && cs.head? == some '\n' then skipComments false cs
    else c :: cs

/-- Skipping blanks, line ends and comments leaves no more than there was. -/
theorem length_skipComments_le (inside : Bool) (cs : List Char) :
    (skipComments inside cs).length ≤ cs.length := by
  induction cs generalizing inside with
  | nil => exact Nat.le_refl _
  | cons c cs ih =>
    rw [skipComments]
    split
    · exact Nat.le_succ_of_le (ih true)
    · split
      · exact Nat.le_succ_of_le (ih false)
      · split
        · exact Nat.le_succ_of_le (ih false)
        · exact Nat.le_refl _

/-- What reads the values inside another value. -/
abbrev ValueReader := (cs : List Char) → Option (Value × Rest cs)

/-- The values of an array, from behind its bracket or a comma on. A comma may stand behind the last
one. -/
def elements (value : ValueReader) (cs : List Char) : Option (List Value × Rest cs) :=
  have hstart := length_skipComments_le false cs
  match h : skipComments false cs with
  | ']' :: rest => some ([], ⟨rest, by rw [h] at hstart; exact hstart⟩)
  | start => do
    have : start.length ≤ cs.length := by rw [h] at hstart; exact hstart
    let (v, behind) ← value start
    have := behind.2
    have hle := length_skipComments_le false behind.1
    match hs : skipComments false behind.1 with
    | ']' :: rest => return ([v], ⟨rest, by rw [hs, List.length_cons] at hle; omega⟩)
    | ',' :: more =>
      have : more.length < cs.length := by rw [hs, List.length_cons] at hle; omega
      let (vs, rest) ← elements value more
      return (v :: vs, rest.within cs (by omega))
    | _ => none
termination_by cs.length

/-- The fields of a table between braces, from behind its brace or a comma on; at least one is
there. -/
def members (value : ValueReader) (fields : Fields) (cs : List Char) :
    Option (Fields × Rest cs) := do
  let (key, start) ← keyBefore '=' cs
  have := start.2
  have := length_skipSpaces_le start.1
  let (v, behind) ← value (skipSpaces start.1)
  have := behind.2
  let fields ← fields.assign key v
  have hle := length_skipSpaces_le behind.1
  match hs : skipSpaces behind.1 with
  | '\x7d' :: rest => return (fields, ⟨rest, by rw [hs, List.length_cons] at hle; omega⟩)
  | ',' :: more =>
    have : more.length < cs.length := by rw [hs, List.length_cons] at hle; omega
    let (fields, rest) ← members value fields more
    return (fields, rest.within cs (by omega))
  | _ => none
termination_by cs.length

/-- A table between braces, from behind its brace on. -/
def braced (value : ValueReader) (cs : List Char) : Option (Value × Rest cs) :=
  have hle := length_skipSpaces_le cs
  match hs : skipSpaces cs with
  | '\x7d' :: rest => some (.table [], ⟨rest, by rw [hs] at hle; exact hle⟩)
  | _ => (members value [] cs).map fun (fields, rest) => (.table (closeFields fields), rest)

/-- A value inside which brackets and braces lie up to some depth. -/
def value : (depth : Nat) → ValueReader
  | _, [] => none
  | 0, c :: cs => plain c cs
  | depth + 1, c :: cs =>
    if c = '[' then (elements (value depth) cs).map fun (vs, rest) =>
      (.array vs, rest.cons c)
    else if c = '\x7b' then (braced (value depth) cs).map fun (v, rest) =>
      (v, rest.cons c)
    else plain c cs
where
  /-- A string or a word. -/
  plain (c : Char) (cs : List Char) : Option (Value × Rest (c :: cs)) :=
    let string (q : Quotes) : Option (Value × Rest (c :: cs)) :=
      (quoted q cs).map fun (text, rest) =>
        (.string (String.ofList text), rest.cons c)
    if c = '"' then string .double
    else if c = '\'' then string .single
    else word (c :: cs)

/-! ## Statements -/

/-- A statement of a document. -/
inductive Statement where
  /-- The header of a table. -/
  | table (key : Key)
  /-- The header of one more table in an array of tables. -/
  | element (key : Key)
  /-- A key and its value. -/
  | assignment (key : Key) (v : Value)
  deriving Repr

/-- A key and its value. -/
def assignment (cs : List Char) : Option (Statement × Rest cs) := do
  let (key, start) ← keyBefore '=' cs
  have := start.2
  have := length_skipSpaces_le start.1
  let (v, rest) ← value (depthLimit - 1) (skipSpaces start.1)
  return (.assignment key v, rest.within cs (by omega))

/-- A header from behind its first bracket on. -/
def header (cs : List Char) : Option (Statement × Rest cs) :=
  match cs with
  | '[' :: cs => do
    let (key, behind) ← keyBefore ']' cs
    match h : behind.1 with
    | ']' :: _ => return (.element key, (behind.next h).cons '[')
    | _ => none
  | cs => (keyBefore ']' cs).map fun (key, rest) => (.table key, rest)

/-- A statement. -/
def statement (cs : List Char) : Option (Statement × Rest cs) :=
  match cs with
  | '[' :: cs => (header cs).map fun (s, rest) => (s, rest.cons _)
  | cs => assignment cs

/-- Whether there is nothing more on a line but a comment. -/
def isLineEnd (cs : List Char) : Bool :=
  match skipSpaces cs with
  | [] | '#' :: _ => true
  | cs => (behindLine? cs).isSome

/-- The statements of a text, each on a line of its own. -/
def statements (cs : List Char) : Option (List Statement) :=
  have hle := length_skipComments_le false cs
  match h : skipComments false cs with
  | [] => some []
  | start => do
    have : start.length ≤ cs.length := by rw [h] at hle; exact hle
    let (s, rest) ← statement start
    have := rest.2
    if isLineEnd rest.1 then return s :: (← statements rest.1) else none
termination_by cs.length

/-! ## Documents -/

/-- A document that is being built and the table that the next key stands in. -/
structure Draft where
  /-- The fields of the document. -/
  fields : Fields
  /-- The names that lead to the current table. -/
  current : List String

/-- Carries out a statement. -/
def Draft.step (d : Draft) : Statement → Option Draft
  | .table key => do return ⟨← d.fields.openTable key, key.path ++ [key.name]⟩
  | .element key => do return ⟨← d.fields.pushTable key, key.path ++ [key.name]⟩
  | .assignment key v => do
    return ⟨← d.fields.update (fun inner => inner.assign key v) d.current, d.current⟩

/-- A document: the values of its keys. -/
abbrev Document := List (String × Value)

/-- The document that statements define. -/
def Document.ofStatements? (ss : List Statement) : Option Document :=
  (ss.foldlM Draft.step ⟨[], []⟩).map fun d => closeFields d.fields

/-- The text without the mark that may stand in front of it. -/
def withoutMark (text : String) : List Char :=
  match text.toList with
  | '\ufeff' :: cs => cs
  | cs => cs

/-- The document of a text. -/
def Document.ofString? (text : String) : Option Document :=
  (statements (withoutMark text)).bind Document.ofStatements?

end SchemaDiagram.Toml
