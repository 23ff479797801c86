import SchemaDiagram.Text.Letters

/-!
# TOML strings

Strings stand between double quotes, where a backslash escapes what is behind it, or between single
quotes, where it does not. Three quotes instead of one enclose a text of several lines.

A reader takes a text from where something starts and answers what it has read and what is behind
it, which is always shorter.
-/

namespace SchemaDiagram.Toml

/-- What is behind something that was read from a text. -/
abbrev Rest (cs : List Char) := { rest : List Char // rest.length < cs.length }

namespace Rest

/-- What is behind the first character. -/
def tail (c : Char) (cs : List Char) : Rest (c :: cs) := ⟨cs, Nat.lt_succ_self _⟩

/-- What is behind something is also behind it if one more character stands in front. -/
def cons {cs : List Char} (rest : Rest cs) (c : Char) : Rest (c :: cs) :=
  ⟨rest.1, Nat.lt_succ_of_lt rest.2⟩

/-- What is behind something in a part of a text is also behind it in the whole text. -/
def within {cs : List Char} (rest : Rest cs) (ds : List Char) (h : cs.length ≤ ds.length) :
    Rest ds :=
  ⟨rest.1, Nat.lt_of_lt_of_le rest.2 h⟩

/-- What is behind the next character as well. -/
def next {cs more : List Char} {c : Char} (rest : Rest cs) (h : rest.1 = c :: more) : Rest cs :=
  ⟨more, Nat.lt_of_succ_lt (h ▸ rest.2 : (c :: more).length < cs.length)⟩

end Rest

/-! ## Blanks -/

/-- Spaces and tabs may stand between the parts of a line. -/
def isSpace (c : Char) : Bool := c == ' ' || c == '\t'

/-- Whether a character may stand in a comment or a string as it is: all but control characters
other than the tab. -/
def isPrintable (c : Char) : Bool := c == '\t' || (' ' ≤ c && c != '\x7f')

/-- A text without the spaces in front of it. -/
def skipSpaces (cs : List Char) : List Char := cs.dropWhile isSpace

/-- The text behind the end of a line: a line feed, with or without a carriage return before it. -/
def behindLine? : List Char → Option (List Char)
  | '\n' :: cs => some cs
  | '\r' :: '\n' :: cs => some cs
  | _ => none

/-- A text without the spaces and line ends in front of it. -/
def skipBlanks : List Char → List Char
  | [] => []
  | c :: cs =>
    if isSpace c || c == '\n' then skipBlanks cs
    else if c == '\r' && cs.head? == some '\n' then skipBlanks cs
    else c :: cs

/-- Skipping spaces leaves no more than there was. -/
theorem length_skipSpaces_le (cs : List Char) : (skipSpaces cs).length ≤ cs.length :=
  (List.dropWhile_sublist _).length_le

/-- What follows a line end is shorter than what had it. -/
theorem length_of_behindLine? {cs rest : List Char} (h : behindLine? cs = some rest) :
    rest.length < cs.length := by
  unfold behindLine? at h
  split at h
  · obtain rfl := Option.some.inj h
    exact Nat.lt_succ_self _
  · obtain rfl := Option.some.inj h
    simp only [List.length_cons]
    omega
  · contradiction

/-- Skipping blanks and line ends leaves no more than there was. -/
theorem length_skipBlanks_le (cs : List Char) : (skipBlanks cs).length ≤ cs.length := by
  induction cs with
  | nil => simp [skipBlanks]
  | cons c cs ih =>
    rw [skipBlanks]
    split
    · simp only [List.length_cons]; omega
    · split
      · simp only [List.length_cons]; omega
      · exact Nat.le_refl _

/-! ## Escapes -/

/-- The value of a hexadecimal digit. -/
def hexValue (c : Char) : Nat :=
  if c.isDigit then c.toNat - '0'.toNat else c.toLower.toNat - 'a'.toNat + 10

/-- The character whose code some hexadecimal digits spell. -/
def codePoint? (cs : List Char) : Option Char :=
  let code := cs.foldl (fun n c => 16 * n + hexValue c) 0
  if cs.all Text.isHexDigit ∧ code.isValidChar then some (Char.ofNat code) else none

/-- The character that a letter behind a backslash stands for. -/
def escaped? : Char → Option Char
  | 'b' => some '\x08'
  | 't' => some '\t'
  | 'n' => some '\n'
  | 'f' => some '\x0c'
  | 'r' => some '\r'
  | '"' => some '"'
  | '\\' => some '\\'
  | _ => none

/-- The character that stands behind a backslash: by a letter, or by the four or eight digits of its
code. -/
def escape : (cs : List Char) → Option (Char × Rest cs)
  | 'u' :: a :: b :: c :: d :: cs =>
    (codePoint? [a, b, c, d]).map fun x => (x, ⟨cs, by simp only [List.length_cons]; omega⟩)
  | 'U' :: a :: b :: c :: d :: e :: f :: g :: h :: cs =>
    (codePoint? [a, b, c, d, e, f, g, h]).map fun x =>
      (x, ⟨cs, by simp only [List.length_cons]; omega⟩)
  | c :: cs => (escaped? c).map fun x => (x, .tail c cs)
  | [] => none

/-! ## Strings -/

/-- What a string is enclosed in. -/
inductive Quotes where
  /-- Double quotes. -/
  | double
  /-- Single quotes. -/
  | single
  deriving DecidableEq, Repr

/-- A quote. -/
def Quotes.mark : Quotes → Char
  | double => '"'
  | single => '\''

/-- Whether a backslash escapes what is behind it. -/
def Quotes.haveEscapes : Quotes → Bool
  | double => true
  | single => false

/-- A string on one line, from behind its first quote on. -/
def oneLine (q : Quotes) : (cs : List Char) → Option (List Char × Rest cs)
  | [] => none
  | c :: cs =>
    if c = q.mark then some ([], .tail c cs)
    else if c = '\\' ∧ q.haveEscapes then do
      let (x, behind) ← escape cs
      have := behind.2
      let (text, rest) ← oneLine q behind.1
      return (x :: text, rest.within (c :: cs) (by simp only [List.length_cons]; omega))
    else if isPrintable c then do
      let (text, rest) ← oneLine q cs
      return (c :: text, rest.cons c)
    else none
termination_by cs => cs.length

/-- The text behind a backslash at the end of a line, which leaves out all blanks up to the next
character. -/
def continuation? (cs : List Char) : Option (List Char) :=
  (behindLine? (skipSpaces cs)).map skipBlanks

/-- What follows a line continuation is shorter than what had it. -/
theorem length_of_continuation? {cs rest : List Char} (h : continuation? cs = some rest) :
    rest.length < cs.length := by
  obtain ⟨behind, hb, rfl⟩ := Option.map_eq_some_iff.mp h
  have := length_of_behindLine? hb
  have := length_skipBlanks_le behind
  have := length_skipSpaces_le cs
  omega

/-- A string of several lines, from behind its first quotes on. Up to two quotes may stand directly
in front of the three that close it, and every line end counts as a line feed. -/
def severalLines (q : Quotes) : (cs : List Char) → Option (List Char × Rest cs)
  | [] => none
  | c :: cs =>
    let quotes := ((c :: cs).takeWhile (· = q.mark)).take 5
    if 3 ≤ quotes.length then
      some (quotes.drop 3, ⟨cs.drop (quotes.length - 1), by
        simp only [List.length_drop, List.length_cons]
        omega⟩)
    else if c = '\\' ∧ q.haveEscapes then
      match h : continuation? cs with
      | some behind => do
        have := length_of_continuation? h
        let (text, rest) ← severalLines q behind
        return (text, rest.within (c :: cs) (by simp only [List.length_cons]; omega))
      | none => do
        let (x, behind) ← escape cs
        have := behind.2
        let (text, rest) ← severalLines q behind.1
        return (x :: text, rest.within (c :: cs) (by simp only [List.length_cons]; omega))
    else
      match h : behindLine? (c :: cs) with
      | some behind => do
        have := length_of_behindLine? h
        let (text, rest) ← severalLines q behind
        return ('\n' :: text, rest.within (c :: cs) (by omega))
      | none =>
        if isPrintable c then do
          let (text, rest) ← severalLines q cs
          return (c :: text, rest.cons c)
        else none
termination_by cs => cs.length
decreasing_by all_goals simp_all only [List.length_cons] <;> omega

/-- A string from behind its first quote on. A line end directly behind three quotes is left out. -/
def quoted (q : Quotes) (cs : List Char) : Option (List Char × Rest cs) :=
  match cs with
  | a :: b :: cs =>
    if a = q.mark ∧ b = q.mark then
      match h : behindLine? cs with
      | some behind => (severalLines q behind).map fun (text, rest) =>
          (text, ((rest.within cs (Nat.le_of_lt (length_of_behindLine? h))).cons b).cons a)
      | none => (severalLines q cs).map fun (text, rest) => (text, (rest.cons b).cons a)
    else oneLine q (a :: b :: cs)
  | cs => oneLine q cs

end SchemaDiagram.Toml
