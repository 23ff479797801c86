import SchemaDiagram.Token.Basic

/-!
# Lexemes

A lexeme is a piece of text that is read as one: a token, or something that is skipped, which is
white space or a block comment. Which piece stands at the front of a text is settled by the rule of
generated lexers (logos): of all patterns the one with the longest match there wins, and where none
matches there is an error. Here the first character tells which patterns are possible, so the longest
match is found without trying the others.

Main statement: `Lexeme.scan_eq`, a lexeme and the text after it are the text that was scanned, and
the lexeme is not empty.
-/

namespace SchemaDiagram

namespace Lexeme

/-! ## Classes of characters -/

/-- The characters skipped between tokens. -/
def isSpace (c : Char) : Bool := c == ' ' || c == '\t' || c == '\r' || c == '\n' || c == '\x0c'

/-- Characters of the blocks Hiragana, Katakana, CJK Unified Ideographs and Hangul Syllables. -/
def isEastAsian (c : Char) : Bool :=
  ('\u3040' ≤ c && c ≤ '\u309f') || ('\u30a0' ≤ c && c ≤ '\u30ff') ||
  ('\u4e00' ≤ c && c ≤ '\u9fff') || ('\uac00' ≤ c && c ≤ '\ud7af')

/-- The characters that a word starts with. -/
def startsWord (c : Char) : Bool := c.isAlpha || c == '_' || isEastAsian c

/-- The characters that a word goes on with. -/
def continuesWord (c : Char) : Bool := startsWord c || c.isDigit

/-- The characters of a color literal after the `#`. -/
def continuesColor (c : Char) : Bool := c.isAlphanum || c == '_'

/-! ## Pieces with an end of their own -/

/-- The rest of a quoted text after its opening quote, up to and with the closing one. A backslash
takes the character after it along, which must not be a line feed. -/
def stringTail? (quote : Char) : List Char → Option (List Char × List Char)
  | [] => none
  | c :: cs =>
    if c = quote then some ([c], cs)
    else if c = '\\' then
      match cs with
      | [] => none
      | d :: ds =>
        if d = '\n' then none
        else (stringTail? quote ds).map fun (body, rest) => (c :: d :: body, rest)
    else (stringTail? quote cs).map fun (body, rest) => (c :: body, rest)

/-- The rest of a block comment after its opening mark, up to and with the closing one. A star takes
the character after it along, unless that is the slash that closes the comment. -/
def commentTail? : List Char → Option (List Char × List Char)
  | [] => none
  | c :: cs =>
    if c = '*' then
      match cs with
      | [] => none
      | d :: ds =>
        if d = '/' then some ([c, d], ds)
        else (commentTail? ds).map fun (body, rest) => (c :: d :: body, rest)
    else (commentTail? cs).map fun (body, rest) => (c :: body, rest)

/-- The fraction of a numeral: a point and at least one digit. -/
def fraction (cs : List Char) : List Char × List Char :=
  match cs with
  | '.' :: d :: ds =>
    if d.isDigit then ('.' :: d :: ds.takeWhile Char.isDigit, ds.dropWhile Char.isDigit)
    else ([], cs)
  | _ => ([], cs)

/-- The rest of a numeral whose sign or first digit has been read. -/
def numberTail (cs : List Char) : List Char × List Char :=
  let point := fraction (cs.dropWhile Char.isDigit)
  (cs.takeWhile Char.isDigit ++ point.1, point.2)

/-- What a word is: a keyword if all of it spells one, else an identifier. -/
def wordKind (word : List Char) : TokenKind :=
  match Keyword.ofWord? (String.ofList word) with
  | some k => .keyword k
  | none => .identifier

/-- The mark of a single character. -/
def mark? (c : Char) : Option Mark := Mark.all.find? fun m => m.chars == [c]

end Lexeme

/-- A lexeme at the front of a text. -/
structure Lexeme where
  /-- The kind of its token; `none` if it is skipped. -/
  kind? : Option TokenKind
  /-- The characters of the lexeme. -/
  text : List Char
  /-- The text after it. -/
  rest : List Char
  deriving DecidableEq, Repr

namespace Lexeme

/-- The longest lexeme at the front of a text, if any lexeme starts there. -/
def scan : List Char → Option Lexeme
  | [] => none
  | c :: cs =>
    if isSpace c then some ⟨none, c :: cs.takeWhile isSpace, cs.dropWhile isSpace⟩
    else if startsWord c then
      let word := c :: cs.takeWhile continuesWord
      some ⟨some (wordKind word), word, cs.dropWhile continuesWord⟩
    else if c.isDigit then
      some ⟨some .number, c :: (numberTail cs).1, (numberTail cs).2⟩
    else if c = '#' then
      some ⟨some .color, c :: cs.takeWhile continuesColor, cs.dropWhile continuesColor⟩
    else match Text.Quote.ofChar? c with
    | some quote =>
      (stringTail? c cs).map fun (body, rest) => ⟨some (.string quote), c :: body, rest⟩
    | none =>
      match c, cs with
      | '/', '/' :: ds =>
        some ⟨some .comment, c :: '/' :: ds.takeWhile (· ≠ '\n'), ds.dropWhile (· ≠ '\n')⟩
      | '/', '*' :: ds => (commentTail? ds).map fun (body, rest) => ⟨none, c :: '*' :: body, rest⟩
      | '<', '>' :: ds => some ⟨some (.mark .lessGreater), [c, '>'], ds⟩
      | '-', d :: ds =>
        if d.isDigit then some ⟨some .number, c :: d :: (numberTail ds).1, (numberTail ds).2⟩
        else some ⟨some (.mark .minus), [c], d :: ds⟩
      | _, _ => (mark? c).map fun m => ⟨some (.mark m), [c], cs⟩

/-! ## Nothing is lost -/

/-- The body of a quoted text and the text behind it are the text that was scanned. -/
theorem stringTail?_eq {quote : Char} {cs body rest : List Char}
    (h : stringTail? quote cs = some (body, rest)) : body ++ rest = cs := by
  fun_induction stringTail? quote cs generalizing body rest with
  | case1 => simp at h
  | case2 cs => simp only [Option.some.injEq, Prod.mk.injEq] at h; simp [← h.1, ← h.2]
  | case3 => simp at h
  | case4 => simp at h
  | case5 _ _ _ _ ih =>
    obtain ⟨⟨b, r⟩, hb, he⟩ := Option.map_eq_some_iff.1 h
    simp only [Prod.mk.injEq] at he
    simp [← he.1, ← he.2, ih hb]
  | case6 _ _ _ _ ih =>
    obtain ⟨⟨b, r⟩, hb, he⟩ := Option.map_eq_some_iff.1 h
    simp only [Prod.mk.injEq] at he
    simp [← he.1, ← he.2, ih hb]

/-- The body of a block comment and the text behind it are the text that was scanned. -/
theorem commentTail?_eq {cs body rest : List Char} (h : commentTail? cs = some (body, rest)) :
    body ++ rest = cs := by
  fun_induction commentTail? cs generalizing body rest with
  | case1 => simp at h
  | case2 => simp at h
  | case3 => simp only [Option.some.injEq, Prod.mk.injEq] at h; simp [← h.1, ← h.2]
  | case4 _ _ _ ih =>
    obtain ⟨⟨b, r⟩, hb, he⟩ := Option.map_eq_some_iff.1 h
    simp only [Prod.mk.injEq] at he
    simp [← he.1, ← he.2, ih hb]
  | case5 _ _ _ ih =>
    obtain ⟨⟨b, r⟩, hb, he⟩ := Option.map_eq_some_iff.1 h
    simp only [Prod.mk.injEq] at he
    simp [← he.1, ← he.2, ih hb]

/-- The fraction and the text behind it are the text that was scanned. -/
theorem fraction_eq (cs : List Char) : (fraction cs).1 ++ (fraction cs).2 = cs := by
  unfold fraction
  split
  · split <;> simp
  · rfl

/-- The rest of a numeral and the text behind it are the text that was scanned. -/
theorem numberTail_eq (cs : List Char) : (numberTail cs).1 ++ (numberTail cs).2 = cs := by
  simp [numberTail, fraction_eq]

/-- A lexeme and the text after it are the text that was scanned, and the lexeme is not empty. -/
theorem scan_eq {cs : List Char} {lexeme : Lexeme} (h : scan cs = some lexeme) :
    lexeme.text ++ lexeme.rest = cs ∧ lexeme.text ≠ [] := by
  revert h
  unfold scan
  split
  · simp
  next c cs =>
  split
  · intro h; cases h; simp
  split
  · intro h; cases h; simp
  split
  · intro h; obtain rfl := Option.some.inj h; simpa using numberTail_eq cs
  split
  · intro h; cases h; simp
  split
  · intro h
    obtain ⟨⟨b, r⟩, hb, rfl⟩ := Option.map_eq_some_iff.1 h
    simpa using stringTail?_eq hb
  split
  · intro h; cases h; simp
  · intro h
    obtain ⟨⟨b, r⟩, hb, rfl⟩ := Option.map_eq_some_iff.1 h
    simpa using commentTail?_eq hb
  · intro h; cases h; simp
  · split
    · intro h; obtain rfl := Option.some.inj h; simpa using numberTail_eq _
    · intro h; cases h; simp
  · intro h
    obtain ⟨m, _, rfl⟩ := Option.map_eq_some_iff.1 h
    simp

/-- The text after a lexeme is shorter than the text that was scanned. -/
theorem length_rest_lt {cs : List Char} {lexeme : Lexeme} (h : scan cs = some lexeme) :
    lexeme.rest.length < cs.length := by
  obtain ⟨happ, hne⟩ := scan_eq h
  have := List.length_pos_iff.2 hne
  rw [← happ, List.length_append]
  omega

end Lexeme

end SchemaDiagram
