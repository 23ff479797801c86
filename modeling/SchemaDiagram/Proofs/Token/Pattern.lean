import Mathlib
import SchemaDiagram.Token.Lexeme

/-!
# The patterns of lexemes

The lexemes of a document are given by patterns: regular languages over characters, each with the
kind of token that its texts become, or without a kind if its texts are skipped. This file holds the
table of patterns (`Pattern.all`) and says for each pattern what its texts look like, in the terms
of the scanner: runs of characters, quoted tails, comment tails and numerals.

Scanning does not try the patterns one by one. That it finds the longest text of any of them is the
subject of `SchemaDiagram.Proofs.Token.Longest`.
-/

namespace SchemaDiagram.Lexeme

open scoped Computability

/-- A pattern of lexemes. -/
structure Pattern where
  /-- The kind of the tokens that its texts become; `none` if they are skipped. -/
  kind? : Option TokenKind
  /-- The texts that it matches. -/
  texts : Language Char

namespace Pattern

/-! ## Building blocks -/

/-- The texts of one character from some ranges. -/
def oneOf (ranges : List (Char × Char)) : Language Char :=
  {w | ∃ c : Char, (∃ r ∈ ranges, r.1 ≤ c ∧ c ≤ r.2) ∧ w = [c]}

/-- The texts of one character that is not among the given ones. -/
def noneOf (cs : List Char) : Language Char := {w | ∃ c : Char, c ∉ cs ∧ w = [c]}

/-- The one text that is given. -/
def exactly (s : String) : Language Char := {s.toList}

/-- The texts that differ from a given one in the case of ASCII letters only. -/
def anyCase (s : String) : Language Char := {w | w.map Char.toLower = s.toList.map Char.toLower}

/-- One text of a language or more, one after another. -/
def atLeastOne (l : Language Char) : Language Char := l * l∗

/-! ## The table -/

/-- A run of white space. -/
def whitespace : Language Char :=
  atLeastOne (oneOf [(' ', ' '), ('\t', '\t'), ('\r', '\r'), ('\n', '\n'), ('\x0c', '\x0c')])

/-- A block comment. Inside it a star takes the character after it along, which is no slash. -/
def blockComment : Language Char :=
  exactly "/*" * (noneOf ['*'] + exactly "*" * noneOf ['/'])∗ * exactly "*/"

/-- A text in quotes. Inside it a backslash takes the character after it along, which is no line
feed. -/
def quotedText (quote : Char) : Language Char :=
  oneOf [(quote, quote)] * (noneOf [quote, '\\'] + exactly "\\" * noneOf ['\n'])∗ *
    oneOf [(quote, quote)]

/-- A run of decimal digits. -/
def digits : Language Char := atLeastOne (oneOf [('0', '9')])

/-- A whole number, which may be negative. -/
def wholeNumber : Language Char := (1 + exactly "-") * digits

/-- A number with a fraction, which may be negative. -/
def decimalNumber : Language Char := (1 + exactly "-") * digits * exactly "." * digits

/-- A `#` and the characters of words after it. -/
def colorLiteral : Language Char :=
  exactly "#" * (oneOf [('0', '9'), ('A', 'Z'), ('a', 'z'), ('_', '_')])∗

/-- Two slashes and the rest of the line. -/
def lineComment : Language Char := exactly "//" * (noneOf ['\n'])∗

/-- The characters that a word starts with: ASCII letters, the underscore, Hiragana, Katakana, CJK
Unified Ideographs and Hangul Syllables. -/
def wordStart : List (Char × Char) :=
  [('A', 'Z'), ('a', 'z'), ('_', '_'), ('\u3040', '\u309f'), ('\u30a0', '\u30ff'),
    ('\u4e00', '\u9fff'), ('\uac00', '\ud7af')]

/-- A word. -/
def word : Language Char :=
  oneOf wordStart * (oneOf (wordStart ++ [('0', '9')]))∗

/-- The patterns of white space and of block comments, whose texts are skipped. -/
def skipped : List Pattern := [⟨none, whitespace⟩, ⟨none, blockComment⟩]

/-- The patterns of keywords. -/
def keywords : List Pattern :=
  [⟨some (.keyword .project), anyCase "project"⟩, ⟨some (.keyword .table), anyCase "table"⟩,
    ⟨some (.keyword .area), anyCase "area"⟩, ⟨some (.keyword .ref), anyCase "ref"⟩,
    ⟨some (.keyword .note), anyCase "note"⟩, ⟨some (.keyword .indexes), anyCase "indexes"⟩,
    ⟨some (.keyword .commonColumns), anyCase "commoncolumns"⟩,
    ⟨some (.keyword .commonColumns), anyCase "common_columns"⟩,
    ⟨some (.keyword .pk), anyCase "pk"⟩, ⟨some (.keyword .fk), anyCase "fk"⟩,
    ⟨some (.keyword .unique), anyCase "unique"⟩, ⟨some (.keyword .not), anyCase "not"⟩,
    ⟨some (.keyword .null), anyCase "null"⟩, ⟨some (.keyword .increment), anyCase "increment"⟩,
    ⟨some (.keyword .default), anyCase "default"⟩]

/-- The patterns of punctuation marks. -/
def marks : List Pattern :=
  [⟨some (.mark .leftBrace), exactly "\x7b"⟩, ⟨some (.mark .rightBrace), exactly "\x7d"⟩,
    ⟨some (.mark .leftBracket), exactly "["⟩, ⟨some (.mark .rightBracket), exactly "]"⟩,
    ⟨some (.mark .leftParen), exactly "("⟩, ⟨some (.mark .rightParen), exactly ")"⟩,
    ⟨some (.mark .colon), exactly ":"⟩, ⟨some (.mark .comma), exactly ","⟩,
    ⟨some (.mark .dot), exactly "."⟩, ⟨some (.mark .greater), exactly ">"⟩,
    ⟨some (.mark .less), exactly "<"⟩, ⟨some (.mark .lessGreater), exactly "<>"⟩,
    ⟨some (.mark .minus), exactly "-"⟩, ⟨some (.mark .tilde), exactly "~"⟩]

/-- The patterns of literals. -/
def literals : List Pattern :=
  [⟨some (.string .double), quotedText '"'⟩, ⟨some (.string .single), quotedText '\''⟩,
    ⟨some (.string .backtick), quotedText '\x60'⟩, ⟨some .number, wholeNumber⟩,
    ⟨some .number, decimalNumber⟩, ⟨some .color, colorLiteral⟩, ⟨some .comment, lineComment⟩]

/-- Every pattern of a document's text. -/
def all : List Pattern :=
  skipped ++ keywords ++ marks ++ literals ++ [⟨some .identifier, word⟩]

/-! ## Classes of characters as ranges -/

/-- The white space characters are the ranges of the pattern. -/
theorem isSpace_iff {c : Char} :
    isSpace c = true ↔
      ∃ r ∈ [(' ', ' '), ('\t', '\t'), ('\r', '\r'), ('\n', '\n'), ('\x0c', '\x0c')],
        r.1 ≤ c ∧ c ≤ r.2 := by
  simp [isSpace, ← ge_antisymm_iff, or_assoc]

/-- The digits are a range of characters. -/
theorem isDigit_iff {c : Char} : c.isDigit = true ↔ '0' ≤ c ∧ c ≤ '9' := by
  simp only [Char.isDigit, Char.le_def, Bool.and_eq_true, decide_eq_true_eq, ge_iff_le]

/-- The letters are two ranges of characters. -/
theorem isAlpha_iff {c : Char} : c.isAlpha = true ↔ ('A' ≤ c ∧ c ≤ 'Z') ∨ ('a' ≤ c ∧ c ≤ 'z') := by
  simp only [Char.isAlpha, Char.isUpper, Char.isLower, Char.le_def, Bool.or_eq_true,
    Bool.and_eq_true, decide_eq_true_eq, ge_iff_le]

/-- The characters that start a word are the ranges of the pattern. -/
theorem startsWord_iff {c : Char} :
    startsWord c = true ↔ ∃ r ∈ wordStart, r.1 ≤ c ∧ c ≤ r.2 := by
  simp [startsWord, isEastAsian, wordStart, ← ge_antisymm_iff, isAlpha_iff, or_assoc]

/-- The characters that continue a word are the ranges of the pattern. -/
theorem continuesWord_iff {c : Char} :
    continuesWord c = true ↔ ∃ r ∈ wordStart ++ [('0', '9')], r.1 ≤ c ∧ c ≤ r.2 := by
  simp [continuesWord, startsWord_iff, isDigit_iff, or_and_right, exists_or]

/-- The characters that continue a color are the ranges of the pattern. -/
theorem continuesColor_iff {c : Char} :
    continuesColor c = true ↔
      ∃ r ∈ [('0', '9'), ('A', 'Z'), ('a', 'z'), ('_', '_')], r.1 ≤ c ∧ c ≤ r.2 := by
  simp only [continuesColor, Char.isAlphanum, isAlpha_iff, isDigit_iff, Bool.or_eq_true,
    beq_iff_eq, List.mem_cons, List.not_mem_nil, or_false, exists_eq_or_imp, exists_eq_left,
    ← ge_antisymm_iff]
  tauto

/-! ## Texts of the patterns -/

/-- Texts of a language of single characters, one after another. -/
theorem mem_kstar_of_singles {l : Language Char} {p : Char → Prop}
    (h : ∀ w, w ∈ l ↔ ∃ c, p c ∧ w = [c]) (w : List Char) : w ∈ l∗ ↔ ∀ c ∈ w, p c := by
  rw [Language.mem_kstar]
  constructor
  · rintro ⟨ws, rfl, hws⟩ c hc
    obtain ⟨v, hv, hcv⟩ := List.mem_flatten.1 hc
    obtain ⟨d, hd, rfl⟩ := (h v).1 (hws v hv)
    rw [List.mem_singleton.1 hcv]
    exact hd
  · intro hw
    refine ⟨w.map fun c => [c], ?_, ?_⟩
    · induction w with
      | nil => rfl
      | cons c w ih => simp [← ih fun d hd => hw d (List.mem_cons_of_mem _ hd)]
    · intro v hv
      obtain ⟨c, hc, rfl⟩ := List.mem_map.1 hv
      exact (h _).2 ⟨c, hw c hc, rfl⟩

/-- The texts of one character other than a given one. -/
theorem mem_noneOf_singleton {d : Char} (w : List Char) :
    w ∈ noneOf [d] ↔ ∃ c, c ≠ d ∧ w = [c] := by
  constructor
  · rintro ⟨c, hc, rfl⟩
    exact ⟨c, fun h => hc (List.mem_singleton.2 h), rfl⟩
  · rintro ⟨c, hc, rfl⟩
    exact ⟨c, fun h => hc (List.mem_singleton.1 h), rfl⟩

/-- The texts of characters from some ranges, in any number. -/
theorem mem_oneOf_kstar {ranges : List (Char × Char)} {p : Char → Bool}
    (h : ∀ {c}, p c = true ↔ ∃ r ∈ ranges, r.1 ≤ c ∧ c ≤ r.2) {w : List Char} :
    w ∈ (oneOf ranges)∗ ↔ ∀ c ∈ w, p c = true := by
  have hone : ∀ v, v ∈ oneOf ranges ↔ ∃ c, p c = true ∧ v = [c] := by
    intro v
    simp only [h]
    exact Iff.rfl
  exact mem_kstar_of_singles hone w

/-- The texts of characters from some ranges, at least one of them. -/
theorem mem_atLeastOne_oneOf {ranges : List (Char × Char)} {p : Char → Bool}
    (h : ∀ {c}, p c = true ↔ ∃ r ∈ ranges, r.1 ≤ c ∧ c ≤ r.2) {w : List Char} :
    w ∈ atLeastOne (oneOf ranges) ↔ w ≠ [] ∧ ∀ c ∈ w, p c = true := by
  constructor
  · rintro ⟨_, ⟨c, hc, rfl⟩, v, hv, rfl⟩
    refine ⟨by simp, ?_⟩
    intro d hd
    rcases List.mem_cons.1 hd with rfl | hd
    · exact h.2 hc
    · exact (mem_oneOf_kstar h).1 hv d hd
  · rintro ⟨hne, hw⟩
    obtain ⟨c, v, rfl⟩ := List.exists_cons_of_ne_nil hne
    have hv : v ∈ (oneOf ranges)∗ :=
      (mem_oneOf_kstar h).2 fun d hd => hw d (List.mem_cons_of_mem _ hd)
    exact Language.append_mem_mul (a := [c]) ⟨c, h.1 (hw c List.mem_cons_self), rfl⟩ hv

/-- The texts of white space. -/
theorem mem_whitespace {w : List Char} :
    w ∈ whitespace ↔ w ≠ [] ∧ ∀ c ∈ w, isSpace c = true :=
  mem_atLeastOne_oneOf isSpace_iff

/-- The texts of digits. -/
theorem mem_digits {w : List Char} : w ∈ digits ↔ w ≠ [] ∧ ∀ c ∈ w, c.isDigit = true :=
  mem_atLeastOne_oneOf (by simp [isDigit_iff])

/-- The texts that are words. -/
theorem mem_word {w : List Char} :
    w ∈ word ↔ ∃ c cs, w = c :: cs ∧ startsWord c = true ∧ ∀ d ∈ cs, continuesWord d = true := by
  constructor
  · rintro ⟨_, ⟨c, hc, rfl⟩, cs, hcs, rfl⟩
    exact ⟨c, cs, rfl, startsWord_iff.2 hc, (mem_oneOf_kstar continuesWord_iff).1 hcs⟩
  · rintro ⟨c, cs, rfl, hc, hcs⟩
    exact Language.append_mem_mul (a := [c]) ⟨c, startsWord_iff.1 hc, rfl⟩
      ((mem_oneOf_kstar continuesWord_iff).2 hcs)

/-- The texts that are colors. -/
theorem mem_colorLiteral {w : List Char} :
    w ∈ colorLiteral ↔ ∃ cs, w = '#' :: cs ∧ ∀ c ∈ cs, continuesColor c = true := by
  constructor
  · rintro ⟨_, rfl, cs, hcs, rfl⟩
    exact ⟨cs, rfl, (mem_oneOf_kstar continuesColor_iff).1 hcs⟩
  · rintro ⟨cs, rfl, hcs⟩
    exact Language.append_mem_mul (a := ['#']) rfl ((mem_oneOf_kstar continuesColor_iff).2 hcs)

/-- The texts that are line comments. -/
theorem mem_lineComment {w : List Char} :
    w ∈ lineComment ↔ ∃ cs, w = '/' :: '/' :: cs ∧ '\n' ∉ cs := by
  constructor
  · rintro ⟨_, rfl, cs, hcs, rfl⟩
    exact ⟨cs, rfl, fun h => (mem_kstar_of_singles mem_noneOf_singleton cs).1 hcs _ h rfl⟩
  · rintro ⟨cs, rfl, hcs⟩
    refine Language.append_mem_mul (a := ['/', '/']) rfl
      ((mem_kstar_of_singles mem_noneOf_singleton cs).2 ?_)
    rintro c hc rfl
    exact hcs hc

/-- The texts of at most one minus. -/
theorem mem_optionalMinus {w : List Char} :
    w ∈ (1 + exactly "-" : Language Char) ↔ w = [] ∨ w = ['-'] := Iff.rfl

/-- The texts that are whole numbers. -/
theorem mem_wholeNumber {w : List Char} :
    w ∈ wholeNumber ↔ ∃ sign ds, (sign = [] ∨ sign = ['-']) ∧ ds ∈ digits ∧ w = sign ++ ds := by
  constructor
  · rintro ⟨sign, hsign, ds, hds, rfl⟩
    exact ⟨sign, ds, mem_optionalMinus.1 hsign, hds, rfl⟩
  · rintro ⟨sign, ds, hsign, hds, rfl⟩
    exact ⟨sign, mem_optionalMinus.2 hsign, ds, hds, rfl⟩

/-- The texts that are numbers with a fraction. -/
theorem mem_decimalNumber {w : List Char} :
    w ∈ decimalNumber ↔ ∃ sign ds es, (sign = [] ∨ sign = ['-']) ∧ ds ∈ digits ∧ es ∈ digits ∧
      w = sign ++ ds ++ '.' :: es := by
  constructor
  · rintro ⟨_, ⟨_, ⟨sign, hsign, ds, hds, rfl⟩, _, rfl, rfl⟩, es, hes, rfl⟩
    exact ⟨sign, ds, es, mem_optionalMinus.1 hsign, hds, hes, by simp⟩
  · rintro ⟨sign, ds, es, hsign, hds, hes, rfl⟩
    have hfront : sign ++ ds ++ ['.'] ∈ (1 + exactly "-") * digits * exactly "." :=
      Language.append_mem_mul
        (Language.append_mem_mul (mem_optionalMinus.2 hsign) hds) rfl
    have happ : sign ++ ds ++ '.' :: es = sign ++ ds ++ ['.'] ++ es := by simp
    rw [happ]
    exact Language.append_mem_mul hfront hes

/-! ## Quoted texts and block comments

Both are repetitions with a closing mark. The scanner reads them from the front; each of its rounds
is one text of the repeated language. -/

/-- The quote ends the body of a quoted text. -/
theorem stringTail?_quote (quote : Char) (cs : List Char) :
    stringTail? quote (quote :: cs) = some ([quote], cs) := by
  rw [stringTail?.eq_def]
  simp

/-- A backslash takes the character behind it along. -/
theorem stringTail?_escape {quote d : Char} (hq : quote ≠ '\\') (hd : d ≠ '\n') (ds : List Char) :
    stringTail? quote ('\\' :: d :: ds) =
      (stringTail? quote ds).map fun (body, rest) => ('\\' :: d :: body, rest) := by
  rw [stringTail?.eq_def]
  simp [Ne.symm hq, hd]

/-- Any other character belongs to the body of a quoted text. -/
theorem stringTail?_cons {quote c : Char} (hq : c ≠ quote) (hb : c ≠ '\\') (cs : List Char) :
    stringTail? quote (c :: cs) =
      (stringTail? quote cs).map fun (body, rest) => (c :: body, rest) := by
  rw [stringTail?.eq_def]
  simp [hq, hb]

/-- A star and a slash end the body of a block comment. -/
theorem commentTail?_close (cs : List Char) :
    commentTail? ('*' :: '/' :: cs) = some (['*', '/'], cs) := by
  rw [commentTail?.eq_def]
  simp

/-- A star takes the character behind it along. -/
theorem commentTail?_star {d : Char} (hd : d ≠ '/') (ds : List Char) :
    commentTail? ('*' :: d :: ds) =
      (commentTail? ds).map fun (body, rest) => ('*' :: d :: body, rest) := by
  rw [commentTail?.eq_def]
  simp [hd]

/-- Any other character belongs to the body of a block comment. -/
theorem commentTail?_cons {c : Char} (hc : c ≠ '*') (cs : List Char) :
    commentTail? (c :: cs) = (commentTail? cs).map fun (body, rest) => (c :: body, rest) := by
  rw [commentTail?.eq_def]
  simp [hc]

/-- A text in front of some repetitions of its language and what follows them. -/
theorem append_mem_kstar_mul {l m : Language Char} {v w : List Char} (hv : v ∈ l)
    (hw : w ∈ l∗ * m) : v ++ w ∈ l∗ * m := by
  obtain ⟨_, ⟨vs, rfl, hvs⟩, u, hu, rfl⟩ := hw
  refine ⟨(v :: vs).flatten, ⟨v :: vs, rfl, ?_⟩, u, hu, by simp⟩
  intro x hx
  rcases List.mem_cons.1 hx with rfl | hx
  · exact hv
  · exact hvs x hx

/-- The body of a quoted text, up to and with its closing quote. -/
def quotedTail (quote : Char) : Language Char :=
  (noneOf [quote, '\\'] + exactly "\\" * noneOf ['\n'])∗ * oneOf [(quote, quote)]

/-- The body of a block comment, up to and with its closing mark. -/
def commentTail : Language Char := (noneOf ['*'] + exactly "*" * noneOf ['/'])∗ * exactly "*/"

/-- A quoted text's body is found at the front of what follows its quote. -/
theorem stringTail?_of_mem_quotedTail {quote : Char} (hq : quote ≠ '\\') {body : List Char}
    (h : body ∈ quotedTail quote) (rest : List Char) :
    stringTail? quote (body ++ rest) = some (body, rest) := by
  obtain ⟨_, ⟨vs, rfl, hvs⟩, _, ⟨c, hc, rfl⟩, rfl⟩ := h
  have hcq : c = quote := by simpa [← ge_antisymm_iff] using hc
  subst hcq
  induction vs with
  | nil => exact stringTail?_quote c rest
  | cons v vs ih =>
    have ih := ih fun y hy => hvs y (List.mem_cons_of_mem _ hy)
    rcases hvs v List.mem_cons_self with ⟨d, hd, rfl⟩ | ⟨_, rfl, _, ⟨d, hd, rfl⟩, rfl⟩
    · simp only [List.mem_cons, List.not_mem_nil, or_false, not_or] at hd
      rw [List.flatten_cons, List.append_assoc, List.append_assoc, List.singleton_append,
        stringTail?_cons hd.1 hd.2, ← List.append_assoc, ih]
      rfl
    · have hd : d ≠ '\n' := fun h => hd (List.mem_singleton.2 h)
      have happ : ((("\\".toList ++ [d]) :: vs).flatten ++ [c]) ++ rest
          = '\\' :: d :: (vs.flatten ++ [c] ++ rest) := by simp
      rw [happ, stringTail?_escape hq hd, ih]
      rfl

/-- What is found behind a quote is the body of a quoted text. -/
theorem mem_quotedTail_of_stringTail? {quote : Char} {cs body rest : List Char}
    (h : stringTail? quote cs = some (body, rest)) : body ∈ quotedTail quote := by
  fun_induction stringTail? quote cs generalizing body rest with
  | case1 => cases h
  | case2 cs =>
    cases h
    refine Language.append_mem_mul (a := []) (Language.nil_mem_kstar _) ?_
    exact ⟨quote, ⟨_, List.mem_singleton.2 rfl, Char.le_refl _, Char.le_refl _⟩, rfl⟩
  | case3 => cases h
  | case4 => cases h
  | case5 d ds hd _ ih =>
    obtain ⟨⟨b, r⟩, hb, he⟩ := Option.map_eq_some_iff.1 h
    cases he
    refine append_mem_kstar_mul (v := ['\\', d]) ?_ (ih hb)
    exact Or.inr ⟨['\\'], rfl, [d], (mem_noneOf_singleton _).2 ⟨d, hd, rfl⟩, rfl⟩
  | case6 c cs hq hb ih =>
    obtain ⟨⟨b, r⟩, hb, he⟩ := Option.map_eq_some_iff.1 h
    cases he
    refine append_mem_kstar_mul (v := [c]) ?_ (ih hb)
    exact Or.inl ⟨c, by simp [*], rfl⟩

/-- The texts that are quoted texts. -/
theorem mem_quotedText {quote : Char} {w : List Char} :
    w ∈ quotedText quote ↔ ∃ body ∈ quotedTail quote, w = quote :: body := by
  have hquote : ∀ v, v ∈ oneOf [(quote, quote)] ↔ v = [quote] := by
    intro v
    constructor
    · rintro ⟨c, hc, rfl⟩
      rw [show c = quote by simpa [← ge_antisymm_iff] using hc]
    · rintro rfl
      exact ⟨quote, ⟨_, List.mem_singleton.2 rfl, Char.le_refl _, Char.le_refl _⟩, rfl⟩
  rw [quotedText, mul_assoc]
  constructor
  · rintro ⟨v, hv, body, hbody, rfl⟩
    rw [(hquote v).1 hv]
    exact ⟨body, hbody, rfl⟩
  · rintro ⟨body, hbody, rfl⟩
    exact Language.append_mem_mul ((hquote [quote]).2 rfl) hbody

/-- A block comment's body is found at the front of what follows its opening mark. -/
theorem commentTail?_of_mem_commentTail {body : List Char} (h : body ∈ commentTail)
    (rest : List Char) : commentTail? (body ++ rest) = some (body, rest) := by
  obtain ⟨_, ⟨vs, rfl, hvs⟩, _, rfl, rfl⟩ := h
  induction vs with
  | nil => exact commentTail?_close rest
  | cons v vs ih =>
    have ih := ih fun y hy => hvs y (List.mem_cons_of_mem _ hy)
    rcases hvs v List.mem_cons_self with hv | ⟨_, rfl, w, hw, rfl⟩
    · obtain ⟨d, hd, rfl⟩ := (mem_noneOf_singleton v).1 hv
      rw [List.flatten_cons, List.append_assoc, List.append_assoc, List.singleton_append,
        commentTail?_cons hd, ← List.append_assoc, ih]
      rfl
    · obtain ⟨d, hd, rfl⟩ := (mem_noneOf_singleton w).1 hw
      have happ : ((("*".toList ++ [d]) :: vs).flatten ++ "*/".toList) ++ rest
          = '*' :: d :: (vs.flatten ++ "*/".toList ++ rest) := by simp
      rw [happ, commentTail?_star hd, ih]
      rfl

/-- What is found behind the opening mark is the body of a block comment. -/
theorem mem_commentTail_of_commentTail? {cs body rest : List Char}
    (h : commentTail? cs = some (body, rest)) : body ∈ commentTail := by
  fun_induction commentTail? cs generalizing body rest with
  | case1 => cases h
  | case2 => cases h
  | case3 =>
    cases h
    exact Language.append_mem_mul (a := []) (Language.nil_mem_kstar _) rfl
  | case4 d ds hd ih =>
    obtain ⟨⟨b, r⟩, hb, he⟩ := Option.map_eq_some_iff.1 h
    cases he
    refine append_mem_kstar_mul (v := ['*', d]) ?_ (ih hb)
    exact Or.inr ⟨['*'], rfl, [d], (mem_noneOf_singleton _).2 ⟨d, hd, rfl⟩, rfl⟩
  | case5 c cs hc ih =>
    obtain ⟨⟨b, r⟩, hb, he⟩ := Option.map_eq_some_iff.1 h
    cases he
    exact append_mem_kstar_mul (v := [c]) (Or.inl ((mem_noneOf_singleton _).2 ⟨c, hc, rfl⟩)) (ih hb)

/-- The texts that are block comments. -/
theorem mem_blockComment {w : List Char} :
    w ∈ blockComment ↔ ∃ body ∈ commentTail, w = '/' :: '*' :: body := by
  rw [blockComment, mul_assoc]
  constructor
  · rintro ⟨_, rfl, body, hbody, rfl⟩
    exact ⟨body, hbody, rfl⟩
  · rintro ⟨body, hbody, rfl⟩
    exact Language.append_mem_mul (a := ['/', '*']) rfl hbody

end Pattern

end SchemaDiagram.Lexeme
