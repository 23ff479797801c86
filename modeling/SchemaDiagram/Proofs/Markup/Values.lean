import SchemaDiagram.Diagram.Markup
import SchemaDiagram.Document.Column
import SchemaDiagram.Proofs.Markup.Words
import SchemaDiagram.Proofs.Number.RoundTrip

/-!
# Names and values in markup

Each name and each value of the markup is one word, and the word says what was written: a name has
the name as its value, in quotes or without them, and a word without quotes is no keyword that would
be structure in its place.
-/

namespace SchemaDiagram.Document

open Lexeme Lexeme.Pattern

/-! ## Fixed words -/

/-- Whether a text is a word of letters. -/
def isLetters (s : String) : Bool :=
  match s.toList with
  | [] => false
  | c :: cs => startsWord c && cs.all continuesWord

/-- Letters make a word. -/
theorem mem_word_of_isLetters {s : String} (h : isLetters s = true) :
    s.toList ∈ Pattern.word := by
  unfold isLetters at h
  split at h
  · cases h
  · next c cs hs =>
    rw [Bool.and_eq_true, List.all_eq_true] at h
    rw [hs]
    exact mem_word.2 ⟨c, cs, rfl, h.1, h.2⟩

/-- A word of letters, without comments before it. -/
def letterWord (s : String) : Word := ⟨[], wordKind s.toList, s⟩

/-- A mark, without comments before it. -/
def markWord (m : Mark) : Word := ⟨[], .mark m, String.ofList m.chars⟩

/-- A text in quotes, without comments before it. -/
def quotedWord (q : Text.Quote) (s : String) : Word := ⟨[], .string q, Text.quoted q s⟩

/-- The word of letters stands for these. -/
@[simp] theorem value_letterWord (s : String) : (letterWord s).value = s := by
  unfold letterWord Word.value wordKind
  cases Keyword.ofWord? (String.ofList s.toList) <;> rfl

/-- The word of a quoted text stands for the text. -/
@[simp] theorem value_quotedWord (q : Text.Quote) (s : String) : (quotedWord q s).value = s :=
  Text.unquoted_quoted q s

/-! ## Names -/

/-- What the token of a name is. -/
def nameKind (n : String) : TokenKind :=
  if Markup.isBareName n then wordKind n.toList else .string .double

/-- The word of a name, without comments before it. -/
def nameWord (n : String) : Word := ⟨[], nameKind n, Markup.name n⟩

/-- A name that is written bare is made of letters. -/
theorem isLetters_of_isBareName {n : String} (h : Markup.isBareName n = true) :
    isLetters n = true := by
  unfold Markup.isBareName at h
  unfold isLetters
  cases hn : n.toList with
  | nil =>
    rw [hn] at h
    exact h
  | cons c cs =>
    rw [hn] at h
    simp only [List.all_cons, Bool.and_eq_true, Bool.not_eq_true', Bool.or_eq_true,
      List.all_eq_true] at h
    obtain ⟨⟨hdigit, hc, hcs⟩, -⟩ := h
    simp only [Bool.and_eq_true, List.all_eq_true]
    refine ⟨?_, ?_⟩
    · simp only [startsWord, Bool.or_eq_true]
      rw [Char.isAlphanum, hdigit, Bool.or_false] at hc
      exact Or.inl hc
    · intro d hd
      simp only [continuesWord, startsWord, Bool.or_eq_true]
      rcases hcs d hd with halpha | hunderscore
      · rw [Char.isAlphanum, Bool.or_eq_true] at halpha
        rcases halpha with halpha | hdigit
        · exact Or.inl (Or.inl (Or.inl halpha))
        · exact Or.inr hdigit
      · exact Or.inl (Or.inl (Or.inr hunderscore))

/-- A name without quotes is no reserved word. -/
theorem nameKind_ne_keyword {n : String} {k : Keyword}
    (hk : ∀ s ∈ k.spellings, s ∈ Markup.reservedWords) : nameKind n ≠ .keyword k := by
  unfold nameKind
  split
  · next hbare =>
    intro h
    rw [wordKind_eq_keyword_iff, String.ofList_toList, ofWord?_eq_some_iff] at h
    obtain ⟨s, hs, halike⟩ := h
    have hlower : ∀ s ∈ Markup.reservedWords, Text.lower s = s := by decide
    have hn : Text.lower n = s := by
      rw [← hlower s (hk s hs)]
      exact congrArg String.ofList (beq_iff_eq.1 halike)
    have hreserved : Markup.reservedWords.contains (Text.lower n) = true := by
      rw [hn]
      exact List.contains_iff_mem.2 (hk s hs)
    unfold Markup.isBareName at hbare
    rw [hreserved] at hbare
    split at hbare
    · cases hbare
    · simp at hbare
  · intro h
    cases h

/-- A word that opens no construct is read as a name. -/
theorem isName_wordKind {w : List Char} (h : ∀ k : Keyword, k.opensConstruct = true →
    wordKind w ≠ .keyword k) : (wordKind w).isName = true := by
  cases hw : wordKind w with
  | keyword k =>
    have hk : k.opensConstruct ≠ true := fun hopens => h k hopens hw
    simpa [TokenKind.isName] using hk
  | identifier => rfl
  | _ =>
    unfold wordKind at hw
    split at hw <;> cases hw

/-- A name's word is read as a name, quoted or not. -/
theorem isName_nameKind (n : String) : (nameKind n).isName = true := by
  have hkeyword : ∀ k : Keyword, k.opensConstruct = true → nameKind n ≠ .keyword k := by
    intro k hk
    refine nameKind_ne_keyword ?_
    cases k <;> first | decide | cases hk
  unfold nameKind at hkeyword ⊢
  split
  · next hbare =>
    simp only [if_pos hbare] at hkeyword
    exact isName_wordKind hkeyword
  · rfl

/-- A name's word stands for the name. -/
@[simp] theorem value_nameWord (n : String) : (nameWord n).value = n := by
  unfold nameWord nameKind Markup.name
  by_cases h : Markup.isBareName n = true
  · rw [if_pos h, if_pos h]
    exact value_letterWord n
  · rw [if_neg h, if_neg h]
    exact value_quotedWord .double n

/-- A name is scanned as one lexeme where no character behind it goes on with a word. -/
theorem scan_name (n : String) {rest : List Char}
    (hrest : ∀ c ∈ rest.head?, continuesWord c = false) :
    scan ((Markup.name n).toList ++ rest) =
      some ⟨some (nameKind n), (Markup.name n).toList, rest⟩ := by
  unfold Markup.name nameKind
  by_cases hbare : Markup.isBareName n = true
  · rw [if_pos hbare, if_pos hbare]
    exact scan_letters (mem_word_of_isLetters (isLetters_of_isBareName hbare)) hrest
  · rw [if_neg hbare, if_neg hbare]
    exact scan_quoted .double n rest

/-- A name's word is no color. -/
theorem nameKind_ne_color (n : String) : nameKind n ≠ .color := by
  intro h
  have hname := isName_nameKind n
  rw [h] at hname
  cases hname

/-- A name's word is no comment. -/
theorem nameKind_ne_comment (n : String) : nameKind n ≠ .comment := by
  intro h
  have hname := isName_nameKind n
  rw [h] at hname
  cases hname

/-- A name in front of a character that goes on with no word. -/
theorem Lexes.name {comments : List String} {rest : List Char} {ws : List Word} (n : String)
    {c : Char} (hc : continuesWord c = false) (h : Lexes [] (c :: rest) ws) :
    Lexes comments ((Markup.name n).toList ++ c :: rest) ({ nameWord n with comments } :: ws) := by
  have hscan := @scan_name n (c :: rest) (by rintro d ⟨⟩; exact hc)
  have hword : Lexes comments _ _ := Lexes.word hscan (nameKind_ne_comment n)
    (fun hcolor => absurd hcolor (nameKind_ne_color n)) h
  rwa [String.ofList_toList] at hword

/-! ## Numbers and colors -/

/-- A numeral with an optional minus is read as a number. -/
theorem readAs_number {sign whole fraction : List Char} (hsign : sign = [] ∨ sign = ['-'])
    (hwhole : Number.AreDigits whole) (hfraction : ∀ c ∈ fraction, c.isDigit = true) :
    ReadAs (sign ++ Number.numeral whole fraction) (some .number) := by
  have hdigits : whole ∈ digits := mem_digits.2 hwhole
  unfold Number.numeral
  split
  · exact Shape.readAs (.whole (mem_wholeNumber.2 ⟨sign, whole, hsign, hdigits, rfl⟩))
  · next hne =>
    refine Shape.readAs (.decimal (mem_decimalNumber.2 ⟨sign, whole, fraction, hsign, hdigits, ?_, ?_⟩))
    · exact mem_digits.2 ⟨hne, hfraction⟩
    · simp

/-- The word of a finite number. -/
def numberWord (x : Number) : Word := ⟨[], .number, x.plainText⟩

/-- A finite number is scanned as its word, if what follows does not continue it. -/
theorem Lexes.number {comments : List String} {rest : List Char} {ws : List Word} {x : Number}
    (hx : x.isFinite = true) {c : Char} (hc : separates c = true) (h : Lexes [] (c :: rest) ws) :
    Lexes comments (x.plainText.toList ++ c :: rest) ({ numberWord x with comments } :: ws) := by
  obtain ⟨negative, whole, fraction, hwhole, hfraction, htext, -⟩ :=
    Number.exists_numeral_plainText hx
  have hsign : (if negative then ['-'] else []) = [] ∨ (if negative then ['-'] else []) = ['-'] := by
    cases negative <;> simp
  have hread := readAs_number hsign hwhole hfraction
  rw [← htext] at hread
  have hword : Lexes comments _ _ := Lexes.token hread nofun nofun hc h
  rwa [String.ofList_toList] at hword

/-- A hexadecimal digit continues a color. -/
theorem continuesColor_of_isHexDigit {c : Char} (h : Text.isHexDigit c = true) :
    continuesColor c = true := by
  simp only [Text.isHexDigit, Bool.or_eq_true, Bool.and_eq_true, decide_eq_true_eq] at h
  simp only [continuesColor, Char.isAlphanum, Char.isAlpha, Char.isUpper, Char.isLower,
    Bool.or_eq_true, Bool.and_eq_true, decide_eq_true_eq]
  rcases h with (hdigit | hlower) | hupper
  · exact Or.inl (Or.inr hdigit)
  · exact Or.inl (Or.inl (Or.inr ⟨hlower.1, UInt32.le_trans hlower.2 (by decide)⟩))
  · exact Or.inl (Or.inl (Or.inl ⟨hupper.1, UInt32.le_trans hupper.2 (by decide)⟩))

/-- The word of a color. -/
def colorWord (color : Color) : Word := ⟨[], .color, color.text⟩

/-- A color is scanned as its word, if what follows does not continue it. -/
theorem Lexes.color {comments : List String} {rest : List Char} {ws : List Word} (color : Color)
    {c : Char} (hc : separates c = true) (h : Lexes [] (c :: rest) ws) :
    Lexes comments (color.text.toList ++ c :: rest) ({ colorWord color with comments } :: ws) := by
  have hread : ReadAs color.text.toList (some .color) := by
    obtain ⟨ds, hds, -, hhex⟩ := color.isLiteral
    exact Shape.readAs (.color (mem_colorLiteral.2
      ⟨ds, hds, fun d hd => continuesColor_of_isHexDigit (hhex d hd)⟩))
  have hword : Lexes comments _ _ := Lexes.token hread nofun (fun _ => color.isLiteral) hc h
  rwa [String.ofList_toList] at hword

/-! ## Defaults -/

/-- A numeral is a sign, digits and maybe a fraction. -/
theorem exists_numeral_of_isNumeral {cs : List Char} (h : Markup.isNumeral cs = true) :
    ∃ sign whole fraction, (sign = [] ∨ sign = ['-']) ∧ Number.AreDigits whole ∧
      (∀ c ∈ fraction, c.isDigit = true) ∧ cs = sign ++ Number.numeral whole fraction := by
  have hdigits : ∀ ds : List Char, (!ds.isEmpty && ds.all Char.isDigit) = true →
      Number.AreDigits ds := by
    intro ds hds
    rw [Bool.and_eq_true, List.all_eq_true] at hds
    exact ⟨by simpa using hds.1, hds.2⟩
  have hunsigned : ∀ ds : List Char,
      (match ds.dropWhile (· ≠ '.') with
        | [] => !ds.isEmpty && ds.all Char.isDigit
        | _ :: fraction => (!(ds.takeWhile (· ≠ '.')).isEmpty &&
            (ds.takeWhile (· ≠ '.')).all Char.isDigit) &&
          (!fraction.isEmpty && fraction.all Char.isDigit)) = true →
      ∃ whole fraction, Number.AreDigits whole ∧ (∀ c ∈ fraction, c.isDigit = true) ∧
        ds = Number.numeral whole fraction := by
    intro ds hds
    split at hds
    · exact ⟨ds, [], hdigits ds hds, by simp, by simp [Number.numeral]⟩
    · next d fraction hdrop =>
      rw [Bool.and_eq_true] at hds
      have hfraction := hdigits _ hds.2
      obtain rfl : d = '.' := by
        have hhead := List.head?_dropWhile_not (fun x => decide (x ≠ '.')) ds
        rw [hdrop] at hhead
        simpa using hhead
      refine ⟨_, fraction, hdigits _ hds.1, hfraction.2, ?_⟩
      rw [Number.numeral, if_neg hfraction.1, ← hdrop, List.takeWhile_append_dropWhile]
  unfold Markup.isNumeral at h
  split at h
  · obtain ⟨whole, fraction, hwhole, hfraction, hds⟩ := hunsigned _ h
    exact ⟨['-'], whole, fraction, Or.inr rfl, hwhole, hfraction, by rw [hds]; rfl⟩
  · obtain ⟨whole, fraction, hwhole, hfraction, hds⟩ := hunsigned _ h
    exact ⟨[], whole, fraction, Or.inl rfl, hwhole, hfraction, hds⟩

/-- The word of a column's default. -/
def defaultWord (value : String) : Word :=
  if (value.toList.contains '(' && value.toList.contains ')') = true then
    quotedWord .backtick value
  else if Markup.isNumeral value.toList = true then ⟨[], .number, value⟩
  else if Markup.isBareDefault value = true then letterWord value
  else quotedWord .single value

/-- A word that is spelled like one in letters is itself one in letters. -/
theorem isLetters_of_spelledAlike {s word : String} (h : Text.spelledAlike s word = true)
    (hword : word.toList ≠ [] ∧ (word.toList.map Char.toLower).all startsWord = true) :
    isLetters s = true := by
  have hmap : s.toList.map Char.toLower = word.toList.map Char.toLower := beq_iff_eq.1 h
  have hall : ∀ c ∈ s.toList, startsWord c = true := by
    intro c hc
    apply startsWord_of_toLower
    apply List.all_eq_true.1 hword.2
    rw [← hmap]
    exact List.mem_map_of_mem hc
  unfold isLetters
  cases hs : s.toList with
  | nil =>
    rw [hs] at hmap
    exact absurd (List.map_eq_nil_iff.1 hmap.symm) hword.1
  | cons c cs =>
    rw [hs] at hall
    obtain ⟨hc, hcs⟩ := List.forall_mem_cons.1 hall
    simp only [Bool.and_eq_true, List.all_eq_true]
    refine ⟨hc, fun d hd => ?_⟩
    rw [continuesWord, hcs d hd, Bool.true_or]

/-- A bare default that is no numeral is a word that opens no construct, or null. -/
theorem isLetters_of_isBareDefault {value : String} (h : Markup.isBareDefault value = true)
    (hnumeral : Markup.isNumeral value.toList ≠ true) :
    isLetters value = true ∧ (wordKind value.toList = .identifier ∨
      wordKind value.toList = .keyword .null) := by
  rw [Markup.isBareDefault, Bool.or_eq_true, List.any_eq_true] at h
  rcases h with ⟨word, hword, halike⟩ | h
  · have hletters : ∀ w ∈ ["true", "false", "null"],
        w.toList ≠ [] ∧ (w.toList.map Char.toLower).all startsWord = true := by decide
    refine ⟨isLetters_of_spelledAlike halike (hletters word hword), ?_⟩
    have hspelled : ∀ k ∈ Keyword.all, ∀ s ∈ k.spellings, ∀ w ∈ ["true", "false", "null"],
        w.toList.map Char.toLower = s.toList.map Char.toLower → k = .null := by decide
    cases hkind : Keyword.ofWord? (String.ofList value.toList) with
    | none => exact Or.inl (wordKind_eq_identifier_iff.2 hkind)
    | some k =>
      refine Or.inr (wordKind_eq_keyword_iff.2 ?_)
      rw [String.ofList_toList] at hkind ⊢
      rw [hkind]
      obtain ⟨s, hs, hspells⟩ := ofWord?_eq_some_iff.1 hkind
      have hmap := (beq_iff_eq.1 halike).symm.trans (beq_iff_eq.1 hspells)
      rw [hspelled k (mem_allKeywords k) s hs word hword hmap]
  · exact absurd h hnumeral

/-- A default that is written in letters is a literal to the parser of defaults. -/
theorem defaultForm?_letterWord {value : String} (h : Markup.isBareDefault value = true)
    (hnumeral : Markup.isNumeral value.toList ≠ true) :
    Parser.defaultForm? (letterWord value).kind = some .literal := by
  rcases (isLetters_of_isBareDefault h hnumeral).2 with hkind | hkind
  · rw [letterWord, hkind]
    rfl
  · rw [letterWord, hkind]
    rfl

/-- The word of a default stands for the default. -/
@[simp] theorem value_defaultWord (value : String) : (defaultWord value).value = value := by
  unfold defaultWord
  split
  · exact value_quotedWord _ _
  split
  · rfl
  split
  · exact value_letterWord _
  · exact value_quotedWord _ _

/-- The word of a default is a token that a default may be. -/
theorem defaultForm?_defaultWord (value : String) :
    (Parser.defaultForm? (defaultWord value).kind).isSome = true := by
  unfold defaultWord
  split
  · rfl
  split
  · rfl
  · next hnumeral =>
    split
    · next hbare =>
      rw [defaultForm?_letterWord hbare hnumeral]
      rfl
    · rfl

/-- The word of a default has no comments. -/
theorem comments_defaultWord (value : String) : (defaultWord value).comments = [] := by
  unfold defaultWord
  split
  · rfl
  split
  · rfl
  split <;> rfl

/-- A default is scanned as one lexeme in front of a character that separates. -/
theorem scan_default (value : String) {c : Char} (hc : separates c = true) (rest : List Char) :
    scan ((Markup.defaultValue value).toList ++ c :: rest) =
      some ⟨some (defaultWord value).kind, (Markup.defaultValue value).toList, c :: rest⟩ := by
  unfold Markup.defaultValue defaultWord
  split
  · exact scan_quoted .backtick value _
  by_cases hnumeral : Markup.isNumeral value.toList = true
  · have hbare : Markup.isBareDefault value = true := by
      rw [Markup.isBareDefault, hnumeral, Bool.or_true]
    rw [if_pos hbare, if_pos hnumeral]
    obtain ⟨sign, whole, fraction, hsign, hwhole, hfraction, hvalue⟩ :=
      exists_numeral_of_isNumeral hnumeral
    have hread := readAs_number hsign hwhole hfraction
    rw [← hvalue] at hread
    exact scan_followed hread nofun hc rest
  · rw [if_neg hnumeral]
    by_cases hbare : Markup.isBareDefault value = true
    · rw [if_pos hbare, if_pos hbare]
      have hletters := mem_word_of_isLetters (isLetters_of_isBareDefault hbare hnumeral).1
      refine scan_letters hletters ?_
      rintro d ⟨⟩
      simp only [separates, Bool.and_eq_true, Bool.not_eq_true'] at hc
      exact hc.1.1.1
    · rw [if_neg hbare, if_neg hbare]
      exact scan_quoted .single value _

/-- The characters of a default's word are those that are written. -/
theorem text_defaultWord (value : String) :
    (defaultWord value).text = Markup.defaultValue value := by
  unfold Markup.defaultValue defaultWord
  split
  · rfl
  by_cases hnumeral : Markup.isNumeral value.toList = true
  · rw [if_pos hnumeral, if_pos (by rw [Markup.isBareDefault, hnumeral, Bool.or_true])]
  · rw [if_neg hnumeral]
    split <;> rfl

/-- A default is scanned as its word, if what follows does not continue it. -/
theorem Lexes.default {comments : List String} {rest : List Char} {ws : List Word} (value : String)
    {c : Char} (hc : separates c = true) (h : Lexes [] (c :: rest) ws) :
    Lexes comments ((Markup.defaultValue value).toList ++ c :: rest)
      ({ defaultWord value with comments } :: ws) := by
  have hform := defaultForm?_defaultWord value
  have hcomment : (defaultWord value).kind ≠ .comment := by
    intro hkind
    rw [hkind] at hform
    cases hform
  have hcolor : (defaultWord value).kind ≠ .color := by
    intro hkind
    rw [hkind] at hform
    cases hform
  have hscan := scan_default value hc rest
  rw [← text_defaultWord] at hscan ⊢
  have hword : Lexes comments _ _ := Lexes.word hscan hcomment (fun hkind => absurd hkind hcolor) h
  rwa [String.ofList_toList] at hword

end SchemaDiagram.Document
