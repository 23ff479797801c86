import SchemaDiagram.Proofs.Token.Pattern

/-!
# Scanning finds the longest lexeme

For each pattern this file says what scanning answers on a text of the pattern with anything behind
it. From that: the lexeme that scanning finds is a text of a pattern (`mem_of_scan`), it is at least
as long as any text of any pattern at the front (`scan_of_mem`), and it is of the kind that the
patterns give, a keyword going before an identifier. Together these characterise scanning without
mention of the scanner (`scan_eq_some_iff`).
-/

namespace SchemaDiagram.Lexeme

open Pattern

/-! ## What scanning answers, by the first character -/

/-- A character that starts a word is no white space. -/
theorem isSpace_eq_false_of_startsWord {c : Char} (h : startsWord c = true) :
    isSpace c = false := by
  by_contra hs
  simp only [isSpace, Bool.not_eq_false, Bool.or_eq_true, beq_iff_eq] at hs
  rcases hs with (((rfl | rfl) | rfl) | rfl) | rfl <;> revert h <;> decide

/-- A digit is no white space. -/
theorem isSpace_eq_false_of_isDigit {c : Char} (h : c.isDigit = true) : isSpace c = false := by
  by_contra hs
  simp only [isSpace, Bool.not_eq_false, Bool.or_eq_true, beq_iff_eq] at hs
  rcases hs with (((rfl | rfl) | rfl) | rfl) | rfl <;> revert h <;> decide

/-- A digit starts no word. -/
theorem startsWord_eq_false_of_isDigit {c : Char} (h : c.isDigit = true) :
    startsWord c = false := by
  rw [isDigit_iff] at h
  by_contra hs
  rw [Bool.not_eq_false, startsWord_iff] at hs
  simp only [wordStart, List.mem_cons, List.not_mem_nil, or_false, Char.le_def] at h hs
  obtain ⟨r, hr, hle⟩ := hs
  rcases hr with rfl | rfl | rfl | rfl | rfl | rfl | rfl
  all_goals
    have := UInt32.le_trans hle.1 h.2
    revert this
    decide

/-- At white space, all of it is skipped. -/
theorem scan_cons_of_isSpace {c : Char} (h : isSpace c = true) (cs : List Char) :
    scan (c :: cs) = some ⟨none, c :: cs.takeWhile isSpace, cs.dropWhile isSpace⟩ :=
  if_pos h

/-- At the start of a word, all of the word is scanned. -/
theorem scan_cons_of_startsWord {c : Char} (h : startsWord c = true) (cs : List Char) :
    scan (c :: cs) = some ⟨some (wordKind (c :: cs.takeWhile continuesWord)),
      c :: cs.takeWhile continuesWord, cs.dropWhile continuesWord⟩ :=
  (if_neg (by simp [isSpace_eq_false_of_startsWord h])).trans (if_pos h)

/-- At a digit, all of the number is scanned. -/
theorem scan_cons_of_isDigit {c : Char} (h : c.isDigit = true) (cs : List Char) :
    scan (c :: cs) = some ⟨some .number, c :: (numberTail cs).1, (numberTail cs).2⟩ :=
  (if_neg (by simp [isSpace_eq_false_of_isDigit h])).trans
    ((if_neg (by simp [startsWord_eq_false_of_isDigit h])).trans (if_pos h))

/-- At a `#`, all that continues a color is scanned. -/
theorem scan_hash (cs : List Char) :
    scan ('#' :: cs) =
      some ⟨some .color, '#' :: cs.takeWhile continuesColor, cs.dropWhile continuesColor⟩ := rfl

/-- At a quote, the text is scanned up to the quote that closes it. -/
theorem scan_quote (q : Text.Quote) (cs : List Char) :
    scan (q.char :: cs) = (stringTail? q.char cs).map fun (body, rest) =>
      ⟨some (.string q), q.char :: body, rest⟩ := by
  cases q <;> rfl

/-- At two slashes, the rest of the line is scanned. -/
theorem scan_slash_slash (cs : List Char) :
    scan ('/' :: '/' :: cs) = some ⟨some .comment, '/' :: '/' :: cs.takeWhile (· ≠ '\n'),
      cs.dropWhile (· ≠ '\n')⟩ := rfl

/-- At a slash and a star, the comment is skipped up to the mark that closes it. -/
theorem scan_slash_star (cs : List Char) :
    scan ('/' :: '*' :: cs) = (commentTail? cs).map fun (body, rest) =>
      ⟨none, '/' :: '*' :: body, rest⟩ := rfl

/-- At a minus in front of a digit, all of the number is scanned. -/
theorem scan_minus_digit {c : Char} (h : c.isDigit = true) (cs : List Char) :
    scan ('-' :: c :: cs) =
      some ⟨some .number, '-' :: c :: (numberTail cs).1, (numberTail cs).2⟩ := by
  have hscan : scan ('-' :: c :: cs) =
      if c.isDigit then some ⟨some .number, '-' :: c :: (numberTail cs).1, (numberTail cs).2⟩
      else some ⟨some (.mark .minus), ['-'], c :: cs⟩ := rfl
  rw [hscan, if_pos h]

/-- At a minus in front of no digit, the minus is scanned alone. -/
theorem scan_minus {rest : List Char} (h : ∀ c cs, rest = c :: cs → c.isDigit = false) :
    scan ('-' :: rest) = some ⟨some (.mark .minus), ['-'], rest⟩ := by
  rcases rest with _ | ⟨c, cs⟩
  · rfl
  · have hscan : scan ('-' :: c :: cs) =
        if c.isDigit then some ⟨some .number, '-' :: c :: (numberTail cs).1, (numberTail cs).2⟩
        else some ⟨some (.mark .minus), ['-'], c :: cs⟩ := rfl
    rw [hscan, if_neg (by simp [h c cs rfl])]

/-- At a `<` with no `>` behind it, the `<` is scanned alone. -/
theorem scan_less {rest : List Char} (h : ∀ cs, rest ≠ '>' :: cs) :
    scan ('<' :: rest) = some ⟨some (.mark .less), ['<'], rest⟩ := by
  unfold scan
  simp +decide only [if_neg, Text.Quote.ofChar?]
  split
  · exact absurd ‹ '<' = '/'› (by decide)
  · exact absurd ‹ '<' = '/'› (by decide)
  · exact (h _ rfl).elim
  · exact absurd ‹ '<' = '-'› (by decide)
  · rfl

/-! ## Kinds of words -/

/-- The list of all keywords has every keyword. -/
theorem mem_allKeywords (k : Keyword) : k ∈ Keyword.all := by
  cases k <;> decide

/-- The keyword that a text spells is the one whose spelling it is in any case. -/
theorem ofWord?_eq_some_iff {word : String} {k : Keyword} :
    Keyword.ofWord? word = some k ↔ ∃ s ∈ k.spellings, Text.spelledAlike word s = true := by
  have hspell : ∀ k : Keyword, (k.spellings.any (Text.spelledAlike word)) = true ↔
      ∃ s ∈ k.spellings, word.toList.map Char.toLower = s.toList.map Char.toLower := by
    intro k
    simp [Text.spelledAlike]
  have hunique : ∀ k₁ ∈ Keyword.all, ∀ k₂ ∈ Keyword.all, ∀ s ∈ k₁.spellings, ∀ t ∈ k₂.spellings,
      s.toList.map Char.toLower = t.toList.map Char.toLower → k₁ = k₂ := by
    decide
  constructor
  · intro h
    simpa using List.find?_some h
  · intro h
    have hk : (k.spellings.any (Text.spelledAlike word)) = true := by simpa using h
    cases hf : Keyword.ofWord? word with
    | none => exact absurd hk (List.find?_eq_none.1 hf k (mem_allKeywords k))
    | some l =>
      obtain ⟨s, hs, hws⟩ := (hspell k).1 hk
      unfold Keyword.ofWord? at hf
      obtain ⟨t, ht, hwt⟩ := (hspell l).1 (by simpa using List.find?_some hf)
      rw [hunique l (mem_allKeywords l) k (mem_allKeywords k) t ht s hs (hwt.symm.trans hws)]

/-- A word is no keyword exactly when it is spelled like none. -/
theorem ofWord?_eq_none_iff {word : String} :
    Keyword.ofWord? word = none ↔ ∀ k, ∀ s ∈ Keyword.spellings k, Text.spelledAlike word s = false := by
  rw [Option.eq_none_iff_forall_ne_some]
  simp [ofWord?_eq_some_iff]

/-- A keyword's pattern matches the texts that spell the keyword. -/
theorem mem_keyword_texts_iff {k : Keyword} {w : List Char} :
    (∃ p ∈ keywords, p.kind? = some (.keyword k) ∧ w ∈ p.texts) ↔
      Keyword.ofWord? (String.ofList w) = some k := by
  have hany : ∀ s : String, w ∈ anyCase s ↔ Text.spelledAlike (String.ofList w) s = true := by
    intro s
    rw [Text.spelledAlike, String.toList_ofList, beq_iff_eq]
    exact Iff.rfl
  rw [ofWord?_eq_some_iff]
  cases k <;> simp [keywords, Keyword.spellings, hany]

/-- The patterns of keywords are no others. -/
theorem exists_keyword_of_mem_keywords {p : Pattern} (hp : p ∈ keywords) :
    ∃ k, p.kind? = some (.keyword k) := by
  simp only [keywords, List.mem_cons, List.not_mem_nil, or_false] at hp
  rcases hp with rfl | rfl | rfl | rfl | rfl | rfl | rfl | rfl | rfl | rfl | rfl | rfl | rfl |
    rfl | rfl <;> exact ⟨_, rfl⟩

/-- A word is the keyword that it spells. -/
theorem wordKind_eq_keyword_iff {w : List Char} {k : Keyword} :
    wordKind w = .keyword k ↔ Keyword.ofWord? (String.ofList w) = some k := by
  unfold wordKind
  cases Keyword.ofWord? (String.ofList w) <;> simp

/-- A word is an identifier if it spells no keyword. -/
theorem wordKind_eq_identifier_iff {w : List Char} :
    wordKind w = .identifier ↔ Keyword.ofWord? (String.ofList w) = none := by
  unfold wordKind
  cases Keyword.ofWord? (String.ofList w) <;> simp

/-- A word spells no keyword if no keyword's pattern matches it. -/
theorem ofWord?_eq_none_iff_texts {w : List Char} :
    Keyword.ofWord? (String.ofList w) = none ↔ ∀ p ∈ keywords, w ∉ p.texts := by
  constructor
  · intro h p hp hw
    obtain ⟨k, hk⟩ := exists_keyword_of_mem_keywords hp
    rw [mem_keyword_texts_iff.1 ⟨p, hp, hk, hw⟩] at h
    cases h
  · intro h
    cases hw : Keyword.ofWord? (String.ofList w) with
    | none => rfl
    | some k =>
      obtain ⟨p, hp, -, hmem⟩ := mem_keyword_texts_iff.2 hw
      exact absurd hmem (h p hp)

/-- A character starts a word if it does in lower case. -/
theorem startsWord_of_toLower {c : Char} (h : startsWord c.toLower = true) :
    startsWord c = true := by
  unfold Char.toLower at h
  split at h
  · next hc => exact startsWord_iff.2 ⟨('A', 'Z'), by simp [wordStart], hc⟩
  · exact h

/-- The spelling of a keyword is a word: it has only letters and underscores. -/
theorem mem_word_of_mem_keyword {p : Pattern} (hp : p ∈ keywords) {w : List Char}
    (hw : w ∈ p.texts) : w ∈ word := by
  obtain ⟨k, hk⟩ := exists_keyword_of_mem_keywords hp
  obtain ⟨s, hs, hws⟩ := ofWord?_eq_some_iff.1 (mem_keyword_texts_iff.1 ⟨p, hp, hk, hw⟩)
  have hmap : w.map Char.toLower = s.toList.map Char.toLower := by
    simpa [Text.spelledAlike] using hws
  have hletters : ∀ k ∈ Keyword.all, ∀ s ∈ k.spellings,
      s.toList ≠ [] ∧ (s.toList.map Char.toLower).all startsWord = true := by
    decide
  have hletters := hletters k (mem_allKeywords k) s hs
  have hall : ∀ c ∈ w, startsWord c = true := by
    intro c hc
    apply startsWord_of_toLower
    apply List.all_eq_true.1 hletters.2
    rw [← hmap]
    exact List.mem_map_of_mem hc
  cases w with
  | nil => exact absurd (by simpa using hmap.symm) hletters.1
  | cons c cs =>
    refine mem_word.2 ⟨c, cs, rfl, hall c List.mem_cons_self, ?_⟩
    intro d hd
    simp [continuesWord, hall d (List.mem_cons_of_mem _ hd)]

/-! ## What scanning answers on the texts of a pattern -/

/-- A run of characters ends in front of one that does not belong to it. -/
theorem run_of_head? {p : Char → Bool} {rest : List Char} (h : ∀ c ∈ rest.head?, p c = false) :
    rest.takeWhile p = [] ∧ rest.dropWhile p = rest := by
  rcases rest with _ | ⟨c, rest⟩
  · exact ⟨rfl, rfl⟩
  · have hc : ¬ p c = true := by simp [h c rfl]
    exact ⟨List.takeWhile_cons_of_neg hc, List.dropWhile_cons_of_neg hc⟩

/-- White space at the front is skipped with all that follows it. -/
theorem scan_whitespace {w : List Char} (hw : w ∈ whitespace) (rest : List Char) :
    scan (w ++ rest) =
      some ⟨none, w ++ rest.takeWhile isSpace, rest.dropWhile isSpace⟩ := by
  obtain ⟨hne, hall⟩ := mem_whitespace.1 hw
  obtain ⟨c, cs, rfl⟩ := List.exists_cons_of_ne_nil hne
  have hcs : ∀ d ∈ cs, isSpace d = true := fun d hd => hall d (List.mem_cons_of_mem _ hd)
  rw [List.cons_append, scan_cons_of_isSpace (hall c List.mem_cons_self),
    List.takeWhile_append_of_pos hcs, List.dropWhile_append_of_pos hcs]
  rfl

/-- A word at the front is scanned with all that continues it. -/
theorem scan_word {w : List Char} (hw : w ∈ word) (rest : List Char) :
    scan (w ++ rest) = some ⟨some (wordKind (w ++ rest.takeWhile continuesWord)),
      w ++ rest.takeWhile continuesWord, rest.dropWhile continuesWord⟩ := by
  obtain ⟨c, cs, rfl, hc, hcs⟩ := mem_word.1 hw
  rw [List.cons_append, scan_cons_of_startsWord hc, List.takeWhile_append_of_pos hcs,
    List.dropWhile_append_of_pos hcs]
  rfl

/-- A color at the front is scanned with all that continues it. -/
theorem scan_colorLiteral {w : List Char} (hw : w ∈ colorLiteral) (rest : List Char) :
    scan (w ++ rest) = some ⟨some .color, w ++ rest.takeWhile continuesColor,
      rest.dropWhile continuesColor⟩ := by
  obtain ⟨cs, rfl, hcs⟩ := mem_colorLiteral.1 hw
  rw [List.cons_append, scan_hash, List.takeWhile_append_of_pos hcs,
    List.dropWhile_append_of_pos hcs]
  rfl

/-- A line comment at the front is scanned with the rest of its line. -/
theorem scan_lineComment {w : List Char} (hw : w ∈ lineComment) (rest : List Char) :
    scan (w ++ rest) = some ⟨some .comment, w ++ rest.takeWhile (· ≠ '\n'),
      rest.dropWhile (· ≠ '\n')⟩ := by
  obtain ⟨cs, rfl, hcs⟩ := mem_lineComment.1 hw
  have hcs : ∀ c ∈ cs, decide (c ≠ '\n') = true := by
    intro c hc
    exact decide_eq_true fun h => hcs (h ▸ hc)
  rw [List.cons_append, List.cons_append, scan_slash_slash, List.takeWhile_append_of_pos hcs,
    List.dropWhile_append_of_pos hcs]
  rfl

/-- A quoted text at the front is scanned alone. -/
theorem scan_quotedText {q : Text.Quote} {w : List Char} (hw : w ∈ quotedText q.char)
    (rest : List Char) : scan (w ++ rest) = some ⟨some (.string q), w, rest⟩ := by
  obtain ⟨body, hbody, rfl⟩ := mem_quotedText.1 hw
  have hq : q.char ≠ '\\' := by cases q <;> decide
  rw [List.cons_append, scan_quote, stringTail?_of_mem_quotedTail hq hbody]
  rfl

/-- A block comment at the front is skipped alone. -/
theorem scan_blockComment {w : List Char} (hw : w ∈ blockComment) (rest : List Char) :
    scan (w ++ rest) = some ⟨none, w, rest⟩ := by
  obtain ⟨body, hbody, rfl⟩ := mem_blockComment.1 hw
  rw [List.cons_append, List.cons_append, scan_slash_star, commentTail?_of_mem_commentTail hbody]
  rfl

/-- Digits at the front belong to the number. -/
theorem numberTail_append {ds : List Char} (hds : ∀ d ∈ ds, d.isDigit = true)
    (rest : List Char) :
    numberTail (ds ++ rest) = (ds ++ (numberTail rest).1, (numberTail rest).2) := by
  simp only [numberTail, List.takeWhile_append_of_pos hds, List.dropWhile_append_of_pos hds,
    List.append_assoc]

/-- A fraction at the front belongs to the number, with all digits that follow it. -/
theorem numberTail_fraction {es : List Char} (hes : es ∈ digits) (rest : List Char) :
    numberTail ('.' :: es ++ rest) =
      ('.' :: es ++ rest.takeWhile Char.isDigit, rest.dropWhile Char.isDigit) := by
  obtain ⟨hne, hall⟩ := mem_digits.1 hes
  obtain ⟨e, es, rfl⟩ := List.exists_cons_of_ne_nil hne
  have he : e.isDigit = true := hall e List.mem_cons_self
  have hes : ∀ d ∈ es, d.isDigit = true := fun d hd => hall d (List.mem_cons_of_mem _ hd)
  have hdot : ('.' : Char).isDigit = false := by decide
  simp only [numberTail, List.cons_append, List.takeWhile_cons, List.dropWhile_cons, hdot,
    Bool.false_eq_true, if_false, List.nil_append, fraction, he, if_true,
    List.takeWhile_append_of_pos hes, List.dropWhile_append_of_pos hes]

/-- A sign and a digit start a number. -/
theorem scan_sign_digit {sign : List Char} (hsign : sign = [] ∨ sign = ['-']) {d : Char}
    (hd : d.isDigit = true) (cs : List Char) :
    scan (sign ++ d :: cs) =
      some ⟨some .number, sign ++ d :: (numberTail cs).1, (numberTail cs).2⟩ := by
  rcases hsign with rfl | rfl
  · exact scan_cons_of_isDigit hd cs
  · exact scan_minus_digit hd cs

/-- A whole number at the front is scanned with all that continues it. -/
theorem scan_wholeNumber {w : List Char} (hw : w ∈ wholeNumber) (rest : List Char) :
    scan (w ++ rest) =
      some ⟨some .number, w ++ (numberTail rest).1, (numberTail rest).2⟩ := by
  obtain ⟨sign, ds, hsign, hds, rfl⟩ := mem_wholeNumber.1 hw
  obtain ⟨hne, hall⟩ := mem_digits.1 hds
  obtain ⟨d, ds, rfl⟩ := List.exists_cons_of_ne_nil hne
  have hds : ∀ c ∈ ds, c.isDigit = true := fun c hc => hall c (List.mem_cons_of_mem _ hc)
  rw [List.append_assoc, List.cons_append, scan_sign_digit hsign (hall d List.mem_cons_self),
    numberTail_append hds]
  simp

/-- A number with a fraction at the front is scanned with all digits that follow it. -/
theorem scan_decimalNumber {w : List Char} (hw : w ∈ decimalNumber) (rest : List Char) :
    scan (w ++ rest) = some ⟨some .number, w ++ rest.takeWhile Char.isDigit,
      rest.dropWhile Char.isDigit⟩ := by
  obtain ⟨sign, ds, es, hsign, hds, hes, rfl⟩ := mem_decimalNumber.1 hw
  obtain ⟨hne, hall⟩ := mem_digits.1 hds
  obtain ⟨d, ds, rfl⟩ := List.exists_cons_of_ne_nil hne
  have hds : ∀ c ∈ ds, c.isDigit = true := fun c hc => hall c (List.mem_cons_of_mem _ hc)
  rw [List.append_assoc, List.append_assoc, List.cons_append,
    scan_sign_digit hsign (hall d List.mem_cons_self), numberTail_append hds,
    numberTail_fraction hes]
  simp

/-- A mark is read, or the longer lexeme that it starts. -/
theorem scan_mark (m : Mark) (rest : List Char) :
    ∃ lexeme, scan (m.chars ++ rest) = some lexeme ∧ m.chars <+: lexeme.text ∧
      (lexeme.text = m.chars → lexeme.kind? = some (.mark m)) := by
  cases m
  case less =>
    by_cases h : ∃ cs, rest = '>' :: cs
    · obtain ⟨cs, rfl⟩ := h
      exact ⟨_, rfl, ⟨['>'], rfl⟩, fun h => absurd h (by simp [Mark.chars])⟩
    · exact ⟨_, scan_less fun cs hcs => h ⟨cs, hcs⟩, List.prefix_refl _, fun _ => rfl⟩
  case minus =>
    by_cases h : ∃ c cs, rest = c :: cs ∧ c.isDigit = true
    · obtain ⟨c, cs, rfl, hc⟩ := h
      exact ⟨_, scan_minus_digit hc cs, ⟨_, rfl⟩, fun h => absurd h (by simp [Mark.chars])⟩
    · have hrest : ∀ c cs, rest = c :: cs → c.isDigit = false := by
        intro c cs hcs
        by_contra hc
        exact h ⟨c, cs, hcs, by simpa using hc⟩
      exact ⟨_, scan_minus hrest, List.prefix_refl _, fun _ => rfl⟩
  all_goals exact ⟨_, rfl, List.prefix_refl _, fun _ => rfl⟩

/-! ## Scanning and the patterns -/

/-- The patterns of marks are those of the marks' characters. -/
theorem mem_marks_iff {p : Pattern} :
    p ∈ marks ↔ ∃ m : Mark, p = ⟨some (.mark m), {m.chars}⟩ := by
  constructor
  · intro hp
    simp only [marks, List.mem_cons, List.not_mem_nil, or_false] at hp
    rcases hp with rfl | rfl | rfl | rfl | rfl | rfl | rfl | rfl | rfl | rfl | rfl | rfl | rfl |
      rfl <;> exact ⟨_, rfl⟩
  · rintro ⟨m, rfl⟩
    simp only [marks, List.mem_cons, List.not_mem_nil, or_false]
    cases m <;> simp [exactly, Mark.chars]

/-- A pattern matches the text. -/
def Matched (w : List Char) : Prop := ∃ p ∈ Pattern.all, w ∈ p.texts

/-- A text is read as a token of some kind, or skipped: a pattern says so, and the patterns of
keywords go before that of identifiers. -/
structure ReadAs (w : List Char) (kind? : Option TokenKind) : Prop where
  /-- A pattern of that kind matches the text. -/
  matched : ∃ p ∈ Pattern.all, p.kind? = kind? ∧ w ∈ p.texts
  /-- An identifier is no keyword. -/
  keywordFirst : kind? = some .identifier → ∀ p ∈ keywords, w ∉ p.texts

/-- The texts that are read as lexemes, one constructor for each family of patterns. -/
inductive Shape : List Char → Option TokenKind → Prop
  | whitespace {w} (hw : w ∈ whitespace) : Shape w none
  | blockComment {w} (hw : w ∈ blockComment) : Shape w none
  | word {w} (hw : w ∈ word) : Shape w (some (wordKind w))
  | mark (m : Mark) : Shape m.chars (some (.mark m))
  | quoted (q : Text.Quote) {w} (hw : w ∈ quotedText q.char) : Shape w (some (.string q))
  | whole {w} (hw : w ∈ wholeNumber) : Shape w (some .number)
  | decimal {w} (hw : w ∈ decimalNumber) : Shape w (some .number)
  | color {w} (hw : w ∈ colorLiteral) : Shape w (some .color)
  | comment {w} (hw : w ∈ lineComment) : Shape w (some .comment)

/-- A text that is read as a lexeme has a shape. -/
theorem ReadAs.shape {w : List Char} {kind? : Option TokenKind} (h : ReadAs w kind?) :
    Shape w kind? := by
  obtain ⟨⟨p, hp, rfl, hw⟩, hfirst⟩ := h
  simp only [Pattern.all, List.mem_append] at hp
  rcases hp with (((hp | hp) | hp) | hp) | hp
  · simp only [skipped, List.mem_cons, List.not_mem_nil, or_false] at hp
    rcases hp with rfl | rfl
    · exact .whitespace hw
    · exact .blockComment hw
  · obtain ⟨k, hk⟩ := exists_keyword_of_mem_keywords hp
    have hkind : p.kind? = some (wordKind w) := by
      rw [hk, wordKind, mem_keyword_texts_iff.1 ⟨p, hp, hk, hw⟩]
    rw [hkind]
    exact .word (mem_word_of_mem_keyword hp hw)
  · obtain ⟨m, rfl⟩ := mem_marks_iff.1 hp
    obtain rfl : w = m.chars := hw
    exact .mark m
  · simp only [literals, List.mem_cons, List.not_mem_nil, or_false] at hp
    rcases hp with rfl | rfl | rfl | rfl | rfl | rfl | rfl
    · exact .quoted .double hw
    · exact .quoted .single hw
    · exact .quoted .backtick hw
    · exact .whole hw
    · exact .decimal hw
    · exact .color hw
    · exact .comment hw
  · obtain rfl := List.mem_singleton.1 hp
    rw [← wordKind_eq_identifier_iff.2 (ofWord?_eq_none_iff_texts.2 (hfirst rfl))]
    exact .word hw

/-- A text of a pattern that is not the identifiers' is read by it. -/
theorem readAs_of_mem {p : Pattern} (hp : p ∈ Pattern.all) {w : List Char} (hw : w ∈ p.texts)
    (hkind : p.kind? ≠ some .identifier) : ReadAs w p.kind? :=
  ⟨⟨p, hp, rfl, hw⟩, fun h => absurd h hkind⟩

/-- A text with a shape is read as a lexeme. -/
theorem Shape.readAs {w : List Char} {kind? : Option TokenKind} (h : Shape w kind?) :
    ReadAs w kind? := by
  cases h with
  | whitespace hw =>
    have hp : ⟨none, Pattern.whitespace⟩ ∈ Pattern.all := by simp [Pattern.all, skipped]
    exact readAs_of_mem hp hw (by simp)
  | blockComment hw =>
    have hp : ⟨none, Pattern.blockComment⟩ ∈ Pattern.all := by simp [Pattern.all, skipped]
    exact readAs_of_mem hp hw (by simp)
  | word hw =>
    cases hk : Keyword.ofWord? (String.ofList w) with
    | none =>
      have hp : ⟨some .identifier, Pattern.word⟩ ∈ Pattern.all := by simp [Pattern.all]
      have hkind : wordKind w = .identifier := by rw [wordKind, hk]
      rw [hkind]
      exact ⟨⟨_, hp, rfl, hw⟩, fun _ => ofWord?_eq_none_iff_texts.1 hk⟩
    | some k =>
      obtain ⟨p, hp, hpk, hpw⟩ := mem_keyword_texts_iff.2 hk
      have hkind : some (wordKind w) = p.kind? := by rw [hpk, wordKind, hk]
      rw [hkind]
      exact readAs_of_mem (by simp [Pattern.all, hp]) hpw (by simp [hpk])
  | mark m =>
    have hm : ⟨some (.mark m), {m.chars}⟩ ∈ marks := mem_marks_iff.2 ⟨m, rfl⟩
    have hp : ⟨some (.mark m), {m.chars}⟩ ∈ Pattern.all := by
      simp only [Pattern.all, List.mem_append, hm, true_or, or_true]
    exact readAs_of_mem hp rfl (by simp)
  | quoted q hw =>
    have hp : ⟨some (.string q), quotedText q.char⟩ ∈ Pattern.all := by
      cases q <;> simp [Pattern.all, literals, Text.Quote.char]
    exact readAs_of_mem hp hw (by simp)
  | whole hw =>
    have hp : ⟨some .number, wholeNumber⟩ ∈ Pattern.all := by simp [Pattern.all, literals]
    exact readAs_of_mem hp hw (by simp)
  | decimal hw =>
    have hp : ⟨some .number, decimalNumber⟩ ∈ Pattern.all := by simp [Pattern.all, literals]
    exact readAs_of_mem hp hw (by simp)
  | color hw =>
    have hp : ⟨some .color, colorLiteral⟩ ∈ Pattern.all := by simp [Pattern.all, literals]
    exact readAs_of_mem hp hw (by simp)
  | comment hw =>
    have hp : ⟨some .comment, lineComment⟩ ∈ Pattern.all := by simp [Pattern.all, literals]
    exact readAs_of_mem hp hw (by simp)

/-- A text of the patterns at the front is a part of the lexeme that scanning finds there, and if it
is all of it, the lexeme is what the text is read as. -/
theorem scan_of_readAs {w : List Char} {kind? : Option TokenKind} (h : ReadAs w kind?)
    (rest : List Char) :
    ∃ lexeme, scan (w ++ rest) = some lexeme ∧ w <+: lexeme.text ∧
      (lexeme.text = w → lexeme.kind? = kind?) := by
  cases h.shape with
  | whitespace hw => exact ⟨_, scan_whitespace hw rest, List.prefix_append _ _, fun _ => rfl⟩
  | blockComment hw => exact ⟨_, scan_blockComment hw rest, List.prefix_refl _, fun _ => rfl⟩
  | word hw =>
    refine ⟨_, scan_word hw rest, List.prefix_append _ _, ?_⟩
    intro htext
    simp only at htext ⊢
    rw [htext]
  | mark m => exact scan_mark m rest
  | quoted q hw => exact ⟨_, scan_quotedText hw rest, List.prefix_refl _, fun _ => rfl⟩
  | whole hw => exact ⟨_, scan_wholeNumber hw rest, List.prefix_append _ _, fun _ => rfl⟩
  | decimal hw => exact ⟨_, scan_decimalNumber hw rest, List.prefix_append _ _, fun _ => rfl⟩
  | color hw => exact ⟨_, scan_colorLiteral hw rest, List.prefix_append _ _, fun _ => rfl⟩
  | comment hw => exact ⟨_, scan_lineComment hw rest, List.prefix_append _ _, fun _ => rfl⟩

/-- A number's text after its sign and first digit. -/
theorem shape_number {sign : List Char} (hsign : sign = [] ∨ sign = ['-']) {d : Char}
    (hd : d.isDigit = true) (cs : List Char) :
    Shape (sign ++ d :: (numberTail cs).1) (some .number) := by
  have hwhole : d :: cs.takeWhile Char.isDigit ∈ digits := by
    refine mem_digits.2 ⟨by simp, ?_⟩
    intro c hc
    rcases List.mem_cons.1 hc with rfl | hc
    · exact hd
    · exact List.mem_takeWhile_imp hc
  unfold numberTail fraction
  split
  · next e es _ =>
    by_cases he : e.isDigit = true
    · have hfraction : e :: es.takeWhile Char.isDigit ∈ digits := by
        refine mem_digits.2 ⟨by simp, ?_⟩
        intro c hc
        rcases List.mem_cons.1 hc with rfl | hc
        · exact he
        · exact List.mem_takeWhile_imp hc
      simp only [if_pos he]
      exact .decimal (mem_decimalNumber.2 ⟨sign, _, _, hsign, hwhole, hfraction, by simp⟩)
    · simp only [if_neg he, List.append_nil]
      exact .whole (mem_wholeNumber.2 ⟨sign, _, hsign, hwhole, rfl⟩)
  · simp only [List.append_nil]
    exact .whole (mem_wholeNumber.2 ⟨sign, _, hsign, hwhole, rfl⟩)

/-- The lexeme that scanning finds is a text of the patterns. -/
theorem shape_of_scan {cs : List Char} {lexeme : Lexeme} (h : scan cs = some lexeme) :
    Shape lexeme.text lexeme.kind? := by
  revert h
  unfold scan
  split
  · intro h
    cases h
  next c cs =>
  split
  · next hc =>
    rintro ⟨⟩
    refine .whitespace (mem_whitespace.2 ⟨by simp, ?_⟩)
    intro d hd
    rcases List.mem_cons.1 hd with rfl | hd
    · exact hc
    · exact List.mem_takeWhile_imp hd
  split
  · next hc =>
    rintro ⟨⟩
    exact .word (mem_word.2 ⟨c, _, rfl, hc, fun d hd => List.mem_takeWhile_imp hd⟩)
  split
  · next hc =>
    rintro ⟨⟩
    exact shape_number (Or.inl rfl) hc cs
  split
  · next hc =>
    rintro ⟨⟩
    subst hc
    exact .color (mem_colorLiteral.2 ⟨_, rfl, fun d hd => List.mem_takeWhile_imp hd⟩)
  split
  · next q hq =>
    intro h
    obtain ⟨⟨body, rest⟩, hb, rfl⟩ := Option.map_eq_some_iff.1 h
    obtain rfl := Text.Quote.ofChar?_eq_some_iff.1 hq
    exact .quoted q (mem_quotedText.2 ⟨body, mem_quotedTail_of_stringTail? hb, rfl⟩)
  split
  · rintro ⟨⟩
    refine .comment (mem_lineComment.2 ⟨_, rfl, ?_⟩)
    intro hmem
    simpa using List.mem_takeWhile_imp hmem
  · intro h
    obtain ⟨⟨body, rest⟩, hb, rfl⟩ := Option.map_eq_some_iff.1 h
    exact .blockComment (mem_blockComment.2 ⟨body, mem_commentTail_of_commentTail? hb, rfl⟩)
  · rintro ⟨⟩
    exact .mark .lessGreater
  · split
    · next hd =>
      rintro ⟨⟩
      exact shape_number (Or.inr rfl) hd _
    · rintro ⟨⟩
      exact .mark .minus
  · intro h
    obtain ⟨m, hm, rfl⟩ := Option.map_eq_some_iff.1 h
    have hchars : m.chars = [c] := by simpa using List.find?_some hm
    simp only
    rw [← hchars]
    exact .mark m

/-! ## The longest text at the front -/

/-- `w` is the longest text at the front of `cs` that a pattern matches. -/
structure IsLongest (w cs : List Char) : Prop where
  /-- It stands at the front. -/
  front : w <+: cs
  /-- A pattern matches it. -/
  matched : Matched w
  /-- No pattern matches a longer text at the front. -/
  longest : ∀ v, v <+: cs → Matched v → v.length ≤ w.length

/-- A text that is read as a lexeme is matched. -/
theorem ReadAs.isMatched {w : List Char} {kind? : Option TokenKind} (h : ReadAs w kind?) :
    Matched w := by
  obtain ⟨p, hp, -, hw⟩ := h.matched
  exact ⟨p, hp, hw⟩

/-- A text that is matched is read as a lexeme of some kind. -/
theorem Matched.exists_readAs {w : List Char} (h : Matched w) : ∃ kind?, ReadAs w kind? := by
  obtain ⟨p, hp, hw⟩ := h
  by_cases hk : ∃ q ∈ keywords, w ∈ q.texts
  · obtain ⟨q, hq, hqw⟩ := hk
    obtain ⟨k, hqk⟩ := exists_keyword_of_mem_keywords hq
    exact ⟨q.kind?, readAs_of_mem (by simp [Pattern.all, hq]) hqw (by simp [hqk])⟩
  · exact ⟨p.kind?, ⟨p, hp, rfl, hw⟩, fun _ q hq hqw => hk ⟨q, hq, hqw⟩⟩

/-- Scanning finds the longest text at the front that a pattern matches, and what the patterns read
it as. -/
theorem scan_eq_some_iff {w rest : List Char} {kind? : Option TokenKind} :
    scan (w ++ rest) = some ⟨kind?, w, rest⟩ ↔ IsLongest w (w ++ rest) ∧ ReadAs w kind? := by
  constructor
  · intro h
    have hread : ReadAs w kind? := (shape_of_scan h).readAs
    refine ⟨⟨List.prefix_append _ _, hread.isMatched, ?_⟩, hread⟩
    rintro v ⟨rest', hv⟩ hmatched
    obtain ⟨kind', hread'⟩ := hmatched.exists_readAs
    obtain ⟨lexeme, hscan, hfront, -⟩ := scan_of_readAs hread' rest'
    rw [hv, h] at hscan
    cases hscan
    exact hfront.length_le
  · rintro ⟨hlongest, hread⟩
    obtain ⟨lexeme, hscan, hfront, hkind⟩ := scan_of_readAs hread rest
    obtain ⟨happ, -⟩ := scan_eq hscan
    have hle := hlongest.longest lexeme.text ⟨lexeme.rest, happ⟩
      (shape_of_scan hscan).readAs.isMatched
    have htext : w = lexeme.text := hfront.eq_of_length_le hle
    subst htext
    have hrest : lexeme.rest = rest := List.append_cancel_left happ
    rw [hscan, ← hkind rfl, ← hrest]

/-- No pattern matches the empty text. -/
theorem ReadAs.ne_nil {w : List Char} {kind? : Option TokenKind} (h : ReadAs w kind?) : w ≠ [] := by
  rintro rfl
  obtain ⟨lexeme, hscan, -, -⟩ := scan_of_readAs h []
  cases hscan

end SchemaDiagram.Lexeme
