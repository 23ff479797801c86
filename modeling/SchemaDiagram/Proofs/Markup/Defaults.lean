import SchemaDiagram.Proofs.Document.Entries
import SchemaDiagram.Proofs.Markup.Quoting
import SchemaDiagram.Proofs.Token.Lines

/-!
# Defaults survive their writing

The default of a column is written in one of three ways, chosen by the characters in it: as an
expression in backticks, as it stands, or as a text in quotes. Each of them is a single token with
the default as its value, and the parser of defaults takes it for what it was written as. Neither
depends on the entries around it: the text in front only has to end in the comma or the bracket that
an entry can stand behind, and the text behind to go on with one that ends it.

Main statement: `Token.default_is_read_back`.
-/

namespace SchemaDiagram

open Document Parser Lexeme

/-! ## What is written without quotes -/

namespace Markup

/-- A numeral has no parenthesis in it. -/
theorem not_mem_leftParen_of_isNumeral {cs : List Char} (h : isNumeral cs = true) : '(' ∉ cs := by
  obtain ⟨sign, whole, fraction, hsign, hwhole, hfraction, rfl⟩ := exists_numeral_of_isNumeral h
  have hdigits {ds : List Char} (hds : ∀ d ∈ ds, d.isDigit = true) : '(' ∉ ds :=
    fun hmem => absurd (hds _ hmem) (by decide)
  rw [List.mem_append, not_or, Number.numeral]
  constructor
  · rcases hsign with rfl | rfl <;> decide
  · split
    · exact hdigits hwhole.2
    · simp [hdigits hwhole.2, hdigits hfraction]

/-- What is written without quotes has no parenthesis in it. -/
theorem not_mem_leftParen_of_isBareDefault {value : String} (h : isBareDefault value = true) :
    '(' ∉ value.toList := by
  by_cases hnumeral : isNumeral value.toList = true
  · exact not_mem_leftParen_of_isNumeral hnumeral
  · obtain ⟨c, cs, hchars, hc, hcs⟩ :=
      Pattern.mem_word.1 (mem_word_of_isLetters (isLetters_of_isBareDefault h hnumeral).1)
    rw [hchars, List.mem_cons, not_or]
    constructor
    · rintro rfl
      cases hc
    · exact fun hmem => absurd (hcs _ hmem) (by decide)

/-- How the default of a column is written. -/
def defaultForm (value : String) : DefaultForm :=
  if value.toList.contains '(' && value.toList.contains ')' then .expression
  else if isBareDefault value then .literal
  else .string

/-- A bare default is written as it is. -/
theorem defaultValue_of_isBareDefault {value : String} (h : isBareDefault value = true) :
    defaultValue value = value := by
  have hparen : value.toList.contains '(' = false := by
    simpa using not_mem_leftParen_of_isBareDefault h
  rw [defaultValue, hparen, Bool.false_and, if_neg Bool.false_ne_true, if_pos h]

/-- A bare default is read back as a literal. -/
theorem defaultForm_of_isBareDefault {value : String} (h : isBareDefault value = true) :
    defaultForm value = .literal := by
  have hparen : value.toList.contains '(' = false := by
    simpa using not_mem_leftParen_of_isBareDefault h
  rw [defaultForm, hparen, Bool.false_and, if_neg Bool.false_ne_true, if_pos h]

end Markup

/-! ## The three ways of writing -/

namespace Document

/-- The parser of defaults tells from its token how a default was written. -/
theorem defaultForm?_defaultWord_eq (value : String) :
    defaultForm? (defaultWord value).kind = some (Markup.defaultForm value) := by
  unfold defaultWord Markup.defaultForm
  split
  · rfl
  by_cases hnumeral : Markup.isNumeral value.toList = true
  · rw [if_pos hnumeral, Markup.isBareDefault, hnumeral, Bool.or_true]
    rfl
  · rw [if_neg hnumeral]
    split
    · next hbare => exact defaultForm?_letterWord hbare hnumeral
    · rfl

/-- A default that is written without quotes is a number, `null` or another word. -/
theorem kind_defaultWord_of_isBareDefault {value : String}
    (h : Markup.isBareDefault value = true) :
    (defaultWord value).kind ∈ [.number, .keyword .null, .identifier] := by
  have hform := defaultForm?_defaultWord_eq value
  rw [Markup.defaultForm_of_isBareDefault h] at hform
  unfold defaultForm? at hform
  split at hform
  · cases hform
  · cases hform
  · next hkind => rw [hkind]; decide
  · next hkind => rw [hkind]; decide
  · next hkind => rw [hkind]; decide
  · cases hform

/-- The word of a default is no color. -/
theorem kind_defaultWord_ne_color (value : String) : (defaultWord value).kind ≠ .color := by
  intro hkind
  have hform := defaultForm?_defaultWord_eq value
  rw [hkind] at hform
  cases hform

end Document

/-! ## In front of the end of an entry -/

/-- A text that goes on with the end of an entry: blanks, and then a comma or the bracket that closes
the list. -/
def EndsEntryText (after : String) : Prop :=
  ∃ blanks c rest, after.toList = blanks ++ c :: rest ∧ (∀ b ∈ blanks, isSpace b = true) ∧
    (c = ',' ∨ c = ']')

/-- White space separates. -/
theorem separates_of_isSpace {c : Char} (h : isSpace c = true) : separates c = true := by
  simp only [isSpace, Bool.or_eq_true, beq_iff_eq] at h
  rcases h with (((rfl | rfl) | rfl) | rfl) | rfl <;> rfl

/-- What ends an entry starts with a separating character. -/
theorem EndsEntryText.exists_separates {after : String} (h : EndsEntryText after) :
    ∃ c rest, after.toList = c :: rest ∧ separates c = true := by
  obtain ⟨blanks, c, rest, htext, hblanks, hc⟩ := h
  cases blanks with
  | nil => exact ⟨c, rest, htext, by rcases hc with rfl | rfl <;> rfl⟩
  | cons b blanks => exact ⟨b, _, htext, separates_of_isSpace (hblanks b List.mem_cons_self)⟩

namespace Token

/-- The first token that is read at the end of an entry ends it. -/
theorem entryEnds_of_endsEntryText {after : String} (h : EndsEntryText after) {p : Position}
    {us : List Token} (hus : scanFrom p after.toList = .ok us) :
    EntryEnds ((structuralTokens us).head?.map (·.kind)) := by
  obtain ⟨blanks, c, rest, htext, hblanks, hc⟩ := h
  rw [htext, scanFrom_blank hblanks] at hus
  obtain ⟨m, hm, hscan⟩ : ∃ m : Mark, EntryEnds (some (.mark m)) ∧
      Lexeme.scan (c :: rest) = some ⟨some (.mark m), [c], rest⟩ := by
    rcases hc with rfl | rfl
    · exact ⟨.comma, Or.inl rfl, rfl⟩
    · exact ⟨.rightBracket, Or.inr rfl, rfl⟩
  rw [scanFrom_kept hscan nofun] at hus
  cases hothers : scanFrom ((p.advance blanks).advance [c]) rest with
  | error e =>
    rw [hothers] at hus
    cases hus
  | ok others =>
    rw [hothers] at hus
    cases hus
    exact hm

/-- The entry of a default is three tokens wherever it starts. -/
theorem scanFrom_defaultEntry (value : String) {c : Char} (hc : separates c = true)
    (rest : List Char) (p : Position) : ∃ p₁ p₂ p₃,
    scanFrom p ("default: ".toList ++ ((Markup.defaultValue value).toList ++ c :: rest)) =
      (scanFrom ((defaultWord value).tokenAt p₃).span.stop (c :: rest)).map
        ([(letterWord "default").tokenAt p₁, (markWord .colon).tokenAt p₂,
          (defaultWord value).tokenAt p₃] ++ ·) := by
  have hvalue := scan_default value hc rest
  rw [← text_defaultWord] at hvalue ⊢
  have hkey (rest : List Char) : Lexeme.scan ((letterWord "default").text.toList ++ ':' :: rest) =
      some ⟨some (letterWord "default").kind, (letterWord "default").text.toList, ':' :: rest⟩ :=
    scan_letters (mem_word_of_isLetters (by decide)) (by rintro d ⟨⟩; rfl)
  have hcolon (rest : List Char) : Lexeme.scan ((markWord .colon).text.toList ++ rest) =
      some ⟨some (markWord .colon).kind, (markWord .colon).text.toList, rest⟩ := by
    show Lexeme.scan (':' :: rest) = _
    rfl
  have hblank : ∀ b ∈ [' '], isSpace b = true := fun b hb => by
    rw [List.mem_singleton.1 hb]
    rfl
  refine ⟨p, p.advance (letterWord "default").text.toList,
    ((p.advance (letterWord "default").text.toList).advance
      (markWord .colon).text.toList).advance [' '], ?_⟩
  show scanFrom p ((letterWord "default").text.toList ++ ':' :: ([' '] ++ _)) = _
  rw [scanFrom_word (hkey _) (by decide)]
  show (scanFrom _ ((markWord .colon).text.toList ++ ([' '] ++ _))).map _ = _
  rw [scanFrom_word (hcolon _) nofun, scanFrom_blank hblank,
    scanFrom_word hvalue (kind_defaultWord_ne_color value)]
  show Except.map _ (Except.map _ (Except.map _ (scanFrom
    ((defaultWord value).tokenAt _).span.stop (c :: rest)))) = _
  generalize scanFrom ((defaultWord value).tokenAt _).span.stop (c :: rest) = behind
  cases behind <;> rfl

/-- The token of a default is the default, written as it is. -/
theorem defaultValue_tokenAt (value : String) (p : Position) :
    Grammar.DefaultValue [(defaultWord value).tokenAt p] ⟨value, Markup.defaultForm value⟩ := by
  have hvalue : ((defaultWord value).tokenAt p).value = value := value_defaultWord value
  have hread := Grammar.DefaultValue.value (t := (defaultWord value).tokenAt p)
    (defaultForm?_defaultWord_eq value)
  rwa [hvalue] at hread

/-- The entry of a default says the default and how it was written. -/
theorem isEntry_defaultEntry (value : String) (p₁ p₂ p₃ : Position) :
    IsEntry .column [(letterWord "default").tokenAt p₁, (markWord .colon).tokenAt p₂,
      (defaultWord value).tokenAt p₃] (.default ⟨value, Markup.defaultForm value⟩) := by
  have hname : (letterWord "default").kind.isName = true := by decide
  have hkey : ListKind.column.meaning? (SettingKey.mk (letterWord "default").value).form =
      some (.default, .default) := by
    rw [show (SettingKey.mk (letterWord "default").value).form = "default" by decide]
    rfl
  exact .intro (Or.inl hname) hkey (.default rfl (defaultValue_tokenAt value p₃))

/-- A default that is written without quotes is a single token by itself. -/
theorem scan_bareDefault {value : String} (h : Markup.isBareDefault value = true) :
    scan value = .ok [(defaultWord value).tokenAt .start,
      endAt ((defaultWord value).tokenAt .start).span.stop] := by
  have htext : (defaultWord value).text = value :=
    (text_defaultWord value).trans (Markup.defaultValue_of_isBareDefault h)
  have hread := scan_default value (c := ' ') rfl []
  rw [Markup.defaultValue_of_isBareDefault h] at hread
  have hself := scan_self (scan_eq_some_iff.1 hread).2
  have hword : Lexeme.scan ((defaultWord value).text.toList ++ []) =
      some ⟨some (defaultWord value).kind, (defaultWord value).text.toList, []⟩ := by
    rw [List.append_nil, htext]
    exact hself
  have hsingle := scan_singleWord hword (kind_defaultWord_ne_color value)
  rwa [htext] at hsingle

/-- A default survives its writing. Behind any text that ends in the comma or the bracket that an
entry can stand behind, and in front of any text that goes on with the end of an entry, the entry of
a default is three tokens more, and the value of the third one is the default. What is written
without quotes is a number, `null` or another word, the same as by itself, with no parenthesis in it
or behind it. Where these tokens are ahead, whatever was read before, the default is read as it is
and as what it was written as, and nothing behind it is read. -/
theorem default_is_read_back {before after v : String} {ts : List Token} {t e : Token}
    (hbefore : scan before = .ok (ts ++ [t, e]))
    (ht : t.kind = .mark .comma ∨ t.kind = .mark .leftBracket) (hafter : EndsEntryText after) :
    ∃ key colon value : Token,
      scan (before ++ ("default: " ++ Markup.defaultValue v) ++ after) =
        (scanFrom value.span.stop after.toList).map (ts ++ [t, key, colon, value] ++ ·) ∧
      value.value = v ∧
      (Markup.isBareDefault v = true →
        value.text = v ∧ value.kind ∈ [.number, .keyword .null, .identifier] ∧
          '(' ∉ v.toList ∧
          ∃ u : Token, scan v = .ok [u, endAt u.span.stop] ∧ u.kind = value.kind ∧ u.text = v) ∧
      ∀ us, scanFrom value.span.stop after.toList = .ok us →
        EntryEnds ((structuralTokens us).head?.map (·.kind)) ∧
        ∀ c : Cursor, c.tokens = key :: colon :: value :: structuralTokens us →
          settingDefault.run c.advance = .ok ⟨v, Markup.defaultForm v⟩ (c.advanceBy 3) ∧
          ∀ s : ColumnSettings, (settingEntry columnSetting s).run c =
            .ok { s with default := some ⟨v, Markup.defaultForm v⟩ } (c.advanceBy 3) := by
  obtain ⟨c, rest, hrest, hc⟩ := hafter.exists_separates
  obtain ⟨p₁, p₂, p₃, hentry⟩ :=
    scanFrom_defaultEntry v hc rest (Position.start.advance before.toList)
  refine ⟨(letterWord "default").tokenAt p₁, (markWord .colon).tokenAt p₂,
    (defaultWord v).tokenAt p₃, ?_, value_defaultWord v, fun hbare => ?_, fun us hus => ?_⟩
  -- behind a mark the scan goes on as it would at the start
  · have htext : (before ++ ("default: " ++ Markup.defaultValue v) ++ after).toList =
        before.toList ++ ("default: ".toList ++ ((Markup.defaultValue v).toList ++ c :: rest)) := by
      simp [hrest]
    rw [scan, htext, scanFrom_append_of_mark hbefore ht (by rintro d ⟨⟩; exact ⟨rfl, rfl⟩), hentry,
      hrest]
    generalize scanFrom ((defaultWord v).tokenAt p₃).span.stop (c :: rest) = behind
    cases behind with
    | error e => rfl
    | ok us => exact congrArg Except.ok (by simp)
  · have hvalue : ((defaultWord v).tokenAt p₃).text = v :=
      (text_defaultWord v).trans (Markup.defaultValue_of_isBareDefault hbare)
    exact ⟨hvalue, kind_defaultWord_of_isBareDefault hbare,
      Markup.not_mem_leftParen_of_isBareDefault hbare, _, scan_bareDefault hbare, rfl, hvalue⟩
  · have hends := entryEnds_of_endsEntryText hafter hus
    refine ⟨hends, fun c htokens => ⟨?_, fun s => ?_⟩⟩
    · exact run_settingDefault_of_tokens rfl (defaultValue_tokenAt v p₃)
        (Cursor.tokens_advance htokens) hends.notNext_leftParen
    · exact (isEntry_defaultEntry v p₁ p₂ p₃).run_settingEntry s htokens hends

/-- The tokens of the first entry of a list and the comma behind it. -/
def firstEntryTokens : List Token :=
  [⟨.mark .leftBracket, ⟨⟨1, 1, 0⟩, ⟨1, 2, 1⟩⟩, "["⟩,
    ⟨.keyword .pk, ⟨⟨1, 2, 1⟩, ⟨1, 4, 3⟩⟩, "pk"⟩,
    ⟨.mark .comma, ⟨⟨1, 4, 3⟩, ⟨1, 5, 4⟩⟩, ","⟩,
    endAt ⟨1, 6, 5⟩]

/-- A call between two other entries is written in backticks and read as an expression. -/
theorem default_call_is_read_back :
    scan "[pk, " = .ok firstEntryTokens ∧ EndsEntryText ", unique]" ∧
      Markup.defaultValue "now()" = "`now()`" ∧
      ∃ key colon value : Token, value.value = "now()" ∧
        ∀ us, scanFrom value.span.stop ", unique]".toList = .ok us →
          ∀ c : Cursor, c.tokens = key :: colon :: value :: structuralTokens us →
            settingDefault.run c.advance = .ok ⟨"now()", .expression⟩ (c.advanceBy 3) := by
  have hbefore : scan "[pk, " = .ok firstEntryTokens := by cbv
  have hafter : EndsEntryText ", unique]" :=
    ⟨[], ',', " unique]".toList, rfl, List.forall_mem_nil _, Or.inl rfl⟩
  obtain ⟨key, colon, value, -, hvalue, -, hread⟩ :=
    @default_is_read_back _ _ "now()" (firstEntryTokens.take 2) _ _ hbefore (Or.inl rfl) hafter
  exact ⟨hbefore, hafter, by decide, key, colon, value, hvalue,
    fun us hus c hc => ((hread us hus).2 c hc).1⟩

end Token

end SchemaDiagram
