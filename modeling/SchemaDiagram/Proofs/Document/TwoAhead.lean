import SchemaDiagram.Proofs.Document.Filing
import SchemaDiagram.Proofs.Document.Lookahead
import SchemaDiagram.Proofs.Document.Spans

/-!
# Every parser of a document looks at most two tokens ahead

One lemma for each parser, in the order in which the parsers are built up. What follows a key of a
list of settings is read without a look at what stands behind it, except for the comma or bracket
that ends the entry. Only where the entries of a block are told apart does the second token count.
The parsers that pass over the rest of an entry or of a text in parentheses count tokens up to where
these end, and their counts do not change with what stands further behind (`entryLength_append`,
`rawLength_append`).

Main statements: `looksAhead_construct`, the parser of a construct looks two tokens ahead;
`attempts_before`, what is read before an attempt to read a construct is known from the tokens up to
the first two of the attempt.
-/

namespace SchemaDiagram.Document

namespace Parser

variable {α σ : Type} {k : Nat}

/-! ## Settings -/

/-- Reads a key, given whether a colon stands behind the next token. -/
def keyBefore (colon : Bool) : Parser SettingKey := do
  let t ← take (fun t => t.kind.isName || (t.kind.opensConstruct && colon)) "setting name"
  return ⟨t.value⟩

/-- A key is read with a look at whether a colon stands behind it. -/
theorem run_settingKey_eq (c : Cursor) :
    settingKey.run c = (keyBefore (c.secondKind? == some (.mark .colon))).run c := rfl

/-- Given whether a colon follows, a key is read with a look at its token only. -/
theorem looksAhead_keyBefore (colon : Bool) : (keyBefore colon).LooksAhead k :=
  (looksAhead_take _ _).bind fun _ => looksAhead_pure _

/-- The token behind a key only matters in whether it is a colon. -/
theorem looksAhead_settingKey : settingKey.LooksAhead k := by
  intro c r hr hleaves
  have hlength := add_le_of_consumes consumes_settingKey hleaves
  rw [Cursor.length_before] at hlength
  obtain ⟨o, ho⟩ := looksAhead_keyBefore _ c r hr (by rwa [run_settingKey_eq] at hleaves)
  refine ⟨o, fun r' hr' => ?_⟩
  have hcolon : ((c.before r').secondKind? == some (.mark .colon)) =
      ((c.before r).secondKind? == some (.mark .colon)) := by
    rcases hrest : c.rest with _ | ⟨t, _ | ⟨u, us⟩⟩
    · rw [hrest] at hlength
      simp only [List.length_nil] at hlength
      omega
    · have hzero : k = 0 := by
        rw [hrest] at hlength
        simp only [List.length_cons, List.length_nil] at hlength
        omega
      have hother (r : List CommentedToken) (hr : EntryEnds (firstKind? r)) :
          ((c.before r).secondKind? == some (.mark .colon)) = false := by
        simp only [Cursor.secondKind?, Cursor.before, hrest]
        exact beq_eq_false_iff_ne.2 (hr.ne (by decide) (by decide))
      rw [hother r (hr hzero), hother r' (hr' hzero)]
    · simp [Cursor.secondKind?, Cursor.before, hrest]
  rw [run_settingKey_eq, hcolon]
  exact ho r' hr'

/-- The value of a setting is read with a look at its tokens only. -/
theorem looksAhead_settingValue : settingValue.LooksAhead k :=
  (looksAhead_expect _).bind fun _ => looksAhead_take _ _

/-- The text of a setting is read with a look at its tokens only. -/
theorem looksAhead_settingText : settingText.LooksAhead k :=
  looksAhead_settingValue.bind fun _ => looksAhead_pure _

/-- The quoted text of a setting is read with a look at its tokens only. -/
theorem looksAhead_settingString : settingString.LooksAhead k :=
  (looksAhead_expect _).bind fun _ => looksAhead_string _

/-- A checked value is read with a look at its tokens only. -/
theorem looksAhead_settingOf (view : Token → Option α) (reason : String) (key : SettingKey) :
    (settingOf view reason key).LooksAhead k := by
  refine looksAhead_settingValue.bind fun t => ?_
  split
  · exact looksAhead_pure _
  · exact (looksAhead_report _).bind fun _ => looksAhead_pure _

/-- In front of the end of an entry nothing is left of it. -/
theorem entryLength_of_entryEnds {r : List CommentedToken} (h : EntryEnds (firstKind? r)) :
    entryLength 0 r = (0, true) := by
  rcases r with _ | ⟨t, ts⟩
  · rcases h with h | h <;> cases h
  · rw [entryLength]
    exact if_pos ⟨rfl, h.imp Option.some.inj Option.some.inj⟩

/-- An entry that ends at once is not inside brackets. -/
theorem eq_zero_of_entryLength {depth : Nat} {r : List CommentedToken}
    (h : entryLength depth r = (0, true)) : depth = 0 := by
  rcases r with _ | ⟨t, ts⟩
  · cases h
  · simp only [entryLength] at h
    split at h
    · next hends => exact hends.1
    split at h
    · cases h
    split at h
    · cases h
    · cases h

/-- A keyword that opens a construct is looked at together with the token behind it. -/
theorem one_lt_entryLength_of_opensConstruct {t : CommentedToken} {r : List CommentedToken}
    (h : t.token.kind.opensConstruct = true) (hr : k = 0 → EntryEnds (firstKind? r))
    (depth : Nat) :
    1 < (entryLength depth (t :: r)).1 + (if (entryLength depth (t :: r)).2 then k else 2) := by
  have hcomma : t.token.kind ≠ .mark .comma := ne_of_opensConstruct h rfl
  have hbracket : t.token.kind ≠ .mark .rightBracket := ne_of_opensConstruct h rfl
  have hbrace : t.token.kind ≠ .mark .rightBrace := ne_of_opensConstruct h rfl
  simp only [entryLength]
  rw [if_neg (by simp [hcomma, hbracket]), if_neg (by simp [hbrace]), h, Bool.true_and]
  split
  · exact Nat.lt_succ_self 1
  · next hcolon =>
    simp only
    split
    · -- a comma or bracket is no colon, so it would have broken the entry off
      have hk : k ≠ 0 := fun hk =>
        hcolon (bne_iff_ne.2 ((hr hk).ne (by decide) (by decide)))
      omega
    · omega

/-- How many tokens the rest of an entry has is known from them and what ends them: the comma or
bracket behind them, or else a token that breaks them off and the one behind it. -/
theorem entryLength_append {r r' : List CommentedToken}
    (hends : k = 0 → EntryEnds (firstKind? r) ∧ EntryEnds (firstKind? r')) (depth : Nat)
    (ts : List CommentedToken)
    (hlength : (entryLength depth (ts ++ r)).1 +
      (if (entryLength depth (ts ++ r)).2 then k else 2) ≤ ts.length) :
    entryLength depth (ts ++ r') = entryLength depth (ts ++ r) := by
  induction ts generalizing depth with
  | nil =>
    simp only [List.nil_append] at hlength ⊢
    -- nothing is counted, so a comma or bracket comes first
    obtain ⟨hcount, hended, hzero⟩ : (entryLength depth r).1 = 0 ∧
        (entryLength depth r).2 = true ∧ k = 0 := by
      rw [List.length_nil] at hlength
      split at hlength
      · next hended => exact ⟨by omega, hended, by omega⟩
      · omega
    obtain ⟨hr, hr'⟩ := hends hzero
    obtain rfl := eq_zero_of_entryLength (Prod.ext hcount hended)
    rw [entryLength_of_entryEnds hr, entryLength_of_entryEnds hr']
  | cons t ts ih =>
    have hnext (h : t.token.kind.opensConstruct = true) :
        ((ts ++ r').head?.map (·.token.kind) != some (.mark .colon)) =
          ((ts ++ r).head?.map (·.token.kind) != some (.mark .colon)) := by
      cases ts with
      | cons u us => rfl
      | nil =>
        have hlt := one_lt_entryLength_of_opensConstruct h (fun hk => (hends hk).1) depth
        exact absurd hlength (Nat.not_le.2 hlt)
    have hopens : (t.token.kind.opensConstruct &&
          (ts ++ r').head?.map (·.token.kind) != some (.mark .colon)) =
        (t.token.kind.opensConstruct &&
          (ts ++ r).head?.map (·.token.kind) != some (.mark .colon)) := by
      cases hopens : t.token.kind.opensConstruct with
      | false => rfl
      | true => rw [hnext hopens]
    simp only [List.cons_append, entryLength, hopens] at hlength ⊢
    split
    · rfl
    split
    · rfl
    split
    · rfl
    · next hcomma hbrace hbroken =>
      rw [if_neg hcomma, if_neg hbrace, if_neg hbroken, List.length_cons] at hlength
      rw [ih _ (by simp only at hlength; omega)]

/-- Passes over the rest of an entry, up to what ends it or breaks it off. -/
theorem run_skipEntry (c : Cursor) :
    skipEntry.run c =
      if (entryLength 0 c.rest).2 then .ok () (c.advanceBy (entryLength 0 c.rest).1)
      else (unexpected "']'").run (c.advanceBy (entryLength 0 c.rest).1) := by
  show (if (entryLength 0 c.rest).2 = true then pure () else unexpected "']'").run
    (c.advanceBy (entryLength 0 c.rest).1) = _
  split
  · rfl
  · rfl

/-- Passing over the rest of an entry looks at what ends it and no further. -/
theorem looksAhead_skipEntry : skipEntry.LooksAhead k := by
  intro c r hr hleaves
  have hcount := entryLength_le 0 (c.rest ++ r)
  rw [List.length_append] at hcount
  have hrest (r' : List CommentedToken) : (c.before r').rest = c.rest ++ r' := rfl
  rw [run_skipEntry, hrest] at hleaves
  generalize hseen : entryLength 0 (c.rest ++ r) = seen at hleaves hcount
  -- how far the entry reaches is decided within the part
  have hlength : seen.1 + (if seen.2 then k else 2) ≤ c.rest.length := by
    split at hleaves
    · next hended =>
      have hle : r.length + k ≤ ((c.before r).advanceBy seen.1).rest.length := hleaves
      rw [Cursor.rest_advanceBy, List.length_drop, Cursor.length_before] at hle
      rw [if_pos hended]
      omega
    · next hended =>
      have hle : r.length + max k 2 ≤ ((c.before r).advanceBy seen.1).rest.length := hleaves
      rw [Cursor.rest_advanceBy, List.length_drop, Cursor.length_before] at hle
      rw [if_neg hended]
      omega
  have hsame (r' : List CommentedToken) (hr' : k = 0 → EntryEnds (firstKind? r')) :
      entryLength 0 (c.rest ++ r') = seen := by
    rw [← hseen] at hlength ⊢
    exact entryLength_append (fun hk => ⟨hr hk, hr' hk⟩) 0 c.rest hlength
  have hskip (r' : List CommentedToken) :
      (c.before r').advanceBy seen.1 = (c.advanceBy seen.1).before r' :=
    Cursor.advanceBy_before (by omega)
  by_cases hended : seen.2 = true
  · refine ⟨.ok () (c.advanceBy seen.1), fun r' hr' => ?_⟩
    rw [run_skipEntry, hrest, hsame r' hr', if_pos hended, hskip]
    rfl
  · rw [if_neg hended, hskip] at hleaves
    obtain ⟨o, ho⟩ := looksAhead_unexpected "']'" _ r hr hleaves
    refine ⟨o, fun r' hr' => ?_⟩
    rw [run_skipEntry, hrest, hsame r' hr', if_neg hended, hskip]
    exact ho r' hr'

/-- An entry looks no further ahead than what follows its key. -/
theorem looksAhead_settingEntry {apply : σ → SettingKey → Parser (Option σ)}
    (happly : ∀ s key, (apply s key).LooksAhead k) (s : σ) :
    (settingEntry apply s).LooksAhead k := by
  refine looksAhead_settingKey.bind fun key => (happly s key).bind fun t => ?_
  split
  · exact looksAhead_pure _
  · exact looksAhead_skipEntry.bind fun _ => looksAhead_pure _

/-- The end of an entry is one token ahead. -/
theorem looksAhead_settingEnd : settingEnd.LooksAhead (k + 1) := by
  refine looksAhead_kind?.bind fun next => ?_
  split
  · exact looksAhead_any.bind fun _ => looksAhead_pure _
  · exact looksAhead_pure _
  · exact looksAhead_unexpected _

/-- A list of settings looks one token ahead, if what follows its keys looks no further. -/
theorem looksAhead_settings {apply : σ → SettingKey → Parser (Option σ)}
    (happly : ∀ s key, (apply s key).LooksAhead (k + 1)) (s : σ) :
    (settings apply s).LooksAhead (k + 1) := by
  refine (looksAhead_expect _).bind fun _ => looksAhead_iterate _ (fun s => ?_) s
  refine looksAhead_kind?.bind fun next => ?_
  split
  · exact looksAhead_any.bind fun _ => looksAhead_pure _
  · exact looksAhead_any.bind fun _ => looksAhead_pure _
  · exact (looksAhead_settingEntry happly s).bind fun _ =>
      looksAhead_settingEnd.bind fun _ => looksAhead_pure _

/-- A list that may be missing looks one token ahead, if what follows its keys looks no further. -/
theorem looksAhead_settings? {apply : σ → SettingKey → Parser (Option σ)}
    (happly : ∀ s key, (apply s key).LooksAhead (k + 1)) (s : σ) :
    (settings? apply s).LooksAhead (k + 1) := by
  refine (looksAhead_at? (by decide) (by decide)).bind fun isNext => ?_
  split
  · exact looksAhead_settings happly s
  · exact looksAhead_pure _

/-! ## Blocks -/

/-- A round of reading a block looks as far ahead as the entries do. -/
theorem looksAhead_blockStep (construct name : String) (opening : Span)
    {entry : σ → TokenKind → Parser σ} (hentry : ∀ s l, (entry s l).LooksAhead (k + 1)) (s : σ) :
    (blockStep construct name opening entry s).LooksAhead (k + 1) := by
  refine looksAhead_kind?.bind fun next => ?_
  split
  · exact looksAhead_fail _
  split
  · exact looksAhead_any.bind fun _ => looksAhead_pure _
  split
  · exact looksAhead_fail _
  · exact (hentry s _).bind fun _ => looksAhead_pure _

/-- A block looks as far ahead as its entries do. -/
theorem looksAhead_block (construct name : String) (opening : Span)
    {entry : σ → TokenKind → Parser σ} (h : ∀ s l, (entry s l).Consumes)
    (hentry : ∀ s l, (entry s l).LooksAhead (k + 1)) (s : σ) :
    (block construct name opening entry h s).LooksAhead (k + 1) :=
  looksAhead_iterate _ (looksAhead_blockStep construct name opening hentry) s

/-- A note looks one token ahead, for the brace. -/
theorem looksAhead_note : note.LooksAhead (k + 1) := by
  refine (looksAhead_expect _).bind fun _ => (looksAhead_accept _).bind fun isBraced => ?_
  split
  · exact (looksAhead_string _).bind fun _ => (looksAhead_expect _).bind fun _ => looksAhead_pure _
  · exact (looksAhead_expect _).bind fun _ => looksAhead_string _

/-- Passing over what is unknown looks at that token only. -/
theorem looksAhead_ignore (s : σ) : (ignore s).LooksAhead k :=
  looksAhead_any.bind fun _ => looksAhead_pure _

/-! ## Columns -/

/-- A text in parentheses ends at its last token or where it breaks off. -/
theorem rawLength_append (r r' : List CommentedToken) (depth : Nat) (ts : List CommentedToken)
    (hlength : (rawLength depth (ts ++ r)).1 < ts.length) :
    rawLength depth (ts ++ r') = rawLength depth (ts ++ r) := by
  induction ts generalizing depth with
  | nil => exact absurd hlength (Nat.not_lt_zero _)
  | cons t ts ih =>
    simp only [List.cons_append, rawLength] at hlength ⊢
    split
    · rfl
    split
    · rfl
    · next hclose hopens =>
      rw [if_neg hclose, if_neg hopens] at hlength
      rw [ih _ (Nat.lt_of_succ_lt_succ hlength)]

/-- Reads the parenthesis that closes a text, if the text is closed. -/
def closingParen (closed : Bool) (text : String) : Parser String :=
  if closed then do
    let _ ← any
    return text
  else unexpected "')'"

/-- The closing parenthesis is taken, or nothing is read. -/
theorem consumes_closingParen (closed : Bool) (text : String) :
    (closingParen closed text).Consumes := by
  unfold closingParen
  split
  · exact consumes_any.bind _
  · exact consumes_unexpected _

/-- The closing parenthesis is read with a look at that token only. -/
theorem looksAhead_closingParen (closed : Bool) (text : String) :
    (closingParen closed text).LooksAhead k := by
  unfold closingParen
  split
  · exact looksAhead_any.bind fun _ => looksAhead_pure _
  · exact looksAhead_unexpected _

/-- Reads the rest of a text in parentheses behind the opening one. -/
def rawRest : Parser String := do
  let (n, closed) ← ahead (rawLength 0)
  let tokens ← ahead fun ts => (ts.take n).map (·.token)
  skip n
  closingParen closed (rawText tokens)

/-- The rest of a text in parentheses is passed in one step, up to the closing parenthesis. -/
theorem run_rawRest (c : Cursor) :
    rawRest.run c =
      (closingParen (rawLength 0 c.rest).2
        (rawText ((c.rest.take (rawLength 0 c.rest).1).map (·.token)))).run
        (c.advanceBy (rawLength 0 c.rest).1) := rfl

/-- The rest of a text in parentheses looks at the closing parenthesis and no further. -/
theorem looksAhead_rawRest : rawRest.LooksAhead k := by
  intro c r hr hleaves
  have hrest (r' : List CommentedToken) : (c.before r').rest = c.rest ++ r' := rfl
  rw [run_rawRest, hrest] at hleaves
  have hlength : (rawLength 0 (c.rest ++ r)).1 < c.rest.length := by
    have hle := add_le_of_consumes (consumes_closingParen _ _) hleaves
    rw [Cursor.rest_advanceBy, List.length_drop, Cursor.length_before] at hle
    omega
  have hrun (r' : List CommentedToken) : rawRest.run (c.before r') =
      (closingParen (rawLength 0 (c.rest ++ r)).2
        (rawText ((c.rest.take (rawLength 0 (c.rest ++ r)).1).map (·.token)))).run
        ((c.advanceBy (rawLength 0 (c.rest ++ r)).1).before r') := by
    rw [run_rawRest, hrest, rawLength_append r r' 0 c.rest hlength,
      List.take_append_of_le_length (Nat.le_of_lt hlength),
      Cursor.advanceBy_before (Nat.le_of_lt hlength)]
  obtain ⟨o, ho⟩ :=
    looksAhead_closingParen _ _ _ r hr (by rwa [← hrest, ← run_rawRest, hrun] at hleaves)
  exact ⟨o, fun r' hr' => (hrun r').trans (ho r' hr')⟩

/-- A text in parentheses is the opening one and the rest. -/
theorem parenthesized_eq : parenthesized = expect (.mark .leftParen) >>= fun _ => rawRest := rfl

/-- A text in parentheses looks at its tokens only. -/
theorem looksAhead_parenthesized : parenthesized.LooksAhead k := by
  rw [parenthesized_eq]
  exact (looksAhead_expect _).bind fun _ => looksAhead_rawRest

/-- A text in parentheses that may be missing is told by a mark that ends no entry. -/
theorem looksAhead_parenthesized? : parenthesized?.LooksAhead k := by
  refine (looksAhead_at? (by decide) (by decide)).bind fun isNext => ?_
  split
  · exact looksAhead_parenthesized.bind fun _ => looksAhead_pure _
  · exact looksAhead_pure _

/-- A default looks at its tokens and at whether a parenthesis follows, which ends no entry. -/
theorem looksAhead_settingDefault : settingDefault.LooksAhead k := by
  refine (looksAhead_expect _).bind fun _ => (looksAhead_take _ _).bind fun t => ?_
  refine (looksAhead_at? (by decide) (by decide)).bind fun isCall => ?_
  split
  · exact looksAhead_parenthesized.bind fun _ => looksAhead_pure _
  · exact looksAhead_pure _

/-- Each of the seven forms of what follows a key is read with a look at its tokens only. -/
theorem looksAhead_reader (l : ListKind) (s : l.State) (key : SettingKey) (after : AfterKey) :
    (after.reader l s key).LooksAhead k := by
  cases after with
  | nothing change => exact looksAhead_pure _
  | null change => exact (looksAhead_expect _).bind fun _ => looksAhead_pure _
  | key change =>
    refine (looksAhead_isWord _).bind fun found => ?_
    split
    · exact looksAhead_any.bind fun _ => looksAhead_pure _
    · exact looksAhead_pure _
  | text change => exact looksAhead_settingText.bind fun _ => looksAhead_pure _
  | string change => exact looksAhead_settingString.bind fun _ => looksAhead_pure _
  | checked view expectation =>
    exact (looksAhead_settingOf _ _ _).bind fun _ => looksAhead_pure _
  | default => exact looksAhead_settingDefault.bind fun _ => looksAhead_pure _

/-- What follows a key is read with a look at its tokens only, for every list and every key. -/
theorem looksAhead_apply (l : ListKind) (s : l.State) (key : SettingKey) :
    (l.apply s key).LooksAhead k :=
  ListKind.apply_of_reader (fun _ after _ => looksAhead_reader l s key after) (looksAhead_pure none)

/-- A column with its comments looks one token ahead. -/
theorem looksAhead_commentedColumn : commentedColumn.LooksAhead (k + 1) := by
  refine (LooksAhead.takingComments ?_).bind fun _ => looksAhead_pure _
  refine (looksAhead_name _).bind fun _ => (looksAhead_name _).bind fun _ => ?_
  refine looksAhead_parenthesized?.bind fun _ => ?_
  refine (looksAhead_settings? (looksAhead_apply .column) _).bind fun _ => ?_
  exact looksAhead_lastSpan.bind fun _ => looksAhead_pure _

/-! ## Tables -/

/-- A column of an index is read with a look at its token only. -/
theorem looksAhead_indexColumn : indexColumn.LooksAhead k :=
  (looksAhead_take _ _).bind fun _ => looksAhead_pure _

/-- The columns of an index look one token ahead. -/
theorem looksAhead_indexColumns : indexColumns.LooksAhead (k + 1) := by
  refine (looksAhead_accept _).bind fun isList => ?_
  split
  · refine (looksAhead_iterate _ (fun columns => ?_) []).bind fun _ => ?_
    · refine looksAhead_indexColumn.bind fun column => (looksAhead_accept _).bind fun more => ?_
      split
      · exact looksAhead_pure _
      · exact looksAhead_pure _
    · exact (looksAhead_expect _).bind fun _ => looksAhead_pure _
  · exact looksAhead_indexColumn.bind fun _ => looksAhead_pure _

/-- An entry of a block of indexes looks one token ahead. -/
theorem looksAhead_indexesEntry (indexes : List Index) (l : TokenKind) :
    (indexesEntry indexes l).LooksAhead (k + 1) := by
  unfold indexesEntry
  split
  · refine looksAhead_nextSpan.bind fun start => .bind ?_ fun _ => looksAhead_pure _
    refine looksAhead_indexColumns.bind fun _ => ?_
    refine (looksAhead_settings? (looksAhead_apply .index) _).bind fun _ => ?_
    exact looksAhead_lastSpan.bind fun _ => looksAhead_pure _
  · exact looksAhead_ignore _

/-- A block of indexes looks one token ahead. -/
theorem looksAhead_indexes : indexes.LooksAhead (k + 1) := by
  refine (looksAhead_expect _).bind fun _ => (looksAhead_expect _).bind fun _ => ?_
  exact looksAhead_block _ _ _ consumes_indexesEntry looksAhead_indexesEntry []

/-- An entry of a table looks two tokens ahead, to tell a note and a block of indexes from columns.
-/
theorem looksAhead_tableEntry (t : Table) (l : TokenKind) : (tableEntry t l).LooksAhead 2 := by
  refine looksAhead_secondKind?.bind fun second => ?_
  split
  · exact looksAhead_note.bind fun _ => looksAhead_pure _
  split
  · exact looksAhead_indexes.bind fun _ => looksAhead_pure _
  split
  · exact looksAhead_commentedColumn.bind fun _ => looksAhead_pure _
  · exact looksAhead_ignore _

/-- The alias of a table is told by its word. -/
theorem looksAhead_tableAlias? : tableAlias?.LooksAhead k := by
  refine (looksAhead_isWord _).bind fun found => ?_
  split
  · exact looksAhead_any.bind fun _ => (looksAhead_name _).bind fun _ => looksAhead_pure _
  · exact looksAhead_pure _

/-- A table up to the brace of its block looks one token ahead. -/
theorem looksAhead_tableHead (start : Span) : (tableHead start).LooksAhead (k + 1) := by
  refine (looksAhead_name _).bind fun _ => looksAhead_tableAlias?.bind fun _ => ?_
  refine (looksAhead_settings? (looksAhead_apply .table) _).bind fun _ => ?_
  exact (looksAhead_expect _).bind fun _ => looksAhead_pure _

/-- A round of a table's block looks two tokens ahead, as its entries do. -/
theorem looksAhead_tableRound (start : Span) (head : Table × Token) (t : Table) :
    (tableRound start head t).LooksAhead 2 :=
  looksAhead_blockStep _ _ _ looksAhead_tableEntry t

/-- A table looks two tokens ahead, as its entries do. -/
theorem looksAhead_table (start : Span) : (table start).LooksAhead 2 := by
  rw [table_eq]
  refine (looksAhead_tableHead start).bind fun head => ?_
  refine (looksAhead_iterate _ (looksAhead_tableRound start head) head.1).bind fun _ => ?_
  exact looksAhead_lastSpan.bind fun _ => looksAhead_pure _

/-! ## Areas and projects -/

/-- A list of common columns up to its bracket looks one token ahead. -/
theorem looksAhead_commonColumnsHead : commonColumnsHead.LooksAhead (k + 1) :=
  (looksAhead_expect _).bind fun _ => (looksAhead_accept _).bind fun _ => looksAhead_expect _

/-- A round of reading common columns looks one token ahead. -/
theorem looksAhead_commonColumnsStep (columns : List Column) :
    (commonColumnsStep columns).LooksAhead (k + 1) := by
  refine looksAhead_kind?.bind fun next => ?_
  split
  · exact looksAhead_unexpected _
  split
  · exact looksAhead_any.bind fun _ => looksAhead_pure _
  split
  · exact looksAhead_unexpected _
  split
  · exact looksAhead_commentedColumn.bind fun _ => looksAhead_pure _
  · exact looksAhead_any.bind fun _ => looksAhead_pure _

/-- A list of common columns looks one token ahead. -/
theorem looksAhead_commonColumns : commonColumns.LooksAhead (k + 1) := by
  rw [commonColumns_eq]
  exact looksAhead_commonColumnsHead.bind fun _ =>
    looksAhead_iterate _ looksAhead_commonColumnsStep []

/-- Passing over the value of a line looks one token ahead. -/
theorem looksAhead_skipLineValue : skipLineValue.LooksAhead (k + 1) := by
  refine (looksAhead_accept _).bind fun _ => .bind ?_ fun n => looksAhead_skip n
  refine looksAhead_ahead_head?
    (fun t => if t.any (fun t => !(t.token.kind == .mark .rightBrace || t.token.kind.opensConstruct))
      then 1 else 0) fun hk => ?_
  exact absurd hk (Nat.succ_ne_zero k)

/-- A line of a key and a value looks one token ahead, if what follows the key looks no further. -/
theorem looksAhead_settingLine {apply : σ → SettingKey → Parser (Option σ)}
    (happly : ∀ s key, (apply s key).LooksAhead (k + 1)) (s : σ) :
    (settingLine apply s).LooksAhead (k + 1) := by
  refine looksAhead_settingKey.bind fun key => (happly s key).bind fun t => ?_
  split
  · exact looksAhead_pure _
  · exact looksAhead_skipLineValue.bind fun _ => looksAhead_pure _

/-- An entry of an area looks two tokens ahead, to tell notes and settings from members. -/
theorem looksAhead_areaEntry (a : Area) (l : TokenKind) : (areaEntry a l).LooksAhead 2 := by
  refine looksAhead_secondKind?.bind fun second => ?_
  split
  · exact looksAhead_note.bind fun _ => looksAhead_pure _
  split
  · exact looksAhead_commonColumns.bind fun _ => looksAhead_pure _
  split
  · exact looksAhead_settingLine (looksAhead_apply .area) a
  split
  · exact (looksAhead_name _).bind fun _ => looksAhead_pure _
  · exact looksAhead_ignore _

/-- An area up to the brace of its block looks one token ahead. -/
theorem looksAhead_areaHead (start : Span) : (areaHead start).LooksAhead (k + 1) := by
  refine (looksAhead_name _).bind fun _ => ?_
  refine (looksAhead_settings? (looksAhead_apply .area) _).bind fun _ => ?_
  exact (looksAhead_expect _).bind fun _ => looksAhead_pure _

/-- A round of an area's block looks two tokens ahead, as its entries do. -/
theorem looksAhead_areaRound (start : Span) (head : Area × Token) (a : Area) :
    (areaRound start head a).LooksAhead 2 :=
  looksAhead_blockStep _ _ _ looksAhead_areaEntry a

/-- An area looks two tokens ahead, as its entries do. -/
theorem looksAhead_area (start : Span) : (area start).LooksAhead 2 := by
  rw [area_eq]
  refine (looksAhead_areaHead start).bind fun head => ?_
  refine (looksAhead_iterate _ (looksAhead_areaRound start head) head.1).bind fun _ => ?_
  exact looksAhead_lastSpan.bind fun _ => looksAhead_pure _

/-- An entry of a project looks two tokens ahead, to tell notes and settings from the unknown. -/
theorem looksAhead_projectEntry (p : Project) (l : TokenKind) :
    (projectEntry p l).LooksAhead 2 := by
  refine looksAhead_secondKind?.bind fun second => ?_
  split
  · exact looksAhead_note.bind fun _ => looksAhead_pure _
  split
  · exact looksAhead_settingLine (looksAhead_apply .project) p
  · exact looksAhead_ignore _

/-- A project looks two tokens ahead, as its entries do. -/
theorem looksAhead_project (start : Span) : (project start).LooksAhead 2 := by
  refine (looksAhead_name _).bind fun _ => ?_
  refine (looksAhead_settings? (looksAhead_apply .project) _).bind fun head => .bind ?_ fun _ =>
    looksAhead_lastSpan.bind fun _ => looksAhead_pure _
  refine (looksAhead_at? (by decide) (by decide)).bind fun isNext => ?_
  split
  · refine looksAhead_any.bind fun brace => ?_
    exact looksAhead_block _ _ _ consumes_projectEntry looksAhead_projectEntry head
  · exact looksAhead_pure _

/-! ## References -/

/-- An endpoint of a reference is read with a look at its tokens only. -/
theorem looksAhead_endpoint : endpoint.LooksAhead k :=
  (looksAhead_name _).bind fun _ => (looksAhead_expect _).bind fun _ =>
    (looksAhead_name _).bind fun _ => looksAhead_pure _

/-- The symbol of a relationship is read with a look at its token only. -/
theorem looksAhead_relationship : relationship.LooksAhead k :=
  (looksAhead_take _ _).bind fun _ => looksAhead_pure _

/-- The name of a reference looks two tokens ahead, to tell it from the table of an endpoint. -/
theorem looksAhead_referenceName? : referenceName?.LooksAhead 2 := by
  refine looksAhead_kind?.bind fun first => looksAhead_secondKind?.bind fun second => ?_
  split
  · exact (looksAhead_name _).bind fun _ => looksAhead_pure _
  · exact looksAhead_pure _

/-- A reference looks two tokens ahead, for its name. -/
theorem looksAhead_reference (start : Span) : (reference start).LooksAhead 2 := by
  refine looksAhead_referenceName?.bind fun _ => (looksAhead_accept _).bind fun _ => ?_
  refine (looksAhead_accept _).bind fun isBraced => looksAhead_endpoint.bind fun _ => ?_
  refine looksAhead_relationship.bind fun _ => looksAhead_endpoint.bind fun _ => ?_
  refine (looksAhead_settings? (looksAhead_apply .reference) _).bind fun _ => ?_
  split
  · refine (looksAhead_expect _).bind fun _ => ?_
    exact looksAhead_lastSpan.bind fun _ => looksAhead_pure _
  · exact looksAhead_lastSpan.bind fun _ => looksAhead_pure _

/-! ## Constructs -/

/-- The parser of a construct looks two tokens ahead, whichever it is. -/
theorem looksAhead_construct {l : TokenKind} {construct : Span → Parser Construct}
    (h : construct? l = some construct) (start : Span) : (construct start).LooksAhead 2 := by
  obtain ⟨-, rfl⟩ | ⟨-, rfl⟩ | ⟨-, rfl⟩ | ⟨-, rfl⟩ := construct?_eq_some h
  · exact (looksAhead_project start).map _
  · exact (looksAhead_table start).map _
  · exact (looksAhead_reference start).map _
  · exact (looksAhead_area start).map _

end Parser

/-! ## Attempts -/

/-- Where reading goes on within some tokens, it goes on there with any tokens behind them. -/
theorem resumeLength_append (r r' ts : List CommentedToken)
    (hlength : resumeLength (ts ++ r) < ts.length) :
    resumeLength (ts ++ r') = resumeLength (ts ++ r) := by
  induction ts with
  | nil => exact absurd hlength (Nat.not_lt_zero _)
  | cons t ts ih =>
    simp only [List.cons_append, resumeLength] at hlength ⊢
    split
    · rfl
    split
    · rfl
    · next hbrace hopens =>
      rw [if_neg hbrace, if_neg hopens] at hlength
      rw [ih (Nat.lt_of_succ_lt_succ hlength)]

variable {c : Cursor} {r : List CommentedToken}

/-- Where reading goes on is known from the tokens up to there. -/
theorem Cursor.resume_before (h : r.length < (c.before r).resume.rest.length)
    (r' : List CommentedToken) :
    (c.before r').resume = (c.advanceBy (resumeLength (c.rest ++ r))).before r' := by
  have hlength : resumeLength (c.rest ++ r) < c.rest.length := by
    have hle : r.length < ((c.before r).advanceBy (resumeLength (c.rest ++ r))).rest.length := h
    rw [rest_advanceBy, List.length_drop, length_before] at hle
    omega
  show (c.before r').advanceBy (resumeLength (c.rest ++ r')) = _
  rw [resumeLength_append r r' c.rest hlength, advanceBy_before (Nat.le_of_lt hlength)]

/-- A construct is read behind its keyword and the comments in front of it. -/
theorem Cursor.construct_before_of_some (hne : c.rest ≠ []) {t : Token}
    {construct : Span → Parser Construct} (hk : Parser.construct? t.kind = some construct)
    (r : List CommentedToken) :
    (c.before r).construct t = (construct t.span).run (c.takeComments.advance.before r) := by
  rw [construct_of_some hk, takeComments_advance_before hne]

/-- With two tokens left, the construct that starts with a token is read alike in front of any
others. -/
theorem Cursor.construct_before (hne : c.rest ≠ []) (t : Token)
    (hleaves : ((c.before r).construct t).Leaves 2 r.length) :
    ∃ o : Outcome Construct, ∀ r', (c.before r').construct t = o.before r' := by
  cases hk : Parser.construct? t.kind with
  | none =>
    refine ⟨.failed c.noConstruct c.takeComments, fun r' => ?_⟩
    rw [construct_of_none hk, noConstruct, unexpected_before hne, takeComments_before hne]
    rfl
  | some construct =>
    rw [construct_before_of_some hne hk] at hleaves
    obtain ⟨o, ho⟩ := (Parser.looksAhead_construct hk t.span).exists_answer hleaves
    exact ⟨o, fun r' => (construct_before_of_some hne hk r').trans (ho r')⟩

/-- An attempt that leaves two tokens is known from the tokens that it takes and those two. -/
theorem Cursor.behind_before (hne : c.rest ≠ []) (t : Token)
    (h : r.length + 2 ≤ ((c.before r).behind ((c.before r).construct t)).rest.length) :
    ∃ (o : Outcome Construct) (d : Cursor), ∀ r',
      (c.before r').construct t = o.before r' ∧
        (c.before r').behind (o.before r') = d.before r' := by
  have hleaves : ((c.before r).construct t).Leaves 2 r.length := by
    rcases hread : (c.before r).construct t with ⟨x, d⟩ | ⟨e, d⟩
    · rw [hread] at h
      exact h
    · rw [hread] at h
      exact Nat.le_trans h (length_resume_le _)
  obtain ⟨o, ho⟩ := construct_before hne t hleaves
  rcases o with ⟨x, d⟩ | ⟨e, d⟩
  · exact ⟨.ok x d, d, fun r' => ⟨ho r', rfl⟩⟩
  · have hbehind (r' : List CommentedToken) : (c.before r').behind (.failed e (d.before r')) =
        (((d.restore c.availableComments).report e).before r').resume := by
      simp only [behind, availableComments_before hne]
      rfl
    have hresume : r.length <
        (((d.restore c.availableComments).report e).before r).resume.rest.length := by
      rw [ho r] at h
      rw [← hbehind]
      exact Nat.le_of_succ_le h
    exact ⟨.failed e d, _, fun r' => ⟨ho r', (hbehind r').trans (resume_before hresume r')⟩⟩

/-- What is read before an attempt that starts in front of two tokens is known from the tokens up to
these two. -/
theorem attempts_before {a : Attempt} (ha : a ∈ attempts (c.before r))
    (h : r.length + 2 ≤ a.start.rest.length) :
    ∃ (start : Cursor) (xs : List Construct), a.start = start.before r ∧ ∀ r',
      readConstructs (c.before r') =
        (xs ++ (readConstructs (start.before r')).1, (readConstructs (start.before r')).2) := by
  generalize hd : c.before r = d at ha
  fun_induction attempts d generalizing c with
  | case1 d hrest => exact absurd ha List.not_mem_nil
  | case2 d t ts hrest ih =>
    rcases List.mem_cons.1 ha with rfl | ha
    · exact ⟨c, [], hd.symm, fun _ => rfl⟩
    · subst hd
      -- the attempt is further on, so the construct in front of it is read within the part
      have hbehind := Nat.le_trans h (mem_attempts ha).1.length_le
      have hne : c.rest ≠ [] := by
        have hle := Nat.le_trans hbehind ((c.before r).reaches_behind t.token).length_le
        rw [Cursor.length_before] at hle
        exact List.ne_nil_of_length_pos (by omega)
      obtain ⟨u, us, -, hrest'⟩ := Cursor.exists_rest_before hne
      obtain rfl : u = t := (List.cons.inj ((hrest' r).symm.trans hrest)).1
      obtain ⟨o, d, ho⟩ := Cursor.behind_before hne u.token hbehind
      have hd (r' : List CommentedToken) :
          (c.before r').behind ((c.before r').construct u.token) = d.before r' := by
        rw [(ho r').1, (ho r').2]
      obtain ⟨start, xs, hstart, hread⟩ := ih (hd r).symm ha
      refine ⟨start, (Attempt.filed? ⟨c, o⟩).toList ++ xs, hstart, fun r' => ?_⟩
      have hfiled : Attempt.filed? ⟨c.before r', o.before r'⟩ = Attempt.filed? ⟨c, o⟩ := by
        cases o with
        | ok x e =>
          simp only [Outcome.before, Attempt.filed?_ok, Cursor.availableComments_before hne]
        | failed x e => rfl
      rw [readConstructs_of_cons (hrest' r'), hd, hread, (ho r').1, hfiled, List.append_assoc]

end SchemaDiagram.Document
