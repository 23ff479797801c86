import SchemaDiagram.Proofs.Document.Changes
import SchemaDiagram.Proofs.Document.Surroundings

/-!
# Every parser of a document is isolated

One lemma for each parser, in the order in which the parsers are built up. The parsers that look
further ahead than two tokens, those that pass over the rest of an entry or of a text in
parentheses, stop at a keyword that opens a construct, so their counts do not change within the
surroundings (`entryLength_within`, `rawLength_within`).

Main statement: `isolated_construct`, the parser of a construct is isolated.
-/

namespace SchemaDiagram.Document.Parser

variable {α σ : Type}

/-! ## Settings -/

/-- A name is isolated: no name opens a construct. -/
theorem isolated_name (expected : String) : (name expected).Isolated :=
  isolated_take (fun _ => isName_eq_false_of_opensConstruct) expected

/-- A text in quotes is isolated: no such text opens a construct. -/
theorem isolated_string (expected : String) : (string expected).Isolated := by
  refine (isolated_take (fun t ht => ?_) _).bind fun _ => isolated_pure _
  cases hk : t.kind <;> simp [hk, TokenKind.opensConstruct, TokenKind.isString] at ht ⊢

/-- A key is isolated: what opens a construct is a key only in front of a colon. -/
theorem isolated_settingKey : settingKey.Isolated := by
  refine isolated_secondKind?_bind ?_ ?_ ?_
  · intro k hk
    have hne : (some k == some (TokenKind.mark .colon)) = false := by simpa using hk
    rw [hne]
    rfl
  · refine (isolated_take (fun t ht => ?_) _).bind fun _ => isolated_pure _
    rw [isName_eq_false_of_opensConstruct ht]
    exact Bool.and_false _
  · exact (isolatedAhead_take _ _).bind fun _ => isolated_pure _

/-- A keyword that opens a construct is no value of a setting. -/
theorem isSettingValue_eq_false_of_opensConstruct {k : TokenKind} (h : k.opensConstruct = true) :
    isSettingValue k = false := by
  cases k with
  | keyword k =>
    simp [isSettingValue, isName_eq_false_of_opensConstruct h, TokenKind.isString]
  | _ => cases h

/-- The value of a setting is isolated: no value opens a construct. -/
theorem isolated_settingValue : settingValue.Isolated := by
  refine (isolated_expect rfl).bind fun _ => ?_
  exact isolated_take (fun _ => isSettingValue_eq_false_of_opensConstruct) _

/-- The text of a setting is isolated, since its value is. -/
theorem isolated_settingText : settingText.Isolated :=
  isolated_settingValue.bind fun _ => isolated_pure _

/-- The quoted text of a setting is isolated. -/
theorem isolated_settingString : settingString.Isolated :=
  (isolated_expect rfl).bind fun _ => isolated_string _

/-- A checked value is isolated, with a diagnostic about it or without. -/
theorem isolated_settingOf (view : Token → Option α) (reason : String) (key : SettingKey) :
    (settingOf view reason key).Isolated := by
  refine isolated_settingValue.bind fun t => ?_
  split
  · exact isolated_pure _
  · exact (isolated_report _).bind fun _ => isolated_pure _

/-- A keyword that opens a construct breaks an entry off. -/
theorem entryLength_within (s : Surroundings) (depth : Nat) (ts : List CommentedToken) :
    entryLength depth (ts ++ s.behind) = entryLength depth ts := by
  induction ts generalizing depth with
  | nil =>
    cases hbehind : s.behind with
    | nil => rfl
    | cons t us =>
      -- a construct opens behind the part, where the entry would break off as well
      obtain ⟨hopens, hcolon⟩ := s.opens t us hbehind
      have hcomma : t.token.kind ≠ .mark .comma := ne_of_opensConstruct hopens rfl
      have hbracket : t.token.kind ≠ .mark .rightBracket := ne_of_opensConstruct hopens rfl
      have hbrace : t.token.kind ≠ .mark .rightBrace := ne_of_opensConstruct hopens rfl
      have hnext : (us.head?.map (·.token.kind) != some (.mark .colon)) = true :=
        bne_iff_ne.2 hcolon
      simp only [List.nil_append, entryLength]
      rw [if_neg (by simp [hcomma, hbracket]), if_neg (by simp [hbrace]),
        if_pos (by rw [hopens, hnext, Bool.and_self])]
  | cons t ts ih =>
    have hnext : ((ts ++ s.behind).head?.map (·.token.kind) != some (.mark .colon)) =
        (ts.head?.map (·.token.kind) != some (.mark .colon)) := by
      cases ts with
      | cons u us => rfl
      | nil =>
        cases hbehind : s.behind with
        | nil => rfl
        | cons u us =>
          have hcolon : u.token.kind ≠ .mark .colon :=
            ne_of_opensConstruct (s.opens u us hbehind).1 rfl
          exact bne_iff_ne.2 fun h => hcolon (Option.some.inj h)
    simp only [List.cons_append, entryLength, hnext, ih]

/-- The rest of an entry is not longer than what is ahead. -/
theorem entryLength_le (depth : Nat) (ts : List CommentedToken) :
    (entryLength depth ts).1 ≤ ts.length := by
  induction ts generalizing depth with
  | nil => exact Nat.le_refl 0
  | cons t ts ih =>
    have := ih (depthAfter depth t.token.kind)
    simp only [entryLength, List.length_cons]
    split
    · omega
    split
    · omega
    split
    · omega
    · simp only
      omega

/-- Passing over as many tokens as a view of the tokens ahead says. -/
theorem isolated_ahead_bind_skip {view : List CommentedToken → Nat}
    (hview : ∀ (s : Surroundings) ts, view (ts ++ s.behind) = view ts)
    (hle : ∀ ts, view ts ≤ ts.length) : (ahead view >>= skip).Isolated := by
  intro s c
  show Outcome.ok () (Cursor.advanceBy (view (c.rest ++ s.behind)) (c.within s)) = _
  rw [hview, Cursor.advanceBy_within (hle _)]
  rfl

/-- Passing as many tokens as a look ahead says is isolated, if that look ends within the part. -/
theorem isolated_skip_of_le {view : List CommentedToken → Nat × α}
    (hview : ∀ (s : Surroundings) ts, view (ts ++ s.behind) = view ts)
    (hle : ∀ ts, (view ts).1 ≤ ts.length) {f : α → Parser σ} (hf : ∀ a, (f a).Isolated) :
    (ahead view >>= fun seen => skip seen.1 >>= fun _ => f seen.2).Isolated := by
  intro s c
  show (f (view (c.rest ++ s.behind)).2).run
    (Cursor.advanceBy (view (c.rest ++ s.behind)).1 (c.within s)) = _
  rw [hview, Cursor.advanceBy_within (hle _)]
  exact hf _ s _

/-- Passing over the rest of an entry is isolated. -/
theorem isolated_skipEntry : skipEntry.Isolated := by
  refine isolated_skip_of_le (f := fun ended => if ended then return () else unexpected "']'")
    (fun s ts => entryLength_within s 0 ts) (entryLength_le 0) ?_
  intro ended
  split
  · exact isolated_pure _
  · exact isolated_unexpected _

/-- An entry is isolated, if what follows its key is. -/
theorem isolated_settingEntry {apply : σ → SettingKey → Parser (Option σ)}
    (happly : ∀ s key, (apply s key).Isolated) (s : σ) : (settingEntry apply s).Isolated := by
  refine isolated_settingKey.bind fun key => (happly s key).bind fun t => ?_
  split
  · exact isolated_pure _
  · exact isolated_skipEntry.bind fun _ => isolated_pure _

/-- The end of an entry is isolated: neither a comma nor a bracket opens a construct. -/
theorem isolated_settingEnd : settingEnd.Isolated := by
  refine isolated_kind?_bind ?_ ?_ ?_
  · intro k hk
    cases k with
    | keyword k => rfl
    | _ => cases hk
  · exact isolated_unexpected _
  · intro k
    split
    · exact isolatedAhead_any.bind fun _ => isolated_pure _
    · exact (isolated_pure _).whenAhead
    · exact (isolated_unexpected _).whenAhead

/-- A round of reading a list is isolated, if what follows the keys is. -/
theorem isolated_settingsStep {apply : σ → SettingKey → Parser (Option σ)}
    (happly : ∀ s key, (apply s key).Isolated) (s : σ) : (settingsStep apply s).Isolated := by
  have hentry := (isolated_settingEntry happly s).bind fun t =>
    isolated_settingEnd.bind fun _ => isolated_pure (.inl t : σ ⊕ σ)
  refine isolated_kind?_bind ?_ hentry ?_
  · intro k hk
    cases k with
    | keyword k => rfl
    | _ => cases hk
  · intro k
    split
    · exact isolatedAhead_any.bind fun _ => isolated_pure _
    · exact isolatedAhead_any.bind fun _ => isolated_pure _
    · exact hentry.whenAhead

/-- A list of settings is isolated, if what follows the keys is. -/
theorem isolated_settings {apply : σ → SettingKey → Parser (Option σ)}
    (happly : ∀ s key, (apply s key).Isolated) (s : σ) : (settings apply s).Isolated := by
  refine (isolated_expect rfl).bind fun _ => ?_
  exact isolated_iterate _ (isolated_settingsStep happly) s

/-- A list of settings that may be missing is isolated, if what follows the keys is. -/
theorem isolated_settings? {apply : σ → SettingKey → Parser (Option σ)}
    (happly : ∀ s key, (apply s key).Isolated) (s : σ) : (settings? apply s).Isolated := by
  refine (isolated_at? rfl).bind fun isNext => ?_
  split
  · exact isolated_settings happly s
  · exact isolated_pure s

/-! ## Blocks -/

/-- A round of reading a block is isolated: it fails at a keyword that opens a construct as at the
end. -/
theorem isolated_blockStep (construct name : String) (opening : Span)
    {entry : σ → TokenKind → Parser σ} (hentry : ∀ s k, (entry s k).IsolatedAhead) (s : σ) :
    (blockStep construct name opening entry s).Isolated := by
  refine isolated_kind?_bind ?_ (isolated_fail_unclosedBlock _ _ _) ?_
  · intro k hk
    simp only
    rw [if_neg (ne_of_opensConstruct hk rfl), if_pos hk]
  · intro k
    simp only
    split
    · exact isolatedAhead_any.bind fun _ => isolated_pure _
    split
    · exact (isolated_fail_unclosedBlock _ _ _).whenAhead
    · exact (hentry s k).bind fun _ => isolated_pure _

/-- A block is isolated, if its entries are where a token is ahead. -/
theorem isolated_block (construct name : String) (opening : Span)
    {entry : σ → TokenKind → Parser σ} (h : ∀ s k, (entry s k).Consumes)
    (hentry : ∀ s k, (entry s k).IsolatedAhead) (s : σ) :
    (block construct name opening entry h s).Isolated :=
  isolated_iterate _ (isolated_blockStep construct name opening hentry) s

/-- A keyword that opens a construct is neither a colon nor a brace. -/
theorem isColonOrBrace_eq_false_of_opensConstruct {k : TokenKind} (h : k.opensConstruct = true) :
    isColonOrBrace (some k) = false := by
  cases k with
  | keyword k => rfl
  | _ => cases h

/-- The end of a document is neither a colon nor a brace. -/
theorem isColonOrBrace_none : isColonOrBrace none = false := rfl

/-- A keyword that opens a construct is no mark. -/
theorem some_ne_mark_of_opensConstruct {k : TokenKind} (h : k.opensConstruct = true) (m : Mark) :
    some k ≠ some (TokenKind.mark m) :=
  fun hk => ne_of_opensConstruct h rfl (Option.some.inj hk)

/-- A note is isolated, with braces and without. -/
theorem isolated_note : note.Isolated := by
  refine (isolated_expect rfl).bind fun _ => (isolated_accept rfl).bind fun isBraced => ?_
  split
  · refine (isolated_string _).bind fun _ => ?_
    exact (isolated_expect rfl).bind fun _ => isolated_pure _
  · exact (isolated_expect rfl).bind fun _ => isolated_string _

/-- Where a token is ahead, passing over it is isolated. -/
theorem isolatedAhead_ignore (s : σ) : (ignore s).IsolatedAhead :=
  isolatedAhead_any.bind fun _ => isolated_pure _

/-! ## Columns -/

/-- A keyword that opens a construct breaks a text in parentheses off. -/
theorem rawLength_within (s : Surroundings) (depth : Nat) (ts : List CommentedToken) :
    rawLength depth (ts ++ s.behind) = rawLength depth ts := by
  induction ts generalizing depth with
  | nil =>
    cases hbehind : s.behind with
    | nil => rfl
    | cons t us =>
      have hopens := (s.opens t us hbehind).1
      have hparen : t.token.kind ≠ .mark .rightParen := ne_of_opensConstruct hopens rfl
      simp only [List.nil_append, rawLength]
      rw [if_neg (by simp [hparen]), if_pos hopens]
  | cons t ts ih => simp only [List.cons_append, rawLength, ih]

/-- A text in parentheses is not longer than what is ahead. -/
theorem rawLength_le (depth : Nat) (ts : List CommentedToken) :
    (rawLength depth ts).1 ≤ ts.length := by
  induction ts generalizing depth with
  | nil => exact Nat.le_refl 0
  | cons t ts ih =>
    simp only [rawLength, List.length_cons]
    split
    · exact Nat.zero_le _
    split
    · exact Nat.zero_le _
    · exact Nat.succ_le_succ (ih _)

/-- The parenthesis that closes a text is ahead when the text has been passed. -/
theorem rawLength_lt_of_closed {depth : Nat} {ts : List CommentedToken}
    (h : (rawLength depth ts).2 = true) : (rawLength depth ts).1 < ts.length := by
  induction ts generalizing depth with
  | nil => cases h
  | cons t ts ih =>
    simp only [rawLength, List.length_cons] at h ⊢
    split at h
    · next hclose =>
      rw [if_pos hclose]
      exact Nat.succ_pos _
    split at h
    · cases h
    · next hclose hopens =>
      rw [if_neg hclose, if_neg hopens]
      exact Nat.succ_lt_succ (ih h)

/-- Reads the rest of a text in parentheses behind the opening one. -/
theorem run_parenthesized (c : Cursor) :
    parenthesized.run c =
      match (expect (.mark .leftParen)).run c with
      | .ok _ d =>
        if (rawLength 0 d.rest).2 then
          (any >>= fun _ =>
            pure (rawText ((d.rest.take (rawLength 0 d.rest).1).map (·.token)))).run
            (d.advanceBy (rawLength 0 d.rest).1)
        else (unexpected "')'").run (d.advanceBy (rawLength 0 d.rest).1)
      | .failed e d => .failed e d := by
  unfold parenthesized
  rw [run_bind]
  cases (expect (.mark .leftParen)).run c with
  | failed e d => rfl
  | ok t d =>
    show (if (rawLength 0 d.rest).2 = true then any >>= fun _ => pure _
      else unexpected "')'").run (d.advanceBy (rawLength 0 d.rest).1) = _
    by_cases h : (rawLength 0 d.rest).2 = true
    · simp only [if_pos h]
    · simp only [if_neg h]

/-- A text in parentheses is isolated: a keyword that opens a construct leaves it open. -/
theorem isolated_parenthesized : parenthesized.Isolated := by
  intro s c
  rw [run_parenthesized, run_parenthesized, isolated_expect rfl s c]
  cases (expect (.mark .leftParen)).run c with
  | failed e d => rfl
  | ok t d =>
    have hle := rawLength_le 0 d.rest
    have htokens : (d.within s).rest.take (rawLength 0 d.rest).1 =
        d.rest.take (rawLength 0 d.rest).1 := List.take_append_of_le_length hle
    have hlength : rawLength 0 (d.within s).rest = rawLength 0 d.rest :=
      rawLength_within s 0 d.rest
    simp only [Outcome.within, hlength, htokens, Cursor.advanceBy_within hle]
    by_cases hclosed : (rawLength 0 d.rest).2 = true
    · rw [if_pos hclosed, if_pos hclosed]
      refine (isolatedAhead_any.bind fun _ => isolated_pure _) s _ ?_
      rw [Cursor.rest_advanceBy, ne_eq, List.drop_eq_nil_iff, Nat.not_le]
      exact rawLength_lt_of_closed hclosed
    · rw [if_neg hclosed, if_neg hclosed]
      exact isolated_unexpected _ s _

/-- A text in parentheses that may be missing is isolated. -/
theorem isolated_parenthesized? : parenthesized?.Isolated := by
  refine (isolated_at? rfl).bind fun isNext => ?_
  split
  · exact isolated_parenthesized.bind fun _ => isolated_pure _
  · exact isolated_pure _

/-- A keyword that opens a construct is no default. -/
theorem defaultForm?_eq_none_of_opensConstruct {k : TokenKind} (h : k.opensConstruct = true) :
    defaultForm? k = none := by
  cases k with
  | keyword k => cases k <;> first | rfl | cases h
  | _ => cases h

/-- A default is isolated, that of a call as well. -/
theorem isolated_settingDefault : settingDefault.Isolated := by
  refine (isolated_expect rfl).bind fun _ => ?_
  refine (isolated_take (fun t ht => ?_) _).bind fun t => (isolated_at? rfl).bind fun isCall => ?_
  · rw [defaultForm?_eq_none_of_opensConstruct ht]
    rfl
  · split
    · exact isolated_parenthesized.bind fun _ => isolated_pure _
    · exact isolated_pure _

/-- A keyword that opens a construct is not the word that is looked for. -/
theorem isWord_ahead_within (s : Surroundings) (word : String) (ts : List CommentedToken) :
    ((ts ++ s.behind).head?.any fun t => t.token.isWord word) =
      ts.head?.any fun t => t.token.isWord word := by
  cases ts with
  | cons t ts => rfl
  | nil =>
    cases hbehind : s.behind with
    | nil => rfl
    | cons t us =>
      have hkind : (t.token.kind == .identifier) = false :=
        beq_eq_false_iff_ne.2 (ne_of_opensConstruct (s.opens t us hbehind).1 rfl)
      simp [Token.isWord, hkind]

/-- A choice by whether a word is next, which reads on only if it is. -/
theorem isolated_isWord_bind {word : String} {p q : Parser α} (hp : p.IsolatedAhead)
    (hq : q.Isolated) :
    (ahead (fun ts => ts.head?.any fun t => t.token.isWord word) >>= fun found =>
      if found = true then p else q).Isolated := by
  intro s c
  show (if (c.rest ++ s.behind).head?.any (fun t => t.token.isWord word) = true then p else q).run
      (c.within s) =
    ((if c.rest.head?.any (fun t => t.token.isWord word) = true then p else q).run c).within s
  rw [isWord_ahead_within]
  by_cases hfound : c.rest.head?.any (fun t => t.token.isWord word) = true
  · rw [if_pos hfound]
    refine hp s c ?_
    intro hrest
    simp [hrest] at hfound
  · rw [if_neg hfound]
    exact hq s c

/-- Each of the seven forms of what follows a key is isolated. -/
theorem isolated_reader (l : ListKind) (s : l.State) (key : SettingKey) (after : AfterKey) :
    (after.reader l s key).Isolated := by
  cases after with
  | nothing change => exact isolated_pure _
  | null change => exact (isolated_expect rfl).bind fun _ => isolated_pure _
  | key change =>
    exact isolated_isWord_bind (isolatedAhead_any.bind fun _ => isolated_pure _) (isolated_pure _)
  | text change => exact isolated_settingText.bind fun _ => isolated_pure _
  | string change => exact isolated_settingString.bind fun _ => isolated_pure _
  | checked view expectation =>
    exact (isolated_settingOf _ _ _).bind fun _ => isolated_pure _
  | default => exact isolated_settingDefault.bind fun _ => isolated_pure _

/-- What follows a key is isolated for every list and every key. -/
theorem isolated_apply (l : ListKind) (s : l.State) (key : SettingKey) : (l.apply s key).Isolated :=
  ListKind.apply_of_reader (fun _ after _ => isolated_reader l s key after) (isolated_pure none)

/-- A column without its comments is isolated. -/
theorem isolated_column : column.Isolated := by
  refine (isolated_name _).bind fun _ => (isolated_name _).bind fun _ => ?_
  refine isolated_parenthesized?.bind fun _ => ?_
  refine (isolated_settings? (isolated_apply .column) _).bind fun _ => ?_
  exact isolated_lastSpan.bind fun _ => isolated_pure _

/-- Where a token is ahead, a column with its comments is isolated. -/
theorem isolatedAhead_commentedColumn : commentedColumn.IsolatedAhead :=
  isolated_column.takingComments.bind fun _ => isolated_pure _

/-! ## Tables -/

/-- A column of an index is isolated: no such column opens a construct. -/
theorem isolated_indexColumn : indexColumn.Isolated := by
  refine (isolated_take (fun t ht => ?_) _).bind fun _ => isolated_pure _
  have hkind : (t.kind == .string .backtick) = false :=
    beq_eq_false_iff_ne.2 (ne_of_opensConstruct ht rfl)
  rw [isIndexColumn, isName_eq_false_of_opensConstruct ht, hkind]
  rfl

/-- The columns of an index are isolated, with parentheses and without. -/
theorem isolated_indexColumns : indexColumns.Isolated := by
  refine (isolated_accept rfl).bind fun isList => ?_
  split
  · refine (isolated_iterate _ (fun columns => ?_) []).bind fun _ => ?_
    · refine isolated_indexColumn.bind fun column => (isolated_accept rfl).bind fun more => ?_
      split
      · exact isolated_pure _
      · exact isolated_pure _
    · exact (isolated_expect rfl).bind fun _ => isolated_pure _
  · exact isolated_indexColumn.bind fun _ => isolated_pure _

/-- An index is isolated. -/
theorem isolated_index (start : Span) : (index start).Isolated := by
  refine isolated_indexColumns.bind fun _ => ?_
  refine (isolated_settings? (isolated_apply .index) _).bind fun _ => ?_
  exact isolated_lastSpan.bind fun _ => isolated_pure _

/-- Where a token is ahead, an entry of a block of indexes is isolated. -/
theorem isolatedAhead_indexesEntry (indexes : List Index) (k : TokenKind) :
    (indexesEntry indexes k).IsolatedAhead := by
  unfold indexesEntry
  split
  · exact isolatedAhead_nextSpan.bind fun _ => (isolated_index _).bind fun _ => isolated_pure _
  · exact isolatedAhead_ignore _

/-- A block of indexes is isolated. -/
theorem isolated_indexes : indexes.Isolated := by
  refine (isolated_expect rfl).bind fun _ => (isolated_expect rfl).bind fun _ => ?_
  exact isolated_block _ _ _ _ isolatedAhead_indexesEntry _

/-- Where a token is ahead, an entry of a table is isolated. -/
theorem isolatedAhead_tableEntry (t : Table) (k : TokenKind) : (tableEntry t k).IsolatedAhead := by
  refine isolatedAhead_secondKind?_bind ?_ ?_
  · intro l hl
    simp only [isColonOrBrace_eq_false_of_opensConstruct hl, isColonOrBrace_none,
      some_ne_mark_of_opensConstruct hl, reduceCtorEq]
  · intro second
    split
    · exact isolated_note.whenAhead.bind fun _ => isolated_pure _
    split
    · exact isolated_indexes.whenAhead.bind fun _ => isolated_pure _
    split
    · exact isolatedAhead_commentedColumn.bind fun _ => isolated_pure _
    · exact isolatedAhead_ignore _

/-- The alias of a table is isolated. -/
theorem isolated_tableAlias? : tableAlias?.Isolated := by
  refine isolated_isWord_bind ?_ (isolated_pure _)
  exact isolatedAhead_any.bind fun _ => (isolated_name _).bind fun _ => isolated_pure _

/-- A table is isolated. -/
theorem isolated_table (start : Span) : (table start).Isolated := by
  refine (isolated_name _).bind fun _ => isolated_tableAlias?.bind fun _ => ?_
  refine (isolated_settings? (isolated_apply .table) _).bind fun _ => ?_
  refine (isolated_expect rfl).bind fun _ => ?_
  refine (isolated_block _ _ _ _ isolatedAhead_tableEntry _).bind fun _ => ?_
  exact isolated_lastSpan.bind fun _ => isolated_pure _

/-! ## Areas and projects -/

/-- A round of reading common columns is isolated. -/
theorem isolated_commonColumnsStep (columns : List Column) :
    (commonColumnsStep columns).Isolated := by
  refine isolated_kind?_bind ?_ (isolated_unexpected _) ?_
  · intro k hk
    simp only
    rw [if_neg (ne_of_opensConstruct hk rfl), if_pos hk]
  · intro k
    simp only
    split
    · exact isolatedAhead_any.bind fun _ => isolated_pure _
    split
    · exact (isolated_unexpected _).whenAhead
    split
    · exact isolatedAhead_commentedColumn.bind fun _ => isolated_pure _
    · exact isolatedAhead_any.bind fun _ => isolated_pure _

/-- A list of common columns is isolated. -/
theorem isolated_commonColumns : commonColumns.Isolated := by
  refine (isolated_expect rfl).bind fun _ => (isolated_accept rfl).bind fun _ => ?_
  exact (isolated_expect rfl).bind fun _ => isolated_iterate _ isolated_commonColumnsStep []

/-- Passing over the value of a line is isolated: it does not pass a keyword that opens a construct.
-/
theorem isolated_skipLineValue : skipLineValue.Isolated := by
  refine (isolated_accept rfl).bind fun _ => ?_
  refine isolated_ahead_bind_skip ?_ ?_
  · intro s ts
    cases ts with
    | cons t ts => rfl
    | nil =>
      cases hbehind : s.behind with
      | nil => rfl
      | cons t us => simp [(s.opens t us hbehind).1]
  · intro ts
    cases ts with
    | nil => exact Nat.le_refl 0
    | cons t ts =>
      simp only [List.length_cons]
      split <;> omega

/-- A line of a key and a value is isolated, if what follows the key is. -/
theorem isolated_settingLine {apply : σ → SettingKey → Parser (Option σ)}
    (happly : ∀ s key, (apply s key).Isolated) (s : σ) : (settingLine apply s).Isolated := by
  refine isolated_settingKey.bind fun key => (happly s key).bind fun t => ?_
  split
  · exact isolated_pure _
  · exact isolated_skipLineValue.bind fun _ => isolated_pure _

/-- Where a token is ahead, an entry of an area is isolated. -/
theorem isolatedAhead_areaEntry (a : Area) (k : TokenKind) : (areaEntry a k).IsolatedAhead := by
  refine isolatedAhead_secondKind?_bind ?_ ?_
  · intro l hl
    simp only [isColonOrBrace_eq_false_of_opensConstruct hl, isColonOrBrace_none,
      some_ne_mark_of_opensConstruct hl, reduceCtorEq]
  · intro second
    split
    · exact isolated_note.whenAhead.bind fun _ => isolated_pure _
    split
    · exact isolated_commonColumns.whenAhead.bind fun _ => isolated_pure _
    split
    · exact (isolated_settingLine (isolated_apply .area) _).whenAhead
    split
    · exact (isolated_name _).whenAhead.bind fun _ => isolated_pure _
    · exact isolatedAhead_ignore _

/-- An area is isolated. -/
theorem isolated_area (start : Span) : (area start).Isolated := by
  refine (isolated_name _).bind fun _ => ?_
  refine (isolated_settings? (isolated_apply .area) _).bind fun _ => ?_
  refine (isolated_expect rfl).bind fun _ => ?_
  refine (isolated_block _ _ _ _ isolatedAhead_areaEntry _).bind fun _ => ?_
  exact isolated_lastSpan.bind fun _ => isolated_pure _

/-- Where a token is ahead, an entry of a project is isolated. -/
theorem isolatedAhead_projectEntry (p : Project) (k : TokenKind) :
    (projectEntry p k).IsolatedAhead := by
  refine isolatedAhead_secondKind?_bind ?_ ?_
  · intro l hl
    simp only [isColonOrBrace_eq_false_of_opensConstruct hl, isColonOrBrace_none,
      some_ne_mark_of_opensConstruct hl, reduceCtorEq]
  · intro second
    split
    · exact isolated_note.whenAhead.bind fun _ => isolated_pure _
    split
    · exact (isolated_settingLine (isolated_apply .project) _).whenAhead
    · exact isolatedAhead_ignore _

/-- The block of a project starts with a brace, which is read only where one is ahead. -/
theorem isolated_projectBlock? (start : Span) (p : Project) : (projectBlock? start p).Isolated := by
  refine isolated_at?_bind rfl ?_ (isolated_pure p)
  refine isolatedAhead_any.bind fun brace => ?_
  exact isolated_block _ _ _ _ isolatedAhead_projectEntry p

/-- A project is isolated, with a block and without. -/
theorem isolated_project (start : Span) : (project start).Isolated := by
  refine (isolated_name _).bind fun _ => ?_
  refine (isolated_settings? (isolated_apply .project) _).bind fun _ => ?_
  refine (isolated_projectBlock? _ _).bind fun _ => ?_
  exact isolated_lastSpan.bind fun _ => isolated_pure _

/-! ## References -/

/-- An endpoint of a reference is isolated. -/
theorem isolated_endpoint : endpoint.Isolated := by
  refine (isolated_name _).bind fun _ => (isolated_expect rfl).bind fun _ => ?_
  exact (isolated_name _).bind fun _ => isolated_pure _

/-- The symbol of a relationship is isolated: no such symbol opens a construct. -/
theorem isolated_relationship : relationship.Isolated := by
  refine (isolated_take (fun t ht => ?_) _).bind fun _ => isolated_pure _
  cases hk : t.kind <;> simp [hk, TokenKind.opensConstruct, relationshipOf?] at ht ⊢

/-- The name of a reference is isolated. -/
theorem isolated_referenceName? : referenceName?.Isolated := by
  have hskip : (secondKind? >>= fun _ => (Pure.pure none : Parser (Option String))).Isolated :=
    isolated_secondKind?_bind (fun _ _ => rfl) (isolated_pure _) (isolated_pure _).whenAhead
  refine isolated_kind?_bind ?_ ?_ ?_
  · intro k hk
    simp [isName_eq_false_of_opensConstruct hk]
  · simpa using hskip
  · intro k
    refine isolatedAhead_secondKind?_bind ?_ ?_
    · intro l hl
      simp only [isColonOrBrace_eq_false_of_opensConstruct hl, isColonOrBrace_none]
      rfl
    · intro second
      split
      · exact (isolated_name _).whenAhead.bind fun _ => isolated_pure _
      · exact (isolated_pure _).whenAhead

/-- A reference is isolated, with braces and without. -/
theorem isolated_reference (start : Span) : (reference start).Isolated := by
  refine isolated_referenceName?.bind fun _ => (isolated_accept rfl).bind fun _ => ?_
  refine (isolated_accept rfl).bind fun isBraced => isolated_endpoint.bind fun _ => ?_
  refine isolated_relationship.bind fun _ => isolated_endpoint.bind fun _ => ?_
  refine (isolated_settings? (isolated_apply .reference) _).bind fun _ => ?_
  split
  · refine (isolated_expect rfl).bind fun _ => ?_
    exact isolated_lastSpan.bind fun _ => isolated_pure _
  · exact isolated_lastSpan.bind fun _ => isolated_pure _

/-! ## Constructs -/

/-- The parser of a construct reads a part of a document within its surroundings as it reads the
part alone. -/
theorem isolated_construct {k : TokenKind} {construct : Span → Parser Construct}
    (h : construct? k = some construct) (start : Span) : (construct start).Isolated := by
  obtain ⟨-, rfl⟩ | ⟨-, rfl⟩ | ⟨-, rfl⟩ | ⟨-, rfl⟩ := construct?_eq_some h
  · exact (isolated_project start).map _
  · exact (isolated_table start).map _
  · exact (isolated_reference start).map _
  · exact (isolated_area start).map _

end SchemaDiagram.Document.Parser
