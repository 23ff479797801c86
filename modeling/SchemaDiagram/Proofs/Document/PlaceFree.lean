import SchemaDiagram.Proofs.Document.Entries
import SchemaDiagram.Proofs.Document.Recovery
import SchemaDiagram.Proofs.Document.Unplaced

/-!
# Reading does not look at places

The places of tokens come back in the spans of what is read and in the diagnostics, and nothing else
depends on them: each parser does the same on tokens whose places are forgotten.

Main statement: `ofTokens_unplaced`, reading tokens without their places gives the document and the
diagnostics without theirs.
-/

namespace SchemaDiagram.Document

namespace Parser

variable {α σ σ' : Type}

/-! ## Settings -/

/-- A name is read without its place. -/
theorem unplaces_name (expected : String) : Unplaces Token.unplaced (name expected) (name expected) :=
  unplaces_take (fun _ => rfl) _

/-- A text in quotes has no place. -/
theorem unplaces_string (expected : String) : Unplaces id (string expected) (string expected) :=
  (unplaces_take (fun _ => rfl) _).bind fun t => unplaces_pure id t.value

/-- A key has no place. -/
theorem unplaces_settingKey : Unplaces id settingKey settingKey :=
  unplaces_secondKind?.bind fun _ =>
    (unplaces_take (fun _ => rfl) _).bind fun t => unplaces_pure id (SettingKey.mk t.value)

/-- The value of a setting is read without its place. -/
theorem unplaces_settingValue : Unplaces Token.unplaced settingValue settingValue :=
  (unplaces_expect _).bind fun _ => unplaces_take (fun _ => rfl) _

/-- The text of a setting has no place. -/
theorem unplaces_settingText : Unplaces id settingText settingText :=
  unplaces_settingValue.bind fun t => unplaces_pure id t.value

/-- The quoted text of a setting has no place. -/
theorem unplaces_settingString : Unplaces id settingString settingString :=
  (unplaces_expect _).bind fun _ => unplaces_string _

/-- A checked value is the same without places, if the check does not look at them. -/
theorem unplaces_settingOf {view : Token → Option α} (h : ∀ t, view t.unplaced = view t)
    (reason : String) (key : SettingKey) :
    Unplaces id (settingOf view reason key) (settingOf view reason key) := by
  refine unplaces_settingValue.bind fun t => ?_
  rw [h]
  cases view t with
  | some a => exact unplaces_pure id (some a)
  | none => exact (unplaces_report _).bind fun _ => unplaces_pure id none

/-- How long the rest of an entry is does not depend on places. -/
theorem entryLength_unplaced (depth : Nat) (ts : List CommentedToken) :
    entryLength depth (ts.map CommentedToken.unplaced) = entryLength depth ts := by
  induction ts generalizing depth with
  | nil => rfl
  | cons t ts ih =>
    have hhead : (ts.map CommentedToken.unplaced).head?.map (·.token.kind) =
        ts.head?.map (·.token.kind) := by
      cases ts <;> rfl
    rw [List.map_cons, entryLength, entryLength, hhead, ih]
    rfl

/-- The rest of an entry is passed over without places as with them. -/
theorem unplaces_skipEntry : Unplaces id skipEntry skipEntry := by
  refine (unplaces_ahead_id (entryLength_unplaced 0)).bind fun length => ?_
  refine (unplaces_skip length.1).bind fun _ => ?_
  split
  · exact unplaces_pure id ()
  · exact unplaces_unexpected id _

/-- The value of a line is passed over without places as with them. -/
theorem unplaces_skipLineValue : Unplaces id skipLineValue skipLineValue := by
  refine (unplaces_accept _).bind fun _ => (unplaces_ahead fun ts => ?_).bind unplaces_skip
  cases ts <;> rfl

section Lists

variable {k : σ → σ'} {apply : σ → SettingKey → Parser (Option σ)}
  {apply' : σ' → SettingKey → Parser (Option σ')}

/-- An entry sets without places what it sets with them, if what follows its key does. -/
theorem unplaces_settingEntry
    (h : ∀ s key, Unplaces (Option.map k) (apply s key) (apply' (k s) key)) (s : σ) :
    Unplaces k (settingEntry apply s) (settingEntry apply' (k s)) := by
  refine unplaces_settingKey.bind fun key => (h s key).bind fun answer => ?_
  cases answer with
  | some t => exact unplaces_pure k t
  | none => exact unplaces_skipEntry.bind fun _ => unplaces_pure k s

/-- The end of an entry is read without places as with them. -/
theorem unplaces_settingEnd : Unplaces id settingEnd settingEnd := by
  refine unplaces_kind?.bind fun next => ?_
  simp only [id]
  split
  · exact unplaces_any.bind fun _ => unplaces_pure id ()
  · exact unplaces_pure id ()
  · exact unplaces_unexpected id _

/-- A round of reading a list corresponds to it without places, if what follows the keys does. -/
theorem unplaces_settingsStep
    (h : ∀ s key, Unplaces (Option.map k) (apply s key) (apply' (k s) key)) (s : σ) :
    Unplaces (Sum.map k k) (settingsStep apply s) (settingsStep apply' (k s)) := by
  refine unplaces_kind?.bind fun next => ?_
  simp only [id]
  split
  · exact unplaces_any.bind fun _ => unplaces_pure _ (Sum.inr s)
  · exact unplaces_any.bind fun _ => unplaces_pure _ (Sum.inl s)
  · refine (unplaces_settingEntry h s).bind fun t => unplaces_settingEnd.bind fun _ => ?_
    exact unplaces_pure _ (Sum.inl t)

/-- A list that may be missing corresponds to it without places, if what follows the keys does. -/
theorem unplaces_settings?
    (h : ∀ s key, Unplaces (Option.map k) (apply s key) (apply' (k s) key)) (s : σ) :
    Unplaces k (settings? apply s) (settings? apply' (k s)) := by
  refine (unplaces_at? _).bind fun isNext => ?_
  simp only [id]
  split
  · exact (unplaces_expect _).bind fun _ =>
      Unplaces.iterate (consumes_settingsStep apply) (consumes_settingsStep apply')
        (unplaces_settingsStep h) s
  · exact unplaces_pure k s

/-- A line of a key and a value sets without places what it sets with them, if its value does. -/
theorem unplaces_settingLine
    (h : ∀ s key, Unplaces (Option.map k) (apply s key) (apply' (k s) key)) (s : σ) :
    Unplaces k (settingLine apply s) (settingLine apply' (k s)) := by
  refine unplaces_settingKey.bind fun key => (h s key).bind fun answer => ?_
  cases answer with
  | some t => exact unplaces_pure k t
  | none => exact unplaces_skipLineValue.bind fun _ => unplaces_pure k s

end Lists

/-! ## Texts in parentheses and defaults -/

/-- How long a text in parentheses is does not depend on places. -/
theorem rawLength_unplaced (depth : Nat) (ts : List CommentedToken) :
    rawLength depth (ts.map CommentedToken.unplaced) = rawLength depth ts := by
  induction ts generalizing depth with
  | nil => rfl
  | cons t ts ih =>
    simp only [List.map_cons, rawLength, ih]
    rfl

/-- The blanks between the tokens of a text in parentheses depend on kinds and texts only. -/
theorem rawTextAfter_unplaced (previous : TokenKind) (ts : List Token) :
    rawTextAfter previous (ts.map Token.unplaced) = rawTextAfter previous ts := by
  induction ts generalizing previous with
  | nil => rfl
  | cons t ts ih =>
    rw [List.map_cons, rawTextAfter, rawTextAfter, ih]
    rfl

/-- The text of tokens in parentheses does not depend on places. -/
theorem rawText_unplaced (ts : List Token) : rawText (ts.map Token.unplaced) = rawText ts := by
  cases ts with
  | nil => rfl
  | cons t ts => exact congrArg (t.text ++ ·) (rawTextAfter_unplaced t.kind ts)

/-- A text in parentheses is the same without places. -/
theorem unplaces_parenthesized : Unplaces id parenthesized parenthesized := by
  refine (unplaces_expect _).bind fun _ => ?_
  refine (unplaces_ahead_id (rawLength_unplaced 0)).bind fun length => ?_
  have htokens : Unplaces (List.map Token.unplaced)
      (ahead fun ts => (ts.take length.1).map (·.token))
      (ahead fun ts => (ts.take length.1).map (·.token)) :=
    unplaces_ahead fun ts => by rw [← List.map_take, List.map_map, List.map_map]; rfl
  refine htokens.bind fun tokens => (unplaces_skip length.1).bind fun _ => ?_
  simp only [rawText_unplaced]
  split
  · exact unplaces_any.bind fun _ => unplaces_pure id (rawText tokens)
  · exact unplaces_unexpected id _

/-- A text in parentheses that may be missing is the same without places. -/
theorem unplaces_parenthesized? : Unplaces id parenthesized? parenthesized? := by
  refine (unplaces_at? _).bind fun isNext => ?_
  simp only [id]
  split
  · exact unplaces_parenthesized.bind fun text => unplaces_pure id (some text)
  · exact unplaces_pure id none

/-- A default has no place. -/
theorem unplaces_settingDefault : Unplaces id settingDefault settingDefault := by
  refine (unplaces_expect _).bind fun _ => (unplaces_take (fun _ => rfl) _).bind fun t => ?_
  refine (unplaces_at? _).bind fun isCall => ?_
  simp only [id]
  show Unplaces id _ (if t.kind = .identifier ∧ isCall = true then _ else _)
  split
  · exact unplaces_parenthesized.bind fun arguments =>
      unplaces_pure id (Default.mk s!"{t.text}({arguments})" .expression)
  · exact unplaces_pure id (Default.mk t.value ((defaultForm? t.kind).getD .literal))

/-- A word is found without places where it is found with them. -/
theorem unplaces_isWord (word : String) :
    Unplaces id (ahead fun ts => ts.head?.any fun t => t.token.isWord word)
      (ahead fun ts => ts.head?.any fun t => t.token.isWord word) :=
  unplaces_ahead_id fun ts => by cases ts <;> rfl

end Parser

/-! ## What follows a key -/

namespace ListKind

/-- What the entries of a list change, without any places. -/
def unplaced : (l : ListKind) → l.State → l.State
  | project => Project.unplaced
  | table => Table.unplaced
  | column => id
  | index => Index.unplaced
  | reference => Reference.unplaced
  | area => Area.unplaced

/-- No change is about a place: making it and forgetting places can be done in either order. -/
theorem unplaced_set (l : ListKind) (s : l.State) (change : Change) :
    l.unplaced (l.set s change) = l.set (l.unplaced s) change := by
  cases l <;> cases change <;> rfl

/-- Values are checked for their texts and not for their places. -/
theorem IsCheck.unplaced {view : Token → Option Change} {expectation : String}
    (h : IsCheck view expectation) (t : Token) : view t.unplaced = view t := by
  cases h <;> rfl

end ListKind

namespace Parser

/-- Each of the seven forms of what follows a key is read without places, if its check is. -/
theorem unplaces_reader {l : ListKind} (s : l.State) (key : SettingKey) {after : AfterKey}
    (h : ∀ view expectation, after = .checked view expectation →
      ∀ t, view t.unplaced = view t) :
    Unplaces (Option.map l.unplaced) (after.reader l s key)
      (after.reader l (l.unplaced s) key) := by
  have hset (change : Change) : Unplaces (Option.map l.unplaced)
      (Pure.pure (some (l.set s change))) (Pure.pure (some (l.set (l.unplaced s) change))) := by
    rw [← l.unplaced_set]
    exact unplaces_pure _ (some (l.set s change))
  cases after with
  | nothing change => exact hset change
  | null change => exact (unplaces_expect _).bind fun _ => hset change
  | key change =>
    refine (unplaces_isWord "key").bind fun isKey => ?_
    cases isKey with
    | true => exact unplaces_any.bind fun _ => hset change
    | false => exact unplaces_pure _ none
  | text change => exact unplaces_settingText.bind fun text => hset (change text)
  | string change => exact unplaces_settingString.bind fun text => hset (change text)
  | checked view expectation =>
    refine (unplaces_settingOf (h view expectation rfl) expectation key).bind fun change => ?_
    cases change with
    | none => exact unplaces_pure _ (some s)
    | some change => exact hset change
  | default => exact unplaces_settingDefault.bind fun value => hset (.default value)

/-- What is read behind a key depends on no places. -/
theorem unplaces_apply (l : ListKind) (s : l.State) (key : SettingKey) :
    Unplaces (Option.map l.unplaced) (l.apply s key) (l.apply (l.unplaced s) key) := by
  rw [l.apply_eq, l.apply_eq]
  cases hform : l.meaning? key.form with
  | none => exact unplaces_pure _ none
  | some entry =>
    refine unplaces_reader s key fun view expectation hchecked => ?_
    obtain ⟨field, after⟩ := entry
    obtain rfl : after = .checked view expectation := hchecked
    exact (ListKind.isCheck_of_meaning? hform).unplaced

/-! ## Blocks and columns -/

/-- A round of reading a block corresponds to it without places, if the entries do. -/
theorem unplaces_blockStep {k : σ → σ'} {entry : σ → TokenKind → Parser σ}
    {entry' : σ' → TokenKind → Parser σ'} (construct name : String) (opening : Span)
    (h : ∀ s next, Unplaces k (entry s next) (entry' (k s) next)) (s : σ) :
    Unplaces (Sum.map k k) (blockStep construct name opening entry s)
      (blockStep construct name default entry' (k s)) := by
  refine unplaces_kind?.bind fun next => ?_
  cases next with
  | none => exact unplaces_fail _ (.unclosedBlock construct name opening)
  | some next =>
    simp only [id]
    split
    · exact unplaces_any.bind fun _ => unplaces_pure _ (Sum.inr s)
    split
    · exact unplaces_fail _ (.unclosedBlock construct name opening)
    · exact (h s next).bind fun t => unplaces_pure _ (Sum.inl t)

/-- A block corresponds to it without places, if its entries do. -/
theorem unplaces_block {k : σ → σ'} {entry : σ → TokenKind → Parser σ}
    {entry' : σ' → TokenKind → Parser σ'} (construct name : String) (opening : Span)
    (hconsumes : ∀ s next, (entry s next).Consumes)
    (hconsumes' : ∀ s next, (entry' s next).Consumes)
    (h : ∀ s next, Unplaces k (entry s next) (entry' (k s) next)) (s : σ) :
    Unplaces k (block construct name opening entry hconsumes s)
      (block construct name default entry' hconsumes' (k s)) :=
  Unplaces.iterate _ _ (unplaces_blockStep construct name opening h) s

/-- A note has no place. -/
theorem unplaces_note : Unplaces id note note := by
  refine (unplaces_expect _).bind fun _ => (unplaces_accept _).bind fun isBraced => ?_
  simp only [id]
  split
  · refine (unplaces_string _).bind fun text => ?_
    exact (unplaces_expect _).bind fun _ => unplaces_pure id text
  · exact (unplaces_expect _).bind fun _ => unplaces_string _

/-- What is unknown is passed over without places as with them. -/
theorem unplaces_ignore (k : σ → σ') (s : σ) : Unplaces k (ignore s) (ignore (k s)) :=
  unplaces_any.bind fun _ => unplaces_pure k s

/-- A column is read without its place. -/
theorem unplaces_column : Unplaces Column.unplaced column column := by
  refine (unplaces_name _).bind fun columnName => (unplaces_name _).bind fun type => ?_
  refine unplaces_parenthesized?.bind fun params => ?_
  refine (unplaces_settings? (unplaces_apply .column) ColumnSettings.none).bind fun settings => ?_
  exact unplaces_lastSpan.bind fun last => unplaces_pure Column.unplaced
    ⟨columnName.value, type.value, params, settings, columnName.span.through last, []⟩

/-- A column with its comments is read without its place. -/
theorem unplaces_commentedColumn : Unplaces Column.unplaced commentedColumn commentedColumn :=
  unplaces_column.takingComments.bind fun read =>
    unplaces_pure Column.unplaced { read.1 with comments := read.2 }

/-! ## Tables -/

/-- A column of an index has no place. -/
theorem unplaces_indexColumn : Unplaces id indexColumn indexColumn :=
  (unplaces_take (fun _ => rfl) _).bind fun t => unplaces_pure id t.value

/-- The columns of an index have no places. -/
theorem unplaces_indexColumns : Unplaces id indexColumns indexColumns := by
  have hstep (columns : List String) : Unplaces (Sum.map id id) (indexColumnsStep columns)
      (indexColumnsStep columns) := by
    refine unplaces_indexColumn.bind fun column => (unplaces_accept _).bind fun more => ?_
    simp only [id]
    split
    · exact unplaces_pure (Sum.map id id) (Sum.inl (columns ++ [column]))
    · exact unplaces_pure (Sum.map id id) (Sum.inr (columns ++ [column]))
  refine (unplaces_accept _).bind fun several => ?_
  simp only [id]
  split
  · refine (Unplaces.iterate _ _ hstep []).bind fun columns => ?_
    exact (unplaces_expect _).bind fun _ => unplaces_pure id columns
  · exact unplaces_indexColumn.bind fun column => unplaces_pure id [column]

/-- An index is read without its place. -/
theorem unplaces_index (start : Span) : Unplaces Index.unplaced (index start) (index default) := by
  refine unplaces_indexColumns.bind fun columns => ?_
  refine (unplaces_settings? (unplaces_apply .index)
    (⟨columns, false, false, none, start⟩ : Index)).bind fun i => ?_
  exact unplaces_lastSpan.bind fun last =>
    unplaces_pure Index.unplaced { i with span := start.through last }

/-- An entry of a block of indexes is read without its place. -/
theorem unplaces_indexesEntry (indexes : List Index) (next : TokenKind) :
    Unplaces (List.map Index.unplaced) (indexesEntry indexes next)
      (indexesEntry (indexes.map Index.unplaced) next) := by
  unfold indexesEntry
  split
  · refine unplaces_nextSpan.bind fun start => (unplaces_index start).bind fun i => ?_
    have hpure := unplaces_pure (List.map Index.unplaced) (indexes ++ [i])
    rwa [List.map_append] at hpure
  · exact unplaces_ignore _ indexes

/-- A block of indexes is read without the places in it. -/
theorem unplaces_indexes : Unplaces (List.map Index.unplaced) indexes indexes := by
  refine (unplaces_expect _).bind fun keyword => (unplaces_expect _).bind fun brace => ?_
  exact unplaces_block "indexes" "indexes" (keyword.span.through brace.span) _ _
    unplaces_indexesEntry []

/-- An entry of a table is read without the places in it. -/
theorem unplaces_tableEntry (t : Table) (next : TokenKind) :
    Unplaces Table.unplaced (tableEntry t next) (tableEntry t.unplaced next) := by
  refine unplaces_secondKind?.bind fun second => ?_
  simp only [id]
  split
  · exact unplaces_note.bind fun text => unplaces_pure Table.unplaced { t with note := some text }
  split
  · refine unplaces_indexes.bind fun more => ?_
    have hpure := unplaces_pure Table.unplaced { t with indexes := t.indexes ++ more }
    rwa [Table.unplaced, List.map_append] at hpure
  split
  · refine unplaces_commentedColumn.bind fun column => ?_
    have hpure := unplaces_pure Table.unplaced { t with columns := t.columns ++ [column] }
    rwa [Table.unplaced, List.map_append] at hpure
  · exact unplaces_ignore _ t

/-- The alias of a table has no place. -/
theorem unplaces_tableAlias? : Unplaces id tableAlias? tableAlias? := by
  refine (unplaces_isWord "as").bind fun isNext => ?_
  simp only [id]
  split
  · exact unplaces_any.bind fun _ => (unplaces_name _).bind fun t => unplaces_pure id (some t.value)
  · exact unplaces_pure id none

/-- A table is read without the places in it. -/
theorem unplaces_table (start : Span) : Unplaces Table.unplaced (table start) (table default) := by
  refine (unplaces_name _).bind fun tableName => unplaces_tableAlias?.bind fun aliasName => ?_
  refine (unplaces_settings? (unplaces_apply .table)
    (⟨tableName.value, aliasName, [], [], none, none, none, none, start, []⟩ : Table)).bind
      fun head => (unplaces_expect _).bind fun brace => ?_
  refine (unplaces_block "table" head.name (start.through brace.span) _ _ unplaces_tableEntry
    head).bind fun t => ?_
  exact unplaces_lastSpan.bind fun last =>
    unplaces_pure Table.unplaced { t with span := start.through last }

/-! ## Areas and projects -/

/-- A round of reading common columns is read without the places in it. -/
theorem unplaces_commonColumnsStep (columns : List Column) :
    Unplaces (Sum.map (List.map Column.unplaced) (List.map Column.unplaced))
      (commonColumnsStep columns) (commonColumnsStep (columns.map Column.unplaced)) := by
  refine unplaces_kind?.bind fun next => ?_
  cases next with
  | none => exact unplaces_unexpected _ _
  | some next =>
    simp only [id]
    split
    · exact unplaces_any.bind fun _ => unplaces_pure _ (Sum.inr columns)
    split
    · exact unplaces_unexpected _ _
    split
    · refine unplaces_commentedColumn.bind fun column => ?_
      have hpure := unplaces_pure (Sum.map (List.map Column.unplaced) (List.map Column.unplaced))
        (Sum.inl (columns ++ [column]))
      rwa [Sum.map_inl, List.map_append] at hpure
    · exact unplaces_any.bind fun _ => unplaces_pure _ (Sum.inl columns)

/-- Common columns are read without their places. -/
theorem unplaces_commonColumns :
    Unplaces (List.map Column.unplaced) commonColumns commonColumns :=
  (unplaces_expect _).bind fun _ => (unplaces_accept _).bind fun _ =>
    (unplaces_expect _).bind fun _ => Unplaces.iterate _ _ unplaces_commonColumnsStep []

/-- An entry of an area is read without the places in it. -/
theorem unplaces_areaEntry (a : Area) (next : TokenKind) :
    Unplaces Area.unplaced (areaEntry a next) (areaEntry a.unplaced next) := by
  refine unplaces_secondKind?.bind fun second => ?_
  simp only [id]
  split
  · exact unplaces_note.bind fun text => unplaces_pure Area.unplaced { a with note := some text }
  split
  · refine unplaces_commonColumns.bind fun more => ?_
    have hpure := unplaces_pure Area.unplaced { a with commonColumns := a.commonColumns ++ more }
    rwa [Area.unplaced, List.map_append] at hpure
  split
  · exact unplaces_settingLine (unplaces_apply .area) a
  split
  · exact (unplaces_name _).bind fun t =>
      unplaces_pure Area.unplaced { a with tables := a.tables ++ [t.value] }
  · exact unplaces_ignore _ a

/-- An area is read without the places in it. -/
theorem unplaces_area (start : Span) : Unplaces Area.unplaced (area start) (area default) := by
  refine (unplaces_name _).bind fun areaName => ?_
  refine (unplaces_settings? (unplaces_apply .area) (⟨areaName.value, [], none, none, none, none,
    none, none, none, none, [], none, start, []⟩ : Area)).bind fun head => ?_
  refine (unplaces_expect _).bind fun brace => ?_
  refine (unplaces_block "area" head.name (start.through brace.span) _ _ unplaces_areaEntry
    head).bind fun a => ?_
  exact unplaces_lastSpan.bind fun last =>
    unplaces_pure Area.unplaced { a with span := start.through last }

/-- An entry of a project is read without the places in it. -/
theorem unplaces_projectEntry (p : Project) (next : TokenKind) :
    Unplaces Project.unplaced (projectEntry p next) (projectEntry p.unplaced next) := by
  refine unplaces_secondKind?.bind fun second => ?_
  simp only [id]
  split
  · exact unplaces_note.bind fun text =>
      unplaces_pure Project.unplaced { p with note := some text }
  split
  · exact unplaces_settingLine (unplaces_apply .project) p
  · exact unplaces_ignore _ p

/-- The block of a project is read without the places in it. -/
theorem unplaces_projectBlock? (start : Span) (p : Project) :
    Unplaces Project.unplaced (projectBlock? start p) (projectBlock? default p.unplaced) := by
  refine (unplaces_at? _).bind fun isNext => ?_
  simp only [id]
  split
  · exact unplaces_any.bind fun brace =>
      unplaces_block "project" p.name (start.through brace.span) _ _ unplaces_projectEntry p
  · exact unplaces_pure _ p

/-- A project is read without its place. -/
theorem unplaces_project (start : Span) :
    Unplaces Project.unplaced (project start) (project default) := by
  refine (unplaces_name _).bind fun projectName => ?_
  refine (unplaces_settings? (unplaces_apply .project)
    (⟨projectName.value, none, none, start, []⟩ : Project)).bind fun head => ?_
  refine (unplaces_projectBlock? start head).bind fun p => ?_
  exact unplaces_lastSpan.bind fun last =>
    unplaces_pure Project.unplaced { p with span := start.through last }

/-! ## References -/

/-- An endpoint of a reference is read without its place. -/
theorem unplaces_endpoint : Unplaces Endpoint.unplaced endpoint endpoint :=
  (unplaces_name _).bind fun table => (unplaces_expect _).bind fun _ =>
    (unplaces_name _).bind fun column => unplaces_pure Endpoint.unplaced
      ⟨table.value, column.value, table.span.through column.span⟩

/-- The symbol of a relationship has no place. -/
theorem unplaces_relationship : Unplaces id relationship relationship :=
  (unplaces_take (fun _ => rfl) _).bind fun t =>
    unplaces_pure id ((relationshipOf? t.kind).getD .inferred)

/-- The name of a reference has no place. -/
theorem unplaces_referenceName? : Unplaces id referenceName? referenceName? := by
  refine unplaces_kind?.bind fun first => unplaces_secondKind?.bind fun second => ?_
  simp only [id]
  split
  · exact (unplaces_name _).bind fun t => unplaces_pure id (some t.value)
  · exact unplaces_pure id none

/-- A reference is read without the places in it. -/
theorem unplaces_reference (start : Span) :
    Unplaces Reference.unplaced (reference start) (reference default) := by
  refine unplaces_referenceName?.bind fun referenceName => ?_
  refine (unplaces_accept _).bind fun _ => (unplaces_accept _).bind fun isBraced => ?_
  refine unplaces_endpoint.bind fun source => unplaces_relationship.bind fun relationship => ?_
  refine unplaces_endpoint.bind fun target => ?_
  refine (unplaces_settings? (unplaces_apply .reference) (⟨referenceName, source, target,
    relationship, none, none, start, []⟩ : Reference)).bind fun r => ?_
  have hend : Unplaces Reference.unplaced
      (lastSpan >>= fun last => Pure.pure { r with span := start.through last })
      (lastSpan >>= fun last =>
        Pure.pure { r.unplaced with span := (default : Span).through last }) :=
    unplaces_lastSpan.bind fun last =>
      unplaces_pure Reference.unplaced { r with span := start.through last }
  simp only [id]
  split
  · exact (unplaces_expect _).bind fun _ => hend
  · exact hend

/-! ## Constructs -/

/-- Each construct is read without the places in it. -/
theorem unplaces_construct {k : TokenKind} {construct : Span → Parser Construct}
    (h : construct? k = some construct) (start : Span) :
    Unplaces Construct.unplaced (construct start) (construct default) := by
  obtain ⟨-, rfl⟩ | ⟨-, rfl⟩ | ⟨-, rfl⟩ | ⟨-, rfl⟩ := construct?_eq_some h
  · exact (unplaces_project start).map fun _ => rfl
  · exact (unplaces_table start).map fun _ => rfl
  · exact (unplaces_reference start).map fun _ => rfl
  · exact (unplaces_area start).map fun _ => rfl

end Parser

/-- Comments have no places: filing them and forgetting places can be done in either order. -/
theorem Construct.unplaced_withComments (comments : List String) (x : Construct) :
    (x.withComments comments).unplaced = x.unplaced.withComments comments := by
  cases x <;> rfl

/-- Where reading goes on does not depend on places. -/
theorem resumeLength_unplaced (ts : List CommentedToken) :
    resumeLength (ts.map CommentedToken.unplaced) = resumeLength ts := by
  induction ts with
  | nil => rfl
  | cons t ts ih =>
    rw [List.map_cons, resumeLength, resumeLength, ih]
    rfl

/-- Reading goes on without places where it goes on with them. -/
theorem Cursor.unplaced_resume (c : Cursor) : c.resume.unplaced = c.unplaced.resume := by
  rw [resume, unplaced_advanceBy, resume]
  exact congrArg (advanceBy · c.unplaced) (resumeLength_unplaced c.rest).symm

/-- Without places, constructs are read as with them. -/
theorem readConstructs_unplaced (c : Cursor) :
    readConstructs c.unplaced =
      ((readConstructs c).1.map Construct.unplaced, (readConstructs c).2.unplaced) := by
  have hcons {c : Cursor} {t : CommentedToken} {ts : List CommentedToken} (h : c.rest = t :: ts) :
      c.unplaced.rest = t.unplaced :: ts.map CommentedToken.unplaced := by
    rw [Cursor.unplaced, h]
    rfl
  fun_induction readConstructs c with
  | case1 c hrest =>
    rw [readConstructs_of_nil (by rw [Cursor.unplaced, hrest]; rfl)]
    rfl
  | case2 c t ts hrest hk ih =>
    rw [readConstructs_of_none (hcons hrest) hk, ← ih, Cursor.unplaced_resume,
      Cursor.unplaced_report, Cursor.unplaced_unexpected]
    rfl
  | case3 c t ts hrest construct hk x d hread others last hothers ih =>
    have hread' := Parser.unplaces_construct hk t.token.span c.takeComments.advance
    rw [hread, Cursor.unplaced_advance, Cursor.unplaced_takeComments] at hread'
    rw [readConstructs_of_ok (hcons hrest) hk hread'.symm, ih, hothers,
      Cursor.availableComments_unplaced, ← Construct.unplaced_withComments]
    rfl
  | case4 c t ts hrest construct hk e d hread ih =>
    have hread' := Parser.unplaces_construct hk t.token.span c.takeComments.advance
    rw [hread, Cursor.unplaced_advance, Cursor.unplaced_takeComments] at hread'
    rw [readConstructs_of_failed (hcons hrest) hk hread'.symm, ← ih, Cursor.unplaced_resume,
      Cursor.unplaced_report, Cursor.unplaced_restore, Cursor.availableComments_unplaced]

/-! ## Documents -/

/-- Comments are gathered without places as with them. -/
theorem gatherComments_unplaced (comments : List String) (ts : List Token) :
    (gatherComments comments (ts.map Token.unplaced)).1 =
      (gatherComments comments ts).1.map CommentedToken.unplaced := by
  induction ts generalizing comments with
  | nil => rfl
  | cons t ts ih =>
    rw [List.map_cons, gatherComments, gatherComments]
    show Prod.fst (if t.kind = TokenKind.endOfInput then _
      else if t.kind = TokenKind.comment then _ else _) = _
    split
    · rfl
    split
    · exact ih _
    · exact congrArg (_ :: ·) (ih [])

/-- Without places the end has none. -/
theorem endSpan_unplaced (ts : List Token) : endSpan (ts.map Token.unplaced) = default := by
  unfold endSpan
  split
  · next t hfind =>
    obtain ⟨u, -, rfl⟩ := List.mem_map.1 (List.mem_of_find?_eq_some hfind)
    rfl
  split
  · next t hlast =>
    obtain ⟨u, -, rfl⟩ := List.mem_map.1 (List.mem_of_getLast? hlast)
    rfl
  · rfl

/-- Reading tokens without places starts from the cursor without places. -/
theorem Cursor.ofTokens_unplaced (ts : List Token) :
    Cursor.ofTokens (ts.map Token.unplaced) = (Cursor.ofTokens ts).unplaced := by
  rw [ofTokens, gatherComments_unplaced, endSpan_unplaced]
  rfl

/-- Reading a document does not look at the places of its tokens: without them it gives the same
constructs and the same diagnostics without their places. -/
theorem ofTokens_unplaced (ts : List Token) :
    ofTokens (ts.map Token.unplaced) = (ofTokens ts).unplaced := by
  simp only [ofTokens, Cursor.ofTokens_unplaced, readConstructs_unplaced]
  rfl

/-- Tokens of the same kinds with the same texts are the same without places. -/
theorem map_unplaced_eq {ts us : List Token}
    (h : ts.map (fun t => (t.kind, t.text)) = us.map fun t => (t.kind, t.text)) :
    ts.map Token.unplaced = us.map Token.unplaced := by
  have hview (ts : List Token) : ts.map Token.unplaced =
      (ts.map fun t => (t.kind, t.text)).map fun p => ⟨p.1, default, p.2⟩ := by
    rw [List.map_map]
    rfl
  rw [hview, hview, h]

end SchemaDiagram.Document
