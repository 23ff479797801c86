import SchemaDiagram.Proofs.Document.Changes

/-!
# How parsers are put together

Nearly every parser of a document is put together from a few single steps by sequence, choice and
repetition, and files no line comments of its own. Such a parser is `Parser.Plain`. What all of the
single steps do, and what sequence and repetition keep, every plain parser does: a fact about all of
them is one induction over the ways to build one.

The parsers that do file comments are those of columns within tables and areas, and of tables and
areas around them. They are few, and each fact is shown for them one by one.

There is one lemma for each plain parser, in the order in which the parsers are built up.

Main statement: `Plain.movesAt`, a plain parser passes tokens and reports values of settings, and
does nothing else to a cursor (`Cursor.Moves`).
-/

namespace SchemaDiagram

/-- The diagnostic is about the value of a setting, and cost no construct. -/
def Diagnostic.isInvalidValue : Diagnostic → Bool
  | invalidValue .. => true
  | _ => false

namespace Document.Parser

variable {α σ : Type}

/-- A parser that is put together from single steps and files no comments. -/
inductive Plain : {α : Type} → Parser α → Prop
  | pure {α : Type} (a : α) : Plain (Pure.pure a)
  | bind {α β : Type} {p : Parser α} {f : α → Parser β} (hp : Plain p) (hf : ∀ a, Plain (f a)) :
    Plain (p >>= f)
  | iterate {α σ : Type} {step : σ → Parser (σ ⊕ α)} (h : ∀ s, (step s).Consumes)
    (hstep : ∀ s, Plain (step s)) (s : σ) : Plain (iterate step h s)
  | kind? : Plain kind?
  | secondKind? : Plain secondKind?
  | at? (k : TokenKind) : Plain (at? k)
  | lastSpan : Plain lastSpan
  | nextSpan : Plain nextSpan
  | ahead {α : Type} {view : List CommentedToken → α}
    (hview : ∀ ts us, ts.map (·.token) = us.map (·.token) → view ts = view us) : Plain (ahead view)
  | take (accepts : Token → Bool) (expected : String) : Plain (take accepts expected)
  | accept (k : TokenKind) : Plain (accept k)
  | skip (n : Nat) : Plain (skip n)
  | unexpected {α : Type} (expected : String) : Plain (unexpected expected : Parser α)
  | unclosedBlock {α : Type} (construct name : String) (span : Span) :
    Plain (fail (.unclosedBlock construct name span) : Parser α)
  | settingOf {α : Type} (view : Token → Option α) (reason : String) (key : SettingKey) :
    Plain (settingOf view reason key)

/-- A choice by the kind of the next token. -/
theorem run_kind?_bind {β : Type} (f : Option TokenKind → Parser β) (c : Cursor) :
    (kind? >>= f).run c = (f c.kind?).run c := rfl

/-! ## Settings -/

/-- An expected token is a plain parser: a single step. -/
theorem plain_expect (k : TokenKind) : (expect k).Plain := .take _ _

/-- Any token is a plain parser: a single step. -/
theorem plain_any : any.Plain := .take _ _

/-- A name is a plain parser: a single step. -/
theorem plain_name (expected : String) : (name expected).Plain := .take _ _

/-- A text in quotes is plain: one token and its value. -/
theorem plain_string (expected : String) : (string expected).Plain :=
  .bind (.take _ _) fun _ => .pure _

/-- A key is plain: it looks two tokens ahead and takes one. -/
theorem plain_settingKey : settingKey.Plain :=
  .bind .secondKind? fun _ => .bind (.take _ _) fun _ => .pure _

/-- The value of a setting is plain: a colon and a token. -/
theorem plain_settingValue : settingValue.Plain := .bind (plain_expect _) fun _ => .take _ _

/-- The text of a setting is plain, since its value is. -/
theorem plain_settingText : settingText.Plain := .bind plain_settingValue fun _ => .pure _

/-- The quoted text of a setting is plain: a colon and a text in quotes. -/
theorem plain_settingString : settingString.Plain := .bind (plain_expect _) fun _ => plain_string _

/-- Whether a property holds of the next token can be seen without the comments. -/
theorem head?_any_congr {ts us : List CommentedToken} (h : ts.map (·.token) = us.map (·.token))
    (f : Token → Bool) : (ts.head?.any fun t => f t.token) = us.head?.any fun t => f t.token := by
  have hhead : ts.head?.map (·.token) = us.head?.map (·.token) := by
    rw [← List.head?_map, ← List.head?_map, h]
  have hany (vs : List CommentedToken) :
      (vs.head?.any fun t => f t.token) = (vs.head?.map (·.token)).any f := by
    rw [Option.any_map]
  rw [hany, hany, hhead]

/-- How long the rest of an entry is can be seen without the comments. -/
theorem entryLength_congr {ts us : List CommentedToken} (h : ts.map (·.token) = us.map (·.token))
    (depth : Nat) : entryLength depth ts = entryLength depth us := by
  induction ts generalizing us depth with
  | nil =>
    obtain rfl := List.map_eq_nil_iff.1 h.symm
    rfl
  | cons t ts ih =>
    obtain ⟨u, us, rfl, htoken, hothers⟩ := List.map_eq_cons_iff.1 h.symm
    have hnext : us.head?.map (·.token.kind) = ts.head?.map (·.token.kind) := by
      have hhead := congrArg (fun vs => vs.head?.map Token.kind) hothers
      simp only [List.head?_map, Option.map_map] at hhead
      exact hhead
    simp only [entryLength, htoken, hnext, ih hothers.symm]

/-- How long a text in parentheses is can be seen without the comments. -/
theorem rawLength_congr {ts us : List CommentedToken} (h : ts.map (·.token) = us.map (·.token))
    (depth : Nat) : rawLength depth ts = rawLength depth us := by
  induction ts generalizing us depth with
  | nil =>
    obtain rfl := List.map_eq_nil_iff.1 h.symm
    rfl
  | cons t ts ih =>
    obtain ⟨u, us, rfl, htoken, hothers⟩ := List.map_eq_cons_iff.1 h.symm
    simp only [rawLength, htoken, ih hothers.symm]

/-- Looking for a word is plain: the comments do not matter for it. -/
theorem plain_isWord (word : String) :
    (ahead fun ts => ts.head?.any fun t => t.token.isWord word).Plain :=
  .ahead fun _ _ h => head?_any_congr h fun t => t.isWord word

/-- Passing over the rest of an entry is plain: its length is looked up and so many tokens go. -/
theorem plain_skipEntry : skipEntry.Plain := by
  refine .bind (.ahead fun ts us h => entryLength_congr h 0) fun seen => ?_
  refine .bind (.skip _) fun _ => ?_
  split
  · exact .pure _
  · exact .unexpected _

/-- Passing over the value of a line is plain. -/
theorem plain_skipLineValue : skipLineValue.Plain := by
  refine .bind (.accept _) fun _ => .bind (.ahead fun ts us h => ?_) fun n => .skip n
  rw [head?_any_congr h fun t => !(t.kind == .mark .rightBrace || t.kind.opensConstruct)]

section Settings

variable {apply : σ → SettingKey → Parser (Option σ)} (happly : ∀ s key, (apply s key).Plain)
include happly

/-- An entry is plain, if what follows its key is. -/
theorem plain_settingEntry (s : σ) : (settingEntry apply s).Plain := by
  refine .bind plain_settingKey fun key => .bind (happly s key) fun t => ?_
  split
  · exact .pure _
  · exact .bind plain_skipEntry fun _ => .pure _

omit happly in
/-- The end of an entry is plain: a comma, or a look at the bracket. -/
theorem plain_settingEnd : settingEnd.Plain := by
  refine .bind .kind? fun k => ?_
  split
  · exact .bind plain_any fun _ => .pure _
  · exact .pure _
  · exact .unexpected _

/-- A round of reading a list is plain, if what follows the keys is. -/
theorem plain_settingsStep (s : σ) : (settingsStep apply s).Plain := by
  refine .bind .kind? fun k => ?_
  split
  · exact .bind plain_any fun _ => .pure _
  · exact .bind plain_any fun _ => .pure _
  · exact .bind (plain_settingEntry happly s) fun _ => .bind plain_settingEnd fun _ => .pure _

/-- A list of settings is plain, if what follows the keys is. -/
theorem plain_settings (s : σ) : (settings apply s).Plain :=
  .bind (plain_expect _) fun _ => .iterate _ (plain_settingsStep happly) s

/-- A list of settings that may be missing is plain, if what follows the keys is. -/
theorem plain_settings? (s : σ) : (settings? apply s).Plain := by
  refine .bind (.at? _) fun isNext => ?_
  split
  · exact plain_settings happly s
  · exact .pure s

/-- A line of a key and a value is plain, if what follows the key is. -/
theorem plain_settingLine (s : σ) : (settingLine apply s).Plain := by
  refine .bind plain_settingKey fun key => .bind (happly s key) fun t => ?_
  split
  · exact .pure _
  · exact .bind plain_skipLineValue fun _ => .pure _

end Settings

/-! ## Blocks -/

/-- A block is plain, if its entries are. -/
theorem plain_block (construct name : String) (opening : Span) {entry : σ → TokenKind → Parser σ}
    (h : ∀ s k, (entry s k).Consumes) (hentry : ∀ s k, (entry s k).Plain) (s : σ) :
    (block construct name opening entry h s).Plain := by
  refine .iterate _ (fun s => .bind .kind? fun k => ?_) s
  split
  · exact .unclosedBlock _ _ _
  split
  · exact .bind plain_any fun _ => .pure _
  split
  · exact .unclosedBlock _ _ _
  · exact .bind (hentry s _) fun _ => .pure _

/-- A note is plain, with braces and without. -/
theorem plain_note : note.Plain := by
  refine .bind (plain_expect _) fun _ => .bind (.accept _) fun isBraced => ?_
  split
  · exact .bind (plain_string _) fun _ => .bind (plain_expect _) fun _ => .pure _
  · exact .bind (plain_expect _) fun _ => plain_string _

/-- Passing over what is unknown is plain. -/
theorem plain_ignore (s : σ) : (ignore s).Plain := .bind plain_any fun _ => .pure _

/-! ## Columns -/

/-- A text in parentheses is plain: its tokens are looked at and passed, and their comments wait. -/
theorem plain_parenthesized : parenthesized.Plain := by
  refine .bind (plain_expect _) fun _ => ?_
  refine .bind (.ahead fun ts us h => rawLength_congr h 0) fun seen => ?_
  refine .bind (.ahead fun ts us h => ?_) fun tokens => .bind (.skip _) fun _ => ?_
  · rw [List.map_take, List.map_take, h]
  · split
    · exact .bind plain_any fun _ => .pure _
    · exact .unexpected _

/-- A text in parentheses that may be missing is plain. -/
theorem plain_parenthesized? : parenthesized?.Plain := by
  refine .bind (.at? _) fun isNext => ?_
  split
  · exact .bind plain_parenthesized fun _ => .pure _
  · exact .pure _

/-- A default is plain, that of a call as well. -/
theorem plain_settingDefault : settingDefault.Plain := by
  refine .bind (plain_expect _) fun _ => .bind (.take _ _) fun t => .bind (.at? _) fun isCall => ?_
  split
  · exact .bind plain_parenthesized fun _ => .pure _
  · exact .pure _

/-- Each of the seven forms of what follows a key is plain. -/
theorem plain_reader (l : ListKind) (s : l.State) (key : SettingKey) (after : AfterKey) :
    (after.reader l s key).Plain := by
  cases after with
  | nothing change => exact .pure _
  | null change => exact .bind (plain_expect _) fun _ => .pure _
  | key change =>
    refine .bind (plain_isWord "key") fun found => ?_
    split
    · exact .bind plain_any fun _ => .pure _
    · exact .pure _
  | text change => exact .bind plain_settingText fun _ => .pure _
  | string change => exact .bind plain_settingString fun _ => .pure _
  | checked view expectation => exact .bind (.settingOf _ _ _) fun _ => .pure _
  | default => exact .bind plain_settingDefault fun _ => .pure _

/-- What follows a key is plain for every list and every key. -/
theorem plain_apply (l : ListKind) (s : l.State) (key : SettingKey) : (l.apply s key).Plain :=
  ListKind.apply_of_reader (fun _ after _ => plain_reader l s key after) (.pure none)

/-- A column without its comments is plain. -/
theorem plain_column : column.Plain := by
  refine .bind (plain_name _) fun _ => .bind (plain_name _) fun _ => ?_
  refine .bind plain_parenthesized? fun _ => ?_
  exact .bind (plain_settings? (plain_apply .column) _) fun _ => .bind .lastSpan fun _ => .pure _

/-! ## Tables -/

/-- A column of an index is plain: one token. -/
theorem plain_indexColumn : indexColumn.Plain := .bind (.take _ _) fun _ => .pure _

/-- The columns of an index are plain, with parentheses and without. -/
theorem plain_indexColumns : indexColumns.Plain := by
  refine .bind (.accept _) fun isList => ?_
  split
  · refine .bind (.iterate _ (fun columns => ?_) []) fun _ => ?_
    · refine .bind plain_indexColumn fun _ => .bind (.accept _) fun more => ?_
      split
      · exact .pure _
      · exact .pure _
    · exact .bind (plain_expect _) fun _ => .pure _
  · exact .bind plain_indexColumn fun _ => .pure _

/-- An index is plain. -/
theorem plain_index (start : Span) : (index start).Plain := by
  refine .bind plain_indexColumns fun _ => .bind (plain_settings? (plain_apply .index) _) fun _ => ?_
  exact .bind .lastSpan fun _ => .pure _

/-- An entry of a block of indexes is plain. -/
theorem plain_indexesEntry (indexes : List Index) (k : TokenKind) :
    (indexesEntry indexes k).Plain := by
  unfold indexesEntry
  split
  · exact .bind .nextSpan fun _ => .bind (plain_index _) fun _ => .pure _
  · exact plain_ignore _

/-- A block of indexes is plain. -/
theorem plain_indexes : indexes.Plain :=
  .bind (plain_expect _) fun _ => .bind (plain_expect _) fun _ =>
    plain_block _ _ _ consumes_indexesEntry plain_indexesEntry []

/-- The alias of a table is plain. -/
theorem plain_tableAlias? : tableAlias?.Plain := by
  refine .bind (plain_isWord "as") fun found => ?_
  split
  · exact .bind plain_any fun _ => .bind (plain_name _) fun _ => .pure _
  · exact .pure _

/-! ## Areas and projects -/

/-- An entry of a project is plain. -/
theorem plain_projectEntry (p : Project) (k : TokenKind) : (projectEntry p k).Plain := by
  refine .bind .secondKind? fun second => ?_
  split
  · exact .bind plain_note fun _ => .pure _
  split
  · exact plain_settingLine (plain_apply .project) p
  · exact plain_ignore p

/-- A project is plain, with a block and without. -/
theorem plain_project (start : Span) : (project start).Plain := by
  refine .bind (plain_name _) fun _ => .bind (plain_settings? (plain_apply .project) _) fun head => ?_
  refine .bind (.bind (.at? _) fun isNext => ?_) fun _ => .bind .lastSpan fun _ => .pure _
  split
  · refine .bind plain_any fun _ => ?_
    exact plain_block _ _ _ consumes_projectEntry plain_projectEntry head
  · exact .pure _

/-! ## References -/

/-- An endpoint of a reference is plain. -/
theorem plain_endpoint : endpoint.Plain :=
  .bind (plain_name _) fun _ => .bind (plain_expect _) fun _ =>
    .bind (plain_name _) fun _ => .pure _

/-- The symbol of a relationship is plain. -/
theorem plain_relationship : relationship.Plain := .bind (.take _ _) fun _ => .pure _

/-- The name of a reference is plain. -/
theorem plain_referenceName? : referenceName?.Plain := by
  refine .bind .kind? fun first => .bind .secondKind? fun second => ?_
  split
  · exact .bind (plain_name _) fun _ => .pure _
  · exact .pure _

/-- A reference is plain, with braces and without. -/
theorem plain_reference (start : Span) : (reference start).Plain := by
  refine .bind plain_referenceName? fun _ => .bind (.accept _) fun _ => ?_
  refine .bind (.accept _) fun isBraced => .bind plain_endpoint fun _ => ?_
  refine .bind plain_relationship fun _ => .bind plain_endpoint fun _ => ?_
  refine .bind (plain_settings? (plain_apply .reference) _) fun _ => ?_
  split
  · exact .bind (plain_expect _) fun _ => .bind .lastSpan fun _ => .pure _
  · exact .bind .lastSpan fun _ => .pure _

end Parser

/-! ## What plain parsers do -/

/-- From one cursor to the other tokens were passed, and values of settings were reported, each right
behind a colon and the value. -/
inductive Cursor.Moves : Cursor → Cursor → Prop
  | refl (c : Cursor) : Moves c c
  | advance {c d : Cursor} (h : Moves c d) : Moves c d.advance
  | report {c d : Cursor} (h : Moves c d) {t u : CommentedToken} {ts : List CommentedToken}
    (hrest : d.rest = t :: u :: ts) {e : Diagnostic} (he : e.isInvalidValue = true) :
    Moves c (d.advance.advance.report e)

namespace Cursor.Moves

variable {c d e : Cursor}

/-- Moves can be made one after the other. -/
theorem trans (h : c.Moves d) (k : d.Moves e) : c.Moves e := by
  induction k with
  | refl => exact h
  | advance _ ih => exact ih.advance
  | report _ hrest he ih => exact ih.report hrest he

/-- Passing more tokens is a move. -/
theorem advanceBy (h : c.Moves d) (n : Nat) : c.Moves (d.advanceBy n) := by
  induction n generalizing d with
  | zero => exact h
  | succ n ih => exact ih h.advance

end Cursor.Moves

namespace Parser

variable {α σ : Type}

/-- A token is read, or nothing is. -/
theorem run_take_cases (accepts : Token → Bool) (expected : String) (c : Cursor) :
    (∃ t ts, c.rest = t :: ts ∧ accepts t.token = true ∧
        (take accepts expected).run c = .ok t.token c.advance) ∨
      (take accepts expected).run c = .failed (c.unexpected expected) c := by
  unfold take
  rcases hrest : c.rest with _ | ⟨t, ts⟩
  · exact Or.inr (by simp only [hrest])
  · by_cases haccepts : accepts t.token = true
    · exact Or.inl ⟨t, ts, rfl, haccepts, by simp only [hrest, if_pos haccepts]⟩
    · exact Or.inr (by simp only [hrest, if_neg haccepts])

/-- A complaint about the next token is not about the value of a setting. -/
theorem isInvalidValue_unexpected (expected : String) (c : Cursor) :
    (c.unexpected expected).isInvalidValue = false := by
  unfold Cursor.unexpected
  split <;> rfl

/-- What a plain parser answers at a cursor: it only moves, and if it fails, that is not because of
the value of a setting. -/
def MovesAt (p : Parser α) (c : Cursor) : Prop :=
  (∃ a d, p.run c = .ok a d ∧ c.Moves d) ∨
    ∃ e d, p.run c = .failed e d ∧ c.Moves d ∧ e.isInvalidValue = false

/-- A sequence moves as its parts do. -/
theorem MovesAt.bind {β : Type} {p : Parser α} {f : α → Parser β} {c : Cursor} (hp : p.MovesAt c)
    (hf : ∀ a d, p.run c = .ok a d → (f a).MovesAt d) : (p >>= f).MovesAt c := by
  unfold MovesAt
  rw [run_bind]
  rcases hp with ⟨a, d, hread, hmoves⟩ | ⟨e, d, hread, hmoves, he⟩
  · rw [hread]
    rcases hf a d hread with ⟨b, c', hread', hmoves'⟩ | ⟨e, c', hread', hmoves', he⟩
    · exact Or.inl ⟨b, c', hread', hmoves.trans hmoves'⟩
    · exact Or.inr ⟨e, c', hread', hmoves.trans hmoves', he⟩
  · rw [hread]
    exact Or.inr ⟨e, d, rfl, hmoves, he⟩

/-- A repetition moves as its rounds do. -/
theorem movesAt_iterate {step : σ → Parser (σ ⊕ α)} (h : ∀ s, (step s).Consumes)
    (hstep : ∀ s c, (step s).MovesAt c) (s : σ) (c : Cursor) : (iterate step h s).MovesAt c := by
  show (∃ a d, iterate.loop step h s c = .ok a d ∧ c.Moves d) ∨
    ∃ e d, iterate.loop step h s c = .failed e d ∧ c.Moves d ∧ e.isInvalidValue = false
  fun_induction iterate.loop step h s c with
  | case1 s c s' d hread ih =>
    rcases hstep s c with ⟨r, d', hread', hmoves⟩ | ⟨e, d', hread', -⟩
    · rw [hread] at hread'
      cases hread'
      rcases ih with ⟨a, c', hloop, hmoves'⟩ | ⟨e, c', hloop, hmoves', he⟩
      · exact Or.inl ⟨a, c', hloop, hmoves.trans hmoves'⟩
      · exact Or.inr ⟨e, c', hloop, hmoves.trans hmoves', he⟩
    · rw [hread] at hread'
      cases hread'
  | case2 s c a d hread =>
    rcases hstep s c with ⟨r, d', hread', hmoves⟩ | ⟨e, d', hread', -⟩
    · rw [hread] at hread'
      cases hread'
      exact Or.inl ⟨a, d, rfl, hmoves⟩
    · rw [hread] at hread'
      cases hread'
  | case3 s c e d hread =>
    rcases hstep s c with ⟨r, d', hread', -⟩ | ⟨e', d', hread', hmoves⟩
    · rw [hread] at hread'
      cases hread'
    · rw [hread] at hread'
      cases hread'
      exact Or.inr ⟨e, d, rfl, hmoves⟩

/-- Taking a token moves, and fails where it stands. -/
theorem movesAt_take (accepts : Token → Bool) (expected : String) (c : Cursor) :
    (take accepts expected).MovesAt c := by
  rcases run_take_cases accepts expected c with ⟨t, ts, -, -, hread⟩ | hread
  · exact Or.inl ⟨t.token, c.advance, hread, (Cursor.Moves.refl c).advance⟩
  · exact Or.inr ⟨_, c, hread, .refl c, isInvalidValue_unexpected expected c⟩

/-- The value of a setting is reported behind the colon and the value. -/
theorem movesAt_settingOf (view : Token → Option α) (reason : String) (key : SettingKey)
    (c : Cursor) : (settingOf view reason key).MovesAt c := by
  rcases run_take_cases (fun t => t.kind == .mark .colon) (TokenKind.mark .colon).description c with
    ⟨t, ts, hrest, -, hcolon⟩ | hcolon
  · rcases run_take_cases (fun t => isSettingValue t.kind) "setting value" c.advance with
      ⟨u, us, hrest', -, hvalue⟩ | hvalue
    · rcases hview : view u.token with _ | a
      · have hrest'' : c.rest = t :: u :: us := by
          simp only [Cursor.advance, hrest] at hrest'
          rw [hrest, hrest']
        refine Or.inl ⟨none, c.advance.advance.report
          (.invalidValue key.text u.token.text reason u.token.span), ?_,
          (Cursor.Moves.refl c).report hrest'' rfl⟩
        simp only [settingOf, settingValue, expect, run_bind, hcolon, hvalue, hview]
        rfl
      · refine Or.inl ⟨some a, c.advance.advance, ?_, (Cursor.Moves.refl c).advance.advance⟩
        simp only [settingOf, settingValue, expect, run_bind, hcolon, hvalue, hview]
        rfl
    · refine Or.inr ⟨_, c.advance, ?_, (Cursor.Moves.refl c).advance,
        isInvalidValue_unexpected "setting value" c.advance⟩
      simp only [settingOf, settingValue, expect, run_bind, hcolon, hvalue]
  · refine Or.inr ⟨_, c, ?_, .refl c,
      isInvalidValue_unexpected (TokenKind.mark .colon).description c⟩
    simp only [settingOf, settingValue, expect, run_bind, hcolon]

/-- A plain parser passes tokens and reports values of settings. -/
theorem Plain.movesAt {p : Parser α} (h : p.Plain) (c : Cursor) : p.MovesAt c := by
  induction h generalizing c with
  | pure a => exact Or.inl ⟨a, c, rfl, .refl c⟩
  | bind _ _ ihp ihf => exact (ihp c).bind fun a d _ => ihf a d
  | iterate h _ s ihstep => exact movesAt_iterate h ihstep s c
  | kind? => exact Or.inl ⟨_, c, rfl, .refl c⟩
  | secondKind? => exact Or.inl ⟨_, c, rfl, .refl c⟩
  | at? k => exact Or.inl ⟨_, c, rfl, .refl c⟩
  | lastSpan => exact Or.inl ⟨_, c, rfl, .refl c⟩
  | nextSpan =>
    have hread : ∃ span, Parser.nextSpan.run c = .ok span c := by
      unfold Parser.nextSpan
      rcases hrest : c.rest with _ | ⟨t, ts⟩
      · exact ⟨c.stop, by simp only [hrest]⟩
      · exact ⟨t.token.span, by simp only [hrest]⟩
    obtain ⟨span, hread⟩ := hread
    exact Or.inl ⟨span, c, hread, .refl c⟩
  | ahead _ => exact Or.inl ⟨_, c, rfl, .refl c⟩
  | take accepts expected => exact movesAt_take accepts expected c
  | accept k =>
    by_cases hkind : c.kind? = some k
    · exact Or.inl ⟨true, c.advance, if_pos hkind, (Cursor.Moves.refl c).advance⟩
    · exact Or.inl ⟨false, c, if_neg hkind, .refl c⟩
  | skip n => exact Or.inl ⟨(), c.advanceBy n, rfl, (Cursor.Moves.refl c).advanceBy n⟩
  | unexpected expected =>
    exact Or.inr ⟨_, c, rfl, .refl c, isInvalidValue_unexpected expected c⟩
  | unclosedBlock => exact Or.inr ⟨_, c, rfl, .refl c, rfl⟩
  | settingOf view reason key => exact movesAt_settingOf view reason key c

end Parser

end Document

end SchemaDiagram
