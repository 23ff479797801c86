import SchemaDiagram.Proofs.Document.Filing
import SchemaDiagram.Proofs.Document.Passed
import SchemaDiagram.Proofs.Document.Writable

/-!
# What diagnostics are about

A diagnostic is never about a place that reading made up. One that was reported on the way is about a
value behind a colon and a key (`IsRejection`). One that ended an attempt is about the next token, or
the end of the document where there is none, or about a block that was left open, from the keyword in
front of its header to the brace behind it (`IsFailure`).

`Parser.Blames` says this of a parser, for all cursors over some tokens, with one rule for each way to
put parsers together and one lemma for each parser, in the order in which the parsers are built up. A
key has to be known where its value is read, and a header where its block is; the lemmas about these
places are about a single cursor (`Parser.BlamesAt`).

Main statement: `exists_blamed`, about reading the constructs ahead.
-/

namespace SchemaDiagram.Document

open SchemaDiagram.Document.Parser

/-! ## Causes -/

/-- A setting whose values are checked cannot take the value, for the reason given. -/
inductive Rejects : String → Token → Prop
  | number {t : Token} (h : numberOf? t = none) : Rejects "expected a number" t
  | flag {t : Token} (h : flagOf? t = none) : Rejects "expected true or false" t
  | color {t : Token} (h : Color.ofString? t.value = none) : Rejects "expected #RGB or #RRGGBB" t
  | horizontalLabel {t : Token} (h : HorizontalLabel.ofWord? (Text.lower t.value) = none) :
    Rejects "expected left, center or right" t
  | verticalLabel {t : Token} (h : VerticalLabel.ofWord? (Text.lower t.value) = none) :
    Rejects "expected top, center or bottom" t

/-- A diagnostic about a value among the tokens: a key and a colon stand in front of the value. -/
inductive IsRejection (us : List Token) : Diagnostic → Prop
  | intro {k colon v : Token} {reason : String} (hrun : [k, colon, v] <:+: us)
    (hcolon : colon.kind = .mark .colon) (hrejects : Rejects reason v) :
    IsRejection us (.invalidValue k.value v.text reason v.span)

/-- Reads what stands in front of a table's block. -/
def tableHeader (start : Span) : Parser Table := do
  let tableName ← name "table name"
  let aliasName ← tableAlias?
  settings? tableSetting ⟨tableName.value, aliasName, [], [], none, none, none, none, start, []⟩

/-- Reads what stands in front of an area's block. -/
def areaHeader (start : Span) : Parser Area := do
  let areaName ← name "area name"
  settings? areaSetting
    ⟨areaName.value, [], none, none, none, none, none, none, none, none, [], none, start, []⟩

/-- Reads what stands in front of a project's block. -/
def projectHeader (start : Span) : Parser Project := do
  let projectName ← name "project name"
  settings? projectSetting ⟨projectName.value, none, none, start, []⟩

/-- The keyword and the opening brace of a block among the tokens: behind the keyword the header is
read, and the brace comes next. -/
inductive IsOpening (us : List Token) : String → String → Token → Token → Prop
  | project {c d : Cursor} {k b : Token} {p : Project} {rest : List Token}
    (hk : k :: c.tokens <:+ us) (hkind : k.kind = .keyword .project)
    (hread : (projectHeader k.span).run c = .ok p d) (hrest : d.tokens = b :: rest)
    (hbrace : b.kind = .mark .leftBrace) : IsOpening us "project" p.name k b
  | table {c d : Cursor} {k b : Token} {t : Table} {rest : List Token}
    (hk : k :: c.tokens <:+ us) (hkind : k.kind = .keyword .table)
    (hread : (tableHeader k.span).run c = .ok t d) (hrest : d.tokens = b :: rest)
    (hbrace : b.kind = .mark .leftBrace) : IsOpening us "table" t.name k b
  | area {c d : Cursor} {k b : Token} {a : Area} {rest : List Token}
    (hk : k :: c.tokens <:+ us) (hkind : k.kind = .keyword .area)
    (hread : (areaHeader k.span).run c = .ok a d) (hrest : d.tokens = b :: rest)
    (hbrace : b.kind = .mark .leftBrace) : IsOpening us "area" a.name k b
  | indexes {k b : Token} {rest : List Token} (hk : k :: b :: rest <:+ us)
    (hkind : k.kind = .keyword .indexes) (hbrace : b.kind = .mark .leftBrace) :
    IsOpening us "indexes" "indexes" k b

/-- A diagnostic that ended an attempt at the cursor. -/
inductive IsFailure (us : List Token) (d : Cursor) : Diagnostic → Prop
  | unexpected (expected : String) : IsFailure us d (d.unexpected expected)
  | unclosedBlock {construct name : String} {k b : Token}
    (hopening : IsOpening us construct name k b) :
    IsFailure us d (.unclosedBlock construct name (k.span.through b.span))

variable {us : List Token} {c d e : Cursor}

/-- Between the cursors only values were reported. -/
def Cursor.Rejected (us : List Token) (c d : Cursor) : Prop :=
  ∃ new : List Diagnostic, d.reported = c.reported ++ new ∧ ∀ e ∈ new, IsRejection us e

namespace Cursor.Rejected

/-- Where nothing was reported, nothing but values was. -/
theorem of_reported_eq (h : d.reported = c.reported) : c.Rejected us d :=
  ⟨[], by rw [h, List.append_nil], fun _ hx => absurd hx List.not_mem_nil⟩

/-- Values reported in turn are values reported. -/
theorem trans (h : c.Rejected us d) (k : d.Rejected us e) : c.Rejected us e := by
  obtain ⟨xs, hd, hxs⟩ := h
  obtain ⟨ys, he, hys⟩ := k
  refine ⟨xs ++ ys, by rw [he, hd, List.append_assoc], fun x hx => ?_⟩
  exact (List.mem_append.1 hx).elim (hxs x) (hys x)

end Cursor.Rejected

/-- Giving comments back leaves a failure one at the same tokens. -/
theorem IsFailure.restore {x : Diagnostic} (h : IsFailure us d x) (comments : List String) :
    IsFailure us (d.restore comments) x := by
  cases h with
  | unexpected expected => exact .unexpected (d := d.restore comments) expected
  | unclosedBlock hopening => exact .unclosedBlock hopening

/-! ## Rules -/

namespace Parser

variable {α β σ : Type} {p : Parser α} {f : α → Parser β}

/-- What a parser reports at a cursor is about a value, and if it fails, that is about the next token
or about a block left open. -/
def BlamesAt (us : List Token) (p : Parser α) (c : Cursor) : Prop :=
  (∃ a d, p.run c = .ok a d ∧ c.Rejected us d) ∨
    ∃ x d, p.run c = .failed x d ∧ c.Rejected us d ∧ IsFailure us d x

/-- The same at every cursor over the tokens. -/
def Blames (us : List Token) (p : Parser α) : Prop := ∀ c, c.tokens <:+ us → p.BlamesAt us c

/-- A sequence blames what its parts blame. -/
theorem BlamesAt.bind (hp : p.BlamesAt us c)
    (hf : ∀ a d, p.run c = .ok a d → (f a).BlamesAt us d) : (p >>= f).BlamesAt us c := by
  unfold BlamesAt
  rw [run_bind]
  rcases hp with ⟨a, d, hread, hnew⟩ | ⟨x, d, hread, hnew, hx⟩
  · rw [hread]
    rcases hf a d hread with ⟨b, e, hread', hnew'⟩ | ⟨x, e, hread', hnew', hx⟩
    · exact Or.inl ⟨b, e, hread', hnew.trans hnew'⟩
    · exact Or.inr ⟨x, e, hread', hnew.trans hnew', hx⟩
  · rw [hread]
    exact Or.inr ⟨x, d, rfl, hnew, hx⟩

/-- A value that was read leaves a cursor over the same tokens. -/
theorem suffix_of_run {a : α} (hc : c.tokens <:+ us) (hread : p.run c = .ok a d) :
    d.tokens <:+ us := by
  have hreaches := p.reaches c
  rw [hread] at hreaches
  exact hreaches.suffix.trans hc

/-- A sequence blames what its parts blame, at every cursor over the tokens. -/
theorem Blames.bind (hp : p.Blames us) (hf : ∀ a, (f a).Blames us) : (p >>= f).Blames us :=
  fun c hc => (hp c hc).bind fun a d hread => hf a d (suffix_of_run hc hread)

/-- Reading nothing blames nothing, at a single cursor. -/
theorem blamesAt_pure (a : α) (c : Cursor) : (Pure.pure a : Parser α).BlamesAt us c :=
  Or.inl ⟨a, c, rfl, .of_reported_eq rfl⟩

/-- Reading nothing blames nothing. -/
theorem blames_pure (a : α) : (Pure.pure a : Parser α).Blames us := fun c _ => blamesAt_pure a c

/-- Changing the value blames nothing more. -/
theorem BlamesAt.map (hp : p.BlamesAt us c) (g : α → β) : (g <$> p).BlamesAt us c :=
  hp.bind fun _ _ _ => blamesAt_pure _ _

/-- A repetition blames what its rounds blame. -/
theorem blames_iterate {step : σ → Parser (σ ⊕ α)} (h : ∀ s, (step s).Consumes)
    (hstep : ∀ s, (step s).Blames us) (s : σ) : (iterate step h s).Blames us := by
  intro c hc
  show (∃ a d, iterate.loop step h s c = .ok a d ∧ c.Rejected us d) ∨
    ∃ x d, iterate.loop step h s c = .failed x d ∧ c.Rejected us d ∧ IsFailure us d x
  fun_induction iterate.loop step h s c with
  | case1 s c s' d hread ih =>
    rcases hstep s c hc with ⟨r, d', hread', hnew⟩ | ⟨x, d', hread', -⟩
    · rw [hread] at hread'
      cases hread'
      rcases ih (suffix_of_run hc hread) with ⟨a, e, hloop, hnew'⟩ | ⟨x, e, hloop, hnew', hx⟩
      · exact Or.inl ⟨a, e, hloop, hnew.trans hnew'⟩
      · exact Or.inr ⟨x, e, hloop, hnew.trans hnew', hx⟩
    · rw [hread] at hread'
      cases hread'
  | case2 s c a d hread =>
    rcases hstep s c hc with ⟨r, d', hread', hnew⟩ | ⟨x, d', hread', -⟩
    · rw [hread] at hread'
      cases hread'
      exact Or.inl ⟨a, d, rfl, hnew⟩
    · rw [hread] at hread'
      cases hread'
  | case3 s c x d hread =>
    rcases hstep s c hc with ⟨r, d', hread', -⟩ | ⟨x', d', hread', hnew, hx⟩
    · rw [hread] at hread'
      cases hread'
    · rw [hread] at hread'
      cases hread'
      exact Or.inr ⟨x, d, rfl, hnew, hx⟩

/-- Taking comments away first and giving them back blames nothing more. -/
theorem Blames.takingComments (hp : p.Blames us) : p.takingComments.Blames us := by
  intro c hc
  rw [← c.tokens_takeComments] at hc
  unfold BlamesAt Parser.takingComments
  rcases hp c.takeComments hc with ⟨a, d, hread, hnew⟩ | ⟨x, d, hread, hnew, hx⟩
  · have hrejected : c.Rejected us c.takeComments := .of_reported_eq c.reported_takeComments
    exact Or.inl ⟨(a, c.availableComments), d, by simp only [hread], hrejected.trans hnew⟩
  · have hrejected : c.Rejected us c.takeComments := .of_reported_eq c.reported_takeComments
    have hrestored : d.Rejected us (d.restore c.availableComments) := .of_reported_eq rfl
    exact Or.inr ⟨x, _, by simp only [hread], (hrejected.trans hnew).trans hrestored, hx.restore _⟩

/-- A step that always reads a value and reports nothing. -/
theorem blames_of_quiet (h : ∀ c, ∃ a d, p.run c = .ok a d ∧ d.reported = c.reported) :
    p.Blames us := by
  intro c _
  obtain ⟨a, d, hread, hreported⟩ := h c
  exact Or.inl ⟨a, d, hread, .of_reported_eq hreported⟩

/-- A look at the next kind blames nothing. -/
theorem blames_kind? : Parser.kind?.Blames us := blames_of_quiet fun c => ⟨_, c, rfl, rfl⟩

/-- A look at the second kind blames nothing. -/
theorem blames_secondKind? : Parser.secondKind?.Blames us :=
  blames_of_quiet fun c => ⟨_, c, rfl, rfl⟩

/-- Looking for a kind blames nothing. -/
theorem blames_at? (k : TokenKind) : (at? k).Blames us := blames_of_quiet fun c => ⟨_, c, rfl, rfl⟩

/-- A look at the token that was read last blames nothing. -/
theorem blames_lastSpan : lastSpan.Blames us := blames_of_quiet fun c => ⟨_, c, rfl, rfl⟩

/-- Looking ahead blames nothing. -/
theorem blames_ahead (view : List CommentedToken → α) : (ahead view).Blames us :=
  blames_of_quiet fun c => ⟨_, c, rfl, rfl⟩

/-- Passing tokens blames nothing. -/
theorem blames_skip (n : Nat) : (skip n).Blames us :=
  blames_of_quiet fun c => ⟨(), _, rfl, c.reported_advanceBy n⟩

/-- A look at the place of the next token blames nothing. -/
theorem blames_nextSpan : nextSpan.Blames us := by
  refine blames_of_quiet fun c => ?_
  unfold nextSpan
  rcases hrest : c.rest with _ | ⟨t, ts⟩
  · exact ⟨c.stop, c, by simp only [hrest], rfl⟩
  · exact ⟨t.token.span, c, by simp only [hrest], rfl⟩

/-- A token that may be missing blames nothing. -/
theorem blames_accept (k : TokenKind) : (accept k).Blames us := by
  refine blames_of_quiet fun c => ?_
  by_cases hkind : c.kind? = some k
  · exact ⟨true, c.advance, if_pos hkind, c.reported_advance⟩
  · exact ⟨false, c, if_neg hkind, rfl⟩

/-- A complaint is about the next token, or the end where there is none. -/
theorem blamesAt_unexpected (expected : String) (c : Cursor) :
    (Parser.unexpected expected : Parser α).BlamesAt us c :=
  Or.inr ⟨_, c, rfl, .of_reported_eq rfl, .unexpected expected⟩

/-- A complaint is about the next token, at every cursor. -/
theorem blames_unexpected (expected : String) : (Parser.unexpected expected : Parser α).Blames us :=
  fun c _ => blamesAt_unexpected expected c

/-- Taking a token blames the next one, if it is another one. -/
theorem blames_take (accepts : Token → Bool) (expected : String) :
    (take accepts expected).Blames us := by
  intro c _
  rcases run_take_cases accepts expected c with ⟨t, ts, -, -, hread⟩ | hread
  · exact Or.inl ⟨t.token, c.advance, hread, .of_reported_eq c.reported_advance⟩
  · exact Or.inr ⟨_, c, hread, .of_reported_eq rfl, .unexpected expected⟩

/-! ## Settings -/

/-- Expecting a token blames the next one, if it is another one. -/
theorem blames_expect (k : TokenKind) : (expect k).Blames us := blames_take _ _

/-- Where any token will do, only the end is blamed. -/
theorem blames_any : any.Blames us := blames_take _ _

/-- A name blames the next token, if it is no name. -/
theorem blames_name (expected : String) : (name expected).Blames us := blames_take _ _

/-- A text in quotes blames the next token, if it is none. -/
theorem blames_string (expected : String) : (string expected).Blames us :=
  (blames_take _ _).bind fun _ => blames_pure _

/-- A key blames the next token, if it is no key. -/
theorem blames_settingKey : settingKey.Blames us :=
  blames_secondKind?.bind fun _ => (blames_take _ _).bind fun _ => blames_pure _

/-- The value of a setting blames the next token, if it is no colon or no value. -/
theorem blames_settingValue : settingValue.Blames us :=
  (blames_expect _).bind fun _ => blames_take _ _

/-- The text of a setting blames what its value blames. -/
theorem blames_settingText : settingText.Blames us :=
  blames_settingValue.bind fun _ => blames_pure _

/-- The quoted text of a setting blames the next token. -/
theorem blames_settingString : settingString.Blames us :=
  (blames_expect _).bind fun _ => blames_string _

/-- The key stands right in front of what is ahead. -/
def IsBehind (us : List Token) (key : SettingKey) (c : Cursor) : Prop :=
  ∃ k : Token, key = ⟨k.value⟩ ∧ k :: c.tokens <:+ us

/-- What stands behind a key is ahead of it among the tokens. -/
theorem IsBehind.suffix {key : SettingKey} (h : IsBehind us key c) : c.tokens <:+ us := by
  obtain ⟨k, -, hk⟩ := h
  exact (List.suffix_cons _ _).trans hk

/-- A key that was read stands in front of what is ahead. -/
theorem ensures_settingKey (hc : c.tokens <:+ us) :
    settingKey.Ensures c fun key d => IsBehind us key d := by
  refine .bind ?_
  rintro _ _ ⟨⟩
  refine .bind ((Ensures.take _ _).mono ?_)
  rintro t d ⟨-, -, htokens, -⟩
  exact .pure ⟨t, rfl, htokens ▸ hc⟩

/-- A value that cannot be taken is reported. -/
theorem blamesAt_settingOf {view : Token → Option α} {reason : String} {key : SettingKey}
    (hview : ∀ t, view t = none → Rejects reason t) (hkey : IsBehind us key c) :
    (settingOf view reason key).BlamesAt us c := by
  have hvalue : settingValue.Ensures c fun v d => ∃ colon : Token,
      colon.kind = .mark .colon ∧ c.tokens = colon :: v :: d.tokens := by
    refine .bind ((Ensures.take _ _).mono ?_)
    rintro colon d ⟨hcolon, -, htokens, -⟩
    refine (Ensures.take _ _).mono ?_
    rintro v d' ⟨-, -, htokens', -⟩
    exact ⟨colon, beq_iff_eq.1 hcolon, by rw [htokens, htokens']⟩
  refine (blames_settingValue c hkey.suffix).bind fun v d hread => ?_
  obtain ⟨colon, hcolon, htokens⟩ := hvalue v d hread
  rcases hnone : view v with _ | a
  · obtain ⟨k, rfl, hk⟩ := hkey
    have hrun : [k, colon, v] <:+: us := by
      rw [htokens] at hk
      exact (List.prefix_append [k, colon, v] d.tokens).isInfix.trans hk.isInfix
    refine Or.inl ⟨none, d.report (.invalidValue k.value v.text reason v.span), rfl, ?_⟩
    exact ⟨_, rfl, List.forall_mem_singleton.2 (.intro hrun hcolon (hview v hnone))⟩
  · exact blamesAt_pure _ d

section Settings

variable {apply : σ → SettingKey → Parser (Option σ)}
  (happly : ∀ s key c, IsBehind us key c → (apply s key).BlamesAt us c)
include happly

/-- A key is read, what has to follow it, and then what depends on the key being known. -/
theorem blames_behindKey (s : σ) {f : Option σ → Parser α} (hf : ∀ t, (f t).Blames us) :
    (settingKey >>= fun key => apply s key >>= f).Blames us := by
  refine fun c hc => (blames_settingKey c hc).bind fun key d hread => ?_
  have hkey := ensures_settingKey hc key d hread
  exact (happly s key d hkey).bind fun t e hread' => hf t e (suffix_of_run hkey.suffix hread')

/-- An entry blames its value or the next token. -/
theorem blames_settingEntry (s : σ) : (settingEntry apply s).Blames us := by
  refine blames_behindKey happly s fun t => ?_
  rcases t with _ | t
  · refine .bind ?_ fun _ => blames_pure _
    refine (blames_ahead _).bind fun seen => (blames_skip _).bind fun _ => ?_
    split
    · exact blames_pure _
    · exact blames_unexpected _
  · exact blames_pure t

/-- A list of settings blames the values in it or the token where it breaks off. -/
theorem blames_settings? (s : σ) : (settings? apply s).Blames us := by
  refine (blames_at? _).bind fun isNext => ?_
  split
  · refine (blames_expect _).bind fun _ => blames_iterate _ (fun s => blames_kind?.bind fun k => ?_) s
    split
    · exact blames_any.bind fun _ => blames_pure _
    · exact blames_any.bind fun _ => blames_pure _
    · refine (blames_settingEntry happly s).bind fun t => .bind ?_ fun _ => blames_pure _
      refine blames_kind?.bind fun k => ?_
      split
      · exact blames_any.bind fun _ => blames_pure _
      · exact blames_pure _
      · exact blames_unexpected _
  · exact blames_pure s

/-- A line of a key and a value blames its value or the next token. -/
theorem blames_settingLine (s : σ) : (settingLine apply s).Blames us := by
  refine blames_behindKey happly s fun t => ?_
  rcases t with _ | t
  · refine .bind ?_ fun _ => blames_pure _
    exact (blames_accept _).bind fun _ => (blames_ahead _).bind fun n => blames_skip n
  · exact blames_pure t

end Settings

/-! ## Blocks -/

/-- A block that is left open is blamed from its keyword to its brace. -/
theorem blames_block {construct name : String} {k b : Token}
    (hopening : IsOpening us construct name k b) {entry : σ → TokenKind → Parser σ}
    (h : ∀ s k, (entry s k).Consumes) (hentry : ∀ s k, (entry s k).Blames us) (s : σ) :
    (block construct name (k.span.through b.span) entry h s).Blames us := by
  have hfail (t : σ) : (fail (.unclosedBlock construct name (k.span.through b.span)) :
      Parser (σ ⊕ σ)).Blames us :=
    fun c _ => Or.inr ⟨_, c, rfl, .of_reported_eq rfl, .unclosedBlock hopening⟩
  refine blames_iterate _ (fun s => blames_kind?.bind fun kind => ?_) s
  split
  · exact hfail s
  split
  · exact blames_any.bind fun _ => blames_pure _
  split
  · exact hfail s
  · exact (hentry s _).bind fun _ => blames_pure _

/-- A note blames the next token. -/
theorem blames_note : note.Blames us := by
  refine (blames_expect _).bind fun _ => (blames_accept _).bind fun isBraced => ?_
  split
  · exact (blames_string _).bind fun _ => (blames_expect _).bind fun _ => blames_pure _
  · exact (blames_expect _).bind fun _ => blames_string _

/-- Passing over what is unknown blames only the end. -/
theorem blames_ignore (s : σ) : (ignore s).Blames us := blames_any.bind fun _ => blames_pure _

/-! ## Columns -/

/-- A text in parentheses blames the token where it breaks off. -/
theorem blames_parenthesized : parenthesized.Blames us := by
  refine (blames_expect _).bind fun _ => (blames_ahead _).bind fun seen => ?_
  refine (blames_ahead _).bind fun tokens => (blames_skip _).bind fun _ => ?_
  split
  · exact blames_any.bind fun _ => blames_pure _
  · exact blames_unexpected _

/-- A default blames the next token. -/
theorem blames_settingDefault : settingDefault.Blames us := by
  refine (blames_expect _).bind fun _ => (blames_take _ _).bind fun t => ?_
  refine (blames_at? _).bind fun isCall => ?_
  split
  · exact blames_parenthesized.bind fun _ => blames_pure _
  · exact blames_pure _

/-- The values that a check does not take are rejected for what it expects. -/
theorem rejects_of_isCheck {view : Token → Option Change} {expectation : String}
    (h : ListKind.IsCheck view expectation) (t : Token) (hnone : view t = none) :
    Rejects expectation t := by
  cases h with
  | number change => exact .number (Option.map_eq_none_iff.1 hnone)
  | color change => exact .color (Option.map_eq_none_iff.1 hnone)
  | flag change => exact .flag (Option.map_eq_none_iff.1 hnone)
  | horizontalLabel change => exact .horizontalLabel (Option.map_eq_none_iff.1 hnone)
  | verticalLabel change => exact .verticalLabel (Option.map_eq_none_iff.1 hnone)

/-- What follows a key blames the value behind it or the next token, for every list and every key.
-/
theorem blamesAt_apply (l : ListKind) (s : l.State) (key : SettingKey) (c : Cursor)
    (hkey : IsBehind us key c) : (l.apply s key).BlamesAt us c := by
  refine ListKind.apply_of_reader (P := fun p => p.BlamesAt us c) (fun field after hform => ?_)
    (blamesAt_pure none c)
  cases after with
  | nothing change => exact blamesAt_pure _ c
  | null change => exact ((blames_expect _).bind fun _ => blames_pure _) c hkey.suffix
  | key change =>
    refine Blames.bind (blames_ahead _) (fun isKey => ?_) c hkey.suffix
    split
    · exact blames_any.bind fun _ => blames_pure _
    · exact blames_pure _
  | text change => exact (blames_settingText.bind fun _ => blames_pure _) c hkey.suffix
  | string change => exact (blames_settingString.bind fun _ => blames_pure _) c hkey.suffix
  | checked view expectation =>
    have hrejects := rejects_of_isCheck (ListKind.isCheck_of_meaning? hform)
    exact (blamesAt_settingOf hrejects hkey).bind fun _ _ _ => blamesAt_pure _ _
  | default => exact (blames_settingDefault.bind fun _ => blames_pure _) c hkey.suffix

/-- A column blames the values of its settings or the token where it breaks off. -/
theorem blames_commentedColumn : commentedColumn.Blames us := by
  refine Blames.bind (Blames.takingComments ?_) fun _ => blames_pure _
  refine (blames_name _).bind fun _ => (blames_name _).bind fun _ => .bind ?_ fun _ => ?_
  · refine (blames_at? _).bind fun isNext => ?_
    split
    · exact blames_parenthesized.bind fun _ => blames_pure _
    · exact blames_pure _
  · refine (blames_settings? (blamesAt_apply .column) _).bind fun _ => ?_
    exact blames_lastSpan.bind fun _ => blames_pure _

/-! ## Tables -/

/-- A column of an index blames the next token, if it is none. -/
theorem blames_indexColumn : indexColumn.Blames us := (blames_take _ _).bind fun _ => blames_pure _

/-- The columns of an index blame the token where they break off. -/
theorem blames_indexColumns : indexColumns.Blames us := by
  refine (blames_accept _).bind fun isList => ?_
  split
  · refine (blames_iterate _ (fun columns => ?_) []).bind fun _ => ?_
    · refine blames_indexColumn.bind fun _ => (blames_accept _).bind fun more => ?_
      split
      · exact blames_pure _
      · exact blames_pure _
    · exact (blames_expect _).bind fun _ => blames_pure _
  · exact blames_indexColumn.bind fun _ => blames_pure _

/-- An entry of a block of indexes blames values or the token where it breaks off. -/
theorem blames_indexesEntry (indexes : List Index) (k : TokenKind) :
    (indexesEntry indexes k).Blames us := by
  unfold indexesEntry
  split
  · refine blames_nextSpan.bind fun start => .bind ?_ fun _ => blames_pure _
    refine blames_indexColumns.bind fun _ => ?_
    refine (blames_settings? (blamesAt_apply .index) _).bind fun _ => ?_
    exact blames_lastSpan.bind fun _ => blames_pure _
  · exact blames_ignore _

/-- A block of indexes blames values, a token, or itself from its keyword to its brace. -/
theorem blames_indexes : indexes.Blames us := by
  intro c hc
  refine (blames_expect _ c hc).bind fun k d hread => ?_
  obtain ⟨hkind, -, htokens, -⟩ := Ensures.take _ _ k d hread
  have hd := suffix_of_run hc hread
  refine (blames_expect _ d hd).bind fun b e hread' => ?_
  obtain ⟨hbrace, -, htokens', -⟩ := Ensures.take _ _ b e hread'
  have hk : k :: b :: e.tokens <:+ us := by
    rw [← htokens', ← htokens]
    exact hc
  exact blames_block (.indexes hk (beq_iff_eq.1 hkind) (beq_iff_eq.1 hbrace)) _ blames_indexesEntry
    [] e (suffix_of_run hd hread')

/-- An entry of a table blames values, a token, or the block of indexes in it. -/
theorem blames_tableEntry (t : Table) (k : TokenKind) : (tableEntry t k).Blames us := by
  refine blames_secondKind?.bind fun second => ?_
  split
  · exact blames_note.bind fun _ => blames_pure _
  split
  · exact blames_indexes.bind fun _ => blames_pure _
  split
  · exact blames_commentedColumn.bind fun _ => blames_pure _
  · exact blames_ignore _

/-- The header of a table blames values or the token where it breaks off. -/
theorem blames_tableHeader (start : Span) : (tableHeader start).Blames us := by
  refine (blames_name _).bind fun _ => .bind ?_ fun _ => blames_settings? (blamesAt_apply .table) _
  refine (blames_ahead _).bind fun found => ?_
  split
  · exact blames_any.bind fun _ => (blames_name _).bind fun _ => blames_pure _
  · exact blames_pure _

/-- A table is its header, a brace and its block. -/
theorem table_eq_header (start : Span) :
    table start = tableHeader start >>= fun head => expect (.mark .leftBrace) >>= fun brace =>
      block "table" head.name (start.through brace.span) tableEntry consumes_tableEntry head >>=
        fun t => lastSpan >>= fun last => pure { t with span := start.through last } := by
  simp only [table, tableHeader, bind_assoc]
  rfl

/-- The block of a construct whose header gives a name. -/
theorem blamesAt_header {header : Parser σ} {construct : String} {name : σ → String} {k : Token}
    {body : σ → Token → Parser α} (hheader : header.Blames us) (hk : k :: c.tokens <:+ us)
    (hopening : ∀ {s d b rest}, header.run c = .ok s d → d.tokens = b :: rest →
      b.kind = .mark .leftBrace → IsOpening us construct (name s) k b)
    (hbody : ∀ s b, IsOpening us construct (name s) k b → (body s b).Blames us) :
    (header >>= fun s => expect (.mark .leftBrace) >>= body s).BlamesAt us c := by
  have hc : c.tokens <:+ us := (List.suffix_cons _ _).trans hk
  refine (hheader c hc).bind fun s d hread => ?_
  have hd := suffix_of_run hc hread
  refine (blames_expect _ d hd).bind fun b e hread' => ?_
  obtain ⟨hbrace, -, htokens, -⟩ := Ensures.take _ _ b e hread'
  exact hbody s b (hopening hread htokens (beq_iff_eq.1 hbrace)) e (suffix_of_run hd hread')

/-- Behind its keyword a table blames values, a token, or a block left open, its own or one in it.
-/
theorem blamesAt_table {k : Token} (hkind : k.kind = .keyword .table) (hk : k :: c.tokens <:+ us) :
    (table k.span).BlamesAt us c := by
  rw [table_eq_header]
  refine blamesAt_header (blames_tableHeader _) hk
    (fun hread hrest hbrace => .table hk hkind hread hrest hbrace) fun head b hopening => ?_
  refine (blames_block hopening _ blames_tableEntry head).bind fun _ => ?_
  exact blames_lastSpan.bind fun _ => blames_pure _

/-! ## Areas and projects -/

/-- A list of common columns blames values or the token where it breaks off. -/
theorem blames_commonColumns : commonColumns.Blames us := by
  refine (blames_expect _).bind fun _ => (blames_accept _).bind fun _ => ?_
  refine (blames_expect _).bind fun _ => blames_iterate _ (fun columns => ?_) []
  refine blames_kind?.bind fun k => ?_
  split
  · exact blames_unexpected _
  split
  · exact blames_any.bind fun _ => blames_pure _
  split
  · exact blames_unexpected _
  split
  · exact blames_commentedColumn.bind fun _ => blames_pure _
  · exact blames_any.bind fun _ => blames_pure _

/-- An entry of an area blames values or the token where it breaks off. -/
theorem blames_areaEntry (a : Area) (k : TokenKind) : (areaEntry a k).Blames us := by
  refine blames_secondKind?.bind fun second => ?_
  split
  · exact blames_note.bind fun _ => blames_pure _
  split
  · exact blames_commonColumns.bind fun _ => blames_pure _
  split
  · exact blames_settingLine (blamesAt_apply .area) a
  split
  · exact (blames_name _).bind fun _ => blames_pure _
  · exact blames_ignore _

/-- Behind its keyword an area blames values, a token, or its own block left open. -/
theorem blamesAt_area {k : Token} (hkind : k.kind = .keyword .area) (hk : k :: c.tokens <:+ us) :
    (area k.span).BlamesAt us c := by
  have harea : area k.span = areaHeader k.span >>= fun head =>
      expect (.mark .leftBrace) >>= fun brace =>
        block "area" head.name (k.span.through brace.span) areaEntry consumes_areaEntry head >>=
          fun a => lastSpan >>= fun last => pure { a with span := k.span.through last } := by
    simp only [area, areaHeader, bind_assoc]
    rfl
  have hheader : (areaHeader k.span).Blames us :=
    (blames_name _).bind fun _ => blames_settings? (blamesAt_apply .area) _
  rw [harea]
  refine blamesAt_header hheader hk
    (fun hread hrest hbrace => .area hk hkind hread hrest hbrace) fun head b hopening => ?_
  refine (blames_block hopening _ blames_areaEntry head).bind fun _ => ?_
  exact blames_lastSpan.bind fun _ => blames_pure _

/-- An entry of a project blames values or the token where it breaks off. -/
theorem blames_projectEntry (p : Project) (k : TokenKind) : (projectEntry p k).Blames us := by
  refine blames_secondKind?.bind fun second => ?_
  split
  · exact blames_note.bind fun _ => blames_pure _
  split
  · exact blames_settingLine (blamesAt_apply .project) p
  · exact blames_ignore p

/-- Behind its keyword a project blames values, a token, or its own block left open. -/
theorem blamesAt_project {k : Token} (hkind : k.kind = .keyword .project)
    (hk : k :: c.tokens <:+ us) : (project k.span).BlamesAt us c := by
  have hproject : project k.span = projectHeader k.span >>= fun head =>
      projectBlock? k.span head >>= fun p =>
        lastSpan >>= fun last => pure { p with span := k.span.through last } := by
    simp only [project, projectHeader, bind_assoc]
    rfl
  have hheader : (projectHeader k.span).Blames us := (blames_name _).bind fun _ =>
    blames_settings? (blamesAt_apply .project) _
  have hc : c.tokens <:+ us := (List.suffix_cons _ _).trans hk
  rw [hproject]
  refine (hheader c hc).bind fun head d hread => ?_
  have hd := suffix_of_run hc hread
  refine BlamesAt.bind ?_ fun p e hread' =>
    (blames_lastSpan.bind fun _ => blames_pure _) e (suffix_of_run hd hread')
  -- the brace that is next opens the block
  show BlamesAt us (if (d.kind? == some (.mark .leftBrace)) = true then _ else _) d
  split
  · next hbrace =>
    refine (blames_any d hd).bind fun b e hread' => ?_
    obtain ⟨-, -, htokens, -⟩ := Ensures.take _ _ b e hread'
    have hkind' : b.kind = .mark .leftBrace := by
      rw [Cursor.kind?_of_tokens htokens, beq_iff_eq] at hbrace
      exact Option.some.inj hbrace
    exact blames_block (.project hk hkind hread htokens hkind') _ blames_projectEntry head e
      (suffix_of_run hd hread')
  · exact blamesAt_pure head d

/-! ## References -/

/-- An endpoint of a reference blames the next token. -/
theorem blames_endpoint : endpoint.Blames us :=
  (blames_name _).bind fun _ => (blames_expect _).bind fun _ =>
    (blames_name _).bind fun _ => blames_pure _

/-- A reference blames values or the token where it breaks off. -/
theorem blames_reference (start : Span) : (reference start).Blames us := by
  refine .bind (blames_kind?.bind fun first => blames_secondKind?.bind fun second => ?_) fun _ => ?_
  · split
    · exact (blames_name _).bind fun _ => blames_pure _
    · exact blames_pure _
  refine (blames_accept _).bind fun _ => (blames_accept _).bind fun isBraced => ?_
  refine blames_endpoint.bind fun _ => .bind ((blames_take _ _).bind fun _ => blames_pure _) fun _ => ?_
  refine blames_endpoint.bind fun _ => (blames_settings? (blamesAt_apply .reference) _).bind fun _ => ?_
  split
  · exact (blames_expect _).bind fun _ => blames_lastSpan.bind fun _ => blames_pure _
  · exact blames_lastSpan.bind fun _ => blames_pure _

/-! ## Constructs -/

/-- Behind its keyword each construct blames values, a token, or a block left open. -/
theorem blamesAt_construct {k : Token} {construct : Span → Parser Construct}
    (h : construct? k.kind = some construct) (hk : k :: c.tokens <:+ us) :
    (construct k.span).BlamesAt us c := by
  obtain ⟨hkind, rfl⟩ | ⟨hkind, rfl⟩ | ⟨-, rfl⟩ | ⟨hkind, rfl⟩ := construct?_eq_some h
  · exact (blamesAt_project hkind hk).map _
  · exact (blamesAt_table hkind hk).map _
  · exact (blames_reference _ c ((List.suffix_cons _ _).trans hk)).map _
  · exact (blamesAt_area hkind hk).map _

end Parser

/-! ## Attempts -/

variable {t : CommentedToken} {ts : List CommentedToken}

/-- What an attempt reports on its way is about values, and what it fails with is about the cursor
where it fails. -/
theorem Cursor.blames_construct (hc : c.tokens <:+ us) (hrest : c.rest = t :: ts) :
    ∃ new, (c.behind (c.construct t.token)).reported =
        c.reported ++ (new ++ (Attempt.diagnostic? ⟨c, c.construct t.token⟩).toList) ∧
      (∀ x ∈ new, IsRejection us x) ∧
      ∀ x d, c.construct t.token = .failed x d → IsFailure us d x := by
  have htaken : c.takeComments.advance.reported = c.reported := by
    rw [reported_advance, reported_takeComments]
  rw [reported_behind]
  cases hk : Parser.construct? t.token.kind with
  | none =>
    have hblamed : c.noConstruct = c.takeComments.unexpected "'Project', 'Table', 'Ref' or 'Area'" := by
      rw [takeComments_of_cons hrest, noConstruct]
      simp only [unexpected, hrest]
    rw [construct_of_none hk]
    refine ⟨[], ?_, fun _ hx => absurd hx List.not_mem_nil, ?_⟩
    · rw [Outcome.cursor, reported_takeComments]
      rfl
    · rintro _ _ ⟨⟩
      rw [hblamed]
      exact .unexpected _
  | some construct =>
    have htokens : t.token :: c.takeComments.advance.tokens <:+ us := by
      rw [tokens, rest_takeComments_advance hrest]
      rwa [tokens, hrest] at hc
    rw [construct_of_some hk]
    rcases Parser.blamesAt_construct hk htokens with
      ⟨x, d, hok, new, hreported, hnew⟩ | ⟨x, d, hfailed, ⟨new, hreported, hnew⟩, hx⟩
    · rw [hok]
      refine ⟨new, ?_, hnew, fun _ _ hfailed => by cases hfailed⟩
      rw [Outcome.cursor, hreported, htaken, List.append_assoc]
    · rw [hfailed]
      refine ⟨new, ?_, hnew, ?_⟩
      · rw [Outcome.cursor, hreported, htaken, List.append_assoc]
      · rintro _ _ ⟨⟩
        exact hx

/-- A diagnostic of a document is about a value that it rejects, or is the failure of an attempt. -/
theorem exists_blamed (hc : c.tokens <:+ us) :
    ∃ new, (readConstructs c).2.reported = c.reported ++ new ∧
      ∀ x ∈ new, IsRejection us x ∨
        ∃ a ∈ attempts c, ∃ d, a.outcome = .failed x d ∧ IsFailure us d x := by
  fun_induction attempts c with
  | case1 c hrest =>
    rw [readConstructs_of_nil hrest]
    exact ⟨[], (List.append_nil _).symm, fun _ hx => absurd hx List.not_mem_nil⟩
  | case2 c t ts hrest ih =>
    obtain ⟨first, hfirst, hrejected, hfailure⟩ := c.blames_construct hc hrest
    obtain ⟨others, hothers, hblamed⟩ := ih ((c.reaches_behind t.token).suffix.trans hc)
    rw [readConstructs_of_cons hrest]
    refine ⟨first ++ (Attempt.diagnostic? ⟨c, c.construct t.token⟩).toList ++ others, ?_, ?_⟩
    · rw [hothers, hfirst, List.append_assoc]
    intro x hx
    rcases List.mem_append.1 hx with hx | hx
    · rcases List.mem_append.1 hx with hx | hx
      · exact Or.inl (hrejected x hx)
      · obtain ⟨d, hread⟩ := Attempt.exists_of_diagnostic? (Option.mem_toList.1 hx)
        exact Or.inr ⟨_, List.mem_cons_self, d, hread, hfailure x d hread⟩
    · refine (hblamed x hx).imp_right ?_
      rintro ⟨a, ha, hfailed⟩
      exact ⟨a, List.mem_cons_of_mem _ ha, hfailed⟩

end SchemaDiagram.Document
