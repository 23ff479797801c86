import SchemaDiagram.Proofs.Document.Facing
import SchemaDiagram.Proofs.Document.Uncommented

/-!
# The parts of a construct are read

Settings, notes, texts in parentheses and columns are read as what they denote, whatever stands
behind them that cannot be a part of them. A list of settings and a block take the reading of one
entry as a hypothesis (`Applies`, `ReadsEntry`), so each construct brings its own.
-/

namespace SchemaDiagram.Document

open Grammar Cursor

variable {α σ : Type} {last stop : Span} {vs : List Token}

namespace Parser

/-! ## Keys and values -/

/-- A name is read as the key of a setting. -/
theorem run_settingKey {t : Token} {ts : List Token} (h : t.kind.isName = true) :
    settingKey.run (facing last stop (t :: ts)) = .ok ⟨t.value⟩ (facing t.span stop ts) := by
  have htake {second : Option TokenKind} : (take (fun t => t.kind.isName ||
      (t.kind.opensConstruct && second == some (.mark .colon))) "setting name").run
        (facing last stop (t :: ts)) = .ok t (facing t.span stop ts) :=
    run_take (by rw [h, Bool.true_or])
  exact run_bind_of_ok htake

/-! ## Entries of settings -/

section Settings

variable {apply : σ → SettingKey → Parser (Option σ)} {Entry : σ → List Token → σ → Prop}
  {s s' : σ} {form text : String} {ts us : List Token}

/-- What follows the key of the entry is read as what the entry makes of the state, if no
parenthesis stands behind it. -/
def Applies (apply : σ → SettingKey → Parser (Option σ)) (s : σ) (ts : List Token) (s' : σ) :
    Prop :=
  ∃ key us, ts = key :: us ∧ key.kind.isName = true ∧ ∀ stop vs, NotNext (.mark .leftParen) vs →
    (apply s ⟨key.value⟩).run (facing key.span stop (us ++ vs)) =
      .ok (some s') (facing (lastOf key.span us) stop vs)

/-- A key that stands alone changes the state as a flag. -/
theorem applies_flag {key : Token} (h : IsKey form key)
    (happly : ∀ key, key.form = form → apply s key = Pure.pure (some s')) :
    Applies apply s [key] s' := by
  refine ⟨key, [], rfl, h.1, fun stop vs _ => ?_⟩
  rw [happly _ h.2]
  rfl

/-- A key with a value of the right form changes the state by what the value stands for. -/
theorem applies_settingOf {view : Token → Option α} {a : α} (h : KeyValue view form ts a)
    (reason : String) (change : Option α → σ)
    (happly : ∀ key, key.form = form →
      apply s key = settingOf view reason key >>= fun a => Pure.pure (some (change a))) :
    Applies apply s ts (change (some a)) := by
  obtain ⟨hkey, hcolon, hvalue, hview⟩ := h
  refine ⟨_, _, rfl, hkey.1, fun stop vs _ => ?_⟩
  rw [happly _ hkey.2]
  refine run_bind_of_ok ?_
  refine (run_bind_of_ok ((run_bind_of_ok (run_expect hcolon)).trans (run_take hvalue))).trans ?_
  rw [hview]
  rfl

/-- A key with a text changes the state by the text. -/
theorem applies_settingText (h : KeyValue textOf? form ts text) (change : String → σ)
    (happly : ∀ key, key.form = form →
      apply s key = settingText >>= fun text => Pure.pure (some (change text))) :
    Applies apply s ts (change text) := by
  obtain ⟨hkey, hcolon, hvalue, hview⟩ := h
  cases hview
  refine ⟨_, _, rfl, hkey.1, fun stop vs _ => ?_⟩
  rw [happly _ hkey.2]
  refine run_bind_of_ok (run_bind_of_ok ?_)
  exact (run_bind_of_ok (run_expect hcolon)).trans (run_take hvalue)

/-- A key with a quoted string changes the state by the string. -/
theorem applies_settingString (h : KeyValue stringOf? form ts text) (change : String → σ)
    (happly : ∀ key, key.form = form →
      apply s key = settingString >>= fun text => Pure.pure (some (change text))) :
    Applies apply s ts (change text) := by
  obtain ⟨hkey, hcolon, -, hview⟩ := h
  unfold stringOf? at hview
  split at hview
  · next hstring =>
    cases hview
    refine ⟨_, _, rfl, hkey.1, fun stop vs _ => ?_⟩
    rw [happly _ hkey.2]
    exact run_bind_of_ok ((run_bind_of_ok (run_expect hcolon)).trans (run_string hstring))
  · cases hview

/-! ## Lists of settings -/

/-- An entry that is applied is read whole, as what it makes of the state. -/
theorem run_settingEntry (h : Applies apply s ts s') (hvs : NotNext (.mark .leftParen) vs) :
    (settingEntry apply s).run (facing last stop (ts ++ vs)) =
      .ok s' (facing (lastOf last ts) stop vs) := by
  obtain ⟨key, us, rfl, hname, hrun⟩ := h
  refine (run_bind_of_ok (run_settingKey hname)).trans ?_
  refine (run_bind_of_ok (hrun stop vs hvs)).trans ?_
  rw [lastOf_cons]
  rfl

/-- A line of a key and a value in a block. -/
theorem run_settingLine (h : Applies apply s ts s') (hvs : NotNext (.mark .leftParen) vs) :
    (settingLine apply s).run (facing last stop (ts ++ vs)) =
      .ok s' (facing (lastOf last ts) stop vs) := by
  obtain ⟨key, us, rfl, hname, hrun⟩ := h
  refine (run_bind_of_ok (run_settingKey hname)).trans ?_
  refine (run_bind_of_ok (hrun stop vs hvs)).trans ?_
  rw [lastOf_cons]
  rfl

/-- Where a name is next, a round of a list of settings reads an entry. -/
theorem run_settingsStep_of_name {c : Cursor} {k : TokenKind} (hk : c.kind? = some k)
    (hname : k.isName = true) :
    (settingsStep apply s).run c =
      (do let t ← settingEntry apply s
          settingEnd
          return .inl t : Parser (σ ⊕ σ)).run c := by
  rw [settingsStep, run_kind?_bind, hk]
  split
  · next hbracket =>
    cases hbracket
    cases hname
  · next hcomma =>
    cases hcomma
    cases hname
  · rfl

/-- Behind an entry of a list, a comma is taken. -/
theorem run_settingEnd_comma {comma : Token} (hcomma : comma.kind = .mark .comma) :
    settingEnd.run (facing last stop (comma :: vs)) = .ok () (facing comma.span stop vs) := by
  rw [settingEnd, run_kind?_bind, kind?_facing, List.head?_cons, Option.map_some, hcomma]
  exact run_bind_of_ok run_any

/-- Behind an entry of a list, the closing bracket is left. -/
theorem run_settingEnd_bracket {closing : Token} (hclosing : closing.kind = .mark .rightBracket) :
    settingEnd.run (facing last stop (closing :: vs)) =
      .ok () (facing last stop (closing :: vs)) := by
  rw [settingEnd, run_kind?_bind, kind?_facing, List.head?_cons, Option.map_some, hclosing]
  rfl

/-- An entry and what ends it. -/
theorem run_settingsStep (h : Applies apply s ts s') (hus : NotNext (.mark .leftParen) us)
    {d : Cursor} (hend : settingEnd.run (facing (lastOf last ts) stop us) = .ok () d) :
    (settingsStep apply s).run (facing last stop (ts ++ us)) = .ok (.inl s') d := by
  have hentry : (settingEntry apply s).run (facing last stop (ts ++ us)) = _ :=
    run_settingEntry h hus
  obtain ⟨key, ks, rfl, hname, -⟩ := h
  rw [run_settingsStep_of_name (k := key.kind) rfl hname]
  exact (run_bind_of_ok hentry).trans (run_bind_of_ok hend)

/-- The entries of a list of settings are read in order, up to its closing bracket. -/
theorem run_settings_loop (hentry : ∀ {s s' ts}, Entry s ts s' → Applies apply s ts s')
    {closing : Token} (hclosing : closing.kind = .mark .rightBracket)
    (h : Separated Entry s ts s') :
    (iterate (settingsStep apply) (consumes_settingsStep apply) s).run
        (facing last stop (ts ++ closing :: vs)) = .ok s' (facing closing.span stop vs) := by
  have hclose {s : σ} {last : Span} :
      (iterate (settingsStep apply) (consumes_settingsStep apply) s).run
        (facing last stop (closing :: vs)) = .ok s (facing closing.span stop vs) := by
    refine run_iterate_of_last ?_
    rw [settingsStep, run_kind?_bind, kind?_facing, List.head?_cons, Option.map_some, hclosing]
    exact run_bind_of_ok run_any
  induction h generalizing last with
  | nil => exact hclose
  | last entry =>
    exact (run_iterate_of_next (run_settingsStep (hentry entry)
      (notNext_of_kind hclosing (by simp)) (run_settingEnd_bracket hclosing))).trans hclose
  | cons entry hcomma others ih =>
    rw [List.append_assoc, List.cons_append]
    exact (run_iterate_of_next (run_settingsStep (hentry entry)
      (notNext_of_kind hcomma (by simp)) (run_settingEnd_comma hcomma))).trans ih

/-- Settings are read as what they denote, if no bracket stands behind them. -/
theorem run_settings? (hentry : ∀ {s s' ts}, Entry s ts s' → Applies apply s ts s')
    (h : Settings Entry s ts s') (hvs : NotNext (.mark .leftBracket) vs) :
    (settings? apply s).run (facing last stop (ts ++ vs)) =
      .ok s' (facing (lastOf last ts) stop vs) := by
  cases h with
  | none => exact run_bind_of_ok (run_at?_other hvs)
  | list hopening entries hclosing =>
    simp only [List.cons_append, List.append_assoc, List.nil_append, lastOf_cons, lastOf_append,
      lastOf_nil]
    refine (run_bind_of_ok (run_at? hopening)).trans ?_
    refine (run_bind_of_ok (run_expect hopening)).trans ?_
    exact run_settings_loop hentry hclosing entries

end Settings

/-! ## Notes and texts in parentheses -/

/-- A derived note is read as its text. -/
theorem run_note {us : List Token} {text : String} (h : Note us text) :
    note.run (facing last stop (us ++ vs)) = .ok text (facing (lastOf last us) stop vs) := by
  cases h with
  | @line keyword colon text hkeyword hcolon htext =>
    refine (run_bind_of_ok (run_expect hkeyword)).trans ?_
    refine (run_bind_of_ok (run_accept_other (notNext_of_kind hcolon (by simp)))).trans ?_
    exact (run_bind_of_ok (run_expect hcolon)).trans (run_string htext)
  | block hkeyword hopening htext hclosing =>
    refine (run_bind_of_ok (run_expect hkeyword)).trans ?_
    refine (run_bind_of_ok (run_accept hopening)).trans ?_
    refine (run_bind_of_ok (run_string htext)).trans ?_
    exact run_bind_of_ok (run_expect hclosing)

/-- Balanced tokens are passed at any depth. -/
theorem rawLength_balanced {us : List Token} (h : Balanced us) (depth : Nat) (vs : List Token) :
    rawLength depth ((us ++ vs).map fun t => ⟨[], t⟩) =
      ((rawLength depth (vs.map fun t => ⟨[], t⟩)).1 + us.length,
        (rawLength depth (vs.map fun t => ⟨[], t⟩)).2) := by
  induction h generalizing depth vs with
  | nil => rfl
  | cons hleft hright hopens others ih =>
    rw [List.cons_append, List.map_cons, rawLength]
    simp only [hleft, hright, hopens, ih, false_and, if_false, Bool.false_eq_true]
    rfl
  | @group opening closing ts us hopening inner hclosing others ih ih' =>
    have hbehind : rawLength (depth + 1) ((closing :: (us ++ vs)).map fun t => ⟨[], t⟩) =
        ((rawLength depth (vs.map fun t => ⟨[], t⟩)).1 + us.length + 1,
          (rawLength depth (vs.map fun t => ⟨[], t⟩)).2) := by
      rw [List.map_cons, rawLength]
      simp [hclosing, TokenKind.opensConstruct, ih', -List.map_append]
    have hassoc : opening :: (ts ++ closing :: us) ++ vs =
        opening :: (ts ++ closing :: (us ++ vs)) := by
      rw [List.cons_append, List.append_assoc, List.cons_append]
    rw [hassoc, List.map_cons, rawLength]
    simp [hopening, TokenKind.opensConstruct, ih, hbehind, -List.map_append, -List.map_cons]
    omega

/-- Balanced parentheses are read as their raw text. -/
theorem run_parenthesized_of_balanced {us : List Token} {text : String}
    (h : Parenthesized us text) :
    parenthesized.run (facing last stop (us ++ vs)) =
      .ok text (facing (lastOf last us) stop vs) := by
  obtain @⟨opening, closing, ts, hopening, inner, hclosing⟩ := h
  have hlength : rawLength 0 ((ts ++ closing :: vs).map fun t => ⟨[], t⟩) = (ts.length, true) := by
    rw [rawLength_balanced inner, List.map_cons, rawLength, if_pos ⟨hclosing, rfl⟩, Nat.zero_add]
  have htokens : (((ts ++ closing :: vs).map fun t => (⟨[], t⟩ : CommentedToken)).take
      ts.length).map (·.token) = ts := by
    rw [← List.map_take, List.take_left' rfl, List.map_map]
    exact List.map_id ts
  have hassoc : opening :: (ts ++ [closing]) ++ vs = opening :: (ts ++ closing :: vs) := by
    rw [List.cons_append, List.append_assoc, List.singleton_append]
  rw [hassoc, run_parenthesized, run_expect hopening]
  simp only [rest_facing, hlength, htokens, if_true, advanceBy_facing, lastOf_cons, lastOf_append,
    lastOf_nil]
  exact run_bind_of_ok run_any

/-- Optional parentheses are read as their raw text, or not at all. -/
theorem run_parenthesized? {us : List Token} {params : Option String} (h : Params us params)
    (hvs : NotNext (.mark .leftParen) vs) :
    parenthesized?.run (facing last stop (us ++ vs)) =
      .ok params (facing (lastOf last us) stop vs) := by
  cases h with
  | none => exact run_bind_of_ok (run_at?_other hvs)
  | some h =>
    obtain ⟨hopening, inner, hclosing⟩ := h
    refine (run_bind_of_ok (run_at? hopening)).trans ?_
    exact run_bind_of_ok (run_parenthesized_of_balanced (.mk hopening inner hclosing))

/-! ## Columns -/

/-- A derived default is read as its value. -/
theorem run_settingDefault {colon : Token} {us : List Token} {value : Default}
    (hcolon : colon.kind = .mark .colon) (h : DefaultValue us value)
    (hvs : NotNext (.mark .leftParen) vs) :
    settingDefault.run (facing last stop (colon :: (us ++ vs))) =
      .ok value (facing (lastOf colon.span us) stop vs) := by
  refine (run_bind_of_ok (run_expect hcolon)).trans ?_
  cases h with
  | @value t form h =>
    have hform : (defaultForm? t.kind).isSome = true := by rw [h]; rfl
    refine (run_bind_of_ok (run_take hform)).trans ?_
    refine (run_bind_of_ok (run_at?_other hvs)).trans ?_
    rw [if_neg (by simp), h]
    rfl
  | @call t us arguments hname h =>
    have hform : (defaultForm? t.kind).isSome = true := by rw [hname]; rfl
    obtain ⟨hopening, inner, hclosing⟩ := h
    refine (run_bind_of_ok (run_take hform)).trans ?_
    refine (run_bind_of_ok (run_at? hopening)).trans ?_
    rw [if_pos ⟨hname, rfl⟩]
    exact run_bind_of_ok (run_parenthesized_of_balanced (.mk hopening inner hclosing))

/-- A column's setting that the grammar derives is applied by the parser's table of its settings. -/
theorem applies_columnSetting {s s' : ColumnSettings} {us : List Token}
    (h : ColumnSetting s us s') : Applies columnSetting s us s' := by
  cases h with
  | pk h =>
    refine applies_flag h fun key hform => ?_
    rw [columnSetting, hform]
    rfl
  | @primaryKey key word h hword =>
    refine ⟨key, [word], rfl, h.1, fun stop vs _ => ?_⟩
    rw [columnSetting, h.2]
    exact (run_bind_of_ok (run_isWord hword)).trans (run_bind_of_ok run_any)
  | fk h =>
    refine applies_flag h fun key hform => ?_
    rw [columnSetting, hform]
    rfl
  | unique h =>
    refine applies_flag h fun key hform => ?_
    rw [columnSetting, hform]
    rfl
  | @notNull key word h hword =>
    refine ⟨key, [word], rfl, h.1, fun stop vs _ => ?_⟩
    rw [columnSetting, h.2]
    exact run_bind_of_ok (run_expect hword)
  | null h =>
    refine applies_flag h fun key hform => ?_
    rw [columnSetting, hform]
    rfl
  | increment h =>
    rcases h with h | h
    · refine applies_flag h fun key hform => ?_
      rw [columnSetting, hform]
      rfl
    · refine applies_flag h fun key hform => ?_
      rw [columnSetting, hform]
      rfl
  | @default key colon us value h hcolon hvalue =>
    refine ⟨key, colon :: us, rfl, h.1, fun stop vs hvs => ?_⟩
    rw [columnSetting, h.2, lastOf_cons]
    exact run_bind_of_ok (run_settingDefault hcolon hvalue hvs)
  | aliasName h =>
    refine applies_settingText h (fun text => { s with aliasName := some text }) fun key hform => ?_
    rw [columnSetting, hform]
    rfl
  | note h =>
    refine applies_settingString h (fun text => { s with note := some text }) fun key hform => ?_
    rw [columnSetting, hform]
    rfl

/-- Settings start with a bracket, if there are any. -/
theorem notNext_settings {Entry : σ → List Token → σ → Prop} {s s' : σ} {us : List Token}
    (h : Settings Entry s us s') {k : TokenKind} (hk : k ≠ .mark .leftBracket)
    (hvs : NotNext k vs) : NotNext k (us ++ vs) := by
  cases h with
  | none => exact hvs
  | list hopening entries hclosing =>
    exact notNext_of_kind hopening hk.symm

/-- A derived column is read whole, from its name to its settings. -/
theorem run_column {us : List Token} {c : Column} (h : IsColumn us c)
    (hparen : NotNext (.mark .leftParen) vs) (hbracket : NotNext (.mark .leftBracket) vs) :
    column.run (facing last stop (us ++ vs)) = .ok c (facing (lastOf last us) stop vs) := by
  obtain ⟨hname, htype, hparams, hsettings⟩ := h
  simp only [List.cons_append, List.append_assoc, lastOf_cons, lastOf_append]
  refine (run_bind_of_ok (run_name hname)).trans ?_
  refine (run_bind_of_ok (run_name htype)).trans ?_
  refine (run_bind_of_ok (run_parenthesized? hparams
    (notNext_settings hsettings (by simp) hparen))).trans ?_
  exact run_bind_of_ok (run_settings? applies_columnSetting hsettings hbracket)

/-- The comments of a column are those in front of it, and there are none. -/
theorem run_commentedColumn {us : List Token} {c : Column} (h : IsColumn us c)
    (hparen : NotNext (.mark .leftParen) vs) (hbracket : NotNext (.mark .leftBracket) vs) :
    commentedColumn.run (facing last stop (us ++ vs)) =
      .ok c (facing (lastOf last us) stop vs) := by
  have hrun : column.run (facing last stop (us ++ vs)) = _ := run_column h hparen hbracket
  refine (run_bind_of_ok (run_takingComments hrun)).trans ?_
  obtain ⟨hname, htype, hparams, hsettings⟩ := h
  rfl

/-! ## Blocks -/

/-- A name opens no construct. -/
theorem opensConstruct_of_isName {k : TokenKind} (h : k.isName = true) :
    k.opensConstruct = false := by
  rw [← Bool.not_eq_true]
  intro hopens
  rw [isName_eq_false_of_opensConstruct hopens] at h
  cases h

/-- A name is no mark. -/
theorem ne_mark_of_isName {k : TokenKind} (h : k.isName = true) (m : Mark) : k ≠ .mark m := by
  rintro rfl
  cases h

/-- A name neither closes a block nor opens a construct. -/
theorem isName_inBlock (k : TokenKind) (h : k.isName = true) :
    k ≠ .mark .rightBrace ∧ k.opensConstruct = false :=
  ⟨ne_mark_of_isName h .rightBrace, opensConstruct_of_isName h⟩

section Block

variable {entry : σ → TokenKind → Parser σ} {starts : TokenKind → Bool}
  {Entry : σ → List Token → σ → Prop} {s s' : σ} {us : List Token}

/-- An entry or the closing brace of a block is next. -/
def EntryNext (starts : TokenKind → Bool) (vs : List Token) : Prop :=
  ∀ t ∈ vs.head?, starts t.kind = true ∨ t.kind = .mark .rightBrace

/-- Where an entry or the closing brace is next, no other kind is. -/
theorem EntryNext.notNext (h : EntryNext starts vs) {k : TokenKind} (hstarts : starts k = false)
    (hk : k ≠ .mark .rightBrace) : NotNext k vs := by
  rintro t ht rfl
  rcases h t ht with h | h
  · rw [hstarts] at h
    cases h
  · exact hk h

/-- The tokens are an entry, which is read as what it makes of the state. -/
def ReadsEntry (entry : σ → TokenKind → Parser σ) (starts : TokenKind → Bool) (s : σ)
    (ts : List Token) (s' : σ) : Prop :=
  ∃ t us, ts = t :: us ∧ starts t.kind = true ∧ ∀ last stop vs, EntryNext starts vs →
    (entry s t.kind).run (facing last stop (t :: (us ++ vs))) =
      .ok s' (facing (lastOf t.span us) stop vs)

/-- In front of the entries of a block and its closing brace, an entry or the brace is next. -/
theorem entryNext_entries (hentry : ∀ {s s' ts}, Entry s ts s' → ReadsEntry entry starts s ts s')
    {closing : Token} (hclosing : closing.kind = .mark .rightBrace) (h : Entries Entry s us s') :
    EntryNext starts (us ++ closing :: vs) := by
  rintro t ht
  cases h with
  | nil =>
    cases ht
    exact Or.inr hclosing
  | cons entry others =>
    obtain ⟨u, us, rfl, hu, -⟩ := hentry entry
    cases ht
    exact Or.inl hu

/-- The entries of a block are read one after another, up to the closing brace. -/
theorem run_block {hconsumes : ∀ s k, (entry s k).Consumes}
    (hentry : ∀ {s s' ts}, Entry s ts s' → ReadsEntry entry starts s ts s')
    (hstarts : ∀ k, starts k = true → k ≠ .mark .rightBrace ∧ k.opensConstruct = false)
    (construct name : String) (span : Span) {closing : Token}
    (hclosing : closing.kind = .mark .rightBrace) (h : Entries Entry s us s') :
    (block construct name span entry hconsumes s).run (facing last stop (us ++ closing :: vs)) =
      .ok s' (facing closing.span stop vs) := by
  induction h generalizing last with
  | nil =>
    refine run_iterate_of_last ?_
    rw [List.nil_append, blockStep, run_kind?_bind, kind?_facing, List.head?_cons, Option.map_some]
    simp only [hclosing, if_true]
    exact run_bind_of_ok run_any
  | @cons s t s' ts us hfirst others ih =>
    have hnext : EntryNext starts (us ++ closing :: vs) :=
      entryNext_entries hentry hclosing others
    obtain ⟨u, us', rfl, hu, hrun⟩ := hentry hfirst
    obtain ⟨hbrace, hopens⟩ := hstarts _ hu
    have hstep : (blockStep construct name span entry s).run
        (facing last stop (u :: us' ++ (us ++ closing :: vs))) =
          .ok (.inl t) (facing (lastOf u.span us') stop (us ++ closing :: vs)) := by
      rw [List.cons_append, blockStep, run_kind?_bind, kind?_facing, List.head?_cons,
        Option.map_some]
      simp only [hbrace, hopens, if_false, Bool.false_eq_true]
      exact run_bind_of_ok (hrun _ _ _ hnext)
    rw [List.append_assoc]
    exact (run_iterate_of_next hstep).trans ih

end Block

/-! ## Notes in blocks -/

/-- In front of a name a word does not open a part of its own. -/
theorem isColonOrBrace_of_isName {k : TokenKind} (h : k.isName = true) :
    isColonOrBrace (some k) = false := by
  simp [isColonOrBrace, ne_mark_of_isName h]

/-- A note is next, whatever is read there if it is not. -/
theorem exists_cons_of_note {text : String} (h : Note us text) :
    ∃ keyword second ts, us = keyword :: second :: ts ∧ keyword.kind = .keyword .note ∧
      isColonOrBrace (some second.kind) = true := by
  cases h with
  | line hkeyword hcolon htext => exact ⟨_, _, _, rfl, hkeyword, by rw [hcolon]; rfl⟩
  | block hkeyword hopening htext hclosing => exact ⟨_, _, _, rfl, hkeyword, by rw [hopening]; rfl⟩

/-- A note is read as an entry of a block that takes notes. -/
theorem readsEntry_of_note (entry : σ → TokenKind → Parser σ) {s : σ} {us : List Token}
    {text : String} (h : Note us text) (change : String → σ) {second : Option TokenKind → Parser σ}
    (hentry : entry s (.keyword .note) = secondKind? >>= second)
    (hsecond : ∀ k, isColonOrBrace k = true →
      second k = note >>= fun text => Pure.pure (change text)) :
    ReadsEntry entry TokenKind.isName s us (change text) := by
  obtain ⟨keyword, mark, ts, rfl, hkeyword, hmark⟩ := exists_cons_of_note h
  refine ⟨_, _, rfl, by rw [hkeyword]; rfl, fun last stop vs _ => ?_⟩
  rw [hkeyword, hentry]
  refine run_secondKind?_bind_cons.trans ?_
  rw [hsecond _ hmark]
  exact run_bind_of_ok (run_note h)

end Parser

end SchemaDiagram.Document
