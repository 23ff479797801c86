import SchemaDiagram.Proofs.Document.Attempts
import SchemaDiagram.Proofs.Document.Plain

/-!
# Line comments do not take part in the structure

A document reads the same with its line comments and without them: the same diagnostics, and the
same constructs once the comments filed with them are taken away.

Two cursors over the same tokens are `Cursor.Alike`, whatever comments stand before the tokens or
wait for a construct. A pair of parsers is `Parser.Blind` if they answer alike in front of cursors
that are alike. A plain parser is blind with itself (`Plain.blind`); for the parsers that file
comments, the values that they read agree when the comments are taken away.

Main statement: `ofTokens_withoutComments`.
-/

namespace SchemaDiagram.Document

/-! ## Documents without comments -/

/-- The column without its comments. -/
def Column.withoutComments (c : Column) : Column := { c with comments := [] }

/-- The table without the comments of it and its columns. -/
def Table.withoutComments (t : Table) : Table :=
  { t with columns := t.columns.map Column.withoutComments, comments := [] }

/-- The area without the comments of it and its common columns. -/
def Area.withoutComments (a : Area) : Area :=
  { a with commonColumns := a.commonColumns.map Column.withoutComments, comments := [] }

/-- The construct without any comments. -/
def Construct.withoutComments : Construct → Construct
  | project p => project { p with comments := [] }
  | table t => table t.withoutComments
  | reference r => reference { r with comments := [] }
  | area a => area a.withoutComments

/-- The document without any comments. -/
def withoutComments (d : Document) : Document := ⟨d.constructs.map Construct.withoutComments⟩

/-- The comments attached to a construct are dropped with all others. -/
@[simp] theorem Construct.withoutComments_withComments (comments : List String) (x : Construct) :
    (x.withComments comments).withoutComments = x.withoutComments := by
  cases x <;> rfl

/-! ## Cursors over the same tokens -/

namespace Cursor

/-- The cursors have come to the same place in the same tokens; their comments may differ. -/
structure Alike (c d : Cursor) : Prop where
  /-- The same tokens are ahead. -/
  tokens : c.tokens = d.tokens
  /-- The same diagnostics have been reported. -/
  reported : c.reported = d.reported
  /-- The same token was read last. -/
  last : c.last = d.last
  /-- The document ends at the same place. -/
  stop : c.stop = d.stop

namespace Alike

variable {c d : Cursor}

/-- Alike cursors reach their ends together. -/
theorem rest_eq_nil (h : c.Alike d) (hc : c.rest = []) : d.rest = [] := by
  have htokens := h.tokens
  unfold Cursor.tokens at htokens
  rw [hc] at htokens
  exact List.map_eq_nil_iff.1 htokens.symm

/-- Alike cursors have the same next token and alike rests. -/
theorem exists_cons (h : c.Alike d) {t : CommentedToken} {ts : List CommentedToken}
    (hc : c.rest = t :: ts) :
    ∃ u us, d.rest = u :: us ∧ u.token = t.token ∧
      us.map (·.token) = ts.map (·.token) := by
  have htokens := h.tokens
  unfold Cursor.tokens at htokens
  rw [hc] at htokens
  exact List.map_eq_cons_iff.1 htokens.symm

/-- Alike cursors see the same next kind. -/
theorem kind? (h : c.Alike d) : c.kind? = d.kind? := by
  have hkind (e : Cursor) : e.kind? = e.tokens.head?.map Token.kind := by
    rw [Cursor.kind?, Cursor.tokens, List.head?_map, Option.map_map]
    rfl
  rw [hkind, hkind, h.tokens]

/-- Alike cursors see the same second kind. -/
theorem secondKind? (h : c.Alike d) : c.secondKind? = d.secondKind? := by
  have hkind (e : Cursor) : e.secondKind? = e.tokens.tail.head?.map Token.kind := by
    rw [Cursor.secondKind?, Cursor.tokens, ← List.map_tail, List.head?_map, Option.map_map]
    rfl
  rw [hkind, hkind, h.tokens]

/-- Alike cursors report the same unexpected token. -/
theorem unexpected (h : c.Alike d) (expected : String) :
    c.unexpected expected = d.unexpected expected := by
  unfold Cursor.unexpected
  rcases hc : c.rest with _ | ⟨t, ts⟩
  · rw [h.rest_eq_nil hc, h.stop]
  · obtain ⟨u, us, hd, htoken, -⟩ := h.exists_cons hc
    simp only [hd, htoken]

/-- Alike cursors stay alike when both take a token. -/
theorem advance (h : c.Alike d) : c.advance.Alike d.advance := by
  unfold Cursor.advance
  rcases hc : c.rest with _ | ⟨t, ts⟩
  · rw [h.rest_eq_nil hc]
    exact h
  · obtain ⟨u, us, hd, htoken, hothers⟩ := h.exists_cons hc
    rw [hd]
    exact ⟨hothers.symm, h.reported, congrArg Token.span htoken.symm, h.stop⟩

/-- Alike cursors stay alike when both take several tokens. -/
theorem advanceBy (h : c.Alike d) (n : Nat) : (c.advanceBy n).Alike (d.advanceBy n) := by
  induction n generalizing c d with
  | zero => exact h
  | succ n ih => exact ih h.advance

/-- Alike cursors stay alike when both report the same diagnostic. -/
theorem report (h : c.Alike d) (e : Diagnostic) : (c.report e).Alike (d.report e) :=
  ⟨h.tokens, congrArg (· ++ [e]) h.reported, h.last, h.stop⟩

/-- Alike cursors stay alike whatever comments each is given back. -/
theorem restore (h : c.Alike d) (xs ys : List String) : (c.restore xs).Alike (d.restore ys) :=
  ⟨h.tokens, h.reported, h.last, h.stop⟩

/-- Taking comments away changes nothing else. -/
theorem takeComments_self (c : Cursor) : c.takeComments.Alike c := by
  unfold Cursor.takeComments
  split
  · exact ⟨rfl, rfl, rfl, rfl⟩
  · next hrest => exact ⟨by simp [Cursor.tokens, hrest], rfl, rfl, rfl⟩

/-- Being alike is symmetric. -/
theorem symm (h : c.Alike d) : d.Alike c :=
  ⟨h.tokens.symm, h.reported.symm, h.last.symm, h.stop.symm⟩

/-- Being alike is transitive. -/
theorem trans {e : Cursor} (h : c.Alike d) (k : d.Alike e) : c.Alike e :=
  ⟨h.tokens.trans k.tokens, h.reported.trans k.reported, h.last.trans k.last, h.stop.trans k.stop⟩

/-- Alike cursors stay alike when both hand over their waiting comments. -/
theorem takeComments (h : c.Alike d) : c.takeComments.Alike d.takeComments :=
  ((takeComments_self c).trans h).trans (takeComments_self d).symm

end Alike

end Cursor

/-! ## Parsers that answer alike -/

/-- The same answer, but for the comments that the cursors hold. Values agree as `R` says. -/
inductive Outcome.Alike {α : Type} (R : α → α → Prop) : Outcome α → Outcome α → Prop
  | ok {a b : α} {c d : Cursor} (hvalue : R a b) (hcursor : c.Alike d) :
    Alike R (.ok a c) (.ok b d)
  | failed {e : Diagnostic} {c d : Cursor} (hcursor : c.Alike d) :
    Alike R (.failed e c) (.failed e d)

namespace Outcome.Alike

variable {α : Type} {R : α → α → Prop} {o : Outcome α} {c : Cursor}

/-- An outcome alike to a success is a success with a related value. -/
theorem exists_ok {a : α} (h : (Outcome.ok a c).Alike R o) :
    ∃ b d, o = .ok b d ∧ R a b ∧ c.Alike d := by
  rcases h with ⟨hvalue, hcursor⟩
  exact ⟨_, _, rfl, hvalue, hcursor⟩

/-- An outcome alike to a failure fails with the same diagnostic. -/
theorem exists_failed {e : Diagnostic} (h : (Outcome.failed e c).Alike R o) :
    ∃ d, o = .failed e d ∧ c.Alike d := by
  rcases h with _ | ⟨hcursor⟩
  exact ⟨_, rfl, hcursor⟩

end Outcome.Alike

namespace Parser

variable {α β σ : Type} {p q : Parser α} {f g : α → Parser β} {R : α → α → Prop} {Q : β → β → Prop}
  {S : σ → σ → Prop}

/-- The parsers answer alike in front of cursors that are alike. -/
def Blind (R : α → α → Prop) (p q : Parser α) : Prop :=
  ∀ c d, c.Alike d → (p.run c).Alike R (q.run d)

namespace Blind

/-- Returning related values is blind to comments. -/
theorem pure {a b : α} (h : R a b) : Blind R (Pure.pure a) (Pure.pure b) := fun _ _ hcd => .ok h hcd

/-- Parsers that are blind to comments stay so in sequence. -/
theorem bind (hp : Blind R p q) (hf : ∀ a b, R a b → Blind Q (f a) (g b)) :
    Blind Q (p >>= f) (q >>= g) := by
  intro c d hcd
  rw [run_bind, run_bind]
  have hfirst := hp c d hcd
  rcases hc : p.run c with ⟨a, c'⟩ | ⟨e, c'⟩
  · rw [hc] at hfirst
    obtain ⟨b, d', hd, hvalue, hcursor⟩ := hfirst.exists_ok
    rw [hd]
    exact hf a b hvalue c' d' hcursor
  · rw [hc] at hfirst
    obtain ⟨d', hd, hcursor⟩ := hfirst.exists_failed
    rw [hd]
    exact .failed hcursor

/-- A repetition answers alike if each of its rounds does. -/
theorem iterate {step : σ → Parser (σ ⊕ α)} (h : ∀ s, (step s).Consumes)
    (hstep : ∀ s t, S s t → Blind (Sum.LiftRel S R) (step s) (step t)) {s t : σ} (hst : S s t) :
    Blind R (iterate step h s) (iterate step h t) := by
  intro c d hcd
  show (iterate.loop step h s c).Alike R _
  fun_induction iterate.loop step h s c generalizing t d with
  | case1 s c s' c' hc ih =>
    have hround := hstep s t hst c d hcd
    rw [hc] at hround
    obtain ⟨r, d', hd, ⟨hstates⟩ | _, hcursor⟩ := hround.exists_ok
    rw [run_iterate, hd]
    exact ih hstates d' hcursor
  | case2 s c a c' hc =>
    have hround := hstep s t hst c d hcd
    rw [hc] at hround
    obtain ⟨r, d', hd, _ | ⟨hvalues⟩, hcursor⟩ := hround.exists_ok
    rw [run_iterate, hd]
    exact .ok hvalues hcursor
  | case3 s c e c' hc =>
    have hround := hstep s t hst c d hcd
    rw [hc] at hround
    obtain ⟨d', hd, hcursor⟩ := hround.exists_failed
    rw [run_iterate, hd]
    exact .failed hcursor

/-- A part that takes comments of its own answers alike; the comments it takes may differ. -/
theorem takingComments (hp : Blind R p q) :
    Blind (fun a b => R a.1 b.1) p.takingComments q.takingComments := by
  intro c d hcd
  have hpart := hp _ _ hcd.takeComments
  simp only [Parser.takingComments]
  rcases hc : p.run c.takeComments with ⟨a, c'⟩ | ⟨e, c'⟩
  · rw [hc] at hpart
    obtain ⟨b, d', hd, hvalue, hcursor⟩ := hpart.exists_ok
    rw [hd]
    exact .ok hvalue hcursor
  · rw [hc] at hpart
    obtain ⟨d', hd, hcursor⟩ := hpart.exists_failed
    rw [hd]
    exact .failed (hcursor.restore _ _)

/-- Taking a token is blind to comments. -/
theorem take (accepts : Token → Bool) (expected : String) :
    Blind Eq (take accepts expected) (Parser.take accepts expected) := by
  intro c d hcd
  simp only [Parser.take]
  rcases hc : c.rest with _ | ⟨t, ts⟩
  · rw [hcd.rest_eq_nil hc, hcd.unexpected]
    exact .failed hcd
  · obtain ⟨u, us, hd, htoken, -⟩ := hcd.exists_cons hc
    rw [hd, hcd.unexpected]
    simp only [htoken]
    split
    · exact .ok rfl hcd.advance
    · exact .failed hcd

/-- Reporting a diagnostic is blind to comments. -/
theorem report (e : Diagnostic) : Blind Eq (report e) (Parser.report e) :=
  fun _ _ hcd => .ok rfl (hcd.report e)

/-- Failing is blind to comments. -/
theorem fail (e : Diagnostic) : Blind R (Parser.fail e) (Parser.fail e) :=
  fun _ _ hcd => .failed hcd

/-- Refusing the next token is blind to comments. -/
theorem unexpected (expected : String) :
    Blind R (Parser.unexpected expected) (Parser.unexpected expected) := by
  intro c d hcd
  show Outcome.Alike R (.failed (c.unexpected expected) c) (.failed (d.unexpected expected) d)
  rw [hcd.unexpected]
  exact .failed hcd

end Blind

/-- A plain parser does not see comments. -/
theorem Plain.blind {p : Parser α} (h : p.Plain) : Blind Eq p p := by
  induction h with
  | pure a => exact .pure rfl
  | bind _ _ ihp ihf =>
    refine ihp.bind fun a b hab => ?_
    rw [hab]
    exact ihf b
  | @iterate α σ step h _ s ihstep =>
    refine .iterate (S := Eq) h (fun s t hst => ?_) rfl
    rw [hst]
    intro c d hcd
    have hround := ihstep t c d hcd
    rcases hc : (step t).run c with ⟨r, c'⟩ | ⟨e, c'⟩
    · rw [hc] at hround
      obtain ⟨r', d', hd, rfl, hcursor⟩ := hround.exists_ok
      rw [hd]
      refine .ok ?_ hcursor
      rcases r with s' | a
      · exact .inl rfl
      · exact .inr rfl
    · rw [hc] at hround
      obtain ⟨d', hd, hcursor⟩ := hround.exists_failed
      rw [hd]
      exact .failed hcursor
  | kind? => exact fun c d hcd => .ok hcd.kind? hcd
  | secondKind? => exact fun c d hcd => .ok hcd.secondKind? hcd
  | at? k => exact fun c d hcd => .ok (congrArg (· == some k) hcd.kind?) hcd
  | lastSpan => exact fun c d hcd => .ok hcd.last hcd
  | nextSpan =>
    intro c d hcd
    unfold Parser.nextSpan
    rcases hc : c.rest with _ | ⟨t, ts⟩
    · simp only [hc, hcd.rest_eq_nil hc]
      exact .ok hcd.stop hcd
    · obtain ⟨u, us, hd, htoken, -⟩ := hcd.exists_cons hc
      simp only [hc, hd]
      exact .ok (congrArg Token.span htoken.symm) hcd
  | ahead hview => exact fun c d hcd => .ok (hview _ _ hcd.tokens) hcd
  | take accepts expected => exact .take accepts expected
  | accept k =>
    intro c d hcd
    simp only [Parser.accept, hcd.kind?]
    split
    · exact .ok rfl hcd.advance
    · exact .ok rfl hcd
  | skip n => exact fun c d hcd => .ok rfl (hcd.advanceBy n)
  | unexpected expected => exact .unexpected expected
  | unclosedBlock construct name span => exact .fail _
  | settingOf view reason key =>
    refine ((Blind.take _ _).bind fun _ _ _ => .take _ _).bind fun t u htu => ?_
    rw [htu]
    split
    · exact .pure rfl
    · exact (Blind.report _).bind fun _ _ _ => .pure rfl

/-- A plain parser in front of another one. -/
theorem Plain.bind_blind {p : Parser α} (h : p.Plain) (hf : ∀ a, Blind Q (f a) (g a)) :
    Blind Q (p >>= f) (p >>= g) := by
  refine h.blind.bind fun a b hab => ?_
  rw [hab]
  exact hf b

/-! ## Tables and areas -/

/-- A column's comments do not change the rest of it. -/
theorem blind_commentedColumn :
    Blind (fun a b => a.withoutComments = b.withoutComments) commentedColumn commentedColumn := by
  refine plain_column.blind.takingComments.bind fun a b hab => .pure ?_
  exact congrArg (fun column : Column => { column with comments := [] }) hab

/-- A block is blind to comments when each of its entries is. -/
theorem blind_block (construct name : String) (opening : Span) {entry : σ → TokenKind → Parser σ}
    (h : ∀ s k, (entry s k).Consumes)
    (hentry : ∀ s t k, S s t → Blind S (entry s k) (entry t k)) {s t : σ} (hst : S s t) :
    Blind S (block construct name opening entry h s) (block construct name opening entry h t) := by
  refine .iterate _ (fun s t hst => Plain.kind?.bind_blind fun k => ?_) hst
  split
  · exact .fail _
  split
  · exact plain_any.bind_blind fun _ => .pure (.inr hst)
  split
  · exact .fail _
  · exact (hentry s t _ hst).bind fun _ _ hst => .pure (.inl hst)

/-- An entry of a table's body is blind to comments. -/
theorem blind_tableEntry (t u : Table) (k : TokenKind)
    (h : t.withoutComments = u.withoutComments) :
    Blind (fun t u => t.withoutComments = u.withoutComments) (tableEntry t k) (tableEntry u k) := by
  refine Plain.secondKind?.bind_blind fun second => ?_
  split
  · refine plain_note.bind_blind fun text => .pure ?_
    exact congrArg (fun v : Table => { v with note := some text }) h
  split
  · refine plain_indexes.bind_blind fun more => .pure ?_
    exact congrArg (fun v : Table => { v with indexes := v.indexes ++ more }) h
  split
  · refine blind_commentedColumn.bind fun x y hxy => .pure ?_
    have hcolumns := congrArg
      (fun v : Table => { v with columns := v.columns ++ [x.withoutComments] }) h
    simp only [Table.withoutComments, List.map_append, List.map_cons, List.map_nil, ← hxy]
    exact hcolumns
  · exact plain_any.bind_blind fun _ => .pure h

/-- A table is blind to comments. -/
theorem blind_table (start : Span) :
    Blind (fun t u => t.withoutComments = u.withoutComments) (table start) (table start) := by
  refine (plain_name _).bind_blind fun _ => plain_tableAlias?.bind_blind fun _ => ?_
  refine (plain_settings? (plain_apply .table) _).bind_blind fun head => ?_
  refine (plain_expect _).bind_blind fun _ => ?_
  refine (blind_block _ _ _ _ blind_tableEntry rfl).bind fun t u htu => ?_
  refine Plain.lastSpan.bind_blind fun last => .pure ?_
  exact congrArg (fun v : Table => { v with span := start.through last }) htu

/-- A list of common columns is blind to comments. -/
theorem blind_commonColumns :
    Blind (fun xs ys => xs.map Column.withoutComments = ys.map Column.withoutComments)
      commonColumns commonColumns := by
  refine (plain_expect _).bind_blind fun _ => (Plain.accept _).bind_blind fun _ => ?_
  refine (plain_expect _).bind_blind fun _ => .iterate
    (S := fun xs ys => xs.map Column.withoutComments = ys.map Column.withoutComments)
    _ (fun xs ys hxs => ?_) rfl
  refine Plain.kind?.bind_blind fun k => ?_
  split
  · exact .unexpected _
  split
  · exact plain_any.bind_blind fun _ => .pure (.inr hxs)
  split
  · exact .unexpected _
  split
  · refine blind_commentedColumn.bind fun x y hxy => .pure (.inl ?_)
    rw [List.map_append, List.map_append, hxs, List.map_singleton, List.map_singleton, hxy]
  · exact plain_any.bind_blind fun _ => .pure (.inl hxs)

/-- What is read behind a key agrees if the settings that there are do, taking away from them what no
change is about. -/
theorem blind_apply {l : ListKind} {f : l.State → l.State}
    (hset : ∀ s change, f (l.set s change) = l.set (f s) change) {s t : l.State} (h : f s = f t)
    (key : SettingKey) :
    Blind (fun x y => x.map f = y.map f) (l.apply s key) (l.apply t key) := by
  have hchange (change : Change) :
      (some (l.set s change)).map f = (some (l.set t change)).map f := by
    rw [Option.map_some, Option.map_some, hset, hset, h]
  rw [l.apply_eq, l.apply_eq]
  split
  · next after _ =>
    cases after with
    | nothing change => exact .pure (hchange change)
    | null change => exact (plain_expect _).bind_blind fun _ => .pure (hchange change)
    | key change =>
      refine (plain_isWord "key").bind_blind fun isKey => ?_
      split
      · exact plain_any.bind_blind fun _ => .pure (hchange change)
      · exact .pure rfl
    | text change => exact plain_settingText.bind_blind fun text => .pure (hchange (change text))
    | string change =>
      exact plain_settingString.bind_blind fun text => .pure (hchange (change text))
    | checked view expectation =>
      refine (Plain.settingOf _ _ _).bind_blind fun change => .pure ?_
      cases change with
      | none => exact congrArg some h
      | some change => exact hchange change
    | default =>
      exact plain_settingDefault.bind_blind fun value => .pure (hchange (.default value))
  · exact .pure rfl

/-- A line of a block goes on with a state that agrees when the comments are taken away. -/
theorem blind_settingLine_area (a b : Area) (h : a.withoutComments = b.withoutComments) :
    Blind (fun a b => a.withoutComments = b.withoutComments)
      (settingLine areaSetting a) (settingLine areaSetting b) := by
  refine plain_settingKey.bind_blind fun key => ?_
  have hset (a : Area) (change : Change) : (ListKind.area.set a change).withoutComments =
      ListKind.area.set a.withoutComments change := by
    cases change <;> rfl
  refine (blind_apply (l := .area) hset h key).bind fun x y hxy => ?_
  rcases x with _ | x <;> rcases y with _ | y
  · exact plain_skipLineValue.bind_blind fun _ => .pure h
  · cases hxy
  · cases hxy
  · exact .pure (Option.some.inj hxy)

/-- An entry of an area's body is blind to comments. -/
theorem blind_areaEntry (a b : Area) (k : TokenKind) (h : a.withoutComments = b.withoutComments) :
    Blind (fun a b => a.withoutComments = b.withoutComments) (areaEntry a k) (areaEntry b k) := by
  refine Plain.secondKind?.bind_blind fun second => ?_
  split
  · refine plain_note.bind_blind fun text => .pure ?_
    exact congrArg (fun v : Area => { v with note := some text }) h
  split
  · refine blind_commonColumns.bind fun xs ys hxs => .pure ?_
    have hcolumns := congrArg (fun v : Area =>
      { v with commonColumns := v.commonColumns ++ xs.map Column.withoutComments }) h
    simp only [Area.withoutComments, List.map_append, ← hxs]
    exact hcolumns
  split
  · exact blind_settingLine_area a b h
  split
  · refine (plain_name _).bind_blind fun t => .pure ?_
    exact congrArg (fun v : Area => { v with tables := v.tables ++ [t.value] }) h
  · exact plain_any.bind_blind fun _ => .pure h

/-- An area is blind to comments. -/
theorem blind_area (start : Span) :
    Blind (fun a b => a.withoutComments = b.withoutComments) (area start) (area start) := by
  refine (plain_name _).bind_blind fun _ => ?_
  refine (plain_settings? (plain_apply .area) _).bind_blind fun head => ?_
  refine (plain_expect _).bind_blind fun _ => ?_
  refine (blind_block _ _ _ _ blind_areaEntry rfl).bind fun a b hab => ?_
  refine Plain.lastSpan.bind_blind fun last => .pure ?_
  exact congrArg (fun v : Area => { v with span := start.through last }) hab

/-! ## Constructs -/

/-- Every construct is blind to comments, whichever keyword selects it. -/
theorem blind_construct {k : TokenKind} {construct : Span → Parser Construct}
    (h : construct? k = some construct) (start : Span) :
    Blind (fun x y => x.withoutComments = y.withoutComments) (construct start) (construct start) := by
  obtain ⟨-, rfl⟩ | ⟨-, rfl⟩ | ⟨-, rfl⟩ | ⟨-, rfl⟩ := construct?_eq_some h
  · exact (plain_project start).bind_blind fun _ => .pure rfl
  · exact (blind_table start).bind fun _ _ htu => .pure (congrArg Construct.table htu)
  · exact (plain_reference start).bind_blind fun _ => .pure rfl
  · exact (blind_area start).bind fun _ _ hab => .pure (congrArg Construct.area hab)

end Parser

/-- How far recovery resumes depends on the structural tokens alone. -/
theorem resumeLength_congr {ts us : List CommentedToken} (h : ts.map (·.token) = us.map (·.token)) :
    resumeLength ts = resumeLength us := by
  induction ts generalizing us with
  | nil =>
    obtain rfl := List.map_eq_nil_iff.1 h.symm
    rfl
  | cons t ts ih =>
    obtain ⟨u, us, rfl, htoken, hothers⟩ := List.map_eq_cons_iff.1 h.symm
    simp only [resumeLength, htoken, ih hothers.symm]

/-- Alike cursors stay alike through recovery. -/
theorem Cursor.Alike.resume {c d : Cursor} (h : c.Alike d) : c.resume.Alike d.resume := by
  unfold Cursor.resume
  rw [resumeLength_congr h.tokens]
  exact h.advanceBy _

/-- Reading goes the same way in front of cursors that are alike. -/
theorem readConstructs_alike {c d : Cursor} (h : c.Alike d) :
    (readConstructs c).1.map Construct.withoutComments =
        (readConstructs d).1.map Construct.withoutComments ∧
      (readConstructs c).2.reported = (readConstructs d).2.reported := by
  fun_induction readConstructs c generalizing d with
  | case1 c hc =>
    rw [readConstructs_of_nil (h.rest_eq_nil hc)]
    exact ⟨rfl, h.reported⟩
  | case2 c t ts hc hk ih =>
    obtain ⟨u, us, hd, htoken, -⟩ := h.exists_cons hc
    rw [readConstructs_of_none hd (by rw [htoken, hk]), Cursor.noConstruct, ← h.unexpected]
    exact ih (h.report _).resume
  | case3 c t ts hc construct hk x c' hread others last hothers =>
    rename_i ih
    obtain ⟨u, us, hd, htoken, -⟩ := h.exists_cons hc
    have hread' := Parser.blind_construct hk t.token.span _ _ h.takeComments.advance
    rw [hread] at hread'
    obtain ⟨y, d', hy, hxy, hcursor⟩ := hread'.exists_ok
    obtain ⟨hconstructs, hreported⟩ := ih hcursor
    rw [hothers] at hconstructs hreported
    rw [readConstructs_of_ok hd (by rw [htoken, hk]) (by rw [htoken, hy])]
    refine ⟨?_, hreported⟩
    simp only [List.map_cons, Construct.withoutComments_withComments, hxy, hconstructs]
  | case4 c t ts hc construct hk e c' hread ih =>
    obtain ⟨u, us, hd, htoken, -⟩ := h.exists_cons hc
    have hread' := Parser.blind_construct hk t.token.span _ _ h.takeComments.advance
    rw [hread] at hread'
    obtain ⟨d', hd', hcursor⟩ := hread'.exists_failed
    rw [readConstructs_of_failed hd (by rw [htoken, hk]) (by rw [htoken, hd'])]
    exact ih ((hcursor.restore _ _).report e).resume

/-! ## Token lists -/

/-- The tokens that are no comments. -/
def withoutCommentTokens (ts : List Token) : List Token := ts.filter fun t => t.kind ≠ .comment

/-- The structural tokens are the same when the comments are dropped first. -/
theorem structuralTokens_withoutCommentTokens (ts : List Token) :
    structuralTokens (withoutCommentTokens ts) = structuralTokens ts := by
  unfold structuralTokens withoutCommentTokens
  induction ts with
  | nil => rfl
  | cons t ts ih =>
    by_cases hcomment : t.kind = .comment
    · simpa [hcomment] using ih
    by_cases hend : t.kind = .endOfInput
    · simp [hend]
    · simpa [hcomment, hend] using ih

/-- The place of the end of the input is the same when the comments are dropped first. -/
theorem endSpan_withoutCommentTokens {ts : List Token} (h : ∃ t ∈ ts, t.kind = .endOfInput) :
    endSpan (withoutCommentTokens ts) = endSpan ts := by
  have hfind : (withoutCommentTokens ts).find? (fun t => t.kind = .endOfInput) =
      ts.find? fun t => t.kind = .endOfInput := by
    rw [withoutCommentTokens, List.find?_filter]
    refine congrArg (ts.find? ·) (funext fun t => ?_)
    by_cases hend : t.kind = .endOfInput <;> simp [hend]
  obtain ⟨t, ht⟩ : ∃ t, ts.find? (fun t => t.kind = .endOfInput) = some t := by
    obtain ⟨t, hmem, hend⟩ := h
    exact Option.isSome_iff_exists.1 (List.find?_isSome.2 ⟨t, hmem, by simpa using hend⟩)
  rw [endSpan, endSpan, hfind, ht]

/-- Line comments never influence reading. If the end of the document is marked, the tokens without
the line comments give the same diagnostics and, but for the comments filed with them, the same
constructs. -/
theorem ofTokens_withoutComments (ts : List Token) (h : ∃ t ∈ ts, t.kind = .endOfInput) :
    (ofTokens (withoutCommentTokens ts)).diagnostics = (ofTokens ts).diagnostics ∧
      (ofTokens (withoutCommentTokens ts)).document.withoutComments =
        (ofTokens ts).document.withoutComments := by
  have halike : (Cursor.ofTokens (withoutCommentTokens ts)).Alike (.ofTokens ts) :=
    ⟨by rw [tokens_ofTokens, tokens_ofTokens, structuralTokens_withoutCommentTokens], rfl, rfl,
      endSpan_withoutCommentTokens h⟩
  obtain ⟨hconstructs, hreported⟩ := readConstructs_alike halike
  exact ⟨hreported, congrArg Document.mk hconstructs⟩

/-- A table with a comment behind each token: in its header, inside the settings of a column, and
where its closing brace is missing. -/
def commentedTable : List Token :=
  [⟨.keyword .table, default, "Table"⟩, ⟨.comment, default, "// a"⟩,
    ⟨.identifier, default, "users"⟩, ⟨.comment, default, "// b"⟩,
    ⟨.mark .leftBrace, default, "\x7b"⟩, ⟨.comment, default, "// c"⟩,
    ⟨.identifier, default, "id"⟩, ⟨.comment, default, "// d"⟩,
    ⟨.identifier, default, "int"⟩, ⟨.comment, default, "// e"⟩,
    ⟨.mark .leftBracket, default, "["⟩, ⟨.comment, default, "// f"⟩,
    ⟨.keyword .pk, default, "pk"⟩, ⟨.comment, default, "// g"⟩,
    ⟨.mark .rightBracket, default, "]"⟩, ⟨.comment, default, "// h"⟩,
    ⟨.endOfInput, default, ""⟩]

/-- The table reads the same without its comments. -/
theorem ofTokens_withoutComments_commentedTable :
    (∃ t ∈ commentedTable, t.kind = .endOfInput) ∧
      (ofTokens (withoutCommentTokens commentedTable)).diagnostics =
        (ofTokens commentedTable).diagnostics ∧
      (ofTokens (withoutCommentTokens commentedTable)).document.withoutComments =
        (ofTokens commentedTable).document.withoutComments := by
  have hend : ∃ t ∈ commentedTable, t.kind = .endOfInput := by decide
  exact ⟨hend, ofTokens_withoutComments commentedTable hend⟩

end SchemaDiagram.Document
