import SchemaDiagram.Proofs.Document.Progress

/-!
# Line comments are filed once

A line comment waits until a construct or a column takes it. None is filed twice, none changes places
with another one, and none is lost unless an attempt to read a construct fails that had read columns
already: the comments of those columns go down with it, and all others that the attempt had come past
go to the next construct.

The accounts are kept in `Cursor.comments`, the comments that wait or lie ahead. A plain parser leaves
them as they are (`Plain.comments_cursor`). A column takes its own from the front of them, and what a
table or an area has taken is what the columns hold that it has read so far. That is the invariant of
the repetitions that read columns, up to the round that ends them (`iterate.reached`).

Main statement: `ofTokens_comments`.
-/

namespace SchemaDiagram.Document

/-! ## Comments of cursors -/

namespace Cursor

/-- Advancing keeps all comments. -/
theorem comments_advance (c : Cursor) : c.advance.comments = c.comments := by
  unfold advance comments
  rcases hrest : c.rest with _ | ⟨t, ts⟩
  · simp only [hrest]
  · simp only [List.flatMap_cons, List.append_assoc]

/-- Advancing by several tokens keeps all comments. -/
theorem comments_advanceBy (n : Nat) (c : Cursor) : (c.advanceBy n).comments = c.comments := by
  induction n generalizing c with
  | zero => rfl
  | succ n ih => rw [advanceBy, ih, comments_advance]

/-- Reporting keeps all comments. -/
theorem comments_report (e : Diagnostic) (c : Cursor) : (c.report e).comments = c.comments := rfl

/-- Comments given back are in front of the others. -/
theorem comments_restore (comments : List String) (c : Cursor) :
    (c.restore comments).comments = comments ++ c.comments := List.append_assoc _ _ _

/-- Comments that are handed over are the first of all. -/
theorem comments_takeComments (c : Cursor) :
    c.availableComments ++ c.takeComments.comments = c.comments := by
  unfold availableComments commentsAhead takeComments comments
  rcases hrest : c.rest with _ | ⟨t, ts⟩
  · simp
  · simp

/-- Comments that are available stay in front of those that become available. -/
theorem availableComments_prefix_advanceBy (n : Nat) (c : Cursor) :
    c.availableComments <+: (c.advanceBy n).availableComments := by
  induction n generalizing c with
  | zero => exact List.prefix_refl _
  | succ n ih =>
    refine List.IsPrefix.trans ?_ (ih c.advance)
    unfold advance
    rcases hrest : c.rest with _ | ⟨t, ts⟩
    · exact List.prefix_refl _
    · unfold availableComments commentsAhead
      simp only [hrest]
      exact List.prefix_append _ _

end Cursor

/-- Moving without filing keeps all comments. -/
theorem Cursor.Moves.comments_eq {c d : Cursor} (h : c.Moves d) : d.comments = c.comments := by
  induction h with
  | refl => rfl
  | advance _ ih => exact (comments_advance _).trans ih
  | report _ _ _ ih =>
    rw [comments_report, comments_advance, comments_advance]
    exact ih

/-! ## Repetition up to its last round -/

namespace Parser

variable {α β σ : Type}

/-- The state and the cursor in front of the round that ends a repetition or fails. -/
def iterate.reached (step : σ → Parser (σ ⊕ α)) (h : ∀ s, (step s).Consumes) (s : σ)
    (c : Cursor) : σ × Cursor :=
  match _read : (step s).run c with
  | .ok (.inl s') d => iterate.reached step h s' d
  | .ok (.inr _) _ => (s, c)
  | .failed _ _ => (s, c)
termination_by c.rest.length
decreasing_by exact h s c _ d _read

section Reached

variable {step : σ → Parser (σ ⊕ α)} {h : ∀ s, (step s).Consumes} {s : σ} {c : Cursor}

/-- What holds at the start and is kept by each round holds in front of the last one. -/
theorem iterate.reached_of_invariant {I : σ → Cursor → Prop}
    (hround : ∀ s c s' d, I s c → (step s).run c = .ok (.inl s') d → I s' d) (hstart : I s c) :
    I (iterate.reached step h s c).1 (iterate.reached step h s c).2 := by
  fun_induction iterate.reached step h s c with
  | case1 s c s' d hread ih => exact ih (hround s c s' d hstart hread)
  | case2 s c a d hread => exact hstart
  | case3 s c e d hread => exact hstart

/-- The last round gives the answer of a repetition. -/
theorem iterate.run_reached (h : ∀ s, (step s).Consumes) (s : σ) (c : Cursor) :
    (∃ a d, (step (iterate.reached step h s c).1).run (iterate.reached step h s c).2 =
        .ok (.inr a) d ∧ (iterate step h s).run c = .ok a d) ∨
      ∃ e d, (step (iterate.reached step h s c).1).run (iterate.reached step h s c).2 =
        .failed e d ∧ (iterate step h s).run c = .failed e d := by
  fun_induction iterate.reached step h s c with
  | case1 s c s' d hread ih =>
    rw [run_iterate, hread]
    exact ih
  | case2 s c a d hread => exact Or.inl ⟨a, d, hread, by rw [run_iterate, hread]⟩
  | case3 s c e d hread => exact Or.inr ⟨e, d, hread, by rw [run_iterate, hread]⟩

end Reached

/-! ## Columns -/

/-- The comments filed with columns. -/
def columnComments (columns : List Column) : List String := columns.flatMap (·.comments)

/-- The comments of columns are those of each list in order. -/
theorem columnComments_append (xs ys : List Column) :
    columnComments (xs ++ ys) = columnComments xs ++ columnComments ys := List.flatMap_append

/-- The accounts of an answer. All comments are those that the value has filed and those of the
cursor. If there is no value, those that are lost take the place of those filed. -/
def Keeps (filed : α → List String) (lost all : List String) : Outcome α → Prop
  | .ok a d => filed a ++ d.comments = all
  | .failed _ d => lost ++ d.comments = all

/-- A plain parser files nothing, so it keeps the accounts. -/
theorem Plain.keeps {p : Parser α} (h : p.Plain) {filed : α → List String} {before : List String}
    (hfiled : ∀ a, filed a = before) (c : Cursor) :
    Keeps filed before (before ++ c.comments) (p.run c) := by
  rcases h.movesAt c with ⟨a, d, hread, hmoves⟩ | ⟨e, d, hread, hmoves, -⟩
  · rw [hread]
    show filed a ++ d.comments = _
    rw [hfiled, hmoves.comments_eq]
  · rw [hread]
    show before ++ d.comments = _
    rw [hmoves.comments_eq]

/-- A plain parser in front of another one. -/
theorem Plain.keeps_bind {p : Parser α} (h : p.Plain) {f : α → Parser β} {filed : β → List String}
    {lost all : List String} {c : Cursor} (hlost : lost ++ c.comments = all)
    (hf : ∀ a d, p.run c = .ok a d → d.comments = c.comments →
      Keeps filed lost all ((f a).run d)) :
    Keeps filed lost all ((p >>= f).run c) := by
  rw [run_bind]
  rcases h.movesAt c with ⟨a, d, hread, hmoves⟩ | ⟨e, d, hread, hmoves, -⟩
  · rw [hread]
    exact hf a d hread hmoves.comments_eq
  · rw [hread]
    show lost ++ d.comments = all
    rw [hmoves.comments_eq, hlost]

/-- A value that is put into another one. -/
theorem keeps_bind_pure {p : Parser α} {g : α → β} {filed : α → List String}
    {filed' : β → List String} {lost all : List String} {c : Cursor}
    (hp : Keeps filed lost all (p.run c)) (hg : ∀ a, filed' (g a) = filed a) :
    Keeps filed' lost all ((p >>= fun a => pure (g a)).run c) := by
  rw [run_bind]
  rcases hread : p.run c with ⟨a, d⟩ | ⟨e, d⟩
  · rw [hread] at hp
    show filed' (g a) ++ d.comments = all
    rw [hg]
    exact hp
  · rw [hread] at hp
    exact hp

/-- A column takes the comments in front of it. If it fails, none are lost. -/
theorem keeps_commentedColumn (c : Cursor) :
    Keeps (·.comments) [] c.comments (commentedColumn.run c) := by
  have htaken := c.comments_takeComments
  unfold commentedColumn
  rw [run_bind]
  simp only [takingComments]
  rcases plain_column.movesAt c.takeComments with ⟨x, d, hread, hmoves⟩ | ⟨e, d, hread, hmoves, -⟩
  · rw [hread]
    show c.availableComments ++ d.comments = c.comments
    rw [hmoves.comments_eq, htaken]
  · rw [hread]
    show [] ++ (d.restore c.availableComments).comments = c.comments
    rw [List.nil_append, Cursor.comments_restore, hmoves.comments_eq, htaken]

/-- A column behind others. -/
theorem keeps_next_column {filed : β → List String} {columns : List Column}
    {g : Column → β} (hg : ∀ x, filed (g x) = columnComments columns ++ x.comments) (c : Cursor) :
    Keeps filed (columnComments columns) (columnComments columns ++ c.comments)
      ((commentedColumn >>= fun x => pure (g x)).run c) := by
  have hcolumn := keeps_commentedColumn c
  rw [run_bind]
  rcases hread : commentedColumn.run c with ⟨x, d⟩ | ⟨e, d⟩
  · rw [hread] at hcolumn
    show filed (g x) ++ d.comments = _
    rw [hg, List.append_assoc]
    exact congrArg _ hcolumn
  · rw [hread] at hcolumn
    exact congrArg _ hcolumn

/-- A repetition files what its rounds file, and loses what has been filed in front of the round that
fails, or that this round loses itself. -/
theorem keeps_iterate {step : σ → Parser (σ ⊕ α)} {h : ∀ s, (step s).Consumes}
    (held : σ → List String) (filed : α → List String) (lost : σ → Cursor → List String)
    (hstep : ∀ s c, Keeps (fun r => r.elim held filed) (lost s c) (held s ++ c.comments)
      ((step s).run c)) (s : σ) (c : Cursor) :
    Keeps filed (lost (iterate.reached step h s c).1 (iterate.reached step h s c).2)
      (held s ++ c.comments) ((iterate step h s).run c) := by
  have hreached : held (iterate.reached step h s c).1 ++ (iterate.reached step h s c).2.comments =
      held s ++ c.comments := by
    refine iterate.reached_of_invariant (I := fun t d => held t ++ d.comments = _) ?_ rfl
    intro t d t' d' ht hread
    have hround := hstep t d
    rw [hread] at hround
    exact hround.trans ht
  have hlast := hstep (iterate.reached step h s c).1 (iterate.reached step h s c).2
  rw [hreached] at hlast
  rcases iterate.run_reached h s c with
    ⟨a, d, hround, hread⟩ | ⟨e, d, hround, hread⟩
  · rw [hround] at hlast
    rw [hread]
    exact hlast
  · rw [hround] at hlast
    rw [hread]
    exact hlast

/-- A round of a block keeps the accounts as its entry does, and loses nothing itself where there is no
entry. -/
theorem keeps_blockStep (construct name : String) (opening : Span)
    {entry : σ → TokenKind → Parser σ} {held : σ → List String} {lost all : List String} {s : σ}
    {c : Cursor} (hheld : held s ++ c.comments = all)
    (hlost : (∀ k, c.kind? = some k → k = .mark .rightBrace ∨ k.opensConstruct = true) →
      lost ++ c.comments = all)
    (hentry : ∀ k, c.kind? = some k → Keeps held lost all ((entry s k).run c)) :
    Keeps (fun r => r.elim held held) lost all
      ((blockStep construct name opening entry s).run c) := by
  rw [blockStep, run_kind?_bind]
  rcases hkind : c.kind? with _ | k
  · exact hlost (by simp [hkind])
  simp only
  split
  · next hbrace =>
    refine plain_any.keeps_bind (hlost (by simp [hkind, hbrace])) fun _ d _ hd => ?_
    show held s ++ d.comments = all
    rw [hd, hheld]
  split
  · next hopens => exact hlost (by simp [hkind, hopens])
  · exact keeps_bind_pure (hentry k hkind) fun _ => rfl

/-! ## Tables -/

/-- An entry of a table's body keeps the accounts of the comments on its columns. -/
theorem keeps_tableEntry (t : Table) (k : TokenKind) (c : Cursor) :
    Keeps (fun t => columnComments t.columns) (columnComments t.columns)
      (columnComments t.columns ++ c.comments) ((tableEntry t k).run c) := by
  refine Plain.secondKind?.keeps_bind rfl fun second d _ hd => ?_
  rw [← hd]
  split
  · exact plain_note.keeps_bind rfl fun _ _ _ hd' => congrArg _ hd'
  split
  · exact plain_indexes.keeps_bind rfl fun _ _ _ hd' => congrArg _ hd'
  split
  · exact keeps_next_column (fun x => by rw [columnComments_append]; simp [columnComments]) d
  · exact plain_any.keeps_bind rfl fun _ _ _ hd' => congrArg _ hd'

/-- Reads a table up to the brace that opens its block. -/
def tableHead (start : Span) : Parser (Table × Token) := do
  let tableName ← name "table name"
  let aliasName ← tableAlias?
  let head ← settings? tableSetting
    ⟨tableName.value, aliasName, [], [], none, none, none, none, start, []⟩
  let brace ← expect (.mark .leftBrace)
  return (head, brace)

/-- The head of a table files no comments. -/
theorem plain_tableHead (start : Span) : (tableHead start).Plain := by
  refine .bind (plain_name _) fun _ => .bind plain_tableAlias? fun _ => ?_
  exact .bind (plain_settings? (plain_apply .table) _) fun _ => .bind (plain_expect _) fun _ => .pure _

/-- A round of a table's block. -/
def tableRound (start : Span) (head : Table × Token) : Table → Parser (Table ⊕ Table) :=
  blockStep "table" head.1.name (start.through head.2.span) tableEntry

/-- A round of a table's body takes a token. -/
theorem consumes_tableRound (start : Span) (head : Table × Token) (t : Table) :
    (tableRound start head t).Consumes := consumes_blockStep consumes_tableEntry t

/-- A table is its head, the rounds of its body and its span. -/
theorem table_eq (start : Span) :
    table start = tableHead start >>= fun head =>
      iterate (tableRound start head) (consumes_tableRound start head) head.1 >>= fun t =>
        lastSpan >>= fun last => pure { t with span := start.through last } := by
  simp only [table, tableHead, bind_assoc, pure_bind]
  rfl

/-- Behind its head, a table has no columns and no indexes. -/
theorem tableHead_body (start : Span) :
    Yields Cursor.Anywhere (tableHead start) fun head =>
      head.1.columns = [] ∧ head.1.indexes = [] := by
  refine .later fun _ => .later fun _ => ?_
  refine .bind Cursor.isRegion_anywhere
    (P := fun t => t.columns = [] ∧ t.indexes = []) ?_ fun t ht => ?_
  · refine .settings? Cursor.isRegion_anywhere (fun t key ht => ?_) ⟨rfl, rfl⟩
    exact (tableSetting_body t key).mono fun _ h u hu =>
      ⟨(h u hu).1.trans ht.1, (h u hu).2.trans ht.2⟩
  · exact .later fun _ => .pure ht

/-- The columns that a table has read before it ends or fails. -/
def tableColumns (start : Span) (c : Cursor) : List Column :=
  match (tableHead start).run c with
  | .ok head d =>
    (iterate.reached (tableRound start head) (consumes_tableRound start head) head.1 d).1.columns
  | .failed _ _ => []

/-- A table takes the comments that its columns have, and those are lost if it fails. -/
theorem keeps_table (start : Span) (c : Cursor) :
    Keeps (fun t => columnComments t.columns) (columnComments (tableColumns start c)) c.comments
      ((table start).run c) := by
  rw [table_eq, run_bind]
  unfold tableColumns
  rcases (plain_tableHead start).movesAt c with ⟨head, d, hread, hmoves⟩ | ⟨e, d, hread, hmoves, -⟩
  · have hcolumns := (tableHead_body start c trivial head d hread).1
    have hblock := keeps_iterate (h := consumes_tableRound start head)
      (fun t => columnComments t.columns) (fun t => columnComments t.columns)
      (fun t _ => columnComments t.columns)
      (fun t c => keeps_blockStep _ _ _ rfl (fun _ => rfl) fun k _ => keeps_tableEntry t k c)
      head.1 d
    rw [hcolumns] at hblock
    simp only [hread]
    rw [← hmoves.comments_eq, run_bind]
    rcases hread' : (iterate (tableRound start head) (consumes_tableRound start head) head.1).run d
      with ⟨t, d'⟩ | ⟨e, d'⟩
    · rw [hread'] at hblock
      exact hblock
    · rw [hread'] at hblock
      exact hblock
  · simp only [hread]
    exact hmoves.comments_eq

/-! ## Areas -/

/-- Reads up to the bracket that opens a list of common columns. -/
def commonColumnsHead : Parser Token := do
  let _ ← expect (.keyword .commonColumns)
  let _ ← accept (.mark .colon)
  expect (.mark .leftBracket)

/-- The head of a list of common columns files no comments. -/
theorem plain_commonColumnsHead : commonColumnsHead.Plain :=
  .bind (plain_expect _) fun _ => .bind (.accept _) fun _ => plain_expect _

/-- A list of common columns is its head and the rounds behind it. -/
theorem commonColumns_eq :
    commonColumns = commonColumnsHead >>= fun _ =>
      iterate commonColumnsStep consumes_commonColumnsStep [] := by
  simp only [commonColumns, commonColumnsHead, bind_assoc]

/-- The columns that a list of common columns has read before it ends or fails. -/
def listedColumns (c : Cursor) : List Column :=
  match commonColumnsHead.run c with
  | .ok _ d => (iterate.reached commonColumnsStep consumes_commonColumnsStep [] d).1
  | .failed _ _ => []

/-- A round of a list of common columns keeps the accounts of the comments on them. -/
theorem keeps_commonColumnsStep (columns : List Column) (c : Cursor) :
    Keeps (fun r => r.elim columnComments columnComments) (columnComments columns)
      (columnComments columns ++ c.comments) ((commonColumnsStep columns).run c) := by
  rw [commonColumnsStep, run_kind?_bind]
  rcases hkind : c.kind? with _ | k
  · rfl
  simp only
  split
  · exact plain_any.keeps_bind rfl fun _ _ _ hd => congrArg _ hd
  split
  · rfl
  split
  · refine keeps_next_column (fun x => ?_) c
    show columnComments (columns ++ [x]) = _
    rw [columnComments_append]
    simp [columnComments]
  · exact plain_any.keeps_bind rfl fun _ _ _ hd => congrArg _ hd

/-- A list of common columns takes the comments that its columns have, and those are lost if it
fails. -/
theorem keeps_commonColumns (c : Cursor) :
    Keeps columnComments (columnComments (listedColumns c)) c.comments (commonColumns.run c) := by
  rw [commonColumns_eq, run_bind]
  unfold listedColumns
  rcases plain_commonColumnsHead.movesAt c with ⟨t, d, hread, hmoves⟩ | ⟨e, d, hread, hmoves, -⟩
  · simp only [hread]
    rw [← hmoves.comments_eq]
    exact keeps_iterate columnComments columnComments (fun columns _ => columnComments columns)
      keeps_commonColumnsStep [] d
  · simp only [hread]
    exact hmoves.comments_eq

/-- Without the keyword there is no list of common columns. -/
theorem listedColumns_of_ne {c : Cursor} (h : c.kind? ≠ some (.keyword .commonColumns)) :
    listedColumns c = [] := by
  unfold listedColumns commonColumnsHead expect
  rw [run_bind]
  rcases run_take_cases (fun t => t.kind == .keyword .commonColumns)
    (TokenKind.keyword .commonColumns).description c with ⟨t, ts, hrest, hkind, -⟩ | hread
  · refine absurd ?_ h
    rw [Cursor.kind?, hrest, ← beq_iff_eq.1 hkind]
    rfl
  · rw [hread]

/-- A line with a setting leaves the common columns alone. -/
theorem settingLine_commonColumns (a : Area) :
    Yields Cursor.Anywhere (settingLine areaSetting a) fun b =>
      b.commonColumns = a.commonColumns := by
  refine .later fun key => ?_
  refine .bind Cursor.isRegion_anywhere (areaSetting_commonColumns a key) fun b hb => ?_
  rcases b with _ | b
  · exact .later fun _ => .pure rfl
  · exact .pure (hb b rfl)

/-- An entry of an area files the columns of a list of common columns. -/
theorem keeps_areaEntry (a : Area) {k : TokenKind} {c : Cursor} (hk : c.kind? = some k) :
    Keeps (fun a => columnComments a.commonColumns)
      (columnComments (a.commonColumns ++ listedColumns c))
      (columnComments a.commonColumns ++ c.comments) ((areaEntry a k).run c) := by
  have hother (h : k ≠ .keyword .commonColumns) : listedColumns c = [] := by
    refine listedColumns_of_ne fun hc => h ?_
    rw [hk] at hc
    exact Option.some.inj hc
  show Keeps _ _ _ (Parser.run (if k = .keyword .note ∧ isColonOrBrace c.secondKind? = true then _
    else _) c)
  split
  · next hnote =>
    rw [hother (by rw [hnote.1]; decide), List.append_nil]
    exact plain_note.keeps_bind rfl fun _ _ _ hd => congrArg _ hd
  split
  -- the columns that were read before the list broke off are lost with it
  · have hlisted := keeps_commonColumns c
    rw [run_bind]
    rcases hread : commonColumns.run c with ⟨more, d⟩ | ⟨e, d⟩
    · rw [hread] at hlisted
      show columnComments (a.commonColumns ++ more) ++ d.comments = _
      rw [columnComments_append, List.append_assoc]
      exact congrArg _ hlisted
    · rw [hread] at hlisted
      show columnComments (a.commonColumns ++ listedColumns c) ++ d.comments = _
      rw [columnComments_append, List.append_assoc]
      exact congrArg _ hlisted
  split
  · next hcommon _ =>
    rw [hother hcommon, List.append_nil]
    have hline : (settingLine areaSetting a).Plain := plain_settingLine (plain_apply .area) a
    rcases hline.movesAt c with
      ⟨b, d, hread, hmoves⟩ | ⟨e, d, hread, hmoves, -⟩
    · rw [hread]
      show columnComments b.commonColumns ++ d.comments = _
      rw [settingLine_commonColumns a c trivial b d hread, hmoves.comments_eq]
    · rw [hread]
      show columnComments a.commonColumns ++ d.comments = _
      rw [hmoves.comments_eq]
  split
  · next hcommon _ _ =>
    rw [hother hcommon, List.append_nil]
    exact (plain_name _).keeps_bind rfl fun _ _ _ hd => congrArg _ hd
  · next hcommon _ _ =>
    rw [hother hcommon, List.append_nil]
    exact plain_any.keeps_bind rfl fun _ _ _ hd => congrArg _ hd

/-- Reads an area up to the brace that opens its block. -/
def areaHead (start : Span) : Parser (Area × Token) := do
  let areaName ← name "area name"
  let head ← settings? areaSetting
    ⟨areaName.value, [], none, none, none, none, none, none, none, none, [], none, start, []⟩
  let brace ← expect (.mark .leftBrace)
  return (head, brace)

/-- The head of an area files no comments. -/
theorem plain_areaHead (start : Span) : (areaHead start).Plain :=
  .bind (plain_name _) fun _ => .bind (plain_settings? (plain_apply .area) _) fun _ =>
    .bind (plain_expect _) fun _ => .pure _

/-- A round of an area's block. -/
def areaRound (start : Span) (head : Area × Token) : Area → Parser (Area ⊕ Area) :=
  blockStep "area" head.1.name (start.through head.2.span) areaEntry

/-- A round of an area's body takes a token. -/
theorem consumes_areaRound (start : Span) (head : Area × Token) (a : Area) :
    (areaRound start head a).Consumes := consumes_blockStep consumes_areaEntry a

/-- An area is its head, the rounds of its body and its span. -/
theorem area_eq (start : Span) :
    area start = areaHead start >>= fun head =>
      iterate (areaRound start head) (consumes_areaRound start head) head.1 >>= fun a =>
        lastSpan >>= fun last => pure { a with span := start.through last } := by
  simp only [area, areaHead, bind_assoc, pure_bind]
  rfl

/-- Behind its head, an area has no common columns. -/
theorem areaHead_commonColumns (start : Span) :
    Yields Cursor.Anywhere (areaHead start) fun head => head.1.commonColumns = [] := by
  refine .later fun _ => ?_
  refine .bind Cursor.isRegion_anywhere (P := fun a => a.commonColumns = []) ?_ fun a ha => ?_
  · refine .settings? Cursor.isRegion_anywhere (fun a key ha => ?_) rfl
    exact (areaSetting_commonColumns a key).mono fun _ h b hb => (h b hb).trans ha
  · exact .later fun _ => .pure ha

/-- The common columns that an area has read before it ends or fails, also those of a list that
fails. -/
def areaColumns (start : Span) (c : Cursor) : List Column :=
  match (areaHead start).run c with
  | .ok head d =>
    let (a, e) := iterate.reached (areaRound start head) (consumes_areaRound start head) head.1 d
    a.commonColumns ++ listedColumns e
  | .failed _ _ => []

/-- An area takes the comments that its common columns have, and those are lost if it fails. -/
theorem keeps_area (start : Span) (c : Cursor) :
    Keeps (fun a => columnComments a.commonColumns) (columnComments (areaColumns start c))
      c.comments ((area start).run c) := by
  rw [area_eq, run_bind]
  unfold areaColumns
  rcases (plain_areaHead start).movesAt c with ⟨head, d, hread, hmoves⟩ | ⟨e, d, hread, hmoves, -⟩
  · have hcolumns := areaHead_commonColumns start c trivial head d hread
    have hblock := keeps_iterate (h := consumes_areaRound start head)
      (fun a => columnComments a.commonColumns) (fun a => columnComments a.commonColumns)
      (fun a c => columnComments (a.commonColumns ++ listedColumns c))
      (fun a c => keeps_blockStep _ _ _ rfl ?_ fun k hk => keeps_areaEntry a hk) head.1 d
    · rw [hcolumns] at hblock
      simp only [hread]
      rw [← hmoves.comments_eq, run_bind]
      rcases hread' : (iterate (areaRound start head) (consumes_areaRound start head) head.1).run d
        with ⟨a, d'⟩ | ⟨e, d'⟩
      · rw [hread'] at hblock
        exact hblock
      · rw [hread'] at hblock
        exact hblock
    · intro hno
      rw [listedColumns_of_ne, List.append_nil]
      intro hk
      rcases hno _ hk with h | h <;> cases h
  · simp only [hread]
    exact hmoves.comments_eq

end Parser

/-! ## Attempts -/

/-- The columns of a construct. -/
def Construct.columns : Construct → List Column
  | table t => t.columns
  | area a => a.commonColumns
  | _ => []

/-- The comments filed with a construct and with its columns. -/
def Construct.allComments (x : Construct) : List String :=
  x.comments ++ Parser.columnComments x.columns

/-- Comments on a construct are not comments on its columns. -/
@[simp] theorem Construct.columns_withComments (comments : List String) (x : Construct) :
    (x.withComments comments).columns = x.columns := by
  cases x <;> rfl

/-- The columns that an attempt has read before it ends or fails. -/
def Attempt.columns (a : Attempt) : List Column :=
  match a.start.rest with
  | [] => []
  | t :: _ =>
    match t.token.kind with
    | .keyword .table => Parser.tableColumns t.token.span a.start.takeComments.advance
    | .keyword .area => Parser.areaColumns t.token.span a.start.takeComments.advance
    | _ => []

variable {c : Cursor} {t : CommentedToken} {ts : List CommentedToken}

/-- What an attempt does not take away at its start goes to its columns or stays. -/
theorem Cursor.keeps_construct (hrest : c.rest = t :: ts) :
    Parser.Keeps (fun x => Parser.columnComments x.columns)
      (Parser.columnComments (Attempt.columns ⟨c, c.construct t.token⟩)) c.takeComments.comments
      (c.construct t.token) := by
  rw [← comments_advance]
  unfold Attempt.columns Cursor.construct
  simp only [hrest]
  rcases hkind : t.token.kind with k | _ | _ | _ | _ | _ | _ | _
  case keyword =>
    cases k
    case project =>
      exact Parser.keeps_bind_pure
        ((Parser.plain_project _).keeps (fun _ => (rfl : _ = [])) _) fun _ => rfl
    case table => exact Parser.keeps_bind_pure (Parser.keeps_table _ _) fun _ => rfl
    case ref =>
      exact Parser.keeps_bind_pure
        ((Parser.plain_reference _).keeps (fun _ => (rfl : _ = [])) _) fun _ => rfl
    case area => exact Parser.keeps_bind_pure (Parser.keeps_area _ _) fun _ => rfl
    all_goals exact (comments_advance _).symm
  all_goals exact (comments_advance _).symm

/-- The comments behind an attempt that files a construct are those ahead of it without those of the
construct. -/
theorem Cursor.comments_of_filed (hrest : c.rest = t :: ts) {x : Construct}
    (hx : x ∈ Attempt.filed? ⟨c, c.construct t.token⟩) :
    x.allComments ++ (c.behind (c.construct t.token)).comments = c.comments := by
  have hkeeps := keeps_construct hrest
  unfold Attempt.filed? at hx
  rcases hread : c.construct t.token with ⟨y, d⟩ | ⟨e, d⟩
  · rw [hread] at hx hkeeps
    cases hx
    rw [Construct.allComments, Construct.comments_withComments, Construct.columns_withComments,
      List.append_assoc, ← c.comments_takeComments]
    exact congrArg _ hkeeps
  · rw [hread] at hx
    cases hx

/-- An attempt that fails loses the comments of the columns that it has read, and gives back those
that it has taken. -/
theorem Cursor.comments_of_failed (hrest : c.rest = t :: ts) {e : Diagnostic} {d : Cursor}
    (hread : c.construct t.token = .failed e d) :
    c.availableComments ++ Parser.columnComments (Attempt.columns ⟨c, c.construct t.token⟩) ++
        d.comments = c.comments ∧
      (c.behind (.failed e d)).comments = c.availableComments ++ d.comments := by
  have hkeeps := keeps_construct hrest
  constructor
  · rw [hread] at hkeeps ⊢
    rw [List.append_assoc, ← c.comments_takeComments]
    exact congrArg _ hkeeps
  · rw [behind, resume, comments_advanceBy, comments_report, comments_restore]

/-- The comments of the constructs and those left at the end are those ahead, in their order. All of
them are there if no attempt fails. -/
theorem readConstructs_comments (c : Cursor) :
    ((readConstructs c).1.flatMap Construct.allComments ++
        (readConstructs c).2.comments).Sublist c.comments ∧
      ((attempts c).filterMap Attempt.diagnostic? = [] →
        (readConstructs c).1.flatMap Construct.allComments ++ (readConstructs c).2.comments =
          c.comments) := by
  -- along the attempts: one that fails loses the comments of its columns and gives the others back
  fun_induction attempts c with
  | case1 c hrest =>
    rw [readConstructs_of_nil hrest]
    exact ⟨List.Sublist.refl _, fun _ => rfl⟩
  | case2 c t ts hrest ih =>
    obtain ⟨hsublist, hall⟩ := ih
    rw [readConstructs_of_cons hrest]
    rcases hread : c.construct t.token with ⟨x, d⟩ | ⟨e, d⟩
    · have hcomments := Cursor.comments_of_filed (x := x.withComments c.availableComments) hrest
        (by rw [hread]; rfl)
      rw [hread] at hsublist hall hcomments
      simp only [Attempt.filed?_ok, Option.toList_some, List.singleton_append, List.flatMap_cons,
        List.append_assoc]
      rw [← hcomments]
      refine ⟨hsublist.append_left _, fun hnone => congrArg _ (hall ?_)⟩
      rwa [List.filterMap_cons_none (Attempt.diagnostic?_ok _ _ _)] at hnone
    · obtain ⟨hcomments, hbehind⟩ := Cursor.comments_of_failed hrest hread
      rw [hread] at hsublist hall
      simp only [Attempt.filed?_failed, Option.toList_none, List.nil_append]
      refine ⟨hsublist.trans ?_, fun hnone => ?_⟩
      · rw [hbehind, ← hcomments, List.append_assoc]
        exact (List.sublist_append_right _ _).append_left _
      · rw [List.filterMap_cons_some (Attempt.diagnostic?_failed _ _ _)] at hnone
        cases hnone

/-- The comments that are available go to the next construct that is filed. -/
theorem availableComments_prefix_filed (c : Cursor) :
    ∀ x ∈ ((attempts c).filterMap Attempt.filed?).head?, c.availableComments <+: x.comments := by
  fun_induction attempts c with
  | case1 c hrest =>
    intro x hx
    cases hx
  | case2 c t ts hrest ih =>
    intro x hx
    rcases hread : c.construct t.token with ⟨y, d⟩ | ⟨e, d⟩
    · rw [hread, List.filterMap_cons_some (Attempt.filed?_ok _ _ _)] at hx
      cases hx
      exact ⟨[], by rw [List.append_nil, Construct.comments_withComments]⟩
    · rw [hread, List.filterMap_cons_none (Attempt.filed?_failed _ _ _)] at hx
      rw [hread] at ih
      refine List.IsPrefix.trans ?_ (ih x hx)
      refine List.IsPrefix.trans ?_ (Cursor.availableComments_prefix_advanceBy _ _)
      exact ⟨d.availableComments, (List.append_assoc _ _ _).symm⟩

/-- The attempts behind one of them start where it left off. -/
theorem attempts_eq_append {before after : List Attempt} {a : Attempt} {c : Cursor}
    (h : attempts c = before ++ a :: after) :
    (∃ t ts, a.start.rest = t :: ts ∧ a.outcome = a.start.construct t.token) ∧
      after = attempts (a.start.behind a.outcome) := by
  fun_induction attempts c generalizing before with
  | case1 c hrest => simp at h
  | case2 c t ts hrest ih =>
    rcases before with _ | ⟨b, before⟩
    · obtain ⟨rfl, rfl⟩ := List.cons.inj h
      exact ⟨⟨t, ts, hrest, rfl⟩, rfl⟩
    · exact ih (List.cons.inj h).2

/-! ## Comments of token lists -/

/-- The texts of the line comments in their order. -/
def commentTexts (ts : List Token) : List String :=
  (ts.filter fun t => t.kind = .comment).map Token.commentText

/-- Gathering loses no comment, up to the token that ends the input. -/
theorem commentTexts_gatherComments {ts : List Token}
    (h : ∀ t ∈ ts.dropLast, t.kind ≠ .endOfInput) (comments : List String) :
    (gatherComments comments ts).1.flatMap (·.comments) ++ (gatherComments comments ts).2 =
      comments ++ commentTexts ts := by
  induction ts generalizing comments with
  | nil => simp [gatherComments, commentTexts]
  | cons t ts ih =>
    rw [gatherComments]
    by_cases hend : t.kind = .endOfInput
    · -- nothing stands behind the end
      have hnil : ts = [] := by
        rcases ts with _ | ⟨u, us⟩
        · rfl
        · exact absurd hend (h t (by simp))
      simp [hnil, hend, commentTexts]
    have hothers : ∀ u ∈ ts.dropLast, u.kind ≠ .endOfInput := by
      intro u hu
      rcases ts with _ | ⟨v, vs⟩
      · cases hu
      · exact h u (List.mem_cons_of_mem _ hu)
    by_cases hcomment : t.kind = .comment
    · rw [if_neg hend, if_pos hcomment, ih hothers]
      simp [commentTexts, hcomment]
    · rw [if_neg hend, if_neg hcomment]
      have := ih hothers []
      simp only [List.flatMap_cons, List.append_assoc]
      rw [this]
      simp [commentTexts, hcomment]

/-- Line comments are neither repeated, nor do they change places, nor are they lost. The comments
filed with the constructs and their columns are comments of the document, in their order. If nothing
is wrong but values of settings, all of them are there, those behind the last construct apart. The
constructs are those that the attempts file, and an attempt that fails loses only the comments of the
columns that it has read: those in front of it and all others that it has come past are the first of
the next construct. -/
theorem ofTokens_comments (ts : List Token) (h : ∀ t ∈ ts.dropLast, t.kind ≠ .endOfInput) :
    ((ofTokens ts).document.constructs.flatMap Construct.allComments).Sublist (commentTexts ts) ∧
      ((∀ e ∈ (ofTokens ts).diagnostics, e.isInvalidValue = true) →
        (ofTokens ts).document.constructs.flatMap Construct.allComments ++ waitingComments ts =
          commentTexts ts) ∧
      (ofTokens ts).document.constructs = (attempts (.ofTokens ts)).filterMap Attempt.filed? ∧
      ∀ before a after e d, attempts (.ofTokens ts) = before ++ a :: after →
        a.outcome = .failed e d →
          a.start.comments =
              a.start.availableComments ++ Parser.columnComments a.columns ++ d.comments ∧
            ∀ x ∈ (after.filterMap Attempt.filed?).head?,
              a.start.availableComments ++ d.availableComments <+: x.comments := by
  obtain ⟨hsublist, hall⟩ := readConstructs_comments (.ofTokens ts)
  have htexts : (Cursor.ofTokens ts).comments ++ (gatherComments [] ts).2 = commentTexts ts :=
    commentTexts_gatherComments h []
  have hlast : (readConstructs (.ofTokens ts)).2.comments =
      (readConstructs (.ofTokens ts)).2.pending := by
    rw [Cursor.comments, rest_readConstructs, List.flatMap_nil, List.append_nil]
  refine ⟨?_, ?_, constructs_eq_filterMap_attempts _, ?_⟩
  · rw [← htexts]
    exact ((List.sublist_append_left _ _).trans hsublist).trans (List.sublist_append_left _ _)
  · intro hinvalid
    obtain ⟨new, hreported, hfilter, -⟩ := readConstructs_pays (.ofTokens ts)
    have hnone : (attempts (.ofTokens ts)).filterMap Attempt.diagnostic? = [] := by
      rw [← hfilter, List.filter_eq_nil_iff]
      intro e he
      have hdiagnostics : (ofTokens ts).diagnostics = new := hreported
      simp [hinvalid e (hdiagnostics ▸ he)]
    rw [← htexts, ← hall hnone, hlast, List.append_assoc]
    rfl
  · intro before a after e d hattempts hfailed
    obtain ⟨⟨t, others, hrest, hread⟩, hafter⟩ := attempts_eq_append hattempts
    rw [hfailed] at hread
    obtain ⟨hcomments, -⟩ := Cursor.comments_of_failed hrest hread.symm
    refine ⟨?_, fun x hx => ?_⟩
    · rw [← hcomments]
      rcases a with ⟨c, o⟩
      simp only at hfailed hread
      rw [← hread, hfailed]
    · rw [hafter, hfailed] at hx
      refine List.IsPrefix.trans ?_ (availableComments_prefix_filed _ x hx)
      refine List.IsPrefix.trans ?_ (Cursor.availableComments_prefix_advanceBy _ _)
      rw [Cursor.availableComments, Cursor.availableComments, ← List.append_assoc]
      exact List.prefix_refl _

/-- A table that fails in its second column, and a reference behind it, with comments in front of the
table, of each column, inside the second column and in front of the reference. -/
def failingTable : List Token :=
  [⟨.comment, default, "// table"⟩, ⟨.keyword .table, default, "Table"⟩,
    ⟨.identifier, default, "users"⟩, ⟨.mark .leftBrace, default, "\x7b"⟩,
    ⟨.comment, default, "// first"⟩, ⟨.identifier, default, "id"⟩, ⟨.identifier, default, "int"⟩,
    ⟨.comment, default, "// second"⟩, ⟨.identifier, default, "name"⟩,
    ⟨.comment, default, "// inside"⟩, ⟨.mark .comma, default, ","⟩,
    ⟨.mark .rightBrace, default, "\x7d"⟩, ⟨.comment, default, "// reference"⟩,
    ⟨.keyword .ref, default, "Ref"⟩, ⟨.identifier, default, "a"⟩, ⟨.mark .dot, default, "."⟩,
    ⟨.identifier, default, "b"⟩, ⟨.mark .greater, default, ">"⟩, ⟨.identifier, default, "c"⟩,
    ⟨.mark .dot, default, "."⟩, ⟨.identifier, default, "d"⟩, ⟨.endOfInput, default, ""⟩]

/-- The attempt at the table loses the comment of its first column. The comment in front of the table
and those of the second column are the first of the reference. -/
theorem ofTokens_comments_failingTable :
    (∀ t ∈ failingTable.dropLast, t.kind ≠ .endOfInput) ∧
      commentTexts failingTable = ["table", "first", "second", "inside", "reference"] ∧
      (ofTokens failingTable).document.constructs.map Construct.allComments =
        [["table", "second", "inside", "reference"]] ∧
      ((ofTokens failingTable).document.constructs.flatMap Construct.allComments).Sublist
        (commentTexts failingTable) ∧
      ∃ a after e d, attempts (.ofTokens failingTable) = a :: after ∧ a.outcome = .failed e d ∧
        a.start.comments = a.start.availableComments ++ ["first"] ++ d.comments ∧
        ∀ x ∈ (ofTokens failingTable).document.constructs.head?,
          ["table", "second", "inside"] <+: x.comments := by
  have hend : ∀ t ∈ failingTable.dropLast, t.kind ≠ .endOfInput := by decide
  obtain ⟨hsublist, -, hconstructs, hfailed⟩ := ofTokens_comments failingTable hend
  let start := Cursor.ofTokens failingTable
  have hattempts : attempts start = [] ++ _ :: _ := attempts_of_cons (c := start) rfl
  have hnone : Attempt.filed?
      ⟨start, start.construct ⟨.keyword .table, default, "Table"⟩⟩ = none := by
    decide +kernel
  have hgiven : (start.construct ⟨.keyword .table, default, "Table"⟩).cursor.availableComments =
      ["second", "inside"] := by
    decide +kernel
  have hcolumns : Parser.columnComments (Attempt.columns
      ⟨start, start.construct ⟨.keyword .table, default, "Table"⟩⟩) = ["first"] := by
    decide +kernel
  rcases hread : start.construct ⟨.keyword .table, default, "Table"⟩ with ⟨x, d⟩ | ⟨e, d⟩
  · rw [hread] at hnone
    cases hnone
  · obtain ⟨hcomments, hprefix⟩ := hfailed _ _ _ e d hattempts hread
    rw [hcolumns] at hcomments
    have hbehind : d.availableComments = ["second", "inside"] := by rwa [hread] at hgiven
    rw [hbehind] at hprefix
    refine ⟨hend, by decide +kernel, by decide +kernel, hsublist, _, _, e, d, hattempts, hread,
      hcomments, fun x hx => hprefix x ?_⟩
    rw [hconstructs, hattempts, List.nil_append, List.filterMap_cons_none hnone] at hx
    exact hx

end SchemaDiagram.Document
