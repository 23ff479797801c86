import SchemaDiagram.Proofs.Document.Gaps
import SchemaDiagram.Proofs.Document.Parts

/-!
# Lists of settings within constructs

Where a list of settings can stand, reading the construct around it comes down to reading the list
and then the rest of the construct. `ReachesList` tells where that is, by what is read of the
construct in front of the list: its own opening, or the head and some rounds of a block and the
opening of a part in it. `Parser.Resumes` is what it comes to: whatever stands behind the list,
what comes of reading the construct follows in one and the same way from what comes of reading the
list, whether a construct is read in the end or not.

Main statement: `ReachesList.resumes`.
-/

namespace SchemaDiagram.Document

open SchemaDiagram.Document.Parser

/-! ## What stands in front of a list -/

/-- Rounds of a repetition that go on with a new state. -/
inductive Rounds {α σ : Type} (step : σ → Parser (σ ⊕ α)) (s : σ) (c : Cursor) : σ → Cursor → Prop
  | refl : Rounds step s c s c
  | next {t u : σ} {d e : Cursor} (h : Rounds step s c t d)
    (hread : (step t).run d = .ok (.inl u) e) : Rounds step s c u e

namespace Parser

/-- Reads what stands in front of the settings of a project. -/
def projectOpening (start : Span) : Parser Project := do
  let projectName ← name "project name"
  return ⟨projectName.value, none, none, start, []⟩

/-- Reads what stands in front of the settings of a table. -/
def tableOpening (start : Span) : Parser Table := do
  let tableName ← name "table name"
  let aliasName ← tableAlias?
  return ⟨tableName.value, aliasName, [], [], none, none, none, none, start, []⟩

/-- Reads what stands in front of the settings of an area. -/
def areaOpening (start : Span) : Parser Area := do
  let areaName ← name "area name"
  return ⟨areaName.value, [], none, none, none, none, none, none, none, none, [], none, start, []⟩

/-- Reads what stands in front of the settings of a reference and tells whether it is in braces. -/
def referenceOpening (start : Span) : Parser (Bool × Reference) := do
  let referenceName ← referenceName?
  let _ ← accept (.mark .colon)
  let isBraced ← accept (.mark .leftBrace)
  let source ← endpoint
  let relationship ← relationship
  let target ← endpoint
  return (isBraced, ⟨referenceName, source, target, relationship, none, none, start, []⟩)

/-- Reads what stands in front of the settings of a column: its name, its type and the text in
parentheses. -/
def columnOpening : Parser (Token × Token × Option String) := do
  let columnName ← name "column name"
  let type ← name "column type"
  let params ← parenthesized?
  return (columnName, type, params)

/-- Reads the opening of a block of indexes. -/
def indexesOpening : Parser Span := do
  let keyword ← expect (.keyword .indexes)
  let brace ← expect (.mark .leftBrace)
  return keyword.span.through brace.span

/-- A round of a block of indexes. -/
def indexesRound (opening : Span) : List Index → Parser (List Index ⊕ List Index) :=
  blockStep "indexes" "indexes" opening indexesEntry

end Parser

/-- A block of indexes is next. -/
def Cursor.AtIndexes (c : Cursor) : Prop :=
  c.kind? = some (.keyword .indexes) ∧ c.secondKind? = some (.mark .leftBrace)

/-- A column is next in a block: a name that opens neither a note nor a block of indexes. -/
structure Cursor.AtColumn (c : Cursor) (k : TokenKind) : Prop where
  /-- The kind of the next token. -/
  kind : c.kind? = some k
  /-- It is a name. -/
  isName : k.isName = true
  /-- It opens no note. -/
  notNote : ¬ (k = .keyword .note ∧ isColonOrBrace c.secondKind? = true)
  /-- It opens no block of indexes. -/
  notIndexes : ¬ (k = .keyword .indexes ∧ c.secondKind? = some (.mark .leftBrace))

/-- With two tokens left, a block of indexes is next whatever stands behind them. -/
theorem Cursor.AtIndexes.of_before {c : Cursor} {r : List CommentedToken}
    (h : (c.before r).AtIndexes) (hlength : 2 ≤ c.rest.length) : c.AtIndexes := by
  have hne : c.rest ≠ [] := List.ne_nil_of_length_pos (by omega)
  exact ⟨(kind?_before hne).symm.trans h.1, (secondKind?_before hlength).symm.trans h.2⟩

/-- With two tokens left, a column is next whatever stands behind them. -/
theorem Cursor.AtColumn.of_before {c : Cursor} {r : List CommentedToken} {k : TokenKind}
    (h : (c.before r).AtColumn k) (hlength : 2 ≤ c.rest.length) : c.AtColumn k := by
  have hne : c.rest ≠ [] := List.ne_nil_of_length_pos (by omega)
  obtain ⟨hkind, hname, hnote, hindexes⟩ := h
  rw [secondKind?_before hlength] at hnote hindexes
  exact ⟨(kind?_before hne).symm.trans hkind, hname, hnote, hindexes⟩

/-- Reading the construct of a keyword from the cursor behind it comes to a cursor in front of a
list of settings, with the settings that it has without the list. -/
inductive ReachesList (k : Token) (c : Cursor) : (l : ListKind) → l.State → Cursor → Prop
  | project {p : Project} {d : Cursor} (hk : k.kind = .keyword .project)
    (hread : (projectOpening k.span).run c = .ok p d) : ReachesList k c .project p d
  | table {t : Table} {d : Cursor} (hk : k.kind = .keyword .table)
    (hread : (tableOpening k.span).run c = .ok t d) : ReachesList k c .table t d
  | area {a : Area} {d : Cursor} (hk : k.kind = .keyword .area)
    (hread : (areaOpening k.span).run c = .ok a d) : ReachesList k c .area a d
  | reference {isBraced : Bool} {r : Reference} {d : Cursor} (hk : k.kind = .keyword .ref)
    (hread : (referenceOpening k.span).run c = .ok (isBraced, r) d) : ReachesList k c .reference r d
  | column {head : Table × Token} {t : Table} {next : TokenKind}
    {opening : Token × Token × Option String} {c₁ c₂ d : Cursor} (hk : k.kind = .keyword .table)
    (hhead : (tableHead k.span).run c = .ok head c₁)
    (hrounds : Rounds (tableRound k.span head) head.1 c₁ t c₂) (hnext : c₂.AtColumn next)
    (hread : columnOpening.run c₂.takeComments = .ok opening d) : ReachesList k c .column .none d
  | index {head : Table × Token} {t : Table} {opening start : Span} {indexes : List Index}
    {next : TokenKind} {columns : List String} {c₁ c₂ c₃ c₄ d : Cursor}
    (hk : k.kind = .keyword .table) (hhead : (tableHead k.span).run c = .ok head c₁)
    (hrounds : Rounds (tableRound k.span head) head.1 c₁ t c₂) (hindexes : c₂.AtIndexes)
    (hopening : indexesOpening.run c₂ = .ok opening c₃)
    (hrounds' : Rounds (indexesRound opening) [] c₃ indexes c₄) (hkind : c₄.kind? = some next)
    (hnext : next = .mark .leftParen ∨ isIndexColumn next = true)
    (hstart : nextSpan.run c₄ = .ok start c₄) (hread : indexColumns.run c₄ = .ok columns d) :
    ReachesList k c .index ⟨columns, false, false, none, start⟩ d
  | commonColumn {head : Area × Token} {a : Area} {bracket : Token} {columns : List Column}
    {next : TokenKind} {opening : Token × Token × Option String} {c₁ c₂ c₃ c₄ d : Cursor}
    (hk : k.kind = .keyword .area) (hhead : (areaHead k.span).run c = .ok head c₁)
    (hrounds : Rounds (areaRound k.span head) head.1 c₁ a c₂)
    (hcommon : c₂.kind? = some (.keyword .commonColumns))
    (hopening : commonColumnsHead.run c₂ = .ok bracket c₃)
    (hrounds' : Rounds commonColumnsStep [] c₃ columns c₄) (hkind : c₄.kind? = some next)
    (hnext : next.isName = true) (hread : columnOpening.run c₄.takeComments = .ok opening d) :
    ReachesList k c .column .none d

/-! ## Diagnostics from before -/

section Inserted

variable {α β : Type} {new : List Diagnostic} {c d : Cursor} {o o' : Outcome α}

/-- The same cursor with more diagnostics among those so far. -/
def Cursor.Inserted (new : List Diagnostic) (c d : Cursor) : Prop :=
  ∃ xs ys, c.reported = xs ++ ys ∧ d = c.withReported (xs ++ new ++ ys)

/-- The same answer at a cursor with more diagnostics among those so far. -/
inductive Outcome.Inserted (new : List Diagnostic) : Outcome α → Outcome α → Prop
  | ok {a : α} {c d : Cursor} (h : c.Inserted new d) : Inserted new (.ok a c) (.ok a d)
  | failed {x : Diagnostic} {c d : Cursor} (h : c.Inserted new d) :
    Inserted new (.failed x c) (.failed x d)

/-- Inserting no diagnostics changes nothing. -/
theorem Cursor.inserted_nil (c : Cursor) : c.Inserted [] c := ⟨[], c.reported, rfl, rfl⟩

/-- An answer with no diagnostics inserted is the same answer. -/
theorem Outcome.inserted_nil (o : Outcome α) : o.Inserted [] o := by
  cases o with
  | ok a c => exact .ok c.inserted_nil
  | failed x c => exact .failed c.inserted_nil

/-- Diagnostics from before can be followed by more of them. -/
theorem Cursor.inserted_within (xs new : List Diagnostic) (c : Cursor) :
    (c.within (.behindNothing xs)).Inserted new (c.within (.behindNothing (xs ++ new))) := by
  rw [within_behindNothing, within_behindNothing]
  exact ⟨xs, c.reported, rfl, rfl⟩

/-- What a parser answers does not depend on the diagnostics so far. -/
theorem Parser.Isolated.inserted {p : Parser α} (hp : p.Isolated) (h : c.Inserted new d) :
    (p.run c).Inserted new (p.run d) := by
  obtain ⟨xs, ys, hreported, rfl⟩ := h
  have hrun (before : List Diagnostic) : p.run (c.withReported (before ++ ys)) =
      (p.run (c.withReported ys)).within (.behindNothing before) := by
    rw [← hp, Cursor.within_behindNothing]
    rfl
  have hc : p.run c = (p.run (c.withReported ys)).within (.behindNothing xs) := by
    rw [← hrun, ← hreported]
    rfl
  rw [hc, hrun]
  cases p.run (c.withReported ys) with
  | ok a e => exact .ok (e.inserted_within xs new)
  | failed x e =>
    simp only [Outcome.within, Diagnostic.within_behindNothing]
    exact .failed (e.inserted_within xs new)

/-- A value is read with more diagnostics among those so far as without them. -/
theorem Parser.Isolated.exists_inserted {p : Parser α} (hp : p.Isolated) (h : c.Inserted new d)
    {a : α} {e : Cursor} (hread : p.run c = .ok a e) :
    ∃ f, p.run d = .ok a f ∧ e.Inserted new f := by
  have hanswers := hp.inserted h
  rw [hread] at hanswers
  cases hanswer : p.run d with
  | ok b f =>
    rw [hanswer] at hanswers
    cases hanswers with
    | ok hinserted => exact ⟨f, rfl, hinserted⟩
  | failed x f =>
    rw [hanswer] at hanswers
    cases hanswers

/-- Goes on reading where a value was read. -/
def Outcome.andThen (f : α → Parser β) : Outcome α → Outcome β
  | ok a d => (f a).run d
  | failed e d => failed e d

/-- Isolated parsers go on behind inserted diagnostics as without them. -/
theorem Outcome.Inserted.andThen (h : o.Inserted new o') {f : α → Parser β}
    (hf : ∀ a, (f a).Isolated) : (o.andThen f).Inserted new (o'.andThen f) := by
  cases h with
  | ok h => exact (hf _).inserted h
  | failed h => exact .failed h

/-- Files comments with a value, or gives them back. -/
def Outcome.withComments (comments : List String) : Outcome α → Outcome (α × List String)
  | ok a d => ok (a, comments) d
  | failed e d => failed e (d.restore comments)

/-- Comments are given back behind inserted diagnostics as without them. -/
theorem Cursor.Inserted.restore (h : c.Inserted new d) (comments : List String) :
    (c.restore comments).Inserted new (d.restore comments) := by
  obtain ⟨xs, ys, hreported, rfl⟩ := h
  exact ⟨xs, ys, hreported, rfl⟩

/-- Comments are filed or given back behind inserted diagnostics as without them. -/
theorem Outcome.Inserted.withComments (h : o.Inserted new o') (comments : List String) :
    (o.withComments comments).Inserted new (o'.withComments comments) := by
  cases h with
  | ok h => exact .ok h
  | failed h => exact .failed (h.restore comments)

end Inserted

/-! ## Going on behind a part -/

namespace Parser

variable {α β γ σ : Type} {p : Parser α} {q : Parser β} {f : α → Parser γ} {c d e : Cursor}

/-- A sequence is its first part and going on from what comes of it. -/
theorem run_bind_eq_andThen (p : Parser α) (f : α → Parser γ) (c : Cursor) :
    (p >>= f).run c = (p.run c).andThen f := by
  rw [run_bind]
  cases p.run c <;> rfl

/-- Reading with comments is reading without them, and filing them or giving them back. -/
theorem run_takingComments_eq (p : Parser α) (c : Cursor) :
    p.takingComments.run c = (p.run c.takeComments).withComments c.availableComments := by
  cases hread : p.run c.takeComments <;> simp only [Parser.takingComments, hread] <;> rfl

/-- With any tokens behind, what comes of reading `p` from one cursor follows from what comes of
reading `q` from the other one, and in a way that does not depend on diagnostics from before. -/
def Resumes (p : Parser α) (c : Cursor) (q : Parser β) (d : Cursor) : Prop :=
  ∃ goOn : Outcome β → Outcome α,
    (∀ new o o', o.Inserted new o' → (goOn o).Inserted new (goOn o')) ∧
      ∀ r, p.run (c.before r) = goOn (q.run (d.before r))

namespace Resumes

/-- A sequence resumes behind its own first part. -/
theorem here {rest : β → Parser α} (hrest : ∀ b, (rest b).Isolated) :
    Resumes (q >>= rest) c q c :=
  ⟨Outcome.andThen rest, fun _ _ _ h => h.andThen hrest, fun _ => run_bind_eq_andThen q rest _⟩

/-- Behind a first part that is read alike in front of any tokens, a sequence resumes as the second.
-/
theorem after {a : α} (h : ∀ r, p.run (c.before r) = .ok a (e.before r))
    (k : Resumes (f a) e q d) : Resumes (p >>= f) c q d := by
  obtain ⟨goOn, hinserted, hread⟩ := k
  exact ⟨goOn, hinserted, fun r => (run_bind_of_ok (h r)).trans (hread r)⟩

/-- A sequence resumes where its first part does, if the rest is isolated. -/
theorem bind (h : Resumes p c q d) (hf : ∀ a, (f a).Isolated) : Resumes (p >>= f) c q d := by
  obtain ⟨goOn, hinserted, hread⟩ := h
  refine ⟨fun o => (goOn o).andThen f, fun new o o' h => (hinserted new o o' h).andThen hf,
    fun r => ?_⟩
  rw [run_bind_eq_andThen, hread]

/-- Changing the value does not matter for where a parser resumes. -/
theorem map (h : Resumes p c q d) (g : α → γ) : Resumes (g <$> p) c q d :=
  h.bind fun _ => isolated_pure _

/-- The comments in front of a part are those in front of its first token. -/
theorem takingComments (hne : c.rest ≠ []) (h : Resumes p c.takeComments q d) :
    Resumes p.takingComments c q d := by
  obtain ⟨goOn, hinserted, hread⟩ := h
  refine ⟨fun o => (goOn o).withComments c.availableComments,
    fun new o o' h => (hinserted new o o' h).withComments _, fun r => ?_⟩
  rw [run_takingComments_eq, Cursor.takeComments_before hne, Cursor.availableComments_before hne,
    hread]

end Resumes

/-- What is left of a repetition behind a round. -/
def iterateRest (step : σ → Parser (σ ⊕ α)) (h : ∀ s, (step s).Consumes) : σ ⊕ α → Parser α
  | .inl s => iterate step h s
  | .inr a => Pure.pure a

/-- A repetition is a round and what is left behind it. -/
theorem iterate_eq (step : σ → Parser (σ ⊕ α)) (h : ∀ s, (step s).Consumes) (s : σ) :
    iterate step h s = step s >>= iterateRest step h := by
  refine eq_of_run fun c => ?_
  rw [run_iterate, run_bind]
  rcases (step s).run c with ⟨s' | a, d⟩ | ⟨x, d⟩ <;> rfl

/-- What is left of a repetition is isolated, if its rounds are. -/
theorem isolated_iterateRest {step : σ → Parser (σ ⊕ α)} (h : ∀ s, (step s).Consumes)
    (hstep : ∀ s, (step s).Isolated) (r : σ ⊕ α) : (iterateRest step h r).Isolated := by
  cases r with
  | inl s => exact isolated_iterate h hstep s
  | inr a => exact isolated_pure a

end Parser

section Rounds

variable {α β σ : Type} {step : σ → Parser (σ ⊕ α)} {s t : σ} {c d : Cursor}

/-- Rounds that were read can be left out of a repetition. -/
theorem Rounds.run_iterate (h : Rounds step s c t d) (hconsumes : ∀ s, (step s).Consumes) :
    (iterate step hconsumes s).run c = (iterate step hconsumes t).run d := by
  induction h with
  | refl => rfl
  | next h hread ih => rw [ih, run_iterate_of_next hread]

/-- A value leaves no more tokens than there were. -/
theorem Parser.length_le_of_run {p : Parser α} {a : α} (h : p.run c = .ok a d) :
    d.rest.length ≤ c.rest.length := by
  have hle := (p.reaches c).length_le
  rwa [h] at hle

/-- Rounds leave no more tokens than there were. -/
theorem Rounds.length_le (h : Rounds step s c t d) : d.rest.length ≤ c.rest.length := by
  induction h with
  | refl => exact Nat.le_refl _
  | next h hread ih => exact (length_le_of_run hread).trans ih

/-- Rounds are known from the tokens up to their end and the two behind it. -/
theorem Rounds.before {r : List CommentedToken} (hstep : ∀ s, (step s).LooksAhead 2)
    (h : Rounds step s (c.before r) t d) (hlength : r.length + 2 ≤ d.rest.length) :
    ∃ e : Cursor, d = e.before r ∧ ∀ r', Rounds step s (c.before r') t (e.before r') := by
  generalize hc : c.before r = c' at h
  induction h with
  | refl =>
    subst hc
    exact ⟨c, rfl, fun _ => .refl⟩
  | @next t u d e h hread ih =>
    obtain ⟨d, rfl, hrounds⟩ := ih (hlength.trans (length_le_of_run hread))
    obtain ⟨e, rfl, hread'⟩ := (hstep t).exists_value hread hlength
    exact ⟨e, rfl, fun r' => .next (hrounds r') (hread' r')⟩

/-- A repetition resumes in a round where that round does. -/
theorem Parser.Resumes.iterate {q : Parser β} {c e : Cursor}
    (hrounds : ∀ r, Rounds step s (c.before r) t (e.before r))
    (hconsumes : ∀ s, (step s).Consumes) (hstep : ∀ s, (step s).Isolated)
    (h : Resumes (step t) e q d) : Resumes (iterate step hconsumes s) c q d := by
  have hround : Resumes (Parser.iterate step hconsumes t) e q d := by
    rw [iterate_eq]
    exact h.bind (isolated_iterateRest hconsumes hstep)
  obtain ⟨goOn, hinserted, hread⟩ := hround
  exact ⟨goOn, hinserted, fun r => ((hrounds r).run_iterate hconsumes).trans (hread r)⟩

end Rounds

/-! ## The parts that have lists -/

namespace Parser

variable {c d : Cursor}

/-- A project resumes behind its settings. -/
theorem resumes_project {start : Span} {p : Project}
    (h : ∀ r, (projectOpening start).run (c.before r) = .ok p (d.before r)) :
    Resumes (project start) c (settings? projectSetting p) d := by
  have hproject : project start = projectOpening start >>= fun p =>
      settings? projectSetting p >>= fun head => projectBlock? start head >>= fun p =>
        lastSpan >>= fun last => Pure.pure { p with span := start.through last } := by
    simp only [project, projectOpening, bind_assoc, pure_bind]
  rw [hproject]
  refine .after h (.here fun head => (isolated_projectBlock? start head).bind fun _ => ?_)
  exact isolated_lastSpan.bind fun _ => isolated_pure _

/-- A table resumes behind its settings. -/
theorem resumes_table {start : Span} {t : Table}
    (h : ∀ r, (tableOpening start).run (c.before r) = .ok t (d.before r)) :
    Resumes (table start) c (settings? tableSetting t) d := by
  have htable : table start = tableOpening start >>= fun t =>
      settings? tableSetting t >>= fun head => expect (.mark .leftBrace) >>= fun brace =>
        block "table" head.name (start.through brace.span) tableEntry consumes_tableEntry head >>=
          fun t => lastSpan >>= fun last => Pure.pure { t with span := start.through last } := by
    simp only [table, tableOpening, bind_assoc, pure_bind]
  rw [htable]
  refine .after h (.here fun head => (isolated_expect rfl).bind fun _ => ?_)
  refine (isolated_block _ _ _ _ isolatedAhead_tableEntry _).bind fun _ => ?_
  exact isolated_lastSpan.bind fun _ => isolated_pure _

/-- An area resumes behind its settings. -/
theorem resumes_area {start : Span} {a : Area}
    (h : ∀ r, (areaOpening start).run (c.before r) = .ok a (d.before r)) :
    Resumes (area start) c (settings? areaSetting a) d := by
  have harea : area start = areaOpening start >>= fun a =>
      settings? areaSetting a >>= fun head => expect (.mark .leftBrace) >>= fun brace =>
        block "area" head.name (start.through brace.span) areaEntry consumes_areaEntry head >>=
          fun a => lastSpan >>= fun last => Pure.pure { a with span := start.through last } := by
    simp only [area, areaOpening, bind_assoc, pure_bind]
  rw [harea]
  refine .after h (.here fun head => (isolated_expect rfl).bind fun _ => ?_)
  refine (isolated_block _ _ _ _ isolatedAhead_areaEntry _).bind fun _ => ?_
  exact isolated_lastSpan.bind fun _ => isolated_pure _

/-- Reads the rest of a reference behind its settings. -/
def referenceRest (start : Span) (isBraced : Bool) (r : Reference) : Parser Reference :=
  if isBraced then do
    let _ ← expect (.mark .rightBrace)
    let last ← lastSpan
    return { r with span := start.through last }
  else do
    let last ← lastSpan
    return { r with span := start.through last }

/-- What stands behind the settings of a reference is read as if alone. -/
theorem isolated_referenceRest (start : Span) (isBraced : Bool) (r : Reference) :
    (referenceRest start isBraced r).Isolated := by
  unfold referenceRest
  split
  · exact (isolated_expect rfl).bind fun _ => isolated_lastSpan.bind fun _ => isolated_pure _
  · exact isolated_lastSpan.bind fun _ => isolated_pure _

/-- A reference resumes behind its settings. -/
theorem resumes_reference {start : Span} {isBraced : Bool} {s : Reference}
    (h : ∀ r, (referenceOpening start).run (c.before r) = .ok (isBraced, s) (d.before r)) :
    Resumes (reference start) c (settings? referenceSetting s) d := by
  have hreference : reference start = referenceOpening start >>= fun opening =>
      settings? referenceSetting opening.2 >>= referenceRest start opening.1 := by
    simp only [reference, referenceOpening, bind_assoc, pure_bind]
    rfl
  rw [hreference]
  exact .after h (.here (isolated_referenceRest start isBraced))

/-- A column with its comments resumes behind its settings. -/
theorem resumes_commentedColumn {opening : Token × Token × Option String} (hne : c.rest ≠ [])
    (h : ∀ r, columnOpening.run (c.takeComments.before r) = .ok opening (d.before r)) :
    Resumes commentedColumn c (settings? columnSetting .none) d := by
  have hcolumn : column = columnOpening >>= fun opening =>
      settings? columnSetting .none >>= fun settings => lastSpan >>= fun last =>
        Pure.pure ⟨opening.1.value, opening.2.1.value, opening.2.2, settings,
          opening.1.span.through last, []⟩ := by
    simp only [column, columnOpening, bind_assoc, pure_bind]
  refine Resumes.bind (.takingComments hne ?_) fun _ => isolated_pure _
  rw [hcolumn]
  exact .after h (.here fun _ => isolated_lastSpan.bind fun _ => isolated_pure _)

/-- An index resumes behind its settings. -/
theorem resumes_index {start : Span} {columns : List String}
    (h : ∀ r, indexColumns.run (c.before r) = .ok columns (d.before r)) :
    Resumes (index start) c (settings? indexSetting ⟨columns, false, false, none, start⟩) d :=
  .after h (.here fun _ => isolated_lastSpan.bind fun _ => isolated_pure _)

/-- The next kind is read alike in front of any tokens. -/
theorem run_kind?_before {k : TokenKind} (h : c.kind? = some k) (r : List CommentedToken) :
    Parser.kind?.run (c.before r) = .ok (some k) (c.before r) := by
  rw [← h, ← Cursor.kind?_before (r := r) (Cursor.ne_nil_of_kind? h)]
  rfl

/-- A round of a block comes down to what is next in it. -/
theorem Resumes.blockStep {β σ : Type} {construct name : String} {opening : Span}
    {entry : σ → TokenKind → Parser σ} {s : σ} {q : Parser β} {k : TokenKind}
    (hkind : c.kind? = some k) (hbrace : k ≠ .mark .rightBrace) (hopens : k.opensConstruct = false)
    (h : Resumes (entry s k) c q d) :
    Resumes (blockStep construct name opening entry s) c q d := by
  refine .after (run_kind?_before hkind) ?_
  simp only [if_neg hbrace, hopens, Bool.false_eq_true, if_false]
  exact h.bind fun _ => isolated_pure _

/-- With two tokens ahead, the second kind is read alike in front of any tokens. -/
theorem run_secondKind?_before (h : 2 ≤ c.rest.length) (r : List CommentedToken) :
    Parser.secondKind?.run (c.before r) = .ok c.secondKind? (c.before r) :=
  congrArg (Outcome.ok · _) (Cursor.secondKind?_before h)

/-- Where a column is next, an entry of a table resumes as that column does. -/
theorem resumes_tableEntry_of_column {β : Type} {q : Parser β} {t : Table} {k : TokenKind}
    (hlength : 2 ≤ c.rest.length) (hnext : c.AtColumn k) (h : Resumes commentedColumn c q d) :
    Resumes (tableEntry t k) c q d := by
  refine .after (run_secondKind?_before hlength) ?_
  rw [if_neg hnext.notNote, if_neg hnext.notIndexes, if_pos hnext.isName]
  exact h.bind fun _ => isolated_pure _

/-- Where a block of indexes is next, an entry of a table resumes as that block does. -/
theorem resumes_tableEntry_of_indexes {β : Type} {q : Parser β} {t : Table}
    (hlength : 2 ≤ c.rest.length) (hnext : c.AtIndexes) (h : Resumes indexes c q d) :
    Resumes (tableEntry t (.keyword .indexes)) c q d := by
  refine .after (run_secondKind?_before hlength) ?_
  rw [if_neg (fun hnote => by cases hnote.1), if_pos ⟨rfl, hnext.2⟩]
  exact h.bind fun _ => isolated_pure _

/-- Where common columns are next, an entry of an area resumes as they do. -/
theorem resumes_areaEntry_of_commonColumns {β : Type} {q : Parser β} {a : Area}
    (hlength : 2 ≤ c.rest.length) (h : Resumes commonColumns c q d) :
    Resumes (areaEntry a (.keyword .commonColumns)) c q d := by
  refine .after (run_secondKind?_before hlength) ?_
  rw [if_neg (fun hnote => by cases hnote.1), if_pos rfl]
  exact h.bind fun _ => isolated_pure _

/-- What an index starts with neither closes a block nor opens a construct. -/
theorem indexStart_inBlock {k : TokenKind} (h : k = .mark .leftParen ∨ isIndexColumn k = true) :
    k ≠ .mark .rightBrace ∧ k.opensConstruct = false := by
  rcases h with rfl | h
  · exact ⟨by decide, rfl⟩
  · rw [isIndexColumn, Bool.or_eq_true, beq_iff_eq] at h
    rcases h with h | rfl
    · exact isName_inBlock k h
    · exact ⟨by decide, rfl⟩

/-- A round of a block of indexes that reads one. -/
theorem resumes_indexesRound {opening start : Span} {indexes : List Index} {k : TokenKind}
    {columns : List String} {r : List CommentedToken} (hkind : c.kind? = some k)
    (hnext : k = .mark .leftParen ∨ isIndexColumn k = true)
    (hstart : nextSpan.run (c.before r) = .ok start (c.before r))
    (h : ∀ r, indexColumns.run (c.before r) = .ok columns (d.before r)) :
    Resumes (indexesRound opening indexes) c
      (settings? indexSetting ⟨columns, false, false, none, start⟩) d := by
  obtain ⟨t, ts, hrest⟩ := List.exists_cons_of_ne_nil (Cursor.ne_nil_of_kind? hkind)
  have hspan (r : List CommentedToken) :
      nextSpan.run (c.before r) = .ok t.token.span (c.before r) := by
    have hbefore : (c.before r).rest = t :: (ts ++ r) := by simp [Cursor.before, hrest]
    simp only [nextSpan, hbefore]
  obtain rfl : t.token.span = start := (Outcome.ok.inj ((hspan r).symm.trans hstart)).1
  obtain ⟨hbrace, hopens⟩ := indexStart_inBlock hnext
  refine .blockStep hkind hbrace hopens ?_
  rw [indexesEntry, if_pos hnext]
  exact .after hspan ((resumes_index h).bind fun _ => isolated_pure _)

/-- A block of indexes is its opening and its rounds. -/
theorem indexes_eq :
    indexes = indexesOpening >>= fun opening =>
      iterate (indexesRound opening) (consumes_blockStep consumes_indexesEntry) [] := by
  simp only [indexes, indexesOpening, bind_assoc, pure_bind]
  rfl

/-- Where a column is next, a round of reading common columns resumes as that column does. -/
theorem resumes_commonColumnsStep {β : Type} {q : Parser β} {columns : List Column} {k : TokenKind}
    (hkind : c.kind? = some k) (hname : k.isName = true) (h : Resumes commentedColumn c q d) :
    Resumes (commonColumnsStep columns) c q d := by
  refine .after (run_kind?_before hkind) ?_
  simp only [if_neg (ne_mark_of_isName hname _), opensConstruct_of_isName hname, hname,
    Bool.false_eq_true, if_false, if_true]
  exact h.bind fun _ => isolated_pure _

/-- A round of the block of a construct that comes down to a list. -/
theorem resumes_round {α η σ : Type} {head : Parser η} {round : η → σ → Parser (σ ⊕ σ)}
    {consumes : ∀ h s, (round h s).Consumes} {start : η → σ} {rest : η → σ → Parser α}
    (hhead : head.LooksAhead 1) (hround : ∀ h s, (round h s).LooksAhead 2)
    (hisolated : ∀ h s, (round h s).Isolated) (hrest : ∀ h s, (rest h s).Isolated)
    {r : List CommentedToken} {x : η} {s : σ} {c₁ c₂ : Cursor}
    (hread : head.run (c.before r) = .ok x c₁) (hrounds : Rounds (round x) (start x) c₁ s c₂)
    (hlength : r.length + 2 ≤ c₂.rest.length) :
    ∃ e : Cursor, c₂ = e.before r ∧ ∀ {β : Type} {q : Parser β} {d}, Resumes (round x s) e q d →
      Resumes (head >>= fun h => iterate (round h) (consumes h) (start h) >>= rest h) c q d := by
  have hle := hrounds.length_le
  obtain ⟨e₁, rfl, hread'⟩ := hhead.exists_value hread (by omega)
  obtain ⟨e₂, rfl, hrounds'⟩ := hrounds.before (hround x) hlength
  exact ⟨e₂, rfl, fun h => .after hread'
    ((Resumes.iterate hrounds' (consumes x) (hisolated x) h).bind (hrest x))⟩

/-- A round of a table's block is isolated. -/
theorem isolated_tableRound (start : Span) (head : Table × Token) (t : Table) :
    (tableRound start head t).Isolated :=
  isolated_blockStep _ _ _ isolatedAhead_tableEntry t

/-- A round of an area's block is isolated. -/
theorem isolated_areaRound (start : Span) (head : Area × Token) (a : Area) :
    (areaRound start head a).Isolated :=
  isolated_blockStep _ _ _ isolatedAhead_areaEntry a

/-- A table resumes in a round of its block where that round does. -/
theorem exists_tableRound {start : Span} {head : Table × Token} {t : Table} {c₁ c₂ : Cursor}
    {r : List CommentedToken} (hread : (tableHead start).run (c.before r) = .ok head c₁)
    (hrounds : Rounds (tableRound start head) head.1 c₁ t c₂)
    (hlength : r.length + 2 ≤ c₂.rest.length) :
    ∃ e : Cursor, c₂ = e.before r ∧ ∀ {β : Type} {q : Parser β} {d},
      Resumes (tableRound start head t) e q d → Resumes (table start) c q d := by
  rw [table_eq]
  exact resumes_round (looksAhead_tableHead start) (looksAhead_tableRound start)
    (isolated_tableRound start)
    (fun _ _ => isolated_lastSpan.bind fun _ => isolated_pure _) hread hrounds hlength

/-- An area resumes in a round of its block where that round does. -/
theorem exists_areaRound {start : Span} {head : Area × Token} {a : Area} {c₁ c₂ : Cursor}
    {r : List CommentedToken} (hread : (areaHead start).run (c.before r) = .ok head c₁)
    (hrounds : Rounds (areaRound start head) head.1 c₁ a c₂)
    (hlength : r.length + 2 ≤ c₂.rest.length) :
    ∃ e : Cursor, c₂ = e.before r ∧ ∀ {β : Type} {q : Parser β} {d},
      Resumes (areaRound start head a) e q d → Resumes (area start) c q d := by
  rw [area_eq]
  exact resumes_round (looksAhead_areaHead start) (looksAhead_areaRound start)
    (isolated_areaRound start)
    (fun _ _ => isolated_lastSpan.bind fun _ => isolated_pure _) hread hrounds hlength

/-! ### Openings look one token ahead -/

/-- What stands in front of the settings of a table looks one token ahead. -/
theorem looksAhead_tableOpening (start : Span) : (tableOpening start).LooksAhead 1 :=
  (looksAhead_name _).bind fun _ => looksAhead_tableAlias?.bind fun _ => looksAhead_pure _

/-- What stands in front of the settings of a reference looks one token ahead. -/
theorem looksAhead_referenceOpening (start : Span) : (referenceOpening start).LooksAhead 1 := by
  refine looksAhead_referenceName?.bind_consumes (fun _ => ?_) fun _ => ?_
  · refine (looksAhead_accept _).bind fun _ => (looksAhead_accept _).bind fun _ => ?_
    refine looksAhead_endpoint.bind fun _ => looksAhead_relationship.bind fun _ => ?_
    exact looksAhead_endpoint.bind fun _ => looksAhead_pure _
  · refine consumes_bind_of_forall fun _ => consumes_bind_of_forall fun _ => ?_
    exact ((consumes_take _ _).bind _).bind _

/-- What stands in front of the settings of a column looks one token ahead. -/
theorem looksAhead_columnOpening : columnOpening.LooksAhead 1 := by
  refine (looksAhead_name _).bind fun _ => (looksAhead_name _).bind fun _ => ?_
  exact looksAhead_parenthesized?.bind fun _ => looksAhead_pure _

/-- What stands in front of the settings of a column takes its name. -/
theorem consumes_columnOpening : columnOpening.Consumes := (consumes_take _ _).bind _

/-- The opening of a block of indexes takes its keyword. -/
theorem consumes_indexesOpening : indexesOpening.Consumes := (consumes_expect _).bind _

/-- The opening of a list of common columns takes its keyword. -/
theorem consumes_commonColumnsHead : commonColumnsHead.Consumes := (consumes_expect _).bind _

/-- A round of a block of indexes looks two tokens ahead. -/
theorem looksAhead_indexesRound (opening : Span) (indexes : List Index) :
    (indexesRound opening indexes).LooksAhead 2 :=
  looksAhead_blockStep _ _ _ looksAhead_indexesEntry indexes

/-- A round of a block of indexes is isolated. -/
theorem isolated_indexesRound (opening : Span) (indexes : List Index) :
    (indexesRound opening indexes).Isolated :=
  isolated_blockStep _ _ _ isolatedAhead_indexesEntry indexes

/-- The opening of a block of indexes looks one token ahead. -/
theorem looksAhead_indexesOpening : indexesOpening.LooksAhead 1 :=
  (looksAhead_expect _).bind fun _ => (looksAhead_expect _).bind fun _ => looksAhead_pure _

/-- The opening of a column is known from its tokens and the one behind it. -/
theorem exists_columnOpening {r : List CommentedToken} {opening : Token × Token × Option String}
    (hne : c.rest ≠ [])
    (hread : columnOpening.run (c.before r).takeComments = .ok opening d)
    (hlength : r.length < d.rest.length) :
    ∃ e : Cursor, d = e.before r ∧
      Resumes commentedColumn c (settings? columnSetting .none) e := by
  rw [Cursor.takeComments_before hne] at hread
  obtain ⟨e, rfl, hread'⟩ := looksAhead_columnOpening.exists_value hread hlength
  exact ⟨e, rfl, resumes_commentedColumn hne hread'⟩

/-- A column takes its name. -/
theorem length_of_columnOpening {opening : Token × Token × Option String} {n : Nat}
    (hread : columnOpening.run c.takeComments = .ok opening d) (hlength : n < d.rest.length) :
    n + 2 ≤ c.rest.length := by
  have hconsumed := consumes_columnOpening _ _ _ hread
  have hle := c.reaches_takeComments.length_le
  omega

/-! ### Lists in blocks -/

section Blocks

variable {start : Span} {r : List CommentedToken} {next : TokenKind} {c₁ c₂ c₃ c₄ : Cursor}

/-- The list of a column of a table. -/
theorem exists_resumes_column {head : Table × Token} {t : Table}
    {opening : Token × Token × Option String}
    (hhead : (tableHead start).run (c.before r) = .ok head c₁)
    (hrounds : Rounds (tableRound start head) head.1 c₁ t c₂) (hnext : c₂.AtColumn next)
    (hread : columnOpening.run c₂.takeComments = .ok opening d)
    (hlength : r.length < d.rest.length) :
    ∃ e : Cursor, d = e.before r ∧ Resumes (table start) c (settings? columnSetting .none) e := by
  have hcolumn := length_of_columnOpening hread hlength
  obtain ⟨e₂, rfl, hround⟩ := exists_tableRound hhead hrounds hcolumn
  rw [Cursor.length_before] at hcolumn
  have hnext' := hnext.of_before (by omega)
  obtain ⟨e, rfl, hread'⟩ := exists_columnOpening (Cursor.ne_nil_of_kind? hnext'.kind) hread hlength
  refine ⟨e, rfl, hround (.blockStep hnext'.kind (ne_mark_of_isName hnext'.isName _)
    (opensConstruct_of_isName hnext'.isName) ?_)⟩
  exact resumes_tableEntry_of_column (by omega) hnext' hread'

/-- The list of an index in a block of indexes. -/
theorem exists_resumes_index {head : Table × Token} {t : Table} {opening span : Span}
    {indexes : List Index} {columns : List String}
    (hhead : (tableHead start).run (c.before r) = .ok head c₁)
    (hrounds : Rounds (tableRound start head) head.1 c₁ t c₂) (hindexes : c₂.AtIndexes)
    (hopening : indexesOpening.run c₂ = .ok opening c₃)
    (hrounds' : Rounds (indexesRound opening) [] c₃ indexes c₄) (hkind : c₄.kind? = some next)
    (hnext : next = .mark .leftParen ∨ isIndexColumn next = true)
    (hstart : nextSpan.run c₄ = .ok span c₄) (hread : indexColumns.run c₄ = .ok columns d)
    (hlength : r.length < d.rest.length) :
    ∃ e : Cursor, d = e.before r ∧
      Resumes (table start) c (settings? indexSetting ⟨columns, false, false, none, span⟩) e := by
  have hindex := consumes_indexColumns _ _ _ hread
  have hblock := hrounds'.length_le
  have hindexes' := consumes_indexesOpening _ _ _ hopening
  -- each parser in front of the list reads what it read, whatever stands behind the part
  obtain ⟨e₂, rfl, hround⟩ := exists_tableRound hhead hrounds (by omega)
  obtain ⟨e₃, rfl, hopening'⟩ := looksAhead_indexesOpening.exists_value hopening (by omega)
  obtain ⟨e₄, rfl, hrounds''⟩ := hrounds'.before (looksAhead_indexesRound _) (by omega)
  obtain ⟨e, rfl, hread'⟩ := looksAhead_indexColumns.exists_value (k := 0) hread hlength
  simp only [Cursor.length_before] at hindexes' hblock hindex hlength
  have hnext' := hindexes.of_before (by omega)
  rw [Cursor.kind?_before (List.ne_nil_of_length_pos (by omega))] at hkind
  refine ⟨e, rfl, hround (.blockStep hnext'.1 (by decide) rfl ?_)⟩
  refine resumes_tableEntry_of_indexes (by omega) hnext' ?_
  rw [indexes_eq]
  exact .after hopening' (.iterate hrounds'' _ (isolated_indexesRound _)
    (resumes_indexesRound hkind hnext hstart hread'))

/-- The list of a common column of an area. -/
theorem exists_resumes_commonColumn {head : Area × Token} {a : Area} {bracket : Token}
    {columns : List Column} {opening : Token × Token × Option String}
    (hhead : (areaHead start).run (c.before r) = .ok head c₁)
    (hrounds : Rounds (areaRound start head) head.1 c₁ a c₂)
    (hcommon : c₂.kind? = some (.keyword .commonColumns))
    (hopening : commonColumnsHead.run c₂ = .ok bracket c₃)
    (hrounds' : Rounds commonColumnsStep [] c₃ columns c₄) (hkind : c₄.kind? = some next)
    (hnext : next.isName = true) (hread : columnOpening.run c₄.takeComments = .ok opening d)
    (hlength : r.length < d.rest.length) :
    ∃ e : Cursor, d = e.before r ∧ Resumes (area start) c (settings? columnSetting .none) e := by
  have hcolumn := length_of_columnOpening hread hlength
  have hlist := hrounds'.length_le
  have hcommon' := consumes_commonColumnsHead _ _ _ hopening
  obtain ⟨e₂, rfl, hround⟩ := exists_areaRound hhead hrounds (by omega)
  obtain ⟨e₃, rfl, hopening'⟩ :=
    looksAhead_commonColumnsHead.exists_value (k := 0) hopening (by omega)
  obtain ⟨e₄, rfl, hrounds''⟩ := hrounds'.before looksAhead_commonColumnsStep hcolumn
  simp only [Cursor.length_before] at hcolumn hlist hcommon'
  have hne : e₄.rest ≠ [] := List.ne_nil_of_length_pos (by omega)
  obtain ⟨e, rfl, hread'⟩ := exists_columnOpening hne hread hlength
  rw [Cursor.kind?_before hne] at hkind
  rw [Cursor.kind?_before (List.ne_nil_of_length_pos (by omega))] at hcommon
  refine ⟨e, rfl, hround (.blockStep hcommon (by decide) rfl ?_)⟩
  refine resumes_areaEntry_of_commonColumns (by omega) ?_
  rw [commonColumns_eq]
  exact .after hopening' (.iterate hrounds'' _ isolated_commonColumnsStep
    (resumes_commonColumnsStep hkind hnext hread'))

end Blocks

end Parser

/-! ## Lists within constructs -/

/-- A list of settings stands behind what was read of its construct. -/
theorem ReachesList.length_le {k : Token} {c d : Cursor} {l : ListKind} {s : l.State}
    (h : ReachesList k c l s d) : d.rest.length ≤ c.rest.length := by
  cases h with
  | project hk hread => exact length_le_of_run hread
  | table hk hread => exact length_le_of_run hread
  | area hk hread => exact length_le_of_run hread
  | reference hk hread => exact length_le_of_run hread
  | @column _ _ _ _ _ c₂ _ hk hhead hrounds hnext hread =>
    exact (length_le_of_run hread).trans <| c₂.reaches_takeComments.length_le.trans <|
      hrounds.length_le.trans (length_le_of_run hhead)
  | index hk hhead hrounds hindexes hopening hrounds' hkind hnext hstart hread =>
    exact (length_le_of_run hread).trans <| hrounds'.length_le.trans <|
      (length_le_of_run hopening).trans <| hrounds.length_le.trans (length_le_of_run hhead)
  | @commonColumn _ _ _ _ _ _ _ _ _ c₄ _ hk hhead hrounds hcommon hopening hrounds' hkind hnext
      hread =>
    exact (length_le_of_run hread).trans <| c₄.reaches_takeComments.length_le.trans <|
      hrounds'.length_le.trans <| (length_le_of_run hopening).trans <|
        hrounds.length_le.trans (length_le_of_run hhead)

/-- Where a list of settings can stand, reading the construct is reading the list and going on. -/
theorem ReachesList.resumes {k : Token} {c d : Cursor} {r : List CommentedToken} {l : ListKind}
    {s : l.State} {construct : Span → Parser Construct} (h : ReachesList k (c.before r) l s d)
    (hconstruct : construct? k.kind = some construct) (hlength : r.length < d.rest.length) :
    ∃ e : Cursor, d = e.before r ∧ Resumes (construct k.span) c (settings? l.apply s) e := by
  cases h with
  | project hk hread =>
    obtain ⟨e, rfl, hread'⟩ :=
      ((looksAhead_name _).bind fun _ => looksAhead_pure _).exists_value (k := 0) hread hlength
    rw [hk] at hconstruct
    cases hconstruct
    exact ⟨e, rfl, (resumes_project hread').map _⟩
  | table hk hread =>
    obtain ⟨e, rfl, hread'⟩ := (looksAhead_tableOpening _).exists_value hread hlength
    rw [hk] at hconstruct
    cases hconstruct
    exact ⟨e, rfl, (resumes_table hread').map _⟩
  | area hk hread =>
    obtain ⟨e, rfl, hread'⟩ :=
      ((looksAhead_name _).bind fun _ => looksAhead_pure _).exists_value (k := 0) hread hlength
    rw [hk] at hconstruct
    cases hconstruct
    exact ⟨e, rfl, (resumes_area hread').map _⟩
  | reference hk hread =>
    obtain ⟨e, rfl, hread'⟩ := (looksAhead_referenceOpening _).exists_value hread hlength
    rw [hk] at hconstruct
    cases hconstruct
    exact ⟨e, rfl, (resumes_reference hread').map _⟩
  | column hk hhead hrounds hnext hread =>
    obtain ⟨e, rfl, hresumes⟩ := exists_resumes_column hhead hrounds hnext hread hlength
    rw [hk] at hconstruct
    cases hconstruct
    exact ⟨e, rfl, hresumes.map _⟩
  | index hk hhead hrounds hindexes hopening hrounds' hkind hnext hstart hread =>
    obtain ⟨e, rfl, hresumes⟩ := exists_resumes_index hhead hrounds hindexes hopening hrounds' hkind
      hnext hstart hread hlength
    rw [hk] at hconstruct
    cases hconstruct
    exact ⟨e, rfl, hresumes.map _⟩
  | commonColumn hk hhead hrounds hcommon hopening hrounds' hkind hnext hread =>
    obtain ⟨e, rfl, hresumes⟩ := exists_resumes_commonColumn hhead hrounds hcommon hopening hrounds'
      hkind hnext hread hlength
    rw [hk] at hconstruct
    cases hconstruct
    exact ⟨e, rfl, hresumes.map _⟩

end SchemaDiagram.Document
