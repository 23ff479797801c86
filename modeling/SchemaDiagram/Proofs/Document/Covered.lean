import SchemaDiagram.Proofs.Document.Filing
import SchemaDiagram.Proofs.Document.Passed

/-!
# Spans are those of the tokens read

The span of a construct, a column, an index or an endpoint reaches from the first token that it is
read from to the last one (`Covers`), whatever optional parts follow and wherever comments stand.
The parts of a construct are read one behind the other (`ReadInTurn`), in front of the closing brace
of a block (`Construct.IsReadInside`).

Main statement: `Parser.construct_isReadBehind`. Each block is read with the invariant that the
parts read so far stand in the tokens passed so far.
-/

namespace SchemaDiagram.Document

open Grammar SchemaDiagram.Document.Parser

/-! ## Spans of tokens -/

/-- The span reaches from the first token between the cursors to the last one. -/
def Covers (s : Span) (c d : Cursor) : Prop :=
  ∃ t us, c.tokens = t :: us ++ d.tokens ∧ s = t.span.through (lastOf t.span us)

namespace Cursor

variable {c d : Cursor}

/-- Where a token is passed, the span from the next token to the last one passed is that of the
tokens between. -/
theorem Passes.covers (h : c.Passes d) (hlt : d.rest.length < c.rest.length) {t : Token}
    {ts : List Token} (hnext : c.tokens = t :: ts) : Covers (t.span.through d.last) c d := by
  obtain ⟨us, htokens, hlast⟩ := h
  rcases us with _ | ⟨u, us⟩
  · have hlength := congrArg List.length htokens
    simp only [tokens, List.length_map, List.nil_append] at hlength
    omega
  · have hhead : t = u := by
      rw [hnext] at htokens
      exact (List.cons.inj htokens).1
    subst hhead
    exact ⟨t, us, htokens, by rw [hlast, lastOf_cons]⟩

end Cursor

/-! ## Parts of constructs -/

/-- A part of a construct that has a span. -/
inductive Part where
  | column (c : Column)
  | index (i : Index)
  | endpoint (e : Endpoint)

namespace Part

/-- The span of a part. -/
def span : Part → Span
  | column c => c.span
  | index i => i.span
  | endpoint e => e.span

/-- The part if it is a column. -/
def column? : Part → Option Column
  | column c => some c
  | _ => none

/-- The part if it is an index. -/
def index? : Part → Option Index
  | index i => some i
  | _ => none

/-- Indexes are no columns. -/
theorem filterMap_column?_index (more : List Index) : (more.map index).filterMap column? = [] := by
  rw [List.filterMap_map]
  exact List.filterMap_eq_nil_iff.2 fun _ _ => rfl

/-- The indexes among parts that are all indexes are these. -/
theorem filterMap_index?_index (more : List Index) : (more.map index).filterMap index? = more := by
  rw [List.filterMap_map]
  exact List.filterMap_some

/-- A column found among the parts is one of them. -/
theorem mem_of_mem_filterMap_column? {parts : List Part} {c : Column}
    (h : c ∈ parts.filterMap column?) : column c ∈ parts := by
  obtain ⟨part, hpart, hc⟩ := List.mem_filterMap.1 h
  cases part <;> cases hc
  exact hpart

/-- An index found among the parts is one of them. -/
theorem mem_of_mem_filterMap_index? {parts : List Part} {i : Index}
    (h : i ∈ parts.filterMap index?) : index i ∈ parts := by
  obtain ⟨part, hpart, hi⟩ := List.mem_filterMap.1 h
  cases part <;> cases hi
  exact hpart

/-- Reading at one cursor gives the part and leads to the other cursor. -/
def IsReadBetween (c d : Cursor) : Part → Prop
  | column x => commentedColumn.run c = .ok x d
  | index i => (nextSpan >>= Parser.index).run c = .ok i d
  | endpoint e => Parser.endpoint.run c = .ok e d

end Part

/-- The parts are read one behind the other between the cursors, and each has the span of the tokens
that it is read from. -/
inductive ReadInTurn : Cursor → List Part → Cursor → Prop
  | nil {c d : Cursor} (h : c.Passes d) : ReadInTurn c [] d
  | cons {c b e d : Cursor} {part : Part} {parts : List Part} (h : c.Passes b)
    (hread : part.IsReadBetween b e) (hspan : Covers part.span b e)
    (hothers : ReadInTurn e parts d) : ReadInTurn c (part :: parts) d

namespace Parser

/-! ## Parts have the spans of their tokens -/

/-- A value whose span reaches from the next token to the last one passed. -/
theorem Ensures.covers {α : Type} {p : Parser α} {c : Cursor} {span : α → Span}
    (hconsumes : p.Consumes) (hpasses : p.Ensures c fun _ d => c.Passes d)
    (hspan : p.Ensures c fun a d =>
      ∃ t ts, c.tokens = t :: ts ∧ span a = t.span.through d.last) :
    p.Ensures c fun a d => Covers (span a) c d := by
  intro a d hr
  obtain ⟨t, ts, htokens, hsame⟩ := hspan a d hr
  rw [hsame]
  exact (hpasses a d hr).covers (hconsumes c a d hr) htokens

/-- Spans end with the last token passed. -/
theorem ensures_lastSpan {β : Type} {f : Span → Parser β} {c : Cursor} {Q : β → Cursor → Prop}
    (h : (f c.last).Ensures c Q) : (lastSpan >>= f).Ensures c Q := h

/-- An endpoint reaches to its column's name. -/
theorem endpoint_covers (c : Cursor) : endpoint.Ensures c fun e d => Covers e.span c d := by
  refine .covers ((consumes_take _ _).bind _) (plain_endpoint.ensures_passes c) ?_
  refine .bind ((Ensures.take _ _).mono ?_)
  rintro table d ⟨-, -, htokens, -⟩
  refine .later _ fun _ d => .bind ((Ensures.take _ _).mono ?_)
  rintro column e ⟨-, -, -, hlast⟩
  exact .pure ⟨table, _, htokens, by rw [hlast]⟩

/-- A column reaches to its last token, which may be that of its type. -/
theorem column_covers (c : Cursor) : column.Ensures c fun x d => Covers x.span c d := by
  refine .covers consumes_column (plain_column.ensures_passes c) ?_
  refine .bind ((Ensures.take _ _).mono ?_)
  rintro columnName d ⟨-, -, htokens, -⟩
  refine .later _ fun _ _ => .later _ fun _ _ => .later _ fun _ _ => ensures_lastSpan ?_
  exact .pure ⟨columnName, _, htokens, rfl⟩

/-- A column with its comments reaches to the column's last token. -/
theorem commentedColumn_covers (c : Cursor) :
    commentedColumn.Ensures c fun x d => c.Passes d ∧ Covers x.span c d := by
  have hcolumn := (plain_column.ensures_passes c.takeComments).and (column_covers c.takeComments)
  refine .bind (hcolumn.takingComments.mono fun r d hr => .pure ⟨?_, ?_⟩)
  · exact c.passes_takeComments.trans hr.1
  · obtain ⟨t, us, htokens, hspan⟩ := hr.2
    exact ⟨t, us, c.tokens_takeComments.symm.trans htokens, hspan⟩

/-- An index's span reaches from where it starts to the last token passed. -/
theorem index_span (start : Span) (c : Cursor) :
    (index start).Ensures c fun i d => i.span = start.through d.last := by
  refine .later _ fun _ _ => .later _ fun _ _ => ensures_lastSpan ?_
  exact .pure rfl

/-- An index reaches from the next token to its last one, which may be that of its columns. -/
theorem index_covers (c : Cursor) :
    (nextSpan >>= index).Ensures c fun i d => Covers i.span c d := by
  have hconsumes : (nextSpan >>= index).Consumes := consumes_bind_of_forall consumes_index
  refine .covers hconsumes ((Plain.bind .nextSpan plain_index).ensures_passes c) fun i d hr => ?_
  rcases hrest : c.rest with _ | ⟨t, ts⟩
  · have hlt := hconsumes c i d hr
    rw [hrest] at hlt
    exact absurd hlt (Nat.not_lt_zero _)
  · refine ⟨t.token, ts.map (·.token), by rw [Cursor.tokens, hrest, List.map_cons], ?_⟩
    have hstart : nextSpan.run c = .ok t.token.span c := by simp only [nextSpan, hrest]
    rw [run_bind_of_ok hstart] at hr
    exact index_span t.token.span c i d hr

end Parser

namespace Part

variable {part : Part} {c d : Cursor}

/-- Reading a part only passes tokens. -/
theorem IsReadBetween.passes (h : part.IsReadBetween c d) : c.Passes d := by
  cases part with
  | column x => exact (commentedColumn_covers c x d h).1
  | index i => exact (Plain.bind .nextSpan plain_index).ensures_passes c i d h
  | endpoint e => exact plain_endpoint.ensures_passes c e d h

/-- A part has the span of the tokens that it is read from. -/
theorem IsReadBetween.covers (h : part.IsReadBetween c d) : Covers part.span c d := by
  cases part with
  | column x => exact (commentedColumn_covers c x d h).2
  | index i => exact index_covers c i d h
  | endpoint e => exact endpoint_covers c e d h

end Part

namespace ReadInTurn

variable {c d e : Cursor} {parts others : List Part} {part : Part}

/-- Reading parts in turn only passes tokens. -/
theorem passes (h : ReadInTurn c parts d) : c.Passes d := by
  induction h with
  | nil h => exact h
  | cons h hread _ _ ih => exact (h.trans hread.passes).trans ih

/-- Parts read in turn are followed by others read in turn. -/
theorem append (h : ReadInTurn c parts d) (k : ReadInTurn d others e) :
    ReadInTurn c (parts ++ others) e := by
  induction h with
  | nil h =>
    cases k with
    | nil k => exact .nil (h.trans k)
    | cons k hread hspan hothers => exact .cons (h.trans k) hread hspan hothers
  | cons h hread hspan _ ih => exact .cons h hread hspan (ih k)

/-- Tokens may follow that belong to no part. -/
theorem append_passes (h : ReadInTurn c parts d) (k : d.Passes e) : ReadInTurn c parts e := by
  have hnil := h.append (.nil k)
  rwa [List.append_nil] at hnil

/-- A part that is read stands alone in turn. -/
theorem of_isReadBetween (h : part.IsReadBetween c d) : ReadInTurn c [part] d :=
  .cons (.refl c) h h.covers (.nil (.refl d))

/-- A part read behind others extends them. -/
theorem append_part (part : Part) (h : ReadInTurn c parts d) (k : part.IsReadBetween d e) :
    ReadInTurn c (parts ++ [part]) e :=
  h.append (of_isReadBetween k)

end ReadInTurn

/-! ## Constructs have the spans of their tokens -/

/-- How the parts of a construct are read behind its keyword. Those of a table and of an area stand
in front of the closing brace, the endpoints of a reference on either side of its symbol. -/
inductive Construct.IsReadInside : Construct → Cursor → List Part → Cursor → Prop where
  /-- A project has no parts. -/
  | project {p : Project} {c d : Cursor} (h : c.Passes d) : IsReadInside (.project p) c [] d
  /-- Columns and indexes may take turns. -/
  | table {t : Table} {c e : Cursor} {parts : List Part} (h : ReadInTurn c parts e)
    (hcolumns : parts.filterMap Part.column? = t.columns)
    (hindexes : parts.filterMap Part.index? = t.indexes)
    (hbrace : e.kind? = some (.mark .rightBrace)) : IsReadInside (.table t) c parts e.advance
  /-- The symbol is that of the relationship. -/
  | reference {r : Reference} {c e d : Cursor} (hsource : ReadInTurn c [.endpoint r.source] e)
    (hsymbol : e.kind?.bind relationshipOf? = some r.relationship)
    (htarget : ReadInTurn e.advance [.endpoint r.target] d) :
    IsReadInside (.reference r) c [.endpoint r.source, .endpoint r.target] d
  /-- Only common columns are parts of an area. -/
  | area {a : Area} {c e : Cursor} (h : ReadInTurn c (a.commonColumns.map .column) e)
    (hbrace : e.kind? = some (.mark .rightBrace)) :
    IsReadInside (.area a) c (a.commonColumns.map .column) e.advance

namespace Parser

/-- A property of all values that are read anywhere. -/
theorem Yields.ensures {α : Type} {p : Parser α} {P : α → Prop} (h : Yields Cursor.Anywhere p P)
    (c : Cursor) : p.Ensures c fun a _ => P a :=
  fun a d hr => h c trivial a d hr

/-! ### Tables -/

/-- An entry of an `indexes` block extends the indexes read in turn. -/
theorem indexesEntry_inTurn {c d : Cursor} {more : List Index}
    (h : ReadInTurn c (more.map .index) d) (k : TokenKind) :
    (indexesEntry more k).Ensures d fun more e => ReadInTurn c (more.map .index) e := by
  unfold indexesEntry
  split
  · rw [← bind_assoc]
    refine .bind fun i e hr => .pure ?_
    rw [List.map_append]
    exact h.append_part (.index i) hr
  · refine .bind ((plain_any.ensures_passes d).mono fun _ e hpasses => .pure ?_)
    exact h.append_passes hpasses

/-- The indexes of a block are read in turn. -/
theorem indexes_inTurn (c : Cursor) :
    indexes.Ensures c fun more d => ReadInTurn c (more.map .index) d := by
  refine .bind (((plain_expect _).ensures_passes c).mono fun _ d hd => ?_)
  refine .bind (((plain_expect _).ensures_passes d).mono fun _ e he => ?_)
  refine (Ensures.block (I := fun more d => ReadInTurn c (more.map .index) d)
    (fun more k d hmore => indexesEntry_inTurn hmore k) (.nil (hd.trans he))).mono ?_
  rintro more _ ⟨b, hmore, -, rfl⟩
  exact hmore.append_passes b.passes_advance

/-- The columns and indexes of a table up to a cursor. -/
def HoldsParts (c : Cursor) (t : Table) (d : Cursor) : Prop :=
  ∃ parts, ReadInTurn c parts d ∧ parts.filterMap Part.column? = t.columns ∧
    parts.filterMap Part.index? = t.indexes

/-- Passing more tokens keeps what the table holds. -/
theorem HoldsParts.passes {c d e : Cursor} {t : Table} (h : HoldsParts c t d) (k : d.Passes e) :
    HoldsParts c t e := by
  obtain ⟨parts, hparts, hbody⟩ := h
  exact ⟨parts, hparts.append_passes k, hbody⟩

/-- Each entry of a table's body keeps its parts read in turn. -/
theorem tableEntry_holdsParts {c d : Cursor} {t : Table} (h : HoldsParts c t d) (k : TokenKind) :
    (tableEntry t k).Ensures d (HoldsParts c) := by
  refine .bind ((Plain.secondKind?.ensures_passes d).mono fun second e he => ?_)
  have h := h.passes he
  split
  · exact .bind ((plain_note.ensures_passes e).mono fun _ b hb => .pure (h.passes hb))
  obtain ⟨parts, hparts, hcolumns, hindexes⟩ := h
  split
  · refine .bind ((indexes_inTurn e).mono fun more b hmore =>
      .pure ⟨_, hparts.append hmore, ?_, ?_⟩)
    · rw [List.filterMap_append, hcolumns, Part.filterMap_column?_index]
      exact List.append_nil _
    · rw [List.filterMap_append, hindexes, Part.filterMap_index?_index]
  split
  · refine .bind fun column b hr => .pure ⟨_, hparts.append_part (.column column) hr, ?_, ?_⟩
    · rw [List.filterMap_append, hcolumns]
      rfl
    · rw [List.filterMap_append, hindexes]
      exact List.append_nil _
  · refine .bind ((plain_any.ensures_passes e).mono fun _ b hb => .pure ?_)
    exact ⟨parts, hparts.append_passes hb, hcolumns, hindexes⟩

/-- What is read of a construct behind its keyword at `start`: its span reaches to the last
token. -/
def IsReadBehind (start : Span) (c : Cursor) (x : Construct) (d : Cursor) : Prop :=
  c.Passes d ∧ x.span = start.through d.last ∧ ∃ parts, x.IsReadInside c parts d

/-- A table's parts are read behind its keyword, and its span covers it. -/
theorem table_isReadBehind (start : Span) (c : Cursor) :
    (table start).Ensures c fun t d => IsReadBehind start c (.table t) d := by
  rw [table_eq]
  have hhead := ((plain_tableHead start).ensures_passes c).and ((tableHead_body start).ensures c)
  refine .bind (hhead.mono fun head d hd => .bind ?_)
  obtain ⟨hpasses, hcolumns, hindexes⟩ := hd
  have hstart : HoldsParts c head.1 d := ⟨[], .nil hpasses, hcolumns.symm, hindexes.symm⟩
  refine (Ensures.block (I := HoldsParts c) (h := consumes_tableEntry)
    (fun t k e ht => tableEntry_holdsParts ht k) hstart).mono ?_
  rintro t _ ⟨e, ⟨parts, hparts, hcolumns, hindexes⟩, hbrace, rfl⟩
  refine ensures_lastSpan (.pure ⟨?_, rfl, parts, .table hparts hcolumns hindexes hbrace⟩)
  exact hparts.passes.trans e.passes_advance

/-! ### Areas -/

/-- Each entry of a list of common columns keeps its columns read in turn. -/
theorem commonColumnsStep_inTurn {c d : Cursor} {columns : List Column}
    (h : ReadInTurn c (columns.map .column) d) :
    (commonColumnsStep columns).Ensures d fun r e =>
      r.elim (fun columns => ReadInTurn c (columns.map .column) e)
        fun columns => ReadInTurn c (columns.map .column) e := by
  refine .bind ?_
  rintro _ _ ⟨⟩
  split
  · exact .unexpected _
  split
  · refine .bind ((plain_any.ensures_passes d).mono fun _ e he => .pure ?_)
    exact h.append_passes he
  split
  · exact .unexpected _
  split
  · refine .bind fun column e hr => .pure ?_
    show ReadInTurn c ((columns ++ [column]).map .column) e
    rw [List.map_append]
    exact h.append_part (.column column) hr
  · refine .bind ((plain_any.ensures_passes d).mono fun _ e he => .pure ?_)
    exact h.append_passes he

/-- Common columns are read in turn. -/
theorem commonColumns_inTurn (c : Cursor) :
    commonColumns.Ensures c fun columns d => ReadInTurn c (columns.map .column) d := by
  rw [commonColumns_eq]
  refine .bind ((plain_commonColumnsHead.ensures_passes c).mono fun _ d hd => ?_)
  exact .iterate (I := fun columns d => ReadInTurn c (columns.map .column) d)
    (fun _ _ h => commonColumnsStep_inTurn h) (.nil hd)

/-- Each entry of an area's body keeps its common columns read in turn. -/
theorem areaEntry_inTurn {c d : Cursor} {a : Area}
    (h : ReadInTurn c (a.commonColumns.map .column) d) (k : TokenKind) :
    (areaEntry a k).Ensures d fun a e => ReadInTurn c (a.commonColumns.map .column) e := by
  refine .bind ((Plain.secondKind?.ensures_passes d).mono fun second e he => ?_)
  have h := h.append_passes he
  split
  · exact .bind ((plain_note.ensures_passes e).mono fun _ b hb => .pure (h.append_passes hb))
  split
  · refine .bind ((commonColumns_inTurn e).mono fun more b hmore => .pure ?_)
    show ReadInTurn c ((a.commonColumns ++ more).map .column) b
    rw [List.map_append]
    exact h.append hmore
  split
  · have hline := ((plain_settingLine (plain_apply .area) a).ensures_passes e).and
      ((settingLine_commonColumns a).ensures e)
    refine hline.mono fun b e' hb => ?_
    rw [hb.2]
    exact h.append_passes hb.1
  split
  · exact .bind (((plain_name _).ensures_passes e).mono fun _ b hb => .pure (h.append_passes hb))
  · exact .bind ((plain_any.ensures_passes e).mono fun _ b hb => .pure (h.append_passes hb))

/-- An area's parts are read behind its keyword, and its span covers it. -/
theorem area_isReadBehind (start : Span) (c : Cursor) :
    (area start).Ensures c fun a d => IsReadBehind start c (.area a) d := by
  rw [area_eq]
  have hhead := ((plain_areaHead start).ensures_passes c).and
    ((areaHead_commonColumns start).ensures c)
  refine .bind (hhead.mono fun head d hd => .bind ?_)
  have hstart : ReadInTurn c (head.1.commonColumns.map .column) d := by
    rw [hd.2]
    exact .nil hd.1
  refine (Ensures.block (I := fun a d => ReadInTurn c (a.commonColumns.map .column) d)
    (h := consumes_areaEntry) (fun a k e ha => areaEntry_inTurn ha k) hstart).mono ?_
  rintro a _ ⟨e, ha, hbrace, rfl⟩
  exact ensures_lastSpan (.pure ⟨ha.passes.trans e.passes_advance, rfl, _, .area ha hbrace⟩)

/-! ### References and projects -/

/-- A relationship is read from the symbol that stands for it. -/
theorem relationship_symbol (c : Cursor) :
    relationship.Ensures c fun r d => c.kind?.bind relationshipOf? = some r ∧ d = c.advance := by
  refine .bind ((Ensures.take _ _).mono ?_)
  rintro t _ ⟨hsymbol, rfl, htokens, -⟩
  obtain ⟨r, hr⟩ := Option.isSome_iff_exists.1 hsymbol
  refine .pure ⟨?_, rfl⟩
  rw [Cursor.kind?_of_tokens htokens, Option.bind_some, hr, Option.getD_some]

/-- Settings leave the endpoints and the relationship as they are. -/
theorem referenceSetting_sides (r : Reference) (key : SettingKey) :
    Yields Cursor.Anywhere (referenceSetting r key) fun s => ∀ u ∈ s,
      u.source = r.source ∧ u.target = r.target ∧ u.relationship = r.relationship := by
  have hkeeps := apply_keeps (l := .reference)
    (f := fun r : Reference => (r.source, r.target, r.relationship))
    (fun _ change => by cases change <;> rfl) r key
  exact hkeeps.mono fun _ h u hu => by simpa using h u hu

/-- A reference's settings leave its endpoints and relationship alone. -/
theorem referenceSettings_sides (r : Reference) (c : Cursor) :
    (settings? referenceSetting r).Ensures c fun s d => c.Passes d ∧
      s.source = r.source ∧ s.target = r.target ∧ s.relationship = r.relationship := by
  refine ((plain_settings? (plain_apply .reference) r).ensures_passes c).and (Yields.ensures ?_ c)
  refine .settings? Cursor.isRegion_anywhere (fun s key hs => ?_) ⟨rfl, rfl, rfl⟩
  refine (referenceSetting_sides s key).mono fun _ h u hu => ?_
  obtain ⟨hsource, htarget, hrelationship⟩ := h u hu
  exact ⟨hsource.trans hs.1, htarget.trans hs.2.1, hrelationship.trans hs.2.2⟩

/-- A reference's endpoints are read behind its keyword, and its span covers it. -/
theorem reference_isReadBehind (start : Span) (c : Cursor) :
    (reference start).Ensures c fun r d => IsReadBehind start c (.reference r) d := by
  refine .bind ((plain_referenceName?.ensures_passes c).mono fun _ b hname => ?_)
  refine .bind (((Plain.accept _).ensures_passes b).mono fun _ b hcolon => ?_)
  refine .bind (((Plain.accept _).ensures_passes b).mono fun isBraced b hbrace => ?_)
  refine .bind fun source e hread => ?_
  have hsource : ReadInTurn c [.endpoint source] e :=
    .append (.nil (hname.trans (hcolon.trans hbrace))) (.of_isReadBetween hread)
  refine .bind ((relationship_symbol e).mono ?_)
  rintro relationship _ ⟨hsymbol, rfl⟩
  refine .bind fun target b hread' => ?_
  have htarget : ReadInTurn e.advance [.endpoint target] b := .of_isReadBetween hread'
  refine .bind ((referenceSettings_sides _ b).mono ?_)
  rintro r d ⟨hpasses, rfl, rfl, rfl⟩
  have hbehind {b : Cursor} (h : d.Passes b) :
      IsReadBehind start c (.reference { r with span := start.through b.last }) b := by
    have htarget := htarget.append_passes (hpasses.trans h)
    exact ⟨hsource.passes.trans (e.passes_advance.trans htarget.passes), rfl,
      [.endpoint r.source, .endpoint r.target], .reference hsource hsymbol htarget⟩
  split
  · refine .bind (((plain_expect _).ensures_passes d).mono fun _ b hb => ensures_lastSpan ?_)
    exact .pure (hbehind hb)
  · exact ensures_lastSpan (.pure (hbehind (.refl d)))

/-- A project is read behind its keyword, and its span covers it. -/
theorem project_isReadBehind (start : Span) (c : Cursor) :
    (project start).Ensures c fun p d => IsReadBehind start c (.project p) d := by
  have hspan : (project start).Ensures c fun p d => p.span = start.through d.last := by
    refine .later _ fun _ _ => .later _ fun _ _ => .later _ fun _ _ => ensures_lastSpan ?_
    exact .pure rfl
  refine (((plain_project start).ensures_passes c).and hspan).mono fun p d hp => ?_
  exact ⟨hp.1, hp.2, [], .project hp.1⟩

/-- A construct has the span from its keyword to its last token, and its parts are read inside. -/
theorem construct_isReadBehind {k : TokenKind} {construct : Span → Parser Construct}
    (h : construct? k = some construct) (start : Span) (c : Cursor) :
    (construct start).Ensures c (IsReadBehind start c) := by
  obtain ⟨-, rfl⟩ | ⟨-, rfl⟩ | ⟨-, rfl⟩ | ⟨-, rfl⟩ := construct?_eq_some h
  · exact (project_isReadBehind start c).map
  · exact (table_isReadBehind start c).map
  · exact (reference_isReadBehind start c).map
  · exact (area_isReadBehind start c).map

end Parser

end SchemaDiagram.Document
