import SchemaDiagram.Proofs.Document.Attempts
import SchemaDiagram.Proofs.Document.Yields
import SchemaDiagram.Proofs.Markup.RawText

/-!
# What a source text gives can be written

Wherever something is read from a source text, it is of the kind that markup can say: a text in
parentheses was found there, an index covers a column, and each comment is one line without blanks
around it. Nothing is asked of the constructs in between, which may be broken in any way.

Main statement: `isRead_readConstructs`. It rests on `exists_of_mem_readConstructs`, which says of
every region what is read from it, by induction along the attempts to read a construct.
-/

namespace SchemaDiagram.Document

/-! ## What is read -/

/-- A column as a source text gives it. -/
structure Column.IsRead (c : Column) : Prop where
  /-- The text behind the type was found in parentheses. -/
  params : ∀ text ∈ c.params, IsRawText text
  /-- The comments are texts of line comments. -/
  comments : ∀ s ∈ c.comments, Markup.IsCommentText s

/-- A table as a source text gives it. -/
structure Table.IsRead (t : Table) : Prop where
  /-- So are the columns. -/
  columns : ∀ c ∈ t.columns, c.IsRead
  /-- Each index covers a column. -/
  indexes : ∀ i ∈ t.indexes, i.columns ≠ []

/-- An area as a source text gives it. -/
def Area.IsRead (a : Area) : Prop := ∀ c ∈ a.commonColumns, c.IsRead

/-- A construct as a source text gives it, apart from its own comments. -/
def Construct.IsRead : Construct → Prop
  | table t => t.IsRead
  | area a => a.IsRead
  | project _ => True
  | reference _ => True

/-- A construct that is read keeps its properties with comments attached. -/
theorem Construct.IsRead.withComments {x : Construct} (h : x.IsRead) (comments : List String) :
    (x.withComments comments).IsRead := by
  cases x with
  | table t => exact ⟨h.columns, h.indexes⟩
  | area a => exact h
  | project p => trivial
  | reference r => trivial

/-! ## Parsers in a source text -/

namespace Cursor

/-- Parsers stay within the tokens of one source. -/
theorem isRegion_isInSource : IsRegion IsInSource := fun _ _ h hd => h.reaches hd

end Cursor

namespace Parser

open Cursor

/-- Parentheses are read as raw text that can be written back. -/
theorem parenthesized?_yields :
    Yields IsInSource parenthesized? fun params => ∀ text ∈ params, IsRawText text := by
  have hraw : Yields IsInSource parenthesized IsRawText := fun c hc text d hr => ⟨c, d, hc, hr⟩
  refine .bind_any isRegion_isInSource _ fun isNext => ?_
  split
  · refine hraw.bind isRegion_isInSource fun text htext => .pure ?_
    rintro _ ⟨⟩
    exact htext
  · exact .pure fun _ h => absurd h (Option.not_mem_none _)

/-- A column's type parameters are raw text that can be written back. -/
theorem column_yields : Yields IsInSource column fun c => ∀ text ∈ c.params, IsRawText text := by
  refine .bind_any isRegion_isInSource _ fun _ => .bind_any isRegion_isInSource _ fun _ => ?_
  refine parenthesized?_yields.bind isRegion_isInSource fun params hparams => ?_
  exact .bind_any isRegion_isInSource _ fun _ => .bind_any isRegion_isInSource _ fun _ =>
    .pure hparams

/-- The comments that a part of a construct takes are those of the source text. -/
theorem takingComments_yields {α : Type} {p : Parser α} {P : α → Prop}
    (hp : Yields IsInSource p P) :
    Yields IsInSource p.takingComments fun r =>
      P r.1 ∧ ∀ s ∈ r.2, Markup.IsCommentText s := by
  intro c hc r d hr
  refine ⟨hp.takingComments isRegion_isInSource c hc r d hr, ?_⟩
  simp only [takingComments] at hr
  split at hr
  · cases hr
    exact fun s hs => hc.isCommentText (c.availableComments_subset hs)
  · cases hr

/-- A column with its comments can be written back. -/
theorem commentedColumn_yields : Yields IsInSource commentedColumn Column.IsRead :=
  (takingComments_yields column_yields).bind isRegion_isInSource fun _ h => .pure ⟨h.1, h.2⟩

/-! ### Tables -/

/-- An index that is read names at least one column. -/
theorem indexColumns_yields : Yields Anywhere indexColumns fun columns => columns ≠ [] := by
  refine .later fun isOpen => ?_
  split
  · refine .bind isRegion_anywhere (P := fun columns => columns ≠ []) ?_ fun columns hcolumns =>
      .later fun _ => .pure hcolumns
    refine .iterate (S := fun _ => True) isRegion_anywhere _ (fun columns _ => ?_) trivial
    refine .later fun column => .later fun isNext => ?_
    split
    · exact .pure trivial
    · exact .pure (List.append_ne_nil_of_right_ne_nil _ (List.cons_ne_nil _ _))
  · exact .later fun _ => .pure (List.cons_ne_nil _ _)

/-- A setting of an index leaves its columns alone. -/
theorem indexSetting_yields (i : Index) (key : SettingKey) :
    Yields Anywhere (indexSetting i key) fun j => ∀ k ∈ j, k.columns = i.columns :=
  apply_keeps (l := .index) (f := Index.columns) (fun _ change => by cases change <;> rfl) i key

/-- An index keeps at least one column through its settings. -/
theorem index_yields (start : Span) : Yields Anywhere (index start) fun i => i.columns ≠ [] := by
  refine indexColumns_yields.bind isRegion_anywhere fun columns hcolumns => ?_
  refine .bind isRegion_anywhere
    (.settings? (S := fun i : Index => i.columns ≠ []) isRegion_anywhere
      (fun i key hi => (indexSetting_yields i key).mono fun _ h j hj => (h j hj).symm ▸ hi) hcolumns)
    fun i hi => .later fun _ => .pure hi

/-- Every index of a block names at least one column. -/
theorem indexes_yields :
    Yields Anywhere indexes fun more => ∀ i ∈ more, i.columns ≠ [] := by
  refine .later fun _ => .later fun _ => ?_
  refine .block isRegion_anywhere _ _ _ _ (fun more k hmore => ?_)
    fun _ h => absurd h List.not_mem_nil
  unfold indexesEntry
  split
  · refine .later fun start => (index_yields start).bind isRegion_anywhere fun i hi => .pure ?_
    exact List.forall_mem_append.2 ⟨hmore, List.forall_mem_singleton.2 hi⟩
  · exact .later fun _ => .pure hmore

/-- An entry of a table's body keeps the table one that can be written back. -/
theorem tableEntry_yields {t : Table} (ht : t.IsRead) (k : TokenKind) :
    Yields IsInSource (tableEntry t k) Table.IsRead := by
  refine .bind_any isRegion_isInSource _ fun second => ?_
  split
  · exact .bind_any isRegion_isInSource _ fun _ => .pure ⟨ht.columns, ht.indexes⟩
  split
  · refine indexes_yields.within.bind isRegion_isInSource fun more hmore => .pure ?_
    exact ⟨ht.columns, List.forall_mem_append.2 ⟨ht.indexes, hmore⟩⟩
  split
  · refine commentedColumn_yields.bind isRegion_isInSource fun c hc => .pure ?_
    exact ⟨List.forall_mem_append.2 ⟨ht.columns, List.forall_mem_singleton.2 hc⟩, ht.indexes⟩
  · exact .bind_any isRegion_isInSource _ fun _ => .pure ht

/-- A table that is read can be written back. -/
theorem table_isRead (start : Span) : Yields IsInSource (table start) Table.IsRead := by
  refine .bind_any isRegion_isInSource _ fun _ => .bind_any isRegion_isInSource _ fun _ => ?_
  refine .bind isRegion_isInSource (P := Table.IsRead)
    (.settings? isRegion_isInSource (fun t key ht => ?_)
      ⟨fun _ h => absurd h List.not_mem_nil, fun _ h => absurd h List.not_mem_nil⟩) fun head hhead => ?_
  · refine (tableSetting_body t key).within.mono fun _ h u hu => ?_
    obtain ⟨hcolumns, hindexes⟩ := h u hu
    exact ⟨hcolumns ▸ ht.columns, hindexes ▸ ht.indexes⟩
  refine .bind_any isRegion_isInSource _ fun _ => ?_
  refine .bind isRegion_isInSource
    (.block isRegion_isInSource _ _ _ _ (fun t k ht => tableEntry_yields ht k) hhead) fun t ht => ?_
  exact .bind_any isRegion_isInSource _ fun _ => .pure ⟨ht.columns, ht.indexes⟩

/-! ### Areas -/

/-- Common columns that are read can be written back. -/
theorem commonColumns_yields :
    Yields IsInSource commonColumns fun more => ∀ c ∈ more, c.IsRead := by
  refine .bind_any isRegion_isInSource _ fun _ => .bind_any isRegion_isInSource _ fun _ =>
    .bind_any isRegion_isInSource _ fun _ => ?_
  refine .iterate (S := fun columns => ∀ c ∈ columns, c.IsRead) isRegion_isInSource _
    (fun columns hcolumns => .bind_any isRegion_isInSource _ fun k => ?_)
    fun _ h => absurd h List.not_mem_nil
  split
  · exact .unexpected _
  split
  · exact .bind_any isRegion_isInSource _ fun _ => .pure hcolumns
  split
  · exact .unexpected _
  split
  · refine commentedColumn_yields.bind isRegion_isInSource fun c hc => .pure ?_
    exact List.forall_mem_append.2 ⟨hcolumns, List.forall_mem_singleton.2 hc⟩
  · exact .bind_any isRegion_isInSource _ fun _ => .pure hcolumns

/-- A setting of an area keeps its common columns. -/
theorem areaSetting_isRead {a : Area} (ha : a.IsRead) (key : SettingKey) :
    Yields IsInSource (areaSetting a key) fun b => ∀ c ∈ b, c.IsRead :=
  (areaSetting_commonColumns a key).within.mono fun _ h b hb => by
    rw [Area.IsRead, h b hb]
    exact ha

/-- An entry of an area's body keeps the area one that can be written back. -/
theorem areaEntry_yields {a : Area} (ha : a.IsRead) (k : TokenKind) :
    Yields IsInSource (areaEntry a k) Area.IsRead := by
  refine .bind_any isRegion_isInSource _ fun second => ?_
  split
  · exact .bind_any isRegion_isInSource _ fun _ => .pure ha
  split
  · exact commonColumns_yields.bind isRegion_isInSource fun more hmore =>
      .pure (List.forall_mem_append.2 ⟨ha, hmore⟩)
  split
  · refine .bind_any isRegion_isInSource _ fun key => ?_
    refine (areaSetting_isRead ha key).bind isRegion_isInSource fun b hb => ?_
    rcases b with _ | b
    · exact .bind_any isRegion_isInSource _ fun _ => .pure ha
    · exact .pure (hb b rfl)
  split
  · exact .bind_any isRegion_isInSource _ fun _ => .pure ha
  · exact .bind_any isRegion_isInSource _ fun _ => .pure ha

/-- An area that is read can be written back. -/
theorem area_isRead (start : Span) : Yields IsInSource (area start) Area.IsRead := by
  refine .bind_any isRegion_isInSource _ fun _ => ?_
  refine .bind isRegion_isInSource (P := Area.IsRead)
    (.settings? isRegion_isInSource (fun a key ha => areaSetting_isRead ha key)
      fun _ h => absurd h List.not_mem_nil)
    fun head hhead => .bind_any isRegion_isInSource _ fun _ => ?_
  refine .bind isRegion_isInSource
    (.block isRegion_isInSource _ _ _ _ (fun a k ha => areaEntry_yields ha k) hhead) fun a ha => ?_
  exact .bind_any isRegion_isInSource _ fun _ => .pure ha

/-- Every construct that is read can be written back, whichever keyword selects it. -/
theorem construct_isRead {k : TokenKind} {construct : Span → Parser Construct}
    (h : construct? k = some construct) (start : Span) :
    Yields IsInSource (construct start) Construct.IsRead := by
  obtain ⟨-, rfl⟩ | ⟨-, rfl⟩ | ⟨-, rfl⟩ | ⟨-, rfl⟩ := construct?_eq_some h
  · exact (Yields.any _).map fun _ _ => trivial
  · exact (table_isRead start).map fun _ ht => ht
  · exact (Yields.any _).map fun _ _ => trivial
  · exact (area_isRead start).map fun _ ha => ha

end Parser

/-! ## Documents in a source text -/

/-- A construct that is read from a region has what the parsers of constructs yield there, apart
from the comments that stood in front of it in the region. -/
theorem exists_of_mem_readConstructs {I : Cursor → Prop} (hI : Cursor.IsRegion I)
    {P : Construct → Prop} (hP : ∀ {k construct}, Parser.construct? k = some construct →
      ∀ start, Parser.Yields I (construct start) P) {c : Cursor} (hc : I c) :
    ∀ x ∈ (readConstructs c).1, ∃ y d, P y ∧ I d ∧ x = y.withComments d.availableComments := by
  fun_induction attempts c with
  | case1 c hrest =>
    rw [readConstructs_of_nil hrest]
    exact fun x hx => absurd hx List.not_mem_nil
  | case2 c t ts hrest ih =>
    rw [readConstructs_of_cons hrest]
    refine List.forall_mem_append.2 ⟨?_, ih (hI c _ hc (c.reaches_behind t.token))⟩
    intro x hx
    rcases hread : c.construct t.token with ⟨y, d⟩ | ⟨e, d⟩
    · rw [hread] at hx
      obtain rfl := List.mem_singleton.1 hx
      refine ⟨y, c, ?_, hc, rfl⟩
      obtain ⟨construct, hk, hread⟩ := Cursor.exists_of_construct hread
      refine hP hk t.token.span _ (hI c _ hc ?_) y d hread
      exact c.reaches_takeComments.trans c.takeComments.reaches_advance
    · rw [hread] at hx
      cases hx

/-- The constructs that are read from a source text are of the kind that markup can say. -/
theorem isRead_readConstructs {c : Cursor} (hc : c.IsInSource) :
    ∀ x ∈ (readConstructs c).1, x.IsRead ∧ ∀ s ∈ x.comments, Markup.IsCommentText s := by
  intro x hx
  obtain ⟨y, d, hy, hd, rfl⟩ :=
    exists_of_mem_readConstructs Cursor.isRegion_isInSource Parser.construct_isRead hc x hx
  refine ⟨hy.withComments _, ?_⟩
  rw [Construct.comments_withComments]
  exact fun s hs => hd.isCommentText (d.availableComments_subset hs)

/-- The constructs of a source text are of the kind that markup can say. -/
theorem isRead_ofTokens {source : String} {ts : List Token} (h : Token.scan source = .ok ts) :
    ∀ x ∈ (ofTokens ts).document.constructs,
      x.IsRead ∧ ∀ s ∈ x.comments, Markup.IsCommentText s :=
  isRead_readConstructs ⟨source, ts, h, .refl _⟩

end SchemaDiagram.Document
