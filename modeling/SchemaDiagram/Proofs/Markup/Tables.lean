import SchemaDiagram.Document.Table
import SchemaDiagram.Proofs.Markup.Blocks

/-!
# Tables in markup

A table is printed as a block: its columns, its indexes and its note. Reading the block gives the
table back (`Table.canonical`), without the areas that it belongs to, which only the areas say.
-/

namespace SchemaDiagram

/-- The table as its markup says it: a place that is not finite is left out, and the areas that the
table belongs to are not said. -/
def Table.canonical (t : Table) : Table :=
  { t with
    columns := t.columns.map Column.canonical
    position := t.position.filter Point.isFinite
    areaIds := []
    comments := t.comments.flatMap Markup.commentLines }

namespace Document

open Lexeme

variable {rest : List Char} {ws vs : List Word}

/-! ## Indexes -/

/-- The word of a column of an index. -/
def indexColumnWord (c : String) : Word :=
  if c.toList.contains '(' then quotedWord .backtick c else nameWord c

/-- The word of an index's column stands for the column's name. -/
theorem value_indexColumnWord (c : String) : (indexColumnWord c).value = c := by
  unfold indexColumnWord
  split
  · exact value_quotedWord .backtick c
  · exact value_nameWord c

/-- The word of an index's column has no comments. -/
theorem comments_indexColumnWord (c : String) : (indexColumnWord c).comments = [] := by
  unfold indexColumnWord
  split <;> rfl

/-- The word of an index's column may be an index's column. -/
theorem isIndexColumn_indexColumnWord (c : String) :
    Parser.isIndexColumn (indexColumnWord c).kind = true := by
  unfold indexColumnWord
  split
  · rfl
  · have hname : (nameWord c).kind.isName = true := isName_nameKind c
    unfold Parser.isIndexColumn
    rw [hname, Bool.true_or]

/-- A column of an index is scanned as its word, if what follows does not continue it. -/
theorem Lexes.indexColumn (c : String) {d : Char} (hd : continuesWord d = false)
    (h : Lexes [] (d :: rest) ws) :
    Lexes [] ((Markup.indexColumn c).toList ++ d :: rest) (indexColumnWord c :: ws) := by
  unfold Markup.indexColumn indexColumnWord
  split
  · exact Lexes.quoted .backtick c h
  · exact Lexes.name c hd h

/-- The words of the columns of an index, and of the parenthesis behind them. -/
def indexColumnsWords : List String → List Word
  | [] => [markWord .rightParen]
  | [c] => [indexColumnWord c, markWord .rightParen]
  | c :: others => indexColumnWord c :: markWord .comma :: indexColumnsWords others

/-- The columns of an index and the parenthesis behind them are scanned as their words. -/
theorem Lexes.indexColumns (cs : List String) (h : Lexes [] rest ws) :
    Lexes [] ((", ".intercalate (cs.map Markup.indexColumn)).toList ++ ')' :: rest)
      (indexColumnsWords cs ++ ws) := by
  have hparen : Lexes [] (')' :: rest) (markWord .rightParen :: ws) :=
    Lexes.mark .rightParen (by decide) h
  fun_induction indexColumnsWords cs with
  | case1 => exact hparen
  | case2 c =>
    rw [List.map_singleton, String.intercalate_singleton]
    exact Lexes.indexColumn c rfl hparen
  | case3 c others hne ih =>
    obtain ⟨d, others, rfl⟩ := List.exists_cons_of_ne_nil hne
    rw [List.map_cons, List.map_cons, String.intercalate_cons_cons, String.toList_append,
      String.toList_append, List.append_assoc, List.append_assoc]
    exact Lexes.indexColumn c rfl (Lexes.mark .comma (by decide) (ih.space rfl))

/-- The entries for the settings of an index. -/
def indexEntries (i : SchemaDiagram.Index) : List (Entry Parser.indexSetting) :=
  Entry.when i.unique (.flag "unique" (fun j => { j with unique := true }) isPlainKey_unique
      fun _ => rfl) ++
    Entry.when i.pk (.flag "pk" (fun j => { j with pk := true }) isPlainKey_pk fun _ => rfl) ++
    Entry.ofOption i.name
      (.anyText "name" · (fun text j => { j with name := some text }) rfl fun _ => rfl)

/-- The settings of an index are written as the markup writes them. -/
theorem map_text_indexEntries (i : SchemaDiagram.Index) :
    (indexEntries i).map Entry.text = Markup.flag? "unique" i.unique ++ Markup.flag? "pk" i.pk ++
      Markup.setting? "name" Markup.text i.name := by
  unfold indexEntries
  rw [List.map_append, List.map_append]
  refine congrArg₂ (· ++ ·) (congrArg₂ (· ++ ·) ?_ ?_) ?_
  · exact map_text_when (Entry.text_flag ..) _
  · exact map_text_when (Entry.text_flag ..) _
  · exact map_text_ofOption (fun _ => Entry.text_value ..) _

/-- The settings of an index set its flags and its name. -/
theorem effects_indexEntries (i : SchemaDiagram.Index) (span : Span) :
    effects (indexEntries i) ⟨i.columns, false, false, none, span⟩ =
      ⟨i.columns, i.unique, i.pk, i.name, span⟩ := by
  unfold indexEntries
  cases i.unique <;> cases i.pk <;> cases i.name <;> rfl

/-- The words of an index. -/
def indexWords (i : SchemaDiagram.Index) : List Word :=
  markWord .leftParen :: (indexColumnsWords i.columns ++ settingsWords (indexEntries i))

/-- An index is scanned as its words. -/
theorem Lexes.index (i : SchemaDiagram.Index) (h : Lexes [] rest ws) :
    Lexes [] ((Markup.index i).toList ++ rest) (indexWords i ++ ws) := by
  have hsettings := Lexes.settings (indexEntries i) (h.space (c := '\n') rfl)
  have hcolumns : Lexes [] _ _ := Lexes.mark .leftParen (by decide)
    (Lexes.indexColumns i.columns hsettings)
  have hchars : ("(" ++ ", ".intercalate (i.columns.map Markup.indexColumn) ++ ")" ++
        Markup.settings ((indexEntries i).map Entry.text)).toList ++ '\n' :: rest =
      '(' :: ((", ".intercalate (i.columns.map Markup.indexColumn)).toList ++
        ')' :: ((Markup.settings ((indexEntries i).map Entry.text)).toList ++ '\n' :: rest)) := by
    simp
  unfold Markup.index indexWords
  rw [← map_text_indexEntries]
  refine Lexes.line 2 ?_
  rw [hchars, List.cons_append, List.append_assoc]
  exact hcolumns

/-- The words of the indexes of a table, if there are any. -/
def indexesWords (is : List SchemaDiagram.Index) : List Word :=
  if is.isEmpty then []
  else letterWord "indexes" :: markWord .leftBrace :: (is.flatMap indexWords ++
    [markWord .rightBrace])

/-- A block of indexes is scanned as its words. -/
theorem Lexes.indexes (is : List SchemaDiagram.Index) (h : Lexes [] rest ws) :
    Lexes [] ((Markup.indexes is).toList ++ rest) (indexesWords is ++ ws) := by
  have hword : Lexes [] _ _ := Lexes.letters (w := "indexes".toList) (mem_word_of_isLetters rfl)
    (c := ' ') rfl (Lexes.space rfl (Lexes.mark .leftBrace (by decide)
      (Lexes.space (c := '\n') rfl
        (Lexes.join _ _ is (fun i _ {_ _} h => Lexes.index i h) (Lexes.closing 1 h)))))
  have hchars : "indexes \x7b".toList = "indexes".toList ++ [' ', '\x7b'] := by simp
  unfold Markup.indexes indexesWords
  split
  · exact h
  · rw [String.toList_append, String.toList_append, List.append_assoc, List.append_assoc]
    refine Lexes.line 1 ?_
    rw [hchars, List.cons_append, List.cons_append, List.append_assoc, List.append_assoc]
    exact hword

/-! ## Reading indexes -/

namespace Parser.Reads

/-- The word of an index's column is read as the column's name. -/
theorem indexColumn (c : String) :
    indexColumn.Reads (indexColumnWord c :: ws) ws (· = c) := by
  unfold Parser.indexColumn
  refine bind (take _ (fun t ht => ?_) (comments_indexColumnWord c)) fun t ht => pure ?_
  · rw [ht.kind]
    exact isIndexColumn_indexColumnWord c
  · rw [ht.value, value_indexColumnWord]

/-- The words of an index's columns are read as their names. -/
theorem indexColumns_loop (cs : List String) (hcs : cs ≠ []) (done : List String) :
    (iterate indexColumnsStep consumes_indexColumnsStep done).Reads
      (indexColumnsWords cs ++ ws) (markWord .rightParen :: ws) (· = done ++ cs) := by
  fun_induction indexColumnsWords cs generalizing done with
  | case1 => exact absurd rfl hcs
  | case2 c =>
    refine iterate_last ?_
    unfold indexColumnsStep
    refine bind (indexColumn c) fun d hd => bind (accept_other (by simp [markWord])) fun b hb => ?_
    rw [hb, hd]
    exact pure ⟨_, rfl, rfl⟩
  | case3 c others hne ih =>
    refine iterate_next (S := (· = done ++ [c])) (v := indexColumnsWords others ++ ws) ?_ ?_
    · unfold indexColumnsStep
      refine bind (indexColumn c) fun d hd => bind (accept rfl rfl) fun b hb => ?_
      rw [hb, hd]
      exact pure ⟨_, rfl, rfl⟩
    · intro done' hdone'
      refine mono (ih hne done') fun r hr => ?_
      rw [hr, hdone', List.append_assoc, List.singleton_append]

/-- The words of an index are read as the index. -/
theorem index {i : SchemaDiagram.Index} (hi : i.columns ≠ []) (start : Span)
    (hnext : ws.head?.map Word.kind ≠ some (.mark .leftBracket)) :
    (index start).Reads (indexWords i ++ ws) ws (·.toModel = i) := by
  have hcolumns : indexColumns.Reads (indexWords i ++ ws) (settingsWords (indexEntries i) ++ ws)
      (· = i.columns) := by
    unfold indexColumns indexWords
    rw [List.cons_append, List.append_assoc]
    refine bind (accept rfl rfl) fun b hb => ?_
    rw [hb]
    refine bind (indexColumns_loop i.columns hi []) fun cs hcs => ?_
    refine bind (expect rfl rfl) fun _ _ => pure ?_
    rw [hcs, List.nil_append]
  unfold Parser.index
  refine bind hcolumns fun cs hcs => ?_
  rw [hcs]
  refine bind (settings? (indexEntries i) _ hnext) fun j hj => lastSpan_bind fun last => pure ?_
  rw [hj, effects_indexEntries]
  rfl

/-- The words of several indexes are read as these, up to the closing brace. -/
theorem indexes_loop {construct name : String} {opening : Span} (is : List SchemaDiagram.Index)
    (his : ∀ i ∈ is, i.columns ≠ []) (done : List Index) :
    (block construct name opening indexesEntry consumes_indexesEntry done).Reads
      (is.flatMap indexWords ++ markWord .rightBrace :: ws) ws
      (·.map Index.toModel = done.map Index.toModel ++ is) := by
  induction is generalizing done with
  | nil => exact block_last (by simp)
  | cons i is ih =>
    obtain ⟨hi, his⟩ := List.forall_mem_cons.1 his
    have hnext : (is.flatMap indexWords ++ markWord .rightBrace :: ws).head?.map Word.kind ≠
        some (.mark .leftBracket) := by
      cases is <;> simp [indexWords, markWord]
    rw [List.flatMap_cons, List.append_assoc]
    refine block_next (w := markWord .leftParen)
      (S := (·.map Index.toModel = done.map Index.toModel ++ [i])) (by simp [markWord]) rfl ?_ ?_
      (v := is.flatMap indexWords ++ markWord .rightBrace :: ws)
    · have hparen : (markWord .leftParen).kind = .mark .leftParen := rfl
      unfold indexesEntry
      rw [if_pos (Or.inl hparen)]
      refine nextSpan_bind fun start => bind (index hi start hnext) fun j hj => pure ?_
      rw [List.map_append, List.map_singleton, hj]
    · intro done' hdone'
      refine mono (ih his done') fun r hr => ?_
      rw [hr, hdone', List.append_assoc, List.singleton_append]

/-- The words of a block of indexes are read as the indexes. -/
theorem indexes (is : List SchemaDiagram.Index) (his : ∀ i ∈ is, i.columns ≠ []) :
    indexes.Reads (letterWord "indexes" :: markWord .leftBrace ::
      (is.flatMap indexWords ++ markWord .rightBrace :: ws)) ws (·.map Index.toModel = is) := by
  unfold Parser.indexes
  refine bind (expect rfl rfl) fun _ _ => bind (expect rfl rfl) fun _ _ => ?_
  exact indexes_loop is his []

end Parser.Reads

/-! ## Tables -/

/-- What markup needs to say a table: the table has the identifier of its name, the texts behind
types can be read as such, and each index covers something. -/
structure IsWritableTable (t : SchemaDiagram.Table) : Prop where
  /-- The identifier is that of the name. -/
  named : t.id = .ofName t.name
  /-- The texts behind types can be read in parentheses. -/
  params : ∀ c ∈ t.columns, ∀ text ∈ c.typeParams, IsRawText text
  /-- Each index covers a column. -/
  indexes : ∀ i ∈ t.indexes, i.columns ≠ []

/-- The entries for the place of a table. -/
def tablePosition (p : Option Point) : List (Entry Parser.tableSetting) :=
  Entry.position (fun x u => { u with posX := x.or u.posX })
    (fun y u => { u with posY := y.or u.posY }) (fun _ => rfl) (fun _ => rfl) p

/-- A table's place that is finite is set, and another one changes nothing. -/
theorem effects_tablePosition (p : Option Point) (u : Table) :
    effects (tablePosition p) u =
      match p.filter Point.isFinite with
      | some q => { u with posX := some q.x, posY := some q.y }
      | none => u :=
  Entry.effects_position p u

/-- The entries for the settings of a table. -/
def tableEntries (t : SchemaDiagram.Table) : List (Entry Parser.tableSetting) :=
  Entry.ofOption t.aliasName
      (.anyText "alias" · (fun text u => { u with aliasName := some text }) isPlainKey_alias
        fun _ => rfl) ++
    tablePosition t.position ++
    Entry.ofOption t.color
      (.color "color" · (fun color u => { u with color := color.or u.color }) isPlainKey_color
        fun _ => rfl)

/-- The settings of a table are written as the markup writes them. -/
theorem map_text_tableEntries (t : SchemaDiagram.Table) :
    (tableEntries t).map Entry.text = Markup.setting? "alias" Markup.text t.aliasName ++
      Markup.position? t.position ++ Markup.setting? "color" Color.text t.color := by
  unfold tableEntries
  rw [List.map_append, List.map_append]
  refine congrArg₂ (· ++ ·) (congrArg₂ (· ++ ·) ?_ ?_) ?_
  · exact map_text_ofOption (fun _ => Entry.text_value ..) _
  · exact Entry.map_text_position _
  · exact map_text_ofOption (fun _ => Entry.text_value ..) _

/-- A table whose header has been read. -/
theorem toModel_effects_tableEntries {t : SchemaDiagram.Table} (ht : t.id = .ofName t.name)
    (start : Span) :
    (effects (tableEntries t)
        ⟨t.name, none, [], [], none, none, none, none, start, []⟩).toModel =
      { t.canonical with columns := [], indexes := [], note := none, comments := [] } := by
  unfold tableEntries SchemaDiagram.Table.canonical
  rw [effects_append, effects_append, effects_tablePosition, ht]
  cases t.aliasName <;> cases t.position.filter Point.isFinite <;> cases t.color <;> rfl

/-- The words between the braces of a table, and the closing brace. -/
noncomputable def tableBody (t : SchemaDiagram.Table) : List Word :=
  t.columns.flatMap columnWords ++
    (indexesWords t.indexes ++ (lineWords? "Note" t.note ++ [markWord .rightBrace]))

/-- The words of a table. -/
noncomputable def tableWords (t : SchemaDiagram.Table) : List Word :=
  { letterWord "Table" with comments := t.comments.flatMap Markup.commentLines } ::
    nameWord t.name :: (settingsWords (tableEntries t) ++ markWord .leftBrace :: tableBody t)

/-- A table is scanned as its words. -/
theorem Lexes.table {t : SchemaDiagram.Table} (ht : IsWritableTable t) (h : Lexes [] rest ws) :
    Lexes [] ((Markup.table t).toList ++ rest) (tableWords t ++ ws) := by
  have hbody : Lexes [] ((String.join (t.columns.map (Markup.column 1))).toList ++
      ((Markup.indexes t.indexes).toList ++ ((Markup.line? 1 "Note" t.note).toList ++
        ((Markup.line 0 "\x7d").toList ++ rest)))) (tableBody t ++ ws) := by
    unfold tableBody
    rw [List.append_assoc, List.append_assoc, List.append_assoc]
    refine Lexes.join _ _ t.columns (fun c hc {_ _} h => Lexes.column 1 (ht.params c hc) h) ?_
    exact Lexes.indexes _ (Lexes.keyLine? 1 _ rfl _ (Lexes.closing 0 h))
  have hopening : Lexes (t.comments.flatMap Markup.commentLines) _ _ :=
    Lexes.opening "Table" rfl t.name (tableEntries t) hbody
  have hkeyword : "Table" ++ " " = "Table " := by decide
  have hchars : (Markup.table t).toList ++ rest = (Markup.comments 0 t.comments).toList ++
      ((Markup.line 0 ("Table" ++ " " ++ Markup.name t.name ++
        Markup.settings ((tableEntries t).map Entry.text) ++ " \x7b")).toList ++
      ((String.join (t.columns.map (Markup.column 1))).toList ++
        ((Markup.indexes t.indexes).toList ++ ((Markup.line? 1 "Note" t.note).toList ++
          ((Markup.line 0 "\x7d").toList ++ rest))))) := by
    rw [map_text_tableEntries, hkeyword]
    simp only [Markup.table, String.toList_append, List.append_assoc]
  unfold tableWords
  rw [hchars, List.cons_append, List.cons_append, List.append_assoc]
  exact Lexes.comments_lines 0 t.comments hopening

namespace Parser.Reads

variable {us : List Word} {construct name : String} {opening : Span} {P : Table → Prop}

/-- The columns of a block are read one after another. -/
theorem table_columns (cs : List SchemaDiagram.Column)
    (hcs : ∀ c ∈ cs, ∀ text ∈ c.typeParams, IsRawText text) (hend : EndsColumn us) (t : Table)
    (hothers : ∀ u : Table, u.toModel =
        { t.toModel with columns := t.toModel.columns ++ cs.map SchemaDiagram.Column.canonical } →
      (block construct name opening tableEntry consumes_tableEntry u).Reads us vs P) :
    (block construct name opening tableEntry consumes_tableEntry t).Reads
      (cs.flatMap columnWords ++ us) vs P := by
  induction cs generalizing t with
  | nil =>
    refine hothers t ?_
    rw [List.map_nil, List.append_nil]
  | cons c cs ih =>
    obtain ⟨hc, hcs⟩ := List.forall_mem_cons.1 hcs
    have hcolumn := commentedColumn hc (endsColumn_columns cs hend)
    obtain ⟨w, others, hwords, hkind, hname⟩ := isName_columnWords c
    rw [List.flatMap_cons, List.append_assoc]
    rw [hwords, List.cons_append] at hcolumn ⊢
    refine block_name hname (v := cs.flatMap columnWords ++ us) (S := fun u => u.toModel =
      { t.toModel with columns := t.toModel.columns ++ [c.canonical] }) ?_ fun u hu => ?_
    · have hnote : ¬ (w.kind = .keyword .note ∧ isColonOrBrace
          ((w :: (others ++ (cs.flatMap columnWords ++ us))).tail.head?.map Word.kind) = true) := by
        rintro ⟨hnote, -⟩
        rw [hkind] at hnote
        exact nameKind_ne_keyword (by decide) hnote
      have hindexes : ¬ (w.kind = .keyword .indexes ∧
          (w :: (others ++ (cs.flatMap columnWords ++ us))).tail.head?.map Word.kind =
            some (.mark .leftBrace)) := by
        rintro ⟨hindexes, -⟩
        rw [hkind] at hindexes
        exact nameKind_ne_keyword (by decide) hindexes
      unfold tableEntry
      refine secondKind?_bind ?_
      rw [if_neg hnote, if_neg hindexes, if_pos hname]
      refine bind hcolumn fun d hd => pure ?_
      simp [Table.toModel, hd]
    · refine ih hcs u fun v hv => hothers v ?_
      rw [hv, hu, List.map_cons, List.append_assoc, List.singleton_append]

/-- The words of a table's indexes add them to the table. -/
theorem table_indexes (is : List SchemaDiagram.Index) (his : ∀ i ∈ is, i.columns ≠ []) (t : Table)
    (hothers : ∀ u : Table, u.toModel =
        { t.toModel with indexes := t.toModel.indexes ++ is } →
      (block construct name opening tableEntry consumes_tableEntry u).Reads us vs P) :
    (block construct name opening tableEntry consumes_tableEntry t).Reads
      (indexesWords is ++ us) vs P := by
  unfold indexesWords
  split
  · next hempty =>
    refine hothers t ?_
    rw [List.isEmpty_iff.1 hempty, List.append_nil]
  · rw [List.cons_append, List.cons_append, List.append_assoc, List.singleton_append]
    refine block_name rfl (S := fun u => u.toModel =
      { t.toModel with indexes := t.toModel.indexes ++ is }) ?_ hothers
    unfold tableEntry
    refine secondKind?_bind ?_
    rw [if_neg (by rintro ⟨hk, -⟩; cases hk), if_pos ⟨rfl, rfl⟩]
    refine bind (indexes is his) fun more hmore => pure ?_
    simp [Table.toModel, hmore]

/-- The words of a table's note set it. -/
theorem table_note (text? : Option String) (t : Table)
    (hothers : ∀ u : Table, u.toModel = { t.toModel with note := text?.or t.toModel.note } →
      (block construct name opening tableEntry consumes_tableEntry u).Reads us vs P) :
    (block construct name opening tableEntry consumes_tableEntry t).Reads
      (lineWords? "Note" text? ++ us) vs P := by
  cases text? with
  | none => exact hothers t rfl
  | some text =>
    refine block_name (w := letterWord "Note") rfl (S := fun u => u.toModel =
      { t.toModel with note := some text }) ?_ hothers
    unfold tableEntry
    refine secondKind?_bind ?_
    rw [if_pos ⟨rfl, rfl⟩]
    refine bind (note text) fun a ha => pure ?_
    rw [ha]
    rfl

/-- A table is read back behind its keyword. -/
theorem table {t : SchemaDiagram.Table} (ht : IsWritableTable t) (start : Span) :
    (table start).Reads (nameWord t.name ::
        (settingsWords (tableEntries t) ++ markWord .leftBrace :: (tableBody t ++ ws))) ws
      (·.toModel = { t.canonical with comments := [] }) := by
  have halias : tableAlias?.Reads
      (settingsWords (tableEntries t) ++ markWord .leftBrace :: (tableBody t ++ ws))
      (settingsWords (tableEntries t) ++ markWord .leftBrace :: (tableBody t ++ ws))
      (· = none) := by
    unfold tableAlias?
    refine bind (isWord "as") fun b hb => ?_
    have hnone : b = false := by
      rw [hb]
      unfold settingsWords
      split <;> rfl
    rw [hnone]
    exact pure rfl
  unfold Parser.table
  refine bind (name t.name _) fun n hn => bind halias fun a ha => ?_
  rw [hn, ha]
  refine bind (settings? (tableEntries t) _ (by simp [markWord])) fun head hhead => ?_
  have hmodel := toModel_effects_tableEntries ht.named start
  rw [← hhead] at hmodel
  refine bind (expect rfl rfl) fun brace _ => bind (P := (·.toModel = { t.canonical with comments := [] }))
    ?_ fun u hu => lastSpan_bind fun last => pure hu
  unfold tableBody
  simp only [List.append_assoc, List.singleton_append]
  refine table_columns t.columns ht.params ?_ head fun u hu => ?_
  · unfold indexesWords
    split
    · exact endsColumn_lineWords? "Note" rfl t.note (endsColumn_mark (by decide))
    · exact endsColumn_of_isName rfl
  refine table_indexes t.indexes ht.indexes u fun u' hu' => ?_
  refine table_note t.note u' fun u'' hu'' => block_last ?_
  rw [hu'', hu', hu, hmodel]
  simp [SchemaDiagram.Table.canonical]

end Parser.Reads

end Document

end SchemaDiagram
