import SchemaDiagram.Proofs.Document.Constructs
import SchemaDiagram.Proofs.Document.Recovery
import SchemaDiagram.Proofs.Document.Uncommented

/-!
# Every document of the grammar is read

Reading a document of the grammar reports nothing, and gives the constructs that the document
denotes. Comments are left aside: what stands in front of a document with comments is alike to the
cursor in front of its tokens alone.

Main statement: `ofTokens_of_isDocument`.
-/

namespace SchemaDiagram.Document

open Grammar Cursor

variable {last stop : Span} {us : List Token}

/-- A document that is not empty starts with a keyword that opens a construct. -/
theorem constructNext_of_isDocument {xs : List Construct} (h : IsDocument us xs) :
    Parser.ConstructNext us := by
  rintro t ht
  cases h with
  | nil => cases ht
  | cons construct others =>
    obtain ⟨keyword, ts, _, rfl, hopens, -⟩ := Parser.readsConstruct construct
    cases ht
    exact hopens

/-- A derived document is read as its constructs, with nothing reported. -/
theorem readConstructs_facing {xs : List Construct} (h : IsDocument us xs) :
    (readConstructs (facing last stop us)).2.reported = [] ∧
      (readConstructs (facing last stop us)).1.map Construct.withoutComments =
        xs.map Construct.withoutComments := by
  induction h generalizing last with
  | nil =>
    rw [readConstructs_of_nil rfl]
    exact ⟨rfl, rfl⟩
  | @cons ts us x xs construct others ih =>
    obtain ⟨keyword, ts, parser, rfl, hopens, hparser, hrun⟩ := Parser.readsConstruct construct
    have hread : (parser keyword.span).run
        (facing last stop (keyword :: ts ++ us)).takeComments.advance =
          .ok x (facing (lastOf keyword.span ts) stop us) :=
      hrun stop us (constructNext_of_isDocument others)
    obtain ⟨hreported, hconstructs⟩ := @ih (lastOf keyword.span ts)
    rw [readConstructs_of_ok rfl hparser hread]
    refine ⟨hreported, ?_⟩
    rw [List.map_cons, List.map_cons, hconstructs, Construct.withoutComments_withComments]

/-- Every document of the grammar is read as what it denotes. If the tokens in front of the end,
apart from line comments, are a document, then there are no diagnostics, and but for the comments
that were filed with them the constructs are those of the document. -/
theorem ofTokens_of_isDocument {ts : List Token} {xs : List Construct}
    (h : IsDocument (structuralTokens ts) xs) :
    (ofTokens ts).diagnostics = [] ∧
      (ofTokens ts).document.withoutComments = withoutComments ⟨xs⟩ := by
  have halike : (Cursor.ofTokens ts).Alike
      (facing (.point ⟨0, 0, 0⟩) (endSpan ts) (structuralTokens ts)) := by
    refine ⟨?_, rfl, rfl, rfl⟩
    rw [tokens_ofTokens, Cursor.tokens, rest_facing, List.map_map]
    exact (List.map_id _).symm
  obtain ⟨hconstructs, hreported⟩ := readConstructs_alike halike
  obtain ⟨hnone, hdenoted⟩ := readConstructs_facing h
  exact ⟨hreported.trans hnone, congrArg Document.mk (hconstructs.trans hdenoted)⟩

/-- A column with the words `indexes` and `not` for its name and its type. -/
def indexesColumn : List Token :=
  [⟨.keyword .indexes, default, "indexes"⟩, ⟨.keyword .not, default, "not"⟩,
    ⟨.mark .leftBracket, default, "["⟩, ⟨.identifier, default, "P_k"⟩,
    ⟨.mark .rightBracket, default, "]"⟩]

/-- A block of indexes with the word `indexes` for the column of its index. -/
def indexesBlock : List Token :=
  [⟨.keyword .indexes, default, "indexes"⟩, ⟨.mark .leftBrace, default, "\x7b"⟩,
    ⟨.keyword .indexes, default, "indexes"⟩, ⟨.mark .rightBrace, default, "\x7d"⟩]

/-- A note in the table. -/
def noteLine : List Token :=
  [⟨.keyword .note, default, "Note"⟩, ⟨.mark .colon, default, ":"⟩,
    ⟨.string .single, default, "'names'"⟩]

/-- A table with the word `Note` for its name. -/
def noteTable : List Token :=
  ⟨.keyword .table, default, "Table"⟩ :: ⟨.keyword .note, default, "Note"⟩ ::
    ([⟨.identifier, default, "as"⟩, ⟨.keyword .fk, default, "fk"⟩] ++
      ([] ++ ⟨.mark .leftBrace, default, "\x7b"⟩ ::
        (indexesColumn ++ (indexesBlock ++ (noteLine ++ [])) ++
          [⟨.mark .rightBrace, default, "\x7d"⟩])))

/-- What the table denotes. -/
def noteTableRead : Table :=
  ⟨"Note", some "fk",
    [⟨"indexes", "not", none, { ColumnSettings.none with pk := true }, default, []⟩],
    [⟨["indexes"], false, false, none, default⟩], none, none, none, some "names", default, []⟩

/-- The table `Note` with an alias is derived. -/
theorem isTable_noteTable : IsTable noteTable noteTableRead := by
  have hkey : IsKey "pk" ⟨.identifier, default, "P_k"⟩ := ⟨rfl, by decide +kernel⟩
  have hcolumn : IsColumn indexesColumn
      ⟨"indexes", "not", none, { ColumnSettings.none with pk := true }, default, []⟩ :=
    .mk rfl rfl .none (.list rfl (.last (ColumnSetting.pk hkey)) rfl)
  have hindexes (t : Table) : TableEntry t indexesBlock
      { t with indexes := t.indexes ++ [⟨["indexes"], false, false, none, default⟩] } :=
    .indexes rfl rfl (.cons (.index (.one rfl .none)) .nil) rfl
  have hnote : Note noteLine "names" := by
    have htext : Token.value ⟨.string .single, default, "'names'"⟩ = "names" := by decide +kernel
    rw [← htext]
    exact .line rfl rfl rfl
  have hbody : Entries TableEntry ⟨"Note", some "fk", [], [], none, none, none, none, default, []⟩
      (indexesColumn ++ (indexesBlock ++ (noteLine ++ []))) noteTableRead :=
    .cons (.column hcolumn) (.cons (hindexes _) (.cons (.note hnote) .nil))
  have halias : Alias [⟨.identifier, default, "as"⟩, ⟨.keyword .fk, default, "fk"⟩] (some "fk") :=
    .some (by decide +kernel) rfl
  exact IsTable.mk (t := noteTableRead) rfl rfl halias .none rfl hbody rfl

/-- The table behind a comment, and the end of the document. -/
def commentedNoteTable : List Token :=
  ⟨.comment, default, "// names"⟩ :: (noteTable ++ [⟨.endOfInput, default, ""⟩])

/-- The table is read as what it denotes. -/
theorem ofTokens_of_isDocument_noteTable :
    IsDocument (structuralTokens commentedNoteTable) [.table noteTableRead] ∧
      (ofTokens commentedNoteTable).diagnostics = [] ∧
      (ofTokens commentedNoteTable).document.withoutComments =
        withoutComments ⟨[.table noteTableRead]⟩ := by
  have htokens : structuralTokens commentedNoteTable = noteTable ++ [] := by decide +kernel
  have hdocument : IsDocument (structuralTokens commentedNoteTable) [.table noteTableRead] := by
    rw [htokens]
    exact .cons (.table isTable_noteTable) .nil
  exact ⟨hdocument, ofTokens_of_isDocument hdocument⟩

end SchemaDiagram.Document
