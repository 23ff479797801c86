import SchemaDiagram.Diagram.Compile
import SchemaDiagram.Proofs.Diagram.Linking
import SchemaDiagram.Proofs.Document.Recovery
import SchemaDiagram.Proofs.Markup.Areas
import SchemaDiagram.Proofs.Markup.References
import SchemaDiagram.Proofs.Markup.Tables

/-!
# Markup says what a diagram says

The markup of a diagram compiles without warnings, to the diagram that the markup says
(`Diagram.canonical`). The diagram need not come from a document: any texts may stand where texts
stand, as long as identifiers are made from names, each index covers a column, and the texts behind
types can be read as such (`Diagram.IsWritable`).

Main statement: `Diagram.compile_markup`. The markup has the words of its parts one after another
(`Lexes.markup`), the constructs are read from those words one by one (`ReadsConstructs`), and the
diagram of the document that they make is known in closed form (`Diagram.ofDocument_eq`).
-/

namespace SchemaDiagram

/-! ## What the markup of a diagram says -/

/-- The areas that the markup of a diagram says: those with anything to show, each with the members
that the diagram has a table for. -/
def Diagram.canonicalAreas (d : Diagram) : List Area :=
  (d.areas.filter (Markup.isShown d)).map fun a =>
    { a.canonical with
      tableIds := (a.tableIds.filter fun id => (d.tableById? id).isSome).eraseDups }

/-- The diagram that the markup of a diagram says. The project has a name, tables and areas know of
each other, and the columns that references start from are foreign keys. -/
def Diagram.canonical (d : Diagram) (defaults : DiagramDefaults) : Diagram where
  id := defaults.id
  name := d.projectName.getD d.name
  projectName := some (d.projectName.getD d.name)
  databaseType := d.databaseType
  tables := markedTables d.references (joinedTables d.canonicalAreas (d.tables.map Table.canonical))
  references := d.references.map Reference.canonical
  areas := d.canonicalAreas
  note := d.note
  createdAt := defaults.timestamp
  updatedAt := defaults.timestamp

/-- What markup needs to say a diagram. -/
structure Diagram.IsWritable (d : Diagram) : Prop where
  /-- Each table can be said. -/
  tables : ∀ t ∈ d.tables, Document.IsWritableTable t
  /-- Each reference can be said. -/
  references : ∀ r ∈ d.references, Document.IsWritableReference r
  /-- Each area can be said. -/
  areas : ∀ a ∈ d.areas, Document.IsWritableArea a

namespace Document

variable {ws vs : List Word}

/-! ## The words of a diagram -/

/-- The words of an area of a diagram. -/
noncomputable def diagramAreaWords (d : Diagram) (a : SchemaDiagram.Area) : List Word :=
  areaWords ((Markup.members d a).map SchemaDiagram.Table.name) a

/-- The words of the markup of a diagram. -/
noncomputable def markupWords (d : Diagram) : List Word :=
  projectWords (d.projectName.getD d.name) d.databaseType d.note ++
    (d.tables.flatMap tableWords ++ (d.references.flatMap referenceWords ++
      (d.areas.filter (Markup.isShown d)).flatMap (diagramAreaWords d)))

/-- An empty line in front of a block makes no difference. -/
theorem Lexes.emptyLine {text : String} {rest : List Char} (h : Lexes [] (text.toList ++ rest) ws) :
    Lexes [] (("\n" ++ text).toList ++ rest) ws := by
  rw [String.toList_append, List.append_assoc]
  exact h.space rfl

/-- References are scanned as their words. -/
theorem Lexes.references {rest : List Char} (rs : List SchemaDiagram.Reference)
    (h : Lexes [] rest ws) :
    Lexes [] ((Markup.references rs).toList ++ rest) (rs.flatMap referenceWords ++ ws) := by
  unfold Markup.references
  split
  · next hempty =>
    rw [List.isEmpty_iff.1 hempty]
    exact h
  · exact Lexes.emptyLine (Lexes.join _ _ rs (fun r _ {_ _} h => Lexes.reference r h) h)

/-- The markup of a diagram is scanned as its words. -/
theorem Lexes.markup {d : Diagram} (hd : d.IsWritable) :
    Lexes [] d.markup.toList (markupWords d) := by
  have hareas := Lexes.join (fun a => "\n" ++ Markup.area d a) (diagramAreaWords d)
    (d.areas.filter (Markup.isShown d))
    (fun a ha {_ _} h =>
      Lexes.emptyLine (Lexes.area d (hd.areas a (List.mem_of_mem_filter ha)).params h))
    Lexes.nil
  have htables := Lexes.join (fun t => "\n" ++ Markup.table t) tableWords d.tables
    (fun t ht {_ _} h => Lexes.emptyLine (Lexes.table (hd.tables t ht) h))
    (Lexes.references d.references hareas)
  have hproject := Lexes.project d htables
  have hchars : d.markup.toList = (Markup.project d).toList ++
      ((String.join (d.tables.map fun t => "\n" ++ Markup.table t)).toList ++
        ((Markup.references d.references).toList ++
          ((String.join ((d.areas.filter (Markup.isShown d)).map fun a =>
            "\n" ++ Markup.area d a)).toList ++ []))) := by
    simp only [Diagram.markup, String.toList_append, List.append_assoc, List.append_nil]
  have hwords : markupWords d = projectWords (d.projectName.getD d.name) d.databaseType d.note ++
      (d.tables.flatMap tableWords ++ (d.references.flatMap referenceWords ++
        ((d.areas.filter (Markup.isShown d)).flatMap (diagramAreaWords d) ++ []))) := by
    rw [markupWords, List.append_nil]
  rw [hchars, hwords]
  exact hproject

/-! ## Reading the constructs -/

/-- In front of the words, the constructs that are read have a property, and nothing is
reported. -/
def ReadsConstructs (ws : List Word) (Q : List Construct → Prop) : Prop :=
  ∀ c : Cursor, c.Faces ws → Q (readConstructs c).1 ∧ (readConstructs c).2.reported = []

namespace ReadsConstructs

variable {Q : List Construct → Prop}

/-- Without words, no constructs are read. -/
theorem nil (h : Q []) : ReadsConstructs [] Q := by
  intro c hc
  rw [readConstructs_of_nil (List.map_eq_nil_iff.1 hc.words)]
  exact ⟨h, hc.reported⟩

/-- One construct is read, and then those behind it. -/
theorem cons {w : Word} {construct : Span → Parser Construct} {P : Construct → Prop}
    (hk : Parser.construct? w.kind = some construct)
    (hread : ∀ start, (construct start).Reads ws vs P)
    (hothers : ∀ x, P x → ReadsConstructs vs fun xs => Q (x.withComments w.comments :: xs)) :
    ReadsConstructs (w :: ws) Q := by
  intro c hc
  obtain ⟨t, ts, hrest, ht, -⟩ := hc.exists_cons
  have hkind : Parser.construct? t.token.kind = some construct := by
    rw [← hk, ← ht]
    rfl
  obtain ⟨x, d, hrun, hx, hd⟩ := hread t.token.span _ (hc.takeComments.advance rfl)
  rw [readConstructs_of_ok hrest hkind hrun, hc.availableComments]
  exact hothers x hx d hd

/-- A construct of one kind. -/
theorem cons_map {α : Type} {w : Word} {read : Span → Parser α} {P : α → Prop}
    (make : α → Construct)
    (hk : Parser.construct? w.kind = some fun start => make <$> read start)
    (hread : ∀ start, (read start).Reads ws vs P)
    (hothers : ∀ a, P a → ReadsConstructs vs fun xs => Q ((make a).withComments w.comments :: xs)) :
    ReadsConstructs (w :: ws) Q := by
  have hmake : ∀ start, (make <$> read start).Reads ws vs fun x => ∃ a, x = make a ∧ P a :=
    fun start => Parser.Reads.bind (hread start) fun a ha => Parser.Reads.pure ⟨a, rfl, ha⟩
  refine cons hk hmake ?_
  rintro x ⟨a, rfl, ha⟩
  exact hothers a ha

/-- The words of tables are read as the tables that the markup says. -/
theorem tables (ts : List SchemaDiagram.Table) (hts : ∀ t ∈ ts, IsWritableTable t)
    (hothers : ∀ us : List Table, us.map Table.toModel = ts.map SchemaDiagram.Table.canonical →
      ReadsConstructs vs fun xs => Q (us.map .table ++ xs)) :
    ReadsConstructs (ts.flatMap tableWords ++ vs) Q := by
  induction ts generalizing Q with
  | nil => exact hothers [] rfl
  | cons t ts ih =>
    obtain ⟨ht, hts⟩ := List.forall_mem_cons.1 hts
    rw [List.flatMap_cons, List.append_assoc, tableWords, List.cons_append, List.cons_append,
      List.append_assoc]
    refine cons_map .table rfl (fun start => Parser.Reads.table ht start) fun u hu => ?_
    refine ih hts fun us hus => ?_
    refine hothers ({ u with comments := t.comments.flatMap Markup.commentLines } :: us) ?_
    have hmodel : ({ u with comments := t.comments.flatMap Markup.commentLines } : Table).toModel =
        { u.toModel with comments := t.comments.flatMap Markup.commentLines } := rfl
    rw [List.map_cons, List.map_cons, hmodel, hu, hus]
    rfl

/-- The words of references are read as the references that the markup says. -/
theorem references (rs : List SchemaDiagram.Reference) (hrs : ∀ r ∈ rs, IsWritableReference r)
    (hnext : vs.head?.map Word.kind ≠ some (.mark .leftBracket))
    (hothers : ∀ us : List Reference,
      us.map Reference.toModel = rs.map SchemaDiagram.Reference.canonical →
      ReadsConstructs vs fun xs => Q (us.map .reference ++ xs)) :
    ReadsConstructs (rs.flatMap referenceWords ++ vs) Q := by
  induction rs generalizing Q with
  | nil => exact hothers [] rfl
  | cons r rs ih =>
    obtain ⟨hr, hrs⟩ := List.forall_mem_cons.1 hrs
    have hbehind : (rs.flatMap referenceWords ++ vs).head?.map Word.kind ≠
        some (.mark .leftBracket) := by
      cases rs with
      | nil => exact hnext
      | cons s rs => rintro ⟨⟩
    rw [List.flatMap_cons, List.append_assoc, referenceWords]
    simp only [List.cons_append, List.append_assoc]
    refine cons_map .reference rfl
      (fun start => Parser.Reads.reference hr start hbehind) fun u hu => ?_
    refine ih hrs fun us hus => ?_
    refine hothers ({ u with comments := r.comments.flatMap Markup.commentLines } :: us) ?_
    have hmodel :
        ({ u with comments := r.comments.flatMap Markup.commentLines } : Reference).toModel =
          { u.toModel with comments := r.comments.flatMap Markup.commentLines } := rfl
    rw [List.map_cons, List.map_cons, hmodel, hu, hus]
    rfl

/-- The words of areas are read as the areas that the markup says, each with its members' names. -/
theorem areas (d : Diagram) (as : List SchemaDiagram.Area) (has : ∀ a ∈ as, IsWritableArea a)
    (h : ∀ bs : List Area, bs.map Area.toModel = as.map SchemaDiagram.Area.canonical →
      bs.map Area.tables = as.map (fun a => (Markup.members d a).map SchemaDiagram.Table.name) →
      Q (bs.map .area)) :
    ReadsConstructs (as.flatMap (diagramAreaWords d)) Q := by
  induction as generalizing Q with
  | nil => exact nil (h [] rfl rfl)
  | cons a as ih =>
    obtain ⟨ha, has⟩ := List.forall_mem_cons.1 has
    rw [List.flatMap_cons, diagramAreaWords, areaWords, List.cons_append, List.cons_append,
      List.append_assoc]
    refine cons_map .area rfl (fun start => Parser.Reads.area ha _ start) fun b hb => ?_
    refine ih has fun bs hbs htables => ?_
    refine h ({ b with comments := a.comments.flatMap Markup.commentLines } :: bs) ?_ ?_
    · have hmodel : ({ b with comments := a.comments.flatMap Markup.commentLines } : Area).toModel =
          { b.toModel with comments := a.comments.flatMap Markup.commentLines } := rfl
      rw [List.map_cons, List.map_cons, hmodel, hb.1, hbs]
      rfl
    · rw [List.map_cons, List.map_cons, htables]
      exact congrArg (· :: _) hb.2

end ReadsConstructs

/-- The document says the diagram, apart from what links its parts. -/
structure Says (document : Document) (d : Diagram) : Prop where
  /-- The project has the name, the kind of database and the note. -/
  project : ∃ p, document.project? = some p ∧ p.name = d.projectName.getD d.name ∧
    p.databaseType = some d.databaseType ∧ p.note = d.note
  /-- The tables in order. -/
  tables : document.tables.map Table.toModel = d.tables.map SchemaDiagram.Table.canonical
  /-- The references in order. -/
  references : document.references.map Reference.toModel =
    d.references.map SchemaDiagram.Reference.canonical
  /-- The areas with anything to show in order. -/
  areas : document.areas.map Area.toModel =
    (d.areas.filter (Markup.isShown d)).map SchemaDiagram.Area.canonical
  /-- The members of the areas are listed by their names. -/
  members : document.areas.map Area.tables = (d.areas.filter (Markup.isShown d)).map fun a =>
    (Markup.members d a).map SchemaDiagram.Table.name

/-- The words of a diagram's markup are read as a document that says the diagram. -/
theorem readsConstructs_markup {d : Diagram} (hd : d.IsWritable) :
    ReadsConstructs (markupWords d) fun xs => Says ⟨xs⟩ d := by
  have hbracket : ((d.areas.filter (Markup.isShown d)).flatMap (diagramAreaWords d)).head?.map
      Word.kind ≠ some (.mark .leftBracket) := by
    cases d.areas.filter (Markup.isShown d) <;> rintro ⟨⟩
  unfold markupWords projectWords
  simp only [List.cons_append, List.append_assoc]
  refine ReadsConstructs.cons_map .project rfl
    (fun start => Parser.Reads.project _ _ _ start) fun p hp => ?_
  refine ReadsConstructs.tables d.tables hd.tables fun us hus => ?_
  refine ReadsConstructs.references d.references hd.references hbracket fun rs hrs => ?_
  refine ReadsConstructs.areas d _ (fun a ha => hd.areas a (List.mem_of_mem_filter ha))
    fun bs hbs hmembers => ?_
  refine ⟨⟨{ p with comments := [] }, ?_, hp⟩, ?_, ?_, ?_, ?_⟩
  · simp [Document.project?, Construct.withComments, letterWord, List.filterMap_append]
  · simpa [Document.tables, Construct.withComments, List.filterMap_cons, List.filterMap_append] using hus
  · simpa [Document.references, Construct.withComments, List.filterMap_cons,
      List.filterMap_append] using hrs
  · simpa [Document.areas, Construct.withComments, List.filterMap_cons, List.filterMap_append] using hbs
  · simpa [Document.areas, Construct.withComments, List.filterMap_cons, List.filterMap_append] using hmembers

/-- The markup is read as a document that says the diagram, and nothing is reported. -/
theorem exists_document {d : Diagram} (hd : d.IsWritable) :
    ∃ ts document, Token.scan d.markup = .ok ts ∧ ofTokens ts = ⟨document, []⟩ ∧
      Says document d := by
  obtain ⟨ts, hscan, hwords⟩ := (Lexes.markup hd).exists_scanFrom .start
  obtain ⟨hdoc, hreported⟩ := readsConstructs_markup hd (.ofTokens ts) ⟨hwords, rfl, rfl⟩
  refine ⟨ts, ⟨(readConstructs (.ofTokens ts)).1⟩, hscan, ?_, hdoc⟩
  rw [ofTokens, ← hreported]

/-! ## The diagram that is read back -/

/-- The tables that the markup says belong to no area yet. -/
theorem areUnlinked_canonical {d : Diagram} (hd : d.IsWritable) :
    AreUnlinked (d.tables.map SchemaDiagram.Table.canonical) := by
  intro t ht
  obtain ⟨u, hu, rfl⟩ := List.mem_map.1 ht
  exact ⟨(hd.tables u hu).named, rfl⟩

/-- The names of an area's members stand for the members that the diagram has. -/
theorem memberIds_members {d : Diagram} (hd : d.IsWritable) (a : SchemaDiagram.Area) :
    memberIds (d.tables.map SchemaDiagram.Table.canonical)
        ((Markup.members d a).map SchemaDiagram.Table.name) =
      (a.tableIds.filter fun id => (d.tableById? id).isSome).eraseDups := by
  have hone : ∀ id, ((d.tableById? id).bind fun t =>
      ((d.tables.map SchemaDiagram.Table.canonical).find? fun u => u.name == t.name).map
        SchemaDiagram.Table.id) = if (d.tableById? id).isSome then some id else none := by
    intro id
    cases hfind : d.tableById? id with
    | none => rfl
    | some t =>
      have hid : t.id = id := by simpa using List.find?_some hfind
      have hmem : t.canonical ∈ d.tables.map SchemaDiagram.Table.canonical :=
        List.mem_map_of_mem (List.mem_of_find?_eq_some hfind)
      have hname := map_id_find?_name (areUnlinked_canonical hd) hmem
      rw [← hid]
      exact hname
  unfold memberIds Markup.members
  rw [List.filterMap_map, List.filterMap_filterMap]
  simp only [Function.comp_def, hone]
  rw [← List.filterMap_eq_filter]
  refine congrArg List.eraseDups (List.filterMap_congr fun id _ => ?_)
  rw [Option.guard]

/-- The areas of a document that says the diagram are linked as the markup says them. -/
theorem linkedAreas_of_says {document : Document} {d : Diagram} (hd : d.IsWritable)
    (h : Says document d) : linkedAreas document = d.canonicalAreas := by
  have hlength : document.areas.length = (d.areas.filter (Markup.isShown d)).length := by
    simpa using congrArg List.length h.areas
  unfold linkedAreas Diagram.canonicalAreas
  rw [h.tables]
  refine List.ext_getElem (by simpa using hlength) fun i hi hi' => ?_
  rw [List.getElem_map, List.getElem_map]
  have hi : i < document.areas.length := by simpa using hi
  have hi' : i < (d.areas.filter (Markup.isShown d)).length := by simpa using hi'
  have hmodel : (document.areas[i]).toModel = ((d.areas.filter (Markup.isShown d))[i]).canonical := by
    have hget := congrArg (·[i]?) h.areas
    simpa [hi, hi'] using hget
  have hmembers : (document.areas[i]).tables =
      (Markup.members d (d.areas.filter (Markup.isShown d))[i]).map SchemaDiagram.Table.name := by
    have hget := congrArg (·[i]?) h.members
    simpa [hi, hi'] using hget
  rw [hmodel, hmembers, memberIds_members hd]

/-- Foreign keys are marked by the ends of references, whatever their comments. -/
theorem markedTables_canonical (rs : List SchemaDiagram.Reference)
    (ts : List SchemaDiagram.Table) :
    markedTables (rs.map SchemaDiagram.Reference.canonical) ts = markedTables rs ts := by
  unfold markedTables
  simp only [List.any_map]
  rfl

/-- The diagram of a document that says another one is the one that its markup says. -/
theorem ofDocument_of_says {document : Document} {d : Diagram} (hd : d.IsWritable)
    (h : Says document d) (defaults : DiagramDefaults) :
    Diagram.ofDocument document defaults = d.canonical defaults := by
  obtain ⟨p, hp, hname, hdatabaseType, hnote⟩ := h.project
  rw [Diagram.ofDocument_eq, linkedAreas_of_says hd h, h.tables, h.references,
    markedTables_canonical]
  simp only [Diagram.withoutAreas, hp, Option.map_some, Option.bind_some, Option.getD_some, hname,
    hdatabaseType, hnote, Option.some_or, h.references]
  rfl

end Document

/-- Compiling without a size limit is reading the tokens of the source text. -/
theorem compile_none (defaults : DiagramDefaults) (source : String) :
    compile ⟨defaults, none⟩ source = (Token.scan source).map fun ts =>
      ⟨.ofDocument (Document.ofTokens ts).document defaults,
        (Document.ofTokens ts).diagnostics⟩ := by
  unfold compile
  cases Token.scan source <;> rfl

namespace Diagram

/-- The markup of a diagram compiles without warnings, to the diagram that it says. -/
theorem compile_markup {d : Diagram} (hd : d.IsWritable) (defaults : DiagramDefaults) :
    compile ⟨defaults, none⟩ d.markup = .ok ⟨d.canonical defaults, []⟩ := by
  obtain ⟨ts, document, hscan, hread, hdoc⟩ := Document.exists_document hd
  rw [compile_none, hscan, Except.map, hread, Document.ofDocument_of_says hd hdoc]

/-- A text behind a type that tokens can be read to. -/
theorem isRawText_price : Document.IsRawText "10,2" := by
  have hscan : Token.scan "(10, 2)" = .ok
      [⟨.mark .leftParen, ⟨⟨1, 1, 0⟩, ⟨1, 2, 1⟩⟩, "("⟩, ⟨.number, ⟨⟨1, 2, 1⟩, ⟨1, 4, 3⟩⟩, "10"⟩,
        ⟨.mark .comma, ⟨⟨1, 4, 3⟩, ⟨1, 5, 4⟩⟩, ","⟩, ⟨.number, ⟨⟨1, 6, 5⟩, ⟨1, 7, 6⟩⟩, "2"⟩,
        ⟨.mark .rightParen, ⟨⟨1, 7, 6⟩, ⟨1, 8, 7⟩⟩, ")"⟩, .endAt ⟨1, 8, 7⟩] := by cbv
  exact ⟨_, _, ⟨"(10, 2)", _, hscan, .refl _⟩, rfl⟩

/-- A diagram that no document gives: the type and the comment are not as reading leaves them, the
area lists a table twice and one that is not there, and no column is marked. -/
def shop : Diagram where
  id := "shop"
  name := "shop"
  databaseType := "SQLite"
  tables :=
    [{ id := .ofName "item"
       name := "item"
       columns := [{ name := "price", columnType := "DEC", typeParams := some "10,2",
                     comments := ["net\n  of tax"] }]
       indexes := [{ columns := ["lower(note)", "note"] }] }]
  references := [.between "item" "price" "item" "note" .oneToOne]
  areas := [{ Area.ofName "sales" with tableIds := [.ofName "item", .ofName "table", .ofName "item"] }]
  createdAt := default
  updatedAt := default

example : (shop.canonical ⟨"shop", default, none⟩).tables.flatMap (fun t => t.columns.map fun c =>
    (c.columnType, c.fk, c.comments)) = [("decimal", true, ["net", "of tax"])] := by
  cbv

/-- The diagram is said by its markup, with the foreign key marked. -/
theorem compile_markup_shop :
    shop.IsWritable ∧
      compile ⟨⟨"shop", default, none⟩, none⟩ shop.markup =
        .ok ⟨shop.canonical ⟨"shop", default, none⟩, []⟩ := by
  have hshop : shop.IsWritable := by
    refine ⟨?_, ?_, ?_⟩
    · intro t ht
      obtain rfl := List.mem_singleton.1 ht
      refine ⟨rfl, ?_, by decide⟩
      intro c hc text htext
      obtain rfl := List.mem_singleton.1 hc
      cases htext
      exact isRawText_price
    · intro r hr
      obtain rfl := List.mem_singleton.1 hr
      exact ⟨"item", "item", rfl⟩
    · intro a ha
      obtain rfl := List.mem_singleton.1 ha
      exact ⟨rfl, nofun⟩
  exact ⟨hshop, compile_markup hshop _⟩

end Diagram

end SchemaDiagram
