import SchemaDiagram.Proofs.Document.Numbers
import SchemaDiagram.Proofs.Json.Decoding
import SchemaDiagram.Proofs.Markup.Compiled

/-!
# Diagrams with finite numbers

A text can spell a number that is not finite: a quoted word like `inf` does, and a numeral that
overflows. Neither markup nor JSON has a form for such numbers. A diagram is read back from its JSON
form exactly if its numbers are finite (`Diagram.ofJson?_toJson_iff`), and it keeps its places and
sizes in markup exactly if those that are shown are finite.
-/

namespace SchemaDiagram

open Json (field fieldIfSome fieldIfNonempty ofList required optional withDefault optionalOf)

/-! ## What is lost in JSON -/

namespace Json

/-- Only finite numbers have a JSON form that is a number. -/
theorem isFinite_of_toNumber? {x y : Number} (h : toNumber? (ofNumber x) = some y) :
    x.isFinite = true := by
  by_contra hx
  rw [ofNumber, if_neg hx] at h
  cases h

/-- A number that is read back from its JSON is finite. -/
theorem isFinite_of_optionalOf {o : Option Number}
    (h : optionalOf toNumber? (o.map ofNumber) = some o) : ∀ x ∈ o, x.isFinite = true := by
  rintro x rfl
  by_contra hx
  rw [Option.map_some, ofNumber, if_neg hx] at h
  cases h

/-- If a list reads back, then so does each of its elements. -/
theorem decode_encode_of_toList? {α : Type} {encode : α → Json} {decode : Json → Option α}
    {as : List α} (h : toList? decode (ofList encode as) = some as) :
    ∀ a ∈ as, decode (encode a) = some a := by
  rw [ofList, toList?] at h
  induction as with
  | nil => exact fun _ ha => absurd ha List.not_mem_nil
  | cons a as ih =>
    rw [List.map_cons, List.mapM_cons] at h
    obtain ⟨b, hb, h⟩ := Option.bind_eq_some_iff.1 h
    obtain ⟨bs, hbs, h⟩ := Option.bind_eq_some_iff.1 h
    obtain ⟨rfl, rfl⟩ := List.cons.inj (Option.some.inj h)
    exact List.forall_mem_cons.2 ⟨hb, ih hbs⟩

end Json

/-- A place that is read back from its JSON is finite. -/
theorem Point.isFinite_of_ofJson? {p q : Point} (h : ofJson? p.toJson = some q) :
    p.isFinite = true := by
  unfold ofJson? at h
  obtain ⟨parts, hparts, h⟩ := Option.bind_eq_some_iff.1 h
  cases hparts
  obtain ⟨x, hx, h⟩ := Option.bind_eq_some_iff.1 h
  obtain ⟨y, hy, h⟩ := Option.bind_eq_some_iff.1 h
  exact Bool.and_eq_true_iff.2
    ⟨Json.isFinite_of_toNumber? hx, Json.isFinite_of_toNumber? hy⟩

/-- A place that may be missing and is read back from its JSON is finite. -/
theorem Point.isFinite_of_optionalOf {o : Option Point}
    (h : optionalOf ofJson? (o.map toJson) = some o) : ∀ p ∈ o, p.isFinite = true := by
  rintro p rfl
  obtain ⟨q, hq, -⟩ := Option.map_eq_some_iff.1 h
  exact isFinite_of_ofJson? hq

/-- A table that reads back has a finite place, since the place is read from its own field. -/
theorem Table.isFinite_of_ofJson? {t : Table} (h : ofJson? t.toJson = some t) : t.IsFinite := by
  unfold ofJson? at h
  obtain ⟨parts, hparts, h⟩ := Option.bind_eq_some_iff.1 h
  obtain ⟨id, -, h⟩ := Option.bind_eq_some_iff.1 h
  obtain ⟨name, -, h⟩ := Option.bind_eq_some_iff.1 h
  obtain ⟨aliasName, -, h⟩ := Option.bind_eq_some_iff.1 h
  obtain ⟨columns, -, h⟩ := Option.bind_eq_some_iff.1 h
  obtain ⟨indexes, -, h⟩ := Option.bind_eq_some_iff.1 h
  obtain ⟨color, -, h⟩ := Option.bind_eq_some_iff.1 h
  obtain ⟨position, hposition, h⟩ := Option.bind_eq_some_iff.1 h
  obtain ⟨areaIds, -, h⟩ := Option.bind_eq_some_iff.1 h
  obtain ⟨note, -, h⟩ := Option.bind_eq_some_iff.1 h
  obtain ⟨comments, -, h⟩ := Option.bind_eq_some_iff.1 h
  obtain rfl : position = t.position := congrArg Table.position (Option.some.inj h)
  cases hparts
  exact Point.isFinite_of_optionalOf (by simpa [List.lookup_append] using hposition)

/-- An area that is read back from its JSON is finite. -/
theorem Area.isFinite_of_ofJson? {a : Area} (h : ofJson? a.toJson = some a) : a.IsFinite := by
  unfold ofJson? at h
  obtain ⟨parts, hparts, h⟩ := Option.bind_eq_some_iff.1 h
  obtain ⟨id, -, h⟩ := Option.bind_eq_some_iff.1 h
  obtain ⟨name, -, h⟩ := Option.bind_eq_some_iff.1 h
  obtain ⟨tableIds, -, h⟩ := Option.bind_eq_some_iff.1 h
  obtain ⟨color, -, h⟩ := Option.bind_eq_some_iff.1 h
  obtain ⟨position, hposition, h⟩ := Option.bind_eq_some_iff.1 h
  obtain ⟨width, hwidth, h⟩ := Option.bind_eq_some_iff.1 h
  obtain ⟨height, hheight, h⟩ := Option.bind_eq_some_iff.1 h
  obtain ⟨labelHorizontal, -, h⟩ := Option.bind_eq_some_iff.1 h
  obtain ⟨labelVertical, -, h⟩ := Option.bind_eq_some_iff.1 h
  obtain ⟨databaseType, -, h⟩ := Option.bind_eq_some_iff.1 h
  obtain ⟨commonColumns, -, h⟩ := Option.bind_eq_some_iff.1 h
  obtain ⟨note, -, h⟩ := Option.bind_eq_some_iff.1 h
  obtain ⟨comments, -, h⟩ := Option.bind_eq_some_iff.1 h
  obtain rfl : position = a.position := congrArg Area.position (Option.some.inj h)
  obtain rfl : width = a.width := congrArg Area.width (Option.some.inj h)
  obtain rfl : height = a.height := congrArg Area.height (Option.some.inj h)
  cases hparts
  exact
    { position := Point.isFinite_of_optionalOf (by simpa [List.lookup_append] using hposition)
      width := Json.isFinite_of_optionalOf (by simpa [List.lookup_append] using hwidth)
      height := Json.isFinite_of_optionalOf (by simpa [List.lookup_append] using hheight) }

namespace Diagram

/-- A diagram that is read back from its JSON is finite. -/
theorem isFinite_of_ofJson? {d : Diagram} (h : ofJson? d.toJson = some d) : d.IsFinite := by
  obtain ⟨parts, hparts, htables, hareas, -, -⟩ := exists_parts_of_ofJson? h
  cases hparts
  have htable : ∀ t ∈ d.tables, Table.ofJson? t.toJson = some t :=
    Json.decode_encode_of_toList? (by simpa [List.lookup_append] using htables)
  have harea : ∀ a ∈ d.areas, Area.ofJson? a.toJson = some a :=
    Json.decode_encode_of_toList? (by simpa [List.lookup_append] using hareas)
  exact ⟨fun t ht => Table.isFinite_of_ofJson? (htable t ht),
    fun a ha => Area.isFinite_of_ofJson? (harea a ha)⟩

/-- A diagram is read back from its JSON form exactly if its numbers are finite and its moments are
those of calendar years. -/
theorem ofJson?_toJson_iff {d : Diagram} :
    ofJson? d.toJson = some d ↔ d.IsFinite ∧ d.IsDated :=
  ⟨fun h => ⟨isFinite_of_ofJson? h, isDated_of_ofJson? h⟩,
    fun h => (survives h.1 h.2).decode_encode⟩

end Diagram

/-! ## What is lost in markup -/

/-- A value stays under a condition exactly if it meets it. -/
theorem filter_eq_self_iff {α : Type} {p : α → Bool} {o : Option α} :
    o.filter p = o ↔ ∀ a ∈ o, p a = true := by
  cases o with
  | none => simp
  | some a => simp [Option.filter_eq_some_iff]

/-- A list stays as it is exactly if each of its elements does. -/
theorem map_eq_self_iff {α : Type} {f : α → α} {xs : List α} :
    xs.map f = xs ↔ ∀ a ∈ xs, f a = a := by
  conv_lhs => rhs; rw [← List.map_id xs]
  exact List.map_inj_left

/-- A table stays as it is without a place that is not finite exactly if it is finite. -/
theorem Table.restated_eq_iff {t : Table} : t.restated = t ↔ t.IsFinite :=
  ⟨fun h => filter_eq_self_iff.1 (congrArg Table.position h),
    fun h => by rw [restated, filter_eq_self_iff.2 h]⟩

/-- An area stays as it is without places and sizes that are not finite exactly if it is finite. -/
theorem Area.restated_eq_iff {a : Area} : a.restated = a ↔ a.IsFinite := by
  constructor
  · intro h
    exact ⟨filter_eq_self_iff.1 (congrArg Area.position h),
      filter_eq_self_iff.1 (congrArg Area.width h), filter_eq_self_iff.1 (congrArg Area.height h)⟩
  · intro h
    rw [restated, filter_eq_self_iff.2 h.position, filter_eq_self_iff.2 h.width,
      filter_eq_self_iff.2 h.height]

/-! ## What is read from a document -/

/-- A place made from two coordinates is finite exactly if they are. -/
theorem Point.isFinite_ofCoordinates? {x y : Option Number} :
    (∀ p ∈ ofCoordinates? x y, p.isFinite = true) ↔
      (∀ a ∈ x, a.isFinite = true) ∧ ∀ b ∈ y, b.isFinite = true := by
  rcases x with _ | x <;> rcases y with _ | y <;>
    simp [ofCoordinates?, isFinite, Number.zero, Number.isFinite]

namespace Document

/-- A table's model is finite exactly if the table's numbers are. -/
theorem Table.isFinite_toModel {t : Table} :
    t.toModel.IsFinite ↔ ∀ x ∈ t.numbers, x.isFinite = true := by
  rw [SchemaDiagram.Table.IsFinite, toModel, Point.isFinite_ofCoordinates?]
  simp only [mem_numbers, Option.mem_def, or_imp, forall_and]

/-- An area's model is finite exactly if the area's numbers are. -/
theorem Area.isFinite_toModel {a : Area} :
    a.toModel.IsFinite ↔ ∀ x ∈ a.numbers, x.isFinite = true := by
  have hparts : a.toModel.IsFinite ↔
      (∀ p ∈ Point.ofCoordinates? a.posX a.posY, p.isFinite = true) ∧
        (∀ x ∈ a.width, x.isFinite = true) ∧ ∀ x ∈ a.height, x.isFinite = true :=
    ⟨fun h => ⟨h.position, h.width, h.height⟩, fun h => ⟨h.1, h.2.1, h.2.2⟩⟩
  rw [hparts, Point.isFinite_ofCoordinates?]
  simp only [mem_numbers, Option.mem_def, or_imp, forall_and, and_assoc]

variable (document : Document)

/-- Areas that a table joins and references that mark its columns leave it where it is. -/
theorem map_position_ofDocument (defaults : DiagramDefaults) :
    (Diagram.ofDocument document defaults).tables.map SchemaDiagram.Table.position =
      document.tables.map fun t => t.toModel.position := by
  rw [Diagram.ofDocument_eq]
  refine List.ext_getElem (by simp) fun i _ _ => ?_
  simp [markedTables, joinedTables]

/-- The numbers of a document are those of its tables and areas. -/
theorem forall_numbers_iff {P : Number → Prop} :
    (∀ x ∈ document.constructs, ∀ y ∈ x.numbers, P y) ↔
      (∀ t ∈ document.tables, ∀ y ∈ t.numbers, P y) ∧
        ∀ a ∈ document.areas, ∀ y ∈ a.numbers, P y := by
  constructor
  · intro h
    exact ⟨fun t ht => h _ (mem_constructs_of_mem_tables ht),
      fun a ha => h _ (mem_constructs_of_mem_areas ha)⟩
  · rintro ⟨htables, hareas⟩ x hx
    cases x with
    | table t => exact htables t (List.mem_filterMap.2 ⟨_, hx, rfl⟩)
    | area a => exact hareas a (List.mem_filterMap.2 ⟨_, hx, rfl⟩)
    | project p => exact fun _ h => absurd h List.not_mem_nil
    | reference r => exact fun _ h => absurd h List.not_mem_nil

/-- The numbers of the diagram are those of the document. -/
theorem isFinite_ofDocument_iff (defaults : DiagramDefaults) :
    (Diagram.ofDocument document defaults).IsFinite ↔
      ∀ x ∈ document.constructs, ∀ y ∈ x.numbers, y.isFinite = true := by
  have htables : (∀ t ∈ (Diagram.ofDocument document defaults).tables, t.IsFinite) ↔
      ∀ t ∈ document.tables, ∀ y ∈ t.numbers, y.isFinite = true := by
    calc (∀ t ∈ (Diagram.ofDocument document defaults).tables, t.IsFinite)
      _ ↔ ∀ o ∈ (Diagram.ofDocument document defaults).tables.map SchemaDiagram.Table.position,
          ∀ p ∈ o, p.isFinite = true := by
        rw [List.forall_mem_map]
        rfl
      _ ↔ ∀ t ∈ document.tables, t.toModel.IsFinite := by
        rw [map_position_ofDocument, List.forall_mem_map]
        rfl
      _ ↔ ∀ t ∈ document.tables, ∀ y ∈ t.numbers, y.isFinite = true :=
        forall₂_congr fun t _ => Table.isFinite_toModel
  have hareas : (∀ a ∈ (Diagram.ofDocument document defaults).areas, a.IsFinite) ↔
      ∀ a ∈ document.areas, ∀ y ∈ a.numbers, y.isFinite = true := by
    rw [Diagram.ofDocument_eq]
    show (∀ a ∈ linkedAreas document, a.IsFinite) ↔ _
    rw [linkedAreas, List.forall_mem_map]
    refine forall₂_congr fun a _ => Iff.trans ?_ Area.isFinite_toModel
    exact ⟨fun h => ⟨h.position, h.width, h.height⟩, fun h => ⟨h.position, h.width, h.height⟩⟩
  rw [forall_numbers_iff, ← htables, ← hareas]
  exact ⟨fun h => ⟨h.tables, h.areas⟩, fun h => ⟨h.1, h.2⟩⟩

end Document

/-! ## Compiled diagrams -/

section Compiled

variable {options : CompileOptions} {source : String} {d : Diagram} {warnings : List Diagnostic}

/-- The shown places and sizes of a compiled diagram are read back from its markup exactly if they
are finite. -/
theorem isFinite_iff_compile_markup (h : compile options source = .ok ⟨d, warnings⟩) :
    ((∀ t ∈ d.tables, t.IsFinite) ∧ ∀ a ∈ d.areas, Markup.isShown d a = true → a.IsFinite) ↔
      ∃ e : Diagram, compile ⟨options.defaults, none⟩ d.markup = .ok ⟨e, []⟩ ∧
        e.tables = d.tables ∧ e.areas = d.areas.filter (Markup.isShown d) := by
  obtain ⟨document, hread, rfl⟩ := exists_document_of_compile h
  have hcompile := compile_markup_ofDocument hread options.defaults
  generalize Diagram.ofDocument document options.defaults = d at hcompile ⊢
  have htables : d.restated.tables = d.tables ↔ ∀ t ∈ d.tables, t.IsFinite := by
    refine map_eq_self_iff.trans (forall₂_congr fun t _ => Table.restated_eq_iff)
  have hareas : d.restated.areas = d.areas.filter (Markup.isShown d) ↔
      ∀ a ∈ d.areas, Markup.isShown d a = true → a.IsFinite := by
    refine map_eq_self_iff.trans ?_
    simp only [List.mem_filter, and_imp, Area.restated_eq_iff]
  rw [← htables, ← hareas]
  constructor
  · exact fun hrestated => ⟨d.restated, hcompile, hrestated⟩
  · rintro ⟨e, he, hrestated⟩
    cases hcompile.symm.trans he
    exact hrestated

/-- A compiled diagram has finite numbers exactly if all numbers that were read are finite, and so
if no token spells another one. It is read back from its JSON form exactly then, and from its
markup, as far as that shows it, exactly if what is shown is finite. -/
theorem isFinite_of_compile (h : compile options source = .ok ⟨d, warnings⟩)
    (hyear : isCalendarYear options.defaults.timestamp.date.year = true) :
    ∃ ts, Token.scan source = .ok ts ∧
      ((∀ t ∈ ts, ∀ x ∈ Document.Parser.numberOf? t, x.isFinite = true) → d.IsFinite) ∧
      (d.IsFinite ↔ ∀ x ∈ (Document.ofTokens ts).document.constructs, ∀ y ∈ x.numbers,
        y.isFinite = true) ∧
      (Diagram.ofJson? d.toJson = some d ↔ d.IsFinite) ∧
      (((∀ t ∈ d.tables, t.IsFinite) ∧ ∀ a ∈ d.areas, Markup.isShown d a = true → a.IsFinite) ↔
        ∃ e : Diagram, compile ⟨options.defaults, none⟩ d.markup = .ok ⟨e, []⟩ ∧
          e.tables = d.tables ∧ e.areas = d.areas.filter (Markup.isShown d)) := by
  obtain ⟨ts, hscan, hd⟩ := exists_tokens_of_compile h
  have hnumbers : d.IsFinite ↔ ∀ x ∈ (Document.ofTokens ts).document.constructs, ∀ y ∈ x.numbers,
      y.isFinite = true := hd ▸ Document.isFinite_ofDocument_iff _ options.defaults
  have hdated : d.IsDated := by
    rw [hd, Diagram.ofDocument_eq]
    exact ⟨hyear, hyear⟩
  refine ⟨ts, hscan, fun hspelled => ?_, hnumbers, ?_, isFinite_iff_compile_markup h⟩
  · exact hnumbers.2 (Document.numbers_ofTokens hspelled)
  · exact Diagram.ofJson?_toJson_iff.trans (and_iff_left hdated)

/-- Numbers with and without quotes. -/
def placedText : String :=
  "Table t [pos_x: '1e3', pos_y: -2.5] \x7b id int \x7d Area a [width: \"10\"] \x7b t \x7d"

/-- The diagram of the source text. -/
def placed : Diagram where
  id := "placed"
  name := "Untitled Diagram"
  databaseType := "PostgreSQL"
  tables :=
    [{ id := .ofName "t"
       name := "t"
       columns := [{ name := "id", columnType := "integer" }]
       position := some ⟨.ofDecimal false ⟨1, 3⟩, .ofDecimal true ⟨25, -1⟩⟩
       areaIds := [.ofName "a"] }]
  areas := [{ Area.ofName "a" with
    tableIds := [.ofName "t"]
    width := some (.ofDecimal false ⟨10, 0⟩) }]
  createdAt := default
  updatedAt := default

/-- The source text spells finite numbers only, so its diagram is read back. -/
theorem isFinite_of_compile_placed :
    compile ⟨⟨"placed", default, none⟩, some 128⟩ placedText = .ok ⟨placed, []⟩ ∧
      placed.IsFinite ∧ Diagram.ofJson? placed.toJson = some placed ∧
      ∃ e : Diagram, compile ⟨⟨"placed", default, none⟩, none⟩ placed.markup = .ok ⟨e, []⟩ ∧
        e.tables = placed.tables ∧ e.areas = placed.areas.filter (Markup.isShown placed) := by
  have hcompile : compile ⟨⟨"placed", default, none⟩, some 128⟩ placedText = .ok ⟨placed, []⟩ := by
    decide +kernel
  obtain ⟨ts, hscan, hspelled, -, hjson, hmarkup⟩ := isFinite_of_compile hcompile (by decide)
  have hall : (Token.scan placedText).toOption.all (fun ts => ts.all fun t =>
      (Document.Parser.numberOf? t).all Number.isFinite) = true := by decide +kernel
  have hfinite : placed.IsFinite := by
    rw [hscan] at hall
    exact hspelled fun t ht => (Option.all_eq_true _ _).1 (List.all_eq_true.1 hall t ht)
  exact ⟨hcompile, hfinite, hjson.2 hfinite,
    hmarkup.1 ⟨hfinite.tables, fun a ha _ => hfinite.areas a ha⟩⟩

/-- A place that is read without a warning and is not finite. -/
def unplacedText : String := "Project p \x7b\x7d\nTable t [pos_x: \"inf\"] \x7b id int \x7d"

/-- The diagram of the source text. -/
def unplaced : Diagram where
  id := "fixed"
  name := "p"
  projectName := some "p"
  databaseType := "PostgreSQL"
  tables :=
    [{ id := .ofName "t"
       name := "t"
       columns := [{ name := "id", columnType := "integer" }]
       position := some ⟨.infinite false, .zero⟩ }]
  createdAt := default
  updatedAt := default

/-- The place is lost in markup, and the JSON form is not that of a diagram. -/
theorem compile_unplaced :
    compile ⟨⟨"fixed", default, none⟩, some defaultMaxInputBytes⟩ unplacedText =
        .ok ⟨unplaced, []⟩ ∧
      ¬ unplaced.IsFinite ∧ Diagram.ofJson? unplaced.toJson = none ∧
      ∃ e : Diagram, compile ⟨⟨"fixed", default, none⟩, none⟩ unplaced.markup = .ok ⟨e, []⟩ ∧
        e ≠ unplaced ∧ e.tables.map Table.position = [none] := by
  refine ⟨by decide +kernel, fun hfinite => ?_, by decide +kernel,
    { unplaced with tables := unplaced.tables.map Table.restated }, by decide +kernel, ?_, ?_⟩
  · exact absurd (hfinite.tables _ List.mem_cons_self _ rfl) (by decide)
  · decide +kernel
  · decide +kernel

end Compiled

end SchemaDiagram
