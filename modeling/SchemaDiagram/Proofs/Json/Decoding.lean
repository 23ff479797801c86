import SchemaDiagram.Diagram.Json
import SchemaDiagram.Proofs.Json.Record
import SchemaDiagram.Proofs.Json.Timestamp

/-!
# Diagrams read back from JSON

A diagram whose numbers are finite is read back from its JSON form, and so is each of its parts. A
number that is not finite has no JSON form and is written as `null`.

Main statement: `Diagram.ofJson?_toJson`.
-/

namespace SchemaDiagram

open Json (Survives field fieldIfSome fieldIfNonempty ofList parts? required optional withDefault
  read_bind)

/-! ## Values -/

namespace Point

/-- A place that is finite is read back from its JSON. -/
theorem survives {p : Point} (hp : p.isFinite = true) : Survives toJson ofJson? p := by
  obtain ⟨hx, hy⟩ := Bool.and_eq_true_iff.1 hp
  refine ⟨?_, nofun⟩
  simp [ofJson?, toJson, parts?, Json.required_eq, (Json.survives_ofNumber hx).decode_encode,
    (Json.survives_ofNumber hy).decode_encode, List.lookup_cons]

end Point

/-- A color is read back from its JSON. -/
@[simp] theorem Color.survives (c : Color) : Survives (fun c => .string c.text) Color.ofJson? c :=
  ⟨Color.ofString?_text c, nofun⟩

/-- A label's horizontal place is read back from its JSON. -/
@[simp] theorem HorizontalLabel.survives (l : HorizontalLabel) :
    Survives (fun l => .string l.word) HorizontalLabel.ofJson? l :=
  ⟨by cases l <;> decide, nofun⟩

/-- A label's vertical place is read back from its JSON. -/
@[simp] theorem VerticalLabel.survives (l : VerticalLabel) :
    Survives (fun l => .string l.word) VerticalLabel.ofJson? l :=
  ⟨by cases l <;> decide, nofun⟩

/-- A relationship is read back from its words. -/
@[simp] theorem Relationship.ofJson?_words (r : Relationship) :
    ofJson? (.string r.words) = some r := by
  cases r <;> decide

/-- A table's id is read back from its JSON. -/
@[simp] theorem TableId.survives (id : TableId) : Survives toJson ofJson? id := ⟨rfl, nofun⟩

/-- An area's id is read back from its JSON. -/
@[simp] theorem AreaId.survives (id : AreaId) : Survives toJson ofJson? id := ⟨rfl, nofun⟩

/-- A reference's id is read back from its JSON. -/
@[simp] theorem ReferenceId.survives (id : ReferenceId) : Survives toJson ofJson? id := ⟨rfl, nofun⟩

/-! ## Records

Each part of a record is read from the field that was written for it. -/

/-- A column is read back from its JSON. -/
@[simp] theorem Column.survives (c : Column) : Survives toJson ofJson? c := by
  refine ⟨?_, nofun⟩
  unfold ofJson?
  refine read_bind _ rfl <| read_bind c.name ?_ <| read_bind c.aliasName ?_ <|
    read_bind c.columnType ?_ <| read_bind c.typeParams ?_ <| read_bind c.pk ?_ <|
    read_bind c.fk ?_ <| read_bind c.unique ?_ <| read_bind c.notNull ?_ <|
    read_bind c.increment ?_ <| read_bind c.default ?_ <| read_bind c.note ?_ <|
    read_bind c.comments ?_ rfl
  all_goals simp [List.lookup_append]

/-- An index is read back from its JSON. -/
@[simp] theorem Index.survives (i : Index) : Survives toJson ofJson? i := by
  refine ⟨?_, nofun⟩
  unfold ofJson?
  refine read_bind _ rfl <| read_bind i.columns ?_ <| read_bind i.unique ?_ <| read_bind i.pk ?_ <|
    read_bind i.name ?_ rfl
  all_goals simp [List.lookup_append]

/-- A reference is read back from its JSON. -/
@[simp] theorem Reference.survives (r : Reference) : Survives toJson ofJson? r := by
  refine ⟨?_, nofun⟩
  unfold ofJson?
  refine read_bind _ rfl <| read_bind r.id ?_ <| read_bind r.fromTable ?_ <|
    read_bind r.fromColumn ?_ <| read_bind r.toTable ?_ <| read_bind r.toColumn ?_ <|
    read_bind r.kind ?_ <| read_bind r.swapEdge ?_ <| read_bind r.note ?_ <|
    read_bind r.comments ?_ rfl
  all_goals simp [List.lookup_append, Survives.decode_encode]

/-- The place of the table is finite, if it has one. -/
def Table.IsFinite (t : Table) : Prop := ∀ p ∈ t.position, p.isFinite = true

/-- A table whose place is finite is read back from its JSON. -/
theorem Table.survives {t : Table} (ht : t.IsFinite) : Survives toJson ofJson? t := by
  have hposition : ∀ p ∈ t.position, Survives Point.toJson Point.ofJson? p :=
    fun p hp => Point.survives (ht p hp)
  refine ⟨?_, nofun⟩
  unfold ofJson?
  refine read_bind _ rfl <| read_bind t.id ?_ <| read_bind t.name ?_ <| read_bind t.aliasName ?_ <|
    read_bind t.columns ?_ <| read_bind t.indexes ?_ <| read_bind t.color ?_ <|
    read_bind t.position ?_ <| read_bind t.areaIds ?_ <| read_bind t.note ?_ <|
    read_bind t.comments ?_ rfl
  all_goals simp [List.lookup_append, Survives.decode_encode, Json.optionalOf_map hposition]

/-- The place and the sizes of the area are finite, as far as it has them. -/
structure Area.IsFinite (a : Area) : Prop where
  position : ∀ p ∈ a.position, p.isFinite = true
  width : ∀ x ∈ a.width, x.isFinite = true
  height : ∀ x ∈ a.height, x.isFinite = true

/-- An area whose place and sizes are finite is read back from its JSON. -/
theorem Area.survives {a : Area} (ha : a.IsFinite) : Survives toJson ofJson? a := by
  have hposition : ∀ p ∈ a.position, Survives Point.toJson Point.ofJson? p :=
    fun p hp => Point.survives (ha.position p hp)
  have hwidth : ∀ x ∈ a.width, Survives Json.ofNumber Json.toNumber? x :=
    fun x hx => Json.survives_ofNumber (ha.width x hx)
  have hheight : ∀ x ∈ a.height, Survives Json.ofNumber Json.toNumber? x :=
    fun x hx => Json.survives_ofNumber (ha.height x hx)
  refine ⟨?_, nofun⟩
  unfold ofJson?
  refine read_bind _ rfl <| read_bind a.id ?_ <| read_bind a.name ?_ <| read_bind a.tableIds ?_ <|
    read_bind a.color ?_ <| read_bind a.position ?_ <| read_bind a.width ?_ <|
    read_bind a.height ?_ <| read_bind a.labelHorizontal ?_ <| read_bind a.labelVertical ?_ <|
    read_bind a.databaseType ?_ <| read_bind a.commonColumns ?_ <| read_bind a.note ?_ <|
    read_bind a.comments ?_ rfl
  all_goals simp [List.lookup_append, Survives.decode_encode, Json.optionalOf_map hposition,
    Json.optionalOf_map hwidth, Json.optionalOf_map hheight]

/-! ## Diagrams -/

/-- A time within the calendar's years is read back from its text. -/
theorem Timestamp.ofJson?_text {t : Timestamp} (ht : isCalendarYear t.date.year = true) :
    ofJson? (.string t.text) = some t := by
  rw [ofJson?, Json.toString?_string, Option.bind_some, ofString?_text ht]

namespace Diagram

/-- Every place and every size in the diagram is finite. -/
structure IsFinite (d : Diagram) : Prop where
  tables : ∀ t ∈ d.tables, t.IsFinite
  areas : ∀ a ∈ d.areas, a.IsFinite

/-- The diagram was made and changed in calendar years. -/
structure IsDated (d : Diagram) : Prop where
  createdAt : isCalendarYear d.createdAt.date.year = true
  updatedAt : isCalendarYear d.updatedAt.date.year = true

/-- A diagram with finite places and dates of the calendar is read back from its JSON. -/
theorem survives {d : Diagram} (hd : d.IsFinite) (hdated : d.IsDated) :
    Survives toJson ofJson? d := by
  have htables := Json.toList?_ofList fun t ht => Table.survives (hd.tables t ht)
  have hareas := Json.toList?_ofList fun a ha => Area.survives (hd.areas a ha)
  have hcreated := Timestamp.ofJson?_text hdated.createdAt
  have hupdated := Timestamp.ofJson?_text hdated.updatedAt
  refine ⟨?_, nofun⟩
  unfold ofJson?
  refine read_bind _ rfl <| read_bind d.id ?_ <| read_bind d.name ?_ <|
    read_bind d.projectName ?_ <| read_bind d.databaseType ?_ <| read_bind d.tables ?_ <|
    read_bind d.references ?_ <| read_bind d.areas ?_ <| read_bind d.note ?_ <|
    read_bind d.createdAt ?_ <| read_bind d.updatedAt ?_ rfl
  all_goals simp [List.lookup_append, htables, hareas, hcreated, hupdated]

/-- The parts that tables, areas and moments are read from. -/
theorem exists_parts_of_ofJson? {j : Json} {d : Diagram} (h : ofJson? j = some d) :
    ∃ parts, parts? partNames j = some parts ∧
      required (Json.toList? Table.ofJson?) "tables" parts = some d.tables ∧
      withDefault [] (Json.toList? Area.ofJson?) "areas" parts = some d.areas ∧
      required Timestamp.ofJson? "created_at" parts = some d.createdAt ∧
      required Timestamp.ofJson? "updated_at" parts = some d.updatedAt := by
  unfold ofJson? at h
  obtain ⟨parts, hparts, h⟩ := Option.bind_eq_some_iff.1 h
  obtain ⟨id, -, h⟩ := Option.bind_eq_some_iff.1 h
  obtain ⟨name, -, h⟩ := Option.bind_eq_some_iff.1 h
  obtain ⟨projectName, -, h⟩ := Option.bind_eq_some_iff.1 h
  obtain ⟨databaseType, -, h⟩ := Option.bind_eq_some_iff.1 h
  obtain ⟨tables, htables, h⟩ := Option.bind_eq_some_iff.1 h
  obtain ⟨references, -, h⟩ := Option.bind_eq_some_iff.1 h
  obtain ⟨areas, hareas, h⟩ := Option.bind_eq_some_iff.1 h
  obtain ⟨note, -, h⟩ := Option.bind_eq_some_iff.1 h
  obtain ⟨createdAt, hcreated, h⟩ := Option.bind_eq_some_iff.1 h
  obtain ⟨updatedAt, hupdated, h⟩ := Option.bind_eq_some_iff.1 h
  cases h
  exact ⟨parts, hparts, htables, hareas, hcreated, hupdated⟩

/-- Only diagrams of calendar years are read. -/
theorem isDated_of_ofJson? {j : Json} {d : Diagram} (h : ofJson? j = some d) : d.IsDated := by
  have hyear : ∀ {parts : List (String × Json)} {name : String} {t : Timestamp},
      required Timestamp.ofJson? name parts = some t → isCalendarYear t.date.year = true := by
    intro parts name t ht
    obtain ⟨j, -, hj⟩ := Option.bind_eq_some_iff.1 ht
    obtain ⟨s, -, hs⟩ := Option.bind_eq_some_iff.1 hj
    exact Timestamp.isCalendarYear_of_ofString? hs
  obtain ⟨parts, -, -, -, hcreated, hupdated⟩ := exists_parts_of_ofJson? h
  exact ⟨hyear hcreated, hyear hupdated⟩

/-- Diagrams with finite numbers are read back from JSON, and so are their parts. What is read from
any JSON value, however it is written there, is read again from its own JSON form. -/
theorem ofJson?_toJson :
    (∀ d : Diagram, d.IsFinite → d.IsDated → ofJson? d.toJson = some d) ∧
      (∀ t : Table, t.IsFinite → Table.ofJson? t.toJson = some t) ∧
      (∀ c : Column, Column.ofJson? c.toJson = some c) ∧
      (∀ i : Index, Index.ofJson? i.toJson = some i) ∧
      (∀ r : Reference, Reference.ofJson? r.toJson = some r) ∧
      (∀ a : Area, a.IsFinite → Area.ofJson? a.toJson = some a) ∧
      ∀ (j : Json) (d : Diagram), ofJson? j = some d → d.IsFinite → ofJson? d.toJson = some d := by
  refine ⟨?_, ?_, ?_, ?_, ?_, ?_, ?_⟩
  · exact fun _ hd hdated => (survives hd hdated).decode_encode
  · exact fun _ ht => (Table.survives ht).decode_encode
  · exact fun c => (Column.survives c).decode_encode
  · exact fun i => (Index.survives i).decode_encode
  · exact fun r => (Reference.survives r).decode_encode
  · exact fun _ ha => (Area.survives ha).decode_encode
  · exact fun _ _ hread hd => (survives hd (isDated_of_ofJson? hread)).decode_encode

/-- A diagram with a part for every rule: some parts are there and others are not. -/
def atlas : Diagram where
  id := "atlas"
  name := "Atlas"
  databaseType := "PostgreSQL"
  tables :=
    [{ id := .ofName "item"
       name := "item"
       columns := [{ name := "price", columnType := "decimal", typeParams := some "10,2",
                     pk := true, default := some "" }]
       color := Color.ofString? "#FfF"
       position := some ⟨.ofDecimal true ⟨0, 0⟩, .ofDecimal false ⟨5, -1⟩⟩
       areaIds := [⟨""⟩] }]
  areas := [{ Area.ofName "sales" with
    width := some (.ofDecimal false ⟨3, 0⟩)
    labelVertical := some .bottom }]
  createdAt := ⟨⟨-4, 2, 29, by decide⟩, 23, 59, 60, 120000, by decide⟩
  updatedAt := ⟨⟨10000, 1, 1, by decide⟩, 0, 0, 0, 1000000, by decide⟩

/-- The diagram in JSON as it is never written: its parts in an array, the fields of the area in
another order, and moments with offsets. -/
def atlasJson : Json :=
  .array [.string "atlas", .string "Atlas", .null, .string "PostgreSQL",
    .array [.array [.string "table-item", .string "item", .null,
      .array [.object [("column_type", .string "decimal"), ("name", .string "price"),
        ("type_params", .string "10,2"), ("pk", .bool true), ("default", .string "")]],
      .array [], .string "#FfF",
      .array [.number (.ofDecimal true ⟨0, 0⟩), .number (.ofDecimal false ⟨5, -1⟩)],
      .array [.string ""]]],
    .array [],
    .array [.object [("width", .count 3), ("label_vertical", .object [("bottom", .null)]),
      ("table_ids", .array []), ("name", .string "sales"), ("id", .string "area-sales")]],
    .null, .string "-4-3-1 1:59:60.00012+02:00", .string "+9999-12-31T23:30:0.001-00:30"]

/-- The diagram is read from either form. -/
theorem ofJson?_toJson_atlas :
    atlas.IsFinite ∧ atlas.IsDated ∧ ofJson? atlas.toJson = some atlas ∧
      ofJson? atlasJson = some atlas := by
  have hfinite : atlas.IsFinite := by
    refine ⟨fun t ht => ?_, fun a ha => ?_⟩
    · obtain rfl := List.mem_singleton.1 ht
      intro p hp
      obtain rfl := Option.some.inj hp
      decide +kernel
    · obtain rfl := List.mem_singleton.1 ha
      refine ⟨nofun, fun x hx => ?_, nofun⟩
      obtain rfl := Option.some.inj hx
      decide +kernel
  have hdated : atlas.IsDated := ⟨by decide, by decide⟩
  have hread : ofJson? atlasJson = some atlas := by decide +kernel
  exact ⟨hfinite, hdated, ofJson?_toJson.1 atlas hfinite hdated, hread⟩

end Diagram

end SchemaDiagram
