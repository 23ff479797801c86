import SchemaDiagram.Proofs.Document.Writable
import SchemaDiagram.Proofs.Markup.Faithful

/-!
# Compiling the markup of a compiled diagram

A diagram that was compiled, with or without warnings, is given back by its markup in every field,
except for what markup cannot say: the diagram without it is `Diagram.restated`. Nothing is lost
after that, since the markup of what is given back is the same text again.

Main statement: `compile_markup_of_compile`. Two things are special about a compiled diagram
(`Diagram.IsSettled`): its parts are of the kind that markup can say, and its parts are linked, so
linking them once more changes nothing.
-/

namespace SchemaDiagram

/-! ## What markup leaves of a diagram -/

/-- The table without a place that is not finite. -/
def Table.restated (t : Table) : Table := { t with position := t.position.filter Point.isFinite }

/-- The area without a place and sizes that are not finite. -/
def Area.restated (a : Area) : Area :=
  { a with
    position := a.position.filter Point.isFinite
    width := a.width.filter Number.isFinite
    height := a.height.filter Number.isFinite }

/-- The diagram with its name as that of a project, without areas that have nothing to show, and
without places and sizes that are not finite. -/
def Diagram.restated (d : Diagram) : Diagram :=
  { d with
    projectName := some d.name
    tables := d.tables.map Table.restated
    areas := (d.areas.filter (Markup.isShown d)).map Area.restated }

/-- A diagram whose parts are as they are read, and whose links are all made. -/
structure Diagram.IsSettled (d : Diagram) : Prop where
  /-- The diagram can be said. -/
  writable : d.IsWritable
  /-- The name is that of the project, if there is one. -/
  named : d.projectName.getD d.name = d.name
  /-- Reading the markup of a table gives it back. -/
  tables : ∀ t ∈ d.tables, { t.canonical with areaIds := t.areaIds } = t.restated
  /-- Reading the markup of a reference gives it back. -/
  references : ∀ r ∈ d.references, r.canonical = r
  /-- Reading the markup of an area gives it back. -/
  areas : ∀ a ∈ d.areas, { a.canonical with tableIds := a.tableIds } = a.restated
  /-- Each area lists tables of the diagram, each once. -/
  members : ∀ a ∈ d.areas,
    (a.tableIds.filter fun id => (d.tableById? id).isSome).eraseDups = a.tableIds
  /-- Each table knows its areas. -/
  joined : joinedTables d.areas d.tables = d.tables
  /-- The foreign keys are marked. -/
  marked : markedTables d.references d.tables = d.tables

/-! ## Linking linked tables -/

section Linked

variable {as bs : List Area} {rs : List Reference} {ts : List Table}

/-- Joining tables to areas leaves the tables' ids where they are. -/
theorem findIdx?_joinedTables (id : TableId) :
    (joinedTables as ts).findIdx? (fun t => t.id == id) = ts.findIdx? fun t => t.id == id := by
  refine findIdx?_mapIdx (fun i t => ?_) ts
  rfl

/-- Marking foreign keys leaves the tables' ids where they are. -/
theorem findIdx?_markedTables (id : TableId) :
    (markedTables rs ts).findIdx? (fun t => t.id == id) = ts.findIdx? fun t => t.id == id := by
  refine findIdx?_mapIdx (fun i t => ?_) ts
  rfl

/-- Where the first column of a name stands does not depend on which columns are foreign keys. -/
theorem findIdx?_name_mapIdx (cs : List Column) (fk : Nat → Column → Bool) (name : String) :
    (cs.mapIdx fun j c => { c with fk := fk j c }).findIdx? (fun c => c.name == name) =
      cs.findIdx? fun c => c.name == name := by
  refine findIdx?_mapIdx (fun j c => ?_) cs
  rfl

/-- Joining sees nothing that marking changes. -/
theorem joinedTables_markedTables :
    joinedTables as (markedTables rs ts) = markedTables rs (joinedTables as ts) := by
  refine List.ext_getElem (by simp) fun i hi hi' => ?_
  have hlt : i < ts.length := by simpa using hi
  rw [getElem_joinedTables hi (by simpa using hlt), getElem_markedTables hi' (by simpa using hlt)]
  simp only [getElem_joinedTables _ hlt, getElem_markedTables _ hlt, findIdx?_joinedTables,
    findIdx?_markedTables]

/-- Joining tables to areas twice is joining them once. -/
theorem joinedTables_joinedTables :
    joinedTables as (joinedTables as ts) = joinedTables as ts := by
  refine List.ext_getElem (by simp) fun i hi _ => ?_
  have hlt : i < ts.length := by simpa using hi
  rw [getElem_joinedTables hi (by simpa using hlt)]
  simp only [getElem_joinedTables _ hlt, findIdx?_joinedTables]

/-- Marking foreign keys twice is marking them once. -/
theorem markedTables_markedTables :
    markedTables rs (markedTables rs ts) = markedTables rs ts := by
  refine List.ext_getElem (by simp) fun i hi _ => ?_
  have hlt : i < ts.length := by simpa using hi
  rw [getElem_markedTables hi (by simpa using hlt)]
  simp only [getElem_markedTables _ hlt, findIdx?_markedTables, List.mapIdx_mapIdx,
    Function.comp_def, findIdx?_name_mapIdx, Bool.or_assoc, Bool.or_self]

/-- Areas matter only as far as they list the tables. -/
theorem joinedTables_congr (h : ∀ t ∈ ts, (as.filter fun a => a.contains t.id).map Area.id =
    (bs.filter fun a => a.contains t.id).map Area.id) :
    joinedTables as ts = joinedTables bs ts := by
  refine List.ext_getElem (by simp [joinedTables]) fun i hi _ => ?_
  have hlt : i < ts.length := by simpa [joinedTables] using hi
  simp only [joinedTables, List.getElem_mapIdx]
  rw [h _ (List.getElem_mem hlt)]

/-- Tables as the markup says them are joined to areas as the tables themselves are. -/
theorem joinedTables_canonical :
    joinedTables as (ts.map Table.canonical) =
      (joinedTables as ts).map fun t => { t.canonical with areaIds := t.areaIds } := by
  refine List.ext_getElem (by simp [joinedTables]) fun i _ _ => ?_
  simp only [joinedTables, List.getElem_mapIdx, List.getElem_map, List.findIdx?_map]
  rfl

/-- Foreign keys are marked whether or not a place is finite. -/
theorem markedTables_restated :
    markedTables rs (ts.map Table.restated) = (markedTables rs ts).map Table.restated := by
  refine List.ext_getElem (by simp [markedTables]) fun i _ _ => ?_
  simp only [markedTables, List.getElem_mapIdx, List.getElem_map, List.findIdx?_map]
  rfl

/-- Joining tables to areas keeps their ids. -/
theorem map_id_joinedTables (as : List Area) (ts : List Table) :
    (joinedTables as ts).map Table.id = ts.map Table.id :=
  List.ext_getElem (by simp) fun i _ _ => by simp [joinedTables]

/-- Marking foreign keys keeps the tables' ids. -/
theorem map_id_markedTables (rs : List Reference) (ts : List Table) :
    (markedTables rs ts).map Table.id = ts.map Table.id :=
  List.ext_getElem (by simp) fun i _ _ => by simp [markedTables]

/-- A joined table is one of the tables with other areas. -/
theorem mem_joinedTables {t : Table} (h : t ∈ joinedTables as ts) :
    ∃ u ∈ ts, ∃ areaIds, t = { u with areaIds } := by
  obtain ⟨i, hi, rfl⟩ := List.mem_mapIdx.1 h
  exact ⟨ts[i], List.getElem_mem hi, _, rfl⟩

/-- Marking changes nothing but whether a column is a foreign key. -/
theorem mem_markedTables {t : Table} (h : t ∈ markedTables rs ts) :
    ∃ u ∈ ts, ∃ columns, t = { u with columns } ∧
      ∀ c ∈ columns, ∃ b ∈ u.columns, ∃ fk, c = { b with fk } := by
  obtain ⟨i, hi, rfl⟩ := List.mem_mapIdx.1 h
  refine ⟨ts[i], List.getElem_mem hi, _, rfl, fun c hc => ?_⟩
  obtain ⟨j, hj, rfl⟩ := List.mem_mapIdx.1 hc
  exact ⟨_, List.getElem_mem hj, _, rfl⟩

end Linked

/-! ## A compiled diagram is settled -/

section NoDuplicates

variable {α : Type} [BEq α] [LawfulBEq α]

/-- A list without its repetitions repeats nothing. -/
theorem nodup_eraseDups (xs : List α) : xs.eraseDups.Nodup := by
  match xs with
  | [] => exact List.nodup_nil
  | x :: xs =>
    rw [List.eraseDups_cons, List.nodup_cons]
    refine ⟨fun hmem => ?_, nodup_eraseDups _⟩
    simp [List.mem_eraseDups] at hmem
termination_by xs.length
decreasing_by exact Nat.lt_succ_of_le (List.length_filter_le _ _)

/-- A list that repeats nothing is itself without its repetitions. -/
theorem eraseDups_of_nodup {xs : List α} (h : xs.Nodup) : xs.eraseDups = xs := by
  induction xs with
  | nil => rfl
  | cons x xs ih =>
    obtain ⟨hx, hxs⟩ := List.nodup_cons.1 h
    have hfilter : xs.filter (fun y => !y == x) = xs := by
      refine List.filter_eq_self.2 fun y hy => ?_
      have hne : y ≠ x := fun heq => hx (heq ▸ hy)
      simpa using hne
    rw [List.eraseDups_cons, hfilter, ih hxs]

end NoDuplicates

namespace Document

variable {document : Document}

/-- A table of a document is one of its constructs. -/
theorem mem_constructs_of_mem_tables {t : Table} (h : t ∈ document.tables) :
    .table t ∈ document.constructs := by
  obtain ⟨x, hx, heq⟩ := List.mem_filterMap.1 h
  cases x <;> cases heq
  exact hx

/-- A reference of a document is one of its constructs. -/
theorem mem_constructs_of_mem_references {r : Reference} (h : r ∈ document.references) :
    .reference r ∈ document.constructs := by
  obtain ⟨x, hx, heq⟩ := List.mem_filterMap.1 h
  cases x <;> cases heq
  exact hx

/-- An area of a document is one of its constructs. -/
theorem mem_constructs_of_mem_areas {a : Area} (h : a ∈ document.areas) :
    .area a ∈ document.constructs := by
  obtain ⟨x, hx, heq⟩ := List.mem_filterMap.1 h
  cases x <;> cases heq
  exact hx

/-- A column that is read is already as the markup says it, whatever its mark. -/
theorem Column.IsRead.canonical {c : Column} (h : c.IsRead) (fk : Bool) :
    { c.toModel with fk }.canonical = { c.toModel with fk } := by
  simp only [SchemaDiagram.Column.canonical, Column.toModel, canonicalType_canonicalType,
    Markup.flatMap_commentLines h.comments]

/-- Columns that are read are already as the markup says them, whatever their marks. -/
theorem map_canonical_of_isRead {cs : List Column} (hcs : ∀ c ∈ cs, c.IsRead)
    {columns : List SchemaDiagram.Column}
    (h : ∀ c ∈ columns, ∃ b ∈ cs.map Column.toModel, ∃ fk, c = { b with fk }) :
    columns.map SchemaDiagram.Column.canonical = columns := by
  refine (List.map_congr_left fun c hc => ?_).trans (List.map_id _)
  obtain ⟨_, hmem, fk, rfl⟩ := h c hc
  obtain ⟨b, hb, rfl⟩ := List.mem_map.1 hmem
  exact (hcs b hb).canonical fk

/-- The constructs are as a source text gives them. -/
def IsRead (document : Document) : Prop :=
  ∀ x ∈ document.constructs, x.IsRead ∧ ∀ s ∈ x.comments, Markup.IsCommentText s

variable (hread : document.IsRead)
include hread

/-- A table of the diagram is one of the document, linked to others. -/
theorem exists_table {as : List SchemaDiagram.Area} {rs : List SchemaDiagram.Reference}
    {t : SchemaDiagram.Table}
    (ht : t ∈ markedTables rs (joinedTables as (document.tables.map Table.toModel))) :
    ∃ v : Table, v.IsRead ∧ (∀ s ∈ v.comments, Markup.IsCommentText s) ∧
      ∃ columns areaIds, t = { v.toModel with columns, areaIds } ∧
        ∀ c ∈ columns, ∃ b ∈ v.columns.map Column.toModel, ∃ fk, c = { b with fk } := by
  obtain ⟨u, hu, columns, rfl, hcolumns⟩ := mem_markedTables ht
  obtain ⟨w, hw, areaIds, rfl⟩ := mem_joinedTables hu
  obtain ⟨v, hv, rfl⟩ := List.mem_map.1 hw
  obtain ⟨htable, hcomments⟩ := hread _ (mem_constructs_of_mem_tables hv)
  exact ⟨v, htable, hcomments, columns, areaIds, rfl, hcolumns⟩

/-- An area of the diagram is one of the document, with its members. -/
theorem exists_area {a : SchemaDiagram.Area} (ha : a ∈ linkedAreas document) :
    ∃ b : Area, b.IsRead ∧ (∀ s ∈ b.comments, Markup.IsCommentText s) ∧
      a = { b.toModel with
        tableIds := memberIds (document.tables.map Table.toModel) b.tables } := by
  obtain ⟨b, hb, rfl⟩ := List.mem_map.1 ha
  obtain ⟨harea, hcomments⟩ := hread _ (mem_constructs_of_mem_areas hb)
  exact ⟨b, harea, hcomments, rfl⟩

/-- The diagram of a document that is read can be written. -/
theorem isWritable_ofDocument (defaults : DiagramDefaults) :
    (Diagram.ofDocument document defaults).IsWritable := by
  rw [Diagram.ofDocument_eq]
  refine ⟨fun t ht => ?_, fun r hr => ?_, fun a ha => ?_⟩
  · obtain ⟨v, hv, -, columns, areaIds, rfl, hcolumns⟩ := exists_table hread ht
    refine ⟨rfl, fun c hc => ?_, fun i hi => ?_⟩
    · obtain ⟨_, hmem, fk, rfl⟩ := hcolumns c hc
      obtain ⟨b, hb, rfl⟩ := List.mem_map.1 hmem
      exact (hv.columns b hb).params
    · obtain ⟨j, hj, rfl⟩ := List.mem_map.1 hi
      exact hv.indexes j hj
  · obtain ⟨s, -, rfl⟩ := List.mem_map.1 hr
    exact ⟨s.source.table, s.target.table, rfl⟩
  · obtain ⟨b, hb, -, rfl⟩ := exists_area hread ha
    refine ⟨rfl, fun c hc => ?_⟩
    obtain ⟨d, hd, rfl⟩ := List.mem_map.1 hc
    exact (hb d hd).params

omit hread in
/-- The members of an area are tables of the diagram. -/
theorem isSome_tableById?_of_mem (defaults : DiagramDefaults) {id : TableId} {names : List String}
    (h : id ∈ memberIds (document.tables.map Table.toModel) names) :
    ((Diagram.ofDocument document defaults).tableById? id).isSome = true := by
  rw [memberIds, List.mem_eraseDups] at h
  obtain ⟨n, -, hfind⟩ := List.mem_filterMap.1 h
  obtain ⟨u, hu, rfl⟩ := Option.map_eq_some_iff.1 hfind
  have hmem := List.mem_map_of_mem (f := SchemaDiagram.Table.id) (List.mem_of_find?_eq_some hu)
  rw [← map_id_joinedTables (linkedAreas document),
    ← map_id_markedTables (document.references.map Reference.toModel)] at hmem
  obtain ⟨t, ht, hid⟩ := List.mem_map.1 hmem
  rw [Diagram.tableById?, List.find?_isSome, Diagram.ofDocument_eq]
  exact ⟨t, ht, beq_iff_eq.2 hid⟩

/-- The diagram of a document that is read has all its links made. -/
theorem isSettled_ofDocument (defaults : DiagramDefaults) :
    (Diagram.ofDocument document defaults).IsSettled where
  writable := isWritable_ofDocument hread defaults
  named := by
    rw [Diagram.ofDocument_eq, Diagram.withoutAreas]
    cases document.project? <;> rfl
  tables := by
    rw [Diagram.ofDocument_eq]
    intro t ht
    obtain ⟨v, hv, hcomments, columns, areaIds, rfl, hcolumns⟩ := exists_table hread ht
    simp only [SchemaDiagram.Table.canonical, SchemaDiagram.Table.restated, Table.toModel,
      map_canonical_of_isRead hv.columns hcolumns, Markup.flatMap_commentLines hcomments]
  references := by
    rw [Diagram.ofDocument_eq]
    intro r hr
    obtain ⟨s, hs, rfl⟩ := List.mem_map.1 hr
    obtain ⟨-, hcomments⟩ := hread _ (mem_constructs_of_mem_references hs)
    have hlines : s.comments.flatMap Markup.commentLines = s.comments :=
      Markup.flatMap_commentLines hcomments
    simp only [SchemaDiagram.Reference.canonical, Reference.toModel, hlines]
  areas := by
    rw [Diagram.ofDocument_eq]
    intro a ha
    obtain ⟨b, hb, hcomments, rfl⟩ := exists_area hread ha
    have hcolumns : (b.commonColumns.map Column.toModel).map SchemaDiagram.Column.canonical =
        b.commonColumns.map Column.toModel :=
      map_canonical_of_isRead hb fun c hc => ⟨c, hc, c.fk, rfl⟩
    simp only [SchemaDiagram.Area.canonical, SchemaDiagram.Area.restated, Area.toModel, hcolumns,
      Markup.flatMap_commentLines hcomments]
  members := by
    intro a ha
    rw [Diagram.ofDocument_eq] at ha
    obtain ⟨b, -, -, rfl⟩ := exists_area hread ha
    rw [List.filter_eq_self.2 fun id hid => isSome_tableById?_of_mem defaults hid]
    exact eraseDups_of_nodup (nodup_eraseDups _)
  -- lowering has joined the tables and marked the columns, and doing so twice changes nothing
  joined := by
    rw [Diagram.ofDocument_eq]
    simp only [joinedTables_markedTables, joinedTables_joinedTables]
  marked := by
    rw [Diagram.ofDocument_eq]
    exact markedTables_markedTables

end Document

/-! ## The diagram that is given back -/

namespace Diagram

variable {d : Diagram}

/-- An area that lists a table of the diagram has something to show. -/
theorem isShown_of_contains {a : Area} {t : Table} (ht : t ∈ d.tables)
    (ha : a.contains t.id = true) : Markup.isShown d a = true := by
  have hfind : (d.tableById? t.id).isSome = true :=
    List.find?_isSome.2 ⟨t, ht, beq_self_eq_true t.id⟩
  obtain ⟨u, hu⟩ := Option.isSome_iff_exists.1 hfind
  have hmem : u ∈ Markup.members d a :=
    List.mem_filterMap.2 ⟨t.id, List.contains_iff_mem.1 ha, hu⟩
  have hempty : (Markup.members d a).isEmpty = false :=
    List.isEmpty_eq_false_iff.2 (List.ne_nil_of_mem hmem)
  rw [Markup.isShown, hempty]
  rfl

/-- The markup says the areas of a settled diagram as they are, those that show nothing apart. -/
theorem IsSettled.canonicalAreas_eq (h : d.IsSettled) :
    d.canonicalAreas = (d.areas.filter (Markup.isShown d)).map Area.restated := by
  refine List.map_congr_left fun a ha => ?_
  have hmem := List.mem_of_mem_filter ha
  rw [h.members a hmem, h.areas a hmem]

/-- In a settled diagram, the areas that the markup says join the tables as they are joined. -/
theorem IsSettled.joinedTables_canonicalAreas (h : d.IsSettled) :
    joinedTables d.canonicalAreas d.tables = d.tables := by
  refine Eq.trans (joinedTables_congr fun t ht => ?_) h.joined
  rw [h.canonicalAreas_eq, List.filter_map, List.map_map, List.filter_filter]
  refine congrArg₂ List.map rfl (List.filter_congr fun a _ => ?_)
  by_cases ha : a.contains t.id = true
  · rw [isShown_of_contains ht ha, Bool.and_true]
    rfl
  · rw [Bool.not_eq_true] at ha
    rw [ha]
    exact congrArg (· && _) ha

/-- What the markup of a settled diagram says is the diagram without what markup cannot say. -/
theorem IsSettled.canonical_eq (h : d.IsSettled) (defaults : DiagramDefaults)
    (hid : d.id = defaults.id) (hcreated : d.createdAt = defaults.timestamp)
    (hupdated : d.updatedAt = defaults.timestamp) : d.canonical defaults = d.restated := by
  have htables : markedTables d.references
      (joinedTables d.canonicalAreas (d.tables.map Table.canonical)) =
        d.tables.map Table.restated := by
    calc markedTables d.references (joinedTables d.canonicalAreas (d.tables.map Table.canonical))
      _ = markedTables d.references
          (d.tables.map fun t => { t.canonical with areaIds := t.areaIds }) := by
        rw [joinedTables_canonical, h.joinedTables_canonicalAreas]
      _ = markedTables d.references (d.tables.map Table.restated) := by
        rw [List.map_congr_left h.tables]
      _ = d.tables.map Table.restated := by
        rw [markedTables_restated, h.marked]
  have hreferences : d.references.map Reference.canonical = d.references :=
    (List.map_congr_left h.references).trans (List.map_id _)
  simp only [canonical, restated, htables, hreferences, h.named, hid, hcreated, hupdated]
  rw [h.canonicalAreas_eq]

end Diagram

/-! ## The markup of what is given back -/

namespace Markup

/-- A table is written the same without a place that is not finite. -/
theorem table_restated (t : Table) : table t.restated = table t := by
  simp only [table, Table.restated, position?, Option.filter_filter, Bool.and_self]

variable {d : Diagram}

/-- An area has the same members without places that are not finite. -/
theorem members_restated (a : Area) :
    members d.restated a.restated = (members d a).map Table.restated := by
  have htable : ∀ id, d.restated.tableById? id = (d.tableById? id).map Table.restated := by
    intro id
    rw [Diagram.tableById?, Diagram.restated, List.find?_map]
    rfl
  rw [members, members, List.map_filterMap]
  exact List.filterMap_congr fun id _ => htable id

/-- An area is shown or not as it is without places that are not finite. -/
theorem isShown_restated (a : Area) : isShown d.restated a.restated = isShown d a := by
  rw [isShown, members_restated, List.isEmpty_map]
  rfl

/-- An area is written the same without places and sizes that are not finite. -/
theorem area_restated (a : Area) : area d.restated a.restated = area d a := by
  rw [area, members_restated, List.map_map]
  simp only [area, Area.restated, position?, size?, Option.filter_filter, Bool.and_self]
  rfl

end Markup

/-- What is left of a settled diagram has the markup of the diagram. -/
theorem Diagram.IsSettled.markup_restated {d : Diagram} (h : d.IsSettled) :
    d.restated.markup = d.markup := by
  have hproject : Markup.project d.restated = Markup.project d := by
    simp only [Markup.project, h.named]
    rfl
  have hshown : (d.restated.areas.filter (Markup.isShown d.restated)) =
      (d.areas.filter (Markup.isShown d)).map Area.restated := by
    refine List.filter_eq_self.2 fun b hb => ?_
    obtain ⟨a, ha, rfl⟩ := List.mem_map.1 hb
    rw [Markup.isShown_restated]
    exact (List.mem_filter.1 ha).2
  have htables : d.restated.tables.map (fun t => "\n" ++ Markup.table t) =
      d.tables.map fun t => "\n" ++ Markup.table t := by
    rw [restated, List.map_map]
    exact List.map_congr_left fun t _ => by rw [Function.comp_apply, Markup.table_restated]
  have hareas : ((d.areas.filter (Markup.isShown d)).map Area.restated).map
      (fun a => "\n" ++ Markup.area d.restated a) =
        (d.areas.filter (Markup.isShown d)).map fun a => "\n" ++ Markup.area d a := by
    rw [List.map_map]
    exact List.map_congr_left fun a _ => by rw [Function.comp_apply, Markup.area_restated]
  rw [markup, markup, hproject, hshown, htables, hareas]
  rfl

/-! ## Compiling once more -/

/-- A text that compiles is scanned, and its diagram is that of the document read from it. -/
theorem exists_tokens_of_compile {options : CompileOptions} {source : String} {d : Diagram}
    {warnings : List Diagnostic} (h : compile options source = .ok ⟨d, warnings⟩) :
    ∃ ts, Token.scan source = .ok ts ∧
      d = .ofDocument (Document.ofTokens ts).document options.defaults := by
  unfold compile at h
  rcases hscan : Token.scan source with e | ts
  · rw [hscan] at h
    split at h
    · split at h <;> cases h
    · cases h
  · rw [hscan] at h
    split at h
    · split at h
      · cases h
      · cases h
        exact ⟨ts, rfl, rfl⟩
    · cases h
      exact ⟨ts, rfl, rfl⟩

/-- A text that compiles gives the diagram of a document that has been read. -/
theorem exists_document_of_compile {options : CompileOptions} {source : String} {d : Diagram}
    {warnings : List Diagnostic} (h : compile options source = .ok ⟨d, warnings⟩) :
    ∃ document : Document, document.IsRead ∧ d = .ofDocument document options.defaults := by
  obtain ⟨ts, hscan, hd⟩ := exists_tokens_of_compile h
  exact ⟨_, Document.isRead_ofTokens hscan, hd⟩

/-- The markup of the diagram of a document as it is read compiles to what markup leaves of it. -/
theorem compile_markup_ofDocument {document : Document} (hread : document.IsRead)
    (defaults : DiagramDefaults) :
    compile ⟨defaults, none⟩ (Diagram.ofDocument document defaults).markup =
      .ok ⟨(Diagram.ofDocument document defaults).restated, []⟩ := by
  have hsettled := Document.isSettled_ofDocument hread defaults
  obtain ⟨ts, written, hscan, hdocument, hsaid⟩ := Document.exists_document hsettled.writable
  have hcanonical := hsettled.canonical_eq defaults (by rw [Diagram.ofDocument_eq]; rfl)
    (by rw [Diagram.ofDocument_eq]; rfl) (by rw [Diagram.ofDocument_eq]; rfl)
  rw [compile_none, hscan, Except.map, hdocument,
    Document.ofDocument_of_says hsettled.writable hsaid, hcanonical]

/-- The markup of a compiled diagram compiles without warnings, to the diagram in every field except
for what markup cannot say, and that has the same markup. -/
theorem compile_markup_of_compile {options : CompileOptions} {source : String} {d : Diagram}
    {warnings : List Diagnostic} (h : compile options source = .ok ⟨d, warnings⟩) :
    compile ⟨options.defaults, none⟩ d.markup = .ok ⟨d.restated, []⟩ ∧
      d.restated.markup = d.markup := by
  obtain ⟨document, hread, rfl⟩ := exists_document_of_compile h
  have hsettled := Document.isSettled_ofDocument hread options.defaults
  exact ⟨compile_markup_ofDocument hread options.defaults, hsettled.markup_restated⟩

/-- A source text with a table at no finite place, a reference that breaks off, and an area that has
nothing to show. -/
def goodsText : String :=
  "// goods\nTable item [pos_x: 'inf', pos_y: 'inf'] \x7b price DEC( 10 , 2 ) \x7d Ref item\n" ++
    "Ref: item.price > item.price Area empty \x7b \x7d"

/-- The diagram of the source text. -/
def goods : Diagram where
  id := "goods"
  name := "Untitled Diagram"
  databaseType := "PostgreSQL"
  tables :=
    [{ id := .ofName "item"
       name := "item"
       columns := [{ name := "price", columnType := "decimal", typeParams := some "10,2", fk := true }]
       position := Point.ofCoordinates? (Number.ofString? "inf") (Number.ofString? "inf")
       comments := ["goods"] }]
  references := [.between "item" "price" "item" "price" .manyToOne]
  areas := [.ofName "empty"]
  createdAt := default
  updatedAt := default

/-- The source text compiles with a warning, and the markup of its diagram without one. -/
theorem compile_markup_of_compile_goods :
    compile ⟨⟨"goods", default, none⟩, some 128⟩ goodsText =
        .ok ⟨goods, [.unexpectedToken "'.'" "'Ref' ('Ref')" ⟨⟨3, 1, 82⟩, ⟨3, 4, 85⟩⟩]⟩ ∧
      compile ⟨⟨"goods", default, none⟩, none⟩ goods.markup = .ok ⟨goods.restated, []⟩ ∧
      goods.restated.markup = goods.markup := by
  have hgoods : compile ⟨⟨"goods", default, none⟩, some 128⟩ goodsText =
      .ok ⟨goods, [.unexpectedToken "'.'" "'Ref' ('Ref')" ⟨⟨3, 1, 82⟩, ⟨3, 4, 85⟩⟩]⟩ := by
    decide +kernel
  exact ⟨hgoods, compile_markup_of_compile hgoods⟩

end SchemaDiagram
