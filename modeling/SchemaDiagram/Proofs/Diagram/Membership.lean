import SchemaDiagram.Proofs.Diagram.Linking

/-!
# Membership of areas and tables

Membership is written down twice: an area lists its tables and a table lists its areas. Both lists
follow from the document alone, whatever the order of its tables and areas is and however often a
name is given or mentioned: an area lists the identifiers of its members that are there
(`Document.tableIdsOf`), and the first table of a name lists the areas that mention the name
(`Document.areaIdsOf`). Later tables of the name belong to no area.

Main statement: `Diagram.membership_ofDocument`. It says both lists in closed form, and that they
agree. It rests on `Diagram.ofDocument_eq`, which says what adding one area after the other comes
to.
-/

namespace SchemaDiagram

namespace Document

/-- The identifiers of the members that an area lists, of those that there is a table of: each once,
in the order of their first mention. -/
def tableIdsOf (document : Document) (a : Area) : List TableId :=
  ((a.tables.filter fun n => document.tables.any fun t => t.name == n).map TableId.ofName).eraseDups

/-- The identifiers of the areas that mention a table: each once, in the order of the areas. -/
def areaIdsOf (document : Document) (name : String) : List AreaId :=
  ((document.areas.filter fun a => a.tables.contains name).map fun a =>
    AreaId.ofName a.name).eraseDups

variable (document : Document)

/-- Looking a name up among the tables gives the identifier of the name. -/
theorem map_id_find?_toModel (n : String) :
    ((document.tables.map Table.toModel).find? fun t => t.name == n).map SchemaDiagram.Table.id =
      if document.tables.any fun t => t.name == n then some (.ofName n) else none := by
  rw [List.find?_map, Option.map_map]
  cases hfind : document.tables.find? ((fun t => t.name == n) ∘ Table.toModel) with
  | none =>
    have hany : (document.tables.any fun t => t.name == n) = false :=
      List.any_eq_false.2 (List.find?_eq_none.1 hfind)
    rw [hany]
    rfl
  | some t =>
    have hname : t.name = n := by
      have hfound := List.find?_some hfind
      exact beq_iff_eq.1 hfound
    have hany : (document.tables.any fun t => t.name == n) = true :=
      List.any_eq_true.2 ⟨t, List.mem_of_find?_eq_some hfind, beq_iff_eq.2 hname⟩
    rw [hany, ← hname]
    rfl

/-- The members of an area have the ids of the listed tables that are there. -/
theorem memberIds_toModel (a : Area) :
    memberIds (document.tables.map Table.toModel) a.tables = document.tableIdsOf a := by
  unfold memberIds tableIdsOf
  simp only [map_id_find?_toModel]
  congr 1
  induction a.tables with
  | nil => rfl
  | cons n names ih =>
    rw [List.filterMap_cons, List.filter_cons]
    by_cases hn : (document.tables.any fun t => t.name == n) = true
    · simp only [hn, if_true, List.map_cons, ih]
    · rw [if_neg hn, if_neg hn]
      exact ih

variable {document}

/-- An area has a table as a member exactly if it lists the name and there is such a table. -/
theorem contains_ofName_tableIdsOf {a : Area} {n : String} :
    (document.tableIdsOf a).contains (.ofName n) = true ↔
      n ∈ a.tables ∧ ∃ t ∈ document.tables, t.name = n := by
  simp only [tableIdsOf, List.contains_iff_mem, List.mem_eraseDups, List.mem_map, List.mem_filter,
    List.any_eq_true, beq_iff_eq]
  constructor
  · rintro ⟨m, hm, hid⟩
    rwa [TableId.ofName_injective hid] at hm
  · intro hn
    exact ⟨n, hn, rfl⟩

/-- A table has an area exactly if an area of that id lists its name. -/
theorem mem_areaIdsOf {x : AreaId} {n : String} :
    x ∈ document.areaIdsOf n ↔ ∃ a ∈ document.areas, n ∈ a.tables ∧ AreaId.ofName a.name = x := by
  simp only [areaIdsOf, List.mem_eraseDups, List.mem_map, List.mem_filter, List.contains_iff_mem,
    and_assoc]

/-! ## The two lists -/

/-- An area of the diagram lists the members that are there. -/
theorem linkedAreas_eq :
    linkedAreas document = document.areas.map fun a =>
      { a.toModel with tableIds := document.tableIdsOf a } := by
  unfold linkedAreas
  simp only [memberIds_toModel]

/-- The areas of the diagram that list a table are those of the document that mention it. -/
theorem map_id_filter_linkedAreas {t : Table} (ht : t ∈ document.tables) :
    ((linkedAreas document).filter fun a => a.contains (.ofName t.name)).map SchemaDiagram.Area.id =
      (document.areas.filter fun a => a.tables.contains t.name).map fun a => .ofName a.name := by
  rw [linkedAreas_eq, List.filter_map, List.map_map]
  refine congrArg₂ List.map rfl (List.filter_congr fun a _ => ?_)
  rw [Bool.eq_iff_iff, List.contains_iff_mem]
  refine contains_ofName_tableIdsOf.trans ⟨And.left, fun hmentioned => ⟨hmentioned, t, ht, rfl⟩⟩

/-- A table is the first one of its identifier if no table in front of it has its name. -/
theorem findIdx?_toModel_eq_some {i : Nat} (hi : i < document.tables.length) :
    ((document.tables.map Table.toModel).findIdx? fun u =>
        u.id == .ofName document.tables[i].name) = some i ↔
      ((document.tables.take i).any fun u => u.name == document.tables[i].name) = false := by
  have hid : ∀ u : Table, (u.toModel.id == TableId.ofName document.tables[i].name) =
      (u.name == document.tables[i].name) := by
    intro u
    rw [Bool.eq_iff_iff, beq_iff_eq, beq_iff_eq]
    exact ⟨TableId.ofName_injective, congrArg TableId.ofName⟩
  rw [List.findIdx?_map, List.findIdx?_eq_some_iff_getElem, List.any_eq_false]
  simp only [Function.comp_apply, hid, beq_self_eq_true, true_and, List.mem_take_iff_getElem]
  constructor
  · rintro ⟨_, hbefore⟩ u ⟨j, hj, rfl⟩
    exact hbefore j (by omega)
  · intro hbefore
    exact ⟨hi, fun j hj => hbefore _ ⟨j, by omega, rfl⟩⟩

end Document

namespace Diagram

variable {document : Document} {defaults : DiagramDefaults}

/-- A diagram has as many tables as its document. -/
theorem length_tables_ofDocument (document : Document) (defaults : DiagramDefaults) :
    (ofDocument document defaults).tables.length = document.tables.length := by
  rw [ofDocument_eq]
  simp

/-- A table of the diagram has the name of the document's, and knows the areas that mention it if it
is the first of its name. -/
theorem getElem_tables_ofDocument (document : Document) (defaults : DiagramDefaults) {i : Nat}
    (hi : i < (ofDocument document defaults).tables.length)
    (hlt : i < document.tables.length) :
    (ofDocument document defaults).tables[i].name = document.tables[i].name ∧
      (ofDocument document defaults).tables[i].areaIds =
        if (document.tables.take i).any fun u => u.name == document.tables[i].name then []
        else document.areaIdsOf document.tables[i].name := by
  have htables := congrArg Diagram.tables (ofDocument_eq document defaults)
  rw [List.getElem_of_eq htables, getElem_markedTables _ (by simpa using hlt),
    getElem_joinedTables _ (by simpa using hlt)]
  simp only [List.getElem_map, Document.Table.toModel, true_and]
  have hfirst := Document.findIdx?_toModel_eq_some hlt
  cases hbefore : (document.tables.take i).any fun u => u.name == document.tables[i].name with
  | true =>
    rw [hbefore] at hfirst
    rw [if_neg fun h => Bool.noConfusion (hfirst.1 h), if_pos rfl]
  | false =>
    rw [if_pos (hfirst.2 hbefore), Document.map_id_filter_linkedAreas (List.getElem_mem hlt),
      if_neg Bool.false_ne_true]
    rfl

/-- The first table of a name lists the areas that mention it. -/
theorem areaIds_of_table? {n : String} {t : Table}
    (h : (ofDocument document defaults).table? n = some t) :
    (∃ u ∈ document.tables, u.name = n) ∧ t.areaIds = document.areaIdsOf n := by
  obtain ⟨hname, i, hi, rfl, hbefore⟩ := List.find?_eq_some_iff_getElem.1 h
  have hlt : i < document.tables.length := by rwa [← length_tables_ofDocument document defaults]
  obtain ⟨hsame, hareas⟩ := getElem_tables_ofDocument document defaults hi hlt
  rw [beq_iff_eq, hsame] at hname
  refine ⟨⟨_, List.getElem_mem hlt, hname⟩, ?_⟩
  have hfirst : ((document.tables.take i).any fun u => u.name == n) = false := by
    rw [List.any_eq_false]
    intro u hu
    obtain ⟨j, hj, rfl⟩ := List.mem_take_iff_getElem.1 hu
    have hne := hbefore j (by omega)
    obtain ⟨hsame', -⟩ := getElem_tables_ofDocument document defaults (i := j) (by omega) (by omega)
    rw [hsame', Bool.not_eq_true'] at hne
    exact ne_true_of_eq_false hne
  rw [hareas, hname, hfirst]
  rfl

/-- A name of a table of the document is one of the diagram. -/
theorem exists_table?_ofDocument (defaults : DiagramDefaults) {u : Document.Table}
    (hu : u ∈ document.tables) :
    ∃ t, (ofDocument document defaults).table? u.name = some t := by
  obtain ⟨i, hi, rfl⟩ := List.getElem_of_mem hu
  have hlt : i < (ofDocument document defaults).tables.length := by
    rwa [length_tables_ofDocument document defaults]
  refine Option.isSome_iff_exists.1 (List.find?_isSome.2 ⟨_, List.getElem_mem hlt, ?_⟩)
  exact beq_iff_eq.2 (getElem_tables_ofDocument document defaults hlt hi).1

/-- Areas and tables of the diagram of a document list each other: an area the members that there is
a table of, the first table of a name the areas that mention it, and a later one none. Both lists
are in the order of the document and without repeats, and they agree. -/
theorem membership_ofDocument (document : Document) (defaults : DiagramDefaults) :
    let d := ofDocument document defaults
    d.areas.map (fun a => (a.id, a.tableIds)) =
        document.areas.map (fun a => (.ofName a.name, document.tableIdsOf a)) ∧
      d.tables.map (fun t => (t.name, t.areaIds)) =
        document.tables.mapIdx (fun i t =>
          (t.name, if (document.tables.take i).any fun u => u.name == t.name then []
            else document.areaIdsOf t.name)) ∧
      ∀ (x : AreaId) (n : String), (∃ t, d.table? n = some t ∧ x ∈ t.areaIds) ↔
        ∃ a ∈ d.areas, a.id = x ∧ a.contains (.ofName n) = true := by
  intro d
  have hareas : d.areas = linkedAreas document := congrArg Diagram.areas (ofDocument_eq _ _)
  rw [Document.linkedAreas_eq] at hareas
  refine ⟨?_, ?_, fun x n => ?_⟩
  · rw [hareas, List.map_map]
    rfl
  · refine List.ext_getElem ?_ fun i hi hi' => ?_
    · rw [List.length_map, List.length_mapIdx]
      exact length_tables_ofDocument document defaults
    · obtain ⟨hname, hareaIds⟩ := getElem_tables_ofDocument document defaults
        (by simpa using hi) (by simpa using hi')
      rw [List.getElem_map, List.getElem_mapIdx]
      exact Prod.ext hname hareaIds
  · constructor
    · rintro ⟨t, ht, hx⟩
      obtain ⟨hthere, hareaIds⟩ := areaIds_of_table? ht
      rw [hareaIds] at hx
      obtain ⟨a, ha, hmentioned, rfl⟩ := Document.mem_areaIdsOf.1 hx
      refine ⟨_, hareas ▸ List.mem_map_of_mem ha, rfl, ?_⟩
      exact Document.contains_ofName_tableIdsOf.2 ⟨hmentioned, hthere⟩
    · rintro ⟨b, hb, rfl, hcontains⟩
      rw [hareas] at hb
      obtain ⟨a, ha, rfl⟩ := List.mem_map.1 hb
      obtain ⟨hmentioned, u, hu, rfl⟩ := Document.contains_ofName_tableIdsOf.1 hcontains
      obtain ⟨t, ht⟩ := exists_table?_ofDocument defaults hu
      refine ⟨t, ht, ?_⟩
      rw [(areaIds_of_table? ht).2]
      exact Document.mem_areaIdsOf.2 ⟨a, ha, hmentioned, rfl⟩

end Diagram

end SchemaDiagram
