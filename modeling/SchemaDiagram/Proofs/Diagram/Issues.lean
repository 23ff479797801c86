import Mathlib.Data.List.Count
import Mathlib.Data.List.Nodup
import SchemaDiagram.Diagram.Integrity
import SchemaDiagram.Proofs.Diagram.ForeignKeys
import SchemaDiagram.Proofs.Diagram.Identifiers

/-!
# What is reported about a diagram

Every element whose identifier an earlier one has is reported, so an identifier is reported once
less than it occurs. For every end of a reference there is at most one report, which `EndReport` says
in terms of the tables and columns that are there. A diagram without any report is one in which names
are a safe way to speak of tables, areas and references.

Main statement: `Diagram.integrityIssues_exact`, with what it comes to for the diagram of a
document: there is nothing to report exactly if names are not used twice and every end of a reference
names a column. The identifiers of references have to be taken apart for that
(`ReferenceId.endpoints?_eq_some_iff`).
-/

namespace SchemaDiagram

/-! ## Repeats -/

section Repeats

variable {α : Type} [BEq α] [LawfulBEq α]

/-- An element repeats as often as it is there, one time less if it has not been seen before. -/
theorem count_repeatsAfter (seen xs : List α) (x : α) :
    (repeatsAfter seen xs).count x = if x ∈ seen then xs.count x else xs.count x - 1 := by
  induction xs generalizing seen with
  | nil => simp [repeatsAfter]
  | cons y xs ih =>
    rw [repeatsAfter]
    by_cases hy : y ∈ seen
    · rw [if_pos (List.contains_iff_mem.2 hy), List.count_cons, List.count_cons, ih]
      by_cases hyx : y = x
      · subst hyx
        rw [if_pos hy, if_pos hy]
      · simp only [beq_iff_eq, hyx, if_false, Nat.add_zero]
    · rw [if_neg (mt List.contains_iff_mem.1 hy), ih, List.count_cons]
      by_cases hyx : y = x
      · subst hyx
        simp [hy]
      · simp [hyx, Ne.symm hyx]

/-- What is seen matters as a set. -/
theorem repeatsAfter_congr {seen seen' : List α} (h : ∀ x, x ∈ seen ↔ x ∈ seen') (xs : List α) :
    repeatsAfter seen xs = repeatsAfter seen' xs := by
  induction xs generalizing seen seen' with
  | nil => rfl
  | cons y xs ih =>
    have hcons (x : α) : x ∈ y :: seen ↔ x ∈ y :: seen' := by simp only [List.mem_cons, h]
    simp only [repeatsAfter, List.contains_iff_mem, h, ih h, ih hcons]

/-- An element is repeated once less than it occurs. -/
theorem count_repeatsAfter_nil (xs : List α) (x : α) :
    (repeatsAfter [] xs).count x = xs.count x - 1 := by
  rw [count_repeatsAfter, if_neg List.not_mem_nil]

/-- Nothing is repeated in a list without duplicates, and in no other. -/
theorem repeatsAfter_nil_eq_nil_iff (xs : List α) : repeatsAfter [] xs = [] ↔ xs.Nodup := by
  rw [List.nodup_iff_count_le_one, List.eq_nil_iff_forall_not_mem]
  refine forall_congr' fun x => ?_
  rw [← List.count_eq_zero, count_repeatsAfter_nil]
  omega

end Repeats

/-- The issue is about an identifier that is used again. -/
def IntegrityIssue.IsRepeat : IntegrityIssue → Prop
  | duplicateTable _ | duplicateArea _ | duplicateReference _ => True
  | unknownTable _ _ | unknownColumn _ _ _ => False

namespace Diagram

variable {d : Diagram}

/-! ## Ends of references -/

/-- What is to be reported about an end of a reference: a table that is not there, or a column that
the first table with the identifier does not have. -/
inductive EndReport (d : Diagram) (reference : ReferenceId) (table : TableId) (column : String) :
    List IntegrityIssue → Prop
  /-- No table has the identifier. -/
  | noTable (h : ∀ t ∈ d.tables, t.id ≠ table) :
    EndReport d reference table column [.unknownTable reference table]
  /-- No column of the first table with the identifier has the name. -/
  | noColumn {t : Table} (ht : d.tableById? table = some t) (h : ∀ c ∈ t.columns, c.name ≠ column) :
    EndReport d reference table column [.unknownColumn reference table column]
  /-- The first table with the identifier has a column of the name. -/
  | found {t : Table} (ht : d.tableById? table = some t) {c : Column} (hc : c ∈ t.columns)
    (h : c.name = column) : EndReport d reference table column []

/-- What is reported of an endpoint is no repetition. -/
theorem EndReport.not_isRepeat {reference : ReferenceId} {table : TableId} {column : String}
    {xs : List IntegrityIssue} (h : d.EndReport reference table column xs) :
    ∀ x ∈ xs, ¬ x.IsRepeat := by
  cases h with
  | noTable => exact List.forall_mem_singleton.2 not_false
  | noColumn => exact List.forall_mem_singleton.2 not_false
  | found => exact List.forall_mem_nil _

/-- The issue of an endpoint is what is to be reported about that end. -/
theorem endReport_endpointIssue? (reference : ReferenceId) (table : TableId) (column : String) :
    EndReport d reference table column (d.endpointIssue? reference table column).toList := by
  cases ht : d.tableById? table with
  | none =>
    rw [endpointIssue?, ht]
    exact .noTable fun t hmem => by simpa using List.find?_eq_none.1 ht t hmem
  | some t =>
    cases hc : t.column? column with
    | none =>
      simp only [endpointIssue?, ht, hc]
      exact .noColumn ht fun c hmem => by simpa using List.find?_eq_none.1 hc c hmem
    | some c =>
      simp only [endpointIssue?, ht, hc]
      exact .found ht (List.mem_of_find?_eq_some hc) (by simpa using List.find?_some hc)

/-- Nothing is reported about an end exactly if its column is there. -/
theorem endpointIssue?_eq_none_iff {reference : ReferenceId} {table : TableId} {column : String} :
    d.endpointIssue? reference table column = none ↔
      ∃ t, d.tableById? table = some t ∧ ∃ c ∈ t.columns, c.name = column := by
  constructor
  · intro h
    have hreport := d.endReport_endpointIssue? reference table column
    rw [h] at hreport
    cases hreport with
    | found ht hc hname => exact ⟨_, ht, _, hc, hname⟩
  · rintro ⟨t, ht, c, hc, hname⟩
    have hsome : (t.column? column).isSome = true :=
      List.find?_isSome.2 ⟨c, hc, beq_iff_eq.2 hname⟩
    obtain ⟨b, hb⟩ := Option.isSome_iff_exists.1 hsome
    simp only [endpointIssue?, ht, hb]

/-! ## All reports -/

/-- The reports about references are those about one after the other. -/
theorem referenceIssues_eq (seen : List ReferenceId) (rs : List Reference) :
    d.referenceIssues seen rs =
      (rs.mapIdx fun i r =>
        (if r.id ∈ seen ∨ r.id ∈ (rs.take i).map Reference.id then [.duplicateReference r.id]
          else []) ++ d.endpointIssues r).flatten := by
  induction rs generalizing seen with
  | nil => rfl
  | cons r rs ih =>
    rw [referenceIssues, ih, List.mapIdx_cons, List.flatten_cons]
    simp only [List.contains_iff_mem, List.take_zero, List.map_nil, List.not_mem_nil, or_false,
      List.take_succ_cons, List.map_cons, List.mem_cons]
    refine congrArg (_ ++ List.flatten ·) (congrArg (List.mapIdx · rs) ?_)
    funext i s
    exact congrArg (· ++ _) (if_congr (by rw [or_assoc, or_left_comm]) rfl rfl)

/-- The issues of a reference's endpoints are no repetitions. -/
theorem not_isRepeat_of_mem_endpointIssues {r : Reference} {x : IntegrityIssue}
    (h : x ∈ d.endpointIssues r) : ¬ x.IsRepeat := by
  rcases List.mem_append.1 h with h | h
  · exact (d.endReport_endpointIssue? _ _ _).not_isRepeat x h
  · exact (d.endReport_endpointIssue? _ _ _).not_isRepeat x h

/-- A reference is reported as repeated as often as its id repeats. -/
theorem count_duplicateReference_referenceIssues (seen : List ReferenceId) (rs : List Reference)
    (id : ReferenceId) :
    (d.referenceIssues seen rs).count (.duplicateReference id) =
      (repeatsAfter seen (rs.map Reference.id)).count id := by
  have hends (r : Reference) : (d.endpointIssues r).count (.duplicateReference id) = 0 :=
    List.count_eq_zero.2 fun h => not_isRepeat_of_mem_endpointIssues h trivial
  induction rs generalizing seen with
  | nil => rfl
  | cons r rs ih =>
    rw [referenceIssues, List.map_cons, repeatsAfter, List.count_append, List.count_append, ih,
      hends]
    split
    · next hseen =>
      have hset (x : ReferenceId) : x ∈ r.id :: seen ↔ x ∈ seen := by
        rw [List.mem_cons]
        exact or_iff_right_of_imp fun hx => hx ▸ List.contains_iff_mem.1 hseen
      rw [repeatsAfter_congr hset]
      simp [List.count_cons, Nat.add_comm]
    · simp

/-- References have no issues exactly if no id repeats and no endpoint has an issue. -/
theorem referenceIssues_eq_nil_iff (seen : List ReferenceId) (rs : List Reference) :
    d.referenceIssues seen rs = [] ↔
      repeatsAfter seen (rs.map Reference.id) = [] ∧ ∀ r ∈ rs, d.endpointIssues r = [] := by
  induction rs generalizing seen with
  | nil => simp [referenceIssues, repeatsAfter]
  | cons r rs ih =>
    rw [referenceIssues, List.map_cons, repeatsAfter, List.append_eq_nil_iff,
      List.append_eq_nil_iff, List.forall_mem_cons]
    split
    · simp
    · simp [ih, and_left_comm]

/-- An issue of references is a repeated reference or no repetition at all. -/
theorem eq_or_not_isRepeat_of_mem_referenceIssues {seen : List ReferenceId} {rs : List Reference}
    {x : IntegrityIssue} (h : x ∈ d.referenceIssues seen rs) :
    (∃ id, x = .duplicateReference id) ∨ ¬ x.IsRepeat := by
  rw [referenceIssues_eq, List.mem_flatten] at h
  obtain ⟨_, hmem, hx⟩ := h
  obtain ⟨i, hi, rfl⟩ := List.mem_mapIdx.1 hmem
  rcases List.mem_append.1 hx with hx | hx
  · split at hx
    · exact .inl ⟨_, List.mem_singleton.1 hx⟩
    · cases hx
  · exact .inr (not_isRepeat_of_mem_endpointIssues hx)

/-- Tables, areas and references are reported as repeated once for each time after the first. -/
theorem count_integrityIssues (d : Diagram) :
    (∀ id, d.integrityIssues.count (.duplicateTable id) = (d.tables.map Table.id).count id - 1) ∧
      (∀ id, d.integrityIssues.count (.duplicateArea id) = (d.areas.map Area.id).count id - 1) ∧
      ∀ id, d.integrityIssues.count (.duplicateReference id) =
        (d.references.map Reference.id).count id - 1 := by
  have htables : Function.Injective IntegrityIssue.duplicateTable := fun _ _ h => by cases h; rfl
  have hareas : Function.Injective IntegrityIssue.duplicateArea := fun _ _ h => by cases h; rfl
  have hreferences (x : IntegrityIssue) (hx : x.IsRepeat) (hne : ∀ id, x ≠ .duplicateReference id) :
      (d.referenceIssues [] d.references).count x = 0 := by
    refine List.count_eq_zero.2 fun h => ?_
    rcases eq_or_not_isRepeat_of_mem_referenceIssues h with ⟨id, h⟩ | h
    · exact hne id h
    · exact h hx
  have hother {κ : Type} (f : κ → IntegrityIssue) (xs : List κ) (x : IntegrityIssue)
      (h : ∀ k, f k ≠ x) : (xs.map f).count x = 0 := by
    refine List.count_eq_zero.2 fun hmem => ?_
    obtain ⟨k, -, hk⟩ := List.mem_map.1 hmem
    exact h k hk
  refine ⟨fun id => ?_, fun id => ?_, fun id => ?_⟩
  · rw [integrityIssues, List.count_append, List.count_append,
      List.count_map_of_injective _ _ htables, hother _ _ _ nofun,
      hreferences (.duplicateTable id) trivial nofun, count_repeatsAfter_nil]
    rfl
  · rw [integrityIssues, List.count_append, List.count_append,
      List.count_map_of_injective _ _ hareas, hother _ _ _ nofun,
      hreferences (.duplicateArea id) trivial nofun, count_repeatsAfter_nil, Nat.zero_add]
    rfl
  · rw [integrityIssues, List.count_append, List.count_append, hother _ _ _ nofun,
      hother _ _ _ nofun, count_duplicateReference_referenceIssues, count_repeatsAfter_nil,
      Nat.zero_add]

/-- Nothing is reported exactly if no identifier is used again and the columns of all ends are
there. -/
theorem integrityIssues_eq_nil_iff (d : Diagram) :
    d.integrityIssues = [] ↔
      (d.tables.map Table.id).Nodup ∧ (d.areas.map Area.id).Nodup ∧
        (d.references.map Reference.id).Nodup ∧ ∀ r ∈ d.references, d.endpointIssues r = [] := by
  rw [integrityIssues, List.append_eq_nil_iff, List.append_eq_nil_iff, List.map_eq_nil_iff,
    List.map_eq_nil_iff, referenceIssues_eq_nil_iff, repeatsAfter_nil_eq_nil_iff,
    repeatsAfter_nil_eq_nil_iff, repeatsAfter_nil_eq_nil_iff, and_assoc]

/-- Where no table's id repeats, a table is found by its id exactly if it is there. -/
theorem tableById?_eq_some_iff_of_nodup (h : (d.tables.map Table.id).Nodup) {id : TableId}
    {t : Table} : d.tableById? id = some t ↔ t ∈ d.tables ∧ t.id = id := by
  constructor
  · intro ht
    exact ⟨List.mem_of_find?_eq_some ht, by simpa using List.find?_some ht⟩
  · rintro ⟨ht, rfl⟩
    have hsome : (d.tableById? t.id).isSome = true :=
      List.find?_isSome.2 ⟨t, ht, beq_self_eq_true _⟩
    obtain ⟨u, hu⟩ := Option.isSome_iff_exists.1 hsome
    have hid : u.id = t.id := by simpa using List.find?_some hu
    rw [hu, List.inj_on_of_nodup_map h (List.mem_of_find?_eq_some hu) ht hid]

end Diagram

/-! ## Documents -/

/-- References with different endpoints have different ids. -/
theorem ReferenceId.ofEndpoints_injective :
    Function.Injective fun p : String × String × String × String =>
      ofEndpoints p.1 p.2.1 p.2.2.1 p.2.2.2 := by
  rintro ⟨a, b, c, d⟩ ⟨a', b', c', d'⟩ h
  have hread : (ofEndpoints a b c d).endpoints? = some (a', b', c', d') :=
    endpoints?_eq_some_iff.2 h
  rw [endpoints?_eq_some_iff.2 rfl] at hread
  exact Option.some.inj hread

namespace Document

/-- An endpoint names a column of a table of the document. -/
def HasColumn (document : Document) (e : Endpoint) : Prop :=
  ∃ t ∈ document.tables, t.name = e.table ∧ ∃ c ∈ t.columns, c.name = e.column

/-- The four names that a reference is made of. -/
def Reference.names (r : Reference) : String × String × String × String :=
  (r.source.table, r.source.column, r.target.table, r.target.column)

variable (document : Document) (defaults : DiagramDefaults)

/-- The tables of a document have the ids of their names. -/
theorem map_id_tables_ofDocument :
    (Diagram.ofDocument document defaults).tables.map SchemaDiagram.Table.id =
      (document.tables.map Table.name).map TableId.ofName := by
  rw [Diagram.ofDocument_eq, map_id_markedTables, map_id_joinedTables, List.map_map, List.map_map]
  rfl

/-- The areas of a document have the ids of their names. -/
theorem map_id_areas_ofDocument :
    (Diagram.ofDocument document defaults).areas.map SchemaDiagram.Area.id =
      (document.areas.map Area.name).map AreaId.ofName := by
  rw [Diagram.ofDocument_eq, linkedAreas, List.map_map, List.map_map]
  rfl

/-- The references of a diagram are those of its document. -/
theorem references_ofDocument :
    (Diagram.ofDocument document defaults).references =
      document.references.map Reference.toModel := by
  rw [Diagram.ofDocument_eq]
  rfl

/-- The columns of the diagram have the names of those of the document. -/
theorem map_names_ofDocument :
    (Diagram.ofDocument document defaults).tables.map
        (fun t => (t.id, t.columns.map SchemaDiagram.Column.name)) =
      document.tables.map fun t => (.ofName t.name, t.columns.map Column.name) := by
  have hcolumns := congrArg (List.map fun p => (p.1, p.2.map SchemaDiagram.Column.name))
    (Diagram.columns_ofDocument document defaults)
  rw [List.map_map] at hcolumns
  refine hcolumns.trans (List.ext_getElem (by simp) fun i _ _ => ?_)
  rw [List.getElem_map, List.getElem_map, List.getElem_mapIdx]
  refine Prod.ext rfl (List.ext_getElem (by simp) fun j _ _ => ?_)
  simp [Column.toModel]

variable {document}

/-- Where no name is used twice, nothing is reported about an end exactly if it names a column. -/
theorem endpointIssue?_ofDocument_eq_none_iff (h : (document.tables.map Table.name).Nodup)
    (id : ReferenceId) (e : Endpoint) :
    (Diagram.ofDocument document defaults).endpointIssue? id (.ofName e.table) e.column = none ↔
      document.HasColumn e := by
  have hids : ((Diagram.ofDocument document defaults).tables.map SchemaDiagram.Table.id).Nodup := by
    rw [map_id_tables_ofDocument]
    exact h.map fun _ _ => TableId.ofName_injective
  have hname (m n : String) : TableId.ofName m = .ofName n ↔ m = n :=
    ⟨TableId.ofName_injective, congrArg TableId.ofName⟩
  calc (Diagram.ofDocument document defaults).endpointIssue? id (.ofName e.table) e.column = none
    _ ↔ ∃ t, (t ∈ (Diagram.ofDocument document defaults).tables ∧ t.id = .ofName e.table) ∧
          ∃ c ∈ t.columns, c.name = e.column := by
        rw [Diagram.endpointIssue?_eq_none_iff]
        simp only [Diagram.tableById?_eq_some_iff_of_nodup hids]
    _ ↔ ∃ p ∈ (Diagram.ofDocument document defaults).tables.map
          (fun t => (t.id, t.columns.map SchemaDiagram.Column.name)),
          p.1 = .ofName e.table ∧ e.column ∈ p.2 := by
        simp only [List.mem_map, exists_exists_and_eq_and, and_assoc]
    _ ↔ document.HasColumn e := by
        simp only [map_names_ofDocument, List.mem_map, exists_exists_and_eq_and, hname, HasColumn]

/-- Nothing is reported about the diagram of a document exactly if no name is used twice and all
endpoints name columns. -/
theorem integrityIssues_ofDocument_eq_nil_iff (document : Document) (defaults : DiagramDefaults) :
    (Diagram.ofDocument document defaults).integrityIssues = [] ↔
      (document.tables.map Table.name).Nodup ∧ (document.areas.map Area.name).Nodup ∧
        (document.references.map Reference.names).Nodup ∧
          ∀ r ∈ document.references, document.HasColumn r.source ∧ document.HasColumn r.target := by
  have hareas : Function.Injective AreaId.ofName := fun _ _ => AreaId.ofName_injective
  have htables : Function.Injective TableId.ofName := fun _ _ => TableId.ofName_injective
  have hreferences : (document.references.map Reference.toModel).map SchemaDiagram.Reference.id =
      (document.references.map Reference.names).map fun p =>
        ReferenceId.ofEndpoints p.1 p.2.1 p.2.2.1 p.2.2.2 := by
    rw [List.map_map, List.map_map]
    rfl
  rw [Diagram.integrityIssues_eq_nil_iff, map_id_tables_ofDocument, map_id_areas_ofDocument,
    references_ofDocument, hreferences, List.nodup_map_iff htables, List.nodup_map_iff hareas,
    List.nodup_map_iff ReferenceId.ofEndpoints_injective, List.forall_mem_map]
  refine and_congr_right fun hnames => and_congr_right fun _ => and_congr_right fun _ => ?_
  refine forall₂_congr fun r _ => ?_
  rw [Diagram.endpointIssues, List.append_eq_nil_iff, Option.toList_eq_nil_iff,
    Option.toList_eq_nil_iff]
  exact and_congr (endpointIssue?_ofDocument_eq_none_iff defaults hnames _ r.source)
    (endpointIssue?_ofDocument_eq_none_iff defaults hnames _ r.target)

end Document

/-- Every use of an identifier again is reported and every end of a reference whose table or column
is not there, each once and nothing else, in the order of the tables, the areas and the references.
There is nothing to report about the diagram of a document exactly if no name of a table or of an
area is used twice, no two references have all four names in common, and all endpoints name columns
of tables. -/
theorem Diagram.integrityIssues_exact (d : Diagram) (document : Document)
    (defaults : DiagramDefaults) :
    ((∀ id, d.integrityIssues.count (.duplicateTable id) = (d.tables.map Table.id).count id - 1) ∧
      (∀ id, d.integrityIssues.count (.duplicateArea id) = (d.areas.map Area.id).count id - 1) ∧
      ∀ id, d.integrityIssues.count (.duplicateReference id) =
        (d.references.map Reference.id).count id - 1) ∧
      (∃ (tableIds : List TableId) (areaIds : List AreaId)
          (source target : Reference → List IntegrityIssue),
        d.integrityIssues =
            tableIds.map .duplicateTable ++ areaIds.map .duplicateArea ++
              (d.references.mapIdx fun i r =>
                (if r.id ∈ (d.references.take i).map Reference.id then [.duplicateReference r.id]
                  else []) ++ (source r ++ target r)).flatten ∧
          ∀ r, d.EndReport r.id r.fromTable r.fromColumn (source r) ∧
            d.EndReport r.id r.toTable r.toColumn (target r)) ∧
      ((ofDocument document defaults).integrityIssues = [] ↔
        (document.tables.map Document.Table.name).Nodup ∧
          (document.areas.map Document.Area.name).Nodup ∧
          (document.references.map Document.Reference.names).Nodup ∧
          ∀ r ∈ document.references,
            document.HasColumn r.source ∧ document.HasColumn r.target) := by
  refine ⟨d.count_integrityIssues, ?_, document.integrityIssues_ofDocument_eq_nil_iff defaults⟩
  refine ⟨repeatsAfter [] (d.tables.map Table.id), repeatsAfter [] (d.areas.map Area.id),
    fun r => (d.endpointIssue? r.id r.fromTable r.fromColumn).toList,
    fun r => (d.endpointIssue? r.id r.toTable r.toColumn).toList, ?_,
    fun r => ⟨d.endReport_endpointIssue? _ _ _, d.endReport_endpointIssue? _ _ _⟩⟩
  rw [integrityIssues, referenceIssues_eq]
  simp only [List.not_mem_nil, false_or, endpointIssues]

/-- A table whose name is used twice is reported once, and a reference is reported for either
end. -/
example :
    let source := "Table t { a int } Table t { c int } Ref: x.a > t.c"
    let document := (Document.ofTokens ((Token.scan source).toOption.getD [])).document
    (Diagram.ofDocument document ⟨"ledger", default, none⟩).integrityIssues =
      [.duplicateTable (.ofName "t"),
        .unknownTable (.ofEndpoints "x" "a" "t" "c") (.ofName "x"),
        .unknownColumn (.ofEndpoints "x" "a" "t" "c") (.ofName "t") "c"] := by
  decide +kernel

end SchemaDiagram
