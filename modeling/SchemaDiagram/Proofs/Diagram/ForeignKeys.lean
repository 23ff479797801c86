import SchemaDiagram.Proofs.Diagram.Membership
import SchemaDiagram.Proofs.Markup.Compiled

/-!
# Foreign keys

Which columns become foreign keys is said here without the lookups of `Diagram.markForeignKeys`: a
column is marked if a reference names the identifier of its table and the name of the column, the
table is the first of its identifier and the column the first of its name (`Diagram.isReferring`).
Neither the order of the references nor how often one is repeated makes a difference, tables and
columns that share a name do not either, and marking again marks nothing new.

Main statement: `Diagram.fk_markForeignKeys`, for every diagram and for that of every document. It
rests on `Diagram.markForeignKeys_eq`, which says what marking for one reference after the other
comes to.
-/

namespace SchemaDiagram

/-- The first match of a key stands in place `i` if the element there has the key, and none in front
of it does. -/
theorem findIdx?_beq_eq_some_iff {α κ : Type} [BEq κ] [LawfulBEq κ] (key : α → κ) (xs : List α)
    {i : Nat} (hi : i < xs.length) (k : κ) :
    xs.findIdx? (fun x => key x == k) = some i ↔
      ((xs.take i).map key).contains (key xs[i]) = false ∧ k = key xs[i] := by
  rw [List.findIdx?_eq_some_iff_getElem, List.contains_eq_any_beq, List.any_eq_false]
  simp only [List.mem_map, List.mem_take_iff_getElem, beq_iff_eq]
  constructor
  · rintro ⟨_, rfl, hbefore⟩
    refine ⟨?_, rfl⟩
    rintro _ ⟨_, ⟨j, hj, rfl⟩, rfl⟩ hsame
    exact hbefore j (by omega) hsame.symm
  · rintro ⟨hbefore, rfl⟩
    refine ⟨hi, rfl, fun j hj hsame => ?_⟩
    exact hbefore _ ⟨_, ⟨j, by omega, rfl⟩, rfl⟩ hsame.symm

namespace Diagram

/-- Whether a reference starts from the column in place `j` of the table in place `i`: one names the
identifier of the table and the name of the column, no table in front has that identifier, and no
column in front that name. -/
def isReferring (d : Diagram) (i j : Nat) : Bool :=
  d.tables[i]?.any fun t => t.columns[j]?.any fun c =>
    !((d.tables.take i).map Table.id).contains t.id &&
      !((t.columns.take j).map Column.name).contains c.name &&
        d.references.any fun r => r.fromTable == t.id && r.fromColumn == c.name

variable (d : Diagram)

/-- A reference starts from a column exactly if it names the first such table and column. -/
theorem isReferring_eq_any {i j : Nat} (hi : i < d.tables.length)
    (hj : j < d.tables[i].columns.length) :
    d.isReferring i j =
      d.references.any fun r =>
        d.tables.findIdx? (fun t => t.id == r.fromTable) == some i &&
          d.tables[i].columns.findIdx? (fun c => c.name == r.fromColumn) == some j := by
  rw [Bool.eq_iff_iff, isReferring]
  simp only [List.getElem?_eq_getElem hi, List.getElem?_eq_getElem hj, Option.any_some,
    Bool.and_eq_true, Bool.not_eq_true', List.any_eq_true, beq_iff_eq,
    findIdx?_beq_eq_some_iff Table.id d.tables hi,
    findIdx?_beq_eq_some_iff Column.name d.tables[i].columns hj]
  constructor
  · rintro ⟨⟨htables, hcolumns⟩, r, hr, htable, hcolumn⟩
    exact ⟨r, hr, ⟨htables, htable⟩, hcolumns, hcolumn⟩
  · rintro ⟨r, hr, ⟨htables, htable⟩, hcolumns, hcolumn⟩
    exact ⟨⟨htables, hcolumns⟩, r, hr, htable, hcolumn⟩

/-- The columns that references start from become foreign keys, and nothing else changes. -/
theorem markForeignKeys_eq_mapIdx :
    d.markForeignKeys =
      { d with
        tables := d.tables.mapIdx fun i t => { t with
          columns := t.columns.mapIdx fun j c => { c with fk := c.fk || d.isReferring i j } } } := by
  rw [markForeignKeys_eq, markedTables]
  congr 1
  refine List.ext_getElem (by simp) fun i hi _ => ?_
  rw [List.getElem_mapIdx, List.getElem_mapIdx]
  congr 1
  refine List.ext_getElem (by simp) fun j hj _ => ?_
  rw [List.getElem_mapIdx, List.getElem_mapIdx, isReferring_eq_any d (by simpa using hi)
    (by simpa using hj)]

/-- Marking columns does not change which ones references start from. -/
theorem isReferring_markForeignKeys (i j : Nat) :
    d.markForeignKeys.isReferring i j = d.isReferring i j := by
  have hnames (cs : List Column) (fk : Nat → Column → Bool) :
      (cs.mapIdx fun j c => { c with fk := fk j c }).map Column.name = cs.map Column.name :=
    List.ext_getElem (by simp) fun j _ _ => by simp
  have hids (ts : List Table) (columns : Nat → Table → List Column) :
      (ts.mapIdx fun i t => { t with columns := columns i t }).map Table.id = ts.map Table.id :=
    List.ext_getElem (by simp) fun i _ _ => by simp
  rw [markForeignKeys_eq_mapIdx]
  simp only [isReferring, List.getElem?_mapIdx, Option.any_map, List.map_take, hids, hnames]

/-- Marking twice is marking once. -/
theorem markForeignKeys_markForeignKeys :
    d.markForeignKeys.markForeignKeys = d.markForeignKeys := by
  simp only [markForeignKeys_eq, markedTables_markedTables]

/-- References matter as a set. -/
theorem markForeignKeys_of_mem_iff {rs : List Reference} (h : ∀ r, r ∈ rs ↔ r ∈ d.references) :
    { d with references := rs }.markForeignKeys = { d.markForeignKeys with references := rs } := by
  have hany (p : Reference → Bool) : rs.any p = d.references.any p := by
    rw [Bool.eq_iff_iff, List.any_eq_true, List.any_eq_true]
    simp only [h]
  simp only [markForeignKeys_eq, markedTables, hany]

/-- A reference that resolves to a column starts from it. -/
theorem isReferring_of_resolves {r : Reference} (hr : r ∈ d.references) {t : Table}
    (ht : d.tableById? r.fromTable = some t) {c : Column} (hc : t.column? r.fromColumn = some c) :
    ∃ i j, d.tables[i]? = some t ∧ t.columns[j]? = some c ∧ d.isReferring i j = true := by
  obtain ⟨hid, i, hi, rfl, hbefore⟩ := List.find?_eq_some_iff_getElem.1 ht
  obtain ⟨hname, j, hj, rfl, hbefore'⟩ := List.find?_eq_some_iff_getElem.1 hc
  refine ⟨i, j, List.getElem?_eq_getElem hi, List.getElem?_eq_getElem hj, ?_⟩
  rw [isReferring_eq_any d hi hj, List.any_eq_true]
  refine ⟨r, hr, ?_⟩
  rw [Bool.and_eq_true, beq_iff_eq, beq_iff_eq, List.findIdx?_eq_some_iff_getElem,
    List.findIdx?_eq_some_iff_getElem]
  exact ⟨⟨hi, hid, fun k hk => by simpa using hbefore k hk⟩,
    hj, hname, fun k hk => by simpa using hbefore' k hk⟩

variable {d} in
/-- Where nothing is left to mark, a column that a reference resolves to is a foreign key. -/
theorem fk_of_resolves (h : d.markForeignKeys = d) {r : Reference} (hr : r ∈ d.references)
    {t : Table} (ht : d.tableById? r.fromTable = some t) {c : Column}
    (hc : t.column? r.fromColumn = some c) : c.fk = true := by
  obtain ⟨i, j, hi, hj, hreferring⟩ := d.isReferring_of_resolves hr ht hc
  have htables := congrArg (fun d => d.tables[i]?) (h.symm.trans d.markForeignKeys_eq_mapIdx)
  simp only [List.getElem?_mapIdx, hi, Option.map_some] at htables
  have hcolumns := congrArg (fun t => t.columns[j]?) (Option.some.inj htables)
  simp only [List.getElem?_mapIdx, hj, Option.map_some, hreferring, Bool.or_true] at hcolumns
  exact congrArg Column.fk (Option.some.inj hcolumns)

/-! ## Documents -/

section Documents

variable (document : Document) (defaults : DiagramDefaults)

/-- The diagram of a document before references mark its columns. -/
def unmarked : Diagram :=
  { withoutAreas document defaults with
    tables := joinedTables (linkedAreas document) (document.tables.map Document.Table.toModel)
    areas := linkedAreas document }

/-- Marking the foreign keys of the unmarked diagram gives the diagram of the document. -/
theorem markForeignKeys_unmarked :
    (unmarked document defaults).markForeignKeys = ofDocument document defaults := by
  rw [ofDocument_eq, markForeignKeys_eq]
  rfl

/-- The columns of a document's diagram are those of the document; foreign keys are the columns that
are written so and those that references start from. -/
theorem columns_ofDocument :
    (ofDocument document defaults).tables.map (fun t => (t.id, t.columns)) =
      document.tables.mapIdx fun i t =>
        (.ofName t.name, t.columns.mapIdx fun j c =>
          { c.toModel with
            fk := c.settings.fk || (ofDocument document defaults).isReferring i j }) := by
  rw [← markForeignKeys_unmarked]
  simp only [isReferring_markForeignKeys]
  rw [markForeignKeys_eq_mapIdx]
  refine List.ext_getElem (by simp [unmarked]) fun i hi hi' => ?_
  rw [List.getElem_map, List.getElem_mapIdx, List.getElem_mapIdx]
  refine Prod.ext (by simp [unmarked, joinedTables, Document.Table.toModel]) ?_
  refine List.ext_getElem (by simp [unmarked, joinedTables, Document.Table.toModel]) fun j _ _ => ?_
  simp [unmarked, joinedTables, Document.Table.toModel, Document.Column.toModel]

end Documents

/-- Marking foreign keys changes nothing but the marks of the columns that references start from, it
sees the references as a set, and doing it again changes nothing. In the diagram of a document, the
source of a reference is a foreign key if it is there, and a column is one only if it is written so
or a reference starts from it. -/
theorem fk_markForeignKeys (d : Diagram) (document : Document) (defaults : DiagramDefaults) :
    d.markForeignKeys =
        { d with
          tables := d.tables.mapIdx fun i t =>
            { t with
              columns := t.columns.mapIdx fun j c =>
                { c with fk := c.fk || d.isReferring i j } } } ∧
      (∀ rs : List Reference, (∀ r, r ∈ rs ↔ r ∈ d.references) →
        { d with references := rs }.markForeignKeys =
          { d.markForeignKeys with references := rs }) ∧
      d.markForeignKeys.markForeignKeys = d.markForeignKeys ∧
      let e := ofDocument document defaults
      (∀ r ∈ e.references, ∀ t c, e.tableById? r.fromTable = some t →
        t.column? r.fromColumn = some c → c.fk = true) ∧
      e.tables.map (fun t => (t.id, t.columns)) =
        document.tables.mapIdx fun i t =>
          (.ofName t.name, t.columns.mapIdx fun j c =>
            { c.toModel with fk := c.settings.fk || e.isReferring i j }) := by
  have hmarked : (ofDocument document defaults).markForeignKeys = ofDocument document defaults := by
    rw [← markForeignKeys_unmarked, markForeignKeys_markForeignKeys]
  refine ⟨d.markForeignKeys_eq_mapIdx, fun rs => d.markForeignKeys_of_mem_iff,
    d.markForeignKeys_markForeignKeys, fun r hr t c => ?_, columns_ofDocument document defaults⟩
  exact fun ht hc => fk_of_resolves hmarked hr ht hc

/-- A source text with two tables of one name, two columns of one name, and a reference between a
table and a column that are not there. -/
def ledgerText : String :=
  "Table t { a int a int b int [fk] } Table t { a int } Ref: t.a > t.b Ref: x.a > t.c"

/-- What is read from the source text. -/
def ledger : Document := (Document.ofTokens ((Token.scan ledgerText).toOption.getD [])).document

/-- What the diagram is made with. -/
def ledgerDefaults : DiagramDefaults := ⟨"ledger", default, none⟩

/-- Only the first column of the name in the first table of the name is marked, whatever the order
of the references is. -/
theorem fk_markForeignKeys_ledger :
    let d := unmarked ledger ledgerDefaults
    let rs := d.references.reverse ++ d.references
    let e := ofDocument ledger ledgerDefaults
    d.tables.map (fun t => t.columns.map Column.fk) = [[false, false, true], [false]] ∧
      e.tables.map (fun t => t.columns.map Column.fk) = [[true, false, true], [false]] ∧
      { d with references := rs }.markForeignKeys = { d.markForeignKeys with references := rs } ∧
      ∃ t c, e.tableById? (.ofName "t") = some t ∧ t.column? "a" = some c ∧ c.fk = true := by
  intro d rs e
  obtain ⟨-, hset, -, hsource, -⟩ := fk_markForeignKeys d ledger ledgerDefaults
  refine ⟨by decide +kernel, by decide +kernel, hset rs fun r => ?_, ?_⟩
  · rw [List.mem_append, List.mem_reverse, or_self]
  · have hresolves : ((e.tableById? (.ofName "t")).bind fun t => t.column? "a").isSome = true := by
      decide +kernel
    obtain ⟨c, hc⟩ := Option.isSome_iff_exists.1 hresolves
    obtain ⟨t, ht, hc⟩ := Option.bind_eq_some_iff.1 hc
    have hr : Reference.between "t" "a" "t" "b" .manyToOne ∈ e.references := by decide +kernel
    exact ⟨t, c, ht, hc, hsource _ hr t c ht hc⟩

end Diagram

end SchemaDiagram
