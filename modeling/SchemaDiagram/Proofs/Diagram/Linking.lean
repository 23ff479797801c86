import Mathlib
import SchemaDiagram.Diagram.OfDocument

/-!
# How names link the parts of a diagram

Areas are added and foreign keys are marked one after another, and each time the first table of a
name is changed. Since no change touches a name, the result can be said at once: which areas each
table belongs to (`joinedTables`) and which columns are foreign keys (`markedTables`).

Main statement: `Diagram.ofDocument_eq`, the diagram of a document in these terms. It rests on
`foldl_modifyFirst`: changing the first match for one key after another changes each element by the
keys whose first match it is.
-/

namespace SchemaDiagram

/-! ## Changing first matches one after another -/

section FirstMatch

variable {α κ β : Type}

/-- Where the first match is depends on the elements only as far as the search sees them. -/
theorem findIdx?_eq_of_map_eq {p : α → Bool} {q : β → Bool} {xs : List α} {ys : List β}
    (h : xs.map p = ys.map q) : xs.findIdx? p = ys.findIdx? q := by
  have hfind := congrArg (List.findIdx? id) h
  rwa [List.findIdx?_map, List.findIdx?_map] at hfind

/-- What leaves a property as it is leaves the first element that has it in its place. -/
theorem findIdx?_mapIdx {p : α → Bool} {f : Nat → α → α} (h : ∀ i x, p (f i x) = p x)
    (xs : List α) : (xs.mapIdx f).findIdx? p = xs.findIdx? p := by
  refine findIdx?_eq_of_map_eq (List.ext_getElem (by simp) fun i hi _ => ?_)
  rw [List.getElem_map, List.getElem_map, List.getElem_mapIdx, h]

/-- Changing the first element that has a property is changing the one in its place. -/
theorem modifyFirst_eq_mapIdx (p : α → Bool) (f : α → α) (xs : List α) :
    modifyFirst p f xs = xs.mapIdx fun i x => if xs.findIdx? p == some i then f x else x := by
  induction xs with
  | nil => rfl
  | cons x xs ih =>
    rw [modifyFirst, List.mapIdx_cons, List.findIdx?_cons]
    by_cases hx : p x = true
    · simp only [hx, if_true]
      refine congrArg₂ List.cons (by simp) ?_
      exact (List.ext_getElem (by simp) (by simp)).symm
    · simp only [hx]
      rw [ih]
      refine congrArg₂ List.cons (by simp) ?_
      refine List.ext_getElem (by simp) fun i hi _ => ?_
      simp

/-- Where no element has the property, nothing is changed. -/
theorem modifyFirst_of_find?_eq_none {p : α → Bool} {f : α → α} {xs : List α}
    (h : xs.find? p = none) : modifyFirst p f xs = xs := by
  induction xs with
  | nil => rfl
  | cons x xs ih =>
    rw [List.find?_cons] at h
    cases hx : p x with
    | true =>
      rw [hx] at h
      cases h
    | false =>
      rw [hx] at h
      rw [modifyFirst, hx, ih h]
      rfl

/-- A change that is not seen by a search does not change what the search finds, as far as it is
not seen either. -/
theorem map_find?_modifyFirst {p q : α → Bool} {f : α → α} {g : α → β}
    (hq : ∀ x, q (f x) = q x) (hg : ∀ x, g (f x) = g x) (xs : List α) :
    ((modifyFirst p f xs).find? q).map g = (xs.find? q).map g := by
  induction xs with
  | nil => rfl
  | cons x xs ih =>
    rw [modifyFirst]
    split
    · rw [List.find?_cons, List.find?_cons, hq]
      cases q x with
      | true => exact congrArg some (hg x)
      | false => rfl
    · rw [List.find?_cons, List.find?_cons]
      cases q x with
      | true => rfl
      | false => exact ih

/-- Changing the first match for one key after another changes each element by the keys whose first
match it is, if no change is seen by a key. -/
theorem foldl_modifyFirst {p : κ → α → Bool} {f : κ → α → α}
    (h : ∀ k l x, p k (f l x) = p k x) (ks : List κ) (xs : List α) :
    ks.foldl (fun xs k => modifyFirst (p k) (f k) xs) xs =
      xs.mapIdx fun i x =>
        (ks.filter fun k => xs.findIdx? (p k) == some i).foldl (fun x k => f k x) x := by
  induction ks generalizing xs with
  | nil => exact (List.ext_getElem (by simp) (by simp)).symm
  | cons k ks ih =>
    have hfind : ∀ l, (modifyFirst (p k) (f k) xs).findIdx? (p l) = xs.findIdx? (p l) := by
      intro l
      rw [modifyFirst_eq_mapIdx]
      refine findIdx?_mapIdx (fun i x => ?_) xs
      split
      · exact h l k x
      · rfl
    rw [List.foldl_cons, ih]
    simp only [hfind]
    rw [modifyFirst_eq_mapIdx, List.mapIdx_mapIdx]
    refine congrArg (List.mapIdx · xs) ?_
    funext i x
    rw [List.filter_cons]
    simp only [Function.comp_apply]
    split <;> rfl

/-- Inserting one element after another drops those that are there already. -/
theorem foldl_insertNew [BEq α] [LawfulBEq α] (xs acc : List α) :
    xs.foldl (fun acc x => insertNew x acc) acc =
      acc ++ (xs.filter (!acc.contains ·)).eraseDups := by
  induction xs generalizing acc with
  | nil => simp
  | cons x xs ih =>
    rw [List.foldl_cons, ih, insertNew, List.filter_cons]
    by_cases hx : acc.contains x = true
    · rw [if_pos hx, if_neg (by rw [hx]; nofun)]
    · have hfilter : (xs.filter fun y => !(acc ++ [x]).contains y) =
          (xs.filter fun y => !acc.contains y).filter fun y => !(y == x) := by
        rw [List.filter_filter]
        refine List.filter_congr fun y _ => ?_
        rw [List.contains_append, List.contains_cons, List.contains_nil, Bool.or_false, Bool.not_or,
          Bool.and_comm]
      rw [if_neg hx, hfilter, if_pos (by simpa using hx), List.eraseDups_cons, List.append_assoc,
        List.singleton_append]

end FirstMatch

/-! ## Foreign keys -/

/-- The tables with the columns marked that references start from: the first column of its name in
the first table of its identifier. -/
def markedTables (rs : List Reference) (ts : List Table) : List Table :=
  ts.mapIdx fun i t =>
    { t with
      columns := t.columns.mapIdx fun j c =>
        { c with
          fk := c.fk || rs.any fun r =>
            ts.findIdx? (fun t => t.id == r.fromTable) == some i &&
              t.columns.findIdx? (fun c => c.name == r.fromColumn) == some j } }

/-- A column is marked if there is any reference to mark it. -/
theorem foldl_mark (rs : List Reference) (c : Column) :
    rs.foldl (fun c _ => { c with fk := true }) c = { c with fk := c.fk || rs.any fun _ => true } := by
  induction rs generalizing c with
  | nil => simp
  | cons r rs ih =>
    rw [List.foldl_cons, ih]
    simp

/-- References mark the first of a table's columns that each one names. -/
theorem foldl_modifyColumn (rs : List Reference) (t : Table) :
    rs.foldl (fun t r => t.modifyColumn r.fromColumn fun c => { c with fk := true }) t =
      { t with
        columns := t.columns.mapIdx fun j c =>
          { c with
            fk := c.fk || rs.any fun r =>
              t.columns.findIdx? (fun c => c.name == r.fromColumn) == some j } } := by
  have hcolumns : ∀ t : Table,
      rs.foldl (fun t r => t.modifyColumn r.fromColumn fun c => { c with fk := true }) t =
        { t with
          columns := rs.foldl (fun cs (r : Reference) =>
            modifyFirst (fun c => c.name == r.fromColumn) (fun c => { c with fk := true }) cs)
              t.columns } := by
    induction rs with
    | nil =>
      intro t
      rfl
    | cons r rs ih =>
      intro t
      rw [List.foldl_cons, ih]
      rfl
  rw [hcolumns, foldl_modifyFirst (p := fun (r : Reference) (c : Column) => c.name == r.fromColumn)
    (f := fun _ c => { c with fk := true }) (fun _ _ _ => rfl)]
  refine congrArg (fun columns => { t with columns }) (congrArg (List.mapIdx · t.columns) ?_)
  funext j c
  rw [foldl_mark, List.any_filter]
  simp only [Bool.and_true]

namespace Diagram

/-- Marking foreign keys marks the tables and nothing else of the diagram. -/
theorem markForeignKeys_eq (d : Diagram) :
    d.markForeignKeys = { d with tables := markedTables d.references d.tables } := by
  have htables : ∀ (rs : List Reference) (d : Diagram), rs.foldl markForeignKey d =
      { d with
        tables := rs.foldl (fun ts (r : Reference) => modifyFirst (fun t => t.id == r.fromTable)
          (fun t => t.modifyColumn r.fromColumn fun c => { c with fk := true }) ts) d.tables } := by
    intro rs
    induction rs with
    | nil =>
      intro d
      rfl
    | cons r rs ih =>
      intro d
      rw [List.foldl_cons, ih]
      rfl
  rw [markForeignKeys, htables, foldl_modifyFirst
    (p := fun (r : Reference) (t : Table) => t.id == r.fromTable)
    (f := fun r t => t.modifyColumn r.fromColumn fun c => { c with fk := true })
    (fun _ _ _ => rfl)]
  refine congrArg (fun tables => { d with tables }) (congrArg (List.mapIdx · d.tables) ?_)
  funext i t
  rw [foldl_modifyColumn]
  simp only [List.any_filter]

end Diagram

/-! ## Members of areas -/

/-- Tables of different names have different ids. -/
theorem TableId.ofName_injective {m n : String} (h : ofName m = ofName n) : m = n :=
  (String.append_right_inj _).1 (congrArg TableId.text h)

/-- The identifiers of the tables with the given names, each once. -/
def memberIds (ts : List Table) (names : List String) : List TableId :=
  (names.filterMap fun n => (ts.find? fun t => t.name == n).map Table.id).eraseDups

/-- The tables with the areas that they belong to: the first table of an identifier belongs to those
that have the identifier among their members, each once. -/
def joinedTables (areas : List Area) (ts : List Table) : List Table :=
  ts.mapIdx fun i t =>
    { t with
      areaIds :=
        if ts.findIdx? (fun u => u.id == t.id) = some i then
          ((areas.filter fun a => a.contains t.id).map Area.id).eraseDups
        else [] }

section Places

variable {as : List Area} {rs : List Reference} {ts : List Table}

/-- A joined table is the one in its place, with the areas that it belongs to. -/
theorem getElem_joinedTables {i : Nat} (hi : i < (joinedTables as ts).length)
    (hlt : i < ts.length) :
    (joinedTables as ts)[i] =
      { ts[i] with
        areaIds :=
          if ts.findIdx? (fun u => u.id == ts[i].id) = some i then
            ((as.filter fun a => a.contains ts[i].id).map Area.id).eraseDups
          else [] } :=
  List.getElem_mapIdx

/-- A marked table is the one in its place, with the columns that references start from marked. -/
theorem getElem_markedTables {i : Nat} (hi : i < (markedTables rs ts).length)
    (hlt : i < ts.length) :
    (markedTables rs ts)[i] =
      { ts[i] with
        columns := ts[i].columns.mapIdx fun j c =>
          { c with
            fk := c.fk || rs.any fun r =>
              ts.findIdx? (fun t => t.id == r.fromTable) == some i &&
                ts[i].columns.findIdx? (fun c => c.name == r.fromColumn) == some j } } :=
  List.getElem_mapIdx

/-- Joining tables to areas adds and drops none. -/
@[simp] theorem length_joinedTables : (joinedTables as ts).length = ts.length :=
  List.length_mapIdx

/-- Marking foreign keys adds and drops no table. -/
@[simp] theorem length_markedTables : (markedTables rs ts).length = ts.length :=
  List.length_mapIdx

end Places

/-- Adding a member changes no name and no identifier. -/
theorem map_id_find?_joinArea (id : AreaId) (m n : String) (ts : List Table) :
    ((modifyFirst (fun t => t.name == m) (Table.joinArea id) ts).find? fun t => t.name == n).map
        Table.id =
      (ts.find? fun t => t.name == n).map Table.id :=
  map_find?_modifyFirst (f := Table.joinArea id) (fun _ => rfl) (fun _ => rfl) ts

/-- Members that are added one after another give the area and the tables in closed form. -/
theorem foldl_addMember (names : List String) (area : Area) (ts : List Table) :
    names.foldl (fun state n => Area.addMember n state) (area, ts) =
      ({ area with
          tableIds := (names.filterMap fun n =>
            (ts.find? fun t => t.name == n).map Table.id).foldl (fun ids id => insertNew id ids)
              area.tableIds },
        names.foldl (fun ts n => modifyFirst (fun t => t.name == n) (Table.joinArea area.id) ts)
          ts) := by
  induction names generalizing area ts with
  | nil => rfl
  | cons n names ih =>
    rw [List.foldl_cons, List.foldl_cons, List.filterMap_cons]
    cases hfind : ts.find? fun t => t.name == n with
    | none =>
      have hstep : Area.addMember n (area, ts) = (area, ts) := by
        simp only [Area.addMember, hfind]
      rw [hstep, ih, modifyFirst_of_find?_eq_none hfind]
      rfl
    | some t =>
      have hstep : Area.addMember n (area, ts) =
          ({ area with tableIds := insertNew t.id area.tableIds },
            modifyFirst (fun t => t.name == n) (Table.joinArea area.id) ts) := by
        simp only [Area.addMember, hfind]
      rw [hstep, ih]
      simp only [map_id_find?_joinArea]
      rfl

/-- The tables after members were added to areas, one after another. -/
def addedMembers (members : List (AreaId × String)) (ts : List Table) : List Table :=
  members.foldl (fun ts m => modifyFirst (fun t => t.name == m.2) (Table.joinArea m.1) ts) ts

/-- Adding members leaves the ids of members as they are. -/
theorem memberIds_addedMembers (members : List (AreaId × String)) (ts : List Table)
    (names : List String) : memberIds (addedMembers members ts) names = memberIds ts names := by
  induction members generalizing ts with
  | nil => rfl
  | cons m members ih =>
    refine (ih _).trans ?_
    unfold memberIds
    simp only [map_id_find?_joinArea]

/-- The members that an area of a document lists. -/
def listedMembers (a : Document.Area) : List (AreaId × String) :=
  a.tables.map fun n => (a.toModel.id, n)

/-- Adding an area joins its members to it and puts it behind the others. -/
theorem Diagram.addArea_eq (d : Diagram) (a : Document.Area) :
    d.addArea a =
      { d with
        tables := addedMembers (listedMembers a) d.tables
        areas := d.areas ++ [{ a.toModel with tableIds := memberIds d.tables a.tables }] } := by
  have hids : ∀ ids : List TableId,
      ids.foldl (fun ids id => insertNew id ids) a.toModel.tableIds = ids.eraseDups := by
    intro ids
    rw [foldl_insertNew]
    simp [Document.Area.toModel]
  unfold addArea memberIds addedMembers listedMembers
  rw [foldl_addMember, hids, List.foldl_map]

/-- Adding areas one after another joins the members of each and puts all behind the others. -/
theorem Diagram.foldl_addArea (as : List Document.Area) (d : Diagram) :
    as.foldl addArea d =
      { d with
        tables := addedMembers (as.flatMap listedMembers) d.tables
        areas := d.areas ++
          as.map fun a => { a.toModel with tableIds := memberIds d.tables a.tables } } := by
  induction as generalizing d with
  | nil => simp [addedMembers]
  | cons a as ih =>
    rw [List.foldl_cons, ih, addArea_eq]
    simp only [memberIds_addedMembers, List.flatMap_cons, List.map_cons, List.append_assoc,
      List.singleton_append]
    simp only [addedMembers, List.foldl_append]

/-! ### The areas of a table -/

/-- Inserting an element twice is inserting it once. -/
theorem insertNew_insertNew {α : Type} [BEq α] [LawfulBEq α] (x : α) (xs : List α) :
    insertNew x (insertNew x xs) = insertNew x xs := by
  have hmem : (insertNew x xs).contains x = true := by
    unfold insertNew
    split
    · assumption
    · simp
  conv_lhs => rw [insertNew, if_pos hmem]

/-- A table that joins areas one after another has them all, each once. -/
theorem foldl_joinArea (members : List (AreaId × String)) (t : Table) :
    members.foldl (fun t m => Table.joinArea m.1 t) t =
      { t with
        areaIds := (members.map Prod.fst).foldl (fun ids id => insertNew id ids) t.areaIds } := by
  induction members generalizing t with
  | nil => rfl
  | cons m members ih =>
    rw [List.foldl_cons, ih]
    rfl

/-- Only whether an area lists a name matters, and not how often. -/
theorem foldl_listedMembers (as : List Document.Area) (n : String) (acc : List AreaId) :
    (((as.flatMap listedMembers).filter fun m => m.2 == n).map Prod.fst).foldl
        (fun ids id => insertNew id ids) acc =
      ((as.filter fun a => a.tables.contains n).map fun a => a.toModel.id).foldl
        (fun ids id => insertNew id ids) acc := by
  -- one area may list a name several times, and its id is inserted once
  have hone : ∀ (id : AreaId) (names : List String) (acc : List AreaId),
      (((names.map fun n => (id, n)).filter fun m => m.2 == n).map Prod.fst).foldl
          (fun ids id => insertNew id ids) acc =
        if names.contains n then insertNew id acc else acc := by
    intro id names
    induction names with
    | nil =>
      intro acc
      rfl
    | cons m names ih =>
      intro acc
      rw [List.map_cons, List.filter_cons, List.contains_cons]
      by_cases hm : m = n
      · subst hm
        simp only [beq_self_eq_true, if_true, Bool.true_or, List.map_cons, List.foldl_cons]
        rw [ih]
        split
        · exact insertNew_insertNew id acc
        · rfl
      · have hmn : (m == n) = false := beq_eq_false_iff_ne.2 hm
        have hnm : (n == m) = false := beq_eq_false_iff_ne.2 fun h => hm h.symm
        simp only [hmn, hnm, Bool.false_or]
        exact ih acc
  induction as generalizing acc with
  | nil => rfl
  | cons a as ih =>
    rw [List.flatMap_cons, List.filter_append, List.map_append, List.foldl_append, ih, listedMembers,
      hone, List.filter_cons]
    split <;> rfl

/-- Tables as a document gives them: each has the identifier of its name, and belongs to no area. -/
def AreUnlinked (ts : List Table) : Prop := ∀ t ∈ ts, t.id = .ofName t.name ∧ t.areaIds = []

/-- The first table of a table's name has the identifier of that table. -/
theorem map_id_find?_name {ts : List Table} (hts : AreUnlinked ts) {t : Table} (ht : t ∈ ts) :
    (ts.find? fun u => u.name == t.name).map Table.id = some t.id := by
  cases hfind : ts.find? fun u => u.name == t.name with
  | none =>
    have hne := List.find?_eq_none.1 hfind t ht
    simp at hne
  | some u =>
    have hname : u.name = t.name := by simpa using List.find?_some hfind
    rw [Option.map_some, (hts u (List.mem_of_find?_eq_some hfind)).1, (hts t ht).1, hname]

/-- A table is a member if its name is listed. -/
theorem contains_memberIds {ts : List Table} (hts : AreUnlinked ts) {t : Table} (ht : t ∈ ts)
    (names : List String) : (memberIds ts names).contains t.id = names.contains t.name := by
  rw [Bool.eq_iff_iff, List.contains_iff_mem, List.contains_iff_mem, memberIds, List.mem_eraseDups,
    List.mem_filterMap]
  constructor
  · rintro ⟨n, hn, hfind⟩
    obtain ⟨u, hu, hid⟩ := Option.map_eq_some_iff.1 hfind
    have hname : u.name = n := by simpa using List.find?_some hu
    rw [(hts u (List.mem_of_find?_eq_some hu)).1, (hts t ht).1] at hid
    rw [← TableId.ofName_injective hid, hname]
    exact hn
  · intro hn
    exact ⟨t.name, hn, map_id_find?_name hts ht⟩

/-- Adding the members that areas list joins the tables to the areas. -/
theorem addedMembers_eq_joinedTables {ts : List Table} (hts : AreUnlinked ts)
    (as : List Document.Area) :
    addedMembers (as.flatMap listedMembers) ts =
      joinedTables (as.map fun a => { a.toModel with tableIds := memberIds ts a.tables }) ts := by
  unfold addedMembers joinedTables
  rw [foldl_modifyFirst (p := fun (m : AreaId × String) (t : Table) => t.name == m.2)
    (f := fun m t => Table.joinArea m.1 t) (fun _ _ _ => rfl)]
  refine List.ext_getElem (by simp) fun i hi _ => ?_
  have hlt : i < ts.length := by simpa using hi
  have hmem : ts[i] ∈ ts := List.getElem_mem hlt
  rw [List.getElem_mapIdx, List.getElem_mapIdx, foldl_joinArea, (hts _ hmem).2]
  refine congrArg (fun areaIds => { ts[i] with areaIds }) ?_
  -- the first table of its name is the first table of its identifier
  have hfirst : (ts.findIdx? fun u => u.id == ts[i].id) =
      ts.findIdx? fun u => u.name == ts[i].name := by
    refine findIdx?_eq_of_map_eq (List.map_congr_left fun u hu => ?_)
    rw [(hts u hu).1, (hts _ hmem).1, Bool.eq_iff_iff, beq_iff_eq, beq_iff_eq]
    exact ⟨TableId.ofName_injective, congrArg TableId.ofName⟩
  have hname : ∀ n, (ts.findIdx? fun u => u.name == n) = some i → n = ts[i].name := by
    intro n hn
    obtain ⟨_, hfound, -⟩ := List.findIdx?_eq_some_iff_getElem.1 hn
    exact (beq_iff_eq.1 hfound).symm
  rw [hfirst]
  by_cases h : (ts.findIdx? fun u => u.name == ts[i].name) = some i
  · have hfilter : ((as.flatMap listedMembers).filter fun m =>
          (ts.findIdx? fun u => u.name == m.2) == some i) =
        (as.flatMap listedMembers).filter fun m => m.2 == ts[i].name := by
      refine List.filter_congr fun m _ => ?_
      rw [Bool.eq_iff_iff, beq_iff_eq, beq_iff_eq]
      refine ⟨hname m.2, fun hm => ?_⟩
      rw [hm, h]
    rw [hfilter, foldl_listedMembers, foldl_insertNew, if_pos h]
    simp only [List.nil_append, List.contains_nil, Bool.not_false, List.filter_true]
    rw [List.filter_map, List.map_map]
    refine congrArg List.eraseDups (congrArg₂ List.map rfl (List.filter_congr fun a _ => ?_))
    exact (contains_memberIds hts hmem a.tables).symm
  · have hfilter : ((as.flatMap listedMembers).filter fun m =>
          (ts.findIdx? fun u => u.name == m.2) == some i) = [] := by
      refine List.filter_eq_nil_iff.2 fun m _ hm => h ?_
      rw [← hname m.2 (beq_iff_eq.1 hm)]
      exact beq_iff_eq.1 hm
    rw [hfilter, if_neg h]
    rfl

/-! ## The diagram of a document -/

/-- The tables of a document belong to no area yet. -/
theorem areUnlinked_tables (document : Document) :
    AreUnlinked (document.tables.map Document.Table.toModel) := by
  intro t ht
  obtain ⟨u, -, rfl⟩ := List.mem_map.1 ht
  exact ⟨rfl, rfl⟩

/-- The areas of a document with their members. -/
def linkedAreas (document : Document) : List Area :=
  document.areas.map fun a =>
    { a.toModel with
      tableIds := memberIds (document.tables.map Document.Table.toModel) a.tables }

/-- The diagram of a document: areas and tables know of each other, and the columns that references
start from are foreign keys. -/
theorem Diagram.ofDocument_eq (document : Document) (defaults : DiagramDefaults) :
    ofDocument document defaults =
      { withoutAreas document defaults with
        tables := markedTables (document.references.map Document.Reference.toModel)
          (joinedTables (linkedAreas document) (document.tables.map Document.Table.toModel))
        areas := linkedAreas document } := by
  rw [ofDocument, foldl_addArea, markForeignKeys_eq]
  simp only [withoutAreas]
  rw [addedMembers_eq_joinedTables (areUnlinked_tables document)]
  rfl

end SchemaDiagram
