import SchemaDiagram.Document.Area
import SchemaDiagram.Proofs.Markup.Blocks

/-!
# Areas and projects in markup

An area is printed as a block: the names of its member tables line by line, its kind of database,
its common columns and its note. Reading the block gives the area back (`Area.canonical`), and the
names of its members as they are listed. A project is a block of two lines at most.
-/

namespace SchemaDiagram

/-- The area as its markup says it: a place and sizes that are not finite are left out. The members
are said by the names of their tables. -/
def Area.canonical (a : Area) : Area :=
  { a with
    tableIds := []
    position := a.position.filter Point.isFinite
    width := a.width.filter Number.isFinite
    height := a.height.filter Number.isFinite
    commonColumns := a.commonColumns.map Column.canonical
    comments := a.comments.flatMap Markup.commentLines }

namespace Document

open Lexeme

variable {rest : List Char} {ws vs : List Word}

/-! ## Settings of areas -/

/-- The entries for the place of an area. -/
def areaPosition (p : Option Point) : List (Entry Parser.areaSetting) :=
  Entry.position (fun x b => { b with posX := x.or b.posX })
    (fun y b => { b with posY := y.or b.posY }) (fun _ => rfl) (fun _ => rfl) p

/-- The entry for the width of an area. -/
def areaWidth (x : Option Number) : List (Entry Parser.areaSetting) :=
  Entry.size "width" (fun width b => { b with width := width.or b.width }) rfl (fun _ => rfl) x

/-- The entry for the height of an area. -/
def areaHeight (x : Option Number) : List (Entry Parser.areaSetting) :=
  Entry.size "height" (fun height b => { b with height := height.or b.height }) rfl (fun _ => rfl) x

/-- The entry for the horizontal place of the label. -/
def labelHorizontalEntry (label : HorizontalLabel) : Entry Parser.areaSetting :=
  .word "labelHorizontal" label.word (fun s => HorizontalLabel.ofWord? (Text.lower s))
    "expected left, center or right" label
    (fun label b => { b with labelHorizontal := label.or b.labelHorizontal }) rfl
    (by cases label <;> rfl) (by cases label <;> rfl) fun _ => rfl

/-- The entry for the vertical place of the label. -/
def labelVerticalEntry (label : VerticalLabel) : Entry Parser.areaSetting :=
  .word "labelVertical" label.word (fun s => VerticalLabel.ofWord? (Text.lower s))
    "expected top, center or bottom" label
    (fun label b => { b with labelVertical := label.or b.labelVertical }) rfl
    (by cases label <;> rfl) (by cases label <;> rfl) fun _ => rfl

/-- The entries for the settings of an area. -/
def areaEntries (a : SchemaDiagram.Area) : List (Entry Parser.areaSetting) :=
  areaPosition a.position ++ areaWidth a.width ++ areaHeight a.height ++
    Entry.ofOption a.color
      (.color "color" · (fun color b => { b with color := color.or b.color }) isPlainKey_color
        fun _ => rfl) ++
    Entry.ofOption a.labelHorizontal labelHorizontalEntry ++
    Entry.ofOption a.labelVertical labelVerticalEntry

/-- The settings of an area are written as the markup writes them. -/
theorem map_text_areaEntries (a : SchemaDiagram.Area) :
    (areaEntries a).map Entry.text = Markup.position? a.position ++ Markup.size? "width" a.width ++
      Markup.size? "height" a.height ++ Markup.setting? "color" Color.text a.color ++
      Markup.setting? "labelHorizontal" HorizontalLabel.word a.labelHorizontal ++
      Markup.setting? "labelVertical" VerticalLabel.word a.labelVertical := by
  unfold areaEntries
  simp only [List.map_append]
  refine congrArg₂ (· ++ ·) (congrArg₂ (· ++ ·) (congrArg₂ (· ++ ·) (congrArg₂ (· ++ ·)
    (congrArg₂ (· ++ ·) ?_ ?_) ?_) ?_) ?_) ?_
  · exact Entry.map_text_position _
  · exact Entry.map_text_size _
  · exact Entry.map_text_size _
  · exact map_text_ofOption (fun _ => Entry.text_value ..) _
  · exact map_text_ofOption (e := labelHorizontalEntry) (fun _ => Entry.text_value ..) _
  · exact map_text_ofOption (e := labelVerticalEntry) (fun _ => Entry.text_value ..) _

/-- An area's place that is finite is set, and another one changes nothing. -/
theorem effects_areaPosition (p : Option Point) (b : Area) :
    effects (areaPosition p) b =
      match p.filter Point.isFinite with
      | some q => { b with posX := some q.x, posY := some q.y }
      | none => b :=
  Entry.effects_position p b

/-- An area's width that is finite is set, and another one changes nothing. -/
theorem effects_areaWidth (x : Option Number) (b : Area) :
    effects (areaWidth x) b =
      match x.filter Number.isFinite with
      | some y => { b with width := some y }
      | none => b :=
  Entry.effects_size x b

/-- An area's height that is finite is set, and another one changes nothing. -/
theorem effects_areaHeight (x : Option Number) (b : Area) :
    effects (areaHeight x) b =
      match x.filter Number.isFinite with
      | some y => { b with height := some y }
      | none => b :=
  Entry.effects_size x b

/-- An area whose header has been read. -/
theorem effects_areaEntries (a : SchemaDiagram.Area) (n : String) (start : Span) :
    effects (areaEntries a)
        ⟨n, [], none, none, none, none, none, none, none, none, [], none, start, []⟩ =
      ⟨n, [], (a.position.filter Point.isFinite).map Point.x,
        (a.position.filter Point.isFinite).map Point.y, a.width.filter Number.isFinite,
        a.height.filter Number.isFinite, a.color, none, a.labelHorizontal, a.labelVertical, [], none,
        start, []⟩ := by
  unfold areaEntries
  simp only [effects_append, effects_areaPosition, effects_areaWidth, effects_areaHeight]
  cases a.position.filter Point.isFinite <;> cases a.width.filter Number.isFinite <;>
    cases a.height.filter Number.isFinite <;> cases a.color <;> cases a.labelHorizontal <;>
    cases a.labelVertical <;> rfl

/-- A place is made again from its coordinates. -/
theorem ofCoordinates?_map (p : Option Point) :
    Point.ofCoordinates? (p.map Point.x) (p.map Point.y) = p := by
  cases p <;> rfl

/-! ## The words of an area -/

/-- What markup needs to say an area: the area has the identifier of its name, and the texts behind
types can be read as such. -/
structure IsWritableArea (a : SchemaDiagram.Area) : Prop where
  /-- The identifier is that of the name. -/
  named : a.id = .ofName a.name
  /-- The texts behind types can be read in parentheses. -/
  params : ∀ c ∈ a.commonColumns, ∀ text ∈ c.typeParams, IsRawText text

/-- The words of the common columns of an area, if there are any. -/
noncomputable def commonColumnsWords (cs : List SchemaDiagram.Column) : List Word :=
  if cs.isEmpty then []
  else letterWord "CommonColumns" :: markWord .colon :: markWord .leftBracket ::
    (cs.flatMap columnWords ++ [markWord .rightBracket])

/-- A list of common columns is scanned as its words. -/
theorem Lexes.commonColumns (cs : List SchemaDiagram.Column)
    (hcs : ∀ c ∈ cs, ∀ text ∈ c.typeParams, IsRawText text) (h : Lexes [] rest ws) :
    Lexes [] ((Markup.commonColumns cs).toList ++ rest) (commonColumnsWords cs ++ ws) := by
  have hbracket : Lexes [] ((Markup.line 1 "]").toList ++ rest) (markWord .rightBracket :: ws) := by
    have hchars : "]".toList = [']'] := by simp
    refine Lexes.line 1 ?_
    rw [hchars]
    exact Lexes.mark .rightBracket (by decide) (h.space rfl)
  have hword : Lexes [] _ _ := Lexes.letters (w := "CommonColumns".toList)
    (mem_word_of_isLetters rfl) (c := ':') rfl (Lexes.mark .colon (by decide)
      (Lexes.space (c := ' ') rfl (Lexes.mark .leftBracket (by decide)
        (Lexes.space (c := '\n') rfl
          (Lexes.join _ _ cs (fun c hc {_ _} h => Lexes.column 2 (hcs c hc) h) hbracket)))))
  have hchars : "CommonColumns: [".toList = "CommonColumns".toList ++ [':', ' ', '['] := by simp
  unfold Markup.commonColumns commonColumnsWords
  split
  · exact h
  · rw [String.toList_append, String.toList_append, List.append_assoc, List.append_assoc]
    refine Lexes.line 1 ?_
    rw [hchars, List.cons_append, List.cons_append, List.cons_append, List.append_assoc,
      List.append_assoc]
    exact hword

/-- The words between the braces of an area, and the closing brace. -/
noncomputable def areaBody (members : List String) (a : SchemaDiagram.Area) : List Word :=
  members.map nameWord ++ (lineWords? "database_type" a.databaseType ++
    (commonColumnsWords a.commonColumns ++ (lineWords? "Note" a.note ++ [markWord .rightBrace])))

/-- The words of an area whose member tables have the given names. -/
noncomputable def areaWords (members : List String) (a : SchemaDiagram.Area) : List Word :=
  { letterWord "Area" with comments := a.comments.flatMap Markup.commentLines } ::
    nameWord a.name :: (settingsWords (areaEntries a) ++ markWord .leftBrace :: areaBody members a)

/-- An area is scanned as its words. -/
theorem Lexes.area (d : Diagram) {a : SchemaDiagram.Area}
    (hcs : ∀ c ∈ a.commonColumns, ∀ text ∈ c.typeParams, IsRawText text) (h : Lexes [] rest ws) :
    Lexes [] ((Markup.area d a).toList ++ rest)
      (areaWords ((Markup.members d a).map SchemaDiagram.Table.name) a ++ ws) := by
  have hmembers : ∀ {rest ws}, Lexes [] rest ws →
      Lexes [] ((String.join ((Markup.members d a).map fun t =>
          Markup.line 1 (Markup.name t.name))).toList ++ rest)
        (((Markup.members d a).map SchemaDiagram.Table.name).map nameWord ++ ws) := by
    intro rest ws h
    have hall := Lexes.join (fun t : SchemaDiagram.Table => Markup.line 1 (Markup.name t.name))
      (fun t => [nameWord t.name]) (Markup.members d a) (fun t _ {_ _} h => ?_) h
    · rw [List.map_map]
      rwa [← List.map_eq_flatMap] at hall
    · refine Lexes.line 1 ?_
      exact Lexes.name t.name (c := '\n') rfl (h.space rfl)
  have hbody : Lexes [] ((String.join ((Markup.members d a).map fun t =>
      Markup.line 1 (Markup.name t.name))).toList ++
      ((Markup.line? 1 "database_type" a.databaseType).toList ++
        ((Markup.commonColumns a.commonColumns).toList ++ ((Markup.line? 1 "Note" a.note).toList ++
          ((Markup.line 0 "\x7d").toList ++ rest)))))
      (areaBody ((Markup.members d a).map SchemaDiagram.Table.name) a ++ ws) := by
    unfold areaBody
    rw [List.append_assoc, List.append_assoc, List.append_assoc, List.append_assoc]
    exact hmembers (Lexes.keyLine? 1 _ rfl _ (Lexes.commonColumns _ hcs
      (Lexes.keyLine? 1 _ rfl _ (Lexes.closing 0 h))))
  have hopening : Lexes (a.comments.flatMap Markup.commentLines) _ _ :=
    Lexes.opening "Area" rfl a.name (areaEntries a) hbody
  have hkeyword : "Area" ++ " " = "Area " := by decide
  have hchars : (Markup.area d a).toList ++ rest = (Markup.comments 0 a.comments).toList ++
      ((Markup.line 0 ("Area" ++ " " ++ Markup.name a.name ++
        Markup.settings ((areaEntries a).map Entry.text) ++ " \x7b")).toList ++
      ((String.join ((Markup.members d a).map fun t =>
        Markup.line 1 (Markup.name t.name))).toList ++
        ((Markup.line? 1 "database_type" a.databaseType).toList ++
          ((Markup.commonColumns a.commonColumns).toList ++ ((Markup.line? 1 "Note" a.note).toList ++
            ((Markup.line 0 "\x7d").toList ++ rest)))))) := by
    rw [map_text_areaEntries, hkeyword]
    simp only [Markup.area, String.toList_append, List.append_assoc]
  unfold areaWords
  rw [hchars, List.cons_append, List.cons_append, List.append_assoc]
  exact Lexes.comments_lines 0 a.comments hopening

/-! ## Reading areas -/

namespace Parser.Reads

variable {us : List Word} {construct title : String} {opening : Span}

/-- The words of common columns are read as these, up to the closing bracket. -/
theorem commonColumns_loop (cs : List SchemaDiagram.Column)
    (hcs : ∀ c ∈ cs, ∀ text ∈ c.typeParams, IsRawText text) (done : List Column) :
    (iterate commonColumnsStep consumes_commonColumnsStep done).Reads
      (cs.flatMap columnWords ++ markWord .rightBracket :: ws) ws
      (·.map Column.toModel =
        done.map Column.toModel ++ cs.map SchemaDiagram.Column.canonical) := by
  induction cs generalizing done with
  | nil =>
    refine iterate_last ?_
    unfold commonColumnsStep
    refine kind?_bind ?_
    exact bind (any rfl) fun _ _ => pure ⟨_, rfl, by simp⟩
  | cons c cs ih =>
    obtain ⟨hc, hcs⟩ := List.forall_mem_cons.1 hcs
    have hend : EndsColumn (cs.flatMap columnWords ++ markWord .rightBracket :: ws) :=
      endsColumn_columns cs (endsColumn_mark (by decide))
    have hcolumn := commentedColumn hc hend
    obtain ⟨w, others, hwords, -, hname⟩ := isName_columnWords c
    rw [List.flatMap_cons, List.append_assoc]
    rw [hwords, List.cons_append] at hcolumn ⊢
    refine iterate_next (v := cs.flatMap columnWords ++ markWord .rightBracket :: ws)
      (S := (·.map Column.toModel = done.map Column.toModel ++ [c.canonical])) ?_ fun done' hdone' => ?_
    · unfold commonColumnsStep
      refine kind?_bind ?_
      simp only [List.head?_cons, Option.map_some]
      have hbracket : w.kind ≠ .mark .rightBracket := by
        intro hk
        rw [hk] at hname
        cases hname
      have hopens : ¬ w.kind.opensConstruct = true := by
        intro hopens
        rw [isName_eq_false_of_opensConstruct hopens] at hname
        cases hname
      rw [if_neg hbracket, if_neg hopens, if_pos hname]
      refine bind hcolumn fun d hd => pure ⟨_, rfl, ?_⟩
      rw [List.map_append, List.map_singleton, hd]
    · refine mono (ih hcs done') fun r hr => ?_
      rw [hr, hdone', List.map_cons, List.append_assoc, List.singleton_append]

/-- A line of a key and a value in a block. -/
theorem settingLine {σ : Type} {apply : σ → SettingKey → Parser (Option σ)} {s t : σ} {w : Word}
    (hname : w.kind.isName = true) (hw : w.comments = [])
    (happly : (apply s ⟨w.value⟩).Reads ws vs (· = some t)) :
    (settingLine apply s).Reads (w :: ws) vs (· = t) := by
  unfold Parser.settingLine
  refine bind (settingKey hname hw) fun key hkey => ?_
  rw [hkey]
  refine bind happly fun answer hanswer => ?_
  rw [hanswer]
  exact pure rfl

variable {P : Area → Prop}

/-- The members of an area are read one after another. No colon may follow the last one. -/
theorem area_members (members : List String) (hend : us.head?.map Word.kind ≠ some (.mark .colon))
    (a : Area)
    (hothers : (block construct title opening areaEntry consumes_areaEntry
      { a with tables := a.tables ++ members }).Reads us vs P) :
    (block construct title opening areaEntry consumes_areaEntry a).Reads
      (members.map nameWord ++ us) vs P := by
  induction members generalizing a with
  | nil => simpa using hothers
  | cons n members ih =>
    have hsecond : (members.map nameWord ++ us).head?.map Word.kind ≠ some (.mark .colon) := by
      cases members with
      | nil => exact hend
      | cons m members =>
        intro hk
        have hname := isName_nameKind m
        have hcolon : nameKind m = .mark .colon := Option.some.inj hk
        rw [hcolon] at hname
        cases hname
    rw [List.map_cons, List.cons_append]
    refine block_name (isName_nameKind n) (v := members.map nameWord ++ us)
      (S := (· = { a with tables := a.tables ++ [n] })) ?_ fun b hb => ?_
    · have hnote : (nameWord n).kind ≠ .keyword .note := nameKind_ne_keyword (by decide)
      have hcommon : (nameWord n).kind ≠ .keyword .commonColumns := nameKind_ne_keyword (by decide)
      have hname : (nameWord n).kind.isName = true := isName_nameKind n
      unfold areaEntry
      refine secondKind?_bind ?_
      rw [if_neg (fun h => hnote h.1), if_neg hcommon, if_neg (fun h => hsecond h.2), if_pos hname]
      refine bind (name n _) fun t ht => pure ?_
      rw [ht]
    · rw [hb]
      refine ih _ ?_
      rwa [List.append_assoc, List.singleton_append]

/-- The words of an area's database type set it. -/
theorem area_databaseType (text? : Option String) (a : Area)
    (hothers : (block construct title opening areaEntry consumes_areaEntry
      { a with databaseType := text?.or a.databaseType }).Reads us vs P) :
    (block construct title opening areaEntry consumes_areaEntry a).Reads
      (lineWords? "database_type" text? ++ us) vs P := by
  cases text? with
  | none => exact hothers
  | some text =>
    refine block_name (w := letterWord "database_type") rfl (v := us)
      (S := (· = { a with databaseType := some text })) ?_ fun b hb => ?_
    · unfold areaEntry
      refine secondKind?_bind ?_
      rw [if_neg (by rintro ⟨hk, -⟩; cases hk), if_neg (by rintro ⟨⟩), if_pos ⟨rfl, rfl⟩]
      refine settingLine rfl rfl ?_
      rw [value_letterWord]
      refine bind (settingText rfl rfl) fun value hvalue => pure ?_
      rw [hvalue, value_quotedWord]
    · rw [hb]
      exact hothers

/-- The words of common columns add them to the area. -/
theorem area_commonColumns (cs : List SchemaDiagram.Column)
    (hcs : ∀ c ∈ cs, ∀ text ∈ c.typeParams, IsRawText text) (a : Area)
    (hothers : ∀ more : List Column,
      more.map Column.toModel = cs.map SchemaDiagram.Column.canonical →
      (block construct title opening areaEntry consumes_areaEntry
        { a with commonColumns := a.commonColumns ++ more }).Reads us vs P) :
    (block construct title opening areaEntry consumes_areaEntry a).Reads
      (commonColumnsWords cs ++ us) vs P := by
  unfold commonColumnsWords
  split
  · next hempty =>
    have hnil := hothers [] (by rw [List.isEmpty_iff.1 hempty]; rfl)
    rwa [List.append_nil] at hnil
  · rw [List.cons_append, List.cons_append, List.cons_append, List.append_assoc,
      List.singleton_append]
    refine block_name rfl (v := us) (S := fun b => ∃ more : List Column,
      more.map Column.toModel = cs.map SchemaDiagram.Column.canonical ∧
        b = { a with commonColumns := a.commonColumns ++ more }) ?_ ?_
    · have hcommon : (letterWord "CommonColumns").kind = .keyword .commonColumns := rfl
      unfold areaEntry
      refine secondKind?_bind ?_
      rw [if_neg (by rintro ⟨hk, -⟩; cases hk), if_pos hcommon]
      unfold Parser.commonColumns
      refine bind (bind (expect rfl rfl) fun _ _ => bind (accept rfl rfl) fun _ _ =>
        bind (expect rfl rfl) fun _ _ => commonColumns_loop cs hcs []) fun more hmore => ?_
      exact pure ⟨more, hmore, rfl⟩
    · rintro b ⟨more, hmore, rfl⟩
      exact hothers more hmore

/-- The words of an area's note set it. -/
theorem area_note (text? : Option String) (a : Area)
    (hothers : (block construct title opening areaEntry consumes_areaEntry
      { a with note := text?.or a.note }).Reads us vs P) :
    (block construct title opening areaEntry consumes_areaEntry a).Reads
      (lineWords? "Note" text? ++ us) vs P := by
  cases text? with
  | none => exact hothers
  | some text =>
    refine block_name (w := letterWord "Note") rfl (v := us)
      (S := (· = { a with note := some text })) ?_ fun b hb => ?_
    · unfold areaEntry
      refine secondKind?_bind ?_
      rw [if_pos ⟨rfl, rfl⟩]
      refine bind (note text) fun value hvalue => pure ?_
      rw [hvalue]
    · rw [hb]
      exact hothers

/-- An area is read back behind its keyword. -/
theorem area {a : SchemaDiagram.Area} (ha : IsWritableArea a) (members : List String)
    (start : Span) :
    (area start).Reads (nameWord a.name ::
        (settingsWords (areaEntries a) ++ markWord .leftBrace :: (areaBody members a ++ ws))) ws
      (fun b => b.toModel = { a.canonical with comments := [] } ∧ b.tables = members) := by
  have hcolon : ((lineWords? "database_type" a.databaseType ++ (commonColumnsWords a.commonColumns ++
      (lineWords? "Note" a.note ++ markWord .rightBrace :: ws))).head?.map Word.kind) ≠
      some (.mark .colon) := by
    unfold commonColumnsWords
    cases a.databaseType <;> cases a.commonColumns <;> cases a.note <;> rintro ⟨⟩
  unfold Parser.area
  refine bind (name a.name _) fun n hn => ?_
  rw [hn]
  refine bind (settings? (areaEntries a) _ (by simp [markWord])) fun head hhead => ?_
  rw [effects_areaEntries] at hhead
  refine bind (expect rfl rfl) fun brace _ => bind
    (P := fun b => b.toModel = { a.canonical with comments := [] } ∧ b.tables = members)
    ?_ fun b hb => lastSpan_bind fun last => pure hb
  unfold areaBody
  simp only [List.append_assoc, List.singleton_append]
  rw [hhead]
  refine area_members members hcolon _ (area_databaseType a.databaseType _ ?_)
  refine area_commonColumns a.commonColumns ha.params _ fun more hmore => ?_
  refine area_note a.note _ (block_last ⟨?_, rfl⟩)
  simp only [Area.toModel, SchemaDiagram.Area.canonical, ofCoordinates?_map, ha.named,
    List.nil_append, hmore, Option.or_none]

end Parser.Reads

/-! ## Projects -/

/-- The words of a project. -/
def projectWords (n databaseType : String) (note : Option String) : List Word :=
  letterWord "Project" :: nameWord n :: markWord .leftBrace ::
    (lineWords "database_type" databaseType ++ (lineWords? "Note" note ++ [markWord .rightBrace]))

/-- A project is scanned as its words. -/
theorem Lexes.project (d : Diagram) (h : Lexes [] rest ws) :
    Lexes [] ((Markup.project d).toList ++ rest)
      (projectWords (d.projectName.getD d.name) d.databaseType d.note ++ ws) := by
  have hbody := Lexes.keyLine 1 "database_type" rfl d.databaseType
    (Lexes.keyLine? 1 "Note" rfl d.note (Lexes.closing 0 h))
  have hopening : Lexes [] _ _ := Lexes.opening "Project" rfl
    (d.projectName.getD d.name) ([] : List (Entry Parser.projectSetting)) hbody
  have hkeyword : "Project" ++ " " = "Project " := by decide
  have hkey : "database_type" ++ ": " = "database_type: " := by decide
  have hchars : (Markup.project d).toList ++ rest =
      (Markup.line 0 ("Project" ++ " " ++ Markup.name (d.projectName.getD d.name) ++
        Markup.settings (([] : List (Entry Parser.projectSetting)).map Entry.text) ++
          " \x7b")).toList ++
      ((Markup.line 1 ("database_type" ++ ": " ++ Markup.text d.databaseType)).toList ++
        ((Markup.line? 1 "Note" d.note).toList ++ ((Markup.line 0 "\x7d").toList ++ rest))) := by
    have hsettings : Markup.settings (([] : List (Entry Parser.projectSetting)).map Entry.text) = "" :=
      rfl
    rw [hsettings, String.append_empty, hkeyword, hkey]
    simp only [Markup.project, String.toList_append, List.append_assoc]
  unfold projectWords
  rw [hchars, List.cons_append, List.cons_append, List.cons_append, List.append_assoc,
    List.append_assoc]
  exact hopening

namespace Parser.Reads

variable {us : List Word} {construct title : String} {opening : Span} {P : Project → Prop}

/-- The words of a project's database type set it. -/
theorem project_databaseType (text : String) (p : Project)
    (hothers : (block construct title opening projectEntry consumes_projectEntry
      { p with databaseType := some text }).Reads us vs P) :
    (block construct title opening projectEntry consumes_projectEntry p).Reads
      (lineWords "database_type" text ++ us) vs P := by
  refine block_name (w := letterWord "database_type") rfl (v := us)
    (S := (· = { p with databaseType := some text })) ?_ fun q hq => ?_
  · unfold projectEntry
    refine secondKind?_bind ?_
    rw [if_neg (by rintro ⟨hk, -⟩; cases hk), if_pos ⟨rfl, rfl⟩]
    refine settingLine rfl rfl ?_
    rw [value_letterWord]
    refine bind (settingText rfl rfl) fun value hvalue => pure ?_
    rw [hvalue, value_quotedWord]
  · rw [hq]
    exact hothers

/-- The words of a project's note set it. -/
theorem project_note (text? : Option String) (p : Project)
    (hothers : (block construct title opening projectEntry consumes_projectEntry
      { p with note := text?.or p.note }).Reads us vs P) :
    (block construct title opening projectEntry consumes_projectEntry p).Reads
      (lineWords? "Note" text? ++ us) vs P := by
  cases text? with
  | none => exact hothers
  | some text =>
    refine block_name (w := letterWord "Note") rfl (v := us)
      (S := (· = { p with note := some text })) ?_ fun q hq => ?_
    · unfold projectEntry
      refine secondKind?_bind ?_
      rw [if_pos ⟨rfl, rfl⟩]
      refine bind (note text) fun value hvalue => pure ?_
      rw [hvalue]
    · rw [hq]
      exact hothers

/-- A project is read back behind its keyword. -/
theorem project (n databaseType : String) (note : Option String) (start : Span) :
    (project start).Reads (nameWord n :: markWord .leftBrace ::
        (lineWords "database_type" databaseType ++
          (lineWords? "Note" note ++ markWord .rightBrace :: ws))) ws
      (fun p => p.name = n ∧ p.databaseType = some databaseType ∧ p.note = note) := by
  unfold Parser.project
  refine bind (name n _) fun t ht => ?_
  rw [ht]
  have hsettings (head : Project) (ws : List Word) : (Parser.settings? projectSetting head).Reads
      (markWord .leftBrace :: ws) (markWord .leftBrace :: ws) (· = head) :=
    settings? [] head (by simp [markWord])
  refine bind (hsettings _ _) fun head hhead => ?_
  refine bind (P := fun p => p.name = n ∧ p.databaseType = some databaseType ∧ p.note = note) ?_
    fun p hp => lastSpan_bind fun last => pure hp
  unfold projectBlock?
  refine at?_bind (bind (any rfl) fun brace _ => ?_)
  rw [hhead]
  refine project_databaseType databaseType _ (project_note note _ (block_last ?_))
  exact ⟨rfl, rfl, Option.or_none⟩

end Parser.Reads

end Document

end SchemaDiagram
