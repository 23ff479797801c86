import SchemaDiagram.Diagram.OfDocument
import SchemaDiagram.Proofs.Markup.RawText

/-!
# Columns in markup

A column of the model is printed as a line behind the lines of its comments, and reading the line
gives the column back, with its type in the canonical spelling (`Column.canonical`).
-/

namespace SchemaDiagram

/-- The canonical spelling of a type is canonical. -/
theorem canonicalType_canonicalType (name : String) :
    canonicalType (canonicalType name) = canonicalType name := by
  have hfixed : ∀ entry ∈ canonicalTypes, canonicalType entry.1 = entry.1 := by decide
  cases hfind : canonicalTypes.find? fun entry => entry.2.contains (Text.lower name) with
  | none =>
    have hname : canonicalType name = name := by
      rw [canonicalType, hfind]
    rw [hname, hname]
  | some entry =>
    have hname : canonicalType name = entry.1 := by
      rw [canonicalType, hfind]
    rw [hname]
    exact hfixed entry (List.mem_of_find?_eq_some hfind)

/-- The column as its markup says it: the type has its canonical spelling, and each line of a
comment is a comment. -/
def Column.canonical (c : Column) : Column :=
  { c with
    columnType := canonicalType c.columnType
    comments := c.comments.flatMap Markup.commentLines }

namespace Document

open Lexeme

variable {ws : List Word}

/-! ## Settings of columns -/

/-- The entry for a column whose rows all have a value. -/
def notNullEntry : Entry Parser.columnSetting :=
  .ofKey "not" " null".toList [letterWord "null"] (fun s => { s with notNull := true }) rfl
    (fun c hc => by cases hc; rfl)
    (by
      rintro _ ws ⟨c, rest, rfl, hc⟩ h
      have hnull : Lexes [] _ _ := Lexes.letters (w := "null".toList)
        (mem_word_of_isLetters rfl) (continuesWord_of_separates hc) h
      exact hnull.space rfl)
    fun _ _ _ _ => Parser.Reads.bind (Parser.Reads.expect rfl rfl) fun _ _ => Parser.Reads.pure rfl

/-- The default that is read back from a value. -/
def defaultOf (value : String) : Default :=
  ⟨value, (Parser.defaultForm? (defaultWord value).kind).getD .literal⟩

/-- The word of a default is read as the default. -/
theorem Parser.Reads.settingDefault (value : String) {m : Mark} (hm : EndsEntry m) :
    settingDefault.Reads (markWord .colon :: defaultWord value :: markWord m :: ws)
      (markWord m :: ws) (· = defaultOf value) := by
  have hparen : (TokenKind.mark m == .mark .leftParen) = false := by
    rcases hm with rfl | rfl <;> rfl
  unfold Parser.settingDefault
  refine bind (expect rfl rfl) fun _ _ => bind (take _ (fun t ht => ?_) (comments_defaultWord value)) fun t ht => ?_
  · rw [ht.kind]
    exact defaultForm?_defaultWord value
  refine at?_bind ?_
  rw [if_neg]
  · refine pure ?_
    rw [ht.kind, ht.value, value_defaultWord]
    rfl
  · rintro ⟨-, hcall⟩
    have hcall : (TokenKind.mark m == .mark .leftParen) = true := hcall
    rw [hparen] at hcall
    cases hcall

/-- The entry for the default of a column. -/
def defaultEntry (value : String) : Entry Parser.columnSetting :=
  .value "default" (Markup.defaultValue value) (defaultWord value) Parser.settingDefault
    (defaultOf value) (fun d s => { s with default := some d }) rfl (fun _ => rfl)
    (by
      rintro _ ws ⟨c, rest, rfl, hc⟩ h
      have hword : Lexes (defaultWord value).comments _ (defaultWord value :: ws) :=
        Lexes.default value hc h
      rwa [comments_defaultWord] at hword)
    fun _ _ hm => Parser.Reads.settingDefault value hm

/-- The entries for the flags of a column. -/
def flagEntries (c : SchemaDiagram.Column) : List (Entry Parser.columnSetting) :=
  Entry.when c.pk (.flag "pk" (fun s => { s with pk := true }) isPlainKey_pk fun _ => rfl) ++
    Entry.when c.fk (.flag "fk" (fun s => { s with fk := true }) rfl fun _ => rfl) ++
    Entry.when c.unique (.flag "unique" (fun s => { s with unique := true }) isPlainKey_unique
      fun _ => rfl) ++
    Entry.when c.notNull notNullEntry ++
    Entry.when c.increment
      (.flag "increment" (fun s => { s with increment := true }) rfl fun _ => rfl)

/-- The entries for the settings of a column. -/
def columnEntries (c : SchemaDiagram.Column) : List (Entry Parser.columnSetting) :=
  flagEntries c ++ Entry.ofOption c.default defaultEntry ++
    Entry.ofOption c.aliasName
      (.anyText "alias" · (fun text s => { s with aliasName := some text }) isPlainKey_alias
        fun _ => rfl) ++
    Entry.ofOption c.note
      (.quotedText "note" · (fun text s => { s with note := some text }) isPlainKey_note
        fun _ => rfl)

/-- The flags of a column are written as the markup writes them. -/
theorem map_text_flagEntries (c : SchemaDiagram.Column) :
    (flagEntries c).map Entry.text = c.flagWords := by
  unfold flagEntries SchemaDiagram.Column.flagWords
  cases c.pk <;> cases c.fk <;> cases c.unique <;> cases c.notNull <;> cases c.increment <;> rfl

/-- The settings of a column are written as the markup writes them. -/
theorem map_text_columnEntries (c : SchemaDiagram.Column) :
    (columnEntries c).map Entry.text = Markup.columnSettings c := by
  have hdefault : (Entry.ofOption c.default defaultEntry).map Entry.text =
      Markup.setting? "default" Markup.defaultValue c.default :=
    map_text_ofOption (fun _ => Entry.text_value ..) _
  unfold columnEntries Markup.columnSettings
  rw [List.map_append, List.map_append, List.map_append, map_text_flagEntries, hdefault]
  refine congrArg₂ (· ++ ·) (congrArg₂ (· ++ ·) rfl ?_) ?_
  · exact map_text_ofOption (fun _ => Entry.text_value ..) _
  · exact map_text_ofOption (fun _ => Entry.text_value ..) _

/-- The flags of a column set what the column has. -/
theorem effects_flagEntries (c : SchemaDiagram.Column) :
    effects (flagEntries c) .none =
      ⟨c.pk, c.fk, c.unique, c.notNull, c.increment, none, none, none⟩ := by
  unfold flagEntries
  cases c.pk <;> cases c.fk <;> cases c.unique <;> cases c.notNull <;> cases c.increment <;> rfl

/-- The settings of a column set what the column has. -/
theorem effects_columnEntries (c : SchemaDiagram.Column) :
    effects (columnEntries c) .none =
      ⟨c.pk, c.fk, c.unique, c.notNull, c.increment, c.default.map defaultOf, c.aliasName,
        c.note⟩ := by
  unfold columnEntries
  rw [effects_append, effects_append, effects_append, effects_flagEntries]
  cases c.default <;> cases c.aliasName <;> cases c.note <;> rfl

/-! ## Columns -/

/-- The words of the text behind a type. -/
noncomputable def paramsWords : Option String → List Word
  | none => []
  | some text => rawWords (rawTokensOf text)

/-- The words of a column, with the lines of its comments before them. -/
noncomputable def columnWords (c : SchemaDiagram.Column) : List Word :=
  { nameWord c.name with comments := c.comments.flatMap Markup.commentLines } ::
    nameWord (canonicalType c.columnType) ::
    (paramsWords c.typeParams ++ settingsWords (columnEntries c))

/-- A name and the space behind it are scanned as the name's word. -/
theorem Lexes.name_space {comments : List String} {rest : List Char} (n : String)
    (h : Lexes [] rest ws) :
    Lexes comments ((Markup.name n).toList ++ ' ' :: rest) ({ nameWord n with comments } :: ws) :=
  Lexes.name n rfl (h.space rfl)

/-- Type parameters are separated from what is in front. -/
theorem separated_params {rest : List Char} (text? : Option String) (h : Separated rest) :
    Separated ((Markup.params text?).toList ++ rest) := by
  cases text? with
  | none => exact h
  | some text =>
    unfold Markup.params
    rw [String.toList_append, String.toList_append]
    exact separated_cons _ rfl

/-- Type parameters are scanned as their words. -/
theorem Lexes.params {rest : List Char} {text? : Option String}
    (htext : ∀ text ∈ text?, IsRawText text) (h : Lexes [] rest ws) :
    Lexes [] ((Markup.params text?).toList ++ rest) (paramsWords text? ++ ws) := by
  cases text? with
  | none => exact h
  | some text =>
    obtain ⟨hclosed, hraw, htokens⟩ := (htext text rfl).rawTokensOf
    have hlexes := Lexes.rawText htokens (Lexes.mark .rightParen (by decide) h)
    rw [← hraw] at hlexes
    have hchars : (Markup.params (some text)).toList ++ rest =
        '(' :: (text.toList ++ ')' :: rest) := by
      simp [Markup.params]
    unfold paramsWords rawWords
    rw [hchars, List.cons_append, List.append_assoc]
    exact Lexes.mark .leftParen (by decide) hlexes

/-- A column is scanned as its words. -/
theorem Lexes.column {rest : List Char} (depth : Nat) {c : SchemaDiagram.Column}
    (hparams : ∀ text ∈ c.typeParams, IsRawText text) (h : Lexes [] rest ws) :
    Lexes [] ((Markup.column depth c).toList ++ rest) (columnWords c ++ ws) := by
  have hsettings := Lexes.settings (columnEntries c) (h.space (c := '\n') rfl)
  rw [map_text_columnEntries] at hsettings
  have hbehind := separated_settings (Markup.columnSettings c) (separated_cons (c := '\n') rest rfl)
  obtain ⟨d, others, hothers, hd⟩ := separated_params c.typeParams hbehind
  have htype := Lexes.params hparams hsettings
  rw [hothers] at htype
  have htype : Lexes [] _ _ := Lexes.name (canonicalType c.columnType)
    (continuesWord_of_separates hd) htype
  rw [← hothers] at htype
  have hname : Lexes (c.comments.flatMap Markup.commentLines) _ _ :=
    Lexes.name_space c.name htype
  have hchars : (Markup.name c.name ++ " " ++ Markup.name (canonicalType c.columnType) ++
        Markup.params c.typeParams ++ Markup.settings (Markup.columnSettings c)).toList ++
          '\n' :: rest =
      (Markup.name c.name).toList ++ ' ' :: ((Markup.name (canonicalType c.columnType)).toList ++
        ((Markup.params c.typeParams).toList ++
          ((Markup.settings (Markup.columnSettings c)).toList ++ '\n' :: rest))) := by
    simp
  unfold Markup.column columnWords
  rw [String.toList_append, List.append_assoc]
  refine Lexes.comments_lines depth c.comments (Lexes.line depth ?_)
  rw [hchars, List.cons_append, List.cons_append, List.append_assoc]
  exact hname

/-! ## Reading columns -/

/-- Behind a column stands neither a text in parentheses nor a list of settings. -/
def EndsColumn (ws : List Word) : Prop :=
  ws.head?.map Word.kind ≠ some (.mark .leftParen) ∧
    ws.head?.map Word.kind ≠ some (.mark .leftBracket)

namespace Parser.Reads

/-- A name's word is read as the name. -/
theorem name (n expected : String) :
    (name expected).Reads (nameWord n :: ws) ws (·.value = n) := by
  unfold Parser.name
  refine mono (take expected (fun t ht => ?_) rfl) fun t ht => ?_
  · rw [ht.kind]
    exact isName_nameKind n
  · rw [ht.value, value_nameWord]

/-- The words of type parameters are read as their raw text. -/
theorem parenthesized? {text? : Option String} (htext : ∀ text ∈ text?, IsRawText text)
    (hnext : ws.head?.map Word.kind ≠ some (.mark .leftParen)) :
    parenthesized?.Reads (paramsWords text? ++ ws) ws (· = text?) := by
  unfold Parser.parenthesized?
  refine at?_bind ?_
  cases text? with
  | none =>
    rw [if_neg (by simpa [paramsWords] using hnext)]
    exact pure rfl
  | some text =>
    obtain ⟨hclosed, hraw, -⟩ := (htext text rfl).rawTokensOf
    refine bind (parenthesized hclosed) fun a ha => pure ?_
    rw [ha, ← hraw]

/-- The words of a column are read as the column that the markup says. -/
theorem commentedColumn {c : SchemaDiagram.Column} (hparams : ∀ text ∈ c.typeParams, IsRawText text)
    (hnext : EndsColumn ws) :
    commentedColumn.Reads (columnWords c ++ ws) ws (·.toModel = c.canonical) := by
  have hparen : (settingsWords (columnEntries c) ++ ws).head?.map Word.kind ≠
      some (.mark .leftParen) := by
    unfold settingsWords
    split
    · exact hnext.1
    · simp [markWord]
  have hcolumn : column.Reads (nameWord c.name :: nameWord (canonicalType c.columnType) ::
      (paramsWords c.typeParams ++ (settingsWords (columnEntries c) ++ ws))) ws fun d =>
      d.toModel = { c.canonical with comments := d.comments } := by
    unfold Parser.column
    refine bind (name c.name _) fun t ht => bind (name _ _) fun u hu => ?_
    refine bind (parenthesized? hparams hparen) fun text htext => ?_
    refine bind (settings? (columnEntries c) .none hnext.2) fun s hs => lastSpan_bind fun last => ?_
    refine pure ?_
    rw [ht, hu, htext, hs, effects_columnEntries]
    simp only [Column.toModel, SchemaDiagram.Column.canonical, canonicalType_canonicalType]
    cases c.default <;> rfl
  unfold Parser.commentedColumn columnWords
  rw [List.cons_append, List.cons_append, List.append_assoc]
  refine bind (takingComments hcolumn) fun r hr => pure ?_
  obtain ⟨hmodel, hcomments⟩ := hr
  have htake : ({ r.1 with comments := r.2 } : Column).toModel =
      { r.1.toModel with comments := r.2 } := rfl
  rw [htake, hmodel, hcomments]
  rfl

end Parser.Reads

end Document

end SchemaDiagram
