import SchemaDiagram.Document.Reference
import SchemaDiagram.Proofs.Markup.Blocks

/-!
# References in markup

A reference is printed on one line, from its keyword to its settings, and its endpoints are printed
by the names in the identifiers of their tables. Reading the line gives the reference back
(`Reference.canonical`).
-/

namespace SchemaDiagram

/-- A name is had back from its table's id. -/
@[simp] theorem TableId.tableName_ofName (name : String) : (TableId.ofName name).tableName = name := by
  have hstart : start.toList.isPrefixOf? (start ++ name).toList = some name.toList := by
    rw [String.toList_append]
    simp [List.isPrefixOf?_eq_some_iff_append_eq]
  unfold tableName ofName
  rw [hstart]
  exact String.ofList_toList

/-- The reference as its markup says it: each line of a comment is a comment. -/
def Reference.canonical (r : Reference) : Reference :=
  { r with comments := r.comments.flatMap Markup.commentLines }

namespace Document

open Lexeme

variable {rest : List Char} {ws vs : List Word}

/-- What markup needs to say a reference: its identifiers are those of the names of its
endpoints. -/
def IsWritableReference (r : SchemaDiagram.Reference) : Prop :=
  ∃ fromTable toTable, r =
    { SchemaDiagram.Reference.between fromTable r.fromColumn toTable r.toColumn r.kind with
      swapEdge := r.swapEdge
      note := r.note
      comments := r.comments }

/-! ## The words of a reference -/

/-- The words of an endpoint. -/
def endpointWords (id : TableId) (column : String) : List Word :=
  [nameWord id.tableName, markWord .dot, nameWord column]

/-- An endpoint is scanned as its words, if what follows does not continue its column. -/
theorem Lexes.endpoint (id : TableId) (column : String) {c : Char} (hc : continuesWord c = false)
    (h : Lexes [] (c :: rest) ws) :
    Lexes [] ((Markup.endpoint id column).toList ++ c :: rest) (endpointWords id column ++ ws) := by
  have hcolumn : Lexes [] _ _ := Lexes.name column hc h
  have htable : Lexes [] _ _ := Lexes.name id.tableName (c := '.') rfl
    (Lexes.mark .dot (by decide) hcolumn)
  have hchars : (Markup.endpoint id column).toList ++ c :: rest =
      (Markup.name id.tableName).toList ++ '.' :: ((Markup.name column).toList ++ c :: rest) := by
    simp [Markup.endpoint]
  rw [hchars]
  exact htable

/-- The mark for a relationship. -/
def relationshipMark : Relationship → Mark
  | .manyToOne => .greater
  | .oneToMany => .less
  | .oneToOne => .minus
  | .manyToMany => .lessGreater
  | .inferred => .tilde

/-- The symbol of a relationship is scanned as its mark, if a separating character follows. -/
theorem Lexes.symbol (r : Relationship) {c : Char} (hc : separates c = true)
    (h : Lexes [] (c :: rest) ws) :
    Lexes [] (r.symbol.toList ++ c :: rest) (markWord (relationshipMark r) :: ws) := by
  have hsymbol : r.symbol.toList = (relationshipMark r).chars := by
    cases r <;> rfl
  rw [hsymbol]
  exact Lexes.token (Shape.mark _).readAs nofun nofun hc h

/-- The entry for whether the edge is drawn from the other side. -/
def swapEntry (swap : Bool) : Entry Parser.referenceSetting :=
  .word "swap_edge" (if swap then "true" else "false")
    (fun s => if Text.spelledAlike s "true" then some true
      else if Text.spelledAlike s "false" then some false else none)
    "expected true or false" swap (fun swap r => { r with swapEdge := swap.or r.swapEdge }) rfl
    (by cases swap <;> rfl) (by cases swap <;> rfl) fun _ => rfl

/-- The entries for the settings of a reference. -/
def referenceEntries (r : SchemaDiagram.Reference) : List (Entry Parser.referenceSetting) :=
  Entry.ofOption r.swapEdge swapEntry ++
    Entry.ofOption r.note
      (.quotedText "note" · (fun text r => { r with note := some text }) isPlainKey_note
        fun _ => rfl)

/-- The settings of a reference are written as the markup writes them. -/
theorem map_text_referenceEntries (r : SchemaDiagram.Reference) :
    (referenceEntries r).map Entry.text =
      Markup.setting? "swap_edge" (fun swap => if swap then "true" else "false") r.swapEdge ++
        Markup.setting? "note" Markup.text r.note := by
  unfold referenceEntries
  rw [List.map_append]
  refine congrArg₂ (· ++ ·) ?_ ?_
  · exact map_text_ofOption (e := swapEntry) (fun _ => Entry.text_value ..) _
  · exact map_text_ofOption (fun _ => Entry.text_value ..) _

/-- The settings of a reference set what the reference has. -/
theorem effects_referenceEntries (r : SchemaDiagram.Reference) (n : Option String)
    (source target : Endpoint) (kind : Relationship) (span : Span) :
    effects (referenceEntries r) ⟨n, source, target, kind, none, none, span, []⟩ =
      ⟨n, source, target, kind, r.swapEdge, r.note, span, []⟩ := by
  unfold referenceEntries
  cases r.swapEdge <;> cases r.note <;> rfl

/-- The words of a reference. -/
def referenceWords (r : SchemaDiagram.Reference) : List Word :=
  { letterWord "Ref" with comments := r.comments.flatMap Markup.commentLines } ::
    markWord .colon :: (endpointWords r.fromTable r.fromColumn ++
      markWord (relationshipMark r.kind) :: (endpointWords r.toTable r.toColumn ++
        settingsWords (referenceEntries r)))

/-- A reference is scanned as its words. -/
theorem Lexes.reference (r : SchemaDiagram.Reference) (h : Lexes [] rest ws) :
    Lexes [] ((Markup.reference r).toList ++ rest) (referenceWords r ++ ws) := by
  have hsettings := Lexes.settings (referenceEntries r) (h.space (c := '\n') rfl)
  obtain ⟨c, others, hothers, hc⟩ := separated_settings ((referenceEntries r).map Entry.text)
    (separated_cons (c := '\n') rest rfl)
  rw [hothers] at hsettings
  have htarget := Lexes.endpoint r.toTable r.toColumn (continuesWord_of_separates hc) hsettings
  rw [← hothers] at htarget
  have hsymbol := Lexes.symbol r.kind (c := ' ') rfl (htarget.space rfl)
  have hsource := Lexes.endpoint r.fromTable r.fromColumn (c := ' ') rfl (hsymbol.space rfl)
  have hword : Lexes (r.comments.flatMap Markup.commentLines) _ _ :=
    Lexes.letters (w := "Ref".toList) (mem_word_of_isLetters rfl) (c := ':') rfl
      (Lexes.mark .colon (by decide) (hsource.space (c := ' ') rfl))
  have hchars : ("Ref: " ++ Markup.endpoint r.fromTable r.fromColumn ++ " " ++ r.kind.symbol ++
        " " ++ Markup.endpoint r.toTable r.toColumn ++
        Markup.settings ((referenceEntries r).map Entry.text)).toList ++ '\n' :: rest =
      "Ref".toList ++ ':' :: ' ' :: ((Markup.endpoint r.fromTable r.fromColumn).toList ++
        ' ' :: (r.kind.symbol.toList ++ ' ' :: ((Markup.endpoint r.toTable r.toColumn).toList ++
          ((Markup.settings ((referenceEntries r).map Entry.text)).toList ++ '\n' :: rest)))) := by
    simp
  unfold Markup.reference referenceWords
  rw [← map_text_referenceEntries, String.toList_append, List.append_assoc]
  refine Lexes.comments_lines 0 r.comments (Lexes.line 0 ?_)
  rw [hchars]
  simp only [List.cons_append, List.append_assoc]
  exact hword

/-! ## Reading references -/

namespace Parser.Reads

/-- The words of an endpoint are read as its table and its column. -/
theorem endpoint (id : TableId) (column : String) :
    endpoint.Reads (endpointWords id column ++ ws) ws
      (fun e => e.table = id.tableName ∧ e.column = column) := by
  unfold Parser.endpoint endpointWords
  refine bind (name _ _) fun t ht => bind (expect rfl rfl) fun _ _ => ?_
  exact bind (name _ _) fun u hu => pure ⟨ht, hu⟩

/-- The mark of a relationship is read as the relationship. -/
theorem relationship (r : Relationship) :
    relationship.Reads (markWord (relationshipMark r) :: ws) ws (· = r) := by
  have hkind : relationshipOf? (.mark (relationshipMark r)) = some r := by
    cases r <;> rfl
  unfold Parser.relationship
  refine bind (take _ (fun t ht => ?_) rfl) fun t ht => pure ?_
  · have hmark : t.kind = .mark (relationshipMark r) := ht.kind
    rw [hmark, hkind]
    rfl
  · have hmark : t.kind = .mark (relationshipMark r) := ht.kind
    rw [hmark, hkind]
    rfl

/-- In front of a colon, a reference has no name. -/
theorem referenceName? :
    referenceName?.Reads (markWord .colon :: ws) (markWord .colon :: ws) (· = none) := by
  unfold Parser.referenceName?
  refine kind?_bind (secondKind?_bind ?_)
  rw [if_neg]
  · exact pure rfl
  · rintro ⟨hname, -⟩
    cases hname

/-- A reference is read back behind its keyword. -/
theorem reference {r : SchemaDiagram.Reference} (hr : IsWritableReference r) (start : Span)
    (hnext : ws.head?.map Word.kind ≠ some (.mark .leftBracket)) :
    (reference start).Reads (markWord .colon :: (endpointWords r.fromTable r.fromColumn ++
        markWord (relationshipMark r.kind) :: (endpointWords r.toTable r.toColumn ++
          (settingsWords (referenceEntries r) ++ ws)))) ws
      (·.toModel = { r.canonical with comments := [] }) := by
  unfold Parser.reference
  refine bind referenceName? fun n hn => bind (accept rfl rfl) fun _ _ => ?_
  have hbrace : nameKind r.fromTable.tableName ≠ .mark .leftBrace := by
    intro hk
    have hname := isName_nameKind r.fromTable.tableName
    rw [hk] at hname
    cases hname
  refine bind (accept_other (by simpa [endpointWords, nameWord] using hbrace)) fun b hb => ?_
  refine bind (endpoint _ _) fun e he => bind (relationship _) fun k hk => ?_
  refine bind (endpoint _ _) fun e' he' => ?_
  refine bind (settings? (referenceEntries r) _ hnext) fun s hs => ?_
  rw [hb, if_neg (by simp)]
  refine lastSpan_bind fun last => pure ?_
  obtain ⟨fromTable, toTable, hwritten⟩ := hr
  have hid : r.id = .ofEndpoints fromTable r.fromColumn toTable r.toColumn :=
    congrArg SchemaDiagram.Reference.id hwritten
  have hfrom : r.fromTable = .ofName fromTable :=
    congrArg SchemaDiagram.Reference.fromTable hwritten
  have hto : r.toTable = .ofName toTable := congrArg SchemaDiagram.Reference.toTable hwritten
  rw [hs, hn, hk, effects_referenceEntries]
  simp only [Reference.toModel, SchemaDiagram.Reference.between, SchemaDiagram.Reference.canonical,
    he.1, he.2, he'.1, he'.2, hid, hfrom, hto, TableId.tableName_ofName]

end Parser.Reads

end Document

end SchemaDiagram
