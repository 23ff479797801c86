import SchemaDiagram.Command.Format
import SchemaDiagram.Proofs.Markup.Compiled

/-!
# The canonical form of a text

A text that compiles without warnings has the markup of its diagram as its canonical form; any other
text stays what it is. Neither the identifier of a diagram nor its moment is seen in its markup, so
the canonical form does not depend on them (`compile_of_alike`), and a canonical form within the
size limit is its own canonical form (`exists_compile_canonicalText`).
-/

namespace SchemaDiagram

/-- What formatting makes of a text. -/
def canonicalText (options : CompileOptions) (text : String) : String :=
  match compile options text with
  | .ok ⟨d, []⟩ => d.markup
  | _ => text

/-- Whether a text compiles with warnings. -/
def hasWarnings (options : CompileOptions) (text : String) : Bool :=
  match compile options text with
  | .ok compiled => !compiled.warnings.isEmpty
  | .error _ => false

/-- A text that compiles, and whose markup is within the size limit if it is its canonical form. -/
def IsFormattable (options : CompileOptions) (text : String) : Prop :=
  ∃ compiled, compile options text = .ok compiled ∧ (compiled.warnings = [] →
    ∀ limit ∈ options.maxInputBytes, compiled.diagram.markup.utf8ByteSize ≤ limit)

/-! ## Other identifiers and moments -/

/-- Options that differ in no more than the identifier and the moment of diagrams. -/
def CompileOptions.Alike (options options' : CompileOptions) : Prop :=
  options.maxInputBytes = options'.maxInputBytes ∧
    options.defaults.databaseType = options'.defaults.databaseType

/-- Options are alike to themselves. -/
theorem CompileOptions.Alike.refl (options : CompileOptions) : options.Alike options := ⟨rfl, rfl⟩

/-- A diagram with another identifier and moment. -/
def Diagram.redated (defaults : DiagramDefaults) (d : Diagram) : Diagram :=
  { d with id := defaults.id, createdAt := defaults.timestamp, updatedAt := defaults.timestamp }

/-- A diagram's markup does not tell its dates. -/
theorem Diagram.markup_redated (defaults : DiagramDefaults) (d : Diagram) :
    (d.redated defaults).markup = d.markup := rfl

section Alike

variable {options options' : CompileOptions} {text : String}

/-- Defaults with another date give the diagram with that date. -/
theorem Diagram.ofDocument_redated (document : Document) {defaults defaults' : DiagramDefaults}
    (h : defaults.databaseType = defaults'.databaseType) :
    ofDocument document defaults' = (ofDocument document defaults).redated defaults' := by
  rw [ofDocument_eq, ofDocument_eq]
  simp only [withoutAreas, redated, h]

/-- A text within the size limit compiles as if there were none. -/
theorem compile_of_fits (h : ∀ limit ∈ options.maxInputBytes, text.utf8ByteSize ≤ limit) :
    compile options text = compile ⟨options.defaults, none⟩ text := by
  unfold compile
  rcases hlimit : options.maxInputBytes with _ | limit
  · rfl
  · simp only [if_neg (Nat.not_lt.2 (h limit hlimit))]
    rfl

/-- A text over the size limit is refused. -/
theorem compile_of_not_fits {limit : Nat} (hlimit : options.maxInputBytes = some limit)
    (h : limit < text.utf8ByteSize) :
    compile options text = .error (.tooLarge text.utf8ByteSize limit) := by
  unfold compile
  simp only [hlimit, if_pos h]
  rfl

/-- Under another identifier and moment a text compiles to the same diagram, apart from these. -/
theorem compile_of_alike (h : options.Alike options') :
    compile options' text = (compile options text).map fun compiled =>
      ⟨compiled.diagram.redated options'.defaults, compiled.warnings⟩ := by
  by_cases hfits : ∀ limit ∈ options.maxInputBytes, text.utf8ByteSize ≤ limit
  · rw [compile_of_fits hfits, compile_of_fits (h.1 ▸ hfits), compile_none, compile_none]
    cases Token.scan text with
    | error e => rfl
    | ok ts =>
      simp only [Except.map]
      rw [Diagram.ofDocument_redated _ h.2]
  · push Not at hfits
    obtain ⟨limit, hlimit, hlt⟩ := hfits
    rw [compile_of_not_fits hlimit hlt, compile_of_not_fits (h.1 ▸ hlimit) hlt]
    rfl

/-! ## Canonical forms -/

/-- The canonical text of one that compiles without warnings is its diagram's markup. -/
theorem canonicalText_of_compile {d : Diagram} (h : compile options text = .ok ⟨d, []⟩) :
    canonicalText options text = d.markup := by
  rw [canonicalText, h]

/-- The canonical text of one that has warnings is the text itself. -/
theorem canonicalText_of_warnings {compiled : Compiled} (h : compile options text = .ok compiled)
    (hwarnings : compiled.warnings ≠ []) : canonicalText options text = text := by
  obtain ⟨d, _ | ⟨w, ws⟩⟩ := compiled
  · exact absurd rfl hwarnings
  · rw [canonicalText, h]

/-- The condition asks for no more than that the text compiles and its canonical form is within the
size limit: a text with warnings is its own canonical form, and it was small enough to compile. -/
theorem isFormattable_iff : IsFormattable options text ↔ (compile options text).isOk = true ∧
    ∀ limit ∈ options.maxInputBytes, (canonicalText options text).utf8ByteSize ≤ limit := by
  constructor
  · rintro ⟨⟨d, warnings⟩, hcompile, hfits⟩
    refine ⟨by rw [hcompile]; rfl, fun limit hlimit => ?_⟩
    cases warnings with
    | nil => exact canonicalText_of_compile hcompile ▸ hfits rfl limit hlimit
    | cons w ws =>
      rw [canonicalText_of_warnings hcompile nofun]
      by_contra hlt
      rw [compile_of_not_fits hlimit (Nat.not_le.1 hlt)] at hcompile
      cases hcompile
  · rintro ⟨hok, hfits⟩
    rcases hcompile : compile options text with e | ⟨d, warnings⟩
    · rw [hcompile] at hok
      cases hok
    · refine ⟨_, hcompile, fun hempty => ?_⟩
      cases hempty
      exact canonicalText_of_compile hcompile ▸ hfits

instance : Decidable (IsFormattable options text) := decidable_of_iff _ isFormattable_iff.symm

/-! ## Canonical forms once more -/

/-- The markup of a compiled diagram compiles to a diagram of the same markup. -/
theorem exists_compile_markup {compiled : Compiled} (h : compile options text = .ok compiled)
    (halike : options.Alike options') : ∃ d : Diagram,
      compile ⟨options'.defaults, none⟩ compiled.diagram.markup = .ok ⟨d, []⟩ ∧
        d.markup = compiled.diagram.markup := by
  obtain ⟨document, hread, hd⟩ := exists_document_of_compile h
  -- the diagram of the other identifier and moment has the same markup
  have hmarkup : (Diagram.ofDocument document options'.defaults).markup =
      compiled.diagram.markup := by
    rw [hd, Diagram.ofDocument_redated document halike.2, Diagram.markup_redated]
  refine ⟨(Diagram.ofDocument document options'.defaults).restated, ?_, ?_⟩
  · rw [← hmarkup]
    exact compile_markup_ofDocument hread options'.defaults
  · rw [← hmarkup]
    exact (Document.isSettled_ofDocument hread options'.defaults).markup_restated

/-- What formatting makes of a text compiles with the same warnings, and is what formatting makes of
it again. -/
theorem exists_compile_canonicalText (h : IsFormattable options text)
    (halike : options.Alike options') :
    ∃ compiled, compile options' (canonicalText options text) = .ok compiled ∧
      (compiled.warnings ≠ [] ↔ hasWarnings options text = true) ∧
      (compiled.warnings = [] → compiled.diagram.markup = canonicalText options text) := by
  obtain ⟨⟨d, _ | ⟨w, ws⟩⟩, hcompile, hfits⟩ := h
  -- the markup of the diagram, or the text itself
  · obtain ⟨e, he, hmarkup⟩ := exists_compile_markup hcompile halike
    refine ⟨⟨e, []⟩, ?_, ?_, fun _ => ?_⟩
    · rw [canonicalText_of_compile hcompile, compile_of_fits (halike.1 ▸ hfits rfl)]
      exact he
    · rw [hasWarnings, hcompile]
      simp
    · rw [canonicalText_of_compile hcompile]
      exact hmarkup
  · refine ⟨⟨d.redated options'.defaults, w :: ws⟩, ?_, ?_, nofun⟩
    · rw [canonicalText_of_warnings hcompile nofun, compile_of_alike halike, hcompile]
      rfl
    · rw [hasWarnings, hcompile]
      simp

/-- What formatting makes of a text is formatted already. -/
theorem canonicalText_canonicalText (h : IsFormattable options text)
    (halike : options.Alike options') :
    canonicalText options' (canonicalText options text) = canonicalText options text := by
  obtain ⟨⟨d, _ | ⟨w, ws⟩⟩, hcompile, -, hmarkup⟩ := exists_compile_canonicalText h halike
  · rw [canonicalText_of_compile hcompile]
    exact hmarkup rfl
  · exact canonicalText_of_warnings hcompile nofun

/-- A canonical text has warnings whenever the text has. -/
theorem hasWarnings_canonicalText (h : IsFormattable options text)
    (halike : options.Alike options') :
    hasWarnings options' (canonicalText options text) = hasWarnings options text := by
  obtain ⟨compiled, hcompile, hwarnings, -⟩ := exists_compile_canonicalText h halike
  rw [hasWarnings, hcompile, Bool.eq_iff_iff, ← hwarnings]
  simp

/-- A canonical text can be formatted whenever the text can. -/
theorem IsFormattable.canonicalText (h : IsFormattable options text) :
    IsFormattable options (canonicalText options text) := by
  have hagain := canonicalText_canonicalText h (.refl options)
  obtain ⟨compiled, hcompile, -, -⟩ := exists_compile_canonicalText h (.refl options)
  rw [isFormattable_iff, hagain, hcompile]
  exact ⟨rfl, (isFormattable_iff.1 h).2⟩

end Alike

end SchemaDiagram
