import SchemaDiagram.Document.Setting

/-!
# Blocks

The body of a construct stands in braces. A block ends at its closing brace; the end of the document
or a keyword that opens a construct means that the brace was forgotten.
-/

namespace SchemaDiagram.Document.Parser

variable {σ : Type}

/-- Reads one entry of a block, or the brace that closes it. `entry` reads what starts with a token
of the given kind. -/
def blockStep (construct name : String) (opening : Span) (entry : σ → TokenKind → Parser σ)
    (s : σ) : Parser (σ ⊕ σ) := do
  match ← kind? with
  | none => fail (.unclosedBlock construct name opening)
  | some k =>
    if k = .mark .rightBrace then do
      let _ ← any
      return .inr s
    else if k.opensConstruct then fail (.unclosedBlock construct name opening)
    else do
      let t ← entry s k
      return .inl t

/-- A round of reading a block takes a token, if its entries do. -/
theorem consumes_blockStep {construct name : String} {opening : Span}
    {entry : σ → TokenKind → Parser σ} (h : ∀ s k, (entry s k).Consumes) (s : σ) :
    (blockStep construct name opening entry s).Consumes := by
  refine consumes_bind_of_forall fun k => ?_
  split
  · exact consumes_fail _
  · split
    · exact consumes_any.bind _
    · split
      · exact consumes_fail _
      · exact (h s _).bind _

/-- Reads the entries of a block behind its opening brace, and the closing one. -/
def block (construct name : String) (opening : Span) (entry : σ → TokenKind → Parser σ)
    (h : ∀ s k, (entry s k).Consumes) (s : σ) : Parser σ :=
  iterate (blockStep construct name opening entry) (consumes_blockStep h) s

/-! ## Notes -/

/-- Whether a word with a token of the given kind behind it opens a part of its own: `Note` is a
note then and no name, and a word behind `Ref` is the name of the reference. -/
def isColonOrBrace (second : Option TokenKind) : Bool :=
  second == some (.mark .colon) || second == some (.mark .leftBrace)

/-- Reads a note: `Note: text` or `Note { text }`. -/
def note : Parser String := do
  let _ ← expect (.keyword .note)
  if ← accept (.mark .leftBrace) then do
    let text ← string "note text"
    let _ ← expect (.mark .rightBrace)
    return text
  else do
    let _ ← expect (.mark .colon)
    string "note text"

/-- A note takes its keyword. -/
theorem consumes_note : note.Consumes := (consumes_expect _).bind _

/-- Reads any one token and leaves the state as it is. -/
def ignore (s : σ) : Parser σ := do
  let _ ← any
  return s

/-- Passing over what is unknown takes a token. -/
theorem consumes_ignore (s : σ) : (ignore s).Consumes := consumes_any.bind _

end SchemaDiagram.Document.Parser
