import SchemaDiagram.Document.Area
import SchemaDiagram.Document.Reference
import SchemaDiagram.Document.Table

/-!
# Reading a document

A construct that cannot be read costs a diagnostic and nothing else: reading goes on behind the next
closing brace or at the next keyword that opens a construct, whichever comes first, and the comments
of the failed construct wait for the next one.
-/

namespace SchemaDiagram.Document

/-- The parser of the construct that a keyword opens. -/
def Parser.construct? : TokenKind → Option (Span → Parser Construct)
  | .keyword .project => some fun start => Construct.project <$> Parser.project start
  | .keyword .table => some fun start => Construct.table <$> Parser.table start
  | .keyword .ref => some fun start => Construct.reference <$> Parser.reference start
  | .keyword .area => some fun start => Construct.area <$> Parser.area start
  | _ => none

/-- Every keyword that opens a construct has a parser for it. -/
theorem Parser.opensConstruct_of_construct?_eq_none {k : TokenKind}
    (h : Parser.construct? k = none) : k.opensConstruct = false := by
  cases k with
  | keyword k => cases k <;> first | rfl | cases h
  | _ => rfl

/-- There are four parsers of constructs, each for a keyword of its own. -/
theorem Parser.construct?_eq_some {k : TokenKind} {construct : Span → Parser Construct}
    (h : Parser.construct? k = some construct) :
    (k = .keyword .project ∧ construct = fun start => Construct.project <$> Parser.project start) ∨
    (k = .keyword .table ∧ construct = fun start => Construct.table <$> Parser.table start) ∨
    (k = .keyword .ref ∧ construct = fun start => Construct.reference <$> Parser.reference start) ∨
    (k = .keyword .area ∧ construct = fun start => Construct.area <$> Parser.area start) := by
  unfold Parser.construct? at h
  split at h <;> cases h <;> simp

/-- How many tokens to pass over after a failed construct. -/
def resumeLength : List CommentedToken → Nat
  | [] => 0
  | t :: ts =>
    if t.token.kind = .mark .rightBrace then 1
    else if t.token.kind.opensConstruct then 0
    else resumeLength ts + 1

namespace Cursor

/-- Goes on where the next construct may start. -/
def resume (c : Cursor) : Cursor := c.advanceBy (resumeLength c.rest)

/-- Going on at the next construct takes no tokens back. -/
theorem length_resume_le (c : Cursor) : c.resume.rest.length ≤ c.rest.length :=
  (c.reaches_advanceBy _).length_le

/-- Going on at the next construct reports nothing. -/
theorem reported_resume (c : Cursor) : c.resume.reported = c.reported := c.reported_advanceBy _

/-- A token that opens no construct is passed when reading goes on. -/
theorem length_resume_lt {c : Cursor} {t : CommentedToken} {ts : List CommentedToken}
    (h : c.rest = t :: ts) (hk : t.token.kind.opensConstruct = false) :
    c.resume.rest.length < c.rest.length := by
  have hlt : c.advance.rest.length < c.rest.length := length_advance_lt (by simp [h])
  have hn : ∃ n, resumeLength c.rest = n + 1 := by
    rw [h, resumeLength]
    split
    · exact ⟨0, rfl⟩
    · simp [hk]
  obtain ⟨n, hn⟩ := hn
  have := (reaches_advanceBy n c.advance).length_le
  rw [resume, hn, advanceBy]
  omega

end Cursor

/-- Reads the constructs ahead. -/
def readConstructs (c : Cursor) : List Construct × Cursor :=
  match _next : c.rest with
  | [] => ([], c)
  | t :: _ =>
    match _kind : Parser.construct? t.token.kind with
    | none => readConstructs (c.report (c.unexpected "'Project', 'Table', 'Ref' or 'Area'")).resume
    | some construct =>
      match _read : (construct t.token.span).run c.takeComments.advance with
      | .ok x d =>
        let (others, last) := readConstructs d
        (x.withComments c.availableComments :: others, last)
      | .failed e d => readConstructs ((d.restore c.availableComments).report e).resume
termination_by c.rest.length
decreasing_by
  · have := Cursor.length_resume_lt
      (c := c.report (c.unexpected "'Project', 'Table', 'Ref' or 'Area'")) _next
      (Parser.opensConstruct_of_construct?_eq_none _kind)
    simpa [Cursor.report] using this
  · have h := ((construct t.token.span).reaches c.takeComments.advance).length_le
    rw [_read] at h
    have hc : c.takeComments.advance.rest.length < c.rest.length := by
      simp [Cursor.takeComments, Cursor.advance, _next]
    simp only [Outcome.cursor] at h
    omega
  · have h := ((construct t.token.span).reaches c.takeComments.advance).length_le
    rw [_read] at h
    have hc : c.takeComments.advance.rest.length < c.rest.length := by
      simp [Cursor.takeComments, Cursor.advance, _next]
    have hr := ((d.restore c.availableComments).report e).length_resume_le
    simp only [Outcome.cursor, Cursor.report, Cursor.restore] at h hr ⊢
    omega

/-- A document that was read and what was wrong with it. -/
structure Reading where
  /-- The constructs that could be read. -/
  document : Document
  /-- The diagnostics in the order in which the problems were met. -/
  diagnostics : List Diagnostic
  deriving DecidableEq, Repr

/-- Reads a document from its tokens. -/
def ofTokens (ts : List Token) : Reading :=
  let (constructs, last) := readConstructs (.ofTokens ts)
  ⟨⟨constructs⟩, last.reported⟩

end SchemaDiagram.Document
