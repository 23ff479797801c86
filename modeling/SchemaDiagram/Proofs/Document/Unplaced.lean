import SchemaDiagram.Document.Read
import SchemaDiagram.Proofs.Document.Facing
import SchemaDiagram.Proofs.Document.Surroundings

/-!
# Forgetting places

Tokens, diagnostics and everything that is read have places in the text. `unplaced` forgets them. A
parser `Unplaces` another one if that one does on tokens without places what it does on tokens with
them, up to the places in its value and in the diagnostics. There is a rule for each way to put
parsers together, as in `Surroundings` for reading a part of a document; a parser that is given a
span corresponds to the one that is given none.
-/

namespace SchemaDiagram

/-! ## Forgetting places -/

/-- The token without its place. -/
def Token.unplaced (t : Token) : Token := { t with span := default }

/-- The diagnostic without its place. -/
def Diagnostic.unplaced : Diagnostic → Diagnostic
  | unexpectedToken expected found _ => unexpectedToken expected found default
  | unexpectedEnd expected _ => unexpectedEnd expected default
  | unclosedBlock construct name _ => unclosedBlock construct name default
  | invalidValue key value reason _ => invalidValue key value reason default

namespace Document

/-- The endpoint without its place. -/
def Endpoint.unplaced (e : Endpoint) : Endpoint := { e with span := default }

/-- The column without its place. -/
def Column.unplaced (c : Column) : Column := { c with span := default }

/-- The index without its place. -/
def Index.unplaced (i : Index) : Index := { i with span := default }

/-- The table without any places. -/
def Table.unplaced (t : Table) : Table :=
  { t with
    columns := t.columns.map Column.unplaced
    indexes := t.indexes.map Index.unplaced
    span := default }

/-- The reference without any places. -/
def Reference.unplaced (r : Reference) : Reference :=
  { r with source := r.source.unplaced, target := r.target.unplaced, span := default }

/-- The area without any places. -/
def Area.unplaced (a : Area) : Area :=
  { a with commonColumns := a.commonColumns.map Column.unplaced, span := default }

/-- The project without its place. -/
def Project.unplaced (p : Project) : Project := { p with span := default }

/-- The construct without any places. -/
def Construct.unplaced : Construct → Construct
  | project p => project p.unplaced
  | table t => table t.unplaced
  | reference r => reference r.unplaced
  | area a => area a.unplaced

/-- What was read and reported, without any places. -/
def Reading.unplaced (r : Reading) : Reading :=
  ⟨⟨r.document.constructs.map Construct.unplaced⟩, r.diagnostics.map Diagnostic.unplaced⟩

/-- The token with its comments, without its place. -/
def CommentedToken.unplaced (t : CommentedToken) : CommentedToken :=
  { t with token := t.token.unplaced }

/-- The cursor without any places. -/
def Cursor.unplaced (c : Cursor) : Cursor :=
  { c with
    rest := c.rest.map CommentedToken.unplaced
    reported := c.reported.map Diagnostic.unplaced
    last := default
    stop := default }

/-- The outcome without any places, where `f` forgets those of the value. -/
def Outcome.unplaced {α β : Type} (f : α → β) : Outcome α → Outcome β
  | ok a c => ok (f a) c.unplaced
  | failed e c => failed e.unplaced c.unplaced

/-! ## Cursors -/

namespace Cursor

/-- The next kind is seen without places. -/
theorem kind?_unplaced (c : Cursor) : c.unplaced.kind? = c.kind? := by
  cases hrest : c.rest <;> simp [kind?, unplaced, hrest, CommentedToken.unplaced, Token.unplaced]

/-- The second kind is seen without places. -/
theorem secondKind?_unplaced (c : Cursor) : c.unplaced.secondKind? = c.secondKind? := by
  rcases hrest : c.rest with _ | ⟨t, _ | ⟨u, us⟩⟩ <;>
    simp [secondKind?, unplaced, hrest, CommentedToken.unplaced, Token.unplaced]

/-- Passing a token does not look at places. -/
theorem unplaced_advance (c : Cursor) : c.advance.unplaced = c.unplaced.advance := by
  cases hrest : c.rest <;>
    simp [advance, unplaced, hrest, CommentedToken.unplaced, Token.unplaced]

/-- Passing tokens does not look at places. -/
theorem unplaced_advanceBy (n : Nat) (c : Cursor) :
    (c.advanceBy n).unplaced = c.unplaced.advanceBy n := by
  induction n generalizing c with
  | zero => rfl
  | succ n ih => rw [advanceBy, advanceBy, ih, unplaced_advance]

/-- Reporting does not look at places. -/
theorem unplaced_report (e : Diagnostic) (c : Cursor) :
    (c.report e).unplaced = c.unplaced.report e.unplaced := by
  simp [report, unplaced]

/-- A complaint about the next token is without its place what it is about the token without one. -/
theorem unplaced_unexpected (expected : String) (c : Cursor) :
    (c.unexpected expected).unplaced = c.unplaced.unexpected expected := by
  cases hrest : c.rest <;> simp [unexpected, unplaced, hrest] <;> rfl

/-- Taking comments away does not look at places. -/
theorem unplaced_takeComments (c : Cursor) :
    c.takeComments.unplaced = c.unplaced.takeComments := by
  cases hrest : c.rest <;>
    simp [takeComments, unplaced, hrest, CommentedToken.unplaced]

/-- The comments for a construct have no places. -/
theorem availableComments_unplaced (c : Cursor) :
    c.unplaced.availableComments = c.availableComments := by
  cases hrest : c.rest <;>
    simp [availableComments, commentsAhead, unplaced, hrest, CommentedToken.unplaced]

/-- Giving comments back does not look at places. -/
theorem unplaced_restore (comments : List String) (c : Cursor) :
    (c.restore comments).unplaced = c.unplaced.restore comments := rfl

end Cursor

/-! ## Parsers -/

namespace Parser

/-- Without places, `p` does what `q` does without places, where `f` forgets those of the value. -/
def Unplaces {α β : Type} (f : α → β) (p : Parser α) (q : Parser β) : Prop :=
  ∀ c, (p.run c).unplaced f = q.run c.unplaced

variable {α α' β β' σ σ' : Type} {f : α → α'} {g : β → β'} {p : Parser α} {q : Parser α'}

/-- A value is read without places as the value without places. -/
theorem unplaces_pure (f : α → α') (a : α) : Unplaces f (Pure.pure a) (Pure.pure (f a)) :=
  fun _ => rfl

/-- Sequences of parsers that correspond to each other do. -/
theorem Unplaces.bind (h : Unplaces f p q) {k : α → Parser β} {k' : α' → Parser β'}
    (hk : ∀ a, Unplaces g (k a) (k' (f a))) : Unplaces g (p >>= k) (q >>= k') := by
  intro c
  have hp := h c
  rw [run_bind, run_bind, ← hp]
  cases p.run c with
  | ok a d => exact hk a d
  | failed e d => rfl

/-- Changing the value in ways that agree keeps parsers corresponding to each other. -/
theorem Unplaces.map (h : Unplaces f p q) {k : α → β} {k' : α' → β'}
    (hk : ∀ a, g (k a) = k' (f a)) : Unplaces g (k <$> p) (k' <$> q) :=
  h.bind fun a c => congrArg (Outcome.ok · c.unplaced) (hk a)

/-- The next kind is read without places as with them. -/
theorem unplaces_kind? : Unplaces id kind? kind? := fun c =>
  congrArg (Outcome.ok · c.unplaced) c.kind?_unplaced.symm

/-- The second kind is read without places as with them. -/
theorem unplaces_secondKind? : Unplaces id secondKind? secondKind? := fun c =>
  congrArg (Outcome.ok · c.unplaced) c.secondKind?_unplaced.symm

/-- The place of the last token is forgotten. -/
theorem unplaces_lastSpan : Unplaces (fun _ => default) lastSpan lastSpan := fun _ => rfl

/-- The place of the next token is forgotten. -/
theorem unplaces_nextSpan : Unplaces (fun _ => default) nextSpan nextSpan := by
  intro c
  cases hrest : c.rest with
  | nil => simp [nextSpan, Cursor.unplaced, hrest, Outcome.unplaced]
  | cons t ts =>
    simp [nextSpan, Cursor.unplaced, hrest, Outcome.unplaced, CommentedToken.unplaced,
      Token.unplaced]

/-- A failure without places is one with the diagnostic without its place. -/
theorem unplaces_fail (f : α → α') (e : Diagnostic) :
    Unplaces f (fail e) (fail e.unplaced) := fun _ => rfl

/-- A complaint about the next token is the same one up to its place. -/
theorem unplaces_unexpected (f : α → α') (expected : String) :
    Unplaces f (unexpected expected) (unexpected expected) := fun c =>
  congrArg (Outcome.failed · c.unplaced) (c.unplaced_unexpected expected)

/-- A report is the same one up to its place. -/
theorem unplaces_report (e : Diagnostic) : Unplaces id (report e) (report e.unplaced) :=
  fun c => congrArg (Outcome.ok ()) (c.unplaced_report e)

/-- A token is taken without places, if its place does not matter for taking it. -/
theorem unplaces_take {accepts : Token → Bool} (h : ∀ t, accepts t.unplaced = accepts t)
    (expected : String) :
    Unplaces Token.unplaced (take accepts expected) (take accepts expected) := by
  intro c
  have hadvance := c.unplaced_advance
  have hunexpected := c.unplaced_unexpected expected
  cases hrest : c.rest with
  | nil =>
    have hrest' : c.unplaced.rest = [] := by rw [Cursor.unplaced, hrest]; rfl
    simp only [take, hrest, hrest', Outcome.unplaced, hunexpected]
  | cons t ts =>
    have hrest' : c.unplaced.rest = t.unplaced :: ts.map CommentedToken.unplaced := by
      rw [Cursor.unplaced, hrest]
      rfl
    simp only [take, hrest, hrest']
    rw [show accepts t.unplaced.token = accepts t.token from h t.token]
    split
    · exact congrArg (Outcome.ok t.token.unplaced) hadvance
    · exact congrArg (Outcome.failed · c.unplaced) hunexpected

/-- Tokens are passed without places as with them. -/
theorem unplaces_skip (n : Nat) : Unplaces id (skip n) (skip n) := fun c =>
  congrArg (Outcome.ok ()) (c.unplaced_advanceBy n)

/-- Looking ahead gives the same up to places, if what is looked for has the same meaning without
them. -/
theorem unplaces_ahead {view : List CommentedToken → α} {view' : List CommentedToken → α'}
    (h : ∀ ts, f (view ts) = view' (ts.map CommentedToken.unplaced)) :
    Unplaces f (ahead view) (ahead view') := fun c =>
  congrArg (Outcome.ok · c.unplaced) (h c.rest)

/-- Looking ahead gives the same, if places do not matter for what is looked for. -/
theorem unplaces_ahead_id {view : List CommentedToken → α}
    (h : ∀ ts, view (ts.map CommentedToken.unplaced) = view ts) :
    Unplaces id (ahead view) (ahead view) :=
  unplaces_ahead fun ts => (h ts).symm

/-- An expected token is taken without its place. -/
theorem unplaces_expect (k : TokenKind) : Unplaces Token.unplaced (expect k) (expect k) :=
  unplaces_take (fun _ => rfl) _

/-- Any token is taken without its place. -/
theorem unplaces_any : Unplaces Token.unplaced any any := unplaces_take (fun _ => rfl) _

/-- A kind is found without places where it is found with them. -/
theorem unplaces_at? (k : TokenKind) : Unplaces id (at? k) (at? k) := fun c =>
  congrArg (Outcome.ok · c.unplaced) (by rw [c.kind?_unplaced]; rfl)

/-- A token of a kind is taken without places where it is taken with them. -/
theorem unplaces_accept (k : TokenKind) : Unplaces id (accept k) (accept k) := by
  intro c
  have hkind := c.kind?_unplaced
  simp only [accept, hkind]
  split
  · exact congrArg (Outcome.ok true) c.unplaced_advance
  · rfl

/-- Reading with comments corresponds to it as reading without them does. -/
theorem Unplaces.takingComments (h : Unplaces f p q) :
    Unplaces (Prod.map f id) p.takingComments q.takingComments := by
  intro c
  have hp := h c.takeComments
  rw [c.unplaced_takeComments] at hp
  simp only [Parser.takingComments, ← hp, c.availableComments_unplaced]
  cases p.run c.takeComments with
  | ok a d => rfl
  | failed e d => rfl

/-- Repetitions of rounds that correspond to each other do. -/
theorem Unplaces.iterate {step : σ → Parser (σ ⊕ α)} {step' : σ' → Parser (σ' ⊕ α')}
    (hconsumes : ∀ s, (step s).Consumes) (hconsumes' : ∀ s, (step' s).Consumes) {k : σ → σ'}
    (h : ∀ s, Unplaces (Sum.map k f) (step s) (step' (k s))) (s : σ) :
    Unplaces f (iterate step hconsumes s) (iterate step' hconsumes' (k s)) := by
  intro c
  show (iterate.loop step hconsumes s c).unplaced f = (Parser.iterate step' hconsumes' (k s)).run _
  fun_induction iterate.loop step hconsumes s c with
  | case1 s c t d hread ih =>
    have hstep := h s c
    rw [hread] at hstep
    rw [ih, run_iterate_of_next hstep.symm]
  | case2 s c a d hread =>
    have hstep := h s c
    rw [hread] at hstep
    rw [run_iterate_of_last hstep.symm]
    rfl
  | case3 s c e d hread =>
    have hstep := h s c
    rw [hread] at hstep
    rw [run_iterate, ← hstep]
    rfl

end Parser

end Document

end SchemaDiagram
