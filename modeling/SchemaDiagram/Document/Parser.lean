import SchemaDiagram.Document.Cursor

/-!
# Parsers

A parser reads a value from a cursor or fails with a diagnostic; either way it tells where it
stopped. Its type carries the proof that it only moves forward, so repetition ends as soon as each
round is known to take a token (`Parser.Consumes`).
-/

namespace SchemaDiagram.Document

/-- What a parser answers. -/
inductive Outcome (α : Type) where
  /-- A value was read. -/
  | ok (value : α) (cursor : Cursor)
  /-- Reading failed at the cursor. -/
  | failed (diagnostic : Diagnostic) (cursor : Cursor)

/-- Where a parser stopped. -/
def Outcome.cursor {α : Type} : Outcome α → Cursor
  | ok _ c => c
  | failed _ c => c

/-- A parser of values. -/
structure Parser (α : Type) where
  /-- Reads from a cursor. -/
  run : Cursor → Outcome α
  /-- Reading only moves forward. -/
  reaches : ∀ c : Cursor, c.Reaches (run c).cursor

namespace Parser

variable {α β σ : Type}

/-- Reads nothing. -/
def pure (a : α) : Parser α := ⟨fun c => .ok a c, fun c => .refl c⟩

/-- Reads one thing after another. -/
def bind (p : Parser α) (f : α → Parser β) : Parser β where
  run c :=
    match p.run c with
    | .ok a d => (f a).run d
    | .failed e d => .failed e d
  reaches c := by
    have hp := p.reaches c
    split
    · next a d h => rw [h] at hp; exact hp.trans ((f a).reaches d)
    · next e d h => rw [h] at hp; exact hp

instance : Monad Parser where
  pure := Parser.pure
  bind := Parser.bind

/-- What reads nothing answers its value and stays where it is. -/
@[simp] theorem run_pure (a : α) (c : Cursor) : (Pure.pure a : Parser α).run c = .ok a c := rfl

/-- The second part reads where the first one stopped; a failure of the first one is the failure. -/
theorem run_bind (p : Parser α) (f : α → Parser β) (c : Cursor) :
    (p >>= f).run c =
      match p.run c with
      | .ok a d => (f a).run d
      | .failed e d => .failed e d := rfl

/-- A sequence that answers has read each of its parts. -/
theorem exists_of_run_bind {p : Parser α} {f : α → Parser β} {c d : Cursor} {b : β}
    (h : (p >>= f).run c = .ok b d) :
    ∃ a e, p.run c = .ok a e ∧ (f a).run e = .ok b d := by
  rw [run_bind] at h
  cases hread : p.run c with
  | ok a e =>
    rw [hread] at h
    exact ⟨a, e, rfl, h⟩
  | failed x e =>
    rw [hread] at h
    cases h

/-- Parsers that answer alike at every cursor are the same. -/
theorem eq_of_run {p q : Parser α} (h : ∀ c, p.run c = q.run c) : p = q := by
  obtain ⟨f, hf⟩ := p
  obtain ⟨g, hg⟩ := q
  obtain rfl : f = g := funext h
  rfl

instance : LawfulMonad Parser :=
  LawfulMonad.mk' Parser
    (fun p => eq_of_run fun c => by
      show (p >>= fun a => Pure.pure a).run c = p.run c
      rw [run_bind]
      cases p.run c <;> rfl)
    (fun _ _ => rfl)
    (fun p f g => eq_of_run fun c => by
      rw [run_bind, run_bind, run_bind]
      cases p.run c <;> rfl)

/-! ### Single steps -/

/-- The kind of the next token, without reading it. -/
def kind? : Parser (Option TokenKind) := ⟨fun c => .ok c.kind? c, fun c => .refl c⟩

/-- The kind of the token after the next one, without reading it. -/
def secondKind? : Parser (Option TokenKind) := ⟨fun c => .ok c.secondKind? c, fun c => .refl c⟩

/-- The span of the token that was read last. -/
def lastSpan : Parser Span := ⟨fun c => .ok c.last c, fun c => .refl c⟩

/-- The span of the next token, or the end of the document. -/
def nextSpan : Parser Span where
  run c :=
    match c.rest with
    | [] => .ok c.stop c
    | t :: _ => .ok t.token.span c
  reaches c := by split <;> exact .refl c

/-- Fails with a diagnostic. -/
def fail (d : Diagnostic) : Parser α := ⟨fun c => .failed d c, fun c => .refl c⟩

/-- Fails since the next token is not what was expected. -/
def unexpected (expected : String) : Parser α :=
  ⟨fun c => .failed (c.unexpected expected) c, fun c => .refl c⟩

/-- Adds a diagnostic and goes on. -/
def report (d : Diagnostic) : Parser Unit :=
  ⟨fun c => .ok () (c.report d), fun c => c.reaches_report d⟩

/-- Reads the next token if it is as expected. -/
def take (accepts : Token → Bool) (expected : String) : Parser Token where
  run c :=
    match c.rest with
    | [] => .failed (c.unexpected expected) c
    | t :: _ =>
      if accepts t.token then .ok t.token c.advance else .failed (c.unexpected expected) c
  reaches c := by
    split
    · exact .refl c
    · split
      · exact c.reaches_advance
      · exact .refl c

/-- Passes `n` tokens. -/
def skip (n : Nat) : Parser Unit :=
  ⟨fun c => .ok () (c.advanceBy n), fun c => c.reaches_advanceBy n⟩

/-- Reads a value of the tokens ahead without passing them. -/
def ahead (view : List CommentedToken → α) : Parser α :=
  ⟨fun c => .ok (view c.rest) c, fun c => .refl c⟩

/-- Reads a token of a given kind. -/
def expect (k : TokenKind) : Parser Token := take (fun t => t.kind == k) k.description

/-- Reads any token. -/
def any : Parser Token := take (fun _ => true) "token"

/-- Whether a token of a given kind is next. -/
def at? (k : TokenKind) : Parser Bool := ⟨fun c => .ok (c.kind? == some k) c, fun c => .refl c⟩

/-- Reads a token of a given kind if it is next, and tells whether it was. -/
def accept (k : TokenKind) : Parser Bool where
  run c := if c.kind? = some k then .ok true c.advance else .ok false c
  reaches c := by
    split
    · exact c.reaches_advance
    · exact .refl c

/-- Reads a part of a construct that takes line comments of its own. If the part fails, the comments
go back to those that wait for a construct. -/
def takingComments (p : Parser α) : Parser (α × List String) where
  run c :=
    match p.run c.takeComments with
    | .ok a d => .ok (a, c.availableComments) d
    | .failed e d => .failed e (d.restore c.availableComments)
  reaches c := by
    have hp := (c.reaches_takeComments).trans (p.reaches c.takeComments)
    split
    · next h => rw [h] at hp; exact hp
    · next d h => rw [h] at hp; exact hp.restore c.availableComments_subset

/-- A value read with the comments in front of it was read behind them. -/
theorem run_of_run_takingComments {p : Parser α} {r : α × List String} {c d : Cursor}
    (h : p.takingComments.run c = .ok r d) : p.run c.takeComments = .ok r.1 d := by
  simp only [takingComments] at h
  split at h
  · next a e he =>
    cases h
    exact he
  · cases h

/-! ### Repetition -/

/-- A parser that takes at least one token whenever it reads a value. -/
def Consumes (p : Parser α) : Prop :=
  ∀ c a d, p.run c = .ok a d → d.rest.length < c.rest.length

/-- Taking a token takes a token. -/
theorem consumes_take (accepts : Token → Bool) (expected : String) :
    (take accepts expected).Consumes := by
  intro c a d h
  simp only [take] at h
  split at h
  · cases h
  · next hr =>
    split at h
    · cases h; exact Cursor.length_advance_lt (by simp [hr])
    · cases h

/-- An expected token is taken. -/
theorem consumes_expect (k : TokenKind) : (expect k).Consumes := consumes_take _ _

/-- Any token, if there is one, is taken. -/
theorem consumes_any : any.Consumes := consumes_take _ _

/-- A failure reads no value. -/
theorem consumes_fail (d : Diagnostic) : (fail d : Parser α).Consumes := by
  intro c a e h; cases h

/-- A complaint about the next token reads no value. -/
theorem consumes_unexpected (expected : String) : (unexpected expected : Parser α).Consumes := by
  intro c a e h; cases h

/-- It is enough that the first part takes a token. -/
theorem Consumes.bind {p : Parser α} (h : p.Consumes) (f : α → Parser β) :
    (p >>= f).Consumes := by
  intro c b d hr
  obtain ⟨a, e, he, hr⟩ := exists_of_run_bind hr
  have := h c a e he
  have := ((f a).reaches e).length_le
  rw [hr] at this
  simp only [Outcome.cursor] at this
  omega

/-- It is enough that the second part takes a token. -/
theorem consumes_bind_of_forall {p : Parser α} {f : α → Parser β} (h : ∀ a, (f a).Consumes) :
    (p >>= f).Consumes := by
  intro c b d hr
  obtain ⟨a, e, he, hr⟩ := exists_of_run_bind hr
  have := h a e b d hr
  have := (p.reaches c).length_le
  rw [he] at this
  simp only [Outcome.cursor] at this
  omega

/-- Taking comments away first takes no tokens back. -/
theorem Consumes.takingComments {p : Parser α} (h : p.Consumes) : p.takingComments.Consumes := by
  intro c b d hr
  have := h c.takeComments b.1 d (run_of_run_takingComments hr)
  have := (c.reaches_takeComments).length_le
  omega

/-- Repeats a step, which goes on with a new state or ends with a result. -/
def iterate.loop (step : σ → Parser (σ ⊕ α)) (h : ∀ s, (step s).Consumes) (s : σ) (c : Cursor) :
    Outcome α :=
  match _read : (step s).run c with
  | .ok (.inl s') d => iterate.loop step h s' d
  | .ok (.inr a) d => .ok a d
  | .failed e d => .failed e d
termination_by c.rest.length
decreasing_by exact h s c _ d _read

/-- Repeats a step that takes a token each time, until it ends with a result. -/
def iterate (step : σ → Parser (σ ⊕ α)) (h : ∀ s, (step s).Consumes) (s : σ) : Parser α where
  run := iterate.loop step h s
  reaches c := by
    fun_induction iterate.loop step h s c with
    | case1 s c s' d hr ih =>
      have := (step s).reaches c
      rw [hr] at this
      exact this.trans ih
    | case2 s c a d hr =>
      have := (step s).reaches c
      rwa [hr] at this
    | case3 s c e d hr =>
      have := (step s).reaches c
      rwa [hr] at this

end Parser

end SchemaDiagram.Document
