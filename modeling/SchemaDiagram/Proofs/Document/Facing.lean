import SchemaDiagram.Proofs.Document.Grammar
import SchemaDiagram.Proofs.Document.Plain
import SchemaDiagram.Proofs.Document.Surroundings

/-!
# Parsers in front of known tokens

What a parser answers in front of tokens without comments (`Cursor.facing`), one equation for each
single step and each way to put parsers together. A choice by the next tokens is decided by the
tokens themselves, or by what is known not to be next (`NotNext`).
-/

namespace SchemaDiagram.Document

open Grammar

/-! ## The last token -/

namespace Grammar

variable (before : Span) (t : Token) (ts us : List Token)

/-- With no tokens passed, the last place is the one before them. -/
@[simp] theorem lastOf_nil : lastOf before [] = before := rfl

/-- The last place behind two lists of tokens is found one list after the other. -/
@[simp] theorem lastOf_append : lastOf before (ts ++ us) = lastOf (lastOf before ts) us := by
  unfold lastOf
  rw [List.getLast?_append]
  cases us.getLast? <;> rfl

/-- The last place behind a token is found behind the ones that follow it. -/
@[simp] theorem lastOf_cons : lastOf before (t :: ts) = lastOf t.span ts :=
  lastOf_append before [t] ts

end Grammar

/-- No token of the kind is next. -/
def NotNext (k : TokenKind) (ts : List Token) : Prop := ∀ t ∈ ts.head?, t.kind ≠ k

/-- A kind is not next exactly when the next token has another one. -/
@[simp] theorem notNext_cons {k : TokenKind} {t : Token} {ts : List Token} :
    NotNext k (t :: ts) ↔ t.kind ≠ k := by
  simp [NotNext]

/-- A token of one kind is of no other kind. -/
theorem notNext_of_kind {k l : TokenKind} {t : Token} {ts : List Token} (h : t.kind = l)
    (hk : l ≠ k) : NotNext k (t :: ts) := by
  rwa [notNext_cons, h]

/-- The kind that is not next is not that of the first token. -/
theorem NotNext.head?_ne {k : TokenKind} {ts : List Token} (h : NotNext k ts) :
    ts.head?.map Token.kind ≠ some k := by
  cases ts with
  | nil => simp
  | cons t ts => simpa using h

namespace Cursor

/-- The cursor in front of tokens without comments. -/
def facing (last stop : Span) (ts : List Token) : Cursor :=
  ⟨ts.map fun t => ⟨[], t⟩, [], [], last, stop⟩

variable {last stop : Span} {t : Token} {ts us : List Token}

/-- The rest of a facing cursor is its tokens, with no comments in front of any. -/
theorem rest_facing : (facing last stop ts).rest = ts.map fun t => ⟨[], t⟩ := rfl

/-- The next kind of a facing cursor is that of its first token. -/
@[simp] theorem kind?_facing : (facing last stop ts).kind? = ts.head?.map Token.kind := by
  cases ts <;> rfl

/-- A kind that is not next is not the next kind of the cursor. -/
theorem kind?_facing_ne {k : TokenKind} (h : NotNext k ts) :
    (facing last stop ts).kind? ≠ some k := by
  rw [kind?_facing]
  exact h.head?_ne

/-- Advancing by the length of a list of tokens passes it. -/
theorem advanceBy_facing :
    (facing last stop (ts ++ us)).advanceBy ts.length = facing (lastOf last ts) stop us := by
  induction ts generalizing last with
  | nil => rfl
  | cons t ts ih =>
    rw [lastOf_cons]
    exact ih

/-- A facing cursor has no comments to hand over. -/
@[simp] theorem takeComments_facing : (facing last stop ts).takeComments = facing last stop ts := by
  cases ts <;> rfl

/-- No comments wait at a facing cursor. -/
@[simp] theorem availableComments_facing : (facing last stop ts).availableComments = [] := by
  cases ts <;> rfl

end Cursor

namespace Parser

open Cursor

variable {α β σ : Type} {p : Parser α} {f : α → Parser β} {a : α} {c d : Cursor} {last stop : Span}
  {t : Token} {ts us vs : List Token}

/-! ## Sequences and repetition -/

/-- After a success, the second parser runs on the value read. -/
theorem run_bind_of_ok (h : p.run c = .ok a d) : (p >>= f).run c = (f a).run d := by
  rw [run_bind, h]

/-- A round that goes on hands its state to the next. -/
theorem run_iterate_of_next {step : σ → Parser (σ ⊕ α)} {hstep : ∀ s, (step s).Consumes} {s s' : σ}
    (h : (step s).run c = .ok (.inl s') d) :
    (iterate step hstep s).run c = (iterate step hstep s').run d := by
  rw [run_iterate, h]

/-- A round that ends gives the loop's value. -/
theorem run_iterate_of_last {step : σ → Parser (σ ⊕ α)} {hstep : ∀ s, (step s).Consumes} {s : σ}
    (h : (step s).run c = .ok (.inr a) d) : (iterate step hstep s).run c = .ok a d := by
  rw [run_iterate, h]

/-! ## Single steps -/

/-- An accepted token is taken. -/
theorem run_take {accepts : Token → Bool} {expected : String} (h : accepts t = true) :
    (take accepts expected).run (facing last stop (t :: ts)) = .ok t (facing t.span stop ts) :=
  if_pos h

/-- A token of the expected kind is taken. -/
theorem run_expect {k : TokenKind} (h : t.kind = k) :
    (expect k).run (facing last stop (t :: ts)) = .ok t (facing t.span stop ts) :=
  run_take (beq_iff_eq.2 h)

/-- Any token is taken where one of any kind is asked for. -/
theorem run_any : any.run (facing last stop (t :: ts)) = .ok t (facing t.span stop ts) :=
  run_take rfl

/-- A name is taken where one is expected. -/
theorem run_name {expected : String} (h : t.kind.isName = true) :
    (name expected).run (facing last stop (t :: ts)) = .ok t (facing t.span stop ts) :=
  run_take h

/-- A quoted string is taken as its value. -/
theorem run_string {expected : String} (h : t.kind.isString = true) :
    (string expected).run (facing last stop (t :: ts)) = .ok t.value (facing t.span stop ts) :=
  run_bind_of_ok (run_take h)

/-- A token of the optional kind is taken. -/
theorem run_accept {k : TokenKind} (h : t.kind = k) :
    (accept k).run (facing last stop (t :: ts)) = .ok true (facing t.span stop ts) :=
  if_pos (congrArg some h)

/-- Without a token of the optional kind, nothing is taken. -/
theorem run_accept_other {k : TokenKind} (h : NotNext k ts) :
    (accept k).run (facing last stop ts) = .ok false (facing last stop ts) :=
  if_neg (kind?_facing_ne h)

/-- A token of the kind in question is seen and left. -/
theorem run_at? {k : TokenKind} (h : t.kind = k) :
    (at? k).run (facing last stop (t :: ts)) = .ok true (facing last stop (t :: ts)) :=
  congrArg (Outcome.ok · _) (beq_iff_eq.2 (congrArg some h))

/-- The absence of the kind in question is seen. -/
theorem run_at?_other {k : TokenKind} (h : NotNext k ts) :
    (at? k).run (facing last stop ts) = .ok false (facing last stop ts) :=
  congrArg (Outcome.ok · _) (beq_eq_false_iff_ne.2 (kind?_facing_ne h))

/-- A choice by the token after the next one. -/
theorem run_secondKind?_bind {f : Option TokenKind → Parser β} :
    (secondKind? >>= f).run (facing last stop (t :: ts)) =
      (f (ts.head?.map Token.kind)).run (facing last stop (t :: ts)) := by
  cases ts <;> rfl

/-- The second kind is seen over the first token. -/
theorem run_secondKind?_bind_cons {f : Option TokenKind → Parser β} {u : Token} :
    (secondKind? >>= f).run (facing last stop (t :: u :: ts)) =
      (f (some u.kind)).run (facing last stop (t :: u :: ts)) := rfl

/-- A word that is next is seen and left. -/
theorem run_isWord {word : String} (h : t.isWord word = true) :
    (ahead fun ts => ts.head?.any fun t => t.token.isWord word).run (facing last stop (t :: ts)) =
      .ok true (facing last stop (t :: ts)) :=
  congrArg (Outcome.ok · _) h

/-- Where no identifier is next, no word is. -/
theorem run_isWord_other {word : String} (h : NotNext .identifier ts) :
    (ahead fun ts => ts.head?.any fun t => t.token.isWord word).run (facing last stop ts) =
      .ok false (facing last stop ts) := by
  refine congrArg (Outcome.ok · _) ?_
  cases ts with
  | nil => rfl
  | cons t ts =>
    rw [notNext_cons] at h
    simp [rest_facing, Token.isWord, h]

/-- Without comments there are none to take. -/
theorem run_takingComments (h : p.run (facing last stop ts) = .ok a d) :
    p.takingComments.run (facing last stop ts) = .ok (a, []) d := by
  simp only [takingComments, takeComments_facing, h, availableComments_facing]

end Parser

end SchemaDiagram.Document
