import SchemaDiagram.Proofs.Document.Passed

/-!
# In front of known tokens, with comments among them

What a cursor has ahead is told by its tokens (`Cursor.tokens`), whatever comments stand before them.
These are the single steps in front of such tokens, where the cursor behind them is the one with so
many tokens passed. Going the other way, a sequence that answers has read each of its parts.
-/

namespace SchemaDiagram.Document

variable {c d : Cursor} {t : Token} {ts us : List Token}

namespace Cursor

/-- The first token ahead is the first of the rest. -/
theorem exists_rest_of_tokens (h : c.tokens = t :: ts) :
    ∃ u us, c.rest = u :: us ∧ u.token = t ∧ us.map (·.token) = ts := by
  rcases hrest : c.rest with _ | ⟨u, us⟩
  · rw [tokens, hrest] at h
    cases h
  · rw [tokens, hrest, List.map_cons] at h
    exact ⟨u, us, rfl, (List.cons.inj h).1, (List.cons.inj h).2⟩

/-- Advancing drops the first token ahead. -/
theorem tokens_advance (h : c.tokens = t :: ts) : c.advance.tokens = ts := by
  obtain ⟨u, us, hrest, -, hus⟩ := exists_rest_of_tokens h
  rw [advance, hrest]
  exact hus

/-- Advancing by several tokens drops as many. -/
theorem tokens_advanceBy (n : Nat) (c : Cursor) : (c.advanceBy n).tokens = c.tokens.drop n := by
  rw [tokens, rest_advanceBy, List.map_drop]
  rfl

/-- Advancing by the length of a list of tokens drops it. -/
theorem tokens_advanceBy_of_append (h : c.tokens = ts ++ us) :
    (c.advanceBy ts.length).tokens = us := by
  rw [tokens_advanceBy, h, List.drop_left]

/-- Advancing by a sum is advancing by each summand in turn. -/
theorem advanceBy_add (m n : Nat) (c : Cursor) :
    advanceBy (m + n) c = advanceBy n (advanceBy m c) := by
  induction m generalizing c with
  | zero => rw [Nat.zero_add, advanceBy]
  | succ m ih => rw [Nat.succ_add, advanceBy, ih, advanceBy]

/-- The next kind is that of the first token ahead. -/
theorem kind?_eq (c : Cursor) : c.kind? = c.tokens.head?.map (·.kind) := by
  rw [kind?, tokens, List.head?_map, Option.map_map]
  rfl

/-- The second kind is that of the first token behind the next one. -/
theorem secondKind?_of_tokens (h : c.tokens = t :: ts) :
    c.secondKind? = ts.head?.map (·.kind) := by
  obtain ⟨u, us, hrest, -, hus⟩ := exists_rest_of_tokens h
  rw [secondKind?, hrest, ← hus, List.tail_cons, List.head?_map, Option.map_map]
  rfl

end Cursor

namespace Parser

variable {α β : Type} {p : Parser α} {f : α → Parser β} {b : β}

/-- An accepted token that is ahead is taken. -/
theorem run_take_of_tokens {accepts : Token → Bool} {expected : String}
    (h : c.tokens = t :: ts) (haccepts : accepts t = true) :
    (take accepts expected).run c = .ok t c.advance := by
  obtain ⟨u, us, hrest, rfl, -⟩ := Cursor.exists_rest_of_tokens h
  simp only [take, hrest, if_pos haccepts]

/-- An expected token that is ahead is taken. -/
theorem run_expect_of_tokens {k : TokenKind} (h : c.tokens = t :: ts) (hk : t.kind = k) :
    (expect k).run c = .ok t c.advance :=
  run_take_of_tokens h (beq_iff_eq.2 hk)

/-- What was taken stood next. -/
theorem exists_of_run_take {accepts : Token → Bool} {expected : String}
    (h : (take accepts expected).run c = .ok t d) :
    accepts t = true ∧ c.tokens = t :: d.tokens ∧ d = c.advance := by
  obtain ⟨haccepts, hd, htokens, -⟩ := Ensures.take accepts expected t d h
  exact ⟨haccepts, htokens, hd⟩

/-- An expected token that has been taken was ahead. -/
theorem exists_of_run_expect {k : TokenKind} (h : (expect k).run c = .ok t d) :
    t.kind = k ∧ c.tokens = t :: d.tokens ∧ d = c.advance :=
  (exists_of_run_take h).imp_left beq_iff_eq.1

end Parser

end SchemaDiagram.Document
