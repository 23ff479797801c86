import SchemaDiagram.Proofs.Document.Facing

/-!
# What holds behind a value

A parser that reads a value leaves the cursor behind it. `Parser.Ensures` is what then holds of the
value and that cursor, with one rule for each way to put parsers together; for a repetition it takes
an invariant of the states and the cursors between the rounds. Nothing is said of failures.

The rules are used here for what every parser does to a cursor: it passes tokens and remembers the
span of the last one (`Cursor.Passes`). For a plain parser that is `Plain.ensures_passes`.
-/

namespace SchemaDiagram.Document

open Grammar

/-! ## Passing tokens -/

namespace Cursor

/-- Tokens were passed between the cursors, and the span of the last one is remembered. -/
def Passes (c d : Cursor) : Prop :=
  ∃ us : List Token, c.tokens = us ++ d.tokens ∧ d.last = lastOf c.last us

variable {c d e : Cursor}

/-- Passing no tokens is passing. -/
theorem Passes.refl (c : Cursor) : c.Passes c := ⟨[], rfl, rfl⟩

/-- Passing tokens and then more is passing them all. -/
theorem Passes.trans (h : c.Passes d) (k : d.Passes e) : c.Passes e := by
  obtain ⟨us, htokens, hlast⟩ := h
  obtain ⟨vs, htokens', hlast'⟩ := k
  refine ⟨us ++ vs, ?_, ?_⟩
  · rw [htokens, htokens', List.append_assoc]
  · rw [hlast', hlast, lastOf_append]

/-- The tokens left are an end of those before. -/
theorem Passes.suffix (h : c.Passes d) : d.tokens <:+ c.tokens := by
  obtain ⟨us, htokens, -⟩ := h
  exact ⟨us, htokens.symm⟩

/-- Advancing passes a token. -/
theorem passes_advance (c : Cursor) : c.Passes c.advance := by
  unfold advance
  rcases hrest : c.rest with _ | ⟨t, ts⟩
  · exact .refl c
  · exact ⟨[t.token], by simp [tokens, hrest], rfl⟩

/-- Handing over comments leaves the tokens. -/
theorem tokens_takeComments (c : Cursor) : c.takeComments.tokens = c.tokens := by
  unfold takeComments tokens
  cases c.rest <;> rfl

/-- Handing over comments leaves the token read last. -/
theorem last_takeComments (c : Cursor) : c.takeComments.last = c.last := by
  unfold takeComments
  split <;> rfl

/-- Handing over comments passes nothing. -/
theorem passes_takeComments (c : Cursor) : c.Passes c.takeComments :=
  ⟨[], c.tokens_takeComments.symm, c.last_takeComments⟩

/-- The next kind is that of the first token. -/
theorem kind?_of_tokens {t : Token} {ts : List Token} (h : c.tokens = t :: ts) :
    c.kind? = some t.kind := by
  have hhead := congrArg (fun ts => ts.head?.map Token.kind) h
  rwa [tokens, List.head?_map, Option.map_map] at hhead

/-- Passing a token that is there. -/
theorem exists_of_kind? {k : TokenKind} (h : c.kind? = some k) :
    ∃ t : Token, c.tokens = t :: c.advance.tokens ∧ c.advance.last = t.span := by
  unfold kind? at h
  rcases hrest : c.rest with _ | ⟨t, ts⟩
  · rw [hrest] at h
    cases h
  · exact ⟨t.token, by simp [tokens, advance, hrest], by simp [advance, hrest]⟩

/-- A move that files nothing passes tokens. -/
theorem Moves.passes (h : c.Moves d) : c.Passes d := by
  induction h with
  | refl => exact .refl _
  | advance _ ih => exact ih.trans (passes_advance _)
  | report _ _ _ ih => exact (ih.trans (passes_advance _)).trans (passes_advance _)

end Cursor

/-! ## Values and the cursors behind them -/

namespace Parser

variable {α β σ : Type} {p : Parser α} {f : α → Parser β} {c : Cursor} {P : α → Cursor → Prop}
  {Q : β → Cursor → Prop}

/-- What holds of a value that is read at the cursor, and of the cursor behind it. -/
def Ensures (p : Parser α) (c : Cursor) (P : α → Cursor → Prop) : Prop :=
  ∀ a d, p.run c = .ok a d → P a d

namespace Ensures

/-- A value that is returned leaves the cursor where it is. -/
theorem pure {a : α} (h : P a c) : (Pure.pure a : Parser α).Ensures c P := by
  rintro _ _ ⟨⟩
  exact h

/-- A failure reads no value, so it ensures anything. -/
theorem fail (e : Diagnostic) : (Parser.fail e : Parser α).Ensures c P := nofun

/-- A refusal reads no value, so it ensures anything. -/
theorem unexpected (expected : String) :
    (Parser.unexpected expected : Parser α).Ensures c P :=
  nofun

/-- What is ensured may be weakened. -/
theorem mono {P' : α → Cursor → Prop} (h : p.Ensures c P) (hP : ∀ a d, P a d → P' a d) :
    p.Ensures c P' :=
  fun a d hr => hP a d (h a d hr)

/-- What is ensured twice is ensured together. -/
theorem and {P' : α → Cursor → Prop} (h : p.Ensures c P) (k : p.Ensures c P') :
    p.Ensures c fun a d => P a d ∧ P' a d :=
  fun a d hr => ⟨h a d hr, k a d hr⟩

/-- In sequence, the second parser starts where the first one left off. -/
theorem bind (h : p.Ensures c fun a d => (f a).Ensures d Q) : (p >>= f).Ensures c Q := by
  intro b e hr
  obtain ⟨a, d, hd, hr⟩ := exists_of_run_bind hr
  exact h a d hd b e hr

/-- What comes first makes no difference. -/
theorem later (p : Parser α) (h : ∀ a d, (f a).Ensures d Q) : (p >>= f).Ensures c Q :=
  bind fun a d _ => h a d

/-- What is ensured of a value is ensured of its image. -/
theorem map {g : α → β} (h : p.Ensures c fun a d => Q (g a) d) : (g <$> p).Ensures c Q :=
  bind (h.mono fun _ _ => pure)

/-- The token that is read is the next one, and the last one behind it. -/
theorem take (accepts : Token → Bool) (expected : String) :
    (take accepts expected).Ensures c fun t d =>
      accepts t = true ∧ d = c.advance ∧ c.tokens = t :: d.tokens ∧ d.last = t.span := by
  intro t d hr
  rcases run_take_cases accepts expected c with ⟨u, us, hrest, haccepts, hread⟩ | hread
  · rw [hread] at hr
    cases hr
    refine ⟨haccepts, rfl, ?_, ?_⟩
    · simp [Cursor.tokens, Cursor.advance, hrest]
    · simp [Cursor.advance, hrest]
  · rw [hread] at hr
    cases hr

/-- What holds between the rounds of a repetition, and what the last round makes of it. -/
theorem iterate {I : σ → Cursor → Prop} {step : σ → Parser (σ ⊕ α)} {h : ∀ s, (step s).Consumes}
    (hstep : ∀ s d, I s d → (step s).Ensures d fun r e => r.elim (I · e) (P · e)) {s : σ}
    (hs : I s c) : (iterate step h s).Ensures c P := by
  intro a d hr
  change iterate.loop step h s c = _ at hr
  fun_induction iterate.loop step h s c with
  | case1 s c s' e hround ih => exact ih (hstep s c hs _ _ hround) hr
  | case2 s c b e hround =>
    cases hr
    exact hstep s c hs _ _ hround
  | case3 s c b e hround => cases hr

/-- With comments filed, what is ensured of the value without them holds. -/
theorem takingComments (h : p.Ensures c.takeComments P) :
    p.takingComments.Ensures c fun r d => P r.1 d :=
  fun r d hr => h r.1 d (run_of_run_takingComments hr)

/-- What holds between the entries of a block holds in front of its closing brace. -/
theorem block {I : σ → Cursor → Prop} {construct name : String} {opening : Span}
    {entry : σ → TokenKind → Parser σ} {h : ∀ s k, (entry s k).Consumes}
    (hentry : ∀ s k d, I s d → (entry s k).Ensures d I) {s : σ} (hs : I s c) :
    (block construct name opening entry h s).Ensures c fun s d =>
      ∃ e, I s e ∧ e.kind? = some (.mark .rightBrace) ∧ d = e.advance := by
  refine iterate (fun s d hd => bind ?_) hs
  rintro _ _ ⟨⟩
  cases hkind : d.kind? with
  | none => exact fail _
  | some k =>
    simp only
    split
    · next hbrace =>
      refine bind ((take _ _).mono ?_)
      rintro _ _ ⟨-, rfl, -, -⟩
      exact pure ⟨d, hd, by rw [hkind, hbrace], rfl⟩
    split
    · exact fail _
    · exact bind ((hentry s k d hd).mono fun t e ht => pure ht)

end Ensures

/-- A plain parser only passes tokens. -/
theorem Plain.ensures_passes (h : p.Plain) (c : Cursor) : p.Ensures c fun _ d => c.Passes d := by
  intro a d hr
  rcases h.movesAt c with ⟨b, e, hread, hmoves⟩ | ⟨e, e', hread, -⟩
  · rw [hread] at hr
    cases hr
    exact hmoves.passes
  · rw [hread] at hr
    cases hr

end Parser

end SchemaDiagram.Document
