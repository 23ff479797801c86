import SchemaDiagram.Document.Setting

/-!
# Reading a part of a document

A part of a token list that ends where another construct opens is read as if it stood alone. To say
so, a cursor over the part is set into its surroundings (`Cursor.within`): diagnostics from before
the part, and tokens behind it, the first of which opens a construct. A parser is `Isolated` if
reading within the surroundings is reading alone, except that a part which ends too early finds a
token where it found the end of the document (`Diagnostic.within`).

A few parsers are only used where a token is ahead, and would run over the end of the part
elsewhere: they are `IsolatedAhead`. Reading the next token's kind and then choosing between such
parsers is isolated again (`isolated_kind?_bind`), if the choice does the same at the end of the
document and at a keyword that opens a construct.
-/

namespace SchemaDiagram.Document

/-- A keyword that opens a construct is no name. -/
theorem isName_eq_false_of_opensConstruct {k : TokenKind} (h : k.opensConstruct = true) :
    k.isName = false := by
  cases k with
  | keyword k => simpa [TokenKind.isName, TokenKind.opensConstruct] using h
  | _ => cases h

/-- A kind that opens a construct is not one that opens none. -/
theorem ne_of_opensConstruct {k l : TokenKind} (hk : k.opensConstruct = true)
    (hl : l.opensConstruct = false) : k ≠ l := by
  rintro rfl
  rw [hk] at hl
  cases hl

/-- What a part of a document stands in. -/
structure Surroundings where
  /-- The diagnostics from before the part. -/
  before : List Diagnostic
  /-- The tokens behind the part. -/
  behind : List CommentedToken
  /-- Where the document ends, if there are tokens behind the part. -/
  stop : Span
  /-- The first token behind the part opens a construct, and no colon follows it. -/
  opens : ∀ t ts, behind = t :: ts → t.token.kind.opensConstruct = true ∧
    ts.head?.map (·.token.kind) ≠ some (.mark .colon)

/-- Where the document ends, when the part alone ends at the given place. -/
def Surroundings.stopOf (s : Surroundings) (stop : Span) : Span :=
  match s.behind with
  | [] => stop
  | _ :: _ => s.stop

/-- A cursor over a part of a document, within its surroundings. -/
def Cursor.within (s : Surroundings) (c : Cursor) : Cursor :=
  { c with
    rest := c.rest ++ s.behind
    reported := s.before ++ c.reported
    stop := s.stopOf c.stop }

/-- What a failure at the given tokens is within the surroundings. Where the part alone had come to
its end, the first token behind it was found. -/
def Diagnostic.within (s : Surroundings) (rest : List CommentedToken) (d : Diagnostic) :
    Diagnostic :=
  match rest, s.behind, d with
  | [], t :: _, .unexpectedEnd expected _ => .unexpectedToken expected t.token.found t.token.span
  | _, _, d => d

/-- What a parser answers within the surroundings if it gives an answer for the part alone. -/
def Outcome.within {α : Type} (s : Surroundings) : Outcome α → Outcome α
  | ok a d => ok a (d.within s)
  | failed e d => failed (Diagnostic.within s d.rest e) (d.within s)

namespace Cursor

variable {s : Surroundings} {c : Cursor}

/-- Where a token of the part is ahead, its kind is the next one within the surroundings as well. -/
theorem kind?_within_of_ne_nil (h : c.rest ≠ []) : (c.within s).kind? = c.kind? := by
  obtain ⟨t, ts, hrest⟩ := List.exists_cons_of_ne_nil h
  simp [kind?, within, hrest]

/-- The next token's kind is none at the end of the part. Within the surroundings a keyword that
opens a construct may be there. -/
theorem kind?_within (s : Surroundings) (c : Cursor) :
    (c.within s).kind? = c.kind? ∨
      c.rest = [] ∧ ∃ k, (c.within s).kind? = some k ∧ k.opensConstruct = true := by
  cases hrest : c.rest with
  | cons t ts => exact Or.inl (kind?_within_of_ne_nil (by simp [hrest]))
  | nil =>
    cases hbehind : s.behind with
    | nil => simp [kind?, within, hrest, hbehind]
    | cons t ts =>
      refine Or.inr ⟨rfl, t.token.kind, ?_, (s.opens t ts hbehind).1⟩
      simp [kind?, within, hrest, hbehind]

/-- Whether a token of some other kind is next does not depend on the surroundings. -/
theorem kind?_within_eq_some_iff {k : TokenKind} (hk : k.opensConstruct = false) :
    (c.within s).kind? = some k ↔ c.kind? = some k := by
  rcases kind?_within s c with h | ⟨hrest, l, h, hl⟩
  · rw [h]
  · have hnone : c.kind? = none := by simp [kind?, hrest]
    rw [h, hnone]
    constructor
    · rintro ⟨⟩
      exact absurd rfl (ne_of_opensConstruct hl hk)
    · nofun

/-- With a token ahead, the kind behind it is that of the part, or is none there and opens a
construct within the surroundings. -/
theorem secondKind?_within_of_ne_nil (s : Surroundings) (h : c.rest ≠ []) :
    (c.within s).secondKind? = c.secondKind? ∨
      c.secondKind? = none ∧ ∃ k, (c.within s).secondKind? = some k ∧ k.opensConstruct = true := by
  obtain ⟨t, ts, hrest⟩ := List.exists_cons_of_ne_nil h
  cases ts with
  | cons u us => simp [secondKind?, within, hrest]
  | nil =>
    cases hbehind : s.behind with
    | nil => simp [secondKind?, within, hrest, hbehind]
    | cons u us =>
      refine Or.inr ⟨by simp [secondKind?, hrest], u.token.kind, ?_, (s.opens u us hbehind).1⟩
      simp [secondKind?, within, hrest, hbehind]

/-- The surroundings do not put a colon behind the next token. -/
theorem secondKind?_within (s : Surroundings) (c : Cursor) :
    (c.within s).secondKind? = c.secondKind? ∨
      c.secondKind? = none ∧ (c.within s).secondKind? ≠ some (.mark .colon) := by
  by_cases h : c.rest = []
  · cases hbehind : s.behind with
    | nil => simp [secondKind?, within, h, hbehind]
    | cons t ts =>
      refine Or.inr ⟨by simp [secondKind?, h], ?_⟩
      simpa [secondKind?, within, h, hbehind] using (s.opens t ts hbehind).2
  · refine (secondKind?_within_of_ne_nil s h).imp_right ?_
    rintro ⟨hnone, k, hk, hopens⟩
    refine ⟨hnone, ?_⟩
    rw [hk]
    rintro ⟨⟩
    cases hopens

/-- Passing tokens drops them from those ahead. -/
theorem rest_advanceBy (n : Nat) (c : Cursor) : (advanceBy n c).rest = c.rest.drop n := by
  induction n generalizing c with
  | zero => rfl
  | succ n ih =>
    rw [advanceBy, ih]
    cases hrest : c.rest <;> simp [advance, hrest]

/-- Where a token of the part is ahead, passing it is the same within the surroundings. -/
theorem advance_within (h : c.rest ≠ []) : (c.within s).advance = c.advance.within s := by
  obtain ⟨t, ts, hrest⟩ := List.exists_cons_of_ne_nil h
  simp [advance, within, hrest]

/-- Passing tokens of the part is the same within the surroundings. -/
theorem advanceBy_within {n : Nat} (h : n ≤ c.rest.length) :
    advanceBy n (c.within s) = (advanceBy n c).within s := by
  induction n generalizing c with
  | zero => rfl
  | succ n ih =>
    have hne : c.rest ≠ [] := List.ne_nil_of_length_pos (by omega)
    obtain ⟨t, ts, hrest⟩ := List.exists_cons_of_ne_nil hne
    have hn : n ≤ c.advance.rest.length := by
      simp only [hrest, List.length_cons] at h
      simp only [advance, hrest]
      omega
    rw [advanceBy, advance_within hne, ih hn]
    rfl

/-- Reporting is the same within the surroundings. -/
theorem report_within (d : Diagnostic) (c : Cursor) :
    (c.within s).report d = (c.report d).within s := by
  simp [report, within]

/-- Where a token of the part is ahead, its comments are taken away within the surroundings as well.
-/
theorem takeComments_within (h : c.rest ≠ []) :
    (c.within s).takeComments = c.takeComments.within s := by
  obtain ⟨t, ts, hrest⟩ := List.exists_cons_of_ne_nil h
  simp [takeComments, within, hrest]

/-- Where a token of the part is ahead, it has the same comments within the surroundings. -/
theorem availableComments_within (h : c.rest ≠ []) :
    (c.within s).availableComments = c.availableComments := by
  obtain ⟨t, ts, hrest⟩ := List.exists_cons_of_ne_nil h
  simp [availableComments, commentsAhead, within, hrest]

/-- Giving comments back is the same within the surroundings. -/
theorem restore_within (comments : List String) (c : Cursor) :
    (c.within s).restore comments = (c.restore comments).within s := rfl

/-- A complaint about the next token is about the first one behind the part where the part has
ended. -/
theorem unexpected_within (expected : String) (c : Cursor) :
    (c.within s).unexpected expected = Diagnostic.within s c.rest (c.unexpected expected) := by
  cases hrest : c.rest <;> cases hbehind : s.behind <;>
    simp [unexpected, within, Diagnostic.within, Surroundings.stopOf, hrest, hbehind]

end Cursor

namespace Parser

variable {α β σ : Type}

/-- Reading a part of a document within its surroundings is reading it alone. -/
def Isolated (p : Parser α) : Prop :=
  ∀ (s : Surroundings) (c : Cursor), p.run (c.within s) = (p.run c).within s

/-- The same, where a token of the part is ahead. -/
def IsolatedAhead (p : Parser α) : Prop :=
  ∀ (s : Surroundings) (c : Cursor), c.rest ≠ [] → p.run (c.within s) = (p.run c).within s

/-- What is isolated anywhere is isolated where a token is ahead. -/
theorem Isolated.whenAhead {p : Parser α} (h : p.Isolated) : p.IsolatedAhead := fun s c _ => h s c

/-! ## Sequences and repetition -/

/-- Reading nothing is isolated. -/
theorem isolated_pure (a : α) : (Pure.pure a : Parser α).Isolated := fun _ _ => rfl

/-- A sequence is read as alone, if its first part is read so here and its second part anywhere. -/
theorem run_bind_within {p : Parser α} {f : α → Parser β} {s : Surroundings} {c : Cursor}
    (hp : p.run (c.within s) = (p.run c).within s) (hf : ∀ a, (f a).Isolated) :
    (p >>= f).run (c.within s) = ((p >>= f).run c).within s := by
  rw [run_bind, run_bind, hp]
  cases p.run c with
  | ok a d => exact hf a s d
  | failed e d => rfl

/-- A sequence of isolated parts is isolated. -/
theorem Isolated.bind {p : Parser α} {f : α → Parser β} (hp : p.Isolated)
    (hf : ∀ a, (f a).Isolated) : (p >>= f).Isolated :=
  fun s c => run_bind_within (hp s c) hf

/-- Where a token is ahead, only the first part of a sequence starts there. -/
theorem IsolatedAhead.bind {p : Parser α} {f : α → Parser β} (hp : p.IsolatedAhead)
    (hf : ∀ a, (f a).Isolated) : (p >>= f).IsolatedAhead :=
  fun s c h => run_bind_within (hp s c h) hf

/-- Changing the value keeps a parser isolated. -/
theorem Isolated.map {p : Parser α} (hp : p.Isolated) (f : α → β) : (f <$> p).Isolated :=
  hp.bind fun _ => isolated_pure _

/-- One round of a repetition. -/
theorem run_iterate {step : σ → Parser (σ ⊕ α)} (h : ∀ s, (step s).Consumes) (s : σ) (c : Cursor) :
    (iterate step h s).run c =
      match (step s).run c with
      | .ok (.inl s') d => (iterate step h s').run d
      | .ok (.inr a) d => .ok a d
      | .failed e d => .failed e d := by
  show iterate.loop step h s c = _
  rw [iterate.loop]
  split
  · next hr => rw [hr]; rfl
  · next hr => rw [hr]
  · next hr => rw [hr]

/-- A repetition of isolated rounds is isolated. -/
theorem isolated_iterate {step : σ → Parser (σ ⊕ α)} (h : ∀ s, (step s).Consumes)
    (hstep : ∀ s, (step s).Isolated) (s : σ) : (iterate step h s).Isolated := by
  intro w c
  show _ = (iterate.loop step h s c).within w
  fun_induction iterate.loop step h s c with
  | case1 s c s' d hr ih =>
    rw [run_iterate, hstep, hr]
    exact ih
  | case2 s c a d hr =>
    rw [run_iterate, hstep, hr]
    rfl
  | case3 s c e d hr =>
    rw [run_iterate, hstep, hr]
    rfl

/-! ## Single steps -/

/-- The place of the token that was read last lies in the part. -/
theorem isolated_lastSpan : lastSpan.Isolated := fun _ _ => rfl

/-- A complaint about the next token is isolated. -/
theorem isolated_unexpected (expected : String) : (unexpected expected : Parser α).Isolated := by
  intro s c
  show Outcome.failed ((c.within s).unexpected expected) (c.within s) = _
  rw [Cursor.unexpected_within]
  rfl

/-- Complaining about an open block is isolated: it does not look at the tokens ahead. -/
theorem isolated_fail_unclosedBlock (construct name : String) (span : Span) :
    (fail (.unclosedBlock construct name span) : Parser α).Isolated := by
  intro s c
  show Outcome.failed _ (c.within s) = Outcome.failed _ (c.within s)
  congr 1
  unfold Diagnostic.within
  split
  · contradiction
  · rfl

/-- Reporting is isolated. -/
theorem isolated_report (d : Diagnostic) : (report d).Isolated := by
  intro s c
  show Outcome.ok () ((c.within s).report d) = _
  rw [Cursor.report_within]
  rfl

/-- Where a token is ahead, taking it does not come to the end of the part. -/
theorem isolatedAhead_take (accepts : Token → Bool) (expected : String) :
    (take accepts expected).IsolatedAhead := by
  intro s c h
  obtain ⟨t, ts, hrest⟩ := List.exists_cons_of_ne_nil h
  have hwithin : (c.within s).rest = t :: (ts ++ s.behind) := by simp [Cursor.within, hrest]
  have hunexpected := c.unexpected_within (s := s) expected
  simp only [take, hwithin, hrest]
  by_cases haccepts : accepts t.token = true
  · rw [if_pos haccepts, if_pos haccepts, Cursor.advance_within h]
    rfl
  · rw [if_neg haccepts, if_neg haccepts, hunexpected]
    rfl

/-- A token that opens no construct is not found behind the part. -/
theorem isolated_take {accepts : Token → Bool}
    (h : ∀ t, t.kind.opensConstruct = true → accepts t = false) (expected : String) :
    (take accepts expected).Isolated := by
  intro s c
  by_cases hrest : c.rest = []
  · have hunexpected := c.unexpected_within (s := s) expected
    have halone : (take accepts expected).run c = .failed (c.unexpected expected) c := by
      simp [take, hrest]
    rw [halone]
    show _ = Outcome.failed (Diagnostic.within s c.rest (c.unexpected expected)) (c.within s)
    rw [← hunexpected]
    cases hbehind : s.behind with
    | nil => simp [take, Cursor.within, hrest, hbehind]
    | cons t ts => simp [take, Cursor.within, hrest, hbehind, h _ (s.opens t ts hbehind).1]
  · exact isolatedAhead_take accepts expected s c hrest

/-- Expecting a token is isolated, if no such token opens a construct. -/
theorem isolated_expect {k : TokenKind} (hk : k.opensConstruct = false) : (expect k).Isolated := by
  refine isolated_take (fun t ht => ?_) _
  rw [beq_eq_false_iff_ne]
  exact ne_of_opensConstruct ht hk

/-- Where a token is ahead, any token is taken from the part. -/
theorem isolatedAhead_any : any.IsolatedAhead := isolatedAhead_take _ _

/-- Where a token is ahead, the place of the next token lies in the part. -/
theorem isolatedAhead_nextSpan : nextSpan.IsolatedAhead := by
  intro s c h
  obtain ⟨t, ts, hrest⟩ := List.exists_cons_of_ne_nil h
  simp [nextSpan, Cursor.within, Outcome.within, hrest]

/-- Looking for a kind is isolated, if that kind opens no construct. -/
theorem isolated_at? {k : TokenKind} (hk : k.opensConstruct = false) : (at? k).Isolated := by
  intro s c
  show Outcome.ok ((c.within s).kind? == some k) (c.within s) = .ok (c.kind? == some k) (c.within s)
  have hkind : ((c.within s).kind? == some k) = (c.kind? == some k) := by
    rw [Bool.eq_iff_iff, beq_iff_eq, beq_iff_eq]
    exact Cursor.kind?_within_eq_some_iff hk
  rw [hkind]

/-- Taking a token of a kind if it is there is isolated, if that kind opens no construct. -/
theorem isolated_accept {k : TokenKind} (hk : k.opensConstruct = false) : (accept k).Isolated := by
  intro s c
  simp only [accept, Cursor.kind?_within_eq_some_iff hk]
  by_cases hkind : c.kind? = some k
  · have hne : c.rest ≠ [] := by
      intro hrest
      simp [Cursor.kind?, hrest] at hkind
    rw [if_pos hkind, if_pos hkind, Cursor.advance_within hne]
    rfl
  · rw [if_neg hkind, if_neg hkind]
    rfl

/-- Where a token is ahead, reading with its comments is isolated. -/
theorem Isolated.takingComments {p : Parser α} (hp : p.Isolated) :
    p.takingComments.IsolatedAhead := by
  intro s c h
  simp only [Parser.takingComments, Cursor.takeComments_within h, hp s c.takeComments,
    Cursor.availableComments_within h]
  cases p.run c.takeComments with
  | ok a d => rfl
  | failed e d => rfl

/-! ## Choices by the next tokens -/

/-- A choice by the next token's kind, which takes the same way at the end of the document and at a
keyword that opens a construct. -/
theorem isolated_kind?_bind {f : Option TokenKind → Parser α}
    (hopens : ∀ k, k.opensConstruct = true → f (some k) = f none) (hnone : (f none).Isolated)
    (hsome : ∀ k, (f (some k)).IsolatedAhead) : (kind? >>= f).Isolated := by
  intro s c
  show (f (c.within s).kind?).run (c.within s) = ((f c.kind?).run c).within s
  rcases Cursor.kind?_within s c with h | ⟨hrest, k, h, hk⟩
  · rw [h]
    cases hkind : c.kind? with
    | none => exact hnone s c
    | some k =>
      refine hsome k s c ?_
      intro hrest
      simp [Cursor.kind?, hrest] at hkind
  · have hkind : c.kind? = none := by simp [Cursor.kind?, hrest]
    rw [h, hkind, hopens k hk]
    exact hnone s c

/-- A choice by whether a token of some other kind is next. -/
theorem isolated_at?_bind {k : TokenKind} (hk : k.opensConstruct = false) {p q : Parser α}
    (hp : p.IsolatedAhead) (hq : q.Isolated) :
    (at? k >>= fun found => if found = true then p else q).Isolated := by
  intro s c
  show (if ((c.within s).kind? == some k) = true then p else q).run (c.within s) =
    ((if (c.kind? == some k) = true then p else q).run c).within s
  simp only [beq_iff_eq, Cursor.kind?_within_eq_some_iff hk]
  by_cases hkind : c.kind? = some k
  · rw [if_pos hkind]
    refine hp s c ?_
    intro hrest
    simp [Cursor.kind?, hrest] at hkind
  · rw [if_neg hkind]
    exact hq s c

/-- A choice by the kind of the second token, where only a colon there makes a difference. -/
theorem isolated_secondKind?_bind {f : Option TokenKind → Parser α}
    (hcolon : ∀ k, k ≠ .mark .colon → f (some k) = f none) (hnone : (f none).Isolated)
    (hsome : (f (some (.mark .colon))).IsolatedAhead) : (secondKind? >>= f).Isolated := by
  have hplain : ∀ k, k ≠ some (.mark .colon) → f k = f none := by
    intro k hk
    cases k with
    | none => rfl
    | some k => exact hcolon k fun h => hk (congrArg some h)
  intro s c
  show (f (c.within s).secondKind?).run (c.within s) = ((f c.secondKind?).run c).within s
  rcases Cursor.secondKind?_within s c with h | ⟨hnil, h⟩
  · rw [h]
    by_cases hk : c.secondKind? = some (.mark .colon)
    · rw [hk]
      refine hsome s c ?_
      intro hrest
      simp [Cursor.secondKind?, hrest] at hk
    · rw [hplain _ hk]
      exact hnone s c
  · rw [hplain _ h, hnil]
    exact hnone s c

/-- A choice by the kind of the second token with a token ahead, which takes the same way at the
end of the document and at a keyword that opens a construct. -/
theorem isolatedAhead_secondKind?_bind {f : Option TokenKind → Parser α}
    (hopens : ∀ k, k.opensConstruct = true → f (some k) = f none)
    (hf : ∀ second, (f second).IsolatedAhead) : (secondKind? >>= f).IsolatedAhead := by
  intro s c hrest
  show (f (c.within s).secondKind?).run (c.within s) = ((f c.secondKind?).run c).within s
  rcases Cursor.secondKind?_within_of_ne_nil s hrest with h | ⟨hnil, k, h, hk⟩
  · rw [h]
    exact hf _ s c hrest
  · rw [h, hnil, hopens k hk]
    exact hf none s c hrest

end Parser

end SchemaDiagram.Document
