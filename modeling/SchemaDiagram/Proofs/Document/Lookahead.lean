import SchemaDiagram.Proofs.Document.Isolated
import SchemaDiagram.Proofs.Document.Plain

/-!
# How far parsers look ahead

What stands far behind the tokens that a parser takes does not matter. `Parser.LooksAhead k` says
that no more than `k` tokens behind them do: with other tokens further behind, the parser answers
the same. The answer is compared where it is known to leave as many tokens in front of the exchanged
ones (`Outcome.Leaves`), since only then has the parser not come to them. A failure may have looked
at one token more, so it has to leave two.

With `k = 0` the exchanged tokens come right behind those that are taken. Entries of a list of
settings are read like that, provided that a comma or the closing bracket comes next in both cases.

There is one rule for each way to put parsers together. The rules for sequences are
`LooksAhead.bind` and, where what comes second takes a token, `LooksAhead.bind_consumes`.
-/

namespace SchemaDiagram.Document

/-! ## Tokens behind the ones ahead -/

/-- Whether the next kind ends an entry of a list of settings. -/
def EntryEnds (next : Option TokenKind) : Prop :=
  next = some (.mark .comma) ∨ next = some (.mark .rightBracket)

/-- What ends an entry is of no other kind than a comma or the closing bracket. -/
theorem EntryEnds.ne {next : Option TokenKind} (h : EntryEnds next) {k : TokenKind}
    (hcomma : k ≠ .mark .comma) (hbracket : k ≠ .mark .rightBracket) : next ≠ some k := by
  rintro rfl
  rcases h with h | h
  · exact hcomma (Option.some.inj h)
  · exact hbracket (Option.some.inj h)

/-- The kind of the first one of some tokens. -/
def firstKind? (r : List CommentedToken) : Option TokenKind := r.head?.map (·.token.kind)

/-- A cursor with more tokens behind those ahead. -/
def Cursor.before (r : List CommentedToken) (c : Cursor) : Cursor := { c with rest := c.rest ++ r }

/-- An answer with more tokens behind those ahead. -/
def Outcome.before {α : Type} (r : List CommentedToken) : Outcome α → Outcome α
  | ok a d => ok a (d.before r)
  | failed e d => failed e (d.before r)

/-- In front of `n` tokens a value leaves `k` tokens or more, and a failure two at least. -/
def Outcome.Leaves {α : Type} (k n : Nat) : Outcome α → Prop
  | ok _ d => n + k ≤ d.rest.length
  | failed _ d => n + max k 2 ≤ d.rest.length

/-- What an answer leaves was ahead before it. -/
theorem Outcome.Leaves.le {α : Type} {k n : Nat} {o : Outcome α} (h : o.Leaves k n) {c : Cursor}
    (hreaches : c.Reaches o.cursor) : n + k ≤ c.rest.length := by
  have hle := hreaches.length_le
  cases o with
  | ok a d => exact Nat.le_trans h hle
  | failed e d => exact Nat.le_trans (by omega) (Nat.le_trans h hle)

namespace Cursor

variable {c : Cursor} {r : List CommentedToken}

/-- More tokens behind are that many tokens more ahead. -/
theorem length_before (r : List CommentedToken) (c : Cursor) :
    (c.before r).rest.length = c.rest.length + r.length := List.length_append

/-- Tokens can be put behind in two parts. -/
theorem before_append (c : Cursor) (r r' : List CommentedToken) :
    c.before (r ++ r') = (c.before r).before r' := by
  simp [before]

/-- Where a token is ahead, passing it does not depend on those behind. -/
theorem advance_before (h : c.rest ≠ []) : (c.before r).advance = c.advance.before r := by
  obtain ⟨t, ts, hrest⟩ := List.exists_cons_of_ne_nil h
  simp [advance, before, hrest]

/-- Passing tokens that are ahead does not depend on those behind. -/
theorem advanceBy_before {n : Nat} (h : n ≤ c.rest.length) :
    advanceBy n (c.before r) = (advanceBy n c).before r := by
  induction n generalizing c with
  | zero => rfl
  | succ n ih =>
    have hne : c.rest ≠ [] := List.ne_nil_of_length_pos (by omega)
    have hn : n ≤ c.advance.rest.length := by
      have := c.rest_advanceBy 1
      rw [advanceBy, advanceBy] at this
      rw [this, List.length_drop]
      omega
    rw [advanceBy, advance_before hne, ih hn]
    rfl

/-- Where a token is ahead, its kind does not depend on those behind. -/
theorem kind?_before (h : c.rest ≠ []) : (c.before r).kind? = c.kind? := by
  obtain ⟨t, ts, hrest⟩ := List.exists_cons_of_ne_nil h
  simp [kind?, before, hrest]

/-- Where two tokens are ahead, the kind of the second does not depend on those behind. -/
theorem secondKind?_before (h : 2 ≤ c.rest.length) : (c.before r).secondKind? = c.secondKind? := by
  rcases hrest : c.rest with _ | ⟨t, _ | ⟨u, us⟩⟩
  · rw [hrest] at h
    cases h
  · rw [hrest] at h
    simp at h
  · simp [secondKind?, before, hrest]

/-- A kind that is next is that of a token ahead. -/
theorem ne_nil_of_kind? {l : TokenKind} (h : c.kind? = some l) : c.rest ≠ [] := by
  intro hrest
  rw [kind?, hrest] at h
  cases h

/-- Passing a token leaves those behind it, so it was in front of them. -/
theorem ne_nil_of_length_le_advance (hne : (c.before r).rest ≠ [])
    (h : r.length ≤ (c.before r).advance.rest.length) : c.rest ≠ [] := by
  have hlt := length_advance_lt hne
  rw [length_before] at hlt
  exact List.ne_nil_of_length_pos (by omega)

/-- Where a token is ahead, taking its comments away does not depend on the tokens behind. -/
theorem takeComments_before (h : c.rest ≠ []) :
    (c.before r).takeComments = c.takeComments.before r := by
  obtain ⟨t, ts, hrest⟩ := List.exists_cons_of_ne_nil h
  simp [takeComments, before, hrest]

/-- Where a token is ahead, passing it without its comments does not depend on the tokens behind. -/
theorem takeComments_advance_before (h : c.rest ≠ []) :
    (c.before r).takeComments.advance = c.takeComments.advance.before r := by
  obtain ⟨t, ts, hrest⟩ := List.exists_cons_of_ne_nil h
  simp [takeComments, advance, before, hrest]

/-- The first token of a cursor is the same with other tokens behind. -/
theorem exists_rest_before (h : c.rest ≠ []) :
    ∃ t ts, c.rest = t :: ts ∧ ∀ r, (c.before r).rest = t :: (ts ++ r) := by
  obtain ⟨t, ts, hrest⟩ := List.exists_cons_of_ne_nil h
  exact ⟨t, ts, hrest, fun r => by rw [before, hrest, List.cons_append]⟩

/-- Where a token is ahead, its comments do not depend on the tokens behind. -/
theorem availableComments_before (h : c.rest ≠ []) :
    (c.before r).availableComments = c.availableComments := by
  obtain ⟨t, ts, hrest⟩ := List.exists_cons_of_ne_nil h
  simp [availableComments, commentsAhead, before, hrest]

/-- Where a token is ahead, a complaint about it does not depend on the tokens behind. -/
theorem unexpected_before (h : c.rest ≠ []) (expected : String) :
    (c.before r).unexpected expected = c.unexpected expected := by
  obtain ⟨t, ts, hrest⟩ := List.exists_cons_of_ne_nil h
  simp [unexpected, before, hrest]

end Cursor

/-! ## Rules -/

namespace Parser

variable {α β σ : Type} {p : Parser α} {f : α → Parser β} {k : Nat} {c : Cursor}

/-- Behind the tokens that a parser takes, it looks at no more than `k`; with `k = 0` only at
whether the next one ends an entry. -/
def LooksAhead (k : Nat) (p : Parser α) : Prop :=
  ∀ (c : Cursor) (r : List CommentedToken), (k = 0 → EntryEnds (firstKind? r)) →
    (p.run (c.before r)).Leaves k r.length →
      ∃ o : Outcome α, ∀ r', (k = 0 → EntryEnds (firstKind? r')) → p.run (c.before r') = o.before r'

/-- With at least one token in between, an answer is the same in front of any tokens. -/
theorem LooksAhead.exists_answer (h : p.LooksAhead (k + 1)) {r : List CommentedToken}
    (hleaves : (p.run (c.before r)).Leaves (k + 1) r.length) :
    ∃ o : Outcome α, ∀ r', p.run (c.before r') = o.before r' := by
  obtain ⟨o, ho⟩ := h c r (absurd · (Nat.succ_ne_zero k)) hleaves
  exact ⟨o, fun r' => ho r' (absurd · (Nat.succ_ne_zero k))⟩

/-- A value is the same with other tokens further behind. -/
theorem LooksAhead.exists_ok (h : p.LooksAhead k) {r : List CommentedToken}
    (hr : k = 0 → EntryEnds (firstKind? r)) {a : α} {d : Cursor}
    (hread : p.run (c.before r) = .ok a d) (hlength : r.length + k ≤ d.rest.length) :
    ∃ e : Cursor, d = e.before r ∧
      ∀ r', (k = 0 → EntryEnds (firstKind? r')) → p.run (c.before r') = .ok a (e.before r') := by
  obtain ⟨o, ho⟩ := h c r hr (by rw [hread]; exact hlength)
  have hsame := (ho r hr).symm.trans hread
  cases o with
  | failed x e => cases hsame
  | ok b e =>
    obtain ⟨rfl, rfl⟩ := Outcome.ok.inj hsame
    exact ⟨e, rfl, ho⟩

/-- With at least one token in between, a value is the same in front of any tokens. -/
theorem LooksAhead.exists_value (h : p.LooksAhead (k + 1)) {r : List CommentedToken} {a : α}
    {d : Cursor} (hread : p.run (c.before r) = .ok a d) (hlength : r.length + k < d.rest.length) :
    ∃ e : Cursor, d = e.before r ∧ ∀ r', p.run (c.before r') = .ok a (e.before r') := by
  obtain ⟨e, he, hsame⟩ := h.exists_ok (absurd · (Nat.succ_ne_zero k)) hread hlength
  exact ⟨e, he, fun r' => hsame r' (absurd · (Nat.succ_ne_zero k))⟩

/-- The first part of a sequence leaves what the whole sequence leaves. -/
theorem leaves_of_bind {n : Nat} (h : ((p >>= f).run c).Leaves k n) : (p.run c).Leaves k n := by
  rw [run_bind] at h
  cases hread : p.run c with
  | ok a d =>
    rw [hread] at h
    exact h.le ((f a).reaches d)
  | failed e d =>
    rw [hread] at h
    exact h

/-- Reading nothing looks at nothing. -/
theorem looksAhead_pure (a : α) : (Pure.pure a : Parser α).LooksAhead k :=
  fun c _ _ _ => ⟨.ok a c, fun _ _ => rfl⟩

/-- A sequence looks as far ahead as its parts do. -/
theorem LooksAhead.bind (hp : p.LooksAhead k) (hf : ∀ a, (f a).LooksAhead k) :
    (p >>= f).LooksAhead k := by
  intro c r hr hleaves
  obtain ⟨o, ho⟩ := hp c r hr (leaves_of_bind hleaves)
  cases o with
  | ok a d =>
    rw [run_bind, ho r hr] at hleaves
    obtain ⟨o, ho'⟩ := hf a d r hr hleaves
    exact ⟨o, fun r' hr' => by rw [run_bind, ho r' hr']; exact ho' r' hr'⟩
  | failed e d => exact ⟨.failed e d, fun r' hr' => by rw [run_bind, ho r' hr']; rfl⟩

/-- Changing the value makes a parser look no further. -/
theorem LooksAhead.map (hp : p.LooksAhead k) (g : α → β) : (g <$> p).LooksAhead k :=
  hp.bind fun _ => looksAhead_pure _

/-- What takes a token and leaves one had two tokens ahead. -/
theorem add_le_of_consumes {n : Nat} (hp : p.Consumes) (h : (p.run c).Leaves k n) :
    n + min (k + 1) 2 ≤ c.rest.length := by
  cases hread : p.run c with
  | ok a d =>
    have hlt := hp c a d hread
    rw [hread] at h
    have hle : n + k ≤ d.rest.length := h
    omega
  | failed e d =>
    have hreaches := (p.reaches c).length_le
    rw [hread] at h hreaches
    have hle : n + max k 2 ≤ d.rest.length := h
    have hleft : d.rest.length ≤ c.rest.length := hreaches
    omega

/-- What takes a token may come behind a parser that looks one token further. -/
theorem LooksAhead.bind_consumes (hp : p.LooksAhead 2) (hf : ∀ a, (f a).LooksAhead 1)
    (hconsumes : ∀ a, (f a).Consumes) : (p >>= f).LooksAhead 1 := by
  intro c r _ hleaves
  have hfirst : (p.run (c.before r)).Leaves 2 r.length := by
    rw [run_bind] at hleaves
    cases hread : p.run (c.before r) with
    | ok a d =>
      rw [hread] at hleaves
      exact add_le_of_consumes (hconsumes a) hleaves
    | failed e d =>
      rw [hread] at hleaves
      exact hleaves
  obtain ⟨o, ho⟩ := hp.exists_answer hfirst
  cases o with
  | ok a d =>
    rw [run_bind, ho r] at hleaves
    obtain ⟨o, ho'⟩ := (hf a).exists_answer hleaves
    exact ⟨o, fun r' _ => by rw [run_bind, ho r']; exact ho' r'⟩
  | failed e d => exact ⟨.failed e d, fun r' _ => by rw [run_bind, ho r']; rfl⟩

/-- A repetition looks as far ahead as its rounds do. -/
theorem looksAhead_iterate {step : σ → Parser (σ ⊕ α)} (h : ∀ s, (step s).Consumes)
    (hstep : ∀ s, (step s).LooksAhead k) (s : σ) : (iterate step h s).LooksAhead k := by
  intro c r hr hleaves
  induction hn : c.rest.length using Nat.strongRecOn generalizing s c with
  | _ n ih =>
    have hfirst : ((step s).run (c.before r)).Leaves k r.length := by
      rw [run_iterate] at hleaves
      rcases hread : (step s).run (c.before r) with ⟨s' | a, d⟩ | ⟨e, d⟩
      · rw [hread] at hleaves
        exact hleaves.le ((iterate step h s').reaches d)
      · rw [hread] at hleaves
        exact hleaves
      · rw [hread] at hleaves
        exact hleaves
    obtain ⟨o, ho⟩ := hstep s c r hr hfirst
    rcases o with ⟨s' | a, d⟩ | ⟨e, d⟩
    · have hlt := h s _ _ _ (ho r hr)
      rw [Cursor.length_before, Cursor.length_before] at hlt
      rw [run_iterate, ho r hr] at hleaves
      obtain ⟨o, ho'⟩ := ih d.rest.length (by omega) s' d hleaves rfl
      exact ⟨o, fun r' hr' => by rw [run_iterate, ho r' hr']; exact ho' r' hr'⟩
    · exact ⟨.ok a d, fun r' hr' => by rw [run_iterate, ho r' hr']; rfl⟩
    · exact ⟨.failed e d, fun r' hr' => by rw [run_iterate, ho r' hr']; rfl⟩

/-- A token is left in front of the exchanged ones. -/
theorem ne_nil_of_leaves {r : List CommentedToken}
    (h : (p.run (c.before r)).Leaves (k + 1) r.length) : c.rest ≠ [] := by
  have hle := h.le (p.reaches _)
  rw [Cursor.length_before] at hle
  exact List.ne_nil_of_length_pos (by omega)

/-- Taking comments away first makes a parser look no further, if it leaves a token. -/
theorem LooksAhead.takingComments (hp : p.LooksAhead (k + 1)) :
    p.takingComments.LooksAhead (k + 1) := by
  intro c r _ hleaves
  have hne := ne_nil_of_leaves hleaves
  have hrun (r' : List CommentedToken) : p.takingComments.run (c.before r') =
      match p.run (c.takeComments.before r') with
      | .ok a d => .ok (a, c.availableComments) d
      | .failed e d => .failed e (d.restore c.availableComments) := by
    show (match p.run (c.before r').takeComments with
      | .ok a d => Outcome.ok (a, (c.before r').availableComments) d
      | .failed e d => .failed e (d.restore (c.before r').availableComments)) = _
    rw [Cursor.takeComments_before hne, Cursor.availableComments_before hne]
  have hfirst : (p.run (c.takeComments.before r)).Leaves (k + 1) r.length := by
    rw [hrun] at hleaves
    cases hread : p.run (c.takeComments.before r) with
    | ok a d =>
      rw [hread] at hleaves
      exact hleaves
    | failed e d =>
      rw [hread] at hleaves
      exact hleaves
  obtain ⟨o, ho⟩ := hp.exists_answer hfirst
  cases o with
  | ok a d => exact ⟨.ok (a, c.availableComments) d, fun r' _ => by rw [hrun, ho r']; rfl⟩
  | failed e d =>
    exact ⟨.failed e (d.restore c.availableComments), fun r' _ => by rw [hrun, ho r']; rfl⟩

/-! ### Single steps -/

/-- The place of the token that was read last is known without a look ahead. -/
theorem looksAhead_lastSpan : lastSpan.LooksAhead k :=
  fun c _ _ _ => ⟨.ok c.last c, fun _ _ => rfl⟩

/-- Reporting looks at nothing. -/
theorem looksAhead_report (d : Diagnostic) : (report d).LooksAhead k :=
  fun c _ _ _ => ⟨.ok () (c.report d), fun _ _ => rfl⟩

/-- Failing looks at nothing. -/
theorem looksAhead_fail (d : Diagnostic) : (fail d : Parser α).LooksAhead k :=
  fun c _ _ _ => ⟨.failed d c, fun _ _ => rfl⟩

/-- A complaint looks at the next token, which a failure leaves. -/
theorem looksAhead_unexpected (expected : String) :
    (unexpected expected : Parser α).LooksAhead k := by
  intro c r _ hleaves
  have hlength : r.length + max k 2 ≤ c.rest.length + r.length := by
    rw [← Cursor.length_before]
    exact hleaves
  have hne : c.rest ≠ [] := List.ne_nil_of_length_pos (by omega)
  refine ⟨.failed (c.unexpected expected) c, fun r' _ => ?_⟩
  show Outcome.failed ((c.before r').unexpected expected) (c.before r') = _
  rw [Cursor.unexpected_before hne]
  rfl

/-- Taking a token looks at that token only. -/
theorem looksAhead_take (accepts : Token → Bool) (expected : String) :
    (take accepts expected).LooksAhead k := by
  intro c r _ hleaves
  rcases hrest : c.rest with _ | ⟨t, ts⟩
  · -- a token would be taken from behind, or the failure would be there
    exfalso
    have hbefore : (c.before r).rest = r := by rw [Cursor.before, hrest, List.nil_append]
    rcases run_take_cases accepts expected (c.before r) with ⟨u, us, hcons, -, hread⟩ | hread
    · rw [hread] at hleaves
      have hlt :=
        Cursor.length_advance_lt (c := c.before r) (by rw [hcons]; exact List.cons_ne_nil _ _)
      rw [hbefore] at hlt
      exact absurd (Nat.le_trans (Nat.le_add_right _ _) hleaves) (Nat.not_le.2 hlt)
    · rw [hread] at hleaves
      have hlength : r.length + max k 2 ≤ (c.before r).rest.length := hleaves
      rw [hbefore] at hlength
      omega
  · have hne : c.rest ≠ [] := by simp [hrest]
    have hrun (r' : List CommentedToken) : (take accepts expected).run (c.before r') =
        if accepts t.token then .ok t.token (c.advance.before r')
        else .failed (c.unexpected expected) (c.before r') := by
      have hbefore : (c.before r').rest = t :: (ts ++ r') := by simp [Cursor.before, hrest]
      rw [← Cursor.advance_before hne, ← Cursor.unexpected_before (r := r') hne]
      simp only [take, hbefore]
    by_cases haccepts : accepts t.token = true
    · exact ⟨.ok t.token c.advance, fun r' _ => by rw [hrun, if_pos haccepts]; rfl⟩
    · exact ⟨.failed (c.unexpected expected) c, fun r' _ => by rw [hrun, if_neg haccepts]; rfl⟩

/-- Expecting a token looks at that token only. -/
theorem looksAhead_expect (l : TokenKind) : (expect l).LooksAhead k := looksAhead_take _ _

/-- Any token is taken with a look at that token only. -/
theorem looksAhead_any : any.LooksAhead k := looksAhead_take _ _

/-- A name is taken with a look at that token only. -/
theorem looksAhead_name (expected : String) : (name expected).LooksAhead k := looksAhead_take _ _

/-- A text in quotes is taken with a look at that token only. -/
theorem looksAhead_string (expected : String) : (string expected).LooksAhead k :=
  (looksAhead_take _ _).bind fun _ => looksAhead_pure _

/-- Passing tokens looks one token ahead at most: where fewer are left, all of them go. -/
theorem looksAhead_skip (n : Nat) : (skip n).LooksAhead (k + 1) := by
  intro c r _ hleaves
  have hlength : r.length + (k + 1) ≤ ((c.before r).advanceBy n).rest.length := hleaves
  rw [Cursor.rest_advanceBy, List.length_drop, Cursor.length_before] at hlength
  refine ⟨.ok () (c.advanceBy n), fun r' _ => ?_⟩
  show Outcome.ok () ((c.before r').advanceBy n) = _
  rw [Cursor.advanceBy_before (by omega)]
  rfl

/-- A view that is the same with other tokens behind the next `k`. -/
theorem looksAhead_ahead (view : List CommentedToken → α)
    (hview : ∀ ts r r' : List CommentedToken, k ≤ ts.length →
      (k = 0 → EntryEnds (firstKind? r) ∧ EntryEnds (firstKind? r')) →
        view (ts ++ r') = view (ts ++ r)) : (ahead view).LooksAhead k := by
  intro c r hr hleaves
  have hlength : r.length + k ≤ c.rest.length + r.length := by
    rw [← Cursor.length_before]
    exact hleaves
  refine ⟨.ok (view (c.rest ++ r)) c, fun r' hr' => ?_⟩
  show Outcome.ok (view (c.rest ++ r')) (c.before r') = _
  rw [hview c.rest r r' (by omega) fun hk => ⟨hr hk, hr' hk⟩]
  rfl

/-- A view of the next token. -/
theorem looksAhead_ahead_head? (view : Option CommentedToken → α)
    (hview : k = 0 → ∀ t u : CommentedToken, EntryEnds (some t.token.kind) →
      EntryEnds (some u.token.kind) → view (some t) = view (some u)) :
    (ahead fun ts => view ts.head?).LooksAhead k := by
  refine looksAhead_ahead (fun ts => view ts.head?) fun ts r r' hk hends => ?_
  cases ts with
  | cons t ts => rfl
  | nil =>
    have hzero : k = 0 := Nat.le_zero.1 hk
    obtain ⟨hr, hr'⟩ := hends hzero
    cases r with
    | nil => rcases hr with h | h <;> cases h
    | cons t ts =>
      cases r' with
      | nil => rcases hr' with h | h <;> cases h
      | cons u us => exact hview hzero u t hr' hr

/-- The kind of the next token is one token ahead. -/
theorem looksAhead_kind? : Parser.kind?.LooksAhead (k + 1) := by
  refine looksAhead_ahead_head? (fun t => t.map (·.token.kind)) fun hk => ?_
  exact absurd hk (Nat.succ_ne_zero k)

/-- The kind of the second token is two tokens ahead. -/
theorem looksAhead_secondKind? : Parser.secondKind?.LooksAhead 2 := by
  intro c r _ hleaves
  have hlength : r.length + 2 ≤ (c.before r).rest.length := hleaves
  rw [Cursor.length_before] at hlength
  refine ⟨.ok c.secondKind? c, fun r' _ => ?_⟩
  exact congrArg (Outcome.ok · _) (Cursor.secondKind?_before (by omega))

/-- A kind that ends no entry is missing wherever an entry ends. -/
theorem looksAhead_at? {l : TokenKind} (hcomma : l ≠ .mark .comma)
    (hbracket : l ≠ .mark .rightBracket) : (at? l).LooksAhead k := by
  refine looksAhead_ahead_head? (fun t => t.map (·.token.kind) == some l)
    fun _ t u ht hu => ?_
  have hother (t : CommentedToken) (ht : EntryEnds (some t.token.kind)) :
      (some t.token.kind == some l) = false :=
    beq_eq_false_iff_ne.2 (ht.ne hcomma hbracket)
  exact (hother t ht).trans (hother u hu).symm

/-- The place of the next token is one token ahead. -/
theorem looksAhead_nextSpan : nextSpan.LooksAhead (k + 1) := by
  intro c r _ hleaves
  obtain ⟨t, ts, hrest⟩ := List.exists_cons_of_ne_nil (ne_nil_of_leaves hleaves)
  refine ⟨.ok t.token.span c, fun r' _ => ?_⟩
  have hbefore : (c.before r').rest = t :: (ts ++ r') := by simp [Cursor.before, hrest]
  simp only [nextSpan, hbefore]
  rfl

/-- Taking a token of a kind if it is there looks one token ahead. -/
theorem looksAhead_accept (l : TokenKind) : (accept l).LooksAhead (k + 1) := by
  intro c r _ hleaves
  have hne := ne_nil_of_leaves hleaves
  by_cases hkind : c.kind? = some l
  · refine ⟨.ok true c.advance, fun r' _ => ?_⟩
    simp only [accept, Cursor.kind?_before hne, if_pos hkind, Cursor.advance_before hne]
    rfl
  · refine ⟨.ok false c, fun r' _ => ?_⟩
    simp only [accept, Cursor.kind?_before hne, if_neg hkind]
    rfl

/-- A word is no comma or bracket. -/
theorem looksAhead_isWord (word : String) :
    (ahead fun ts => ts.head?.any fun t => t.token.isWord word).LooksAhead k := by
  refine looksAhead_ahead_head? (fun t => t.any fun t => t.token.isWord word)
    fun _ t u ht hu => ?_
  have hother (t : CommentedToken) (ht : EntryEnds (some t.token.kind)) :
      t.token.isWord word = false := by
    have hkind : t.token.kind ≠ .identifier := fun h =>
      ht.ne (k := .identifier) (by decide) (by decide) (congrArg some h)
    simp [Token.isWord, hkind]
  exact (hother t ht).trans (hother u hu).symm

end Parser

end SchemaDiagram.Document
