import SchemaDiagram.Proofs.Document.Recovery

/-!
# Attempts

Reading a document is a row of attempts to read a construct, each of which starts where the one
before it left off. An attempt that succeeds files a construct, one that fails reports a diagnostic
and gives back the comments that it took.

Main statement: `readConstructs_of_cons`, one attempt and the rest of the reading. What each attempt
does, the reading does by induction along `attempts`.
-/

namespace SchemaDiagram.Document

/-! ## The tokens that take part in the structure -/

/-- The tokens in front of the end of the document that are no comments. -/
def structuralTokens (ts : List Token) : List Token :=
  (ts.takeWhile fun t => t.kind ≠ .endOfInput).filter fun t => t.kind ≠ .comment

/-- Gathering comments keeps the structural tokens. -/
theorem tokens_gatherComments (comments : List String) (ts : List Token) :
    (gatherComments comments ts).1.map (·.token) = structuralTokens ts := by
  induction ts generalizing comments with
  | nil => rfl
  | cons t ts ih =>
    unfold structuralTokens at ih ⊢
    rw [gatherComments]
    by_cases hend : t.kind = .endOfInput
    · simp [hend]
    by_cases hcomment : t.kind = .comment
    · rw [if_neg hend, if_pos hcomment, ih]
      simp [hcomment]
    · rw [if_neg hend, if_neg hcomment]
      simp [hend, hcomment, ih]

/-- A document's cursor is at its first structural token. -/
theorem tokens_ofTokens (ts : List Token) : (Cursor.ofTokens ts).tokens = structuralTokens ts :=
  tokens_gatherComments [] ts

/-! ## One attempt after another -/

/-- An attempt to read a construct. -/
structure Attempt where
  /-- In front of the first token. -/
  start : Cursor
  /-- The construct that was read, without comments, or why there is none. -/
  outcome : Outcome Construct

/-- The construct that an attempt files, with the comments in front of it. -/
def Attempt.filed? (a : Attempt) : Option Construct :=
  match a.outcome with
  | .ok x _ => some (x.withComments a.start.availableComments)
  | .failed _ _ => none

/-- The diagnostic of an attempt that fails. -/
def Attempt.diagnostic? (a : Attempt) : Option Diagnostic :=
  match a.outcome with
  | .ok _ _ => none
  | .failed e _ => some e

/-- An attempt that reads a construct files it with the comments that waited. -/
@[simp] theorem Attempt.filed?_ok (c : Cursor) (x : Construct) (d : Cursor) :
    Attempt.filed? ⟨c, .ok x d⟩ = some (x.withComments c.availableComments) := rfl

/-- An attempt that fails files nothing. -/
@[simp] theorem Attempt.filed?_failed (c : Cursor) (e : Diagnostic) (d : Cursor) :
    Attempt.filed? ⟨c, .failed e d⟩ = none := rfl

/-- An attempt that reads a construct gives no diagnostic of its own. -/
@[simp] theorem Attempt.diagnostic?_ok (c : Cursor) (x : Construct) (d : Cursor) :
    Attempt.diagnostic? ⟨c, .ok x d⟩ = none := rfl

/-- An attempt that fails gives its diagnostic. -/
@[simp] theorem Attempt.diagnostic?_failed (c : Cursor) (e : Diagnostic) (d : Cursor) :
    Attempt.diagnostic? ⟨c, .failed e d⟩ = some e := rfl

/-- An attempt with a diagnostic has failed. -/
theorem Attempt.exists_of_diagnostic? {c : Cursor} {o : Outcome Construct} {e : Diagnostic}
    (h : e ∈ Attempt.diagnostic? ⟨c, o⟩) : ∃ d, o = .failed e d := by
  cases o with
  | ok x d => cases h
  | failed e' d =>
    cases h
    exact ⟨d, rfl⟩

/-- An attempt either files a construct or fails with a diagnostic. -/
theorem Attempt.length_filed?_add (a : Attempt) :
    a.filed?.toList.length + a.diagnostic?.toList.length = 1 := by
  unfold filed? diagnostic?
  cases a.outcome <;> rfl

namespace Cursor

/-- What comes of reading a construct that starts with the token `t`. The comments in front of it
are taken away. -/
def construct (c : Cursor) (t : Token) : Outcome Construct :=
  match Parser.construct? t.kind with
  | none => .failed c.noConstruct c.takeComments
  | some construct => (construct t.span).run c.takeComments.advance

/-- Where the next construct may start, behind an attempt that started at `c`. -/
def behind (c : Cursor) : Outcome Construct → Cursor
  | .ok _ d => d
  | .failed e d => ((d.restore c.availableComments).report e).resume

variable {c : Cursor} {t : CommentedToken} {ts : List CommentedToken}

/-- At a token that opens no construct, the attempt fails at once. -/
theorem construct_of_none {u : Token} (hk : Parser.construct? u.kind = none) :
    c.construct u = .failed c.noConstruct c.takeComments := by
  simp only [construct, hk]

/-- At a token that opens a construct, the attempt is that construct's parser. -/
theorem construct_of_some {u : Token} {construct : Span → Parser Construct}
    (hk : Parser.construct? u.kind = some construct) :
    c.construct u = (construct u.span).run c.takeComments.advance := by
  simp only [Cursor.construct, hk]

/-- A construct that is read is the one of its keyword. -/
theorem exists_of_construct {u : Token} {x : Construct} {d : Cursor}
    (h : c.construct u = .ok x d) :
    ∃ construct, Parser.construct? u.kind = some construct ∧
      (construct u.span).run c.takeComments.advance = .ok x d := by
  cases hk : Parser.construct? u.kind with
  | none =>
    rw [construct_of_none hk] at h
    cases h
  | some construct => exact ⟨construct, rfl, (construct_of_some hk).symm.trans h⟩

/-- An attempt moves on from where it starts. -/
theorem reaches_construct (c : Cursor) (u : Token) : c.Reaches (c.construct u).cursor := by
  cases hk : Parser.construct? u.kind with
  | none =>
    rw [construct_of_none hk]
    exact c.reaches_takeComments
  | some construct =>
    rw [construct_of_some hk]
    exact (c.reaches_takeComments.trans c.takeComments.reaches_advance).trans
      ((construct u.span).reaches _)

/-- Reading goes on from a place that the attempt's start reaches. -/
theorem reaches_behind (c : Cursor) (u : Token) : c.Reaches (c.behind (c.construct u)) := by
  have hconstruct := c.reaches_construct u
  rcases hread : c.construct u with ⟨x, d⟩ | ⟨e, d⟩
  · rw [hread] at hconstruct
    exact hconstruct
  · rw [hread] at hconstruct
    have hrestore := hconstruct.restore c.availableComments_subset
    exact (hrestore.trans (reaches_report _ _)).trans (reaches_advanceBy _ _)

/-- An attempt that fails reports its diagnostic behind those of reading the construct. -/
theorem reported_behind (c : Cursor) (o : Outcome Construct) :
    (c.behind o).reported = o.cursor.reported ++ (Attempt.diagnostic? ⟨c, o⟩).toList := by
  cases o with
  | ok x d => exact (List.append_nil _).symm
  | failed e d => exact Cursor.reported_resume _

/-- Reading goes on no earlier than the attempt has come. -/
theorem length_behind_le (c : Cursor) (o : Outcome Construct) :
    (c.behind o).rest.length ≤ o.cursor.rest.length := by
  cases o with
  | ok x d => exact Nat.le_refl _
  | failed e d => exact ((d.restore c.availableComments).report e).length_resume_le

/-- Handing over comments empties those of the next token and those that wait. -/
theorem takeComments_of_cons (hrest : c.rest = t :: ts) :
    c.takeComments = { c with rest := { t with comments := [] } :: ts, pending := [] } := by
  rw [takeComments, hrest]

/-- Behind the next token are the tokens that followed it. -/
theorem rest_takeComments_advance (hrest : c.rest = t :: ts) :
    c.takeComments.advance.rest = ts := by
  rw [takeComments_of_cons hrest]
  rfl

/-- Passing a token that opens no construct takes the comments before it along. -/
theorem resume_restore_takeComments (hrest : c.rest = t :: ts)
    (hk : t.token.kind.opensConstruct = false) (e : Diagnostic) :
    ((c.takeComments.restore c.availableComments).report e).resume = (c.report e).resume := by
  obtain ⟨n, hn⟩ : ∃ n, ∀ comments, resumeLength ({ t with comments } :: ts) = n + 1 := by
    by_cases hbrace : t.token.kind = .mark .rightBrace
    · exact ⟨0, fun _ => by rw [resumeLength, if_pos hbrace]⟩
    · exact ⟨resumeLength ts, fun _ => by rw [resumeLength, if_neg hbrace, hk]; rfl⟩
  have htaken : ((c.takeComments.restore c.availableComments).report e).rest =
      { t with comments := [] } :: ts := by
    rw [takeComments_of_cons hrest]
    rfl
  have hreported : (c.report e).rest = { t with comments := t.comments } :: ts := hrest
  rw [resume, resume, htaken, hreported, hn, hn, advanceBy, advanceBy]
  refine congrArg (advanceBy n) ?_
  simp [takeComments_of_cons hrest, restore, report, advance, availableComments, commentsAhead,
    hrest]

/-- An attempt takes its first token. -/
theorem length_behind_lt (hrest : c.rest = t :: ts) :
    (c.behind (c.construct t.token)).rest.length < c.rest.length := by
  cases hk : Parser.construct? t.token.kind with
  | none =>
    have hopens := Parser.opensConstruct_of_construct?_eq_none hk
    rw [construct_of_none hk, behind, resume_restore_takeComments hrest hopens]
    exact length_resume_lt (c := c.report _) hrest hopens
  | some construct =>
    have hreaches := ((construct t.token.span).reaches c.takeComments.advance).length_le
    rw [rest_takeComments_advance hrest] at hreaches
    rw [construct_of_some hk, hrest]
    exact Nat.lt_succ_of_le (Nat.le_trans (c.length_behind_le _) hreaches)

/-- Behind an attempt, no more is ahead than behind its first token. -/
theorem suffix_behind (hrest : c.rest = t :: ts) :
    (c.behind (c.construct t.token)).tokens <:+ ts.map (·.token) := by
  have hsuffix := (c.reaches_behind t.token).suffix
  have hlt := length_behind_lt hrest
  have htokens : c.tokens = t.token :: ts.map (·.token) := by rw [tokens, hrest, List.map_cons]
  rw [htokens] at hsuffix
  refine (List.suffix_cons_iff.1 hsuffix).resolve_left fun hall => ?_
  have hlength := congrArg List.length hall
  rw [← htokens, tokens, tokens, List.length_map, List.length_map] at hlength
  exact absurd hlength (Nat.ne_of_lt hlt)

end Cursor

/-- The attempts of reading the constructs ahead. -/
def attempts (c : Cursor) : List Attempt :=
  match _next : c.rest with
  | [] => []
  | t :: _ => ⟨c, c.construct t.token⟩ :: attempts (c.behind (c.construct t.token))
termination_by c.rest.length
decreasing_by exact Cursor.length_behind_lt _next

/-- The first attempt is to read a construct that starts with the next token. -/
theorem attempts_of_cons {c : Cursor} {t : CommentedToken} {ts : List CommentedToken}
    (hrest : c.rest = t :: ts) :
    attempts c = ⟨c, c.construct t.token⟩ :: attempts (c.behind (c.construct t.token)) := by
  conv => lhs; unfold attempts
  split
  · next hnil =>
    rw [hrest] at hnil
    cases hnil
  · next hcons =>
    obtain ⟨rfl, -⟩ := List.cons.inj (hrest.symm.trans hcons)
    rfl

/-- The attempt at the next token is one of the attempts. -/
theorem first_mem_attempts {c : Cursor} {t : CommentedToken} {ts : List CommentedToken}
    (hrest : c.rest = t :: ts) : ⟨c, c.construct t.token⟩ ∈ attempts c := by
  rw [attempts_of_cons hrest]
  exact List.mem_cons_self

/-- Every attempt either files a construct or gives a diagnostic. -/
theorem length_attempts (tries : List Attempt) :
    tries.length = (tries.filterMap Attempt.filed?).length +
      (tries.filterMap Attempt.diagnostic?).length := by
  induction tries with
  | nil => rfl
  | cons a tries ih =>
    have hone := a.length_filed?_add
    have hcons {β : Type} (f : Attempt → Option β) :
        ((a :: tries).filterMap f).length = (f a).toList.length + (tries.filterMap f).length := by
      rw [List.filterMap_cons]
      cases f a with
      | none => exact (Nat.zero_add _).symm
      | some b => exact Nat.add_comm _ _
    rw [hcons, hcons, List.length_cons]
    omega

/-- One attempt and the rest of the reading. -/
theorem readConstructs_of_cons {c : Cursor} {t : CommentedToken} {ts : List CommentedToken}
    (hrest : c.rest = t :: ts) :
    readConstructs c =
      ((Attempt.filed? ⟨c, c.construct t.token⟩).toList ++
          (readConstructs (c.behind (c.construct t.token))).1,
        (readConstructs (c.behind (c.construct t.token))).2) := by
  cases hk : Parser.construct? t.token.kind with
  | none =>
    have hopens := Parser.opensConstruct_of_construct?_eq_none hk
    rw [readConstructs_of_none hrest hk, Cursor.construct_of_none hk, Cursor.behind,
      Cursor.resume_restore_takeComments hrest hopens]
    rfl
  | some construct =>
    rw [Cursor.construct_of_some hk]
    rcases hread : (construct t.token.span).run c.takeComments.advance with ⟨x, d⟩ | ⟨e, d⟩
    · exact readConstructs_of_ok hrest hk hread
    · exact readConstructs_of_failed hrest hk hread

/-- The constructs of a document are those that the attempts file. -/
theorem constructs_eq_filterMap_attempts (c : Cursor) :
    (readConstructs c).1 = (attempts c).filterMap Attempt.filed? := by
  fun_induction attempts c with
  | case1 c hrest => rw [readConstructs_of_nil hrest, List.filterMap_nil]
  | case2 c t ts hrest ih =>
    rw [readConstructs_of_cons hrest, ih, List.filterMap_cons]
    cases Attempt.filed? ⟨c, c.construct t.token⟩ <;> rfl

end SchemaDiagram.Document
