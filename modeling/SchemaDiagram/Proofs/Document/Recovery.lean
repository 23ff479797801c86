import SchemaDiagram.Proofs.Document.Isolated

/-!
# Recovery

A construct that cannot be read does no harm to the constructs behind it. Whatever stands in front
of a keyword that opens a construct, the constructs from the keyword on are read as if the document
started there, and those in front of it as if the document ended there. Two things pass between the
parts: comments that no construct of the first part took go to the first construct of the second,
and a construct that the first part leaves unfinished is reported at the keyword and not at the end
of the document.

Main statement: `ofTokens_append`. It is put together from two runs: reading the first part within
its surroundings (`readConstructs_within`), and reading the second part with diagnostics and
comments already there (`readConstructs_after`). Both are by induction along `readConstructs`.
-/

namespace SchemaDiagram.Document

/-! ## One construct -/

/-- Every keyword that opens a construct selects the parser of one. -/
theorem exists_construct_of_opensConstruct {k : TokenKind} (h : k.opensConstruct = true) :
    ∃ construct, Parser.construct? k = some construct := by
  cases hk : Parser.construct? k with
  | some construct => exact ⟨construct, rfl⟩
  | none =>
    rw [Parser.opensConstruct_of_construct?_eq_none hk] at h
    cases h

/-- What is wrong with a token that opens no construct where one is expected. -/
def Cursor.noConstruct (c : Cursor) : Diagnostic :=
  c.unexpected "'Project', 'Table', 'Ref' or 'Area'"

/-- Reading goes on construct by construct. -/
theorem readConstructs_eq (c : Cursor) :
    readConstructs c =
      match c.rest with
      | [] => ([], c)
      | t :: _ =>
        match Parser.construct? t.token.kind with
        | none => readConstructs (c.report c.noConstruct).resume
        | some construct =>
          match (construct t.token.span).run c.takeComments.advance with
          | .ok x d =>
            (x.withComments c.availableComments :: (readConstructs d).1, (readConstructs d).2)
          | .failed e d => readConstructs ((d.restore c.availableComments).report e).resume := by
  conv => lhs; rw [readConstructs]
  split
  · next hrest => rw [hrest]
  · next hrest =>
    rw [hrest]
    simp only
    split
    · next hk =>
      rw [hk]
      rfl
    · next construct hk =>
      rw [hk]
      simp only
      split
      · next hread => rw [hread]
      · next hread => rw [hread]

/-- At the end, no construct is read. -/
theorem readConstructs_of_nil {c : Cursor} (h : c.rest = []) : readConstructs c = ([], c) := by
  rw [readConstructs_eq, h]

section Step

variable {c : Cursor} {t : CommentedToken} {ts : List CommentedToken} (hrest : c.rest = t :: ts)
include hrest

/-- Where no construct can start, that is reported and reading resumes at the next one. -/
theorem readConstructs_of_none (hk : Parser.construct? t.token.kind = none) :
    readConstructs c = readConstructs (c.report c.noConstruct).resume := by
  rw [readConstructs_eq, hrest]
  simp only [hk]

variable {construct : Span → Parser Construct}

/-- A construct that is read is followed by the constructs behind it. -/
theorem readConstructs_of_ok (hk : Parser.construct? t.token.kind = some construct) {x : Construct}
    {d : Cursor} (hread : (construct t.token.span).run c.takeComments.advance = .ok x d) :
    readConstructs c =
      (x.withComments c.availableComments :: (readConstructs d).1, (readConstructs d).2) := by
  rw [readConstructs_eq, hrest]
  simp only [hk, hread]

/-- A construct that fails is reported, its comments are given back, and reading resumes at the
next. -/
theorem readConstructs_of_failed (hk : Parser.construct? t.token.kind = some construct)
    {e : Diagnostic} {d : Cursor}
    (hread : (construct t.token.span).run c.takeComments.advance = .failed e d) :
    readConstructs c = readConstructs ((d.restore c.availableComments).report e).resume := by
  rw [readConstructs_eq, hrest]
  simp only [hk, hread]

end Step

/-! ## The part in front of a construct -/

/-- How far recovery resumes does not depend on what stands behind the part. -/
theorem resumeLength_within (s : Surroundings) (ts : List CommentedToken) :
    resumeLength (ts ++ s.behind) = resumeLength ts := by
  induction ts with
  | nil =>
    cases hbehind : s.behind with
    | nil => rfl
    | cons t us =>
      have hopens := (s.opens t us hbehind).1
      have hbrace : t.token.kind ≠ .mark .rightBrace := ne_of_opensConstruct hopens rfl
      simp only [List.nil_append, resumeLength]
      rw [if_neg hbrace, if_pos hopens]
  | cons t ts ih => simp only [List.cons_append, resumeLength, ih]

/-- Recovery resumes within the tokens left. -/
theorem resumeLength_le (ts : List CommentedToken) : resumeLength ts ≤ ts.length := by
  induction ts with
  | nil => exact Nat.le_refl 0
  | cons t ts ih =>
    rw [resumeLength, List.length_cons]
    split
    · omega
    split
    · omega
    · omega

/-- Recovery within surroundings is that of the part alone. -/
theorem Cursor.resume_within (s : Surroundings) (c : Cursor) :
    (c.within s).resume = c.resume.within s := by
  unfold resume
  rw [← advanceBy_within (resumeLength_le c.rest)]
  exact congrArg (advanceBy · (c.within s)) (resumeLength_within s c.rest)

/-- At the end, recovery stays there. -/
theorem Cursor.resume_of_nil {c : Cursor} (h : c.rest = []) : c.resume = c := by
  rw [resume, h]
  rfl

/-- Diagnostics of a part, and the same within its surroundings: if the part ends in the middle of a
construct, the last one tells of the token behind the part. -/
def DiagnosticsWithin (s : Surroundings) (alone within : List Diagnostic) : Prop :=
  within = alone ∨
    ∃ others expected span t ts, s.behind = t :: ts ∧
      alone = others ++ [.unexpectedEnd expected span] ∧
      within = others ++ [.unexpectedToken expected t.token.found t.token.span]

/-- A failure within the surroundings is the same failure, unless the part has come to its end. -/
theorem Diagnostic.within_eq_or (s : Surroundings) (rest : List CommentedToken) (e : Diagnostic) :
    Diagnostic.within s rest e = e ∨
      ∃ expected span t ts, rest = [] ∧ s.behind = t :: ts ∧ e = .unexpectedEnd expected span ∧
        Diagnostic.within s rest e = .unexpectedToken expected t.token.found t.token.span := by
  unfold Diagnostic.within
  split
  · next t ts expected span hbehind => exact Or.inr ⟨expected, span, t, ts, rfl, hbehind, rfl, rfl⟩
  · exact Or.inl rfl

/-- The cursor with other diagnostics. -/
def Cursor.withReported (reported : List Diagnostic) (c : Cursor) : Cursor := { c with reported }

/-- A construct is read within the surroundings as it is alone. -/
theorem run_construct_within {s : Surroundings} {c : Cursor} (hne : c.rest ≠ []) {k : TokenKind}
    {construct : Span → Parser Construct} (hk : Parser.construct? k = some construct)
    (start : Span) :
    (construct start).run (c.within s).takeComments.advance =
      ((construct start).run c.takeComments.advance).within s := by
  have htaken : c.takeComments.rest ≠ [] := by
    obtain ⟨t, ts, hrest⟩ := List.exists_cons_of_ne_nil hne
    simp [Cursor.takeComments, hrest]
  rw [Cursor.takeComments_within hne, Cursor.advance_within htaken, Parser.isolated_construct hk]

/-- A part of a document within its surroundings: its constructs are those that it has alone, and
then those behind it are read. -/
theorem readConstructs_within (s : Surroundings) (c : Cursor) :
    ∃ reported, DiagnosticsWithin s (readConstructs c).2.reported reported ∧
      readConstructs (c.within s) =
        ((readConstructs c).1 ++
            (readConstructs (((readConstructs c).2.withReported reported).within s)).1,
          (readConstructs (((readConstructs c).2.withReported reported).within s)).2) := by
  fun_induction readConstructs c with
  | case1 c hrest => exact ⟨c.reported, Or.inl rfl, rfl⟩
  | case2 c t ts hrest hk ih =>
    have hne : c.rest ≠ [] := by simp [hrest]
    have hwithin : (c.within s).rest = t :: (ts ++ s.behind) := by simp [Cursor.within, hrest]
    have hnone : (c.within s).noConstruct = c.noConstruct := by
      rw [Cursor.noConstruct, Cursor.unexpected_within, hrest]
      rfl
    rw [readConstructs_of_none hwithin hk, hnone, Cursor.report_within, Cursor.resume_within]
    exact ih
  | case3 c t ts hrest construct hk x d hread others last hothers =>
    rename_i ih
    have hne : c.rest ≠ [] := by simp [hrest]
    have hwithin : (c.within s).rest = t :: (ts ++ s.behind) := by simp [Cursor.within, hrest]
    have hread' : (construct t.token.span).run (c.within s).takeComments.advance =
        .ok x (d.within s) := by
      rw [run_construct_within hne hk, hread]
      rfl
    rw [hothers] at ih
    obtain ⟨reported, hreported, hread⟩ := ih
    refine ⟨reported, hreported, ?_⟩
    rw [readConstructs_of_ok hwithin hk hread', hread, Cursor.availableComments_within hne]
    rfl
  | case4 c t ts hrest construct hk e d hread ih =>
    have hne : c.rest ≠ [] := by simp [hrest]
    have hwithin : (c.within s).rest = t :: (ts ++ s.behind) := by simp [Cursor.within, hrest]
    have hread' : (construct t.token.span).run (c.within s).takeComments.advance =
        .failed (Diagnostic.within s d.rest e) (d.within s) := by
      rw [run_construct_within hne hk, hread]
      rfl
    rw [readConstructs_of_failed hwithin hk hread', Cursor.availableComments_within hne,
      Cursor.restore_within, Cursor.report_within, Cursor.resume_within]
    rcases Diagnostic.within_eq_or s d.rest e with he | ⟨expected, span, u, us, hd, hb, rfl, he⟩
    · rw [he]
      exact ih
    · -- the part has come to its end, so nothing of it is left to read
      have hnil (e : Diagnostic) : ((d.restore c.availableComments).report e).resume =
          (d.restore c.availableComments).report e := Cursor.resume_of_nil hd
      rw [he, hnil, hnil]
      have halone : readConstructs ((d.restore c.availableComments).report
          (.unexpectedEnd expected span)) = ([], _) := readConstructs_of_nil hd
      rw [halone]
      exact ⟨_, Or.inr ⟨d.reported, expected, span, u, us, hb, rfl, rfl⟩, rfl⟩

/-! ## The part from a construct on -/

/-- The comments filed with a construct. -/
def Construct.comments : Construct → List String
  | project p => p.comments
  | table t => t.comments
  | reference r => r.comments
  | area a => a.comments

/-- A construct has the comments it is given. -/
@[simp] theorem Construct.comments_withComments (comments : List String) (x : Construct) :
    (x.withComments comments).comments = comments := by
  cases x <;> rfl

/-- Comments that are given last replace those given before. -/
@[simp] theorem Construct.withComments_withComments (first second : List String) (x : Construct) :
    (x.withComments first).withComments second = x.withComments second := by
  cases x <;> rfl

/-- A construct with the comments it has is itself. -/
theorem Construct.withComments_comments (x : Construct) : x.withComments x.comments = x := by
  cases x <;> rfl

/-- Files comments with the first construct, in front of its own. -/
def fileFirst (comments : List String) : List Construct → List Construct
  | [] => []
  | x :: xs => x.withComments (comments ++ x.comments) :: xs

/-- With no comments to file, the constructs are unchanged. -/
theorem fileFirst_nil (xs : List Construct) : fileFirst [] xs = xs := by
  cases xs with
  | nil => rfl
  | cons x xs => exact congrArg (· :: xs) x.withComments_comments

/-- The cursor with comments and diagnostics from before, and another token read last. -/
def Cursor.after (comments : List String) (before : List Diagnostic) (last : Span) (c : Cursor) :
    Cursor :=
  { c with pending := comments ++ c.pending, reported := before ++ c.reported, last }

/-- Surroundings with nothing behind the part. -/
def Surroundings.behindNothing (before : List Diagnostic) : Surroundings :=
  ⟨before, [], .point ⟨0, 0, 0⟩, nofun⟩

/-- A cursor with nothing behind it only has the diagnostics from before added. -/
theorem Cursor.within_behindNothing (before : List Diagnostic) (c : Cursor) :
    c.within (.behindNothing before) = c.after [] before c.last := by
  simp [within, after, Surroundings.behindNothing, Surroundings.stopOf]

/-- With nothing behind the part, a failure within it is that of the part alone. -/
theorem Diagnostic.within_behindNothing (before : List Diagnostic) (rest : List CommentedToken)
    (e : Diagnostic) : Diagnostic.within (.behindNothing before) rest e = e := by
  cases rest <;> rfl

/-- Advancing commutes with what came before, up to the token read last. -/
theorem Cursor.exists_advanceBy_after (comments : List String) (before : List Diagnostic)
    (last : Span) (n : Nat) (c : Cursor) :
    ∃ last', advanceBy n (c.after comments before last) =
      (advanceBy n c).after comments before last' := by
  induction n generalizing c last with
  | zero => exact ⟨last, rfl⟩
  | succ n ih =>
    rw [advanceBy, advanceBy]
    cases hrest : c.rest with
    | nil =>
      have hstay : c.advance = c := by rw [advance, hrest]
      have hstay' : (c.after comments before last).advance = c.after comments before last := by
        simp [advance, after, hrest]
      rw [hstay, hstay']
      exact ih last c
    | cons t ts =>
      have hstep : (c.after comments before last).advance =
          c.advance.after comments before t.token.span := by
        simp [advance, after, hrest]
      rw [hstep]
      exact ih t.token.span c.advance

/-- Reporting commutes with what came before. -/
theorem Cursor.report_after (comments : List String) (before : List Diagnostic) (last : Span)
    (d : Diagnostic) (c : Cursor) :
    (c.after comments before last).report d = (c.report d).after comments before last := by
  simp [report, after]

/-- Recovery commutes with what came before, up to the token read last. -/
theorem Cursor.exists_resume_after (comments : List String) (before : List Diagnostic)
    (last : Span) (c : Cursor) :
    ∃ last', (c.after comments before last).resume = c.resume.after comments before last' :=
  exists_advanceBy_after comments before last (resumeLength c.rest) c

/-- A construct is read without the comments, which are filed when it has been read. -/
theorem Cursor.takeComments_advance_after {c : Cursor} (h : c.rest ≠ []) (comments : List String)
    (before : List Diagnostic) (last : Span) :
    (c.after comments before last).takeComments.advance =
      c.takeComments.advance.within (.behindNothing before) := by
  obtain ⟨t, ts, hrest⟩ := List.exists_cons_of_ne_nil h
  simp [takeComments, advance, after, within, Surroundings.behindNothing, Surroundings.stopOf,
    hrest]

/-- The comments that wait from before come first. -/
theorem Cursor.availableComments_after (comments : List String) (before : List Diagnostic)
    (last : Span) (c : Cursor) :
    (c.after comments before last).availableComments = comments ++ c.availableComments := by
  simp [availableComments, commentsAhead, after]

/-- The second part of a document: comments and diagnostics that are already there stay in front. -/
theorem readConstructs_after (before : List Diagnostic) (comments : List String) (last : Span)
    (c : Cursor) :
    (readConstructs (c.after comments before last)).1 =
        fileFirst comments (readConstructs c).1 ∧
      (readConstructs (c.after comments before last)).2.reported =
        before ++ (readConstructs c).2.reported := by
  fun_induction readConstructs c generalizing comments last with
  | case1 c hrest =>
    rw [readConstructs_of_nil (c := c.after comments before last) hrest]
    exact ⟨rfl, rfl⟩
  | case2 c t ts hrest hk ih =>
    rw [readConstructs_of_none (c := c.after comments before last) hrest hk, Cursor.report_after]
    obtain ⟨last', hresume⟩ := Cursor.exists_resume_after comments before last
      (c.report (c.after comments before last).noConstruct)
    rw [hresume]
    exact ih comments last'
  -- the comments from before go to the first construct that is read, so none are left behind it
  | case3 c t ts hrest construct hk x d hread others last' hothers =>
    rename_i ih
    have hne : c.rest ≠ [] := by simp [hrest]
    have hread' : (construct t.token.span).run
        (c.after comments before last).takeComments.advance = .ok x (d.after [] before d.last) := by
      rw [Cursor.takeComments_advance_after hne, Parser.isolated_construct hk, hread,
        ← Cursor.within_behindNothing]
      rfl
    obtain ⟨hconstructs, hreported⟩ := ih [] d.last
    rw [hothers, fileFirst_nil] at hconstructs
    rw [hothers] at hreported
    rw [readConstructs_of_ok (c := c.after comments before last) hrest hk hread',
      Cursor.availableComments_after]
    refine ⟨?_, hreported⟩
    rw [hconstructs]
    simp only [fileFirst, Construct.withComments_withComments, Construct.comments_withComments]
  | case4 c t ts hrest construct hk e d hread ih =>
    have hne : c.rest ≠ [] := by simp [hrest]
    have hread' : (construct t.token.span).run
        (c.after comments before last).takeComments.advance =
          .failed e (d.after [] before d.last) := by
      rw [Cursor.takeComments_advance_after hne, Parser.isolated_construct hk, hread,
        ← Cursor.within_behindNothing]
      show Outcome.failed (Diagnostic.within (.behindNothing before) d.rest e) _ = _
      rw [Diagnostic.within_behindNothing]
    have hrestore : (d.after [] before d.last).restore (comments ++ c.availableComments) =
        (d.restore c.availableComments).after comments before d.last := by
      simp [Cursor.restore, Cursor.after]
    rw [readConstructs_of_failed (c := c.after comments before last) hrest hk hread',
      Cursor.availableComments_after, hrestore, Cursor.report_after]
    obtain ⟨last', hresume⟩ := Cursor.exists_resume_after comments before d.last
      ((d.restore c.availableComments).report e)
    rw [hresume]
    exact ih comments last'

/-- Comments in front of a construct may as well have been passed before. -/
theorem readConstructs_passed {c : Cursor} {t : CommentedToken} {ts : List CommentedToken}
    (hrest : c.rest = t :: ts) (hopens : t.token.kind.opensConstruct = true) :
    readConstructs c =
      readConstructs
        { c with rest := { t with comments := [] } :: ts, pending := c.availableComments } := by
  obtain ⟨construct, hk⟩ := exists_construct_of_opensConstruct hopens
  generalize hd : { c with rest := { t with comments := [] } :: ts, pending := c.availableComments }
    = d
  have hrest' : d.rest = { t with comments := [] } :: ts := by rw [← hd]
  have htake : d.takeComments = c.takeComments := by
    rw [← hd]
    simp [Cursor.takeComments, hrest]
  have havailable : d.availableComments = c.availableComments := by
    rw [← hd]
    exact List.append_nil _
  cases hread : (construct t.token.span).run c.takeComments.advance with
  | ok x e =>
    rw [readConstructs_of_ok hrest hk hread, readConstructs_of_ok hrest' hk (by rw [htake, hread]),
      havailable]
  | failed e f =>
    rw [readConstructs_of_failed hrest hk hread,
      readConstructs_of_failed hrest' hk (by rw [htake, hread]), havailable]

/-! ## Cursors over both parts -/

/-- Comments are gathered over two lists of tokens one after the other. -/
theorem gatherComments_append {ts : List Token} (h : ∀ t ∈ ts, t.kind ≠ .endOfInput)
    (comments : List String) (us : List Token) :
    gatherComments comments (ts ++ us) =
      ((gatherComments comments ts).1 ++ (gatherComments (gatherComments comments ts).2 us).1,
        (gatherComments (gatherComments comments ts).2 us).2) := by
  induction ts generalizing comments with
  | nil => rfl
  | cons t ts ih =>
    obtain ⟨ht, hts⟩ := List.forall_mem_cons.1 h
    simp only [List.cons_append, gatherComments, if_neg ht, ih hts]
    split <;> rfl

/-- A token that opens a construct takes all comments gathered in front of it. -/
theorem gatherComments_cons_of_opensConstruct {b : Token} (h : b.kind.opensConstruct = true)
    (comments : List String) (bs : List Token) :
    (gatherComments comments (b :: bs)).1 = ⟨comments, b⟩ :: (gatherComments [] bs).1 := by
  have hend : b.kind ≠ .endOfInput := ne_of_opensConstruct h rfl
  have hcomment : b.kind ≠ .comment := ne_of_opensConstruct h rfl
  simp only [gatherComments, if_neg hend, if_neg hcomment]

/-- The first token that takes part in the structure is the first one that is no comment. -/
theorem kind_head?_gatherComments_ne {k : TokenKind} {ts : List Token}
    (h : (ts.find? fun t => t.kind ≠ .comment).map (·.kind) ≠ some k) (comments : List String) :
    (gatherComments comments ts).1.head?.map (·.token.kind) ≠ some k := by
  induction ts generalizing comments with
  | nil => nofun
  | cons t ts ih =>
    by_cases hend : t.kind = .endOfInput
    · simp [gatherComments, hend]
    by_cases hcomment : t.kind = .comment
    · rw [List.find?_cons_of_neg (by simpa using hcomment)] at h
      simpa [gatherComments, hcomment] using ih h (comments ++ [t.commentText])
    · rw [List.find?_cons_of_pos (by simpa using hcomment)] at h
      simpa [gatherComments, hend, hcomment] using h

/-- The end of a document is sought behind tokens that are not its end. -/
theorem endSpan_append {ts : List Token} (h : ∀ t ∈ ts, t.kind ≠ .endOfInput) (u : Token)
    (us : List Token) : endSpan (ts ++ u :: us) = endSpan (u :: us) := by
  have hnone : ts.find? (fun t => t.kind = .endOfInput) = none := by simpa using h
  have hlast : (ts ++ u :: us).getLast? = (u :: us).getLast? := by
    rw [List.getLast?_append, List.getLast?_cons, Option.some_or]
  rw [endSpan, endSpan, List.find?_append, hnone, Option.none_or, hlast]

/-- The comments of a document that wait for a construct at its end. -/
def waitingComments (ts : List Token) : List String :=
  (readConstructs (.ofTokens ts)).2.pending ++ (gatherComments [] ts).2

/-- A document whose first construct gets comments that have waited for it. -/
def after (comments : List String) (d : Document) : Document := ⟨fileFirst comments d.constructs⟩

/-- What stands behind the first part: the second one, from the token that opens a construct on. -/
def Surroundings.behindPart (ts : List Token) (b : Token) (bs : List Token)
    (hb : b.kind.opensConstruct = true)
    (hcolon : (bs.find? fun t => t.kind ≠ .comment).map (·.kind) ≠ some (.mark .colon)) :
    Surroundings where
  before := []
  behind := ⟨(gatherComments [] ts).2, b⟩ :: (gatherComments [] bs).1
  stop := endSpan (b :: bs)
  opens := by
    rintro _ _ ⟨⟩
    exact ⟨hb, kind_head?_gatherComments_ne hcolon []⟩

/-- A document with more behind it is the first one's cursor within its surroundings. -/
theorem Cursor.ofTokens_append_eq_within {ts : List Token} (hts : ∀ t ∈ ts, t.kind ≠ .endOfInput) {b : Token}
    {bs : List Token} (hb : b.kind.opensConstruct = true)
    (hcolon : (bs.find? fun t => t.kind ≠ .comment).map (·.kind) ≠ some (.mark .colon)) :
    Cursor.ofTokens (ts ++ b :: bs) =
      (Cursor.ofTokens ts).within (.behindPart ts b bs hb hcolon) := by
  rw [ofTokens, gatherComments_append hts, gatherComments_cons_of_opensConstruct hb,
    endSpan_append hts]
  rfl

/-- Reading ends with nothing ahead. -/
theorem rest_readConstructs (c : Cursor) : (readConstructs c).2.rest = [] := by
  fun_induction readConstructs c with
  | case1 c hrest => exact hrest
  | case2 c t ts hrest hk ih => exact ih
  | case3 c t ts hrest construct hk x d hread others last hothers =>
    rename_i ih
    rwa [hothers] at ih
  | case4 c t ts hrest construct hk e d hread ih => exact ih

/-- Behind the first part the second one is read, after the comments that wait and the diagnostics
of the first part. -/
theorem readConstructs_behindPart {ts : List Token} {b : Token} {bs : List Token}
    (hb : b.kind.opensConstruct = true)
    (hcolon : (bs.find? fun t => t.kind ≠ .comment).map (·.kind) ≠ some (.mark .colon))
    {d : Cursor} (hd : d.rest = []) (reported : List Diagnostic) :
    readConstructs ((d.withReported reported).within (.behindPart ts b bs hb hcolon)) =
      readConstructs ((Cursor.ofTokens (b :: bs)).after (d.pending ++ (gatherComments [] ts).2)
        reported d.last) := by
  have hrest : ((d.withReported reported).within (.behindPart ts b bs hb hcolon)).rest =
      ⟨(gatherComments [] ts).2, b⟩ :: (gatherComments [] bs).1 := by
    show d.rest ++ _ = _
    rw [hd]
    rfl
  rw [readConstructs_passed hrest hb]
  refine congrArg readConstructs ?_
  simp [Cursor.ofTokens, Cursor.after, gatherComments_cons_of_opensConstruct hb,
    Cursor.availableComments, Cursor.commentsAhead, hd, Cursor.within, Cursor.withReported,
    Surroundings.behindPart, Surroundings.stopOf]

/-- The constructs from a keyword on are read as if the document started there, those in front of it
as if the document ended there. -/
theorem readConstructs_ofTokens_append {ts : List Token} (hts : ∀ t ∈ ts, t.kind ≠ .endOfInput)
    {b : Token} {bs : List Token} (hb : b.kind.opensConstruct = true)
    (hcolon : (bs.find? fun t => t.kind ≠ .comment).map (·.kind) ≠ some (.mark .colon)) :
    ∃ reported, DiagnosticsWithin (.behindPart ts b bs hb hcolon) (ofTokens ts).diagnostics reported ∧
      (readConstructs (.ofTokens (ts ++ b :: bs))).1 =
        (readConstructs (.ofTokens ts)).1 ++
          fileFirst (waitingComments ts) (readConstructs (.ofTokens (b :: bs))).1 ∧
      (readConstructs (.ofTokens (ts ++ b :: bs))).2.reported =
        reported ++ (readConstructs (.ofTokens (b :: bs))).2.reported := by
  obtain ⟨reported, hreported, hread⟩ :=
    readConstructs_within (.behindPart ts b bs hb hcolon) (.ofTokens ts)
  rw [readConstructs_behindPart hb hcolon (rest_readConstructs _)] at hread
  obtain ⟨hconstructs, hdiagnostics⟩ := readConstructs_after reported (waitingComments ts)
    (readConstructs (.ofTokens ts)).2.last (.ofTokens (b :: bs))
  refine ⟨reported, hreported, ?_, ?_⟩
  · rw [Cursor.ofTokens_append_eq_within hts hb hcolon, hread]
    exact congrArg _ hconstructs
  · rw [Cursor.ofTokens_append_eq_within hts hb hcolon, hread]
    exact hdiagnostics

/-- The tables of a document are those of its parts in order. -/
theorem tables_append (xs ys : List Construct) :
    tables ⟨xs ++ ys⟩ = tables ⟨xs⟩ ++ tables ⟨ys⟩ := List.filterMap_append

/-- The references of a document are those of its parts in order. -/
theorem references_append (xs ys : List Construct) :
    references ⟨xs ++ ys⟩ = references ⟨xs⟩ ++ references ⟨ys⟩ := List.filterMap_append

/-- The areas of a document are those of its parts in order. -/
theorem areas_append (xs ys : List Construct) :
    areas ⟨xs ++ ys⟩ = areas ⟨xs⟩ ++ areas ⟨ys⟩ := List.filterMap_append

/-- The last project counts. -/
theorem project?_append (xs ys : List Construct) :
    project? ⟨xs ++ ys⟩ = (project? ⟨ys⟩).or (project? ⟨xs⟩) := by
  rw [project?, List.filterMap_append, List.getLast?_append]
  rfl

/-- Errors do not spread from the tokens in front of a keyword that opens a construct to those from
the keyword on. The constructs of both parts stand one after another as each part alone gives them,
but for the comments that wait at the end of the first part. The diagnostics do as well, but for an
unfinished construct at the end of the first part, which is reported at the keyword. -/
theorem ofTokens_append (ts : List Token) (b : Token) (bs : List Token)
    (hts : ∀ t ∈ ts, t.kind ≠ .endOfInput) (hb : b.kind.opensConstruct = true)
    (hcolon : (bs.find? fun t => t.kind ≠ .comment).map (·.kind) ≠ some (.mark .colon)) :
    ((ofTokens (ts ++ b :: bs)).document.constructs =
        (ofTokens ts).document.constructs ++
          ((ofTokens (b :: bs)).document.after (waitingComments ts)).constructs ∧
      (ofTokens (ts ++ b :: bs)).document.tables =
        (ofTokens ts).document.tables ++
          ((ofTokens (b :: bs)).document.after (waitingComments ts)).tables ∧
      (ofTokens (ts ++ b :: bs)).document.references =
        (ofTokens ts).document.references ++
          ((ofTokens (b :: bs)).document.after (waitingComments ts)).references ∧
      (ofTokens (ts ++ b :: bs)).document.areas =
        (ofTokens ts).document.areas ++
          ((ofTokens (b :: bs)).document.after (waitingComments ts)).areas ∧
      (ofTokens (ts ++ b :: bs)).document.project? =
        ((ofTokens (b :: bs)).document.after (waitingComments ts)).project?.or
          (ofTokens ts).document.project?) ∧
    ∃ reported, (ofTokens (ts ++ b :: bs)).diagnostics =
        reported ++ (ofTokens (b :: bs)).diagnostics ∧
      (reported = (ofTokens ts).diagnostics ∨
        ∃ others expected span,
          (ofTokens ts).diagnostics = others ++ [.unexpectedEnd expected span] ∧
          reported = others ++ [.unexpectedToken expected b.found b.span]) := by
  obtain ⟨reported, hreported, hconstructs, hdiagnostics⟩ :=
    readConstructs_ofTokens_append hts hb hcolon
  have hdocument : (ofTokens (ts ++ b :: bs)).document =
      ⟨(ofTokens ts).document.constructs ++
        ((ofTokens (b :: bs)).document.after (waitingComments ts)).constructs⟩ :=
    congrArg Document.mk hconstructs
  refine ⟨⟨hconstructs, ?_, ?_, ?_, ?_⟩, reported, hdiagnostics, ?_⟩
  · rw [hdocument]
    exact tables_append _ _
  · rw [hdocument]
    exact references_append _ _
  · rw [hdocument]
    exact areas_append _ _
  · rw [hdocument]
    exact project?_append _ _
  -- only a failure at the end of the first part is told otherwise, by the token that is next now
  · rcases hreported with h | ⟨others, expected, span, t, us, hbehind, halone, hwithin⟩
    · exact Or.inl h
    · obtain ⟨rfl, -⟩ := List.cons.inj hbehind
      exact Or.inr ⟨others, expected, span, halone, hwithin⟩

/-- A table that has a name and no block. -/
def unfinishedTable : List Token :=
  [⟨.keyword .table, default, "Table"⟩, ⟨.identifier, default, "a"⟩]

/-- A keyword on the next line. -/
def projectKeyword : Token := ⟨.keyword .project, ⟨⟨2, 1, 8⟩, ⟨2, 8, 15⟩⟩, "Project"⟩

/-- A project behind the unfinished table is read as if it stood alone. The table is missed at the
keyword, where it was missed at the end before. -/
theorem ofTokens_unfinishedTable_project :
    (∀ t ∈ unfinishedTable, t.kind ≠ .endOfInput) ∧
      (ofTokens (unfinishedTable ++ projectKeyword :: [⟨.identifier, default, "p"⟩])).document.project? =
        ((ofTokens [projectKeyword, ⟨.identifier, default, "p"⟩]).document.after
          (waitingComments unfinishedTable)).project?.or (ofTokens unfinishedTable).document.project? ∧
      ∃ expected span, (ofTokens unfinishedTable).diagnostics = [.unexpectedEnd expected span] ∧
        (ofTokens (unfinishedTable ++
            projectKeyword :: [⟨.identifier, default, "p"⟩])).diagnostics =
          .unexpectedToken expected projectKeyword.found projectKeyword.span ::
            (ofTokens [projectKeyword, ⟨.identifier, default, "p"⟩]).diagnostics := by
  have hts : ∀ t ∈ unfinishedTable, t.kind ≠ .endOfInput := by decide
  obtain ⟨⟨-, -, -, -, hproject⟩, reported, hboth, hreported⟩ :=
    ofTokens_append unfinishedTable projectKeyword [⟨.identifier, default, "p"⟩] hts rfl (by decide)
  refine ⟨hts, hproject, ?_⟩
  obtain rfl | ⟨others, expected, span, halone, rfl⟩ := hreported
  · exact absurd hboth (by decide +kernel)
  · have hone : (ofTokens unfinishedTable).diagnostics.length = 1 := by decide +kernel
    obtain rfl : others = [] := by
      rw [halone, List.length_append, List.length_singleton] at hone
      exact List.eq_nil_of_length_eq_zero (Nat.succ.inj hone)
    exact ⟨expected, span, halone, hboth⟩

end SchemaDiagram.Document
