import SchemaDiagram.Proofs.Document.Attempts
import SchemaDiagram.Proofs.Document.Plain
import SchemaDiagram.Proofs.Document.Yields

/-!
# Progress

No construct disappears silently: each keyword that opens a construct is the first token of an
attempt to read one, unless a colon follows it and makes it the key of a setting. An attempt files a
construct or reports why it cannot. And reading always goes forward: each construct and each
diagnostic is paid for by a token of its own.

The first part rests on parsers being isolated: the tokens from such a keyword on are still ahead
when an attempt that started before it is over (`openings_behind`). The second part counts:
`Cursor.Pays` says that the diagnostics between two cursors are paid for by the tokens between them,
and that they are all about values that a setting cannot take.

Main statement: `ofTokens_progress`.
-/

namespace SchemaDiagram.Document

/-! ## Tokens pay for diagnostics -/

/-- From one cursor to the other only values of settings were reported, and no more of them than
tokens were passed. -/
def Cursor.Pays (c d : Cursor) : Prop :=
  ∃ new : List Diagnostic, d.reported = c.reported ++ new ∧ (∀ e ∈ new, e.isInvalidValue = true) ∧
    new.length + d.rest.length ≤ c.rest.length

namespace Cursor.Pays

variable {c d e : Cursor}

/-- Moving on without a report pays. -/
theorem of_reported_eq (h : d.reported = c.reported) (hle : d.rest.length ≤ c.rest.length) :
    c.Pays d :=
  ⟨[], by rw [h, List.append_nil], nofun, by simpa using hle⟩

/-- Standing still pays. -/
theorem refl (c : Cursor) : c.Pays c := .of_reported_eq rfl (Nat.le_refl _)

/-- Paying twice in a row pays for both. -/
theorem trans (h : c.Pays d) (k : d.Pays e) : c.Pays e := by
  obtain ⟨xs, hd, hxs, hlength⟩ := h
  obtain ⟨ys, he, hys, hlength'⟩ := k
  refine ⟨xs ++ ys, by rw [he, hd, List.append_assoc], ?_, ?_⟩
  · intro x hx
    exact (List.mem_append.1 hx).elim (hxs x) (hys x)
  · rw [List.length_append]
    omega

/-- Taking a token without a report pays. -/
theorem advance (c : Cursor) : c.Pays c.advance :=
  .of_reported_eq c.reported_advance c.reaches_advance.length_le

/-- Handing over comments pays. -/
protected theorem takeComments (c : Cursor) : c.Pays c.takeComments :=
  .of_reported_eq c.reported_takeComments c.reaches_takeComments.length_le

/-- A colon and a value pay for the diagnostic about the value. -/
theorem of_moves (h : c.Moves d) : c.Pays d := by
  induction h with
  | refl => exact .refl c
  | advance _ ih => exact ih.trans (.advance _)
  | @report d _ t u ts hrest e he ih =>
    refine ih.trans ⟨[e], ?_, ?_, ?_⟩
    · simp [report, Cursor.advance, hrest]
    · simpa using he
    · simp [report, Cursor.advance, hrest]
      omega

end Cursor.Pays

namespace Parser

variable {α β σ : Type} {p : Parser α}

/-- The parser pays for what it reports, and does not fail because of the value of a setting. -/
structure Thrifty (p : Parser α) : Prop where
  ok : ∀ {c : Cursor} {a : α} {d : Cursor}, p.run c = .ok a d → c.Pays d
  failed : ∀ {c : Cursor} {e : Diagnostic} {d : Cursor}, p.run c = .failed e d →
    c.Pays d ∧ e.isInvalidValue = false

namespace Thrifty

/-- Returning a value is thrifty. -/
theorem pure (a : α) : (Pure.pure a : Parser α).Thrifty :=
  ⟨by rintro c _ _ ⟨⟩; exact .refl c, nofun⟩

/-- Thrifty parsers in sequence are thrifty. -/
theorem bind {f : α → Parser β} (hp : p.Thrifty) (hf : ∀ a, (f a).Thrifty) :
    (p >>= f).Thrifty := by
  refine ⟨fun {c b e} hr => ?_, fun {c b e} hr => ?_⟩
  · obtain ⟨a, d, hd, hr⟩ := exists_of_run_bind hr
    exact (hp.ok hd).trans ((hf a).ok hr)
  · rw [run_bind] at hr
    split at hr
    · next a d hd =>
      obtain ⟨hpays, hb⟩ := (hf a).failed hr
      exact ⟨(hp.ok hd).trans hpays, hb⟩
    · next d hd =>
      cases hr
      exact hp.failed hd

/-- A loop of thrifty rounds is thrifty. -/
theorem iterate {step : σ → Parser (σ ⊕ α)} (h : ∀ s, (step s).Consumes)
    (hstep : ∀ s, (step s).Thrifty) (s : σ) : (iterate step h s).Thrifty := by
  refine ⟨fun {c a d} hr => ?_, fun {c b d} hr => ?_⟩
  · change iterate.loop step h s c = _ at hr
    fun_induction iterate.loop step h s c with
    | case1 s c s' e he ih => exact ((hstep s).ok he).trans (ih hr)
    | case2 s c a e he =>
      cases hr
      exact (hstep s).ok he
    | case3 s c e d he => cases hr
  · change iterate.loop step h s c = _ at hr
    fun_induction iterate.loop step h s c with
    | case1 s c s' e he ih =>
      obtain ⟨hpays, hb⟩ := ih hr
      exact ⟨((hstep s).ok he).trans hpays, hb⟩
    | case2 s c a e he => cases hr
    | case3 s c e d he =>
      cases hr
      exact (hstep s).failed he

/-- Filing comments keeps a parser thrifty. -/
theorem takingComments (hp : p.Thrifty) : p.takingComments.Thrifty := by
  refine ⟨fun {c a d} hr => ?_, fun {c e d} hr => ?_⟩
  · simp only [Parser.takingComments] at hr
    split at hr
    · next hd =>
      cases hr
      exact (Cursor.Pays.takeComments c).trans (hp.ok hd)
    · cases hr
  · simp only [Parser.takingComments] at hr
    split at hr
    · cases hr
    · next hd =>
      cases hr
      obtain ⟨hpays, he⟩ := hp.failed hd
      exact ⟨(Cursor.Pays.takeComments c).trans hpays, he⟩

/-- Whatever comes of it, the parser pays, and it fails for another reason than a value. -/
theorem outcome (hp : p.Thrifty) (c : Cursor) :
    c.Pays (p.run c).cursor ∧
      ∀ {e : Diagnostic} {d : Cursor}, p.run c = .failed e d → e.isInvalidValue = false := by
  refine ⟨?_, fun hread => (hp.failed hread).2⟩
  cases hread : p.run c with
  | ok a d => exact hp.ok hread
  | failed e d => exact (hp.failed hread).1

end Thrifty

/-- Refusing a token is thrifty. -/
theorem Thrifty.unexpected (expected : String) : (unexpected expected : Parser α).Thrifty :=
  ⟨nofun, by rintro c _ _ ⟨⟩; exact ⟨.refl c, isInvalidValue_unexpected expected c⟩⟩

/-- Failing at an unclosed block is thrifty. -/
theorem Thrifty.unclosedBlock (construct name : String) (span : Span) :
    (fail (.unclosedBlock construct name span) : Parser α).Thrifty :=
  ⟨nofun, by rintro c _ _ ⟨⟩; exact ⟨.refl c, rfl⟩⟩

/-- A plain parser reports nothing, so it is thrifty. -/
theorem Plain.thrifty (h : p.Plain) : p.Thrifty := by
  refine ⟨fun {c a d} hr => ?_, fun {c e d} hr => ?_⟩
  · rcases h.movesAt c with ⟨b, d', hr', hmoves⟩ | ⟨e, d', hr', -⟩
    · rw [hr] at hr'
      cases hr'
      exact .of_moves hmoves
    · rw [hr] at hr'
      cases hr'
  · rcases h.movesAt c with ⟨b, d', hr', -⟩ | ⟨e', d', hr', hmoves, he⟩
    · rw [hr] at hr'
      cases hr'
    · rw [hr] at hr'
      cases hr'
      exact ⟨.of_moves hmoves, he⟩

/-- A column with its comments is thrifty. -/
theorem thrifty_commentedColumn : commentedColumn.Thrifty :=
  plain_column.thrifty.takingComments.bind fun _ => .pure _

/-- A block of thrifty entries is thrifty. -/
theorem thrifty_block (construct name : String) (opening : Span)
    {entry : σ → TokenKind → Parser σ} (h : ∀ s k, (entry s k).Consumes)
    (hentry : ∀ s k, (entry s k).Thrifty) (s : σ) :
    (block construct name opening entry h s).Thrifty := by
  refine .iterate _ (fun s => Plain.kind?.thrifty.bind fun k => ?_) s
  split
  · exact .unclosedBlock _ _ _
  split
  · exact plain_any.thrifty.bind fun _ => .pure _
  split
  · exact .unclosedBlock _ _ _
  · exact (hentry s _).bind fun _ => .pure _

/-- An entry of a table's body is thrifty. -/
theorem thrifty_tableEntry (t : Table) (k : TokenKind) : (tableEntry t k).Thrifty := by
  refine Plain.secondKind?.thrifty.bind fun second => ?_
  split
  · exact plain_note.thrifty.bind fun _ => .pure _
  split
  · exact plain_indexes.thrifty.bind fun _ => .pure _
  split
  · exact thrifty_commentedColumn.bind fun _ => .pure _
  · exact (plain_ignore _).thrifty

/-- A table is thrifty. -/
theorem thrifty_table (start : Span) : (table start).Thrifty := by
  refine (plain_name _).thrifty.bind fun _ => plain_tableAlias?.thrifty.bind fun _ => ?_
  refine (plain_settings? (plain_apply .table) _).thrifty.bind fun _ => ?_
  refine (plain_expect _).thrifty.bind fun _ => ?_
  refine (thrifty_block _ _ _ _ thrifty_tableEntry _).bind fun _ => ?_
  exact Plain.lastSpan.thrifty.bind fun _ => .pure _

/-- A list of common columns is thrifty. -/
theorem thrifty_commonColumns : commonColumns.Thrifty := by
  refine (plain_expect _).thrifty.bind fun _ => (Plain.accept _).thrifty.bind fun _ => ?_
  refine (plain_expect _).thrifty.bind fun _ => .iterate _ (fun columns => ?_) _
  refine Plain.kind?.thrifty.bind fun k => ?_
  split
  · exact .unexpected _
  split
  · exact plain_any.thrifty.bind fun _ => .pure _
  split
  · exact .unexpected _
  split
  · exact thrifty_commentedColumn.bind fun _ => .pure _
  · exact plain_any.thrifty.bind fun _ => .pure _

/-- An entry of an area's body is thrifty. -/
theorem thrifty_areaEntry (a : Area) (k : TokenKind) : (areaEntry a k).Thrifty := by
  refine Plain.secondKind?.thrifty.bind fun second => ?_
  split
  · exact plain_note.thrifty.bind fun _ => .pure _
  split
  · exact thrifty_commonColumns.bind fun _ => .pure _
  split
  · exact (plain_settingLine (plain_apply .area) _).thrifty
  split
  · exact (plain_name _).thrifty.bind fun _ => .pure _
  · exact (plain_ignore _).thrifty

/-- An area is thrifty. -/
theorem thrifty_area (start : Span) : (area start).Thrifty := by
  refine (plain_name _).thrifty.bind fun _ => ?_
  refine (plain_settings? (plain_apply .area) _).thrifty.bind fun _ => ?_
  refine (plain_expect _).thrifty.bind fun _ => ?_
  refine (thrifty_block _ _ _ _ thrifty_areaEntry _).bind fun _ => ?_
  exact Plain.lastSpan.thrifty.bind fun _ => .pure _

/-- Every construct is thrifty, whichever keyword selects it. -/
theorem thrifty_construct {k : TokenKind} {construct : Span → Parser Construct}
    (h : construct? k = some construct) (start : Span) : (construct start).Thrifty := by
  obtain ⟨-, rfl⟩ | ⟨-, rfl⟩ | ⟨-, rfl⟩ | ⟨-, rfl⟩ := construct?_eq_some h
  · exact (plain_project start).thrifty.bind fun _ => .pure _
  · exact (thrifty_table start).bind fun _ => .pure _
  · exact (plain_reference start).thrifty.bind fun _ => .pure _
  · exact (thrifty_area start).bind fun _ => .pure _

end Parser

variable {c : Cursor} {t : CommentedToken} {ts : List CommentedToken}

/-- An attempt pays for its diagnostics and for the construct with the tokens it passes, one of which
is the keyword. It fails for another reason than the value of a setting. -/
theorem Cursor.pays_behind (hrest : c.rest = t :: ts) :
    ∃ new, (c.behind (c.construct t.token)).reported =
        c.reported ++ (new ++ (Attempt.diagnostic? ⟨c, c.construct t.token⟩).toList) ∧
      (∀ e ∈ new, e.isInvalidValue = true) ∧
      (∀ e ∈ Attempt.diagnostic? ⟨c, c.construct t.token⟩, e.isInvalidValue = false) ∧
      new.length + (c.behind (c.construct t.token)).rest.length < c.rest.length := by
  have htaken : c.takeComments.advance.reported = c.reported := by
    rw [reported_advance, reported_takeComments]
  -- reading goes on behind the keyword at least, which pays for the failure itself
  have hlt := length_behind_lt hrest
  have hle := c.length_behind_le (c.construct t.token)
  rw [reported_behind]
  cases hk : Parser.construct? t.token.kind with
  | none =>
    rw [construct_of_none hk] at hlt ⊢
    refine ⟨[], ?_, fun _ he => absurd he List.not_mem_nil, ?_, by simpa using hlt⟩
    · rw [Outcome.cursor, reported_takeComments]
      rfl
    · rintro _ ⟨⟩
      exact Parser.isInvalidValue_unexpected _ c
  | some construct =>
    have hthrifty := Parser.thrifty_construct hk t.token.span
    rw [construct_of_some hk] at hle ⊢
    obtain ⟨⟨new, hreported, hnew, hlength⟩, hfailure⟩ :=
      hthrifty.outcome c.takeComments.advance
    rw [htaken] at hreported
    rw [rest_takeComments_advance hrest] at hlength
    refine ⟨new, by rw [hreported, List.append_assoc], hnew, fun e he => ?_, ?_⟩
    · obtain ⟨d, hread⟩ := Attempt.exists_of_diagnostic? he
      exact hfailure hread
    · rw [hrest, List.length_cons]
      omega

/-- All attempts pay for the constructs and diagnostics, and the diagnostics that cost a construct are
those of the attempts that fail. -/
theorem readConstructs_pays (c : Cursor) :
    ∃ new, (readConstructs c).2.reported = c.reported ++ new ∧
      new.filter (!·.isInvalidValue) = (attempts c).filterMap Attempt.diagnostic? ∧
      (readConstructs c).1.length + new.length ≤ c.rest.length := by
  fun_induction attempts c with
  | case1 c hrest =>
    rw [readConstructs_of_nil hrest]
    exact ⟨[], (List.append_nil _).symm, rfl, Nat.zero_le _⟩
  | case2 c t ts hrest ih =>
    obtain ⟨first, hfirst, hinvalid, hfailure, hlt⟩ := Cursor.pays_behind hrest
    obtain ⟨others, hothers, hfilter, hle⟩ := ih
    rw [readConstructs_of_cons hrest]
    refine ⟨first ++ (Attempt.diagnostic? ⟨c, c.construct t.token⟩).toList ++ others, ?_, ?_, ?_⟩
    · rw [hothers, hfirst, List.append_assoc]
    · have hnone : first.filter (!·.isInvalidValue) = [] := by
        rw [List.filter_eq_nil_iff]
        intro e he
        rw [hinvalid e he]
        decide
      rw [List.filter_append, List.filter_append, hnone, hfilter, List.filterMap_cons,
        List.nil_append]
      cases hd : Attempt.diagnostic? ⟨c, c.construct t.token⟩ with
      | none => rfl
      | some e => simp [hfailure e hd]
    · have hone := Attempt.length_filed?_add ⟨c, c.construct t.token⟩
      simp only [List.length_append]
      omega

/-! ## No construct is swallowed -/

/-- Whether a construct opens in front of the tokens: the first one is a keyword that opens a
construct, and no colon follows it. -/
def opensHere : List Token → Bool
  | [] => false
  | t :: ts => t.kind.opensConstruct && ts.head?.map (·.kind) != some (.mark .colon)

/-- The places where a construct opens, each as the tokens from there on. -/
def openings : List Token → List (List Token)
  | [] => []
  | t :: ts => if opensHere (t :: ts) then (t :: ts) :: openings ts else openings ts

/-- Passing tokens over keeps the openings, if each of them is still ahead. -/
theorem openings_append {us vs : List Token}
    (h : ∀ s, s <:+ us ++ vs → opensHere s = true → s <:+ vs) :
    openings (us ++ vs) = openings vs := by
  induction us with
  | nil => rfl
  | cons u us ih =>
    have hnot : ¬ opensHere (u :: (us ++ vs)) = true := by
      intro hopens
      have hle := (h _ (List.suffix_refl _) hopens).length_le
      simp only [List.length_cons, List.length_append] at hle
      omega
    rw [List.cons_append, openings, if_neg hnot]
    exact ih fun s hs => h s (hs.trans (List.suffix_cons _ _))

/-- A cursor in front of an opening is a cursor over the part in front of it, within what follows. -/
theorem Cursor.exists_eq_within {s : List Token} (hs : s <:+ c.tokens)
    (hopens : opensHere s = true) :
    ∃ (w : Surroundings) (d : Cursor), c = d.within w ∧ w.behind.map (·.token) = s := by
  obtain ⟨front, hfront⟩ := hs
  obtain ⟨us, vs, hrest, rfl, rfl⟩ := List.map_eq_append_iff.1 hfront.symm
  refine ⟨⟨[], vs, c.stop, ?_⟩, { c with rest := us }, ?_, rfl⟩
  · rintro v others rfl
    simpa [opensHere, List.head?_map, Option.map_map, Function.comp_def] using hopens
  · unfold within Surroundings.stopOf
    simp only [← hrest, List.nil_append]
    split <;> rfl

/-- What stands behind a part ends the tokens of the whole. -/
theorem Cursor.suffix_tokens_within (w : Surroundings) (c : Cursor) :
    w.behind.map (·.token) <:+ (c.within w).tokens :=
  ⟨c.rest.map (·.token), (List.map_append).symm⟩

/-- An isolated parser does not swallow the opening of a construct. -/
theorem Parser.Isolated.opening_ahead {α : Type} {p : Parser α} (h : p.Isolated) {s : List Token}
    (hs : s <:+ c.tokens) (hopens : opensHere s = true) : s <:+ (p.run c).cursor.tokens := by
  obtain ⟨w, d, rfl, rfl⟩ := Cursor.exists_eq_within hs hopens
  rw [h w d]
  cases p.run d <;> exact Cursor.suffix_tokens_within w _

/-- Recovery does not pass a token that opens a construct. -/
theorem Cursor.opening_ahead_resume {s : List Token} (hs : s <:+ c.tokens)
    (hopens : opensHere s = true) : s <:+ c.resume.tokens := by
  obtain ⟨w, d, rfl, rfl⟩ := Cursor.exists_eq_within hs hopens
  rw [resume_within]
  exact suffix_tokens_within w _

/-- An attempt does not pass an opening behind its first token. -/
theorem Cursor.opening_ahead_behind (hrest : c.rest = t :: ts) {s : List Token}
    (hs : s <:+ ts.map (·.token)) (hopens : opensHere s = true) :
    s <:+ (c.behind (c.construct t.token)).tokens := by
  cases hk : Parser.construct? t.token.kind with
  | none =>
    rw [construct_of_none hk, behind,
      resume_restore_takeComments hrest (Parser.opensConstruct_of_construct?_eq_none hk)]
    refine opening_ahead_resume (c := c.report _) (hs.trans ?_) hopens
    rw [tokens, report, hrest]
    exact List.suffix_cons _ _
  | some construct =>
    have hahead : s <:+ c.takeComments.advance.tokens := by
      rwa [tokens, rest_takeComments_advance hrest]
    have hread := (Parser.isolated_construct hk t.token.span).opening_ahead hahead hopens
    rw [← construct_of_some hk] at hread
    rcases houtcome : c.construct t.token with ⟨x, d⟩ | ⟨e, d⟩
    · rw [houtcome] at hread
      exact hread
    · rw [houtcome] at hread
      exact opening_ahead_resume (c := (d.restore c.availableComments).report e) hread hopens

/-- The openings behind the first token of an attempt are ahead when the attempt is over. -/
theorem Cursor.openings_behind (hrest : c.rest = t :: ts) :
    openings (c.behind (c.construct t.token)).tokens = openings (ts.map (·.token)) := by
  obtain ⟨front, hfront⟩ := suffix_behind hrest
  rw [← hfront]
  refine (openings_append fun s hs hopens => ?_).symm
  rw [hfront] at hs
  exact opening_ahead_behind hrest hs hopens

/-- Each opening is where an attempt starts. -/
theorem openings_sublist_attempts (c : Cursor) :
    (openings c.tokens).Sublist ((attempts c).map (·.start.tokens)) := by
  fun_induction attempts c with
  | case1 c hrest =>
    rw [Cursor.tokens, hrest]
    exact List.Sublist.refl _
  | case2 c t ts hrest ih =>
    rw [Cursor.openings_behind hrest] at ih
    have htokens : c.tokens = t.token :: ts.map (·.token) := by rw [Cursor.tokens, hrest, List.map_cons]
    rw [List.map_cons, htokens, openings]
    split
    · exact ih.cons_cons _
    · exact ih.cons _

/-! ## The main statement -/

/-- A construct that an attempt files starts at the attempt's first token. -/
theorem Attempt.filed_start (c : Cursor) :
    ∀ a ∈ attempts c, ∀ x ∈ a.filed?, ∃ t ts, a.start.tokens = t :: ts ∧
      x.span.start = t.span.start := by
  fun_induction attempts c with
  | case1 c hrest =>
    intro a ha
    exact absurd ha List.not_mem_nil
  | case2 c t ts hrest ih =>
    refine List.forall_mem_cons.2 ⟨fun x hx => ?_, ih⟩
    refine ⟨t.token, ts.map (·.token), by rw [Cursor.tokens, hrest, List.map_cons], ?_⟩
    unfold Attempt.filed? at hx
    split at hx
    · next y d hread =>
      cases hx
      rw [Construct.span_withComments]
      obtain ⟨construct, hk, hread⟩ := Cursor.exists_of_construct hread
      exact Parser.construct_yields hk _ _ trivial _ _ hread
    · cases hx

/-- Reading always makes progress, and no construct disappears silently. The constructs of a document
are those that the attempts file, each from its first token on, and the diagnostics that are not
about the value of a setting are those of the attempts that fail. Every keyword that opens a
construct and has no colon behind it is the first token of an attempt of its own, so there are no
more of them than constructs and such diagnostics. And there are no more constructs and diagnostics
than tokens. -/
theorem ofTokens_progress (ts : List Token) :
    ((ofTokens ts).document.constructs = (attempts (.ofTokens ts)).filterMap Attempt.filed? ∧
      (∀ a ∈ attempts (.ofTokens ts), ∀ x ∈ a.filed?, ∃ t others, a.start.tokens = t :: others ∧
        x.span.start = t.span.start) ∧
      (ofTokens ts).diagnostics.filter (!·.isInvalidValue) =
        (attempts (.ofTokens ts)).filterMap Attempt.diagnostic?) ∧
    (openings (structuralTokens ts)).Sublist ((attempts (.ofTokens ts)).map (·.start.tokens)) ∧
    (openings (structuralTokens ts)).length ≤ (ofTokens ts).document.constructs.length +
      ((ofTokens ts).diagnostics.filter (!·.isInvalidValue)).length ∧
    (ofTokens ts).document.constructs.length + (ofTokens ts).diagnostics.length ≤
      (structuralTokens ts).length := by
  have hconstructs := constructs_eq_filterMap_attempts (.ofTokens ts)
  have hopenings := openings_sublist_attempts (.ofTokens ts)
  obtain ⟨new, hreported, hfilter, hle⟩ := readConstructs_pays (.ofTokens ts)
  rw [tokens_ofTokens] at hopenings
  have hdiagnostics : (ofTokens ts).diagnostics = new := hreported
  have hlength : (Cursor.ofTokens ts).rest.length = (structuralTokens ts).length := by
    rw [← tokens_ofTokens, Cursor.tokens, List.length_map]
  refine ⟨⟨hconstructs, Attempt.filed_start _, ?_⟩, hopenings, ?_, ?_⟩
  · rw [hdiagnostics, hfilter]
  · have hcount := hopenings.length_le
    rw [List.length_map, length_attempts, ← hconstructs, ← hfilter, ← hdiagnostics] at hcount
    exact hcount
  · rw [hdiagnostics, ← hlength]
    exact hle

end SchemaDiagram.Document
