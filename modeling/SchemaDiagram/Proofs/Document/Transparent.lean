import SchemaDiagram.Proofs.Document.Filing
import SchemaDiagram.Proofs.Document.ListsWithin

/-!
# Idle entries are transparent

With an idle entry and the commas that it needs put into a gap of a list of settings, a document
reads as before, and so do its diagnostics, with what is wrong with the entry's value reported among
them. In front of the gap the tokens behind it do not matter (`TwoAhead`, `ListsWithin`). In the gap
the entry is passed over (`Gap.idle`). Behind it everything is ahead as it was; the two readings
differ in the diagnostics so far, and in nothing else as soon as another token is passed
(`Cursor.Rejoins`, `Cursor.Inserted`), and a parser that is isolated keeps it so. Whether the
construct around the list is read in the end or not makes no difference: what comes of it is the
same, and so is where reading goes on (`ReadsAlike`).

Main statement: `ofTokens_idle_setting`.
-/

namespace SchemaDiagram.Document

open SchemaDiagram.Document.Parser

variable {new : List Diagnostic} {c d e : Cursor}

/-! ## Reading on -/

/-- Reading from both cursors gives the same constructs, and from the second one more diagnostics
among those of the first. -/
def ReadsAlike (new : List Diagnostic) (c d : Cursor) : Prop :=
  (readConstructs d).1 = (readConstructs c).1 ∧
    ∃ xs ys, (readConstructs c).2.reported = xs ++ ys ∧
      (readConstructs d).2.reported = xs ++ new ++ ys

/-- Reading from a cursor with diagnostics inserted gives the same constructs. -/
theorem Cursor.Inserted.readsAlike (h : c.Inserted new d) : ReadsAlike new c d := by
  obtain ⟨xs, ys, hreported, rfl⟩ := h
  have hafter (before : List Diagnostic) :
      c.withReported (before ++ ys) = (c.withReported ys).after [] before c.last := rfl
  have hc : c = c.withReported (xs ++ ys) := by rw [← hreported]; rfl
  obtain ⟨hconstructs, hdiagnostics⟩ := readConstructs_after xs [] c.last (c.withReported ys)
  obtain ⟨hconstructs', hdiagnostics'⟩ :=
    readConstructs_after (xs ++ new) [] c.last (c.withReported ys)
  rw [← hafter, ← hc] at hconstructs hdiagnostics
  rw [← hafter] at hconstructs' hdiagnostics'
  exact ⟨hconstructs'.trans hconstructs.symm, xs, _, hdiagnostics, hdiagnostics'⟩

/-- Reporting keeps the inserted diagnostics in their place. -/
theorem Cursor.Inserted.report (h : c.Inserted new d) (x : Diagnostic) :
    (c.report x).Inserted new (d.report x) := by
  obtain ⟨xs, ys, hreported, rfl⟩ := h
  refine ⟨xs, ys ++ [x], ?_, ?_⟩
  · simp [Cursor.report, hreported]
  · simp [Cursor.report, withReported]

/-- Recovery keeps the inserted diagnostics in their place. -/
theorem Cursor.Inserted.resume (h : c.Inserted new d) : c.resume.Inserted new d.resume := by
  obtain ⟨xs, ys, hreported, rfl⟩ := h
  exact ⟨xs, ys, (reported_advanceBy _ _).trans hreported, advanceBy_withReported _ _ c⟩

section Attempt

variable {o o' : Outcome Construct} (h : o.Inserted new o')
  (havailable : d.availableComments = c.availableComments)
include h havailable

/-- After the same attempt, reading goes on in the same place. -/
theorem Cursor.behind_inserted : (c.behind o).Inserted new (d.behind o') := by
  cases h with
  | ok h => exact h
  | failed h =>
    rw [behind, behind, havailable]
    exact ((h.restore _).report _).resume

/-- An attempt files the same construct with diagnostics inserted. -/
theorem Attempt.filed?_eq_of_inserted : Attempt.filed? ⟨d, o'⟩ = Attempt.filed? ⟨c, o⟩ := by
  cases h with
  | ok h => rw [filed?_ok, filed?_ok, havailable]
  | failed h => rfl

end Attempt

/-- If the same comes of a construct, reading on from it is alike. -/
theorem readsAlike_of_inserted {t : CommentedToken} {ts us : List CommentedToken}
    (hc : c.rest = t :: ts) (hd : d.rest = t :: us)
    (havailable : d.availableComments = c.availableComments)
    (h : (c.construct t.token).Inserted new (d.construct t.token)) : ReadsAlike new c d := by
  obtain ⟨hconstructs, hdiagnostics⟩ := (Cursor.behind_inserted h havailable).readsAlike
  rw [ReadsAlike, readConstructs_of_cons hc, readConstructs_of_cons hd,
    Attempt.filed?_eq_of_inserted h havailable, hconstructs]
  exact ⟨rfl, hdiagnostics⟩

/-! ## Behind an idle entry -/

/-- The same tokens are ahead, and behind the next one the cursors differ in diagnostics only. -/
structure Cursor.Rejoins (new : List Diagnostic) (c d : Cursor) : Prop where
  /-- The same tokens are ahead. -/
  tokens : d.tokens = c.tokens
  /-- What differs when the next one is passed. -/
  advance : c.advance.Inserted new d.advance

/-- Readings that rejoin see the same next kind. -/
theorem Cursor.Rejoins.kind?_eq (h : c.Rejoins new d) : d.kind? = c.kind? := by
  rw [d.kind?_eq, c.kind?_eq, h.tokens]

section Behind

variable {σ : Type} {apply : σ → SettingKey → Parser (Option σ)} {s t : σ}

/-- The rest of a list of settings is isolated when each of its settings is. -/
theorem isolated_settingsRest (happly : ∀ s key, (apply s key).Isolated) (s : σ) :
    (settingsRest apply s).Isolated :=
  isolated_iterate _ (isolated_settingsStep happly) s

/-- A list of settings is isolated from any of its gaps on. -/
theorem isolated_settingsFrom (happly : ∀ s key, (apply s key).Isolated) (behindEntry : Bool)
    (s : σ) : (settingsFrom apply behindEntry s).Isolated := by
  unfold settingsFrom
  split
  · exact isolated_settingEnd.bind fun _ => isolated_settingsRest happly s
  · exact isolated_settingsRest happly s

namespace Cursor.Rejoins

/-- Behind a key the two readings differ in the inserted diagnostics alone. -/
theorem run_settingKey (h : c.Rejoins new d) {key : SettingKey}
    (hread : settingKey.run c = .ok key e) :
    ∃ f, settingKey.run d = .ok key f ∧ e.Inserted new f := by
  rw [run_settingKey_eq] at hread
  obtain ⟨u, e', htake, hkey⟩ := exists_of_run_bind hread
  obtain ⟨haccepts, rfl, htokens, -⟩ := Ensures.take _ _ u e' htake
  cases hkey
  refine ⟨d.advance, ?_, h.advance⟩
  have htokens' : d.tokens = u :: c.advance.tokens := h.tokens.trans htokens
  have hsecond : d.secondKind? = c.secondKind? := by
    rw [Cursor.secondKind?_of_tokens htokens', Cursor.secondKind?_of_tokens htokens]
  rw [run_settingKey_eq, hsecond]
  exact run_bind_of_ok (run_take_of_tokens htokens' haccepts)

/-- Behind an entry the two readings differ in the inserted diagnostics alone. -/
theorem run_settingEntry (happly : ∀ s key, (apply s key).Isolated) (h : c.Rejoins new d)
    (hread : (settingEntry apply s).run c = .ok t e) :
    ∃ f, (settingEntry apply s).run d = .ok t f ∧ e.Inserted new f := by
  obtain ⟨key, c', hkey, hvalue⟩ := exists_of_run_bind hread
  obtain ⟨d', hkey', hinserted⟩ := h.run_settingKey hkey
  obtain ⟨answer, c'', happlied, hanswer⟩ := exists_of_run_bind hvalue
  obtain ⟨d'', happlied', hinserted⟩ := (happly s key).exists_inserted hinserted happlied
  cases answer with
  | some u =>
    obtain ⟨f, hanswer', hinserted⟩ := (isolated_pure u).exists_inserted hinserted hanswer
    exact ⟨f, (run_bind_of_ok hkey').trans ((run_bind_of_ok happlied').trans hanswer'), hinserted⟩
  | none =>
    obtain ⟨f, hanswer', hinserted⟩ :=
      (isolated_skipEntry.bind fun _ => isolated_pure s).exists_inserted hinserted hanswer
    exact ⟨f, (run_bind_of_ok hkey').trans ((run_bind_of_ok happlied').trans hanswer'), hinserted⟩

/-- The rest of a list is read behind an idle entry as without it. -/
theorem run_settingsRest (happly : ∀ s key, (apply s key).Isolated) (h : c.Rejoins new d)
    (hread : (settingsRest apply s).run c = .ok t e) :
    ∃ f, (settingsRest apply s).run d = .ok t f ∧ e.Inserted new f := by
  by_cases hends : EntryEnds c.kind?
  · rcases hends with hcomma | hbracket
    · have hcomma' : d.kind? = some (.mark .comma) := h.kind?_eq.trans hcomma
      obtain ⟨f, hread', hinserted⟩ := (isolated_settingsRest happly s).exists_inserted h.advance
        ((run_settingsFrom_of_comma hcomma false s).symm.trans hread)
      exact ⟨f, (run_settingsFrom_of_comma hcomma' false s).trans hread', hinserted⟩
    · rw [run_settingsRest_of_rightBracket hbracket] at hread
      obtain ⟨rfl, rfl⟩ := Outcome.ok.inj hread
      exact ⟨_, run_settingsRest_of_rightBracket (h.kind?_eq.trans hbracket) s, h.advance⟩
  · obtain ⟨u, c', hentry⟩ := exists_settingEntry hends hread
    obtain ⟨d', hentry', hinserted⟩ := h.run_settingEntry happly hentry
    obtain ⟨f, hread', hinserted'⟩ := (isolated_settingsFrom happly true u).exists_inserted hinserted
      ((run_settingsRest_of_entry hentry).symm.trans hread)
    exact ⟨f, (run_settingsRest_of_entry hentry').trans hread', hinserted'⟩

/-- The same from gaps, each of which may be behind an entry. -/
theorem run_settingsFrom (happly : ∀ s key, (apply s key).Isolated) (h : c.Rejoins new d)
    {behindEntry behindEntry' : Bool} (hread : (settingsFrom apply behindEntry s).run c = .ok t e)
    (hends : behindEntry' = true → EntryEnds c.kind?) :
    ∃ f, (settingsFrom apply behindEntry' s).run d = .ok t f ∧ e.Inserted new f := by
  have hends' : behindEntry = true → EntryEnds c.kind? := by
    rintro rfl
    obtain ⟨u, c', hend, -⟩ := exists_of_run_bind hread
    exact entryEnds_of_settingEnd hend
  rw [run_settingsFrom_eq hends'] at hread
  rw [run_settingsFrom_eq (by rwa [h.kind?_eq])]
  exact h.run_settingsRest happly hread

end Cursor.Rejoins

end Behind

/-! ## Tokens of an idle entry -/

/-- A value's tokens are no comments and do not end the input. -/
theorem plain_of_isValueFrom {depth : Nat} {ts : List Token} (h : IsValueFrom depth ts) :
    ∀ t ∈ ts, t.kind ≠ .endOfInput ∧ t.kind ≠ .comment := by
  induction ts generalizing depth with
  | nil => exact List.forall_mem_nil _
  | cons t ts ih => exact List.forall_mem_cons.2 ⟨h.1.symm, ih h.2.2.2⟩

/-- A key is neither the end of the document nor a comment. -/
theorem plain_of_isKey {k : TokenKind} (h : k.isName = true ∨ k.opensConstruct = true) :
    k ≠ .endOfInput ∧ k ≠ .comment := by
  constructor
  · rintro rfl
    rcases h with h | h <;> cases h
  · rintro rfl
    rcases h with h | h <;> cases h

/-- The tokens of an idle entry take part in the structure. -/
theorem IsIdle.plain {l : ListKind} {ts : List Token} (h : IsIdle l ts new) :
    ∀ t ∈ ts, t.kind ≠ .endOfInput ∧ t.kind ≠ .comment := by
  cases h with
  | unknown hkey _ hvalue =>
    exact List.forall_mem_cons.2
      ⟨plain_of_isKey (hkey.imp_right And.left), plain_of_isValueFrom hvalue⟩
  | @rejected k colon v _ hkey _ hcolon hvalue _ =>
    have hv : v.kind ≠ .endOfInput ∧ v.kind ≠ .comment := by
      constructor
      · intro hkind
        rw [hkind] at hvalue
        cases hvalue
      · intro hkind
        rw [hkind] at hvalue
        cases hvalue
    have hcolon' : colon.kind ≠ .endOfInput ∧ colon.kind ≠ .comment := by
      rw [hcolon]
      exact ⟨by decide, by decide⟩
    simpa using ⟨plain_of_isKey hkey, hcolon', hv⟩

/-! ## Putting tokens in front of others -/

/-- Structural tokens are found behind tokens that are not the end of the input. -/
theorem structuralTokens_append_of_ne {ts : List Token} (h : ∀ t ∈ ts, t.kind ≠ .endOfInput)
    (us : List Token) :
    structuralTokens (ts ++ us) = structuralTokens ts ++ structuralTokens us := by
  have hends : ∀ t ∈ ts, decide (t.kind ≠ .endOfInput) = true := fun t ht => decide_eq_true (h t ht)
  rw [structuralTokens, List.takeWhile_append_of_pos hends, List.filter_append, structuralTokens,
    List.takeWhile_eq_self_iff.2 hends]
  rfl

/-- Tokens without comments are all structural. -/
theorem structuralTokens_append {ts : List Token}
    (h : ∀ t ∈ ts, t.kind ≠ .endOfInput ∧ t.kind ≠ .comment) (us : List Token) :
    structuralTokens (ts ++ us) = ts ++ structuralTokens us := by
  have hends : ∀ t ∈ ts, decide (t.kind ≠ .endOfInput) = true :=
    fun t ht => decide_eq_true (h t ht).1
  have hcomments : ∀ t ∈ ts, decide (t.kind ≠ .comment) = true :=
    fun t ht => decide_eq_true (h t ht).2
  rw [structuralTokens_append_of_ne fun t ht => (h t ht).1]
  congr 1
  rw [structuralTokens, List.takeWhile_eq_self_iff.2 hends, List.filter_eq_self.2 hcomments]

/-- Comments from before stand in front of those of the first token. -/
theorem gatherComments_of_cons {ts : List Token} {comments : List String} {u : CommentedToken}
    {us : List CommentedToken} (h : (gatherComments comments ts).1 = u :: us)
    (before : List String) :
    (gatherComments (before ++ comments) ts).1 =
      { u with comments := before ++ u.comments } :: us := by
  induction ts generalizing comments with
  | nil => cases h
  | cons t ts ih =>
    rw [gatherComments] at h ⊢
    split at h
    · cases h
    · next hend =>
      rw [if_neg hend]
      split at h
      · next hcomment =>
        rw [if_pos hcomment, List.append_assoc]
        exact ih h
      · next hcomment =>
        rw [if_neg hcomment]
        obtain ⟨rfl, rfl⟩ := List.cons.inj h
        rfl

/-- Gathering comments keeps as many tokens as are structural. -/
theorem length_gatherComments {ts : List Token}
    (h : ∀ t ∈ ts, t.kind ≠ .endOfInput ∧ t.kind ≠ .comment) (comments : List String) :
    (gatherComments comments ts).1.length = ts.length := by
  have hself : structuralTokens (ts ++ []) = ts ++ [] := structuralTokens_append h []
  rw [List.append_nil] at hself
  rw [← List.length_map (·.token), tokens_gatherComments, hself]

/-- Tokens put in front of others are passed, and the comments in front of them are not lost. -/
theorem Cursor.exists_passed {c : Cursor} (hc : c.rest = []) {ts : List Token}
    (hts : ∀ t ∈ ts, t.kind ≠ .endOfInput ∧ t.kind ≠ .comment) (comments : List String) :
    ∃ (d : Cursor) (left : List String), d.rest = [] ∧ d.reported = c.reported ∧
      d.stop = c.stop ∧ d.pending ++ left = c.pending ++ comments ∧ ∀ us,
        (c.before (gatherComments comments (ts ++ us)).1).advanceBy ts.length =
          d.before (gatherComments left us).1 := by
  have hlength : (c.before (gatherComments comments ts).1).rest.length = ts.length := by
    rw [length_before, hc, length_gatherComments hts]
    exact Nat.zero_add _
  have hrest : ((c.before (gatherComments comments ts).1).advanceBy ts.length).rest = [] := by
    rw [rest_advanceBy, List.drop_eq_nil_of_le (Nat.le_of_eq hlength)]
  refine ⟨_, (gatherComments comments ts).2, hrest, reported_advanceBy _ _,
    (reaches_advanceBy _ _).stop, ?_, fun us => ?_⟩
  · have hpassed := comments_advanceBy ts.length (c.before (gatherComments comments ts).1)
    have hgathered := commentTexts_gatherComments
      (fun t ht => (hts t (List.mem_of_mem_dropLast ht)).1) comments
    have hnone : commentTexts ts = [] := by
      rw [commentTexts, List.filter_eq_nil_iff.2 fun t ht => by simpa using (hts t ht).2]
      rfl
    rw [Cursor.comments, hrest, List.flatMap_nil, List.append_nil] at hpassed
    rw [hnone, List.append_nil] at hgathered
    rw [hpassed, Cursor.comments, before, hc, List.nil_append, List.append_assoc, hgathered]
  · rw [gatherComments_append fun t ht => (hts t ht).1, before_append,
      advanceBy_before (Nat.le_of_eq hlength.symm)]

/-- With tokens put in front of those ahead and passed, everything is ahead as it was. -/
theorem Cursor.rejoins_before {c : Cursor} (hc : c.rest = []) {ts us : List Token}
    (hts : ∀ t ∈ ts, t.kind ≠ .endOfInput ∧ t.kind ≠ .comment) (hus : structuralTokens us ≠ [])
    (comments : List String) (new : List Diagnostic) :
    (c.before (gatherComments comments us).1).Rejoins new
      (((c.before (gatherComments comments (ts ++ us)).1).advanceBy ts.length).withReported
        (c.reported ++ new)) := by
  obtain ⟨d, left, hd, hreported, hstop, hpending, hpassed⟩ := exists_passed hc hts comments
  obtain ⟨v, vs, hfirst⟩ : ∃ v vs, (gatherComments [] us).1 = v :: vs := by
    refine List.exists_cons_of_ne_nil fun hnil => hus ?_
    rw [← tokens_gatherComments [] us, hnil]
    rfl
  have hset (before : List String) :
      (gatherComments before us).1 = { v with comments := before ++ v.comments } :: vs := by
    simpa using gatherComments_of_cons hfirst before
  rw [hpassed, hset, hset]
  refine ⟨?_, c.reported, [], ?_, ?_⟩
  · simp [tokens, before, withReported, hc, hd]
  · simp [advance, before, hc]
  · simp [advance, before, withReported, hc, hd, hstop, ← List.append_assoc, hpending]

/-! ## Reading around an idle entry -/

/-- The first kind with comments gathered is the first structural one. -/
theorem firstKind?_gatherComments (comments : List String) (ts : List Token) :
    firstKind? (gatherComments comments ts).1 = (structuralTokens ts).head?.map (·.kind) := by
  rw [← tokens_gatherComments comments, List.head?_map, Option.map_map]
  rfl

/-- A cursor over the same tokens has as many left, whatever comments wait. -/
theorem Cursor.length_of_tokens_eq {ts : List Token} (h : c.tokens = structuralTokens ts)
    (comments : List String) : c.rest.length = (gatherComments comments ts).1.length := by
  have hlength : c.tokens.length = (structuralTokens ts).length := congrArg List.length h
  rwa [tokens, ← tokens_gatherComments comments, List.length_map, List.length_map] at hlength

section Around

variable {l : ListKind} {s t : l.State} {behindEntry : Bool} {front entry back vs : List Token}
  {comments : List String}

/-- The tokens that are put into a gap take part in the structure. -/
theorem IsIdle.plain_append (hidle : IsIdle l entry new)
    (hcommas : ∀ t ∈ front ++ back, t.kind = .mark .comma) :
    ∀ t ∈ front ++ entry ++ back, t.kind ≠ .endOfInput ∧ t.kind ≠ .comment := by
  have hplain : ∀ t ∈ front ++ back, t.kind ≠ .endOfInput ∧ t.kind ≠ .comment := by
    intro t ht
    rw [hcommas t ht]
    exact ⟨by decide, by decide⟩
  obtain ⟨hfront, hback⟩ := List.forall_mem_append.1 hplain
  exact List.forall_mem_append.2 ⟨List.forall_mem_append.2 ⟨hfront, hidle.plain⟩, hback⟩

/-- A list of settings is read with an idle entry in one of its gaps as without it. -/
theorem Gap.run_settings?_of_isIdle {u : l.State}
    (hgap : Gap l.apply s (c.before (gatherComments comments vs).1) behindEntry t d)
    (hread : (settings? l.apply s).run (c.before (gatherComments comments vs).1) = .ok u e)
    (hd : d.tokens = structuralTokens vs) (hidle : IsIdle l entry new)
    (hcommas : ∀ t ∈ front ++ back, t.kind = .mark .comma)
    (hfront : behindEntry = true → front ≠ []) (hback : back ≠ [] ∨ EntryEnds d.kind?) :
    ∃ f, (settings? l.apply s).run
          (c.before (gatherComments comments (front ++ entry ++ back ++ vs)).1) = .ok u f ∧
        e.Inserted new f := by
  have hlength := d.length_of_tokens_eq hd comments
  have hends := hgap.entryEnds hread
  have hfrom := hgap.run_settings?.symm.trans hread
  have hne : structuralTokens vs ≠ [] := by
    rw [← hd]
    exact fun hnil => hgap.rest_ne_nil hread (List.map_eq_nil_iff.1 hnil)
  have hplain := hidle.plain_append hcommas
  have htokens : structuralTokens (front ++ entry ++ back ++ vs) =
      front ++ entry ++ back ++ structuralTokens vs := structuralTokens_append hplain vs
  rw [d.kind?_eq, hd] at hends hback
  -- the gap is known from what stands in front of it, so it is there in front of the new tokens too
  obtain ⟨d, rfl, hgap⟩ := hgap.before (looksAhead_apply l) (Nat.le_of_eq hlength.symm)
    fun hbehind _ => by rw [firstKind?_gatherComments]; exact hends hbehind
  have hrest : d.rest = [] := by
    rw [Cursor.length_before] at hlength
    exact List.eq_nil_of_length_eq_zero (by omega)
  have hgap' := hgap (gatherComments comments (front ++ entry ++ back ++ vs)).1
    fun hbehind _ => by
      obtain ⟨t, ts, rfl⟩ := List.exists_cons_of_ne_nil (hfront hbehind)
      rw [firstKind?_gatherComments, htokens]
      exact Or.inl (congrArg some (hcommas t (by simp)))
  have hpassed := hgap'.idle hidle hcommas hfront hback (by
    rw [Cursor.tokens, Cursor.before, hrest, List.nil_append, tokens_gatherComments, htokens])
  have hrejoins := Cursor.rejoins_before hrest hplain hne comments new
  have hends' : back.isEmpty = true →
      EntryEnds (d.before (gatherComments comments vs).1).kind? := by
    intro hback'
    rw [Cursor.kind?_eq, hd]
    exact hback.resolve_left fun hback => hback (List.isEmpty_iff.1 hback')
  obtain ⟨f, hread', hinserted⟩ := hrejoins.run_settingsFrom (isolated_apply l) hfrom hends'
  exact ⟨f, hpassed.run_settings?.trans hread', hinserted⟩

end Around

/-! ## Documents with an idle entry -/

/-- A document in two parts is read from a cursor over the first one with the second behind it. -/
theorem Cursor.ofTokens_append_eq_before {us vs : List Token} (hus : ∀ t ∈ us, t.kind ≠ .endOfInput)
    (hvs : vs ≠ []) :
    Cursor.ofTokens (us ++ vs) =
      Cursor.before (gatherComments (gatherComments [] us).2 vs).1
        ⟨(gatherComments [] us).1, [], [], .point ⟨0, 0, 0⟩, endSpan vs⟩ := by
  obtain ⟨v, vs, rfl⟩ := List.exists_cons_of_ne_nil hvs
  rw [ofTokens, gatherComments_append hus, endSpan_append hus]
  rfl

/-- A list of settings of the construct that an attempt reads starts at a cursor, with the settings
that there are without it. -/
inductive Attempt.HasList (a : Attempt) (l : ListKind) : l.State → Cursor → Prop
  | intro {k : CommentedToken} {ts : List CommentedToken} {d : Cursor} {s : l.State}
    (hrest : a.start.rest = k :: ts)
    (hlist : ReachesList k.token a.start.takeComments.advance l s d) : HasList a l s d

/-- A gap in a list of settings that is read to its end, in the construct that an attempt reads. -/
inductive Attempt.HasGap (a : Attempt) (l : ListKind) : Bool → Cursor → Prop
  | intro {c d e : Cursor} {s t u : l.State} {behindEntry : Bool} (hlist : a.HasList l s c)
    (hread : (settings? l.apply s).run c = .ok u e)
    (hgap : Gap l.apply s c behindEntry t d) : HasGap a l behindEntry d

section Lists

variable {l : ListKind} {s : l.State} {a : Attempt} {start : Cursor}

/-- Only a construct has lists of settings. -/
theorem ReachesList.exists_construct {k : Token} (h : ReachesList k c l s d) :
    ∃ construct, construct? k.kind = some construct := by
  refine exists_construct_of_opensConstruct ?_
  cases h with
  | project hk | table hk | area hk | reference hk | column hk | index hk | commonColumn hk =>
    rw [hk]
    rfl

/-- A list of settings starts behind the construct's keyword. -/
theorem Attempt.HasList.length_lt (h : a.HasList l s d) :
    d.rest.length < a.start.rest.length := by
  obtain ⟨hrest, hlist⟩ := h
  have hle := hlist.length_le
  rw [Cursor.rest_takeComments_advance hrest] at hle
  rw [hrest, List.length_cons]
  omega

/-- Reading on from an attempt is alike with other tokens behind a place in front of one of its
lists, if the same comes of the list with them. -/
theorem Attempt.HasList.readsAlike {r r' : List CommentedToken} (h : a.HasList l s d)
    (hstart : a.start = start.before r) (hlength : r.length < d.rest.length)
    (hsame : ∀ e : Cursor, d = e.before r → ((settings? l.apply s).run (e.before r)).Inserted new
      ((settings? l.apply s).run (e.before r'))) :
    ReadsAlike new (start.before r) (start.before r') := by
  have hlt := h.length_lt
  obtain @⟨k, ts, _, _, hrest, hlist⟩ := h
  rw [hstart, Cursor.length_before] at hlt
  have hne : start.rest ≠ [] := List.ne_nil_of_length_pos (by omega)
  obtain ⟨u, us, -, hfirst⟩ := Cursor.exists_rest_before hne
  obtain rfl : u = k := (List.cons.inj ((hfirst r).symm.trans (hstart ▸ hrest))).1
  rw [hstart, Cursor.takeComments_advance_before hne] at hlist
  obtain ⟨construct, hk⟩ := hlist.exists_construct
  obtain ⟨e, he, goOn, hinserted, hread⟩ := hlist.resumes hk hlength
  refine readsAlike_of_inserted (hfirst r) (hfirst r') ?_ ?_
  · rw [Cursor.availableComments_before hne, Cursor.availableComments_before hne]
  · rw [Cursor.construct_before_of_some hne hk, Cursor.construct_before_of_some hne hk, hread,
      hread]
    exact hinserted new _ _ (hsame e he)

/-- A gap is behind the keyword and the list's bracket. -/
theorem Attempt.HasGap.length_add_two_le {behindEntry : Bool} (h : a.HasGap l behindEntry d) :
    d.rest.length + 2 ≤ a.start.rest.length := by
  obtain ⟨hlist, -, hgap⟩ := h
  have hlist' := hlist.length_lt
  have hgap' := hgap.length_lt
  omega

/-- A gap has tokens behind it, the list's closing bracket at least. -/
theorem Attempt.HasGap.rest_ne_nil {behindEntry : Bool} (h : a.HasGap l behindEntry d) :
    d.rest ≠ [] := by
  obtain ⟨-, hread, hgap⟩ := h
  exact hgap.rest_ne_nil hread

/-- Reading on from an attempt with an idle entry in one of its gaps. -/
theorem Attempt.HasGap.readsAlike_of_isIdle {behindEntry : Bool} {comments : List String}
    {front entry back vs : List Token} (h : a.HasGap l behindEntry d)
    (hstart : a.start = start.before (gatherComments comments vs).1)
    (hd : d.tokens = structuralTokens vs) (hidle : IsIdle l entry new)
    (hcommas : ∀ t ∈ front ++ back, t.kind = .mark .comma)
    (hfront : behindEntry = true → front ≠ []) (hback : back ≠ [] ∨ EntryEnds d.kind?) :
    ReadsAlike new (start.before (gatherComments comments vs).1)
      (start.before (gatherComments comments (front ++ entry ++ back ++ vs)).1) := by
  obtain ⟨hlist, hread, hgap⟩ := h
  have hlength := hgap.length_lt
  rw [d.length_of_tokens_eq hd comments] at hlength
  refine hlist.readsAlike hstart hlength fun e he => ?_
  subst he
  obtain ⟨f, hread', hinserted⟩ :=
    hgap.run_settings?_of_isIdle hread hd hidle hcommas hfront hback
  rw [hread, hread']
  exact .ok hinserted

end Lists

/-- An entry that cannot apply is transparent. Where a list of settings is read to its end, an entry
with an unknown key or with a value that its key cannot take may be put at any place of it, with
commas as they are needed there, whatever becomes of the construct around the list. The constructs
are the same, spans and comments included, and so are the diagnostics, up to those about the entry:
none with an unknown key, and one that tells the key, the value and its span with a value that the
key cannot take. -/
theorem ofTokens_idle_setting {us vs front entry back : List Token} {new : List Diagnostic}
    {a : Attempt} {l : ListKind} {behindEntry : Bool} {d : Cursor}
    (hus : ∀ t ∈ us, t.kind ≠ .endOfInput) (ha : a ∈ attempts (.ofTokens (us ++ vs)))
    (hgap : a.HasGap l behindEntry d) (hd : d.tokens = structuralTokens vs)
    (hidle : IsIdle l entry new) (hcommas : ∀ t ∈ front ++ back, t.kind = .mark .comma)
    (hfront : behindEntry = true → front ≠ []) (hback : back ≠ [] ∨ EntryEnds d.kind?) :
    (ofTokens (us ++ (front ++ entry ++ back) ++ vs)).document = (ofTokens (us ++ vs)).document ∧
      ∃ xs ys, (ofTokens (us ++ vs)).diagnostics = xs ++ ys ∧
        (ofTokens (us ++ (front ++ entry ++ back) ++ vs)).diagnostics = xs ++ new ++ ys := by
  have hvs : vs ≠ [] := by
    rintro rfl
    exact hgap.rest_ne_nil (List.map_eq_nil_iff.1 hd)
  have hlength := hgap.length_add_two_le
  rw [d.length_of_tokens_eq hd (gatherComments [] us).2] at hlength
  have hends : ∀ t ∈ front ++ entry ++ back, t.kind ≠ .endOfInput :=
    fun t ht => (hidle.plain_append hcommas t ht).1
  have hall : endSpan (front ++ entry ++ back ++ vs) = endSpan vs := by
    obtain ⟨v, vs, rfl⟩ := List.exists_cons_of_ne_nil hvs
    exact endSpan_append hends v vs
  rw [Cursor.ofTokens_append_eq_before hus hvs] at ha
  -- up to the attempt the reading is the same, whatever stands behind the gap
  obtain ⟨start, xs, hstart, hread⟩ := attempts_before ha hlength
  obtain ⟨hsame, ys, zs, hys, hzs⟩ :=
    hgap.readsAlike_of_isIdle hstart hd hidle hcommas hfront hback
  have hnot := hread (gatherComments (gatherComments [] us).2 vs).1
  have hwith := hread
    (gatherComments (gatherComments [] us).2 (front ++ entry ++ back ++ vs)).1
  rw [← Cursor.ofTokens_append_eq_before hus hvs] at hnot
  rw [← hall, ← Cursor.ofTokens_append_eq_before hus (by simp [hvs]), hsame,
    ← List.append_assoc us] at hwith
  simp only [ofTokens, hnot, hwith]
  exact ⟨trivial, ys, zs, hys, hzs⟩

/-- A reference up to the end of an entry of its list of settings. -/
def openReference : List Token :=
  [⟨.keyword .ref, default, "Ref"⟩, ⟨.identifier, default, "a"⟩, ⟨.mark .dot, default, "."⟩,
    ⟨.identifier, default, "b"⟩, ⟨.mark .greater, default, ">"⟩, ⟨.identifier, default, "c"⟩,
    ⟨.mark .dot, default, "."⟩, ⟨.identifier, default, "d"⟩, ⟨.mark .leftBracket, default, "["⟩,
    ⟨.identifier, default, "swapEdge"⟩, ⟨.mark .colon, default, ":"⟩,
    ⟨.identifier, default, "true"⟩]

/-- The end of the list and of the document. -/
def closingTokens : List Token :=
  [⟨.mark .rightBracket, default, "]"⟩, ⟨.endOfInput, default, ""⟩]

/-- The same key with a value that it cannot take. -/
def doubtfulEntry : List Token :=
  [⟨.identifier, default, "swap_edge"⟩, ⟨.mark .colon, default, ":"⟩,
    ⟨.identifier, default, "maybe"⟩]

/-- A comma. -/
def commaToken : Token := ⟨.mark .comma, default, ","⟩

/-- The value that was read first stays. -/
theorem ofTokens_idle_setting_doubtful :
    (ofTokens (openReference ++ ([commaToken] ++ doubtfulEntry ++ []) ++ closingTokens)).document =
        (ofTokens (openReference ++ closingTokens)).document ∧
      (ofTokens (openReference ++ ([commaToken] ++ doubtfulEntry ++ []) ++
          closingTokens)).diagnostics =
        [.invalidValue "swap_edge" "maybe" "expected true or false" default] := by
  let start : Cursor := .ofTokens (openReference ++ closingTokens)
  let a : Attempt := ⟨start, start.construct ⟨.keyword .ref, default, "Ref"⟩⟩
  obtain ⟨c, d, s, t, hlist, hgap, hd⟩ : ∃ c d s t, a.HasList .reference s c ∧
      Gap (ListKind.apply .reference) s c true t d ∧ d.tokens = structuralTokens closingTokens :=
    ⟨_, _, _, _, .intro rfl (.reference rfl rfl), .entry (.first rfl) rfl, rfl⟩
  have hbracket : d.kind? = some (.mark .rightBracket) := by
    rw [Cursor.kind?_eq, hd]
    rfl
  have hread := hgap.run_settings?_of_rightBracket hbracket
  obtain ⟨hdocument, xs, ys, hnone, hsome⟩ := @ofTokens_idle_setting openReference closingTokens
    [commaToken] doubtfulEntry [] _ _ _ _ _ (by decide) (first_mem_attempts rfl)
    (.intro hlist hread hgap) hd (.rejected (Or.inl rfl) rfl rfl rfl (.flag rfl)) (by decide)
    (fun _ => List.cons_ne_nil _ _) (Or.inr (Or.inr hbracket))
  refine ⟨hdocument, ?_⟩
  have hclean : (ofTokens (openReference ++ closingTokens)).diagnostics = [] := by decide +kernel
  obtain ⟨rfl, rfl⟩ := List.nil_eq_append_iff.1 (hclean.symm.trans hnone)
  exact hsome

end SchemaDiagram.Document
