import SchemaDiagram.Proofs.Document.IdleEntries

/-!
# Between the entries of a list of settings

A gap of a list is a place where reading has come to the end of an entry or of a comma, or has only
passed the opening bracket. `Gap` describes these places by what was read before, and `settingsFrom`
is what is left to be read from one. A comma that stands in a gap may be passed there or not, and
with entries and commas that change nothing reading comes from one gap to another.

Main statements: `Gap.run_settings?`, reading a list is reading the rest of it from any of its gaps;
`Gap.before`, a gap is known from the tokens up to it; `Gap.idle`, an idle entry with commas around
it leads from a gap to a gap with the same setting.
-/

namespace SchemaDiagram.Document

open SchemaDiagram.Document.Parser

section Gaps

variable {σ : Type} {apply : σ → SettingKey → Parser (Option σ)} {s t : σ} {c d e : Cursor}
  {behindEntry : Bool}

/-- Reading a list of settings from a cursor in front of it comes to another cursor between its
entries. The flag tells whether an entry was read last, so that a comma has to follow. -/
inductive Gap (apply : σ → SettingKey → Parser (Option σ)) (s : σ) (c : Cursor) :
    Bool → σ → Cursor → Prop
  | first (hbracket : c.kind? = some (.mark .leftBracket)) : Gap apply s c false s c.advance
  | comma {behindEntry : Bool} {t : σ} {d : Cursor} (h : Gap apply s c behindEntry t d)
    (hcomma : d.kind? = some (.mark .comma)) : Gap apply s c false t d.advance
  | entry {t u : σ} {d e : Cursor} (h : Gap apply s c false t d)
    (hread : (settingEntry apply t).run d = .ok u e) : Gap apply s c true u e

namespace Parser

/-- Reads the rest of a list of settings. -/
def settingsRest (apply : σ → SettingKey → Parser (Option σ)) (s : σ) : Parser σ :=
  iterate (settingsStep apply) (consumes_settingsStep apply) s

/-- Reads the rest of a list of settings from a gap. -/
def settingsFrom (apply : σ → SettingKey → Parser (Option σ)) (behindEntry : Bool) (s : σ) :
    Parser σ :=
  if behindEntry then do
    settingEnd
    settingsRest apply s
  else settingsRest apply s

/-- Where some kind is next, any token can be taken. -/
theorem run_any_of_kind? {k : TokenKind} (h : c.kind? = some k) :
    ∃ t, any.run c = .ok t c.advance := by
  obtain ⟨t, ht, -⟩ := Cursor.exists_of_kind? h
  exact ⟨t, run_take_of_tokens ht rfl⟩

/-- Behind an entry, a comma is taken. -/
theorem run_settingEnd_of_comma (h : c.kind? = some (.mark .comma)) :
    settingEnd.run c = .ok () c.advance := by
  obtain ⟨t, ht⟩ := run_any_of_kind? h
  rw [settingEnd, run_kind?_bind, h]
  exact run_bind_of_ok ht

/-- A comma in a gap is passed. -/
theorem run_settingsFrom_of_comma (h : c.kind? = some (.mark .comma)) (behindEntry : Bool) (s : σ) :
    (settingsFrom apply behindEntry s).run c = (settingsRest apply s).run c.advance := by
  obtain ⟨t, ht⟩ := run_any_of_kind? h
  cases behindEntry with
  | true => exact run_bind_of_ok (run_settingEnd_of_comma h)
  | false =>
    refine run_iterate_of_next ?_
    rw [settingsStep, run_kind?_bind, h]
    exact run_bind_of_ok ht

/-- An entry starts with a key. -/
theorem not_entryEnds_of_settingEntry (h : (settingEntry apply s).run c = .ok t d) :
    ¬ EntryEnds c.kind? := by
  intro hends
  obtain ⟨key, e, hkey, -⟩ := exists_of_run_bind h
  rw [run_settingKey_eq] at hkey
  obtain ⟨u, e', htake, -⟩ := exists_of_run_bind hkey
  obtain ⟨haccepts, -, htokens, -⟩ := Ensures.take _ _ u e' htake
  rw [Cursor.kind?_of_tokens htokens] at hends
  rcases hends with hkind | hkind
  · rw [Option.some.inj hkind] at haccepts
    cases haccepts
  · rw [Option.some.inj hkind] at haccepts
    cases haccepts

/-- With neither a comma nor the closing bracket ahead, an entry is read. -/
theorem run_settingsStep_of_not_entryEnds (hends : ¬ EntryEnds c.kind?) :
    (settingsStep apply s).run c =
      (settingEntry apply s >>= fun t => settingEnd >>= fun _ =>
        (Pure.pure (.inl t) : Parser (σ ⊕ σ))).run c := by
  rw [settingsStep, run_kind?_bind]
  split
  · next hbracket => exact absurd (Or.inr hbracket) hends
  · next hcomma => exact absurd (Or.inl hcomma) hends
  · rfl

/-- An entry in a gap is read. -/
theorem run_settingsRest_of_entry (h : (settingEntry apply s).run c = .ok t d) :
    (settingsRest apply s).run c = (settingsFrom apply true t).run d := by
  have hstep : (settingsStep apply s).run c =
      (settingEnd >>= fun _ => (Pure.pure (.inl t) : Parser (σ ⊕ σ))).run d :=
    (run_settingsStep_of_not_entryEnds (not_entryEnds_of_settingEntry h)).trans (run_bind_of_ok h)
  show (iterate (settingsStep apply) _ s).run c =
    (settingEnd >>= fun _ => settingsRest apply t).run d
  rw [run_iterate, hstep, run_bind, run_bind]
  cases settingEnd.run d with
  | ok a e => rfl
  | failed x e => rfl

/-- At the closing bracket, the rest of a list of settings is empty. -/
theorem run_settingsRest_of_rightBracket (h : c.kind? = some (.mark .rightBracket)) (s : σ) :
    (settingsRest apply s).run c = .ok s c.advance := by
  obtain ⟨t, ht⟩ := run_any_of_kind? h
  refine run_iterate_of_last ?_
  rw [settingsStep, run_kind?_bind, h]
  exact run_bind_of_ok ht

/-- Where a list goes on with neither a comma nor its closing bracket, an entry is read. -/
theorem exists_settingEntry (hends : ¬ EntryEnds c.kind?)
    (hread : (settingsRest apply s).run c = .ok t e) :
    ∃ u d, (settingEntry apply s).run c = .ok u d := by
  rw [settingsRest, run_iterate, run_settingsStep_of_not_entryEnds hends, run_bind] at hread
  cases hentry : (settingEntry apply s).run c with
  | ok u d => exact ⟨u, d, rfl⟩
  | failed x d =>
    rw [hentry] at hread
    cases hread

/-- The rest of a list has its closing bracket. -/
theorem ne_nil_of_settingsRest (hread : (settingsRest apply s).run c = .ok t e) :
    c.rest ≠ [] := by
  by_cases hends : EntryEnds c.kind?
  · rcases hends with hcomma | hbracket
    · exact Cursor.ne_nil_of_kind? hcomma
    · exact Cursor.ne_nil_of_kind? hbracket
  · obtain ⟨u, d, hentry⟩ := exists_settingEntry hends hread
    have hlt := consumes_settingEntry apply s c u d hentry
    exact List.ne_nil_of_length_pos (by omega)

/-- A comma or the closing bracket has to follow an entry. -/
theorem entryEnds_of_settingEnd {u : Unit} (h : settingEnd.run c = .ok u d) :
    EntryEnds c.kind? := by
  rw [settingEnd, run_kind?_bind] at h
  split at h
  · next hcomma => exact Or.inl hcomma
  · next hbracket => exact Or.inr hbracket
  · cases h

/-- In front of a comma or the closing bracket it makes no difference whether an entry was read. -/
theorem run_settingsFrom_eq {behindEntry : Bool} (h : behindEntry = true → EntryEnds c.kind?)
    (s : σ) : (settingsFrom apply behindEntry s).run c = (settingsRest apply s).run c := by
  cases behindEntry with
  | false => rfl
  | true =>
    rcases h rfl with hcomma | hbracket
    · exact (run_settingsFrom_of_comma hcomma true s).trans
        (run_settingsFrom_of_comma hcomma false s).symm
    · refine run_bind_of_ok (a := ()) ?_
      rw [settingEnd, run_kind?_bind, hbracket]
      rfl

end Parser

/-- Reading a list is reading the rest of it from any of its gaps. -/
theorem Gap.run_settings? (h : Gap apply s c behindEntry t d) :
    (settings? apply s).run c = (settingsFrom apply behindEntry t).run d := by
  induction h with
  | first hbracket =>
    obtain ⟨u, hu, -⟩ := Cursor.exists_of_kind? hbracket
    have hat : (at? (.mark .leftBracket)).run c = .ok true c :=
      congrArg (Outcome.ok · c) (beq_iff_eq.2 hbracket)
    have hexpect : (expect (.mark .leftBracket)).run c = .ok u c.advance := by
      refine run_take_of_tokens hu (beq_iff_eq.2 ?_)
      rw [Cursor.kind?_of_tokens hu] at hbracket
      exact Option.some.inj hbracket
    exact (run_bind_of_ok hat).trans (run_bind_of_ok hexpect)
  | comma h hcomma ih => rw [ih, run_settingsFrom_of_comma hcomma]; rfl
  | entry h hread ih => exact ih.trans (run_settingsRest_of_entry hread)

/-- A list ends at its closing bracket, with the settings read so far. -/
theorem Gap.run_settings?_of_rightBracket (h : Gap apply s c behindEntry t d)
    (hbracket : d.kind? = some (.mark .rightBracket)) :
    (settings? apply s).run c = .ok t d.advance := by
  rw [h.run_settings?, run_settingsFrom_eq fun _ => Or.inr hbracket]
  exact run_settingsRest_of_rightBracket hbracket t

/-- A list that is read is read on from any of its gaps, and where an entry is right before the gap,
it ends there. -/
theorem Gap.entryEnds {u : σ} (h : Gap apply s c behindEntry t d)
    (hread : (settings? apply s).run c = .ok u e) (hbehind : behindEntry = true) :
    EntryEnds d.kind? := by
  subst hbehind
  obtain ⟨_, c', hend, -⟩ := exists_of_run_bind (h.run_settings?.symm.trans hread)
  exact entryEnds_of_settingEnd hend

/-- A list that is read has its closing bracket behind each of its gaps. -/
theorem Gap.rest_ne_nil {u : σ} (h : Gap apply s c behindEntry t d)
    (hread : (settings? apply s).run c = .ok u e) : d.rest ≠ [] := by
  have hfrom := h.run_settings?.symm.trans hread
  rw [run_settingsFrom_eq (h.entryEnds hread)] at hfrom
  exact ne_nil_of_settingsRest hfrom

/-- A gap stands behind the opening bracket. -/
theorem Gap.length_lt (h : Gap apply s c behindEntry t d) : d.rest.length < c.rest.length := by
  induction h with
  | first hbracket => exact Cursor.length_advance_lt (Cursor.ne_nil_of_kind? hbracket)
  | comma h hcomma ih => exact (Cursor.length_advance_lt (Cursor.ne_nil_of_kind? hcomma)).trans ih
  | entry h hread ih => exact (consumes_settingEntry apply _ _ _ _ hread).trans ih

/-- A gap is known from the tokens up to it, and where an entry is right before it, from whether it
ends there. -/
theorem Gap.before {r : List CommentedToken} (happly : ∀ {k} s key, (apply s key).LooksAhead k)
    (h : Gap apply s (c.before r) behindEntry t d) (hlength : r.length ≤ d.rest.length)
    (hends : behindEntry = true → d.rest.length = r.length → EntryEnds (firstKind? r)) :
    ∃ e : Cursor, d = e.before r ∧ ∀ r' : List CommentedToken,
      (behindEntry = true → d.rest.length = r.length → EntryEnds (firstKind? r')) →
        Gap apply s (c.before r') behindEntry t (e.before r') := by
  generalize hc : c.before r = c' at h
  induction h with
  | first hbracket =>
    subst hc
    have hne := Cursor.ne_nil_of_length_le_advance (Cursor.ne_nil_of_kind? hbracket) hlength
    refine ⟨c.advance, Cursor.advance_before hne, fun r' _ => ?_⟩
    rw [← Cursor.advance_before hne]
    refine .first ?_
    rw [Cursor.kind?_before hne] at hbracket ⊢
    exact hbracket
  | @comma b t d h hcomma ih =>
    have hnext := Cursor.length_advance_lt (Cursor.ne_nil_of_kind? hcomma)
    obtain ⟨e, rfl, hgap⟩ := ih (by omega) fun _ hlength' => by omega
    have hne := Cursor.ne_nil_of_length_le_advance (Cursor.ne_nil_of_kind? hcomma) hlength
    refine ⟨e.advance, Cursor.advance_before hne, fun r' _ => ?_⟩
    rw [← Cursor.advance_before hne]
    refine .comma (hgap r' fun _ hlength' => by omega) ?_
    rw [Cursor.kind?_before hne] at hcomma ⊢
    exact hcomma
  -- an entry that stops where the part does is ended by what stands behind
  | @entry t u d e h hread ih =>
    have hconsumed := consumes_settingEntry apply t d u e hread
    obtain ⟨d, rfl, hgap⟩ := ih (by omega) (absurd · Bool.false_ne_true)
    by_cases hzero : e.rest.length = r.length
    · obtain ⟨e, rfl, hread'⟩ := (looksAhead_settingEntry (k := 0) happly t).exists_ok
        (fun _ => hends rfl hzero) hread (Nat.le_of_eq hzero.symm)
      exact ⟨e, rfl, fun r' hr' => .entry (hgap r' (absurd · Bool.false_ne_true))
        (hread' r' fun _ => hr' rfl hzero)⟩
    · obtain ⟨e, rfl, hread'⟩ := (looksAhead_settingEntry (k := 1) happly t).exists_ok
        (absurd · Nat.one_ne_zero) hread (by omega)
      exact ⟨e, rfl, fun r' _ => .entry (hgap r' (absurd · Bool.false_ne_true))
        (hread' r' (absurd · Nat.one_ne_zero))⟩

/-- Commas lead from a gap to a gap. -/
theorem Gap.commas (h : Gap apply s c behindEntry t d) {commas ws : List Token}
    (hcommas : ∀ x ∈ commas, x.kind = .mark .comma) (htokens : d.tokens = commas ++ ws) :
    Gap apply s c (behindEntry && commas.isEmpty) t (d.advanceBy commas.length) := by
  induction commas generalizing behindEntry d with
  | nil =>
    rw [List.isEmpty_nil, Bool.and_true]
    exact h
  | cons x commas ih =>
    obtain ⟨hx, hcommas⟩ := List.forall_mem_cons.1 hcommas
    have hcomma : d.kind? = some (.mark .comma) := by rw [Cursor.kind?_of_tokens htokens, hx]
    rw [List.isEmpty_cons, Bool.and_false]
    exact ih (h.comma hcomma) hcommas (Cursor.tokens_advance htokens)

end Gaps

/-! ## Idle entries in a gap -/

namespace Cursor

/-- Advancing leaves other diagnostics as they are. -/
theorem advance_withReported (reported : List Diagnostic) (c : Cursor) :
    (c.withReported reported).advance = c.advance.withReported reported := by
  cases hrest : c.rest <;> simp [advance, withReported, hrest]

/-- Advancing by several tokens leaves other diagnostics as they are. -/
theorem advanceBy_withReported (reported : List Diagnostic) (n : Nat) (c : Cursor) :
    (c.withReported reported).advanceBy n = (c.advanceBy n).withReported reported := by
  induction n generalizing c with
  | zero => rfl
  | succ n ih => rw [advanceBy, advance_withReported, ih, advanceBy]

end Cursor

/-- An idle entry with commas around it leads from a gap to a gap with the same setting. A comma is
needed behind an entry, and none behind the idle one in front of another comma or the closing
bracket. -/
theorem Gap.idle {l : ListKind} {s t : l.State} {c d : Cursor} {behindEntry : Bool}
    {front entry back ws : List Token} {new : List Diagnostic}
    (h : Gap l.apply s c behindEntry t d) (hidle : IsIdle l entry new)
    (hcommas : ∀ x ∈ front ++ back, x.kind = .mark .comma)
    (hfront : behindEntry = true → front ≠ [])
    (hback : back ≠ [] ∨ EntryEnds (ws.head?.map (·.kind)))
    (htokens : d.tokens = front ++ entry ++ back ++ ws) :
    Gap l.apply s c back.isEmpty t
      ((d.advanceBy (front ++ entry ++ back).length).withReported (d.reported ++ new)) := by
  obtain ⟨hcommas, hcommas'⟩ := List.forall_mem_append.1 hcommas
  simp only [List.append_assoc] at htokens
  have hbefore := h.commas hcommas htokens
  -- behind the commas in front no entry is left to be ended
  have hflag : (behindEntry && front.isEmpty) = false := by
    cases behindEntry with
    | false => rfl
    | true => simpa using hfront rfl
  rw [hflag] at hbefore
  have htokens' : (d.advanceBy front.length).tokens = entry ++ (back ++ ws) := by
    rw [Cursor.tokens_advanceBy, htokens, List.drop_left]
  have hends : EntryEnds ((back ++ ws).head?.map (·.kind)) := by
    cases back with
    | nil => exact hback.resolve_left (absurd rfl)
    | cons x back => exact Or.inl (congrArg some (List.forall_mem_cons.1 hcommas').1)
  have hentry := hbefore.entry (run_settingEntry_of_isIdle hidle t htokens' hends)
  rw [← Cursor.advanceBy_add, Cursor.reported_advanceBy] at hentry
  have htokens'' : ((d.advanceBy (front.length + entry.length)).withReported
      (d.reported ++ new)).tokens = back ++ ws := by
    show (d.advanceBy (front.length + entry.length)).tokens = _
    rw [Cursor.tokens_advanceBy, htokens, ← List.append_assoc, ← List.length_append, List.drop_left]
  have hafter := hentry.commas hcommas' htokens''
  rw [Bool.true_and, Cursor.advanceBy_withReported, ← Cursor.advanceBy_add] at hafter
  rw [List.length_append, List.length_append]
  exact hafter

end SchemaDiagram.Document
