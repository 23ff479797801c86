import SchemaDiagram.Proofs.Document.Gaps
import SchemaDiagram.Proofs.Document.Parentheses

/-!
# What an entry says

An entry of a list of settings that a construct knows is a key with what has to follow it
(`IsEntry`). Such an entry is read in front of any tokens that can follow an entry: reading takes its
tokens and no others and makes its change (`IsEntry.run_settingEntry`). It is also all that is read
without a diagnostic (`Accepts.exists_isEntry`), so an entry that was accepted at one place, whatever
stood around it there, is read as the same change at any other place.
-/

namespace SchemaDiagram.Document

open SchemaDiagram.Document.Parser Grammar

variable {c d : Cursor} {ts us ws : List Token}

/-! ## Defaults -/

/-- Without an opening parenthesis behind it, a default is read as the grammar has it. -/
theorem Parser.run_settingDefault_of_tokens {colon : Token} {value : Default}
    (hcolon : colon.kind = .mark .colon) (h : DefaultValue us value)
    (hc : c.tokens = colon :: (us ++ ws)) (hws : NotNext (.mark .leftParen) ws) :
    settingDefault.run c = .ok value (c.advanceBy (us.length + 1)) := by
  have hvalue := Cursor.tokens_advance hc
  refine (run_bind_of_ok (run_expect_of_tokens hc hcolon)).trans ?_
  cases h with
  | @value t form h =>
    have hform : (defaultForm? t.kind).isSome = true := by rw [h]; rfl
    have hbehind := Cursor.tokens_advance hvalue
    have hat : (at? (.mark .leftParen)).run c.advance.advance = .ok false c.advance.advance := by
      refine congrArg (Outcome.ok · c.advance.advance) (beq_eq_false_iff_ne.2 ?_)
      rw [Cursor.kind?_eq, hbehind]
      exact hws.head?_ne
    refine (run_bind_of_ok (run_take_of_tokens hvalue hform)).trans ?_
    refine (run_bind_of_ok hat).trans ?_
    rw [if_neg (by simp), h]
    rfl
  | @call t us arguments hname h =>
    have hform : (defaultForm? t.kind).isSome = true := by rw [hname]; rfl
    have hbehind := Cursor.tokens_advance hvalue
    obtain @⟨opening, closing, inner, hopening, hinner, hclosing⟩ := h
    have hat : (at? (.mark .leftParen)).run c.advance.advance = .ok true c.advance.advance := by
      refine congrArg (Outcome.ok · c.advance.advance) (beq_iff_eq.2 ?_)
      rw [Cursor.kind?_eq, hbehind]
      exact congrArg some hopening
    have hcall : parenthesized.run c.advance.advance =
        .ok (rawText inner) (c.advance.advance.advanceBy (inner.length + 2)) := by
      refine run_parenthesized_iff.2
        ⟨opening, inner, closing, ?_, hopening, hinner, hclosing, rfl, rfl⟩
      have hinside : c.advance.advance.tokens = (opening :: (inner ++ [closing])) ++ ws := hbehind
      rw [show inner.length + 2 = (opening :: (inner ++ [closing])).length by simp,
        Cursor.tokens_advanceBy_of_append hinside, hinside]
      simp
    refine (run_bind_of_ok (run_take_of_tokens hvalue hform)).trans ?_
    refine (run_bind_of_ok hat).trans ?_
    rw [if_pos ⟨hname, rfl⟩]
    refine (run_bind_of_ok hcall).trans (congrArg (Outcome.ok _) ?_)
    rw [show (t :: opening :: (inner ++ [closing])).length + 1 = 2 + (inner.length + 2) by
      simp; omega]
    exact (Cursor.advanceBy_add 2 (inner.length + 2) c).symm

/-- What is read as a default is one. -/
theorem Parser.exists_of_run_settingDefault {value : Default}
    (h : settingDefault.run c = .ok value d) :
    ∃ colon us, colon.kind = .mark .colon ∧ DefaultValue us value ∧
      c.tokens = colon :: (us ++ d.tokens) := by
  obtain ⟨colon, c₁, hexpect, h⟩ := exists_of_run_bind h
  obtain ⟨t, c₂, htake, h⟩ := exists_of_run_bind h
  obtain ⟨isCall, c₃, hat, h⟩ := exists_of_run_bind h
  obtain ⟨hcolon, hc, -⟩ := exists_of_run_expect hexpect
  obtain ⟨hform, hc₁, -⟩ := exists_of_run_take htake
  obtain ⟨hisCall, rfl⟩ := Outcome.ok.inj hat
  split at h
  · next hcall =>
    obtain ⟨arguments, c₄, hparenthesized, hpure⟩ := exists_of_run_bind h
    cases hpure
    obtain ⟨opening, inner, closing, hc₂, hopening, hinner, hclosing, rfl, -⟩ :=
      run_parenthesized_iff.1 hparenthesized
    refine ⟨colon, _, hcolon, .call hcall.1 (.mk hopening hinner hclosing), ?_⟩
    rw [hc, hc₁, hc₂]
    simp
  · cases h
    obtain ⟨form, hform⟩ := Option.isSome_iff_exists.1 hform
    refine ⟨colon, [t], hcolon, ?_, by rw [hc, hc₁]; rfl⟩
    rw [hform]
    exact .value hform

/-! ## What follows a key -/

/-- Tokens that can follow a key, and the change that they say. -/
inductive Follows : AfterKey → List Token → Change → Prop
  | nothing {change : Change} : Follows (.nothing change) [] change
  | null {change : Change} {word : Token} (hword : word.kind = .keyword .null) :
    Follows (.null change) [word] change
  | key {change : Change} {word : Token} (hword : word.isWord "key" = true) :
    Follows (.key change) [word] change
  | text {change : String → Change} {colon value : Token} (hcolon : colon.kind = .mark .colon)
    (hvalue : isSettingValue value.kind = true) :
    Follows (.text change) [colon, value] (change value.value)
  | string {change : String → Change} {colon value : Token} (hcolon : colon.kind = .mark .colon)
    (hvalue : value.kind.isString = true) :
    Follows (.string change) [colon, value] (change value.value)
  | checked {view : Token → Option Change} {expectation : String} {colon value : Token}
    {change : Change} (hcolon : colon.kind = .mark .colon)
    (hvalue : isSettingValue value.kind = true) (hview : view value = some change) :
    Follows (.checked view expectation) [colon, value] change
  | default {colon : Token} {us : List Token} {value : Default}
    (hcolon : colon.kind = .mark .colon) (hvalue : DefaultValue us value) :
    Follows .default (colon :: us) (.default value)

/-- What follows a key changes the field of the key. -/
theorem ListKind.field_eq {l : ListKind} {form : String} {field : Field} {after : AfterKey}
    {change : Change} (hform : l.meaning? form = some (field, after))
    (h : Follows after ts change) : change.field = field := by
  cases l
  all_goals
    simp only [meaning?, projectKey?, tableKey?, columnKey?, indexKey?, referenceKey?, areaKey?]
      at hform
    split at hform <;> cases hform <;> cases h
  all_goals first
    | rfl
    | next hview =>
      obtain ⟨_, -, rfl⟩ := Option.map_eq_some_iff.1 hview
      rfl

section Reading

variable {l : ListKind} {s t : l.State} {key : SettingKey} {after : AfterKey} {change : Change}

/-- A colon and a value that are ahead are read as the value. -/
theorem Parser.run_settingValue_of_tokens {colon value : Token}
    (hc : c.tokens = colon :: value :: ws) (hcolon : colon.kind = .mark .colon)
    (hvalue : isSettingValue value.kind = true) :
    settingValue.run c = .ok value (c.advanceBy 2) :=
  (run_bind_of_ok (run_expect_of_tokens hc hcolon)).trans
    (run_take_of_tokens (Cursor.tokens_advance hc) hvalue)

/-- A value of the right form is what the setting gives. -/
theorem Parser.run_settingOf_of_some {α : Type} {view : Token → Option α} {a : α} {reason : String}
    {value : Token} (hread : settingValue.run c = .ok value d) (hview : view value = some a) :
    (settingOf view reason key).run c = .ok (some a) d := by
  refine (run_bind_of_ok hread).trans ?_
  rw [hview]
  rfl

/-- A value that has been read stood behind a colon. -/
theorem Parser.exists_of_run_settingValue {value : Token}
    (h : settingValue.run c = .ok value d) :
    ∃ colon, c.tokens = colon :: value :: d.tokens ∧ colon.kind = .mark .colon ∧
      isSettingValue value.kind = true := by
  obtain ⟨colon, c', hexpect, htake⟩ := exists_of_run_bind h
  obtain ⟨hcolon, hc, -⟩ := exists_of_run_expect hexpect
  obtain ⟨hvalue, hc', -⟩ := exists_of_run_take htake
  exact ⟨colon, by rw [hc, hc'], hcolon, hvalue⟩

/-- Where nothing is reported of a value, it can be taken. -/
theorem Parser.exists_of_run_settingOf {α : Type} {view : Token → Option α} {a : Option α}
    {reason : String} (h : (settingOf view reason key).run c = .ok a d)
    (hreported : d.reported = c.reported) :
    ∃ colon value b, c.tokens = colon :: value :: d.tokens ∧ colon.kind = .mark .colon ∧
      isSettingValue value.kind = true ∧ view value = some b ∧ a = some b := by
  obtain ⟨value, e, hvalue, hanswer⟩ := exists_of_run_bind h
  obtain ⟨colon, hc, hcolon, hvalue'⟩ := exists_of_run_settingValue hvalue
  cases hview : view value with
  | some b =>
    rw [hview] at hanswer
    cases hanswer
    exact ⟨colon, value, b, hc, hcolon, hvalue', hview, rfl⟩
  | none =>
    -- a value that cannot be taken is reported
    obtain ⟨-, rfl⟩ := Outcome.ok.inj (h.symm.trans (run_settingOf_of_none hvalue hview))
    have hle := (settingValue.reaches c).reported.length_le
    rw [hvalue] at hle
    have hlength := congrArg List.length hreported
    simp only [Cursor.report, Outcome.cursor, List.length_append, List.length_singleton]
      at hle hlength
    omega

/-- Where an entry ends, no parenthesis is next. -/
theorem EntryEnds.notNext_leftParen (h : EntryEnds (ws.head?.map (·.kind))) :
    NotNext (.mark .leftParen) ws := by
  intro t ht hkind
  refine h.ne (k := .mark .leftParen) (by decide) (by decide) ?_
  rw [Option.mem_def.1 ht, Option.map_some, hkind]

/-- What can follow a key is read as the change that it says. -/
theorem Follows.run_reader (h : Follows after ts change) (s : l.State) (key : SettingKey)
    (hc : c.tokens = ts ++ ws) (hends : EntryEnds (ws.head?.map (·.kind))) :
    (after.reader l s key).run c = .ok (some (l.set s change)) (c.advanceBy ts.length) := by
  cases h with
  | nothing => rfl
  | null hword => exact run_bind_of_ok (run_expect_of_tokens hc hword)
  | @key _ word hword =>
    have hahead : keyAhead.run c = .ok true c := by
      obtain ⟨u, us, hrest, rfl, -⟩ := Cursor.exists_rest_of_tokens hc
      refine congrArg (Outcome.ok · c) ?_
      rw [hrest]
      exact hword
    exact (run_bind_of_ok hahead).trans (run_bind_of_ok (run_take_of_tokens hc rfl))
  | text hcolon hvalue =>
    exact (run_bind_of_ok (run_bind_of_ok (run_settingValue_of_tokens hc hcolon hvalue)))
  | string hcolon hvalue =>
    refine run_bind_of_ok ((run_bind_of_ok (run_expect_of_tokens hc hcolon)).trans ?_)
    exact run_bind_of_ok (run_take_of_tokens (Cursor.tokens_advance hc) hvalue)
  | checked hcolon hvalue hview =>
    exact run_bind_of_ok
      (run_settingOf_of_some (run_settingValue_of_tokens hc hcolon hvalue) hview)
  | default hcolon hvalue =>
    exact run_bind_of_ok (run_settingDefault_of_tokens hcolon hvalue hc hends.notNext_leftParen)

/-- What is read behind a key without a diagnostic is what can follow it. -/
theorem AfterKey.exists_follows (h : (after.reader l s key).run c = .ok (some t) d)
    (hreported : d.reported = c.reported) :
    ∃ ts change, Follows after ts change ∧ c.tokens = ts ++ d.tokens := by
  cases after with
  | nothing change =>
    cases h
    exact ⟨[], change, .nothing, rfl⟩
  | null change =>
    obtain ⟨word, c', hexpect, hpure⟩ := exists_of_run_bind h
    cases hpure
    obtain ⟨hword, hc, -⟩ := exists_of_run_expect hexpect
    exact ⟨[word], change, .null hword, hc⟩
  | key change =>
    obtain ⟨isKey, c', hahead, h⟩ := exists_of_run_bind h
    obtain ⟨hisKey, rfl⟩ := Outcome.ok.inj hahead
    split at h
    · next hkey =>
      obtain ⟨word, c', hany, hpure⟩ := exists_of_run_bind h
      cases hpure
      obtain ⟨-, hc, -⟩ := exists_of_run_take hany
      refine ⟨[word], change, .key ?_, hc⟩
      obtain ⟨u, us, hrest, rfl, -⟩ := Cursor.exists_rest_of_tokens hc
      rw [hrest] at hisKey
      exact hisKey.trans hkey
    · cases h
  | text change =>
    obtain ⟨text, c', htext, hpure⟩ := exists_of_run_bind h
    cases hpure
    obtain ⟨value, c', hvalue, hpure⟩ := exists_of_run_bind htext
    cases hpure
    obtain ⟨colon, hc, hcolon, hvalue⟩ := exists_of_run_settingValue hvalue
    exact ⟨[colon, value], _, .text hcolon hvalue, hc⟩
  | string change =>
    obtain ⟨text, c', hstring, hpure⟩ := exists_of_run_bind h
    cases hpure
    obtain ⟨colon, c', hexpect, hstring⟩ := exists_of_run_bind hstring
    obtain ⟨value, c'', htake, hpure⟩ := exists_of_run_bind hstring
    cases hpure
    obtain ⟨hcolon, hc, -⟩ := exists_of_run_expect hexpect
    obtain ⟨hvalue, hc', -⟩ := exists_of_run_take htake
    exact ⟨[colon, value], _, .string hcolon hvalue, by rw [hc, hc']; rfl⟩
  | checked view expectation =>
    obtain ⟨answer, c', hof, hpure⟩ := exists_of_run_bind h
    cases hpure
    -- nothing was reported, so the value has the form that the check asks for
    obtain ⟨colon, value, change, hc, hcolon, hvalue, hview, rfl⟩ :=
      exists_of_run_settingOf hof hreported
    exact ⟨[colon, value], change, .checked hcolon hvalue hview, hc⟩
  | default =>
    obtain ⟨value, c', hdefault, hpure⟩ := exists_of_run_bind h
    cases hpure
    obtain ⟨colon, us, hcolon, hvalue, hc⟩ := exists_of_run_settingDefault hdefault
    exact ⟨colon :: us, _, .default hcolon hvalue, hc⟩

end Reading

/-! ## Entries -/

/-- An entry that a construct knows, and the change that it says: a key, which is a name or a keyword
in front of a colon, and what has to follow it. -/
inductive IsEntry (l : ListKind) : List Token → Change → Prop
  | intro {k : Token} {vs : List Token} {field : Field} {after : AfterKey} {change : Change}
    (hkey : k.kind.isName = true ∨
      k.kind.opensConstruct = true ∧ vs.head?.map (·.kind) = some (.mark .colon))
    (hform : l.meaning? (SettingKey.mk k.value).form = some (field, after))
    (hvalue : Follows after vs change) : IsEntry l (k :: vs) change

/-- The field that an entry sets, by its key. -/
def ListKind.fieldOf? (l : ListKind) : List Token → Option Field
  | [] => none
  | k :: _ => (l.meaning? (SettingKey.mk k.value).form).map Prod.fst

/-- Reading takes the tokens as an entry that the construct knows and reports nothing: at some
cursor, with some settings, and up to a comma or the closing bracket. -/
def Accepts (l : ListKind) (ts : List Token) : Prop :=
  ∃ (c d : Cursor) (s t : l.State), c.tokens = ts ++ d.tokens ∧ EntryEnds d.kind? ∧
    (settingKey >>= l.apply s).run c = .ok (some t) d ∧ d.reported = c.reported

section Entries

variable {l : ListKind} {change : Change}

/-- An entry changes the field of its key. -/
theorem IsEntry.fieldOf?_eq (h : IsEntry l ts change) : l.fieldOf? ts = some change.field := by
  obtain ⟨-, hform, hvalue⟩ := h
  rw [ListKind.fieldOf?, hform, Option.map_some, ListKind.field_eq hform hvalue]

/-- An entry is read as the change that it says, and nothing behind it is read. -/
theorem IsEntry.run_apply (h : IsEntry l ts change) (s : l.State) (hc : c.tokens = ts ++ ws)
    (hends : EntryEnds (ws.head?.map (·.kind))) :
    (settingKey >>= l.apply s).run c = .ok (some (l.set s change)) (c.advanceBy ts.length) := by
  obtain @⟨k, vs, field, after, change, hkey, hform, hvalue⟩ := h
  refine (run_bind_of_ok (run_settingKey_of_tokens hc (isKey_append hkey ws))).trans ?_
  rw [l.apply_eq, hform]
  exact hvalue.run_reader s _ (Cursor.tokens_advance hc) hends

/-- An entry that stands where one ends is read as its change of the state. -/
theorem IsEntry.run_settingEntry (h : IsEntry l ts change) (s : l.State) (hc : c.tokens = ts ++ ws)
    (hends : EntryEnds (ws.head?.map (·.kind))) :
    (settingEntry l.apply s).run c = .ok (l.set s change) (c.advanceBy ts.length) := by
  obtain ⟨key, e, hkey, happly⟩ := exists_of_run_bind (h.run_apply s hc hends)
  exact (run_bind_of_ok hkey).trans (run_bind_of_ok happly)

/-- What was accepted somewhere says a change. -/
theorem Accepts.exists_isEntry (h : Accepts l ts) : ∃ change, IsEntry l ts change := by
  obtain ⟨c, d, s, t, hc, hends, hread, hreported⟩ := h
  obtain ⟨key, c', hkey, happly⟩ := exists_of_run_bind hread
  rw [run_settingKey_eq] at hkey
  obtain ⟨k, c'', htake, hpure⟩ := exists_of_run_bind hkey
  cases hpure
  obtain ⟨haccepts, hc', rfl⟩ := exists_of_run_take htake
  rw [l.apply_eq] at happly
  split at happly
  · next field after hform =>
    obtain ⟨vs, change, hfollows, hvs⟩ :=
      AfterKey.exists_follows happly (hreported.trans (Cursor.reported_advanceBy 1 c).symm)
    obtain rfl : ts = k :: vs := by
      rw [hc', hvs, ← List.cons_append] at hc
      exact (List.append_cancel_right hc).symm
    refine ⟨change, .intro ?_ hform hfollows⟩
    simp only [Bool.or_eq_true, Bool.and_eq_true, beq_iff_eq] at haccepts
    refine haccepts.imp_right (And.imp_right fun hcolon => ?_)
    rw [Cursor.secondKind?_of_tokens hc] at hcolon
    cases vs with
    | nil =>
      rw [d.kind?_eq] at hends
      exact absurd hcolon (hends.ne (by decide) (by decide))
    | cons v vs => exact hcolon
  · cases happly

/-- An entry that says a change is accepted, in front of a comma. -/
theorem IsEntry.accepts (h : IsEntry l ts change) (s : l.State) : Accepts l ts := by
  let comma : Token := ⟨.mark .comma, default, ","⟩
  have hc : (Cursor.facing default default (ts ++ [comma])).tokens = ts ++ [comma] := by
    rw [Cursor.tokens, Cursor.rest_facing, List.map_map]
    exact List.map_id _
  have hbehind := Cursor.tokens_advanceBy_of_append hc
  refine ⟨_, _, s, _, by rw [hbehind, hc], ?_, h.run_apply s hc (Or.inl rfl),
    Cursor.reported_advanceBy _ _⟩
  rw [Cursor.kind?_eq, hbehind]
  exact Or.inl rfl

end Entries

end SchemaDiagram.Document
