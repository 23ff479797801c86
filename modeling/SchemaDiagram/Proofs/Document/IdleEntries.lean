import SchemaDiagram.Proofs.Document.Ahead
import SchemaDiagram.Proofs.Document.Blame
import SchemaDiagram.Proofs.Document.TwoAhead

/-!
# Entries that change nothing

An entry of a list of settings is idle if its key is unknown to the construct or if the key cannot
take its value. The value of an unknown key may be any tokens with balanced brackets that have no
comma outside of these; they are passed over as one, whatever is in them, since one count of open
brackets is enough to find the comma or bracket that ends the entry (`entryLength_of_isValueFrom`).

Main statement: `run_settingEntry_of_isIdle`, reading an idle entry leaves the setting as it was and
reports what is wrong with its value, if anything is.
-/

namespace SchemaDiagram.Document

open SchemaDiagram.Document.Parser

/-! ## Lists of settings -/

namespace ListKind

/-- The forms of the keys that are known. -/
def knownForms : ListKind → List String
  | project => ["databasetype", "note"]
  | table => ["alias", "posx", "posy", "color", "headercolor", "note"]
  | column => ["pk", "primary", "fk", "unique", "not", "null", "increment", "autoincrement",
      "default", "alias", "note"]
  | index => ["unique", "pk", "name"]
  | reference => ["swapedge", "note"]
  | area => ["posx", "posy", "width", "height", "color", "databasetype", "labelhorizontal",
      "labelvertical", "note"]

/-- What the values of a key are checked for, by the form of the key. -/
def expectation? : ListKind → String → Option String
  | table, "posx" | table, "posy" | area, "posx" | area, "posy" | area, "width" | area, "height" =>
    some "expected a number"
  | table, "color" | table, "headercolor" | area, "color" => some "expected #RGB or #RRGGBB"
  | reference, "swapedge" => some "expected true or false"
  | area, "labelhorizontal" => some "expected left, center or right"
  | area, "labelvertical" => some "expected top, center or bottom"
  | _, _ => none

end ListKind

/-! ## Entries -/

/-- The tokens of a value that stand inside `depth` brackets or are the brackets that close them: a
comma and a closing bracket stand only inside of brackets, and a keyword that opens a construct only
in front of a colon. -/
def IsValueFrom : Nat → List Token → Prop
  | depth, [] => depth = 0
  | depth, t :: ts =>
    (t.kind ≠ .comment ∧ t.kind ≠ .endOfInput) ∧
    (t.kind.opensConstruct = true → ts.head?.map (·.kind) = some (.mark .colon)) ∧
    (depth = 0 →
      t.kind ∉ [.mark .comma, .mark .rightParen, .mark .rightBracket, .mark .rightBrace]) ∧
    IsValueFrom (depthAfter depth t.kind) ts

/-- Whether tokens are such a value can be computed. -/
def decideIsValueFrom : (depth : Nat) → (ts : List Token) → Decidable (IsValueFrom depth ts)
  | depth, [] => inferInstanceAs (Decidable (depth = 0))
  | depth, t :: ts =>
    have := decideIsValueFrom (depthAfter depth t.kind) ts
    inferInstanceAs (Decidable (_ ∧ _ ∧ _ ∧ IsValueFrom (depthAfter depth t.kind) ts))

instance (depth : Nat) (ts : List Token) : Decidable (IsValueFrom depth ts) :=
  decideIsValueFrom depth ts

/-- An entry that changes nothing, and what is reported about it. -/
inductive IsIdle (l : ListKind) : List Token → List Diagnostic → Prop
  /-- The construct does not know the key, which is a name, or a keyword in front of a colon. -/
  | unknown {k : Token} {vs : List Token}
    (hkey : k.kind.isName = true ∨
      k.kind.opensConstruct = true ∧ vs.head?.map (·.kind) = some (.mark .colon))
    (hform : (SettingKey.mk k.value).form ∉ l.knownForms) (hvalue : IsValueFrom 0 vs) :
    IsIdle l (k :: vs) []
  /-- The key cannot take the value. -/
  | rejected {k colon v : Token} {reason : String}
    (hkey : k.kind.isName = true ∨ k.kind.opensConstruct = true)
    (hform : l.expectation? (SettingKey.mk k.value).form = some reason)
    (hcolon : colon.kind = .mark .colon) (hvalue : isSettingValue v.kind = true)
    (hrejects : Rejects reason v) :
    IsIdle l [k, colon, v] [.invalidValue k.value v.text reason v.span]

/-! ## Keys -/

namespace ListKind

variable {l : ListKind} {s : l.State} {key : SettingKey}

/-- A key means nothing to a list exactly when the list does not know it. -/
theorem meaning?_eq_none_iff {form : String} : l.meaning? form = none ↔ form ∉ l.knownForms := by
  cases l
  all_goals
    simp only [meaning?, projectKey?, tableKey?, columnKey?, indexKey?, referenceKey?, areaKey?]
    split <;> simp_all [knownForms]

/-- A key that is not known is left to be passed over. -/
theorem apply_of_not_mem_knownForms (h : key.form ∉ l.knownForms) : l.apply s key = pure none := by
  rw [l.apply_eq, meaning?_eq_none_iff.2 h]
  rfl

/-- The keys that are known are read: in front of the word `key`, each of them either changes a
setting or fails for want of its value. -/
theorem apply_ne_of_mem_knownForms (h : key.form ∈ l.knownForms) : l.apply s key ≠ pure none := by
  intro heq
  have hrun := congrArg (fun p => p.run ⟨[⟨[], .identifier, .point ⟨0, 0, 0⟩, "key"⟩], [], [],
    .point ⟨0, 0, 0⟩, .point ⟨0, 0, 0⟩⟩) heq
  obtain ⟨⟨field, after⟩, hform⟩ : ∃ entry, l.meaning? key.form = some entry :=
    Option.ne_none_iff_exists'.1 fun hnone => meaning?_eq_none_iff.1 hnone h
  rw [l.apply_eq, hform] at hrun
  cases after <;> cases hrun

/-- The known keys are those that are not left to be passed over. -/
theorem apply_eq_pure_none_iff : l.apply s key = pure none ↔ key.form ∉ l.knownForms :=
  ⟨fun heq hmem => apply_ne_of_mem_knownForms hmem heq, apply_of_not_mem_knownForms⟩

end ListKind

/-- A value is rejected with the reason of the form that it does not have. -/
theorem rejects_iff {reason : String} {v : Token} :
    Rejects reason v ↔
      reason = "expected a number" ∧ numberOf? v = none ∨
      reason = "expected true or false" ∧ flagOf? v = none ∨
      reason = "expected #RGB or #RRGGBB" ∧ Color.ofString? v.value = none ∨
      reason = "expected left, center or right" ∧
        HorizontalLabel.ofWord? (Text.lower v.value) = none ∨
      reason = "expected top, center or bottom" ∧
        VerticalLabel.ofWord? (Text.lower v.value) = none := by
  constructor
  · rintro (h | h | h | h | h) <;> simp [h]
  · rintro (⟨rfl, h⟩ | ⟨rfl, h⟩ | ⟨rfl, h⟩ | ⟨rfl, h⟩ | ⟨rfl, h⟩)
    · exact .number h
    · exact .flag h
    · exact .color h
    · exact .horizontalLabel h
    · exact .verticalLabel h

namespace Parser

variable {α : Type} {view : Token → Option α} {reason : String} {key : SettingKey} {v : Token}
  {c d : Cursor}

/-- A value of another form is reported and gives nothing. -/
theorem run_settingOf_of_none (hread : settingValue.run c = .ok v d) (hview : view v = none) :
    (settingOf view reason key).run c =
      .ok none (d.report (.invalidValue key.text v.text reason v.span)) := by
  refine (run_bind_of_ok hread).trans ?_
  rw [hview]
  rfl

end Parser

/-- Values that a key cannot take are those that the check of the key rejects. -/
theorem ListKind.exists_checked {l : ListKind} {form reason : String}
    (h : l.expectation? form = some reason) :
    ∃ field view, l.meaning? form = some (field, .checked view reason) ∧
      ∀ v, Rejects reason v → view v = none := by
  unfold expectation? at h
  split at h <;> cases h
  all_goals
    refine ⟨_, _, rfl, fun v hrejects => Option.map_eq_none_iff.2 ?_⟩
    simpa using rejects_iff.1 hrejects

/-- A value that a key cannot take is reported, and the setting is left as it was. -/
theorem ListKind.run_apply_of_rejects {l : ListKind} {s : l.State} {key : SettingKey}
    {reason : String} {v : Token} {c d : Cursor} (h : l.expectation? key.form = some reason)
    (hrejects : Rejects reason v) (hread : settingValue.run c = .ok v d) :
    (l.apply s key).run c =
      .ok (some s) (d.report (.invalidValue key.text v.text reason v.span)) := by
  obtain ⟨field, view, hform, hview⟩ := exists_checked h
  rw [l.apply_eq, hform]
  exact run_bind_of_ok (run_settingOf_of_none hread (hview v hrejects))

/-! ## Reading an idle entry -/

/-- A key is a name, or a keyword in front of a colon. -/
theorem Parser.run_settingKey_of_tokens {c : Cursor} {t : Token} {ts : List Token}
    (h : c.tokens = t :: ts)
    (hkey : t.kind.isName = true ∨
      t.kind.opensConstruct = true ∧ ts.head?.map (·.kind) = some (.mark .colon)) :
    settingKey.run c = .ok ⟨t.value⟩ c.advance := by
  rw [run_settingKey_eq]
  refine run_bind_of_ok (run_take_of_tokens h ?_)
  rw [Cursor.secondKind?_of_tokens h]
  rcases hkey with hname | ⟨hopens, hcolon⟩
  · rw [hname, Bool.true_or]
  · rw [hopens, hcolon]
    simp

/-- More tokens behind the value leave the key what it is. -/
theorem isKey_append {k : Token} {vs : List Token}
    (h : k.kind.isName = true ∨
      k.kind.opensConstruct = true ∧ vs.head?.map (·.kind) = some (.mark .colon)) (ws : List Token) :
    k.kind.isName = true ∨
      k.kind.opensConstruct = true ∧ (vs ++ ws).head?.map (·.kind) = some (.mark .colon) := by
  refine h.imp_right (And.imp_right fun hcolon => ?_)
  cases vs with
  | nil => cases hcolon
  | cons v vs => exact hcolon

/-- The rest of an entry is counted up to the comma or bracket that ends it. -/
theorem entryLength_of_isValueFrom {r : List CommentedToken} (hr : EntryEnds (firstKind? r))
    (depth : Nat) (ts : List CommentedToken) (h : IsValueFrom depth (ts.map (·.token))) :
    entryLength depth (ts ++ r) = (ts.length, true) := by
  induction ts generalizing depth with
  | nil =>
    obtain rfl : depth = 0 := h
    exact entryLength_of_entryEnds hr
  | cons t ts ih =>
    obtain ⟨-, hopens, houtside, hvalue⟩ := h
    have hnext : (t.token.kind.opensConstruct &&
        (ts ++ r).head?.map (·.token.kind) != some (.mark .colon)) = false := by
      cases hkeyword : t.token.kind.opensConstruct with
      | false => rfl
      | true =>
        have hcolon := hopens hkeyword
        cases ts with
        | nil => cases hcolon
        | cons u us => simpa using hcolon
    simp only [List.cons_append, entryLength, hnext, ih _ hvalue, List.length_cons]
    rw [if_neg, if_neg, if_neg Bool.false_ne_true]
    · rintro ⟨hdepth, hbrace⟩
      exact houtside hdepth (by simp [hbrace])
    · rintro ⟨hdepth, hends⟩
      exact houtside hdepth (by rcases hends with h | h <;> simp [h])

/-- A value that is a call with a list and a comma in it. -/
example : IsValueFrom 0 [⟨.mark .colon, default, ":"⟩, ⟨.identifier, default, "nextval"⟩,
    ⟨.mark .leftParen, default, "("⟩, ⟨.mark .leftBracket, default, "["⟩,
    ⟨.mark .rightBracket, default, "]"⟩, ⟨.mark .comma, default, ","⟩,
    ⟨.number, default, "1"⟩, ⟨.mark .rightParen, default, ")"⟩] := by
  decide

variable {l : ListKind} {c : Cursor} {ts ws : List Token} {new : List Diagnostic}

/-- Reading an idle entry leaves the setting as it was. -/
theorem run_settingEntry_of_isIdle (h : IsIdle l ts new) (s : l.State)
    (hc : c.tokens = ts ++ ws) (hends : EntryEnds (ws.head?.map (·.kind))) :
    (settingEntry l.apply s).run c =
      .ok s ((c.advanceBy ts.length).withReported (c.reported ++ new)) := by
  cases h with
  | @unknown k vs hkey hform hvalue =>
    have htokens : c.advance.tokens = vs ++ ws := Cursor.tokens_advance hc
    have hlength : entryLength 0 c.advance.rest = (vs.length, true) := by
      obtain ⟨ts, r, hrest, hts, hr⟩ := List.map_eq_append_iff.1 htokens
      rw [hrest, ← hts, List.length_map]
      refine entryLength_of_isValueFrom ?_ 0 ts (by rwa [hts])
      rw [← hr, List.head?_map, Option.map_map] at hends
      exact hends
    refine (run_bind_of_ok (run_settingKey_of_tokens hc (isKey_append hkey ws))).trans ?_
    rw [ListKind.apply_of_not_mem_knownForms hform]
    refine (run_bind_of_ok (run_pure none _)).trans ?_
    refine (run_bind_of_ok (a := ()) (d := c.advance.advanceBy vs.length) ?_).trans ?_
    · rw [run_skipEntry, hlength]
      rfl
    · rw [List.append_nil, ← c.reported_advanceBy (k :: vs).length]
      rfl
  | @rejected k colon v reason hkey hform hcolon hvalue hrejects =>
    have htokens : c.advance.tokens = colon :: v :: ws := Cursor.tokens_advance hc
    have hkey' : k.kind.isName = true ∨ k.kind.opensConstruct = true ∧
        (colon :: v :: ws).head?.map (·.kind) = some (.mark .colon) :=
      hkey.imp_right fun hopens => ⟨hopens, congrArg some hcolon⟩
    have hread : settingValue.run c.advance = .ok v c.advance.advance.advance := by
      have hexpect : (expect (.mark .colon)).run c.advance = .ok colon c.advance.advance :=
        run_take_of_tokens htokens (beq_iff_eq.2 hcolon)
      refine (run_bind_of_ok hexpect).trans ?_
      exact run_take_of_tokens (Cursor.tokens_advance htokens) hvalue
    refine (run_bind_of_ok (run_settingKey_of_tokens hc hkey')).trans ?_
    refine (run_bind_of_ok (ListKind.run_apply_of_rejects hform hrejects hread)).trans ?_
    rw [← c.reported_advanceBy [k, colon, v].length]
    rfl

end SchemaDiagram.Document
