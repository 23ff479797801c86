import SchemaDiagram.Proofs.Document.Parts

/-!
# Every construct of the grammar is read

Each setting and each entry of a block is read as what it makes of the construct around it, and so
is the construct. The word of a keyword is often a name: what tells is the token behind it. A type
or the start of the next entry is never a colon or a brace (`isColonOrBrace_of_isName`,
`EntryNext.notNext`), so no name of the grammar is taken for the start of a part.

Main statement: `readsConstruct`.
-/

namespace SchemaDiagram.Document

open Grammar Cursor

variable {last stop : Span} {us vs : List Token}

namespace Parser

/-! ## Indexes -/

/-- An index's setting that the grammar derives is applied by the parser's table of its settings. -/
theorem applies_indexSetting {i j : Index} (h : IndexSetting i us j) :
    Applies indexSetting i us j := by
  cases h with
  | unique h =>
    refine applies_flag h fun key hform => ?_
    rw [indexSetting, hform]
    rfl
  | pk h =>
    refine applies_flag h fun key hform => ?_
    rw [indexSetting, hform]
    rfl
  | name h =>
    refine applies_settingText h (fun text => { i with name := some text }) fun key hform => ?_
    rw [indexSetting, hform]
    rfl

/-- A token that may be an index's column is read as that column's name. -/
theorem run_indexColumn {t : Token} {ts : List Token} (h : isIndexColumn t.kind = true) :
    indexColumn.run (facing last stop (t :: ts)) = .ok t.value (facing t.span stop ts) :=
  run_bind_of_ok (run_take h)

/-- The columns between an index's parentheses are appended in order, up to the first token that is
not a comma. -/
theorem run_indexColumns_loop {columns : List String} (h : IndexColumns us columns)
    (hvs : NotNext (.mark .comma) vs) (done : List String) :
    (iterate indexColumnsStep consumes_indexColumnsStep done).run (facing last stop (us ++ vs)) =
      .ok (done ++ columns) (facing (lastOf last us) stop vs) := by
  induction h generalizing last done with
  | last h =>
    exact run_iterate_of_last ((run_bind_of_ok (run_indexColumn h)).trans
      (run_bind_of_ok (run_accept_other hvs)))
  | @cons t comma ts columns h hcomma others ih =>
    have hstep : (indexColumnsStep done).run (facing last stop (t :: comma :: (ts ++ vs))) =
        .ok (.inl (done ++ [t.value])) (facing comma.span stop (ts ++ vs)) :=
      (run_bind_of_ok (run_indexColumn h)).trans (run_bind_of_ok (run_accept hcomma))
    refine (run_iterate_of_next hstep).trans ?_
    rw [ih, List.append_assoc, List.singleton_append, lastOf_cons, lastOf_cons]

/-- A derived index is read whole, from its first column to its settings. -/
theorem run_index {t : Token} {i : Index} (h : IsIndex (t :: us) i)
    (hvs : NotNext (.mark .leftBracket) vs) :
    (index t.span).run (facing last stop (t :: (us ++ vs))) =
      .ok i (facing (lastOf t.span us) stop vs) := by
  cases h with
  | one h hsettings =>
    have hparen : NotNext (.mark .leftParen) (t :: (us ++ vs)) := by
      rw [notNext_cons]
      intro hkind
      rw [hkind] at h
      cases h
    have hcolumns : indexColumns.run (facing last stop (t :: (us ++ vs))) =
        .ok [t.value] (facing t.span stop (us ++ vs)) :=
      (run_bind_of_ok (run_accept_other hparen)).trans (run_bind_of_ok (run_indexColumn h))
    refine (run_bind_of_ok hcolumns).trans ?_
    exact run_bind_of_ok (run_settings? applies_indexSetting hsettings hvs)
  | @many _ closing ts ss columns i hopening hnames hclosing hsettings =>
    have hcomma : NotNext (.mark .comma) (closing :: (ss ++ vs)) :=
      notNext_of_kind hclosing (by simp)
    have hcolumns : indexColumns.run (facing last stop (t :: (ts ++ closing :: (ss ++ vs)))) =
        .ok columns (facing closing.span stop (ss ++ vs)) :=
      (run_bind_of_ok (run_accept hopening)).trans
        ((run_bind_of_ok (run_indexColumns_loop hnames hcomma [])).trans
          (run_bind_of_ok (run_expect hclosing)))
    rw [List.append_assoc, List.cons_append, lastOf_append, lastOf_cons]
    refine (run_bind_of_ok hcolumns).trans ?_
    exact run_bind_of_ok (run_settings? applies_indexSetting hsettings hvs)

/-- The tokens that an index starts with. -/
def startsIndex (k : TokenKind) : Bool := k == .mark .leftParen || isIndexColumn k

/-- A derived entry of an `indexes` block is read as one entry of that block. -/
theorem readsEntry_indexesEntry {indexes more : List Index} (h : IndexEntry indexes us more) :
    ReadsEntry indexesEntry startsIndex indexes us more := by
  obtain ⟨h⟩ := h
  have hstarts : ∃ t ts, us = t :: ts ∧ startsIndex t.kind = true := by
    cases h with
    | one h => exact ⟨_, _, rfl, Bool.or_eq_true_iff.2 (Or.inr h)⟩
    | many h => exact ⟨_, _, rfl, Bool.or_eq_true_iff.2 (Or.inl (beq_iff_eq.2 h))⟩
  obtain ⟨t, ts, rfl, ht⟩ := hstarts
  refine ⟨t, ts, rfl, ht, fun last stop vs hvs => ?_⟩
  have hvs : NotNext (.mark .leftBracket) vs := hvs.notNext rfl (by simp)
  have hkind : t.kind = .mark .leftParen ∨ isIndexColumn t.kind = true := by
    simpa [startsIndex] using ht
  rw [indexesEntry, if_pos hkind]
  have hspan : nextSpan.run (facing last stop (t :: (ts ++ vs))) =
      .ok t.span (facing last stop (t :: (ts ++ vs))) := rfl
  exact (run_bind_of_ok hspan).trans (run_bind_of_ok (run_index h hvs))

/-- A token an index starts with neither closes a block nor opens a construct. -/
theorem startsIndex_inBlock (k : TokenKind) (h : startsIndex k = true) :
    k ≠ .mark .rightBrace ∧ k.opensConstruct = false := by
  simp only [startsIndex, isIndexColumn, Bool.or_eq_true, beq_iff_eq] at h
  rcases h with rfl | h | rfl
  · exact ⟨by simp, rfl⟩
  · exact isName_inBlock k h
  · exact ⟨by simp, rfl⟩

/-! ## Tables -/

/-- A table's setting that the grammar derives is applied by the parser's table of its settings. -/
theorem applies_tableSetting {t t' : Table} (h : TableSetting t us t') :
    Applies tableSetting t us t' := by
  cases h with
  | aliasName h =>
    refine applies_settingText h (fun text => { t with aliasName := some text }) fun key hform => ?_
    rw [tableSetting, hform]
    rfl
  | posX h =>
    refine applies_settingOf h "expected a number" (fun x => { t with posX := x.or t.posX })
      fun key hform => ?_
    rw [tableSetting, hform]
    rfl
  | posY h =>
    refine applies_settingOf h "expected a number" (fun y => { t with posY := y.or t.posY })
      fun key hform => ?_
    rw [tableSetting, hform]
    rfl
  | color h =>
    rcases h with h | h
    · refine applies_settingOf h "expected #RGB or #RRGGBB"
        (fun color => { t with color := color.or t.color }) fun key hform => ?_
      rw [tableSetting, hform]
      rfl
    · refine applies_settingOf h "expected #RGB or #RRGGBB"
        (fun color => { t with color := color.or t.color }) fun key hform => ?_
      rw [tableSetting, hform]
      rfl
  | note h =>
    refine applies_settingString h (fun text => { t with note := some text }) fun key hform => ?_
    rw [tableSetting, hform]
    rfl

/-- A derived entry of a table's body is read as one entry of that body. -/
theorem readsEntry_tableEntry {t t' : Table} (h : TableEntry t us t') :
    ReadsEntry tableEntry TokenKind.isName t us t' := by
  cases h with
  | column h =>
    have hcolumn := h
    obtain ⟨hname, htype, hparams, hsettings⟩ := h
    refine ⟨_, _, rfl, hname, fun last stop vs hvs => run_secondKind?_bind_cons.trans ?_⟩
    -- a type stands behind the name, so even the words `Note` and `indexes` are names here
    rw [if_neg (fun hnote => by rw [isColonOrBrace_of_isName htype] at hnote; cases hnote.2),
      if_neg (fun hindexes => ne_mark_of_isName htype _ (Option.some_inj.1 hindexes.2)),
      if_pos hname]
    exact run_bind_of_ok
      (run_commentedColumn hcolumn (hvs.notNext rfl (by simp)) (hvs.notNext rfl (by simp)))
  | note h =>
    exact readsEntry_of_note tableEntry h (fun text => { t with note := some text }) rfl
      fun k hk => if_pos ⟨rfl, hk⟩
  | @indexes keyword opening closing ts more hkeyword hopening h hclosing =>
    have hindexes {last stop : Span} {vs : List Token} :
        indexes.run (facing last stop (keyword :: opening :: (ts ++ closing :: vs))) =
          .ok more (facing closing.span stop vs) :=
      (run_bind_of_ok (run_expect hkeyword)).trans ((run_bind_of_ok (run_expect hopening)).trans
        (run_block readsEntry_indexesEntry startsIndex_inBlock _ _ _ hclosing h))
    refine ⟨_, _, rfl, by rw [hkeyword]; rfl, fun last stop vs _ => ?_⟩
    simp only [List.cons_append, List.append_assoc, List.nil_append]
    refine run_secondKind?_bind_cons.trans ?_
    have hnote : keyword.kind ≠ .keyword .note := by
      simp [hkeyword]
    rw [if_neg fun h => hnote h.1, if_pos ⟨hkeyword, congrArg some hopening⟩]
    refine (run_bind_of_ok hindexes).trans ?_
    simp only [lastOf_cons, lastOf_append, lastOf_nil, run_pure]

/-- A derived alias is read, and its absence is seen from the next token. -/
theorem run_tableAlias? {aliasName : Option String} (h : Alias us aliasName)
    (hvs : NotNext .identifier vs) :
    tableAlias?.run (facing last stop (us ++ vs)) =
      .ok aliasName (facing (lastOf last us) stop vs) := by
  cases h with
  | none => exact run_bind_of_ok (run_isWord_other hvs)
  | some hword hname =>
    refine (run_bind_of_ok (run_isWord hword)).trans ?_
    exact (run_bind_of_ok run_any).trans (run_bind_of_ok (run_name hname))

/-- A derived table is read whole, from the token behind its keyword to its closing brace. -/
theorem run_table {keyword : Token} {t : Table} (h : IsTable (keyword :: us) t) :
    (table keyword.span).run (facing keyword.span stop (us ++ vs)) =
      .ok t (facing (lastOf keyword.span us) stop vs) := by
  cases h with
  | @mk _ name opening closing aliasTokens ss body aliasName head t hkeyword hname halias hsettings
      hopening hbody hclosing =>
    simp only [List.cons_append, List.append_assoc, List.nil_append, lastOf_cons, lastOf_append,
      lastOf_nil]
    refine (run_bind_of_ok (run_name hname)).trans ?_
    refine (run_bind_of_ok (run_tableAlias? halias
      (notNext_settings hsettings (by simp) (notNext_of_kind hopening (by simp))))).trans ?_
    refine (run_bind_of_ok (run_settings? applies_tableSetting hsettings
      (notNext_of_kind hopening (by simp)))).trans ?_
    refine (run_bind_of_ok (run_expect hopening)).trans ?_
    exact run_bind_of_ok (run_block readsEntry_tableEntry isName_inBlock _ _ _ hclosing hbody)

/-! ## References -/

/-- A derived endpoint of a reference is read as the table and column it names. -/
theorem run_endpoint {e : Endpoint} (h : IsEndpoint us e) :
    endpoint.run (facing last stop (us ++ vs)) = .ok e (facing (lastOf last us) stop vs) := by
  obtain ⟨htable, hdot, hcolumn⟩ := h
  refine (run_bind_of_ok (run_name htable)).trans ?_
  exact (run_bind_of_ok (run_expect hdot)).trans (run_bind_of_ok (run_name hcolumn))

/-- A relationship's symbol is read as the relationship it stands for. -/
theorem run_relationship {symbol : Token} {relation : Relationship}
    (h : relationshipOf? symbol.kind = some relation) :
    relationship.run (facing last stop (symbol :: vs)) =
      .ok relation (facing symbol.span stop vs) := by
  refine (run_bind_of_ok (run_take (by rw [h]; rfl))).trans ?_
  rw [h]
  rfl

/-- A reference's setting that the grammar derives is applied by the parser's table of its settings.
-/
theorem applies_referenceSetting {r r' : Reference} (h : ReferenceSetting r us r') :
    Applies referenceSetting r us r' := by
  cases h with
  | swapEdge h =>
    refine applies_settingOf h "expected true or false"
      (fun swap => { r with swapEdge := swap.or r.swapEdge }) fun key hform => ?_
    rw [referenceSetting, hform]
    rfl
  | note h =>
    refine applies_settingString h (fun text => { r with note := some text }) fun key hform => ?_
    rw [referenceSetting, hform]
    rfl

/-- A name with a colon or a brace behind it is the reference's own name. -/
theorem run_referenceName?_of_name {t u : Token} (hname : t.kind.isName = true)
    (hbehind : isColonOrBrace (some u.kind) = true) :
    referenceName?.run (facing last stop (t :: u :: vs)) =
      .ok (some t.value) (facing t.span stop (u :: vs)) := by
  have hfirst : (facing last stop (t :: u :: vs)).kind?.any TokenKind.isName = true := hname
  rw [referenceName?, run_kind?_bind]
  refine run_secondKind?_bind_cons.trans ?_
  rw [if_pos ⟨hfirst, hbehind⟩]
  exact run_bind_of_ok (run_name hname)

/-- A token is no name of a reference unless it is a name in front of a colon or a brace. -/
theorem run_referenceName?_of_other {t : Token}
    (h : t.kind.isName = false ∨ isColonOrBrace (vs.head?.map Token.kind) = false) :
    referenceName?.run (facing last stop (t :: vs)) = .ok none (facing last stop (t :: vs)) := by
  have hother : ¬((facing last stop (t :: vs)).kind?.any TokenKind.isName = true ∧
      isColonOrBrace (vs.head?.map Token.kind) = true) := by
    rintro ⟨hname, hbehind⟩
    rcases h with h | h
    · rw [kind?_facing, List.head?_cons, Option.map_some, Option.any_some, h] at hname
      cases hname
    · rw [h] at hbehind
      cases hbehind
  rw [referenceName?, run_kind?_bind]
  refine run_secondKind?_bind.trans ?_
  rw [if_neg hother]
  rfl

/-- The optional name and colon of a reference are read before whatever stands behind them. -/
theorem run_referenceName {α : Type} {isBraced : Bool} {name : Option String}
    (h : ReferenceName isBraced us name) {t : Token} {f : Option String → Parser α}
    (hbraced : isBraced = true → t.kind = .mark .leftBrace)
    (hcolon : t.kind ≠ .mark .colon)
    (hother : t.kind.isName = false ∨ isColonOrBrace (vs.head?.map Token.kind) = false) :
    (referenceName? >>= fun name => accept (.mark .colon) >>= fun _ => f name).run
        (facing last stop (us ++ t :: vs)) =
      (f name).run (facing (lastOf last us) stop (t :: vs)) := by
  cases h with
  | @named _ _ colon hname hmark =>
    have hbehind : isColonOrBrace (some colon.kind) = true := by rw [hmark]; rfl
    refine (run_bind_of_ok (run_referenceName?_of_name hname hbehind)).trans ?_
    exact run_bind_of_ok (run_accept hmark)
  | namedBraces hname =>
    have hbehind : isColonOrBrace (some t.kind) = true := by rw [hbraced rfl]; rfl
    refine (run_bind_of_ok (run_referenceName?_of_name hname hbehind)).trans ?_
    exact run_bind_of_ok (run_accept_other (notNext_cons.2 hcolon))
  | @colon _ colon hmark =>
    have hkind : colon.kind.isName = false := by rw [hmark]; rfl
    refine (run_bind_of_ok (run_referenceName?_of_other (Or.inl hkind))).trans ?_
    exact run_bind_of_ok (run_accept hmark)
  | nothing =>
    refine (run_bind_of_ok (run_referenceName?_of_other hother)).trans ?_
    exact run_bind_of_ok (run_accept_other (notNext_cons.2 hcolon))

/-- The endpoints, relationship and settings of a derived reference are read in order. -/
theorem run_edge {α : Type} {start : Span} {name : Option String} {r : Reference}
    (h : Edge start name us r) (hvs : NotNext (.mark .leftBracket) vs) {f : Reference → Parser α} :
    (do let source ← endpoint
        let relationship ← relationship
        let target ← endpoint
        let r ← settings? referenceSetting
          ⟨name, source, target, relationship, none, none, start, []⟩
        f r).run (facing last stop (us ++ vs)) =
      (f r).run (facing (lastOf last us) stop vs) := by
  obtain ⟨hsource, hsymbol, htarget, hsettings⟩ := h
  simp only [List.cons_append, List.append_assoc, lastOf_cons, lastOf_append]
  refine (run_bind_of_ok (run_endpoint hsource)).trans ?_
  refine (run_bind_of_ok (run_relationship hsymbol)).trans ?_
  refine (run_bind_of_ok (run_endpoint htarget)).trans ?_
  exact run_bind_of_ok (run_settings? applies_referenceSetting hsettings hvs)

/-- A reference's edge starts with a table's name and a dot, so it is not taken for the reference's
own name. -/
theorem exists_cons_of_edge {start : Span} {name : Option String} {r : Reference}
    (h : Edge start name us r) : ∃ table dot ts, us = table :: dot :: ts ∧
      table.kind.isName = true ∧ dot.kind = .mark .dot := by
  obtain ⟨⟨htable, hdot, hcolumn⟩, hsymbol, htarget, hsettings⟩ := h
  exact ⟨_, _, _, rfl, htable, hdot⟩

/-- A derived reference is read whole, in its braced and its unbraced form. -/
theorem run_reference {keyword : Token} {r : Reference} (h : IsReference (keyword :: us) r)
    (hvs : NotNext (.mark .leftBracket) vs) :
    (reference keyword.span).run (facing keyword.span stop (us ++ vs)) =
      .ok r (facing (lastOf keyword.span us) stop vs) := by
  cases h with
  | @plain _ ns _ name r hkeyword hname hedge =>
    obtain ⟨table, dot, ts, rfl, htable, hdot⟩ := exists_cons_of_edge hedge
    -- the first name of the edge is not the reference's own: a dot follows it
    have hother : isColonOrBrace ((dot :: (ts ++ vs)).head?.map Token.kind) = false := by
      rw [List.head?_cons, Option.map_some, hdot]
      rfl
    have hbrace : NotNext (.mark .leftBrace) (table :: dot :: (ts ++ vs)) :=
      notNext_cons.2 (ne_mark_of_isName htable _)
    rw [List.append_assoc, lastOf_append]
    refine (run_referenceName hname (by simp) (ne_mark_of_isName htable _) (Or.inr hother)).trans ?_
    refine (run_bind_of_ok (run_accept_other hbrace)).trans ?_
    refine (run_edge hedge hvs).trans ?_
    simp only [lastOf_cons]
    rfl
  | @braced _ opening closing ns ts name r hkeyword hname hopening hedge hclosing =>
    have hother : opening.kind.isName = false := by rw [hopening]; rfl
    have hcolon : opening.kind ≠ .mark .colon := by simp [hopening]
    simp only [List.cons_append, List.append_assoc, List.nil_append, lastOf_cons, lastOf_append,
      lastOf_nil]
    refine (run_referenceName hname (fun _ => hopening) hcolon (Or.inl hother)).trans ?_
    refine (run_bind_of_ok (run_accept hopening)).trans ?_
    refine (run_edge hedge (notNext_of_kind hclosing (by simp))).trans ?_
    exact run_bind_of_ok (run_expect hclosing)

/-! ## Areas -/

/-- An area's setting that the grammar derives is applied by the parser's table of its settings. -/
theorem applies_areaSetting {a b : Area} (h : AreaSetting a us b) : Applies areaSetting a us b := by
  cases h with
  | posX h =>
    refine applies_settingOf h "expected a number" (fun x => { a with posX := x.or a.posX })
      fun key hform => ?_
    rw [areaSetting, hform]
    rfl
  | posY h =>
    refine applies_settingOf h "expected a number" (fun y => { a with posY := y.or a.posY })
      fun key hform => ?_
    rw [areaSetting, hform]
    rfl
  | width h =>
    refine applies_settingOf h "expected a number"
      (fun width => { a with width := width.or a.width }) fun key hform => ?_
    rw [areaSetting, hform]
    rfl
  | height h =>
    refine applies_settingOf h "expected a number"
      (fun height => { a with height := height.or a.height }) fun key hform => ?_
    rw [areaSetting, hform]
    rfl
  | color h =>
    refine applies_settingOf h "expected #RGB or #RRGGBB"
      (fun color => { a with color := color.or a.color }) fun key hform => ?_
    rw [areaSetting, hform]
    rfl
  | databaseType h =>
    refine applies_settingText h (fun text => { a with databaseType := some text })
      fun key hform => ?_
    rw [areaSetting, hform]
    rfl
  | labelHorizontal h =>
    refine applies_settingOf h "expected left, center or right"
      (fun label => { a with labelHorizontal := label.or a.labelHorizontal }) fun key hform => ?_
    rw [areaSetting, hform]
    rfl
  | labelVertical h =>
    refine applies_settingOf h "expected top, center or bottom"
      (fun label => { a with labelVertical := label.or a.labelVertical }) fun key hform => ?_
    rw [areaSetting, hform]
    rfl
  | note h =>
    refine applies_settingString h (fun text => { a with note := some text }) fun key hform => ?_
    rw [areaSetting, hform]
    rfl

/-- A column in a list of common columns is appended to the ones read so far. -/
theorem run_commonColumnsStep_column {columns : List Column} {c : Column} (h : IsColumn us c)
    (hparen : NotNext (.mark .leftParen) vs) (hbracket : NotNext (.mark .leftBracket) vs) :
    (commonColumnsStep columns).run (facing last stop (us ++ vs)) =
      .ok (.inl (columns ++ [c])) (facing (lastOf last us) stop vs) := by
  have hcolumn : commentedColumn.run (facing last stop (us ++ vs)) = _ :=
    run_commentedColumn h hparen hbracket
  obtain ⟨hname, htype, hparams, hsettings⟩ := h
  rw [commonColumnsStep, run_kind?_bind, List.cons_append, kind?_facing, List.head?_cons,
    Option.map_some]
  simp only [if_neg (ne_mark_of_isName hname _), opensConstruct_of_isName hname, hname, if_true,
    if_false, Bool.false_eq_true]
  exact run_bind_of_ok hcolumn

/-- A comma in a list of common columns is passed over. -/
theorem run_commonColumnsStep_comma {columns : List Column} {comma : Token}
    (hcomma : comma.kind = .mark .comma) :
    (commonColumnsStep columns).run (facing last stop (comma :: vs)) =
      .ok (.inl columns) (facing comma.span stop vs) := by
  rw [commonColumnsStep, run_kind?_bind, kind?_facing, List.head?_cons, Option.map_some, hcomma]
  exact run_bind_of_ok run_any

/-- The closing bracket ends a list of common columns. -/
theorem run_commonColumnsStep_bracket {columns : List Column} {closing : Token}
    (hclosing : closing.kind = .mark .rightBracket) :
    (commonColumnsStep columns).run (facing last stop (closing :: vs)) =
      .ok (.inr columns) (facing closing.span stop vs) := by
  rw [commonColumnsStep, run_kind?_bind, kind?_facing, List.head?_cons, Option.map_some, hclosing]
  exact run_bind_of_ok run_any

/-- No common column starts with a parenthesis or with a bracket that opens. -/
theorem notNext_commonColumns {columns more : List Column} {closing : Token}
    (hclosing : closing.kind = .mark .rightBracket) (h : Entries CommonColumn columns us more)
    {m : Mark} (hcomma : m ≠ .comma) (hbracket : m ≠ .rightBracket) :
    NotNext (.mark m) (us ++ closing :: vs) := by
  cases h with
  | nil => exact notNext_of_kind hclosing fun h => hbracket (TokenKind.mark.inj h).symm
  | cons entry others =>
    cases entry with
    | column h =>
      obtain ⟨hname, htype, hparams, hsettings⟩ := h
      exact notNext_cons.2 (ne_mark_of_isName hname m)
    | comma h => exact notNext_of_kind h fun h => hcomma (TokenKind.mark.inj h).symm

/-- The entries of a list of common columns are read up to its closing bracket. -/
theorem run_commonColumns_loop {columns more : List Column} {closing : Token}
    (hclosing : closing.kind = .mark .rightBracket) (h : Entries CommonColumn columns us more) :
    (iterate commonColumnsStep consumes_commonColumnsStep columns).run
        (facing last stop (us ++ closing :: vs)) =
      .ok more (facing closing.span stop vs) := by
  induction h generalizing last with
  | nil => exact run_iterate_of_last (run_commonColumnsStep_bracket hclosing)
  | cons entry others ih =>
    rw [List.append_assoc]
    cases entry with
    | column h =>
      exact (run_iterate_of_next (run_commonColumnsStep_column h
        (notNext_commonColumns hclosing others (by simp) (by simp))
        (notNext_commonColumns hclosing others (by simp) (by simp)))).trans ih
    | comma h => exact (run_iterate_of_next (run_commonColumnsStep_comma h)).trans ih

/-- A derived list of common columns is read whole. -/
theorem run_commonColumns {keyword opening closing : Token} {cs : List Token} {more : List Column}
    (hkeyword : keyword.kind = .keyword .commonColumns) (hcolon : Colon cs)
    (hopening : opening.kind = .mark .leftBracket) (h : Entries CommonColumn [] us more)
    (hclosing : closing.kind = .mark .rightBracket) :
    commonColumns.run (facing last stop (keyword :: (cs ++ opening :: (us ++ closing :: vs)))) =
      .ok more (facing closing.span stop vs) := by
  have hlist {last : Span} : (do
      let _ ← expect (.mark .leftBracket)
      iterate commonColumnsStep consumes_commonColumnsStep []).run
        (facing last stop (opening :: (us ++ closing :: vs))) =
          .ok more (facing closing.span stop vs) :=
    (run_bind_of_ok (run_expect hopening)).trans (run_commonColumns_loop hclosing h)
  refine (run_bind_of_ok (run_expect hkeyword)).trans ?_
  cases hcolon with
  | none =>
    exact (run_bind_of_ok (run_accept_other (notNext_of_kind hopening (by simp)))).trans hlist
  | some hmark => exact (run_bind_of_ok (run_accept hmark)).trans hlist

/-! ## Lines of a key and a value -/

/-- A token that may be a setting's value neither closes a block nor opens a construct. -/
theorem isSettingValue_inBlock {k : TokenKind} (h : isSettingValue k = true) :
    k ≠ .mark .rightBrace ∧ k.opensConstruct = false := by
  simp only [isSettingValue, Bool.or_eq_true, beq_iff_eq] at h
  rcases h with ((h | h) | rfl) | rfl
  · exact isName_inBlock k h
  · cases k with
    | string q => exact ⟨by simp, rfl⟩
    | _ => cases h
  · exact ⟨by simp, rfl⟩
  · exact ⟨by simp, rfl⟩

/-- The value of a line with an unknown key is passed over. -/
theorem run_skipLineValue {colon value : Token} (hcolon : colon.kind = .mark .colon)
    (hvalue : isSettingValue value.kind = true) :
    skipLineValue.run (facing last stop (colon :: value :: vs)) =
      .ok () (facing value.span stop vs) := by
  obtain ⟨hbrace, hopens⟩ := isSettingValue_inBlock hvalue
  have hahead : (ahead fun ts => if ts.head?.any (fun t =>
      !(t.token.kind == .mark .rightBrace || t.token.kind.opensConstruct)) then 1 else 0).run
        (facing colon.span stop (value :: vs)) = .ok 1 (facing colon.span stop (value :: vs)) := by
    simp [ahead, rest_facing, hbrace, hopens]
  refine (run_bind_of_ok (run_accept hcolon)).trans ?_
  exact run_bind_of_ok hahead

section Line

variable {σ : Type} {apply : σ → SettingKey → Parser (Option σ)} {s : σ} {known : List String}

/-- The value of a line with a key that is not known is passed over. -/
theorem run_settingLine_of_unknown (h : UnknownLine known us)
    (happly : ∀ key : SettingKey, key.form ∉ known → apply s key = Pure.pure none) :
    (settingLine apply s).run (facing last stop (us ++ vs)) =
      .ok s (facing (lastOf last us) stop vs) := by
  obtain ⟨hkey, hform, hcolon, hvalue⟩ := h
  refine (run_bind_of_ok (run_settingKey hkey)).trans ?_
  rw [happly _ hform]
  exact run_bind_of_ok (run_skipLineValue hcolon hvalue)

end Line

/-- A key that is not among an area's keys is no setting of an area. -/
theorem areaSetting_of_unknown {a : Area} (key : SettingKey) (h : key.form ∉ areaKeys) :
    areaSetting a key = Pure.pure none := by
  simp only [areaKeys, List.mem_cons, List.not_mem_nil, or_false, not_or] at h
  obtain ⟨hx, hy, hwidth, hheight, hcolor, htype, hhorizontal, hvertical, hnote⟩ := h
  unfold areaSetting
  split
  · next hform => exact absurd hform hx
  · next hform => exact absurd hform hy
  · next hform => exact absurd hform hwidth
  · next hform => exact absurd hform hheight
  · next hform => exact absurd hform hcolor
  · next hform => exact absurd hform htype
  · next hform => exact absurd hform hhorizontal
  · next hform => exact absurd hform hvertical
  · next hform => exact absurd hform hnote
  · rfl

/-! ## Blocks of areas -/

/-- A key is a name in front of a colon. -/
theorem exists_cons_of_keyValue {α : Type} {view : Token → Option α} {form : String} {a : α}
    {key : Token} (h : KeyValue view form (key :: us) a) :
    ∃ colon ts, us = colon :: ts ∧ key.kind.isName = true ∧ colon.kind = .mark .colon := by
  obtain ⟨hkey, hcolon, hvalue, hview⟩ := h
  exact ⟨_, _, rfl, hkey.1, hcolon⟩

/-- A line with an unknown key is a name, a colon and what follows. -/
theorem exists_cons_of_unknownLine {known : List String} {key : Token}
    (h : UnknownLine known (key :: us)) :
    ∃ colon ts, us = colon :: ts ∧ key.kind.isName = true ∧ colon.kind = .mark .colon := by
  obtain ⟨hkey, hform, hcolon, hvalue⟩ := h
  exact ⟨_, _, rfl, hkey, hcolon⟩

/-- A line with an area's setting is a name, a colon and what follows. -/
theorem exists_cons_of_areaSetting {a b : Area} {key : Token} (h : AreaSetting a (key :: us) b) :
    ∃ colon ts, us = colon :: ts ∧ key.kind.isName = true ∧ colon.kind = .mark .colon := by
  cases h with
  | posX h | posY h | width h | height h | color h | databaseType h | labelHorizontal h
  | labelVertical h | note h => exact exists_cons_of_keyValue h

/-- In an area, a name with a colon behind it starts a line with a setting. -/
theorem run_areaEntry_of_line {a : Area} {key colon : Token} (hnote : key.kind ≠ .keyword .note)
    (hother : key.kind ≠ .keyword .commonColumns) (hkey : key.kind.isName = true)
    (hcolon : colon.kind = .mark .colon) :
    (areaEntry a key.kind).run (facing last stop (key :: colon :: vs)) =
      (settingLine areaSetting a).run (facing last stop (key :: colon :: vs)) := by
  refine run_secondKind?_bind_cons.trans ?_
  rw [if_neg (fun h => hnote h.1), if_neg hother, if_pos ⟨hkey, congrArg some hcolon⟩]

/-- A derived entry of an area's body is read as one entry of that body. -/
theorem readsEntry_areaEntry {a b : Area} (h : AreaEntry a us b) :
    ReadsEntry areaEntry TokenKind.isName a us b := by
  cases h with
  | @member t hname hother =>
    refine ⟨t, [], rfl, hname, fun last stop vs hvs => run_secondKind?_bind.trans ?_⟩
    have hcolon : NotNext (.mark .colon) vs := hvs.notNext rfl (by simp)
    have hbrace : NotNext (.mark .leftBrace) vs := hvs.notNext rfl (by simp)
    have hsecond : isColonOrBrace (vs.head?.map Token.kind) = false := by
      simp [isColonOrBrace, hcolon.head?_ne, hbrace.head?_ne]
    -- neither a colon nor a brace stands behind a member, so it may be the word `Note`
    rw [List.nil_append, if_neg (fun h => by rw [hsecond] at h; cases h.2), if_neg hother,
      if_neg (fun h => hcolon.head?_ne h.2), if_pos hname]
    exact run_bind_of_ok (run_name hname)
  | setting hnote hother h =>
    obtain ⟨colon, ts, rfl, hkey, hcolon⟩ := exists_cons_of_areaSetting h
    refine ⟨_, _, rfl, hkey, fun last stop vs hvs => ?_⟩
    refine (run_areaEntry_of_line hnote hother hkey hcolon).trans ?_
    exact run_settingLine (applies_areaSetting h) (hvs.notNext rfl (by simp))
  | unknown hnote hother h =>
    obtain ⟨colon, ts, rfl, hkey, hcolon⟩ := exists_cons_of_unknownLine h
    refine ⟨_, _, rfl, hkey, fun last stop vs hvs => ?_⟩
    refine (run_areaEntry_of_line hnote hother hkey hcolon).trans ?_
    exact run_settingLine_of_unknown h areaSetting_of_unknown
  | @commonColumns keyword _ _ _ _ _ hkeyword hcolon hopening h hclosing =>
    have hnote : keyword.kind ≠ .keyword .note := by
      simp [hkeyword]
    refine ⟨_, _, rfl, by rw [hkeyword]; rfl, fun last stop vs _ => ?_⟩
    simp only [List.cons_append, List.append_assoc, List.nil_append]
    refine run_secondKind?_bind.trans ?_
    rw [if_neg fun h => hnote h.1, if_pos hkeyword]
    refine (run_bind_of_ok (run_commonColumns hkeyword hcolon hopening h hclosing)).trans ?_
    simp only [lastOf_cons, lastOf_append, lastOf_nil, run_pure]
  | note h =>
    exact readsEntry_of_note areaEntry h (fun text => { a with note := some text }) rfl
      fun k hk => if_pos ⟨rfl, hk⟩

/-- A derived area is read whole, from the token behind its keyword to its closing brace. -/
theorem run_area {keyword : Token} {a : Area} (h : IsArea (keyword :: us) a) :
    (area keyword.span).run (facing keyword.span stop (us ++ vs)) =
      .ok a (facing (lastOf keyword.span us) stop vs) := by
  cases h with
  | mk hkeyword hname hsettings hopening hbody hclosing =>
    simp only [List.cons_append, List.append_assoc, List.nil_append, lastOf_cons, lastOf_append,
      lastOf_nil]
    refine (run_bind_of_ok (run_name hname)).trans ?_
    refine (run_bind_of_ok (run_settings? applies_areaSetting hsettings
      (notNext_of_kind hopening (by simp)))).trans ?_
    refine (run_bind_of_ok (run_expect hopening)).trans ?_
    exact run_bind_of_ok (run_block readsEntry_areaEntry isName_inBlock _ _ _ hclosing hbody)

/-! ## Projects -/

/-- A project's setting that the grammar derives is applied by the parser's table of its settings.
-/
theorem applies_projectSetting {p q : Project} (h : ProjectSetting p us q) :
    Applies projectSetting p us q := by
  cases h with
  | databaseType h =>
    refine applies_settingText h (fun text => { p with databaseType := some text })
      fun key hform => ?_
    rw [projectSetting, hform]
    rfl
  | note h =>
    refine applies_settingString h (fun text => { p with note := some text }) fun key hform => ?_
    rw [projectSetting, hform]
    rfl

/-- A key that is not among a project's keys is no setting of a project. -/
theorem projectSetting_of_unknown {p : Project} (key : SettingKey) (h : key.form ∉ projectKeys) :
    projectSetting p key = Pure.pure none := by
  simp only [projectKeys, List.mem_cons, List.not_mem_nil, or_false, not_or] at h
  unfold projectSetting
  split
  · next hform => exact absurd hform h.1
  · next hform => exact absurd hform h.2
  · rfl

/-- A line with a project's setting is a name, a colon and what follows. -/
theorem exists_cons_of_projectSetting {p q : Project} {key : Token}
    (h : ProjectSetting p (key :: us) q) :
    ∃ colon ts, us = colon :: ts ∧ key.kind.isName = true ∧ colon.kind = .mark .colon := by
  cases h with
  | databaseType h | note h => exact exists_cons_of_keyValue h

/-- In a project, a name with a colon behind it starts a line with a setting. -/
theorem run_projectEntry_of_line {p : Project} {key colon : Token}
    (hnote : key.kind ≠ .keyword .note) (hkey : key.kind.isName = true)
    (hcolon : colon.kind = .mark .colon) :
    (projectEntry p key.kind).run (facing last stop (key :: colon :: vs)) =
      (settingLine projectSetting p).run (facing last stop (key :: colon :: vs)) := by
  refine run_secondKind?_bind_cons.trans ?_
  rw [if_neg (fun h => hnote h.1), if_pos ⟨hkey, congrArg some hcolon⟩]

/-- A derived entry of a project's body is read as one entry of that body. -/
theorem readsEntry_projectEntry {p q : Project} (h : ProjectEntry p us q) :
    ReadsEntry projectEntry TokenKind.isName p us q := by
  cases h with
  | setting hnote h =>
    obtain ⟨colon, ts, rfl, hkey, hcolon⟩ := exists_cons_of_projectSetting h
    refine ⟨_, _, rfl, hkey, fun last stop vs hvs => ?_⟩
    refine (run_projectEntry_of_line hnote hkey hcolon).trans ?_
    exact run_settingLine (applies_projectSetting h) (hvs.notNext rfl (by simp))
  | unknown hnote h =>
    obtain ⟨colon, ts, rfl, hkey, hcolon⟩ := exists_cons_of_unknownLine h
    refine ⟨_, _, rfl, hkey, fun last stop vs _ => ?_⟩
    refine (run_projectEntry_of_line hnote hkey hcolon).trans ?_
    exact run_settingLine_of_unknown h projectSetting_of_unknown
  | note h =>
    exact readsEntry_of_note projectEntry h (fun text => { p with note := some text }) rfl
      fun k hk => if_pos ⟨rfl, hk⟩

/-- With no brace in front, the project has no body and keeps what it has. -/
theorem run_projectBlock?_of_none {start : Span} {p : Project}
    (hvs : NotNext (.mark .leftBrace) vs) :
    (projectBlock? start p).run (facing last stop vs) = .ok p (facing last stop vs) :=
  run_bind_of_ok (run_at?_other hvs)

/-- A derived project's body is read from its opening brace to its closing one. -/
theorem run_projectBlock? {start : Span} {p q : Project} {opening closing : Token}
    (hopening : opening.kind = .mark .leftBrace) (h : Entries ProjectEntry p us q)
    (hclosing : closing.kind = .mark .rightBrace) :
    (projectBlock? start p).run (facing last stop (opening :: (us ++ closing :: vs))) =
      .ok q (facing closing.span stop vs) := by
  refine (run_bind_of_ok (run_at? hopening)).trans ?_
  refine (run_bind_of_ok run_any).trans ?_
  exact run_block readsEntry_projectEntry isName_inBlock _ _ _ hclosing h

/-- A derived project is read whole, with its settings and its body where it has them. -/
theorem run_project {keyword : Token} {p : Project} (h : IsProject (keyword :: us) p)
    (hbracket : NotNext (.mark .leftBracket) vs) (hbrace : NotNext (.mark .leftBrace) vs) :
    (project keyword.span).run (facing keyword.span stop (us ++ vs)) =
      .ok p (facing (lastOf keyword.span us) stop vs) := by
  cases h with
  | head hkeyword hname hsettings =>
    simp only [List.cons_append, lastOf_cons]
    refine (run_bind_of_ok (run_name hname)).trans ?_
    refine (run_bind_of_ok (run_settings? applies_projectSetting hsettings hbracket)).trans ?_
    exact run_bind_of_ok (run_projectBlock?_of_none hbrace)
  | body hkeyword hname hsettings hopening hbody hclosing =>
    simp only [List.cons_append, List.append_assoc, List.nil_append, lastOf_cons, lastOf_append,
      lastOf_nil]
    refine (run_bind_of_ok (run_name hname)).trans ?_
    refine (run_bind_of_ok (run_settings? applies_projectSetting hsettings
      (notNext_of_kind hopening (by simp)))).trans ?_
    exact run_bind_of_ok (run_projectBlock? hopening hbody hclosing)

/-! ## Constructs -/

/-- A keyword that opens a construct is next, or nothing at all. -/
def ConstructNext (vs : List Token) : Prop := ∀ t ∈ vs.head?, t.kind.opensConstruct = true

/-- What may follow a construct is no mark. -/
theorem ConstructNext.notNext (h : ConstructNext vs) (m : Mark) : NotNext (.mark m) vs := by
  rintro t ht hmark
  have hopens := h t ht
  rw [hmark] at hopens
  cases hopens

/-- The tokens are a keyword and a construct of its kind, which is read as what it denotes. -/
def ReadsConstruct (us : List Token) (x : Construct) : Prop :=
  ∃ keyword ts construct, us = keyword :: ts ∧ keyword.kind.opensConstruct = true ∧
    construct? keyword.kind = some construct ∧ ∀ stop vs, ConstructNext vs →
      (construct keyword.span).run (facing keyword.span stop (ts ++ vs)) =
        .ok x (facing (lastOf keyword.span ts) stop vs)

/-- A construct is read as the grammar says when its keyword selects the parser that reads it. -/
theorem readsConstruct_of_keyword {k : TokenKind} {construct : Span → Parser Construct}
    {x : Construct} (hopens : k.opensConstruct = true) (hconstruct : construct? k = some construct)
    (hkeyword : ∃ keyword ts, us = keyword :: ts ∧ keyword.kind = k)
    (hrun : ∀ keyword ts, us = keyword :: ts → ∀ stop vs, ConstructNext vs →
      (construct keyword.span).run (facing keyword.span stop (ts ++ vs)) =
        .ok x (facing (lastOf keyword.span ts) stop vs)) :
    ReadsConstruct us x := by
  obtain ⟨keyword, ts, rfl, rfl⟩ := hkeyword
  exact ⟨keyword, ts, construct, rfl, hopens, hconstruct, hrun keyword ts rfl⟩

/-- Every derived construct is read by the parser its keyword selects. -/
theorem readsConstruct {x : Construct} (h : IsConstruct us x) : ReadsConstruct us x := by
  cases h with
  | project h =>
    have hkeyword : ∃ keyword ts, us = keyword :: ts ∧ keyword.kind = .keyword .project := by
      cases h with
      | head hkeyword | body hkeyword => exact ⟨_, _, rfl, hkeyword⟩
    refine readsConstruct_of_keyword rfl rfl hkeyword ?_
    rintro keyword ts rfl stop vs hvs
    exact run_bind_of_ok (run_project h (hvs.notNext _) (hvs.notNext _))
  | table h =>
    have hkeyword : ∃ keyword ts, us = keyword :: ts ∧ keyword.kind = .keyword .table := by
      obtain ⟨hkeyword⟩ := h
      exact ⟨_, _, rfl, hkeyword⟩
    refine readsConstruct_of_keyword rfl rfl hkeyword ?_
    rintro keyword ts rfl stop vs -
    exact run_bind_of_ok (run_table h)
  | reference h =>
    have hkeyword : ∃ keyword ts, us = keyword :: ts ∧ keyword.kind = .keyword .ref := by
      cases h with
      | plain hkeyword | braced hkeyword => exact ⟨_, _, rfl, hkeyword⟩
    refine readsConstruct_of_keyword rfl rfl hkeyword ?_
    rintro keyword ts rfl stop vs hvs
    exact run_bind_of_ok (run_reference h (hvs.notNext _))
  | area h =>
    have hkeyword : ∃ keyword ts, us = keyword :: ts ∧ keyword.kind = .keyword .area := by
      obtain ⟨hkeyword⟩ := h
      exact ⟨_, _, rfl, hkeyword⟩
    refine readsConstruct_of_keyword rfl rfl hkeyword ?_
    rintro keyword ts rfl stop vs -
    exact run_bind_of_ok (run_area h)

end Parser

end SchemaDiagram.Document
