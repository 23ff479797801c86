import SchemaDiagram.Proofs.Document.Covered
import SchemaDiagram.Proofs.Document.Writable
import SchemaDiagram.Proofs.Token.Places

/-!
# Spans in a source text

Since the tokens of a source text stand one behind the other, so do the spans that are made of them:
those of the constructs, and within each construct those of its parts. Columns and indexes lie
strictly inside their table, common columns strictly inside their area, and the endpoints of a
reference behind its keyword and on either side of its symbol (`Construct.IsNested`). No span is
empty, and each starts and ends between two characters of the text.

Main statement: `spans_ofTokens`.
-/

namespace SchemaDiagram.Document

open Grammar SchemaDiagram.Document.Parser Token

variable {source : String} {s r : Span} {c d e : Cursor} {parts : List Part} {part : Part}

/-! ## The span of a run of tokens -/

/-- The place of the last token is that of one of them. -/
theorem exists_lastOf (t : Token) (us : List Token) :
    ∃ u ∈ t :: us, lastOf t.span us = u.span := by
  rw [← lastOf_cons t.span]
  refine ⟨(t :: us).getLast (List.cons_ne_nil _ _), List.getLast_mem _, ?_⟩
  rw [lastOf, List.getLast?_eq_some_getLast (List.cons_ne_nil _ _)]
  rfl

namespace Covers

/-- The tokens that a span covers: the first, the last, and that these are the same or stand one
behind the other. -/
theorem exists_tokens (h : Covers s c d) (hc : InOrder source c.tokens) :
    ∃ t ∈ c.tokens, ∃ u ∈ c.tokens, s = t.span.through u.span ∧ (t = u ∨ t.span.Before u.span) ∧
      ∀ v ∈ d.tokens, u.span.Before v.span := by
  obtain ⟨t, us, htokens, rfl⟩ := h
  obtain ⟨u, hu, hlast⟩ := exists_lastOf t us
  rw [htokens] at hc ⊢
  obtain ⟨hrun, -, hbehind⟩ := List.pairwise_append.1 hc.pairwise
  refine ⟨t, by simp, u, List.mem_append_left _ hu, by rw [hlast], ?_, hbehind u hu⟩
  rcases List.mem_cons.1 hu with rfl | hu
  · exact Or.inl rfl
  · exact Or.inr ((List.pairwise_cons.1 hrun).1 u hu)

/-- A span of tokens that are in order in the source is a span of the source. -/
theorem isIn (h : Covers s c d) (hc : InOrder source c.tokens) : s.IsIn source := by
  obtain ⟨t, ht, u, hu, rfl, hsame | hbefore, -⟩ := h.exists_tokens hc
  · rw [hsame]
    exact hc.isIn u hu
  · obtain ⟨hstart, -, ht⟩ := hc.isIn t ht
    obtain ⟨-, hstop, hu⟩ := hc.isIn u hu
    exact ⟨hstart, hstop, ht.trans (hbefore.trans_before hu)⟩

/-- What is read later stands behind the span. -/
theorem before_tokens (h : Covers s c d) (hc : InOrder source c.tokens) :
    ∀ v ∈ d.tokens, s.Before v.span := by
  obtain ⟨t, -, u, -, rfl, -, hbehind⟩ := h.exists_tokens hc
  exact hbehind

/-- The span stands behind what its tokens stand behind. -/
theorem behind (h : Covers s c d) (hr : ∀ u ∈ c.tokens, r.Before u.span) : r.Before s := by
  obtain ⟨t, us, htokens, rfl⟩ := h
  exact hr t (by simp [htokens])

/-- A covering span stops where the last token passed does. -/
theorem stop_eq (h : Covers s c d) (hpasses : c.Passes d) : s.stop = d.last.stop := by
  obtain ⟨t, us, htokens, rfl⟩ := h
  obtain ⟨vs, htokens', hlast⟩ := hpasses
  rw [htokens] at htokens'
  rw [hlast, ← List.append_cancel_right htokens', lastOf_cons]
  rfl

end Covers

namespace Cursor.Passes

/-- Passing tokens leaves tokens in order. -/
theorem inOrder (h : c.Passes d) (hc : InOrder source c.tokens) : InOrder source d.tokens :=
  hc.sublist h.suffix.sublist

/-- A span that ends with the last token ends with it or in front of it when more are passed. -/
theorem stop_notAfter (h : c.Passes d) (hc : InOrder source c.tokens)
    (hs : ∀ u ∈ c.tokens, s.Before u.span) (hstop : s.stop = c.last.stop) :
    s.stop.NotAfter d.last.stop := by
  obtain ⟨us, htokens, hlast⟩ := h
  rcases us with _ | ⟨u, us⟩
  · rw [hlast, hstop]
    exact .refl _
  · obtain ⟨v, hv, hlastOf⟩ := exists_lastOf u us
    have hmem : v ∈ c.tokens := htokens ▸ List.mem_append_left _ hv
    rw [hlast, lastOf_cons, hlastOf]
    exact ((hs v hmem).trans_before (hc.isIn v hmem).before).notAfter

end Cursor.Passes

/-! ## Parts that are read in turn -/

namespace ReadInTurn

/-- Every part that is read in turn is read between two cursors on the way. -/
theorem exists_isReadBetween (h : ReadInTurn c parts d) (hpart : part ∈ parts) :
    ∃ b e, c.Passes b ∧ part.IsReadBetween b e ∧ e.Passes d := by
  induction h with
  | nil h => cases hpart
  | cons h hread _ hothers ih =>
    rcases List.mem_cons.1 hpart with rfl | hpart
    · exact ⟨_, _, h, hread, hothers.passes⟩
    · obtain ⟨b, e, hb, hread', he⟩ := ih hpart
      exact ⟨b, e, (h.trans hread.passes).trans hb, hread', he⟩

section Part

variable (h : ReadInTurn c parts d) (hpart : part ∈ parts)
include h hpart

/-- A part's span is a span of the source. -/
theorem isIn (hc : InOrder source c.tokens) : part.span.IsIn source := by
  obtain ⟨b, e, hb, hread, -⟩ := h.exists_isReadBetween hpart
  exact hread.covers.isIn (hb.inOrder hc)

/-- What is read later stands behind the part. -/
theorem before_tokens (hc : InOrder source c.tokens) :
    ∀ v ∈ d.tokens, part.span.Before v.span := by
  obtain ⟨b, e, hb, hread, he⟩ := h.exists_isReadBetween hpart
  exact fun v hv => hread.covers.before_tokens (hb.inOrder hc) v (he.suffix.subset hv)

/-- The part stands behind what all tokens stand behind. -/
theorem behind (hr : ∀ u ∈ c.tokens, r.Before u.span) : r.Before part.span := by
  obtain ⟨b, e, hb, hread, -⟩ := h.exists_isReadBetween hpart
  exact hread.covers.behind fun u hu => hr u (hb.suffix.subset hu)

/-- A part stops no later than the last token passed. -/
theorem stop_notAfter (hc : InOrder source c.tokens) : part.span.stop.NotAfter d.last.stop := by
  obtain ⟨b, e, hb, hread, he⟩ := h.exists_isReadBetween hpart
  have hb := hb.inOrder hc
  exact he.stop_notAfter (hread.passes.inOrder hb) (hread.covers.before_tokens hb)
    (hread.covers.stop_eq hread.passes)

end Part

/-- Parts read in turn have spans one before the other. -/
theorem pairwise (h : ReadInTurn c parts d) (hc : InOrder source c.tokens) :
    (parts.map Part.span).Pairwise Span.Before := by
  induction h with
  | nil => exact .nil
  | cons h hread hspan hothers ih =>
    have hb := h.inOrder hc
    refine .cons (List.forall_mem_map.2 fun other hother => ?_) (ih (hread.passes.inOrder hb))
    exact hothers.behind hother (hspan.before_tokens hb)

end ReadInTurn

/-! ## Constructs -/

/-- The parts of a construct lie inside. -/
def Construct.IsNested : Construct → Prop
  | project _ => True
  | table t =>
    (∀ c ∈ t.columns, c.span.Inside t.span) ∧ ∀ i ∈ t.indexes, i.span.Inside t.span
  | reference r =>
    r.span.start.Before r.source.span.start ∧ r.source.span.stop.Before r.target.span.start ∧
      r.target.span.stop.NotAfter r.span.stop
  | area a => ∀ c ∈ a.commonColumns, c.span.Inside a.span

namespace Construct

variable {x : Construct}

/-- Comments on a construct leave what is read inside it. -/
theorem IsReadInside.withComments (h : x.IsReadInside c parts d) (comments : List String) :
    (x.withComments comments).IsReadInside c parts d := by
  cases h with
  | project h => exact .project h
  | table h hcolumns hindexes hbrace => exact .table h hcolumns hindexes hbrace
  | reference hsource hsymbol htarget => exact .reference hsource hsymbol htarget
  | area h hbrace => exact .area h hbrace

section Keyword

variable {t : Token} (hc : InOrder source (t :: c.tokens))
include hc

/-- A part that is read behind a keyword starts later than the keyword. -/
theorem before_start_of_readInTurn (h : ReadInTurn c parts e) (hpart : part ∈ parts) :
    t.span.start.Before part.span.start :=
  (hc.isIn t List.mem_cons_self).before.trans_notAfter
    (h.behind hpart (List.pairwise_cons.1 hc.pairwise).1)

/-- A part that is read behind a keyword and in front of a brace lies between them. -/
theorem inside_of_readInTurn (h : ReadInTurn c parts e)
    (hbrace : e.kind? = some (.mark .rightBrace)) (hpart : part ∈ parts)
    (hs : s = t.span.through e.advance.last) : part.span.Inside s := by
  subst hs
  refine ⟨before_start_of_readInTurn hc h hpart, ?_⟩
  have hbehind : InOrder source c.tokens := hc.sublist (List.sublist_cons_self _ _)
  obtain ⟨brace, htokens, hlast⟩ := Cursor.exists_of_kind? hbrace
  have hmem : brace ∈ e.tokens := htokens ▸ List.mem_cons_self
  show part.span.stop.Before e.advance.last.stop
  rw [hlast]
  exact (h.before_tokens hpart hbehind brace hmem).trans_before
    ((h.passes.inOrder hbehind).isIn brace hmem).before

/-- The parts of a construct that starts with the token `t` lie inside, one behind the other. -/
theorem IsReadInside.isNested (h : x.IsReadInside c parts d) (hs : x.span = t.span.through d.last) :
    (∀ part ∈ parts, part.span.IsIn source) ∧ x.IsNested ∧
      (parts.map Part.span).Pairwise Span.Before := by
  have hbehind : InOrder source c.tokens := hc.sublist (List.sublist_cons_self _ _)
  cases h with
  | project => exact ⟨fun _ h => absurd h List.not_mem_nil, trivial, .nil⟩
  | table h hcolumns hindexes hbrace =>
    refine ⟨fun part hpart => h.isIn hpart hbehind, ⟨fun column hcolumn => ?_, fun i hi => ?_⟩,
      h.pairwise hbehind⟩
    · rw [← hcolumns] at hcolumn
      exact inside_of_readInTurn hc h hbrace (Part.mem_of_mem_filterMap_column? hcolumn) hs
    · rw [← hindexes] at hi
      exact inside_of_readInTurn hc h hbrace (Part.mem_of_mem_filterMap_index? hi) hs
  | @reference r _ e _ hsource hsymbol htarget =>
    have hspan : r.span = t.span.through d.last := hs
    obtain ⟨k, hk, -⟩ := Option.bind_eq_some_iff.1 hsymbol
    obtain ⟨symbol, htokens, -⟩ := Cursor.exists_of_kind? hk
    have he := hsource.passes.inOrder hbehind
    have hmem : symbol ∈ e.tokens := htokens ▸ List.mem_cons_self
    have hadvance := e.passes_advance.inOrder he
    have hsourceMem : Part.endpoint r.source ∈ [Part.endpoint r.source] := List.mem_cons_self
    have htargetMem : Part.endpoint r.target ∈ [Part.endpoint r.target] := List.mem_cons_self
    -- the symbol stands between the endpoints
    have hbefore := hsource.before_tokens hsourceMem hbehind symbol hmem
    have hafter : symbol.span.Before r.target.span := by
      rw [htokens] at he
      exact htarget.behind htargetMem (List.pairwise_cons.1 he.pairwise).1
    have hapart : r.source.span.stop.Before r.target.span.start :=
      (hbefore.trans_before (he.isIn symbol hmem).before).trans_notAfter hafter
    refine ⟨?_, ⟨?_, hapart, ?_⟩, ?_⟩
    · refine List.forall_mem_cons.2 ⟨hsource.isIn hsourceMem hbehind, ?_⟩
      exact fun part hpart => htarget.isIn hpart hadvance
    · rw [hspan]
      exact before_start_of_readInTurn hc hsource hsourceMem
    · rw [hspan]
      exact htarget.stop_notAfter htargetMem hadvance
    · exact .cons (List.forall_mem_singleton.2 hapart.notAfter) (List.pairwise_singleton _ _)
  | area h hbrace =>
    refine ⟨fun part hpart => h.isIn hpart hbehind, fun column hcolumn => ?_, h.pairwise hbehind⟩
    exact inside_of_readInTurn hc h hbrace (List.mem_map_of_mem hcolumn) hs

end Keyword

end Construct

/-! ## Attempts -/

variable {x : Construct} {t : CommentedToken} {ts : List CommentedToken}

/-- A construct has the span of the tokens that it is read from, and its parts are read inside. -/
theorem Cursor.covers_of_construct (hrest : c.rest = t :: ts)
    (hread : c.construct t.token = .ok x d) :
    Covers x.span c d ∧ x.span = t.token.span.through d.last ∧
      ∃ parts, x.IsReadInside c.takeComments.advance parts d := by
  obtain ⟨construct, hconstruct, hread⟩ := exists_of_construct hread
  obtain ⟨⟨us, htokens, hlast⟩, hspan, hparts⟩ :=
    construct_isReadBehind hconstruct t.token.span c.takeComments.advance x d hread
  refine ⟨⟨t.token, us, ?_, ?_⟩, hspan, hparts⟩
  · rw [tokens, rest_takeComments_advance hrest] at htokens
    rw [tokens, hrest, List.map_cons, htokens, List.cons_append]
  · rw [takeComments_of_cons hrest] at hlast
    rw [hspan, hlast]
    rfl

/-- The constructs that are filed stand behind all that the tokens ahead stand behind. -/
theorem behind_filed {c : Cursor} (hr : ∀ u ∈ c.tokens, r.Before u.span) :
    ∀ x ∈ (attempts c).filterMap Attempt.filed?, r.Before x.span := by
  fun_induction attempts c with
  | case1 c hrest => exact fun _ h => absurd h List.not_mem_nil
  | case2 c t ts hrest ih =>
    have hothers := ih fun u hu => hr u ((c.reaches_behind t.token).suffix.subset hu)
    rcases hread : c.construct t.token with ⟨y, d⟩ | ⟨e, d⟩
    · rw [hread] at hothers
      rw [List.filterMap_cons_some (Attempt.filed?_ok _ _ _)]
      refine List.forall_mem_cons.2 ⟨?_, hothers⟩
      rw [Construct.span_withComments]
      exact (Cursor.covers_of_construct hrest hread).1.behind hr
    · rw [hread] at hothers
      rw [List.filterMap_cons_none (Attempt.filed?_failed _ _ _)]
      exact hothers

/-- The constructs that are filed stand one behind the other. -/
theorem pairwise_filed {c : Cursor} (hc : InOrder source c.tokens) :
    (((attempts c).filterMap Attempt.filed?).map Construct.span).Pairwise Span.Before := by
  fun_induction attempts c with
  | case1 c hrest => exact .nil
  | case2 c t ts hrest ih =>
    have hothers := ih (hc.sublist (c.reaches_behind t.token).suffix.sublist)
    rcases hread : c.construct t.token with ⟨y, d⟩ | ⟨e, d⟩
    · rw [hread] at hothers
      rw [List.filterMap_cons_some (Attempt.filed?_ok _ _ _), List.map_cons,
        Construct.span_withComments]
      have hcovers := (Cursor.covers_of_construct hrest hread).1
      refine .cons (List.forall_mem_map.2 ?_) hothers
      exact behind_filed (hcovers.before_tokens hc)
    · rw [hread] at hothers
      rw [List.filterMap_cons_none (Attempt.filed?_failed _ _ _)]
      exact hothers

/-- An attempt starts where reading has come to, and reads one construct. -/
theorem mem_attempts {a : Attempt} {c : Cursor} (h : a ∈ attempts c) :
    c.Reaches a.start ∧ ∃ t ts, a.start.rest = t :: ts ∧ a.outcome = a.start.construct t.token := by
  fun_induction attempts c with
  | case1 c hrest => cases h
  | case2 c t ts hrest ih =>
    rcases List.mem_cons.1 h with rfl | h
    · exact ⟨.refl c, t, ts, hrest, rfl⟩
    · obtain ⟨hreaches, hread⟩ := ih h
      exact ⟨(c.reaches_behind t.token).trans hreaches, hread⟩

/-- The tokens of a scanned source are in order in it. -/
theorem inOrder_ofTokens {ts : List Token} (h : Token.scan source = .ok ts) :
    InOrder source (Cursor.ofTokens ts).tokens := by
  rw [tokens_ofTokens]
  refine inOrder_of_scan h ?_ fun t ht => ?_
  · exact List.filter_sublist.trans (List.takeWhile_sublist _)
  · simpa using List.mem_takeWhile_imp (List.mem_of_mem_filter ht)

/-- Spans are exact and nested. A construct that is filed has the span from the first to the last
token of the attempt that reads it, and so have its parts, which are read in turn between the
keyword and the end (`Construct.IsReadInside`). Every span starts and ends at places of the source
text and is not empty, parts lie inside their construct, and the parts of a construct stand one
behind the other, as do all constructs. -/
theorem spans_ofTokens {ts : List Token} (h : Token.scan source = .ok ts) :
    (ofTokens ts).document.constructs = (attempts (.ofTokens ts)).filterMap Attempt.filed? ∧
      (∀ a ∈ attempts (.ofTokens ts), ∀ x ∈ a.filed?, ∃ parts,
        Covers x.span a.start a.outcome.cursor ∧
          x.IsReadInside a.start.takeComments.advance parts a.outcome.cursor ∧
          (∀ s ∈ x.span :: parts.map Part.span, s.IsIn source) ∧
          x.IsNested ∧ (parts.map Part.span).Pairwise Span.Before) ∧
      ((ofTokens ts).document.constructs.map Construct.span).Pairwise Span.Before := by
  have hconstructs : (ofTokens ts).document.constructs =
      (attempts (.ofTokens ts)).filterMap Attempt.filed? := constructs_eq_filterMap_attempts _
  refine ⟨hconstructs, fun a ha x hx => ?_, hconstructs ▸ pairwise_filed (inOrder_ofTokens h)⟩
  obtain ⟨hreaches, t, others, hrest, hread⟩ := mem_attempts ha
  have hc := (inOrder_ofTokens h).sublist hreaches.suffix.sublist
  obtain ⟨c, (⟨y, d⟩ | ⟨e, d⟩)⟩ := a
  · cases hx
    obtain ⟨hcovers, hspan, parts, hparts⟩ := Cursor.covers_of_construct hrest hread.symm
    rw [← Construct.span_withComments c.availableComments] at hcovers hspan
    have hfirst : c.tokens = t.token :: c.takeComments.advance.tokens := by
      rw [Cursor.tokens, Cursor.tokens, Cursor.rest_takeComments_advance hrest, hrest,
        List.map_cons]
    have hparts := hparts.withComments c.availableComments
    obtain ⟨hisIn, hnested, hpairwise⟩ := hparts.isNested (hfirst ▸ hc) hspan
    refine ⟨parts, hcovers, hparts, ?_, hnested, hpairwise⟩
    exact List.forall_mem_cons.2 ⟨hcovers.isIn hc, List.forall_mem_map.2 hisIn⟩
  · cases hx

/-- A source text with comments behind parts, one of them with a character of two bytes, and a table
that breaks off. -/
def remarkedText : String :=
  "Table t \x7b // ä\n  a int [pk] // end\n  indexes \x7b a \x7d\n\x7d\n" ++
    "Ref: t.a > t.a // open\nTable"

/-- The spans end where the constructs do, whatever comments follow. -/
theorem spans_ofTokens_remarked :
    ∃ ts, Token.scan remarkedText = .ok ts ∧
      (ofTokens ts).document.constructs.map Construct.span =
        [⟨⟨1, 1, 0⟩, ⟨4, 2, 53⟩⟩, ⟨⟨5, 1, 54⟩, ⟨5, 15, 68⟩⟩] ∧
      ((ofTokens ts).document.constructs.map Construct.span).Pairwise Span.Before ∧
      ∀ a ∈ attempts (.ofTokens ts), ∀ x ∈ a.filed?, x.IsNested := by
  have hspans : (Token.scan remarkedText).toOption.map (fun ts =>
      (ofTokens ts).document.constructs.map Construct.span) =
        some [⟨⟨1, 1, 0⟩, ⟨4, 2, 53⟩⟩, ⟨⟨5, 1, 54⟩, ⟨5, 15, 68⟩⟩] := by
    decide +kernel
  cases hscan : Token.scan remarkedText with
  | error e =>
    rw [hscan] at hspans
    cases hspans
  | ok ts =>
    rw [hscan] at hspans
    obtain ⟨-, hinside, hpairwise⟩ := spans_ofTokens hscan
    refine ⟨ts, rfl, Option.some.inj hspans, hpairwise, fun a ha x hx => ?_⟩
    obtain ⟨-, -, -, -, hnested, -⟩ := hinside a ha x hx
    exact hnested

end SchemaDiagram.Document
