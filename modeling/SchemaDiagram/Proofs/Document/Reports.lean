import SchemaDiagram.Proofs.Document.Blame
import SchemaDiagram.Proofs.Document.Spans
import SchemaDiagram.Proofs.Token.FirstError
import SchemaDiagram.Report

/-!
# Reports mark what they are about

The mark of a report is a range of bytes of the source text. It is cut off at the end of the text, and
the mark of a single character is found by counting bytes from the start; neither would be safe for
any range, but the ranges of errors and diagnostics are places of the text. So a mark covers just what
the report is about (`Report.Marks`): a character or a `#` literal where the text cannot be read, and
otherwise a token, a value, the opening of a block or the end of the text (`Concerns`).

Main statement: `reports_mark_source`.
-/

namespace SchemaDiagram

open Lexeme

variable {source text : String} {first last : Nat}

/-! ## Texts that stand in a source text -/

namespace Lexeme.StandsAt

/-- A text stops its own length behind its start. -/
theorem add_utf8ByteSize (h : StandsAt source first last text) :
    first + text.utf8ByteSize = last := by
  obtain ⟨before, after, -, rfl, rfl⟩ := h
  rw [String.utf8ByteSize_append]

/-- A text stops no later than its source. -/
theorem le_utf8ByteSize (h : StandsAt source first last text) : last ≤ source.utf8ByteSize := by
  obtain ⟨before, after, rfl, -, rfl⟩ := h
  rw [String.utf8ByteSize_append (s := before ++ text)]
  exact Nat.le_add_right _ _

/-- What ends earlier, by bytes, is a part of the front. -/
theorem exists_eq_append {xs ys us vs : String} (h : xs ++ us = ys ++ vs)
    (hle : xs.utf8ByteSize ≤ ys.utf8ByteSize) : ∃ between, ys = xs ++ between := by
  have hlists : xs.toList ++ us.toList = ys.toList ++ vs.toList := by
    rw [← String.toList_append, h, String.toList_append]
  rcases List.append_eq_append_iff.1 hlists with ⟨cs, hys, -⟩ | ⟨cs, hxs, -⟩
  · refine ⟨String.ofList cs, String.toList_injective ?_⟩
    rw [String.toList_append, String.toList_ofList, hys]
  · have hbytes : xs = ys ++ String.ofList cs := by
      refine String.toList_injective ?_
      rw [String.toList_append, String.toList_ofList, hxs]
    rw [hbytes, String.utf8ByteSize_append] at hle
    have hnil : String.ofList cs = "" := String.utf8ByteSize_eq_zero_iff.1 (by omega)
    refine ⟨"", ?_⟩
    rw [hbytes, hnil, String.append_empty, String.append_empty]

/-- From the start of one text to the end of another one behind it. -/
theorem through {text' : String} {first' last' : Nat} (h : StandsAt source first last text)
    (k : StandsAt source first' last' text') (hle : last ≤ first') :
    ∃ between, StandsAt source first last' (text ++ between ++ text') := by
  obtain ⟨before, after, hsource, rfl, rfl⟩ := h
  obtain ⟨before', after', rfl, rfl, rfl⟩ := k
  have hfront : before ++ text ++ after = before' ++ (text' ++ after') := by
    rw [← hsource, String.append_assoc]
  obtain ⟨between, rfl⟩ := exists_eq_append hfront hle
  exact ⟨between, before, after', by simp only [String.append_assoc], rfl,
    by simp only [String.append_assoc]⟩

end Lexeme.StandsAt

/-! ## Marks -/

namespace Report

/-- The mark of a report is a range of a source text as it was asked for, and covers a text. -/
structure Marks (r : Report) (source : String) (offset length : Nat) (text : String) : Prop where
  /-- The mark starts where it should. -/
  offset_eq : r.offset = offset
  /-- The mark is as long as it should be. -/
  length_eq : r.length = length
  /-- It ends within the source text. -/
  le : offset + length ≤ source.utf8ByteSize
  /-- It starts and ends between two characters, and the text stands there. -/
  stands : StandsAt source r.offset (r.offset + r.length) text

variable {r : Report} {before after : List Char} {c : Char}

/-- A report of the place where a text stands marks the text. -/
theorem marks_of_standsAt (h : StandsAt source first last text) (hoffset : r.offset = first)
    (hlength : r.length = text.utf8ByteSize) : r.Marks source first text.utf8ByteSize text := by
  rw [← h.add_utf8ByteSize] at h
  refine ⟨hoffset, hlength, h.le_utf8ByteSize, ?_⟩
  rwa [hoffset, hlength]

/-- A range of the source text is not cut off. -/
theorem marks_of_clamp (h : StandsAt source first last text)
    (hr : (r.offset, r.length) = clamp first text.utf8ByteSize source) :
    r.Marks source first text.utf8ByteSize text := by
  have hadd := h.add_utf8ByteSize
  have hle := h.le_utf8ByteSize
  have hclamp : clamp first text.utf8ByteSize source = (first, text.utf8ByteSize) := by
    simp only [clamp]
    rw [Nat.min_eq_left (by omega), Nat.min_eq_left (by omega)]
  rw [hclamp] at hr
  obtain ⟨hoffset, hlength⟩ := Prod.ext_iff.1 hr
  exact marks_of_standsAt h hoffset hlength

/-- The size of the character at a place is that of the one that stands there. -/
theorem sizeAt_append (before : List Char) (c : Char) (after : List Char) :
    sizeAt (String.ofList before).utf8ByteSize (before ++ c :: after) = c.utf8Size := by
  induction before with
  | nil => rfl
  | cons b before ih =>
    have hpos := b.utf8Size_pos
    rw [String.ofList_cons, String.utf8ByteSize_append, String.utf8ByteSize_singleton,
      List.cons_append, sizeAt, if_neg (by omega), Nat.add_sub_cancel_left, ih]

/-- The character at a place is found. -/
theorem marks_of_characterAt (h : source.toList = before ++ c :: after)
    (hr : (r.offset, r.length) = characterAt (.advance .start before) source) :
    r.Marks source (Position.start.advance before).offset (String.singleton c).utf8ByteSize
      (String.singleton c) := by
  have hstands := standsAt_of_toList before [c] after
    (by rw [h, List.append_assoc, List.singleton_append])
  have hadd := hstands.add_utf8ByteSize
  have hle := hstands.le_utf8ByteSize
  rw [characterAt, Nat.min_eq_left (by omega), offset_start_advance, h, sizeAt_append] at hr
  obtain ⟨hoffset, hlength⟩ := Prod.ext_iff.1 hr
  refine marks_of_standsAt hstands (hoffset.trans (offset_start_advance before).symm) ?_
  exact hlength.trans (String.utf8ByteSize_singleton (c := c)).symm

end Report

/-! ## Errors -/

/-- What cannot be read: a character, or a `#` literal. -/
def SourceError.culprit : SourceError → String
  | unterminatedString quote _ _ => .singleton quote
  | unexpectedCharacter character _ _ => .singleton character
  | invalidColor literal _ _ => literal
  | tooLarge _ _ => ""

/-- The report of an error marks the character or the literal at its place. -/
theorem Report.marks_ofSourceError {before rest : List Char} {e : SourceError}
    (hsource : source.toList = before ++ rest)
    (h : IsReportedAt (.advance .start before) rest e) (file : String) :
    (ofSourceError e source file).Marks source (Position.start.advance before).offset
      e.culprit.utf8ByteSize e.culprit := by
  cases h with
  | @invalidColor w rest =>
    rw [← List.append_assoc] at hsource
    exact marks_of_clamp (standsAt_of_toList before w rest hsource) rfl
  | unterminatedString => exact marks_of_characterAt hsource rfl
  | unexpectedCharacter => exact marks_of_characterAt hsource rfl

/-- The text of a mark is the mark. -/
theorem Token.IsScanned.text_mark {t : Token} (h : t.IsScanned) {m : Mark}
    (hkind : t.kind = .mark m) : t.text = String.ofList m.chars := by
  have hread := h.readAs
  rw [hkind] at hread
  generalize htext : t.text.toList = w, hk : some (TokenKind.mark m) = kind? at hread
  cases hread.shape with
  | mark m' =>
    cases hk
    rw [← htext, String.ofList_toList]
  | word =>
    unfold wordKind at hk
    split at hk <;> cases hk
  | _ => cases hk

/-- A token's text stands at its place in the source. -/
theorem Token.standsAt_of_scan {ts : List Token} (h : scan source = .ok ts) :
    ∀ t ∈ ts, StandsAt source t.span.start.offset t.span.stop.offset t.text := by
  obtain ⟨pieces, hcutting, -, rfl⟩ := scan_eq_ok_iff.1 h
  exact hcutting.standsAt (List.nil_append _).symm

/-- The document ends where its text does. -/
theorem Document.endSpan_of_scan {ts : List Token} (h : Token.scan source = .ok ts) :
    endSpan ts = .point (.advance .start source.toList) := by
  obtain ⟨pieces, hcutting, -, rfl⟩ := Token.scan_eq_ok_iff.1 h
  obtain ⟨others, hothers, htokens⟩ := hcutting.endsOnce [] (List.nil_append _).symm
  have htokens : tokensOf .start pieces = others ++ [Token.endAt (.advance .start source.toList)] :=
    htokens
  rw [htokens, endSpan_append hothers]
  rfl

namespace Document

open SchemaDiagram.Document.Parser Token

variable {ts us : List Token} {c d : Cursor} {k b : Token} {construct name : String}

/-! ## Diagnostics -/

/-- The structural tokens are some of the tokens, in order. -/
theorem structuralTokens_sublist (ts : List Token) : (structuralTokens ts).Sublist ts :=
  List.filter_sublist.trans (List.takeWhile_sublist _)

/-- The keyword of a block stands in front of its brace. -/
theorem IsOpening.exists_between (h : IsOpening us construct name k b) :
    ∃ header rest, k :: (header ++ b :: rest) <:+ us ∧ b.kind = .mark .leftBrace := by
  have hpasses {α : Type} {header : Parser α} {a : α} {c d : Cursor} {rest : List Token}
      (hplain : header.Plain) (hread : header.run c = .ok a d) (hrest : d.tokens = b :: rest)
      (hk : k :: c.tokens <:+ us) : ∃ between, k :: (between ++ b :: rest) <:+ us := by
    obtain ⟨between, htokens, -⟩ := hplain.ensures_passes c a d hread
    exact ⟨between, by rwa [← hrest, ← htokens]⟩
  cases h with
  | project hk _ hread hrest hbrace =>
    have hplain : (projectHeader k.span).Plain :=
      .bind (plain_name _) fun _ => plain_settings? (plain_apply .project) _
    obtain ⟨between, hbetween⟩ := hpasses hplain hread hrest hk
    exact ⟨between, _, hbetween, hbrace⟩
  | table hk _ hread hrest hbrace =>
    have hplain : (tableHeader k.span).Plain :=
      .bind (plain_name _) fun _ => .bind plain_tableAlias? fun _ =>
        plain_settings? (plain_apply .table) _
    obtain ⟨between, hbetween⟩ := hpasses hplain hread hrest hk
    exact ⟨between, _, hbetween, hbrace⟩
  | area hk _ hread hrest hbrace =>
    have hplain : (areaHeader k.span).Plain :=
      .bind (plain_name _) fun _ => plain_settings? (plain_apply .area) _
    obtain ⟨between, hbetween⟩ := hpasses hplain hread hrest hk
    exact ⟨between, _, hbetween, hbrace⟩
  | indexes hk _ hbrace => exact ⟨[], _, hk, hbrace⟩

/-- The text from the keyword of a block through its brace. -/
theorem IsOpening.standsAt (hscan : Token.scan source = .ok ts)
    (h : IsOpening (structuralTokens ts) construct name k b) :
    ∃ between, StandsAt source k.span.start.offset b.span.stop.offset (k.text ++ between ++ "\x7b") := by
  obtain ⟨header, rest, hsuffix, hbrace⟩ := h.exists_between
  have horder := inOrder_ofTokens hscan
  rw [tokens_ofTokens] at horder
  have hpair := (List.pairwise_cons.1 (horder.sublist hsuffix.sublist).pairwise).1 b (by simp)
  have hmem {t : Token} (ht : t ∈ k :: (header ++ b :: rest)) : t ∈ ts :=
    (structuralTokens_sublist ts).subset (hsuffix.subset ht)
  have hk := standsAt_of_scan hscan k (hmem List.mem_cons_self)
  have hb := standsAt_of_scan hscan b (hmem (by simp))
  have hend : b.kind ≠ .endOfInput := by
    rw [hbrace]
    decide
  rw [(isScanned_of_scan hscan b (hmem (by simp)) hend).text_mark hbrace] at hb
  refine hk.through hb ?_
  rcases hpair with heq | hbefore
  · exact Nat.le_of_eq (congrArg Position.offset heq)
  · exact Nat.le_of_lt hbefore.1

/-- What a diagnostic of a document is about, and the text that it marks. -/
inductive Concerns (source : String) (ts : List Token) : Diagnostic → String → Prop
  /-- The token in front of which an attempt to read a construct failed. -/
  | unexpectedToken {a : Attempt} {d : Cursor} {expected : String} {t : Token} {rest : List Token}
    (ha : a ∈ attempts (.ofTokens ts))
    (hfailed : a.outcome = .failed (.unexpectedToken expected t.found t.span) d)
    (hnext : d.tokens = t :: rest) :
    Concerns source ts (.unexpectedToken expected t.found t.span) t.text
  /-- The end of the text, where an attempt failed with no token ahead. -/
  | unexpectedEnd {a : Attempt} {d : Cursor} {expected : String} {span : Span}
    (ha : a ∈ attempts (.ofTokens ts)) (hfailed : a.outcome = .failed (.unexpectedEnd expected span) d)
    (hnext : d.tokens = []) (hspan : span = .point (.advance .start source.toList)) :
    Concerns source ts (.unexpectedEnd expected span) ""
  /-- A value that the key in front of it and of a colon cannot take. -/
  | invalidValue {k colon v : Token} {reason : String}
    (hrun : [k, colon, v] <:+: structuralTokens ts) (hcolon : colon.kind = .mark .colon)
    (hrejects : Rejects reason v) :
    Concerns source ts (.invalidValue k.value v.text reason v.span) v.text
  /-- The opening of a block, from the keyword through the brace. -/
  | unclosedBlock {construct name : String} {k b : Token} {between : String}
    (hopening : IsOpening (structuralTokens ts) construct name k b) :
    Concerns source ts (.unclosedBlock construct name (k.span.through b.span))
      (k.text ++ between ++ "\x7b")

/-- The span of a diagnostic is where the text stands that it is about. -/
theorem exists_concerns (hscan : Token.scan source = .ok ts) :
    ∀ x ∈ (ofTokens ts).diagnostics, ∃ text, Concerns source ts x text ∧
      StandsAt source x.span.start.offset x.span.stop.offset text := by
  have hmem {t : Token} (ht : t ∈ structuralTokens ts) :
      StandsAt source t.span.start.offset t.span.stop.offset t.text :=
    standsAt_of_scan hscan t ((structuralTokens_sublist ts).subset ht)
  obtain ⟨new, hnew, hblamed⟩ := exists_blamed (List.suffix_refl (Cursor.ofTokens ts).tokens)
  rw [tokens_ofTokens] at hblamed
  intro x hx
  have hx : x ∈ new := by
    have hdiagnostics : (ofTokens ts).diagnostics = new := hnew
    rwa [← hdiagnostics]
  rcases hblamed x hx with hrejection | ⟨a, ha, d, hfailed, hfailure⟩
  · obtain ⟨hrun, hcolon, hrejects⟩ := hrejection
    exact ⟨_, .invalidValue hrun hcolon hrejects, hmem (hrun.subset (by simp))⟩
  · cases hfailure with
    | unexpected expected =>
      have hreaches : (Cursor.ofTokens ts).Reaches d := by
        obtain ⟨hstart, t, -, -, houtcome⟩ := mem_attempts ha
        have hconstruct := a.start.reaches_construct t.token
        rw [← houtcome, hfailed] at hconstruct
        exact hstart.trans hconstruct
      unfold Cursor.unexpected at hfailed ⊢
      rcases hrest : d.rest with _ | ⟨t, rest⟩
      -- at the end of the input, the empty text behind the source is marked
      · have hstop : d.stop = .point (.advance .start source.toList) :=
          hreaches.stop.trans (endSpan_of_scan hscan)
        simp only [hrest] at hfailed ⊢
        refine ⟨_, .unexpectedEnd ha hfailed ?_ hstop, ?_⟩
        · rw [Cursor.tokens, hrest, List.map_nil]
        · have hsource : source.toList = source.toList ++ [] ++ [] := by simp
          have hstands := standsAt_of_toList source.toList [] [] hsource
          rw [List.append_nil] at hstands
          rw [hstop]
          exact hstands
      · simp only [hrest] at hfailed ⊢
        have htokens : d.tokens = t.token :: rest.map (·.token) := by
          rw [Cursor.tokens, hrest, List.map_cons]
        refine ⟨_, .unexpectedToken ha hfailed htokens, hmem ?_⟩
        rw [← tokens_ofTokens]
        exact hreaches.suffix.subset (htokens ▸ List.mem_cons_self)
    | unclosedBlock hopening =>
      obtain ⟨between, hstands⟩ := hopening.standsAt hscan
      exact ⟨_, .unclosedBlock hopening, hstands⟩

/-- Reports mark what they are about. Where a text cannot be read, the mark is the character at the
place of the error, or the `#` literal there. Where it can, the mark of each diagnostic is its span,
and covers what the diagnostic is about: an unexpected token, a value that was rejected, the opening
of a block from its keyword through its brace, or the empty range at the end of the text. -/
theorem reports_mark_source (source file : String) :
    (∀ e, Token.scan source = .error e → ∃ p, e.position? = some p ∧
      (Report.ofSourceError e source file).Marks source p.offset e.culprit.utf8ByteSize e.culprit) ∧
    ∀ ts, Token.scan source = .ok ts → ∀ x ∈ (ofTokens ts).diagnostics, ∃ text,
      Concerns source ts x text ∧ x.span.start.offset + x.span.length = x.span.stop.offset ∧
        (Report.ofDiagnostic x source file).Marks source x.span.start.offset x.span.length text := by
  refine ⟨fun e he => ?_, fun ts hscan x hx => ?_⟩
  · obtain ⟨pieces, rest, hcuts, -, hreported⟩ := scan_eq_error_iff.1 he
    exact ⟨_, hreported.position?_eq,
      Report.marks_ofSourceError hcuts.append_eq.symm hreported file⟩
  · obtain ⟨text, hconcerns, hstands⟩ := exists_concerns hscan x hx
    have hadd := hstands.add_utf8ByteSize
    have hlength : x.span.length = text.utf8ByteSize := by
      rw [Span.length]
      omega
    refine ⟨text, hconcerns, by omega, ?_⟩
    rw [hlength]
    refine Report.marks_of_clamp hstands ?_
    rw [← hlength]
    cases x <;> rfl

/-- A source text with characters of three bytes: a color that is none, a block that is left open, a
reference that breaks off, and a table without a name. -/
def brokenText : String := "Table 表 [color: \"赤\"] \x7b\nRef x\nTable"

/-- The marks are the color with its quotes, the opening of the first table, the second keyword
`Table`, and the end of the text. -/
theorem reports_mark_brokenText :
    ∃ ts, Token.scan brokenText = .ok ts ∧
      (ofTokens ts).diagnostics.map (fun x => (x.span.start.offset, x.span.length)) =
        [(18, 5), (0, 26), (33, 5), (38, 0)] ∧
      ∀ x ∈ (ofTokens ts).diagnostics, ∃ text, Concerns brokenText ts x text ∧
        (Report.ofDiagnostic x brokenText "a").Marks brokenText x.span.start.offset x.span.length
          text := by
  have hranges : (Token.scan brokenText).toOption.map (fun ts =>
      (ofTokens ts).diagnostics.map fun x => (x.span.start.offset, x.span.length)) =
        some [(18, 5), (0, 26), (33, 5), (38, 0)] := by
    decide +kernel
  cases hscan : Token.scan brokenText with
  | error e =>
    rw [hscan] at hranges
    cases hranges
  | ok ts =>
    rw [hscan] at hranges
    refine ⟨ts, rfl, Option.some.inj hranges, fun x hx => ?_⟩
    obtain ⟨text, hconcerns, -, hmarks⟩ := (reports_mark_source brokenText "a").2 ts hscan x hx
    exact ⟨text, hconcerns, hmarks⟩

end Document

end SchemaDiagram
