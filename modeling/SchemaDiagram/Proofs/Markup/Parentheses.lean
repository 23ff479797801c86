import SchemaDiagram.Proofs.Document.Parentheses
import SchemaDiagram.Proofs.Markup.Columns

/-!
# The spelling of a text in parentheses is canonical

What reading keeps of a text in parentheses is a spelling of the tokens between them. Put between
parentheses again, it is cut into these tokens and no others: a space ends every token in front of
it, a comma is a token by itself whatever stands beside it, and nothing else joins two texts. So the
spelling is read as itself, alone and behind the type of a column.

Main statement: `parenthesized_is_canonical`.
-/

namespace SchemaDiagram.Document

open SchemaDiagram.Document.Parser

/-- A mark that was scanned has the word of the mark. -/
theorem tokenWord_of_mark {t : Token} {m : Mark} (h : t.IsScanned) (hkind : t.kind = .mark m) :
    tokenWord t = markWord m := by
  have hread := h.readAs
  rw [hkind] at hread
  have htext : t.text = String.ofList m.chars := by
    rw [← hread.eq_chars, String.ofList_toList]
  rw [tokenWord, hkind, htext]
  rfl

/-- The words of a raw text have no comments. -/
theorem comments_of_mem_rawWords {ts : List CommentedToken} :
    ∀ w ∈ rawWords ts, w.comments = [] := by
  intro w hw
  simp only [rawWords, List.mem_cons, List.mem_append, List.mem_map, List.not_mem_nil,
    or_false] at hw
  rcases hw with rfl | ⟨t, -, rfl⟩ | rfl <;> rfl

/-- A text in parentheses has the words of its tokens and the parentheses. -/
theorem Lexes.parenthesized {ts : List CommentedToken}
    (hts : ∀ t ∈ rawTokens ts, t.IsScanned ∧ t.kind ≠ .comment) :
    Lexes [] ("(" ++ Parser.rawText (rawTokens ts) ++ ")").toList (rawWords ts) := by
  have hchars : ("(" ++ Parser.rawText (rawTokens ts) ++ ")").toList =
      '(' :: ((Parser.rawText (rawTokens ts)).toList ++ [')']) := by
    simp
  rw [hchars]
  exact Lexes.mark .leftParen (by decide)
    (Lexes.rawText hts (Lexes.mark .rightParen (by decide) Lexes.nil))

/-- The markup of a column with a text in parentheses is read as a column with that text. -/
theorem exists_column_of_markup {raw : String} (hraw : IsRawText raw) (depth : Nat)
    {c : SchemaDiagram.Column} (hc : c.typeParams = some raw) :
    ∃ ts column e, Token.scan (Markup.column depth c) = .ok ts ∧
      commentedColumn.run (.ofTokens ts) = .ok column e ∧ column.params = some raw ∧
      e.tokens = [] ∧ e.reported = [] := by
  have hparams : ∀ text ∈ c.typeParams, IsRawText text := by
    intro text htext
    rw [hc] at htext
    cases htext
    exact hraw
  have hlexes := Lexes.column depth hparams Lexes.nil
  rw [List.append_nil, List.append_nil] at hlexes
  obtain ⟨ts, hscan, hwords⟩ := hlexes.exists_scanFrom .start
  have hends : EndsColumn [] := ⟨nofun, nofun⟩
  have hreads := Parser.Reads.commentedColumn hparams hends
  rw [List.append_nil] at hreads
  obtain ⟨column, e, hread, hmodel, hfaces⟩ := hreads (.ofTokens ts) ⟨hwords, rfl, rfl⟩
  refine ⟨ts, column, e, hscan, hread, ?_, ?_, hfaces.reported⟩
  · exact (congrArg SchemaDiagram.Column.typeParams hmodel).trans hc
  · rw [Cursor.tokens, List.map_eq_nil_iff.1 hfaces.words]
    rfl

/-- Texts in parentheses are canonical. Where one is read in a source text, its tokens stand between
two parentheses and are balanced: the parentheses that are open are counted exactly at each place,
never less than none, and none is open at the end. The text between parentheses is cut into just
these tokens, by kind and characters, and is read as itself; and so it is in the markup of every
column that has it behind its type. -/
theorem parenthesized_is_canonical {c d : Cursor} {raw : String} (hc : c.IsInSource)
    (h : parenthesized.run c = .ok raw d) :
    ∃ opening inner closing ts stop,
      c.tokens = opening :: (inner ++ closing :: d.tokens) ∧
      opening.kind = .mark .leftParen ∧ closing.kind = .mark .rightParen ∧
      (∀ n ≤ inner.length, ∃ depth : Nat, (depth : Int) = openParens (inner.take n) ∧
        rawLength depth (c.advance.rest.drop n) = (inner.length - n, true)) ∧
      openParens inner = 0 ∧
      Token.scan ("(" ++ raw ++ ")") = .ok (ts ++ [Token.endAt stop]) ∧
      ts.map (fun t => (t.kind, t.text)) =
        (opening :: (inner ++ [closing])).map (fun t => (t.kind, t.text)) ∧
      (∃ e, parenthesized.run (.ofTokens (ts ++ [Token.endAt stop])) = .ok raw e ∧
        e.tokens = [] ∧ e.reported = []) ∧
      ∀ (depth : Nat) (column : SchemaDiagram.Column), column.typeParams = some raw →
        ∃ us read e, Token.scan (Markup.column depth column) = .ok us ∧
          commentedColumn.run (.ofTokens us) = .ok read e ∧ read.params = some raw ∧
          e.tokens = [] ∧ e.reported = [] := by
  have hraw : IsRawText raw := ⟨c, d, hc, h⟩
  obtain ⟨opening, inner, closing, htokens, hopening, hbalanced, hclosing, rfl, -⟩ :=
    run_parenthesized_iff.1 h
  have hinner : c.advance.rest.map (·.token) = inner ++ closing :: d.tokens :=
    Cursor.tokens_advance htokens
  have hlength := rawLength_of_balanced hinner hbalanced hclosing
  have hrawTokens : rawTokens c.advance.rest = inner := by
    rw [rawTokens, hlength, List.map_take, hinner, List.take_left' rfl]
  have hscanned : ∀ t ∈ opening :: (inner ++ [closing]), t.IsScanned ∧ t.kind ≠ .comment := by
    intro t ht
    refine hc.isScanned ?_
    rw [htokens]
    simp only [List.mem_cons, List.mem_append, List.not_mem_nil, or_false] at ht ⊢
    exact ht.imp_right (Or.imp_right Or.inl)
  have hlexes := @Lexes.parenthesized c.advance.rest (by
    rw [hrawTokens]
    exact fun t ht => hscanned t (by simp [ht]))
  rw [hrawTokens] at hlexes
  -- the raw text is scanned into the same words, and reading depends on the words alone
  obtain ⟨ts, hscan, hwords⟩ := hlexes.exists_tokens comments_of_mem_rawWords .start
  obtain ⟨all, hscan', hfaces⟩ := hlexes.exists_scanFrom .start
  have hreads := @Parser.Reads.parenthesized c.advance.rest (by rw [hlength]) []
  rw [List.append_nil] at hreads
  obtain ⟨text, e, hread, htext, hend⟩ := hreads (.ofTokens all) ⟨hfaces, rfl, rfl⟩
  rw [hrawTokens] at htext
  obtain rfl := Except.ok.inj (hscan'.symm.trans hscan)
  have hends : e.tokens = [] := by
    rw [Cursor.tokens, List.map_eq_nil_iff.1 hend.words]
    rfl
  have hsame : ts.map tokenWord = (opening :: (inner ++ [closing])).map tokenWord := by
    rw [hwords, rawWords, hrawTokens, List.map_cons, List.map_append,
      tokenWord_of_mark (hscanned opening (by simp)).1 hopening, List.map_singleton,
      tokenWord_of_mark (hscanned closing (by simp)).1 hclosing]
  refine ⟨opening, inner, closing, ts, _, htokens, hopening, hclosing,
    fun n hn => rawLength_drop_of_balanced hinner hbalanced hclosing hn,
    openParens_of_balanced hbalanced, hscan, ?_, ⟨e, ?_, hends, hend.reported⟩,
    fun depth column hcolumn => exists_column_of_markup hraw depth hcolumn⟩
  · have hpairs := congrArg (List.map fun w : Word => (w.kind, w.text)) hsame
    rwa [List.map_map, List.map_map] at hpairs
  · rw [hread, htext]

/-- The tokens of a text in parentheses with a block comment and others in it. -/
def nestedTokens : List Token :=
  [⟨.mark .leftParen, ⟨⟨1, 1, 0⟩, ⟨1, 2, 1⟩⟩, "("⟩, ⟨.number, ⟨⟨1, 2, 1⟩, ⟨1, 3, 2⟩⟩, "1"⟩,
    ⟨.mark .dot, ⟨⟨1, 3, 2⟩, ⟨1, 4, 3⟩⟩, "."⟩, ⟨.mark .comma, ⟨⟨1, 6, 5⟩, ⟨1, 7, 6⟩⟩, ","⟩,
    ⟨.mark .leftParen, ⟨⟨1, 7, 6⟩, ⟨1, 8, 7⟩⟩, "("⟩, ⟨.mark .minus, ⟨⟨1, 8, 7⟩, ⟨1, 9, 8⟩⟩, "-"⟩,
    ⟨.mark .rightParen, ⟨⟨1, 9, 8⟩, ⟨1, 10, 9⟩⟩, ")"⟩,
    ⟨.mark .rightParen, ⟨⟨1, 15, 14⟩, ⟨1, 16, 15⟩⟩, ")"⟩, ⟨.endOfInput, .point ⟨1, 16, 15⟩, ""⟩]

/-- The spelling keeps a number and a point apart, and is cut into the same tokens as the source. -/
theorem parenthesized_nested :
    Token.scan "(1.  ,(-)/* */)" = .ok nestedTokens ∧
      ∃ ts stop, Token.scan ("(" ++ "1 .,( - )" ++ ")") = .ok (ts ++ [Token.endAt stop]) ∧
        ts.map (fun t => t.text) = ["(", "1", ".", ",", "(", "-", ")", ")"] := by
  have hscan : Token.scan "(1.  ,(-)/* */)" = .ok nestedTokens := by cbv
  have hsource : (Cursor.ofTokens nestedTokens).IsInSource := ⟨_, _, hscan, .refl _⟩
  have hread : parenthesized.run (.ofTokens nestedTokens) =
      .ok "1 .,( - )" ((Cursor.ofTokens nestedTokens).advanceBy 8) := by
    rfl
  obtain ⟨opening, inner, closing, ts, stop, htokens, -, -, -, -, hagain, hsame, -⟩ :=
    parenthesized_is_canonical hsource hread
  refine ⟨hscan, ts, stop, hagain, ?_⟩
  have htexts := congrArg (List.map Prod.snd) hsame
  rw [List.map_map, List.map_map] at htexts
  have hall : opening :: (inner ++ [closing]) = nestedTokens.take 8 := by
    have hbehind : ((Cursor.ofTokens nestedTokens).advanceBy 8).tokens = [] := rfl
    rw [hbehind] at htokens
    exact htokens.symm
  rw [hall] at htexts
  exact htexts

end SchemaDiagram.Document
