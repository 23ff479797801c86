import SchemaDiagram.Proofs.Markup.Values

/-!
# Quoted texts and names are single tokens

A text in quotes is one token, whatever it says and whatever stands behind it: writing escapes
exactly the characters that would end it early or not be read back. A name is one token too. In
quotes that is the same fact; without them the name is a word of letters, and the word ends in front
of every character that goes on with no word.

Main statement: `Token.quoting_round_trips`. Both halves come from one equation about a word whose
text is scanned as it stands, `Token.scanFrom_word`.
-/

namespace SchemaDiagram

namespace Document

/-- The token of a word that starts at a place. -/
def Word.tokenAt (p : Position) (w : Word) : Token :=
  ⟨w.kind, ⟨p, p.advance w.text.toList⟩, w.text⟩

end Document

namespace Token

open Document Lexeme

/-- Where a word is scanned as it stands, its token comes first. -/
theorem scanFrom_word {w : Word} {rest : List Char}
    (h : Lexeme.scan (w.text.toList ++ rest) = some ⟨some w.kind, w.text.toList, rest⟩)
    (hcolor : w.kind ≠ .color) (p : Position) :
    scanFrom p (w.text.toList ++ rest) =
      (scanFrom (p.advance w.text.toList) rest).map (w.tokenAt p :: ·) := by
  rw [scanFrom_kept h (fun hkind => absurd hkind hcolor), String.ofList_toList]
  rfl

/-- A word that is scanned as it stands at the end of a text is the only token. -/
theorem scan_singleWord {w : Word}
    (h : Lexeme.scan (w.text.toList ++ []) = some ⟨some w.kind, w.text.toList, []⟩)
    (hcolor : w.kind ≠ .color) :
    scan w.text = .ok [w.tokenAt .start, endAt (w.tokenAt .start).span.stop] := by
  have hread := scanFrom_word h hcolor .start
  rw [List.append_nil, scanFrom_nil] at hread
  exact hread

/-- The characters that stand directly behind a name somewhere in a document: blanks, the marks
between and behind names, and brackets of every kind. -/
def nameEnds : List Char := [' ', '\n', '.', ',', ':', '(', ')', '[', ']', '{', '}', '<', '>']

/-- No character that ends a name continues a word. -/
theorem continuesWord_eq_false_of_mem_nameEnds {c : Char} (hc : c ∈ nameEnds) :
    continuesWord c = false := by
  have hall : nameEnds.all (fun c => !continuesWord c) = true := by decide
  simpa using List.all_eq_true.1 hall c hc

/-- Quoting is undone by reading. A text in quotes is one token, a text in those quotes that stands
for what was quoted. A name is one token as well: a name, no word that would be structure in its
place, with the name as its value; and it is the same token in front of each character that can
stand behind a name, whatever follows that. -/
theorem quoting_round_trips :
    (∀ (q : Text.Quote) (s : String), ∃ t : Token,
      scan (Text.quoted q s) = .ok [t, endAt t.span.stop] ∧ t.kind = .string q ∧
        t.text = Text.quoted q s ∧ Text.unquoted t.text = s) ∧
    ∀ n : String, ∃ t : Token,
      scan (Markup.name n) = .ok [t, endAt t.span.stop] ∧
        t.kind.isName = true ∧ t.kind.opensConstruct = false ∧
        (∀ k ∈ [Keyword.note, .indexes, .commonColumns], t.kind ≠ .keyword k) ∧ t.value = n ∧
        ∀ c ∈ nameEnds, ∀ rest : String,
          scan (Markup.name n ++ String.singleton c ++ rest) =
            (scanFrom t.span.stop (c :: rest.toList)).map (t :: ·) := by
  constructor
  · intro q s
    have hread := scan_singleWord (w := quotedWord q s) (scan_quoted q s []) nofun
    exact ⟨(quotedWord q s).tokenAt .start, hread, rfl, rfl, Text.unquoted_quoted q s⟩
  intro n
  have hcolor := nameKind_ne_color n
  have hname := isName_nameKind n
  have hread := scan_singleWord (w := nameWord n) (scan_name n nofun) hcolor
  refine ⟨(nameWord n).tokenAt .start, hread, hname, ?_, ?_, value_nameWord n, ?_⟩
  · show (nameKind n).opensConstruct = false
    cases hkind : nameKind n with
    | keyword k =>
      rw [hkind] at hname
      simpa [TokenKind.isName, TokenKind.opensConstruct] using hname
    | _ => rfl
  · have hreserved : ∀ k ∈ [Keyword.note, .indexes, .commonColumns], ∀ s ∈ k.spellings,
        s ∈ Markup.reservedWords := by decide
    exact fun k hk => nameKind_ne_keyword (hreserved k hk)
  · intro c hc rest
    have hends : ∀ d ∈ (c :: rest.toList).head?, continuesWord d = false := by
      rintro d ⟨⟩
      exact continuesWord_eq_false_of_mem_nameEnds hc
    have htext : (Markup.name n ++ String.singleton c ++ rest).toList =
        (Markup.name n).toList ++ c :: rest.toList := by
      simp
    rw [scan, htext]
    exact scanFrom_word (w := nameWord n) (scan_name n hends) hcolor .start

/-- A reserved word in capitals needs quotes, a name in letters takes none, and both are the same
token with a point behind them. -/
theorem scan_reserved_name :
    '.' ∈ nameEnds ∧ Markup.name "NOTE" = "\"NOTE\"" ∧ Markup.name "pk" = "pk" ∧
      ∃ t u : Token, t.value = "NOTE" ∧ u.value = "pk" ∧
        scan (Markup.name "NOTE" ++ String.singleton '.' ++ "7") =
          (scanFrom t.span.stop ['.', '7']).map (t :: ·) ∧
        scan (Markup.name "pk" ++ String.singleton '.' ++ "7") =
          (scanFrom u.span.stop ['.', '7']).map (u :: ·) := by
  obtain ⟨t, -, -, -, -, htvalue, ht⟩ := quoting_round_trips.2 "NOTE"
  obtain ⟨u, -, -, -, -, huvalue, hu⟩ := quoting_round_trips.2 "pk"
  have hpoint : '.' ∈ nameEnds := by decide
  exact ⟨hpoint, by decide, by decide, t, u, htvalue, huvalue, ht '.' hpoint "7", hu '.' hpoint "7"⟩

end Token

end SchemaDiagram
