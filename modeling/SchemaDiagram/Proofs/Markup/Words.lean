import SchemaDiagram.Document.Cursor
import SchemaDiagram.Proofs.Token.MaximalMunch

/-!
# The words of a text

What reading sees of a text are its words: the tokens of the structure without their places, each
with the line comments before it. `Lexes comments cs ws` says that the text `cs` has the words `ws`,
if the given comments stand in front of it.

Main statement: `Lexes.exists_scanFrom`, the tokens of such a text are those words. The other lemmas
put a piece in front of a text whose words are known: white space, a line comment, a word of letters,
a mark, a text in quotes, a numeral or a color.
-/

namespace SchemaDiagram.Document

open Lexeme Lexeme.Pattern

/-- A token of the structure without its place, with the comments before it. -/
structure Word where
  /-- The texts of the comments. -/
  comments : List String
  /-- What the token is. -/
  kind : TokenKind
  /-- The characters of the token. -/
  text : String
  deriving DecidableEq

/-- The word of a token with comments. -/
def CommentedToken.word (t : CommentedToken) : Word := ⟨t.comments, t.token.kind, t.token.text⟩

/-- The word of a token, without comments before it. -/
def tokenWord (t : Token) : Word := ⟨[], t.kind, t.text⟩

/-- The value of a word: quoted texts lose their quotes and escapes. -/
def Word.value (w : Word) : String := if w.kind.isString then Text.unquoted w.text else w.text

/-- The text of a line comment, from its characters. -/
def commentTextOf (cs : List Char) : String :=
  String.ofList (Text.trim (if cs.take 2 = ['/', '/'] then cs.drop 2 else cs))

/-- A comment's text is that of its characters. -/
theorem commentText_ofList (kind : TokenKind) (span : Span) (cs : List Char) :
    Token.commentText ⟨kind, span, String.ofList cs⟩ = commentTextOf cs := by
  simp [Token.commentText, commentTextOf]

/-- The text has the words, if the given comments stand in front of it. -/
inductive Lexes : List String → List Char → List Word → Prop
  | nil : Lexes [] [] []
  | skipped {comments : List String} {w rest : List Char} {ws : List Word}
      (scanned : scan (w ++ rest) = some ⟨none, w, rest⟩) (others : Lexes comments rest ws) :
      Lexes comments (w ++ rest) ws
  | comment {comments : List String} {w rest : List Char} {ws : List Word}
      (scanned : scan (w ++ rest) = some ⟨some .comment, w, rest⟩)
      (others : Lexes (comments ++ [commentTextOf w]) rest ws) : Lexes comments (w ++ rest) ws
  | word {comments : List String} {kind : TokenKind} {w rest : List Char} {ws : List Word}
      (scanned : scan (w ++ rest) = some ⟨some kind, w, rest⟩) (isWord : kind ≠ .comment)
      (complete : kind = .color → Color.IsLiteral w) (others : Lexes [] rest ws) :
      Lexes comments (w ++ rest) (⟨comments, kind, String.ofList w⟩ :: ws)

/-- The tokens of a text are its words, whatever the place where it starts. -/
theorem Lexes.exists_scanFrom {comments : List String} {cs : List Char} {ws : List Word}
    (h : Lexes comments cs ws) (p : Position) :
    ∃ ts, Token.scanFrom p cs = .ok ts ∧
      (gatherComments comments ts).1.map CommentedToken.word = ws := by
  induction h generalizing p with
  | nil => exact ⟨[Token.endAt p], Token.scanFrom_nil p, rfl⟩
  | @skipped comments w rest ws scanned _ ih =>
    obtain ⟨ts, hts, hws⟩ := ih (p.advance w)
    exact ⟨ts, by rw [Token.scanFrom_skipped scanned, hts], hws⟩
  | @comment comments w rest ws scanned _ ih =>
    obtain ⟨ts, hts, hws⟩ := ih (p.advance w)
    refine ⟨⟨.comment, ⟨p, p.advance w⟩, String.ofList w⟩ :: ts, ?_, ?_⟩
    · rw [Token.scanFrom_kept scanned (by simp), hts]
      rfl
    · simpa [gatherComments, commentText_ofList] using hws
  | @word comments kind w rest ws scanned isWord complete _ ih =>
    obtain ⟨ts, hts, hws⟩ := ih (p.advance w)
    refine ⟨⟨kind, ⟨p, p.advance w⟩, String.ofList w⟩ :: ts, ?_, ?_⟩
    · rw [Token.scanFrom_kept scanned complete, hts]
      rfl
    · have hend : kind ≠ .endOfInput := (shape_of_scan scanned).readAs.kind_ne_endOfInput
      simp [gatherComments, hend, isWord, hws, CommentedToken.word]

/-- Comments in front of a text stand before one of its words. -/
theorem Lexes.exists_comments {comments : List String} {cs : List Char} {ws : List Word}
    (h : Lexes comments cs ws) (hcomments : comments ≠ []) : ∃ w ∈ ws, w.comments ≠ [] := by
  induction h with
  | nil => exact absurd rfl hcomments
  | skipped _ _ ih => exact ih hcomments
  | comment _ _ ih => exact ih (by simp)
  | word => exact ⟨_, List.mem_cons_self, hcomments⟩

/-- Where no comment stands before a word, the tokens are those words and nothing else. -/
theorem Lexes.exists_tokens {comments : List String} {cs : List Char} {ws : List Word}
    (h : Lexes comments cs ws) (hplain : ∀ w ∈ ws, w.comments = []) (p : Position) :
    ∃ ts, Token.scanFrom p cs = .ok (ts ++ [Token.endAt (p.advance cs)]) ∧
      ts.map tokenWord = ws := by
  induction h generalizing p with
  | nil => exact ⟨[], Token.scanFrom_nil p, rfl⟩
  | @skipped comments w rest ws scanned _ ih =>
    obtain ⟨ts, hts, hws⟩ := ih hplain (p.advance w)
    exact ⟨ts, by rw [Token.scanFrom_skipped scanned, hts, Position.advance_append], hws⟩
  | comment _ others =>
    obtain ⟨w, hw, hcomments⟩ := others.exists_comments (by simp)
    exact absurd (hplain w hw) hcomments
  | @word comments kind w rest ws scanned _ complete _ ih =>
    obtain ⟨hw, hplain⟩ := List.forall_mem_cons.1 hplain
    obtain ⟨ts, hts, hws⟩ := ih hplain (p.advance w)
    refine ⟨⟨kind, ⟨p, p.advance w⟩, String.ofList w⟩ :: ts, ?_, ?_⟩
    · rw [Token.scanFrom_kept scanned complete, hts, Position.advance_append]
      rfl
    · obtain rfl : comments = [] := hw
      rw [List.map_cons, hws]
      rfl

/-! ## Where a lexeme ends -/

/-- A character that ends every lexeme in front of it but a comment. -/
def separates (c : Char) : Bool :=
  !continuesWord c && !continuesColor c && c != '.' && c != '>'

/-- A separating character is no digit. -/
theorem isDigit_eq_false_of_separates {c : Char} (h : separates c = true) :
    c.isDigit = false := by
  simp only [separates, continuesWord, Bool.not_or, Bool.and_eq_true, Bool.not_eq_true'] at h
  exact h.1.1.1.2

/-- A separating character does not continue a number. -/
theorem numberTail_of_separates {c : Char} (h : separates c = true) (rest : List Char) :
    numberTail (c :: rest) = ([], c :: rest) := by
  have hdigit := isDigit_eq_false_of_separates h
  have hpoint : c ≠ '.' := by
    rintro rfl
    exact absurd h (by decide)
  have hfraction : fraction (c :: rest) = ([], c :: rest) := by
    unfold fraction
    split
    · next heq =>
      cases heq
      exact absurd rfl hpoint
    · rfl
  rw [numberTail, List.takeWhile_cons_of_neg (by simp [hdigit]),
    List.dropWhile_cons_of_neg (by simp [hdigit]), hfraction]
  rfl

/-- In front of a character that separates, a token is scanned as it is. -/
theorem scan_followed {w : List Char} {kind : TokenKind} (h : ReadAs w (some kind))
    (hkind : kind ≠ .comment) {c : Char} (hc : separates c = true) (rest : List Char) :
    scan (w ++ c :: rest) = some ⟨some kind, w, c :: rest⟩ := by
  have hsep := hc
  simp only [separates, Bool.and_eq_true, Bool.not_eq_true', bne_iff_ne] at hsep
  obtain ⟨⟨⟨hword, hcolor⟩, hpoint⟩, hgreater⟩ := hsep
  have hdigit := isDigit_eq_false_of_separates hc
  cases h.shape with
  | word hw =>
    rw [scan_word hw, List.takeWhile_cons_of_neg (by simp [hword]),
      List.dropWhile_cons_of_neg (by simp [hword]), List.append_nil]
  | mark m =>
    cases m
    case less => exact scan_less fun cs hcs => hgreater (List.cons.inj hcs).1
    case minus =>
      refine scan_minus ?_
      rintro d ds ⟨⟩
      exact hdigit
    all_goals rfl
  | quoted q hw => exact scan_quotedText hw _
  | whole hw => rw [scan_wholeNumber hw, numberTail_of_separates hc, List.append_nil]
  | decimal hw =>
    rw [scan_decimalNumber hw, List.takeWhile_cons_of_neg (by simp [hdigit]),
      List.dropWhile_cons_of_neg (by simp [hdigit]), List.append_nil]
  | color hw =>
    rw [scan_colorLiteral hw, List.takeWhile_cons_of_neg (by simp [hcolor]),
      List.dropWhile_cons_of_neg (by simp [hcolor]), List.append_nil]
  | comment hw => exact absurd rfl hkind

/-- The body of a text that was put in quotes ends where the text does. -/
theorem stringTail?_escape_append (q : Text.Quote) (cs rest : List Char) :
    stringTail? q.char (Text.escape q cs ++ q.char :: rest) =
      some (Text.escape q cs ++ [q.char], rest) := by
  have hq : q.char ≠ '\\' := by cases q <;> decide
  have hescape : ∀ (d : Char) (body : List Char), d ≠ '\n' →
      stringTail? q.char (body ++ q.char :: rest) = some (body ++ [q.char], rest) →
      stringTail? q.char ('\\' :: d :: body ++ q.char :: rest) =
        some ('\\' :: d :: body ++ [q.char], rest) := by
    intro d body hd hbody
    rw [List.cons_append, List.cons_append, stringTail?_escape hq hd, hbody]
    rfl
  induction cs with
  | nil => exact stringTail?_quote q.char rest
  | cons c cs ih =>
    unfold Text.escape
    split
    · exact hescape '\\' _ (by decide) ih
    split
    · exact hescape 'n' _ (by decide) ih
    split
    · exact hescape 't' _ (by decide) ih
    split
    · exact hescape 'r' _ (by decide) ih
    split
    · next hline _ _ _ => exact hescape c _ hline ih
    · next hback _ _ _ hquote =>
      rw [List.cons_append, stringTail?_cons hquote hback, ih]
      rfl

/-- A text that was put in quotes is scanned as one lexeme, whatever stands behind it. -/
theorem scan_quoted (q : Text.Quote) (s : String) (rest : List Char) :
    scan ((Text.quoted q s).toList ++ rest) =
      some ⟨some (.string q), (Text.quoted q s).toList, rest⟩ := by
  have hchars : (Text.quoted q s).toList = q.char :: (Text.escape q s.toList ++ [q.char]) :=
    String.toList_ofList
  rw [hchars, List.cons_append, List.append_assoc, scan_quote, List.singleton_append,
    stringTail?_escape_append]
  rfl

/-- A word of letters is scanned up to the first character that goes on with no word. -/
theorem scan_letters {w rest : List Char} (hw : w ∈ Pattern.word)
    (hrest : ∀ c ∈ rest.head?, continuesWord c = false) :
    scan (w ++ rest) = some ⟨some (wordKind w), w, rest⟩ := by
  obtain ⟨htake, hdrop⟩ := run_of_head? hrest
  rw [scan_word hw, htake, hdrop, List.append_nil]

/-! ## Pieces in front of a text -/

namespace Lexes

variable {comments : List String} {cs rest : List Char} {ws : List Word}

/-- White space in front of a text may be left out. -/
theorem dropSpaces (h : Lexes comments cs ws) : Lexes comments (cs.dropWhile isSpace) ws := by
  rcases cs with _ | ⟨c, cs⟩
  · exact h
  by_cases hc : isSpace c = true
  · rw [List.dropWhile_cons_of_pos hc]
    generalize htext : c :: cs = text at h
    cases h with
    | nil => cases htext
    | skipped scanned others =>
      rw [← htext, scan_cons_of_isSpace hc] at scanned
      cases scanned
      exact others
    | comment scanned others =>
      rw [← htext, scan_cons_of_isSpace hc] at scanned
      cases scanned
    | word scanned isWord complete others =>
      rw [← htext, scan_cons_of_isSpace hc] at scanned
      cases scanned
  · rwa [List.dropWhile_cons_of_neg hc]

/-- White space in front of a text makes no difference. -/
theorem space {c : Char} (hc : isSpace c = true) (h : Lexes comments cs ws) :
    Lexes comments (c :: cs) ws := by
  have hscan := scan_cons_of_isSpace hc cs
  have hpiece : c :: cs = (c :: cs.takeWhile isSpace) ++ cs.dropWhile isSpace := by
    rw [List.cons_append, List.takeWhile_append_dropWhile]
  rw [hpiece] at hscan ⊢
  exact .skipped hscan h.dropSpaces

/-- White space may be put in front of a text. -/
theorem spaces {run : List Char} (hrun : ∀ c ∈ run, isSpace c = true)
    (h : Lexes comments cs ws) : Lexes comments (run ++ cs) ws := by
  induction run with
  | nil => exact h
  | cons c run ih =>
    obtain ⟨hc, hrun⟩ := List.forall_mem_cons.1 hrun
    exact (ih hrun).space hc

/-- A token in front of a character that separates. -/
theorem token {w : List Char} {kind : TokenKind} (hread : ReadAs w (some kind))
    (hkind : kind ≠ .comment) (hcolor : kind = .color → Color.IsLiteral w) {c : Char}
    (hc : separates c = true) (h : Lexes [] (c :: rest) ws) :
    Lexes comments (w ++ c :: rest) (⟨comments, kind, String.ofList w⟩ :: ws) :=
  .word (scan_followed hread hkind hc rest) hkind hcolor h

/-- A word in front of a character that does not go on with it. -/
theorem letters {w : List Char} (hw : w ∈ Pattern.word) {c : Char} (hc : continuesWord c = false)
    (h : Lexes [] (c :: rest) ws) :
    Lexes comments (w ++ c :: rest) (⟨comments, wordKind w, String.ofList w⟩ :: ws) := by
  refine .word (scan_letters hw ?_) ?_ ?_ h
  · rintro d ⟨⟩
    exact hc
  · unfold wordKind
    split <;> nofun
  · unfold wordKind
    split <;> nofun

/-- A mark that starts no longer lexeme. -/
theorem mark (m : Mark) (hm : m ≠ .less ∧ m ≠ .minus) (h : Lexes [] rest ws) :
    Lexes comments (m.chars ++ rest) (⟨comments, .mark m, String.ofList m.chars⟩ :: ws) := by
  have hscan : scan (m.chars ++ rest) = some ⟨some (.mark m), m.chars, rest⟩ := by
    cases m
    case less => exact absurd rfl hm.1
    case minus => exact absurd rfl hm.2
    all_goals rfl
  exact .word hscan nofun nofun h

/-- A text in quotes. -/
theorem quoted (q : Text.Quote) (s : String) (h : Lexes [] rest ws) :
    Lexes comments ((Text.quoted q s).toList ++ rest)
      (⟨comments, .string q, Text.quoted q s⟩ :: ws) := by
  have hword : Lexes comments _ _ := Lexes.word (scan_quoted q s rest) nofun nofun h
  rwa [String.ofList_toList] at hword

/-- A line comment and the line feed that ends it. -/
theorem commentLine {l : List Char} (hl : ∀ c ∈ l, c ≠ '\n')
    (h : Lexes (comments ++ [String.ofList (Text.trim l)]) rest ws) :
    Lexes comments ('/' :: '/' :: l ++ '\n' :: rest) ws := by
  have hscan : scan ('/' :: '/' :: l ++ '\n' :: rest) =
      some ⟨some .comment, '/' :: '/' :: l, '\n' :: rest⟩ := by
    rw [List.cons_append, List.cons_append, scan_slash_slash,
      List.takeWhile_append_of_pos (by simpa using hl),
      List.dropWhile_append_of_pos (by simpa using hl)]
    simp
  exact .comment hscan (h.space rfl)

end Lexes

end SchemaDiagram.Document
