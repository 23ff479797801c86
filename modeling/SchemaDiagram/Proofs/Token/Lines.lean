import SchemaDiagram.Proofs.Token.Appended

/-!
# Texts put together at a line break

A line feed behind a text that can be cut ends its last piece: no pattern goes on over it, white
space apart, and that is skipped. So what comes behind the line feed is read as if it stood alone, on
a later line and with more bytes in front of it (`Position.below`).

Main statement: `Token.scan_across_newline`. What is read in front of the line feed is by induction on
the pieces there; what is read behind it is along the recursion of `Token.scanFrom`.
-/

namespace SchemaDiagram

/-! ## Places farther down -/

/-- The same place with more lines and more bytes in front of its line. -/
def Position.below (lines bytes : Nat) (p : Position) : Position :=
  ⟨p.line + lines, p.column, p.offset + bytes⟩

/-- The same range farther down. -/
def Span.below (lines bytes : Nat) (s : Span) : Span :=
  ⟨s.start.below lines bytes, s.stop.below lines bytes⟩

/-- The same token farther down. -/
def Token.below (lines bytes : Nat) (t : Token) : Token :=
  { t with span := t.span.below lines bytes }

/-- The same error farther down. -/
def SourceError.below (lines bytes : Nat) : SourceError → SourceError
  | unterminatedString quote p context => unterminatedString quote (p.below lines bytes) context
  | unexpectedCharacter character p context =>
    unexpectedCharacter character (p.below lines bytes) context
  | invalidColor literal p context => invalidColor literal (p.below lines bytes) context
  | tooLarge size limit => tooLarge size limit

namespace Position

/-- A step from a place further down goes as far as one from the place itself. -/
theorem below_next (lines bytes : Nat) (p : Position) (c : Char) :
    (p.below lines bytes).next c = (p.next c).below lines bytes := by
  unfold next below
  split <;> simp only [Position.mk.injEq, true_and] <;> omega

/-- Advancing from a place further down goes as far as from the place itself. -/
theorem below_advance (lines bytes : Nat) (p : Position) (cs : List Char) :
    (p.below lines bytes).advance cs = (p.advance cs).below lines bytes := by
  induction cs generalizing p with
  | nil => rfl
  | cons c cs ih => rw [advance_cons, advance_cons, below_next, ih]

/-- Advancing goes one line down for each line feed. -/
theorem line_advance (p : Position) (cs : List Char) :
    (p.advance cs).line = p.line + cs.count '\n' := by
  induction cs generalizing p with
  | nil => rfl
  | cons c cs ih =>
    rw [advance_cons, ih, next]
    split
    · next h =>
      rw [h, List.count_cons_self]
      show p.line + 1 + _ = _
      omega
    · next h => rw [List.count_cons_of_ne h]

/-- A line feed leads to the start of a line, with the lines and the bytes in front of it. -/
theorem start_advance_newline (source : String) :
    (Position.start.advance source.toList).next '\n' =
      Position.start.below (source.toList.count '\n' + 1) (source.utf8ByteSize + 1) := by
  have hnext : ∀ p : Position, p.next '\n' = ⟨p.line + 1, 1, p.offset + 1⟩ := fun _ => rfl
  rw [hnext, line_advance, offset_advance, String.ofList_toList]
  simp only [below, start, Position.mk.injEq, true_and]
  omega

end Position

namespace Lexeme

open Pattern

variable {cs rest w : List Char} {kind? : Option TokenKind}

/-! ## Pieces in front of a line feed -/

/-- A line feed ends every piece in front of it but white space. -/
theorem Shape.scan_newline (h : Shape w kind?) (hblank : w ∉ Pattern.whitespace) (rest : List Char) :
    scan (w ++ '\n' :: rest) = some ⟨kind?, w, '\n' :: rest⟩ := by
  cases h with
  | whitespace hw => exact absurd hw hblank
  | blockComment hw => exact scan_blockComment hw _
  | mark m => cases m <;> rfl
  | quoted q hw => exact scan_quotedText hw _
  | word hw =>
    rw [scan_word hw, List.takeWhile_cons_of_neg (by decide),
      List.dropWhile_cons_of_neg (by decide), List.append_nil]
  | whole hw =>
    have hnumber : numberTail ('\n' :: rest) = ([], '\n' :: rest) := rfl
    rw [scan_wholeNumber hw, hnumber, List.append_nil]
  | decimal hw =>
    rw [scan_decimalNumber hw, List.takeWhile_cons_of_neg (by decide),
      List.dropWhile_cons_of_neg (by decide), List.append_nil]
  | color hw =>
    rw [scan_colorLiteral hw, List.takeWhile_cons_of_neg (by decide),
      List.dropWhile_cons_of_neg (by decide), List.append_nil]
  | comment hw =>
    rw [scan_lineComment hw, List.takeWhile_cons_of_neg (by decide),
      List.dropWhile_cons_of_neg (by decide), List.append_nil]

/-- A piece that does not end in white space at the end of the text is the same with a line feed
behind the text. -/
theorem scan_append_newline (h : scan (w ++ cs) = some ⟨kind?, w, cs⟩)
    (hblank : w ∈ whitespace → cs ≠ []) (rest : List Char) :
    scan (w ++ (cs ++ '\n' :: rest)) = some ⟨kind?, w, cs ++ '\n' :: rest⟩ := by
  by_cases hcs : cs = []
  · subst hcs
    exact (shape_of_scan h).scan_newline (fun hw => hblank hw rfl) rest
  · refine scan_append h hcs ?_
    rintro c ⟨⟩
    rfl

end Lexeme

namespace Token

open Lexeme Lexeme.Pattern

variable {cs : List Char} {pieces : List Piece}

/-! ## Reading over a line feed -/

/-- White space in front leaves nothing, also where more white space follows it. -/
theorem scanFrom_blank {w : List Char} (hw : ∀ c ∈ w, isSpace c = true) (p : Position)
    (cs : List Char) : scanFrom p (w ++ cs) = scanFrom (p.advance w) cs := by
  by_cases hne : w = []
  · rw [hne]
    rfl
  rw [scanFrom_skipped (scan_whitespace (mem_whitespace.2 ⟨hne, hw⟩) cs), Position.advance_append]
  -- The white space behind `w` is part of the same piece, and a piece of its own without `w`.
  by_cases hmore : cs.takeWhile isSpace = []
  · rw [hmore, dropWhile_eq_self_of_takeWhile hmore]
    rfl
  have hspace : cs.takeWhile isSpace ∈ whitespace :=
    mem_whitespace.2 ⟨hmore, fun c hc => List.mem_takeWhile_imp hc⟩
  have hnil : (cs.dropWhile isSpace).takeWhile isSpace = [] := by
    rw [List.takeWhile_eq_nil_iff]
    intro hlt
    exact List.dropWhile_get_zero_not isSpace cs hlt
  have hscan := scan_whitespace hspace (cs.dropWhile isSpace)
  rw [List.takeWhile_append_dropWhile, hnil, dropWhile_eq_self_of_takeWhile hnil,
    List.append_nil] at hscan
  rw [scanFrom_skipped hscan]

/-- No tokens in front leave a result as it is. -/
theorem map_nil_append (r : Except SourceError (List Token)) :
    r.map (([] : List Token) ++ ·) = r := by
  cases r <;> rfl

/-- Behind a text that can be cut and a line feed, reading goes on at the start of the next line. -/
theorem scanFrom_append_newline (h : Cutting cs pieces) (hcolors : ColorsComplete pieces)
    (p : Position) (rest : List Char) : scanFrom p (cs ++ '\n' :: rest) =
      (scanFrom ((p.advance cs).next '\n') rest).map (keptFrom p pieces ++ ·) := by
  induction h generalizing p with
  | nil =>
    have hread : scanFrom p ([] ++ '\n' :: rest) = scanFrom (p.next '\n') rest :=
      scanFrom_blank (w := ['\n']) (List.forall_mem_singleton.2 rfl) p rest
    rw [hread]
    exact (map_nil_append _).symm
  | @cons piece cs pieces longest readAs others ih =>
    obtain ⟨hcolor, hothers⟩ := (colorsComplete_cons readAs).1 hcolors
    have hscan := scan_eq_some_iff.2 ⟨longest, readAs⟩
    obtain ⟨kind?, w⟩ := piece
    -- white space at the end of the first text takes the line feed along, and no other lexeme does
    by_cases hlast : w ∈ whitespace ∧ cs = []
    · obtain ⟨hspace, rfl⟩ := hlast
      obtain rfl : pieces = [] := others.unique .nil
      have hblank : ∀ c ∈ w ++ ['\n'], isSpace c = true := by
        intro c hc
        rcases List.mem_append.1 hc with hc | hc
        · exact (mem_whitespace.1 hspace).2 c hc
        · rw [List.mem_singleton.1 hc]
          rfl
      have hread := scanFrom_blank hblank p rest
      rw [List.append_assoc, List.singleton_append, Position.advance_append] at hread
      obtain rfl : kind? = none := by
        rw [scan_whitespace hspace] at hscan
        exact (congrArg Lexeme.kind? (Option.some.inj hscan)).symm
      rw [List.append_nil, hread, keptFrom_skipped]
      exact (map_nil_append _).symm
    · have hlater := scan_append_newline hscan (fun hspace hnil => hlast ⟨hspace, hnil⟩) rest
      rw [List.append_assoc, Position.advance_append]
      cases kind? with
      | none => rw [scanFrom_skipped hlater, ih hothers, keptFrom_skipped]
      | some kind =>
        rw [scanFrom_kept hlater (fun hkind => hcolor (congrArg some hkind)), ih hothers,
          keptFrom_kept]
        cases scanFrom (((p.advance w).advance cs).next '\n') rest <;> rfl

/-- Reading depends on the line and the offset of its start in no other way than by keeping them. -/
theorem scanFrom_below (lines bytes : Nat) (p : Position) (cs : List Char) :
    scanFrom (p.below lines bytes) cs =
      ((scanFrom p cs).map (·.map (below lines bytes))).mapError (·.below lines bytes) := by
  induction p, cs using scanFrom_induction with
  | nil p =>
    rw [scanFrom_nil, scanFrom_nil]
    rfl
  | skipped p cs w rest hscan ih =>
    rw [scanFrom_skipped hscan, scanFrom_skipped hscan, Position.below_advance, ih]
  | invalidColor p cs w rest hscan hcolor =>
    rw [scanFrom_invalidColor hscan hcolor, scanFrom_invalidColor hscan hcolor]
    rfl
  | kept p cs kind w rest hscan hcolor ih =>
    rw [scanFrom_kept hscan hcolor, scanFrom_kept hscan hcolor, Position.below_advance, ih]
    cases scanFrom (p.advance w) rest <;> rfl
  | noLexeme p c cs hscan =>
    rw [scanFrom_noLexeme hscan, scanFrom_noLexeme hscan, SourceError.atNoLexeme,
      SourceError.atNoLexeme]
    cases Text.Quote.ofChar? c <;> rfl

/-- No token that is kept is the end of the input. -/
theorem kind_ne_endOfInput_of_mem_keptFrom (h : Cutting cs pieces) (p : Position) :
    ∀ t ∈ keptFrom p pieces, t.kind ≠ .endOfInput := by
  induction h generalizing p with
  | nil => exact fun _ ht => absurd ht List.not_mem_nil
  | @cons piece cs pieces _ readAs _ ih =>
    obtain ⟨_ | kind, w⟩ := piece
    · rw [keptFrom_skipped]
      exact ih _
    · rw [keptFrom_kept]
      exact List.forall_mem_cons.2 ⟨readAs.kind_ne_endOfInput, ih _⟩

/-- Reading is compositional across line breaks. Where a text can be read, another one behind it and
a line feed is read as it is alone, its tokens or its error farther down by the lines and the bytes
in front of it; the tokens of the first text, without the one that ends it, come before. -/
theorem scan_across_newline {first : String} {ts : List Token} (h : scan first = .ok ts)
    (second : String) :
    scan (first ++ "\n" ++ second) =
      match scan second with
      | .ok us => .ok (ts.filter (fun t => t.kind ≠ .endOfInput) ++
          us.map (below (first.toList.count '\n' + 1) (first.utf8ByteSize + 1)))
      | .error e => .error (e.below (first.toList.count '\n' + 1) (first.utf8ByteSize + 1)) := by
  obtain ⟨pieces, hcutting, hcolors, rfl⟩ := scan_eq_ok_iff.1 h
  have hkept : (tokensOf .start pieces).filter (fun t => t.kind ≠ .endOfInput) =
      keptFrom .start pieces := by
    rw [tokensOf_eq, List.filter_append, List.filter_eq_self.2 fun t ht =>
      decide_eq_true (kind_ne_endOfInput_of_mem_keptFrom hcutting .start t ht)]
    exact List.append_nil _
  have hsource : (first ++ "\n" ++ second).toList = first.toList ++ '\n' :: second.toList := by
    rw [String.toList_append, String.toList_append, List.append_assoc]
    rfl
  rw [scan, hsource, scanFrom_append_newline hcutting hcolors, Position.start_advance_newline,
    scanFrom_below, hkept, scan]
  cases scanFrom .start second.toList <;> rfl

/-- The tokens of a word, a whole number and a point. -/
def pointTokens : List Token :=
  [⟨.identifier, ⟨⟨1, 1, 0⟩, ⟨1, 2, 3⟩⟩, "表"⟩, ⟨.number, ⟨⟨1, 3, 4⟩, ⟨1, 4, 5⟩⟩, "1"⟩,
    ⟨.mark .dot, ⟨⟨1, 4, 5⟩, ⟨1, 5, 6⟩⟩, "."⟩, ⟨.endOfInput, .point ⟨1, 5, 6⟩, ""⟩]

/-- A digit on the next line is no fraction, and what is wrong there is told where it is. -/
theorem scan_point_across_newline :
    scan "表 1." = .ok pointTokens ∧
      scan ("表 1." ++ "\n" ++ "5") = .ok [⟨.identifier, ⟨⟨1, 1, 0⟩, ⟨1, 2, 3⟩⟩, "表"⟩,
        ⟨.number, ⟨⟨1, 3, 4⟩, ⟨1, 4, 5⟩⟩, "1"⟩, ⟨.mark .dot, ⟨⟨1, 4, 5⟩, ⟨1, 5, 6⟩⟩, "."⟩,
        ⟨.number, ⟨⟨2, 1, 7⟩, ⟨2, 2, 8⟩⟩, "5"⟩, ⟨.endOfInput, .point ⟨2, 2, 8⟩, ""⟩] ∧
      scan ("表 1." ++ "\n" ++ "5 'x") = .error (.unterminatedString '\'' ⟨2, 3, 9⟩ "'x") := by
  have hfirst : scan "表 1." = .ok pointTokens := by cbv
  have hnumber : scan "5" =
      .ok [⟨.number, ⟨⟨1, 1, 0⟩, ⟨1, 2, 1⟩⟩, "5"⟩, ⟨.endOfInput, .point ⟨1, 2, 1⟩, ""⟩] := by cbv
  have hquote : scan "5 'x" = .error (.unterminatedString '\'' ⟨1, 3, 2⟩ "'x") := by cbv
  refine ⟨hfirst, ?_, ?_⟩
  · rw [scan_across_newline hfirst, hnumber]
    decide
  · rw [scan_across_newline hfirst, hquote]
    decide

end Token

end SchemaDiagram
