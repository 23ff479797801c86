import SchemaDiagram.Proofs.Token.FirstError

/-!
# Text behind a text

A piece is told by its own characters and at most two behind it: the second one counts only for a
numeral, where a point needs a digit to be a fraction. So text behind a text that can be cut changes
none of its pieces but the last, as long as the new text does not start with a digit. The last piece
stays if it ends by itself, as a comma and a bracket do.

Main statement: `Token.scanFrom_append_of_mark`. The pieces are carried over by induction on the
cutting (`Cutting.cutsOff_append`).
-/

namespace SchemaDiagram

namespace Lexeme

open Pattern

variable {cs rest w : List Char} {kind? : Option TokenKind} {pieces : List Piece}

/-! ## One piece -/

/-- A run that ended goes on no farther with more text behind the character that ends it. -/
theorem takeWhile_append_of_nil {p : Char → Bool} (hcs : cs ≠ []) (h : cs.takeWhile p = [])
    (rest : List Char) : (cs ++ rest).takeWhile p = [] := by
  obtain ⟨c, cs, rfl⟩ := List.exists_cons_of_ne_nil hcs
  by_cases hc : p c = true
  · rw [List.takeWhile_cons_of_pos hc] at h
    cases h
  · exact List.takeWhile_cons_of_neg hc

/-- Where nothing is taken, nothing is dropped. -/
theorem dropWhile_eq_self_of_takeWhile {p : Char → Bool} (h : cs.takeWhile p = []) :
    cs.dropWhile p = cs := by
  have happ := List.takeWhile_append_dropWhile (p := p) (l := cs)
  rwa [h, List.nil_append] at happ

/-- A text that does not continue a number does not with more behind it, if no digit comes first. -/
theorem numberTail_append_of_nil (hcs : cs ≠ []) (h : numberTail cs = ([], cs))
    (hrest : ∀ c ∈ rest.head?, c.isDigit = false) : numberTail (cs ++ rest) = ([], cs ++ rest) := by
  obtain ⟨hdigits, hfraction⟩ := List.append_eq_nil_iff.1 (congrArg Prod.fst h)
  have hlater := takeWhile_append_of_nil hcs hdigits rest
  rw [dropWhile_eq_self_of_takeWhile hdigits] at hfraction
  unfold numberTail
  rw [hlater, dropWhile_eq_self_of_takeWhile hlater]
  obtain ⟨c, cs, rfl⟩ := List.exists_cons_of_ne_nil hcs
  by_cases hc : c = '.'
  · subst hc
    -- The point is no fraction yet, so what follows it is no digit, in `cs` or in `rest`.
    rcases cs with _ | ⟨d, cs⟩
    · rcases rest with _ | ⟨d, rest⟩
      · rfl
      · simp [fraction, hrest d rfl]
    · by_cases hd : d.isDigit = true
      · simp [fraction, hd] at hfraction
      · simp [fraction, hd]
  · simp [fraction, hc]

/-- A mark that is scanned in front of a text is scanned with more behind the text. -/
theorem scan_mark_append (m : Mark) (hcs : cs ≠ [])
    (h : scan (m.chars ++ cs) = some ⟨some (.mark m), m.chars, cs⟩) (rest : List Char) :
    scan (m.chars ++ (cs ++ rest)) = some ⟨some (.mark m), m.chars, cs ++ rest⟩ := by
  obtain ⟨c, cs, rfl⟩ := List.exists_cons_of_ne_nil hcs
  cases m
  case less =>
    refine scan_less fun ds hds => ?_
    cases hds
    cases h
  case minus =>
    refine scan_minus fun d ds hds => ?_
    cases hds
    by_contra hc
    rw [Bool.not_eq_false] at hc
    have hnumber := (scan_minus_digit hc cs).symm.trans h
    cases hnumber
  all_goals rfl

/-- A piece with text behind it is the same with more text behind that. -/
theorem scan_append (h : scan (w ++ cs) = some ⟨kind?, w, cs⟩) (hcs : cs ≠ [])
    (hrest : ∀ c ∈ rest.head?, c.isDigit = false) :
    scan (w ++ (cs ++ rest)) = some ⟨kind?, w, cs ++ rest⟩ := by
  have htext : ∀ v, w ++ v = w → v = [] := fun v => List.append_right_eq_self.1
  -- a run that ended in front of the rest still ends there, because the rest is not empty
  have hrun : ∀ {p : Char → Bool}, cs.takeWhile p = [] →
      (cs ++ rest).takeWhile p = [] ∧ (cs ++ rest).dropWhile p = cs ++ rest := by
    intro p hnil
    have hlater := takeWhile_append_of_nil hcs hnil rest
    exact ⟨hlater, dropWhile_eq_self_of_takeWhile hlater⟩
  have hshape : Shape w kind? := shape_of_scan h
  cases hshape with
  | whitespace hw =>
    rw [scan_whitespace hw] at h ⊢
    obtain ⟨htake, hdrop⟩ := hrun (htext _ (congrArg text (Option.some.inj h)))
    rw [htake, hdrop, List.append_nil]
  | blockComment hw => exact scan_blockComment hw _
  | word hw =>
    rw [scan_word hw] at h ⊢
    obtain ⟨htake, hdrop⟩ := hrun (htext _ (congrArg text (Option.some.inj h)))
    rw [htake, hdrop, List.append_nil]
  | mark m => exact scan_mark_append m hcs h rest
  | quoted q hw => exact scan_quotedText hw _
  | whole hw =>
    rw [scan_wholeNumber hw] at h ⊢
    have hself : numberTail cs = ([], cs) :=
      Prod.ext (htext _ (congrArg text (Option.some.inj h)))
        (congrArg Lexeme.rest (Option.some.inj h))
    rw [numberTail_append_of_nil hcs hself hrest, List.append_nil]
  | decimal hw =>
    rw [scan_decimalNumber hw] at h ⊢
    obtain ⟨htake, hdrop⟩ := hrun (htext _ (congrArg text (Option.some.inj h)))
    rw [htake, hdrop, List.append_nil]
  | color hw =>
    rw [scan_colorLiteral hw] at h ⊢
    obtain ⟨htake, hdrop⟩ := hrun (htext _ (congrArg text (Option.some.inj h)))
    rw [htake, hdrop, List.append_nil]
  | comment hw =>
    rw [scan_lineComment hw] at h ⊢
    obtain ⟨htake, hdrop⟩ := hrun (htext _ (congrArg text (Option.some.inj h)))
    rw [htake, hdrop, List.append_nil]

/-- A piece that is skipped ends in front of anything but a blank. -/
theorem ReadAs.scan_append_of_skipped (h : ReadAs w none)
    (hrest : ∀ c ∈ rest.head?, isSpace c = false) : scan (w ++ rest) = some ⟨none, w, rest⟩ := by
  cases h.shape with
  | whitespace hw =>
    obtain ⟨htake, hdrop⟩ := run_of_head? hrest
    rw [scan_whitespace hw, htake, hdrop, List.append_nil]
  | blockComment hw => exact scan_blockComment hw rest

/-! ## All pieces -/

/-- The pieces of a text are cut off the front where more text stands behind it, if that leaves the
last one as it is. -/
theorem Cutting.cutsOff_append (h : Cutting cs pieces)
    (hrest : ∀ c ∈ rest.head?, c.isDigit = false)
    (hlast : ∀ piece ∈ pieces.getLast?,
      scan (piece.text ++ rest) = some ⟨piece.kind?, piece.text, rest⟩) :
    CutsOff (cs ++ rest) pieces rest := by
  induction h with
  | nil => exact .nil rest
  | @cons piece cs pieces longest readAs others ih =>
    rw [List.append_assoc]
    by_cases hcs : cs = []
    · subst hcs
      obtain rfl : pieces = [] := others.unique .nil
      exact CutsOff.cons_of_scan (.nil rest) (hlast piece rfl)
    · have hmore : pieces ≠ [] := by
        rintro rfl
        cases others
        exact hcs rfl
      have hscan := scan_append (scan_eq_some_iff.2 ⟨longest, readAs⟩) hcs hrest
      rw [List.getLast?_cons_of_ne_nil hmore] at hlast
      exact CutsOff.cons_of_scan (ih hlast) hscan

/-- The tokens of two lists of pieces are those of one and, further on, of the other. -/
theorem keptFrom_append (p : Position) (xs ys : List Piece) :
    keptFrom p (xs ++ ys) = keptFrom p xs ++ keptFrom (p.advance (textOf xs)) ys := by
  induction xs generalizing p with
  | nil => rfl
  | cons piece xs ih =>
    rw [List.cons_append, textOf_cons, Position.advance_append]
    obtain ⟨_ | kind, w⟩ := piece
    · rw [keptFrom_skipped, keptFrom_skipped, ih]
    · rw [keptFrom_kept, keptFrom_kept, ih, List.cons_append]

/-- The last piece is skipped, or the last token that is kept is its token. -/
theorem kind?_of_mem_getLast? {p : Position} {ts : List Token} {t : Token}
    (h : keptFrom p pieces = ts ++ [t]) :
    ∀ piece ∈ pieces.getLast?, piece.kind? = none ∨ piece.kind? = some t.kind := by
  intro piece hpiece
  obtain ⟨others, rfl⟩ := List.getLast?_eq_some_iff.1 hpiece
  rw [keptFrom_append] at h
  obtain ⟨_ | kind, w⟩ := piece
  · exact Or.inl rfl
  · obtain ⟨-, hkept⟩ := List.append_inj' h rfl
    exact Or.inr (congrArg some (congrArg Token.kind (List.head_eq_of_cons_eq hkept)))

/-- Every piece of a cutting is read as its lexeme. -/
theorem Cutting.readAs_of_mem (h : Cutting cs pieces) :
    ∀ piece ∈ pieces, ReadAs piece.text piece.kind? := by
  induction h with
  | nil => nofun
  | cons _ readAs _ ih => exact List.forall_mem_cons.2 ⟨readAs, ih⟩

/-- The pieces of a cutting make up the text. -/
theorem Cutting.textOf_eq (h : Cutting cs pieces) : textOf pieces = cs := by
  induction h with
  | nil => rfl
  | cons _ _ _ ih => rw [textOf_cons, ih]

end Lexeme

namespace Token

open Lexeme

/-- Behind a text whose last token is a comma or an opening bracket, reading goes on as from that
place, unless the text there starts with a blank or a digit. -/
theorem scanFrom_append_of_mark {p : Position} {cs rest : List Char} {ts : List Token} {t e : Token}
    (h : scanFrom p cs = .ok (ts ++ [t, e]))
    (ht : t.kind = .mark .comma ∨ t.kind = .mark .leftBracket)
    (hrest : ∀ c ∈ rest.head?, c.isDigit = false ∧ isSpace c = false) :
    scanFrom p (cs ++ rest) = (scanFrom (p.advance cs) rest).map (ts ++ [t] ++ ·) := by
  obtain ⟨pieces, hcutting, hcolors, htokens⟩ := exists_cutting_of_scanFrom h
  rw [tokensOf_eq, List.append_cons] at htokens
  have hkept : keptFrom p pieces = ts ++ [t] := (List.append_inj_left' htokens rfl).symm
  have hlast : ∀ piece ∈ pieces.getLast?,
      Lexeme.scan (piece.text ++ rest) = some ⟨piece.kind?, piece.text, rest⟩ := by
    intro piece hpiece
    have hread := hcutting.readAs_of_mem piece (List.mem_of_mem_getLast? hpiece)
    have hkind := kind?_of_mem_getLast? hkept piece hpiece
    obtain ⟨kind?, w⟩ := piece
    rcases hkind with rfl | rfl
    · exact hread.scan_append_of_skipped fun c hc => (hrest c hc).2
    · rcases ht with ht | ht
      · rw [ht] at hread ⊢
        rw [hread.eq_chars]
        rfl
      · rw [ht] at hread ⊢
        rw [hread.eq_chars]
        rfl
  have hoff := hcutting.cutsOff_append (fun c hc => (hrest c hc).1) hlast
  rw [scanFrom_of_cutsOff hoff hcolors, hcutting.textOf_eq, hkept]

end Token

end SchemaDiagram
