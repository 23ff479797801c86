import Mathlib.Algebra.Group.Nat.Even
import Mathlib.Data.List.DropRight
import SchemaDiagram.Proofs.Token.Lines

/-!
# Where block comments end

In a block comment a star takes the character behind it along. So the stars in front of a closing
mark go in pairs: if their number is even, the mark is read as such and ends the comment; if it is
odd, the last of them takes the star of the mark along, and the comment goes on behind its slash.

Main statement: `Token.scan_across_blockComment`. A comment is passed up to its last stars along the
recursion of `Lexeme.commentTail?` (`commentTail?_append`), and those by pairs (`commentTail?_stars`);
what is read behind it does not depend on the place (`Token.contents_scanFrom`).
-/

namespace SchemaDiagram

namespace Lexeme

open Pattern

variable {cs body rest : List Char}

/-- The mark that is to close a block comment stands in a text. -/
def HasClosingMark (cs : List Char) : Prop := ['*', '/'] <:+: cs

instance (cs : List Char) : Decidable (HasClosingMark cs) :=
  inferInstanceAs (Decidable (['*', '/'] <:+: cs))

/-- The number of stars at the end of a text. -/
def starsAtEnd (cs : List Char) : Nat := (cs.rtakeWhile (· = '*')).length

/-! ## Inside a comment -/

/-- A text that does not end with a star does not without its first character. -/
theorem getLast?_ne_of_cons {d : Char} (h : ∀ c ∈ (d :: cs).getLast?, c ≠ '*') :
    ∀ c ∈ cs.getLast?, c ≠ '*' := by
  rcases cs with _ | ⟨e, es⟩
  · rintro c ⟨⟩
  · exact h

/-- A text without a closing mark, and without a star that would take a character of the rest along,
is passed as a whole. -/
theorem commentTail?_append (hmark : ¬ HasClosingMark cs) (hstar : ∀ c ∈ cs.getLast?, c ≠ '*')
    (rest : List Char) :
    commentTail? (cs ++ rest) = (commentTail? rest).map fun found => (cs ++ found.1, found.2) := by
  fun_induction commentTail? cs with
  | case1 => exact Option.map_id'.symm
  | case2 => exact absurd rfl (hstar '*' rfl)
  | case3 ds => exact absurd (List.prefix_append ['*', '/'] ds).isInfix hmark
  | case4 d ds hd ih =>
    have hmark' : ¬ HasClosingMark ds := fun h =>
      hmark (h.trans (List.suffix_append ['*', d] ds).isInfix)
    rw [List.cons_append, List.cons_append, commentTail?_star hd,
      ih hmark' (getLast?_ne_of_cons (getLast?_ne_of_cons hstar)), Option.map_map]
    rfl
  | case5 c cs hc ih =>
    have hmark' : ¬ HasClosingMark cs := fun h => hmark (h.trans (List.suffix_cons c cs).isInfix)
    rw [List.cons_append, commentTail?_cons hc, ih hmark' (getLast?_ne_of_cons hstar),
      Option.map_map]
    rfl

/-- Stars in front of a closing mark go in pairs. -/
theorem commentTail?_stars (n : Nat) (rest : List Char) :
    commentTail? (List.replicate n '*' ++ '*' :: '/' :: rest) =
      if Even n then some (List.replicate n '*' ++ ['*', '/'], rest)
      else (commentTail? rest).map fun found =>
        (List.replicate n '*' ++ '*' :: '/' :: found.1, found.2) := by
  induction n using Nat.twoStepInduction with
  | zero => exact commentTail?_close rest
  | one =>
    rw [if_neg (by decide)]
    show commentTail? ('*' :: '*' :: '/' :: rest) = _
    rw [commentTail?_star (by decide), commentTail?_cons (by decide), Option.map_map]
    rfl
  | more n ih _ =>
    have hpair : ∀ ds : List Char, List.replicate (n + 2) '*' ++ ds =
        '*' :: '*' :: (List.replicate n '*' ++ ds) := fun ds => rfl
    have heven : Even (n + 2) ↔ Even n := by
      rw [Nat.even_add, iff_true_right even_two]
    simp only [hpair, heven]
    rw [commentTail?_star (by decide), ih]
    split
    · rfl
    · rw [Option.map_map]
      rfl

/-- A text is what stands in front of its last stars, and the stars. -/
theorem exists_stars (cs : List Char) : ∃ front, cs = front ++ List.replicate (starsAtEnd cs) '*' ∧
    ∀ c ∈ front.getLast?, c ≠ '*' := by
  refine ⟨cs.rdropWhile (· = '*'), ?_, fun c hc => ?_⟩
  · have hstars : cs.rtakeWhile (· = '*') = List.replicate (starsAtEnd cs) '*' :=
      List.eq_replicate_iff.2 ⟨rfl, fun c hc => by simpa using List.mem_rtakeWhile_imp hc⟩
    rw [← hstars, List.rdropWhile_append_rtakeWhile]
  · obtain ⟨hne, rfl⟩ := List.mem_getLast?_eq_getLast hc
    simpa using List.rdropWhile_last_not (· = '*') cs hne

/-- Where the first closing mark stands, the comment ends if an even number of stars is in front of
it, and goes on else. -/
theorem commentTail?_closing (hbody : ¬ HasClosingMark body) (rest : List Char) :
    commentTail? (body ++ '*' :: '/' :: rest) =
      if Even (starsAtEnd body) then some (body ++ ['*', '/'], rest)
      else (commentTail? rest).map fun found => (body ++ '*' :: '/' :: found.1, found.2) := by
  obtain ⟨front, hfront, hstar⟩ := exists_stars body
  have hmark : ¬ HasClosingMark front := fun h =>
    hbody (h.trans (hfront ▸ (List.prefix_append front _).isInfix))
  generalize starsAtEnd body = n at hfront ⊢
  subst hfront
  rw [List.append_assoc, commentTail?_append hmark hstar, commentTail?_stars]
  split
  · rw [Option.map_some, List.append_assoc]
  · rw [Option.map_map]
    simp only [List.append_assoc]
    rfl

/-- A comment that ends has a closing mark. -/
theorem commentTail?_eq_none (h : ¬ HasClosingMark cs) : commentTail? cs = none := by
  rcases htail : commentTail? cs with _ | ⟨comment, rest⟩
  · rfl
  · obtain ⟨v, -, w, hw, rfl⟩ := mem_commentTail_of_commentTail? htail
    refine absurd ?_ h
    rw [← commentTail?_eq htail]
    cases hw
    exact ⟨v, rest, rfl⟩

/-- A line feed is in no closing mark and is no star. -/
theorem hasClosingMark_cons_newline : HasClosingMark ('\n' :: cs) ↔ HasClosingMark cs := by
  unfold HasClosingMark
  rw [List.infix_cons_iff]
  simp

/-- A line feed in front adds no star at the end. -/
theorem starsAtEnd_cons_newline (cs : List Char) : starsAtEnd ('\n' :: cs) = starsAtEnd cs := by
  unfold starsAtEnd List.rtakeWhile
  rw [List.reverse_cons, List.takeWhile_append]
  split <;> simp [*]

end Lexeme

namespace Token

open Lexeme

variable {cs : List Char}

/-! ## Tokens wherever they stand -/

/-- The kinds and texts of the tokens, if there are any. -/
def contents (r : Except SourceError (List Token)) : Option (List (TokenKind × String)) :=
  r.toOption.map fun ts => ts.map fun t => (t.kind, t.text)

/-- Tokens in front are the first contents. -/
theorem contents_map_append (ts : List Token) (r : Except SourceError (List Token)) :
    contents (r.map (ts ++ ·)) =
      (contents r).map ((ts.map fun t => (t.kind, t.text)) ++ ·) := by
  cases r with
  | error e => rfl
  | ok us => exact congrArg some List.map_append

/-- Kinds and texts do not depend on the place. -/
theorem contents_scanFrom (p q : Position) (cs : List Char) :
    contents (scanFrom p cs) = contents (scanFrom q cs) := by
  induction p, cs using scanFrom_induction generalizing q with
  | nil p =>
    rw [scanFrom_nil, scanFrom_nil]
    rfl
  | skipped p cs w rest hscan ih =>
    rw [scanFrom_skipped hscan, scanFrom_skipped hscan]
    exact ih _
  | invalidColor p cs w rest hscan hcolor =>
    rw [scanFrom_invalidColor hscan hcolor, scanFrom_invalidColor hscan hcolor]
    rfl
  | kept p cs kind w rest hscan hcolor ih =>
    rw [scanFrom_kept hscan hcolor, scanFrom_kept hscan hcolor]
    refine (contents_map_append [⟨kind, ⟨p, p.advance w⟩, _⟩] _).trans ?_
    rw [ih (q.advance w)]
    exact (contents_map_append [⟨kind, ⟨q, q.advance w⟩, _⟩] _).symm
  | noLexeme p c cs hscan =>
    rw [scanFrom_noLexeme hscan, scanFrom_noLexeme hscan]
    rfl

/-- A line feed in front leaves nothing. -/
theorem contents_scanFrom_newline (p q : Position) (cs : List Char) :
    contents (scanFrom p ('\n' :: cs)) = contents (scanFrom q cs) := by
  have hblank : scanFrom p (['\n'] ++ cs) = scanFrom (p.advance ['\n']) cs :=
    scanFrom_blank (List.forall_mem_singleton.2 rfl) p cs
  exact (congrArg contents hblank).trans (contents_scanFrom _ _ _)

/-- Scans with the same contents succeed together, with the same kinds and texts. -/
theorem exists_ok_of_contents_eq {r r' : Except SourceError (List Token)} {ts : List Token}
    (h : contents r = contents r') (hr : r = .ok ts) :
    ∃ us, r' = .ok us ∧ ts.map (fun t => (t.kind, t.text)) = us.map fun t => (t.kind, t.text) := by
  subst hr
  cases r' with
  | error e => cases h
  | ok us => exact ⟨us, rfl, Option.some.inj h⟩

/-! ## Reading over a comment -/

variable {first second : String} {ts us : List Token}

/-- The tokens of a text that can be read stand in front of what is read on the lines behind it. -/
theorem exists_kept (h : scan first = .ok ts) : ∃ kept, ∀ more : String,
    scan (first ++ "\n" ++ more) =
      (scanFrom (Position.start.advance (first ++ "\n").toList) more.toList).map (kept ++ ·) := by
  obtain ⟨pieces, hcutting, hcolors, rfl⟩ := scan_eq_ok_iff.1 h
  refine ⟨keptFrom .start pieces, fun more => ?_⟩
  have hsource : (first ++ "\n" ++ more).toList = first.toList ++ '\n' :: more.toList := by
    rw [String.toList_append, String.toList_append, List.append_assoc]
    rfl
  rw [scan, hsource, scanFrom_append_newline hcutting hcolors, String.toList_append,
    Position.advance_append]
  rfl

/-- Two texts that are scanned are scanned with a line feed between them. -/
theorem exists_scan_lines (h : scan first = .ok ts) (h' : scan second = .ok us) :
    ∃ ws, scan (first ++ "\n" ++ second) = .ok ws := by
  obtain ⟨kept, hkept⟩ := exists_kept h
  obtain ⟨ws, hws, -⟩ := exists_ok_of_contents_eq (contents_scanFrom .start _ _) h'
  exact ⟨kept ++ ws, by rw [hkept, hws]; rfl⟩

/-- An empty line between two texts leaves nothing. -/
theorem contents_scan_emptyLine (h : scan first = .ok ts) (more : String) :
    contents (scan (first ++ "\n" ++ ("\n" ++ more))) =
      contents (scan (first ++ "\n" ++ more)) := by
  obtain ⟨kept, hkept⟩ := exists_kept h
  have hline : ("\n" ++ more).toList = '\n' :: more.toList := String.toList_append
  rw [hkept, hkept, hline, contents_map_append, contents_map_append]
  exact congrArg _ (contents_scanFrom_newline _ _ _)

/-- Behind a comment that ends, reading goes on as on the line of the comment. -/
theorem contents_scan_blockComment (h : scan first = .ok ts) {text comment : List Char}
    {after : String} (htail : commentTail? text = some (comment, after.toList)) {more : String}
    (hmore : more.toList = '/' :: '*' :: text) :
    contents (scan (first ++ "\n" ++ more)) = contents (scan (first ++ "\n" ++ after)) := by
  obtain ⟨kept, hkept⟩ := exists_kept h
  have hcomment : Lexeme.scan ('/' :: '*' :: text) =
      some ⟨none, '/' :: '*' :: comment, after.toList⟩ := by
    rw [scan_slash_star, htail]
    rfl
  rw [hkept, hkept, hmore, scanFrom_skipped hcomment, contents_map_append, contents_map_append]
  exact congrArg _ (contents_scanFrom _ _ _)

/-- A comment that does not end is a slash that stands for nothing. -/
theorem scan_openComment (h : scan first = .ok ts) {text : List Char}
    (htail : commentTail? text = none) {more : String} (hmore : more.toList = '/' :: '*' :: text) :
    scan (first ++ "\n" ++ more) = .error (.unexpectedCharacter '/'
      (Position.start.advance (first ++ "\n").toList) (SourceError.contextOf more.toList)) := by
  obtain ⟨kept, hkept⟩ := exists_kept h
  have hnone : Lexeme.scan ('/' :: '*' :: text) = none := by
    rw [scan_slash_star, htail]
    rfl
  rw [hkept, hmore, scanFrom_noLexeme hnone]
  rfl

/-- Block comments end at the first closing mark if an even number of stars stands in front of it:
then a comment between two lines leaves the tokens of both. Otherwise the comment goes on behind the
mark. It is an error if no further mark is there, and else what stands up to that one is lost. -/
theorem scan_across_blockComment (hfirst : scan first = .ok ts) (hsecond : scan second = .ok us)
    {body : String} (hbody : ¬ HasClosingMark body.toList) :
    let comment := "/*" ++ body ++ "*/"
    let commented := first ++ "\n" ++ (comment ++ "\n" ++ second)
    (Even (starsAtEnd body.toList) → ∃ vs ws, scan commented = .ok vs ∧
      scan (first ++ "\n" ++ second) = .ok ws ∧
      vs.map (fun t => (t.kind, t.text)) = ws.map (fun t => (t.kind, t.text))) ∧
    (¬ Even (starsAtEnd body.toList) →
      (¬ HasClosingMark second.toList → scan commented = .error (.unexpectedCharacter '/'
        (Position.start.advance (first ++ "\n").toList)
        (SourceError.contextOf (comment ++ "\n" ++ second).toList))) ∧
      ∀ inside after : String, second = inside ++ "*/" ++ after → ¬ HasClosingMark inside.toList →
        Even (starsAtEnd inside.toList) →
        contents (scan commented) = contents (scan (first ++ "\n" ++ after))) := by
  intro comment commented
  have hopened : (comment ++ "\n" ++ second).toList =
      '/' :: '*' :: (body.toList ++ '*' :: '/' :: '\n' :: second.toList) := by
    simp [comment]
  have hclosing := commentTail?_closing hbody ('\n' :: second.toList)
  refine ⟨fun heven => ?_,
    fun hodd => ⟨fun hnone => ?_, fun inside after hafter hinside heven => ?_⟩⟩
  · rw [if_pos heven] at hclosing
    have hline : ("\n" ++ second).toList = '\n' :: second.toList := String.toList_append
    have htail := hclosing.trans (congrArg (fun rest => some (_, rest)) hline.symm)
    obtain ⟨ws, hws⟩ := exists_scan_lines hfirst hsecond
    have hpassed : contents (scan commented) = contents (scan (first ++ "\n" ++ second)) :=
      (contents_scan_blockComment hfirst htail hopened).trans
        (contents_scan_emptyLine hfirst second)
    obtain ⟨vs, hvs, hsame⟩ := exists_ok_of_contents_eq hpassed.symm hws
    exact ⟨vs, ws, hvs, hws, hsame.symm⟩
  -- the last star takes the closing one along, so only a later mark can close the comment
  · rw [if_neg hodd, commentTail?_eq_none (hasClosingMark_cons_newline.not.2 hnone)] at hclosing
    exact scan_openComment hfirst hclosing hopened
  · have hlater := commentTail?_closing (hasClosingMark_cons_newline.not.2 hinside) after.toList
    rw [starsAtEnd_cons_newline, if_pos heven] at hlater
    have hline : '\n' :: second.toList = '\n' :: inside.toList ++ '*' :: '/' :: after.toList := by
      rw [hafter]
      simp
    rw [if_neg hodd, hline, hlater] at hclosing
    exact contents_scan_blockComment hfirst (hline ▸ hclosing) hopened

/-- A comment with two stars in front of its closing mark is skipped. One with a single star there
is not closed, and a later comment closes it. -/
theorem scan_across_starred_comments :
    (∃ vs ws, scan ("a" ++ "\n" ++ ("/*" ++ "* b **" ++ "*/" ++ "\n" ++ "c")) = .ok vs ∧
      scan ("a" ++ "\n" ++ "c") = .ok ws ∧
      vs.map (fun t => (t.kind, t.text)) = ws.map (fun t => (t.kind, t.text))) ∧
    scan ("a" ++ "\n" ++ ("/*" ++ "* b *" ++ "*/" ++ "\n" ++ "c")) =
      .error (.unexpectedCharacter '/' ⟨2, 1, 2⟩ "/** b **/") ∧
    contents (scan ("a" ++ "\n" ++ ("/*" ++ "* b *" ++ "*/" ++ "\n" ++ "c /* d */ e"))) =
      contents (scan ("a" ++ "\n" ++ " e")) := by
  obtain ⟨ts, hfirst⟩ : ∃ ts, scan "a" = .ok ts := ⟨_, by cbv⟩
  obtain ⟨us, hsecond⟩ : ∃ us, scan "c" = .ok us := ⟨_, by cbv⟩
  obtain ⟨vs, hcommented⟩ : ∃ vs, scan "c /* d */ e" = .ok vs := ⟨_, by cbv⟩
  refine ⟨(scan_across_blockComment hfirst hsecond (by decide)).1 (by decide), ?_, ?_⟩
  · exact ((scan_across_blockComment hfirst hsecond (by decide)).2 (by decide)).1 (by decide)
  · exact ((scan_across_blockComment hfirst hcommented (by decide)).2 (by decide)).2 "c /* d "
      " e" (by decide) (by decide) (by decide)

/-- A comment of a single star between two tables is no comment. -/
theorem scan_star_between_tables :
    (∃ ts, scan "Table a \x7b\x7d" = .ok ts) ∧ (∃ us, scan "Table b \x7b\x7d" = .ok us) ∧
      ¬ HasClosingMark "*".toList ∧
      (∃ ws, scan ("Table a \x7b\x7d" ++ "\n" ++ "Table b \x7b\x7d") = .ok ws) ∧
      scan ("Table a \x7b\x7d" ++ "\n" ++ "/*" ++ "*" ++ "*/" ++ "\n" ++ "Table b \x7b\x7d") =
        .error (.unexpectedCharacter '/' ⟨2, 1, 11⟩ "/***/") :=
  ⟨⟨_, by cbv⟩, ⟨_, by cbv⟩, by decide, ⟨_, by cbv⟩, by cbv⟩

end Token

end SchemaDiagram
