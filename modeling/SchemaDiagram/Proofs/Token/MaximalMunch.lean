import SchemaDiagram.Proofs.Token.Longest
import SchemaDiagram.Token.Scan

/-!
# Reading tokens is cutting into longest pieces

A text is cut from the front, each time behind the longest text that a pattern matches (`Cutting`).
The tokens of a document are the pieces of that cutting which are not skipped, and there are tokens
exactly if the whole document can be cut and each piece with a `#` is a color.

Main statements: `Token.scan_eq_ok_iff`, the tokens are those of the cutting, and
`Token.scan_is_maximal_munch`, which adds where the tokens stand, what lies between them, and which
words are keywords. The first is by induction on the cutting in one direction, and along the
recursion of `Token.scanFrom` in the other.
-/

namespace SchemaDiagram.Lexeme

open Pattern
open scoped Computability

/-- A piece of a text. -/
structure Piece where
  /-- The kind of its token; `none` if it is skipped. -/
  kind? : Option TokenKind
  /-- The characters of the piece. -/
  text : List Char

/-- The text is cut into pieces. Each is the longest text that a pattern matches at the front of
what is left. -/
inductive Cutting : List Char → List Piece → Prop
  | nil : Cutting [] []
  | cons {piece : Piece} {rest : List Char} {pieces : List Piece}
      (longest : IsLongest piece.text (piece.text ++ rest))
      (readAs : ReadAs piece.text piece.kind?) (others : Cutting rest pieces) :
      Cutting (piece.text ++ rest) (piece :: pieces)

/-- Each piece with a `#` in front is a color literal. -/
def ColorsComplete (pieces : List Piece) : Prop :=
  ∀ piece ∈ pieces, piece.text.head? = some '#' → Color.IsLiteral piece.text

/-- The tokens of the pieces that are not skipped, and the token that ends the document. -/
def tokensOf (p : Position) : List Piece → List Token
  | [] => [Token.endAt p]
  | piece :: pieces =>
    match piece.kind? with
    | none => tokensOf (p.advance piece.text) pieces
    | some kind =>
      ⟨kind, ⟨p, p.advance piece.text⟩, String.ofList piece.text⟩ ::
        tokensOf (p.advance piece.text) pieces

/-- Without pieces, the only token is the end of the input. -/
@[simp] theorem tokensOf_nil (p : Position) : tokensOf p [] = [Token.endAt p] := rfl

/-- A piece that is skipped gives no token. -/
theorem tokensOf_skipped (p : Position) (w : List Char) (pieces : List Piece) :
    tokensOf p (⟨none, w⟩ :: pieces) = tokensOf (p.advance w) pieces := rfl

/-- A piece that is kept gives a token. -/
theorem tokensOf_kept (p : Position) (kind : TokenKind) (w : List Char) (pieces : List Piece) :
    tokensOf p (⟨some kind, w⟩ :: pieces) =
      ⟨kind, ⟨p, p.advance w⟩, String.ofList w⟩ :: tokensOf (p.advance w) pieces := rfl

/-- A text that is read as a lexeme is scanned as one. -/
theorem scan_self {w : List Char} {kind? : Option TokenKind} (h : ReadAs w kind?) :
    scan w = some ⟨kind?, w, []⟩ := by
  obtain ⟨lexeme, hscan, hfront, hkind⟩ := scan_of_readAs h []
  rw [List.append_nil] at hscan
  obtain ⟨happ, -⟩ := scan_eq hscan
  have htext : lexeme.text = w := by
    refine (hfront.eq_of_length_le ?_).symm
    rw [← happ, List.length_append]
    exact Nat.le_add_right _ _
  have hrest : lexeme.rest = [] := by rwa [htext, List.append_right_eq_self] at happ
  rw [hscan, ← hkind htext, ← hrest]
  exact congrArg some (congrArg (Lexeme.mk _ · _) htext)

/-- The pieces that are read as colors are those with a `#` in front. -/
theorem ReadAs.head?_eq_hash_iff {w : List Char} {kind? : Option TokenKind} (h : ReadAs w kind?) :
    w.head? = some '#' ↔ kind? = some .color := by
  constructor
  · intro hhead
    obtain ⟨cs, rfl⟩ := List.head?_eq_some_iff.1 hhead
    have hscan := congrArg (Option.map Lexeme.kind?) (scan_self h)
    rw [scan_hash] at hscan
    exact (Option.some.inj hscan).symm
  · intro hkind
    cases h.shape with
    | color hw =>
      obtain ⟨cs, rfl, -⟩ := mem_colorLiteral.1 hw
      rfl
    | word =>
      unfold wordKind at hkind
      split at hkind <;> cases hkind
    | _ => cases hkind

/-- The colors of pieces are complete when the first one's is, and those of the others. -/
theorem colorsComplete_cons {piece : Piece} {pieces : List Piece}
    (h : ReadAs piece.text piece.kind?) :
    ColorsComplete (piece :: pieces) ↔
      (piece.kind? = some .color → Color.IsLiteral piece.text) ∧ ColorsComplete pieces := by
  rw [← h.head?_eq_hash_iff]
  exact List.forall_mem_cons

/-- The lexeme that scanning finds is the first piece. -/
theorem Cutting.cons_of_scan {cs : List Char} {lexeme : Lexeme} {pieces : List Piece}
    (h : Cutting lexeme.rest pieces) (hscan : scan cs = some lexeme) :
    Cutting cs (⟨lexeme.kind?, lexeme.text⟩ :: pieces) := by
  obtain ⟨happ, -⟩ := scan_eq hscan
  rw [← happ] at hscan ⊢
  obtain ⟨hlongest, hread⟩ := scan_eq_some_iff.1 hscan
  exact @Cutting.cons ⟨lexeme.kind?, lexeme.text⟩ _ _ hlongest hread h

/-- A text can be cut in one way only. -/
theorem Cutting.unique {cs : List Char} {pieces others : List Piece} (h : Cutting cs pieces)
    (k : Cutting cs others) : pieces = others := by
  induction h generalizing others with
  | nil =>
    generalize htext : ([] : List Char) = text at k
    cases k with
    | nil => rfl
    | cons _ readAs _ =>
      exact absurd (List.append_eq_nil_iff.1 htext.symm).1 readAs.ne_nil
  | @cons piece rest pieces longest readAs _ ih =>
    generalize htext : piece.text ++ rest = text at k
    cases k with
    | nil => exact absurd (List.append_eq_nil_iff.1 htext).1 readAs.ne_nil
    | @cons piece' rest' pieces' longest' readAs' cutting' =>
      have hscan := scan_eq_some_iff.2 ⟨longest, readAs⟩
      rw [htext, scan_eq_some_iff.2 ⟨longest', readAs'⟩] at hscan
      cases piece
      cases piece'
      simp only [Option.some.injEq, Lexeme.mk.injEq] at hscan
      obtain ⟨rfl, rfl, rfl⟩ := hscan
      rw [ih cutting']

/-! ## Where the tokens stand -/

/-- A text stands in a document between two byte offsets. -/
def StandsAt (source : String) (first last : Nat) (text : String) : Prop :=
  ∃ before after : String, source = before ++ text ++ after ∧
    first = before.utf8ByteSize ∧ last = (before ++ text).utf8ByteSize

/-- The text that stands between two offsets is the bytes between them. -/
theorem StandsAt.extract_eq {source text : String} {first last : Nat}
    (h : StandsAt source first last text) :
    source.toByteArray.extract first last = text.toByteArray := by
  obtain ⟨before, after, rfl, rfl, rfl⟩ := h
  rw [String.utf8ByteSize_append, String.append_assoc, String.toByteArray_append,
    String.toByteArray_append]
  exact (ByteArray.extract_append_size_add (i := 0)).trans (ByteArray.extract_append_eq_left rfl)

/-- Nothing stands between two byte offsets but white space and block comments. -/
def Skipped (source : String) (first last : Nat) : Prop :=
  ∃ gap ∈ (whitespace + blockComment)∗, StandsAt source first last (String.ofList gap)

/-- Between a token and the next one nothing stands but white space and block comments. -/
def SkippedBetween (source : String) (t u : Token) : Prop :=
  Skipped source t.span.stop.offset u.span.start.offset

/-- A place behind a text has the text's length for its offset. -/
theorem offset_start_advance (cs : List Char) :
    (Position.start.advance cs).offset = (String.ofList cs).utf8ByteSize := by
  rw [Position.offset_advance]
  exact Nat.zero_add _

/-- A part of a source stands behind the text in front of it. -/
theorem standsAt_of_toList {source : String} (before w after : List Char)
    (h : source.toList = before ++ w ++ after) :
    StandsAt source (Position.start.advance before).offset
      (Position.start.advance (before ++ w)).offset (String.ofList w) := by
  refine ⟨String.ofList before, String.ofList after, ?_, offset_start_advance _, ?_⟩
  · rw [← String.ofList_append, ← String.ofList_append, ← h, String.ofList_toList]
  · rw [offset_start_advance, String.ofList_append]

/-- A piece that is skipped lengthens the gap before it. -/
theorem ReadAs.append_mem_skipped {gap w : List Char} (h : ReadAs w none)
    (hgap : gap ∈ (whitespace + blockComment)∗) : gap ++ w ∈ (whitespace + blockComment)∗ := by
  have hw : w ∈ whitespace + blockComment := by
    cases h.shape with
    | whitespace hw => exact Or.inl hw
    | blockComment hw => exact Or.inr hw
  have hstar : w ∈ (whitespace + blockComment)∗ := ⟨[w], by simp, by simpa using hw⟩
  rw [← kstar_mul_kstar]
  exact ⟨gap, hgap, w, hstar, rfl⟩

/-- No pattern gives the token that ends a document. -/
theorem ReadAs.kind_ne_endOfInput {w : List Char} {kind : TokenKind} (h : ReadAs w (some kind)) :
    kind ≠ .endOfInput := by
  intro hkind
  cases h.shape with
  | word =>
    unfold wordKind at hkind
    split at hkind <;> cases hkind
  | _ => cases hkind

/-- A mark is read from its own characters only. -/
theorem ReadAs.eq_chars {w : List Char} {m : Mark} (h : ReadAs w (some (.mark m))) :
    w = m.chars := by
  generalize hkind : some (TokenKind.mark m) = kind? at h
  cases h.shape with
  | mark m' =>
    cases hkind
    rfl
  | word =>
    unfold wordKind at hkind
    split at hkind <;> cases hkind
  | _ => cases hkind

section Places

variable {source : String}

/-- The token of a piece stands where it says. -/
theorem Cutting.standsAt {before cs : List Char} {pieces : List Piece} (h : Cutting cs pieces)
    (hsource : source.toList = before ++ cs) :
    ∀ t ∈ tokensOf (.advance .start before) pieces,
      StandsAt source t.span.start.offset t.span.stop.offset t.text := by
  induction h generalizing before with
  | nil =>
    intro t ht
    obtain rfl := List.mem_singleton.1 ht
    have hempty : source.toList = before ++ [] ++ [] := by
      rw [hsource, List.append_nil, List.append_nil]
    have hstands := standsAt_of_toList before [] [] hempty
    rwa [List.append_nil] at hstands
  | @cons piece rest pieces _ _ _ ih =>
    obtain ⟨_ | kind, w⟩ := piece
    · rw [tokensOf_skipped, ← Position.advance_append]
      exact ih (by rw [hsource, List.append_assoc])
    · rw [tokensOf_kept, ← Position.advance_append]
      refine List.forall_mem_cons.2 ⟨standsAt_of_toList before w rest ?_, ih ?_⟩
      · rw [hsource, List.append_assoc]
      · rw [hsource, List.append_assoc]

/-- Between the end of what was read before the gap and the next token, and between any two tokens
after it, there are only pieces that are skipped. -/
theorem Cutting.skippedBetween {cs : List Char} {pieces : List Piece}
    (h : Cutting cs pieces) (before gap : List Char) (hsource : source.toList = before ++ gap ++ cs)
    (hgap : gap ∈ (whitespace + blockComment)∗) :
    ∃ t ts, tokensOf (.advance .start (before ++ gap)) pieces = t :: ts ∧
      Skipped source (Position.start.advance before).offset t.span.start.offset ∧
      List.IsChain (SkippedBetween source) (t :: ts) := by
  induction h generalizing before gap with
  | nil => exact ⟨_, _, rfl, ⟨gap, hgap, standsAt_of_toList before gap _ hsource⟩, .singleton _⟩
  | @cons piece rest pieces _ readAs _ ih =>
    obtain ⟨_ | kind, w⟩ := piece
    · rw [tokensOf_skipped, ← Position.advance_append, List.append_assoc]
      refine ih before (gap ++ w) ?_ (readAs.append_mem_skipped hgap)
      rw [hsource, List.append_assoc, List.append_assoc, List.append_assoc]
    · rw [tokensOf_kept, ← Position.advance_append]
      have hnext : source.toList = before ++ gap ++ w ++ [] ++ rest := by
        rw [hsource, List.append_nil, List.append_assoc (before ++ gap)]
      obtain ⟨u, us, hus, hskipped, hchain⟩ := ih (before ++ gap ++ w) [] hnext (Language.nil_mem_kstar _)
      rw [List.append_nil] at hus
      rw [hus]
      exact ⟨_, _, rfl, ⟨gap, hgap, standsAt_of_toList before gap _ hsource⟩, .cons_cons hskipped hchain⟩

/-- The tokens end with the token that ends the document, and no token before does. -/
theorem Cutting.endsOnce {cs : List Char} {pieces : List Piece} (h : Cutting cs pieces)
    (before : List Char) (hsource : source.toList = before ++ cs) :
    ∃ others, (∀ t ∈ others, t.kind ≠ .endOfInput) ∧
      tokensOf (.advance .start before) pieces =
        others ++ [Token.endAt (.advance .start source.toList)] := by
  induction h generalizing before with
  | nil =>
    refine ⟨[], by simp, ?_⟩
    rw [hsource, List.append_nil]
    rfl
  | @cons piece rest pieces _ readAs _ ih =>
    obtain ⟨others, hothers, htokens⟩ := ih (before ++ piece.text)
      (by rw [hsource, List.append_assoc])
    obtain ⟨_ | kind, w⟩ := piece
    · refine ⟨others, hothers, ?_⟩
      rw [tokensOf_skipped, ← Position.advance_append, htokens]
    · rw [tokensOf_kept, ← Position.advance_append, htokens]
      refine ⟨_ :: others, List.forall_mem_cons.2 ⟨?_, hothers⟩, rfl⟩
      exact readAs.kind_ne_endOfInput

end Places

/-- A token that is a word is the keyword that the word spells in any case, and an identifier if it
spells none. -/
theorem Cutting.words {cs : List Char} {pieces : List Piece} (h : Cutting cs pieces)
    (p : Position) :
    ∀ t ∈ tokensOf p pieces, t.text.toList ∈ word → t.kind = wordKind t.text.toList := by
  induction h generalizing p with
  | nil =>
    intro t ht hword
    obtain rfl := List.mem_singleton.1 ht
    obtain ⟨c, cs, hcs, -⟩ := mem_word.1 hword
    cases hcs
  | @cons piece rest pieces _ readAs _ ih =>
    obtain ⟨_ | kind, w⟩ := piece
    · rw [tokensOf_skipped]
      exact ih _
    · rw [tokensOf_kept]
      refine List.forall_mem_cons.2 ⟨?_, ih _⟩
      intro hword
      simp only [String.toList_ofList] at hword ⊢
      have hscan := scan_word hword []
      rw [List.takeWhile_nil, List.append_nil, scan_self readAs] at hscan
      exact Option.some.inj (congrArg Lexeme.kind? (Option.some.inj hscan))

end SchemaDiagram.Lexeme

namespace SchemaDiagram.Token

open Lexeme
open scoped Computability

/-- At the end of a text, the scanner gives the end of the input. -/
theorem scanFrom_nil (p : Position) : scanFrom p [] = .ok [endAt p] := by
  unfold scanFrom
  rfl

/-- What reading does where a lexeme is found. -/
theorem scanFrom_of_scan {cs : List Char} {lexeme : Lexeme} (h : Lexeme.scan cs = some lexeme)
    (p : Position) :
    scanFrom p cs =
      match lexeme.kind? with
      | none => scanFrom (p.advance lexeme.text) lexeme.rest
      | some kind =>
        if kind = .color ∧ ¬ Color.IsLiteral lexeme.text then
          .error (.invalidColor (String.ofList lexeme.text) p (SourceError.contextOf cs))
        else (scanFrom (p.advance lexeme.text) lexeme.rest).map
          (⟨kind, ⟨p, p.advance lexeme.text⟩, String.ofList lexeme.text⟩ :: ·) := by
  conv => lhs; unfold scanFrom
  split
  · next found hfound =>
    obtain rfl := Option.some.inj (hfound.symm.trans h)
    rcases found with ⟨_ | kind, w, rest⟩
    · rfl
    · simp only
      split
      · rfl
      · cases scanFrom (p.advance w) rest <;> rfl
  · next hnone =>
    rw [h] at hnone
    cases hnone

/-- A piece that is skipped leaves nothing. -/
theorem scanFrom_skipped {cs w rest : List Char} (h : Lexeme.scan cs = some ⟨none, w, rest⟩)
    (p : Position) : scanFrom p cs = scanFrom (p.advance w) rest :=
  scanFrom_of_scan h p

/-- A piece that is kept leaves its token. -/
theorem scanFrom_kept {cs w rest : List Char} {kind : TokenKind}
    (h : Lexeme.scan cs = some ⟨some kind, w, rest⟩) (hcolor : kind = .color → Color.IsLiteral w)
    (p : Position) :
    scanFrom p cs =
      (scanFrom (p.advance w) rest).map (⟨kind, ⟨p, p.advance w⟩, String.ofList w⟩ :: ·) := by
  have hcomplete : ¬ (kind = .color ∧ ¬ Color.IsLiteral w) := fun hbad => hbad.2 (hcolor hbad.1)
  exact (scanFrom_of_scan h p).trans (if_neg hcomplete)

/-- A `#` literal that is no color ends the reading. -/
theorem scanFrom_invalidColor {cs w rest : List Char} (h : Lexeme.scan cs = some ⟨some .color, w, rest⟩)
    (hcolor : ¬ Color.IsLiteral w) (p : Position) : scanFrom p cs =
      .error (.invalidColor (String.ofList w) p (SourceError.contextOf cs)) :=
  (scanFrom_of_scan h p).trans (if_pos ⟨rfl, hcolor⟩)

/-- A place where no lexeme starts ends the reading. -/
theorem scanFrom_noLexeme {c : Char} {cs : List Char} (h : Lexeme.scan (c :: cs) = none) (p : Position) :
    scanFrom p (c :: cs) = .error (.atNoLexeme p c cs) := by
  unfold scanFrom
  split
  · next lexeme hlexeme =>
    rw [h] at hlexeme
    cases hlexeme
  · rfl

/-- What reading does with the text that follows a position is shown by induction along the pieces
that it cuts off one after the other. -/
@[elab_as_elim] theorem scanFrom_induction {motive : Position → List Char → Prop}
    (nil : ∀ p, motive p [])
    (skipped : ∀ p cs w rest, Lexeme.scan cs = some ⟨none, w, rest⟩ →
      motive (p.advance w) rest → motive p cs)
    (invalidColor : ∀ p cs w rest, Lexeme.scan cs = some ⟨some .color, w, rest⟩ →
      ¬ Color.IsLiteral w → motive p cs)
    (kept : ∀ p cs kind w rest, Lexeme.scan cs = some ⟨some kind, w, rest⟩ →
      (kind = .color → Color.IsLiteral w) → motive (p.advance w) rest → motive p cs)
    (noLexeme : ∀ p c cs, Lexeme.scan (c :: cs) = none → motive p (c :: cs))
    (p : Position) (cs : List Char) : motive p cs := by
  fun_induction scanFrom p cs with
  | case1 p cs lexeme hscan after hkind ih =>
    refine skipped p cs lexeme.text lexeme.rest ?_ ih
    rw [hscan, ← hkind]
  | case2 p cs lexeme hscan kind hkind hbad =>
    obtain ⟨rfl, hcolor⟩ := hbad
    refine invalidColor p cs lexeme.text lexeme.rest ?_ hcolor
    rw [hscan, ← hkind]
  | case3 p cs lexeme hscan after kind hkind hliteral ih =>
    refine kept p cs kind lexeme.text lexeme.rest ?_ ?_ ih
    · rw [hscan, ← hkind]
    · exact fun hcolor => not_not.1 fun hbad => hliteral ⟨hcolor, hbad⟩
  | case4 p => exact nil p
  | case5 p c cs hscan => exact noLexeme p c cs hscan

/-- What is cut is scanned. -/
theorem scanFrom_of_cutting {cs : List Char} {pieces : List Piece} (h : Cutting cs pieces)
    (hcolors : ColorsComplete pieces) (p : Position) :
    scanFrom p cs = .ok (tokensOf p pieces) := by
  induction h generalizing p with
  | nil => exact scanFrom_nil p
  | @cons piece rest pieces longest readAs _ ih =>
    obtain ⟨hcolor, hothers⟩ := (colorsComplete_cons readAs).1 hcolors
    have hscan := scan_eq_some_iff.2 ⟨longest, readAs⟩
    obtain ⟨_ | kind, w⟩ := piece
    · rw [scanFrom_skipped hscan, ih hothers]
      rfl
    · rw [scanFrom_kept hscan (fun hkind => hcolor (congrArg some hkind)), ih hothers]
      rfl

/-- What is scanned can be cut. -/
theorem exists_cutting_of_scanFrom {p : Position} {cs : List Char} {tokens : List Token}
    (h : scanFrom p cs = .ok tokens) :
    ∃ pieces, Cutting cs pieces ∧ ColorsComplete pieces ∧ tokens = tokensOf p pieces := by
  induction p, cs using scanFrom_induction generalizing tokens with
  | nil p =>
    rw [scanFrom_nil] at h
    cases h
    exact ⟨[], .nil, nofun, rfl⟩
  | skipped p cs w rest hscan ih =>
    rw [scanFrom_skipped hscan] at h
    obtain ⟨pieces, hcutting, hcolors, rfl⟩ := ih h
    have hread := (shape_of_scan hscan).readAs
    refine ⟨⟨none, w⟩ :: pieces, hcutting.cons_of_scan hscan, ?_, rfl⟩
    exact (colorsComplete_cons hread).2 ⟨nofun, hcolors⟩
  | invalidColor p cs w rest hscan hcolor =>
    rw [scanFrom_invalidColor hscan hcolor] at h
    cases h
  | kept p cs kind w rest hscan hcolor ih =>
    rw [scanFrom_kept hscan hcolor] at h
    cases hothers : scanFrom (p.advance w) rest with
    | error e =>
      rw [hothers] at h
      cases h
    | ok others =>
      rw [hothers] at h
      cases h
      obtain ⟨pieces, hcutting, hcolors, rfl⟩ := ih hothers
      have hread := (shape_of_scan hscan).readAs
      refine ⟨⟨some kind, w⟩ :: pieces, hcutting.cons_of_scan hscan, ?_, rfl⟩
      exact (colorsComplete_cons hread).2 ⟨fun hkind => hcolor (Option.some.inj hkind), hcolors⟩
  | noLexeme p c cs hscan =>
    rw [scanFrom_noLexeme hscan] at h
    cases h

/-- The tokens of a document are those of its cutting, and there are tokens exactly if the document
can be cut and its colors are complete. -/
theorem scan_eq_ok_iff {source : String} {tokens : List Token} :
    scan source = .ok tokens ↔
      ∃ pieces, Cutting source.toList pieces ∧ ColorsComplete pieces ∧
        tokens = tokensOf .start pieces := by
  constructor
  · exact exists_cutting_of_scanFrom
  · rintro ⟨pieces, hcutting, hcolors, rfl⟩
    exact scanFrom_of_cutting hcutting hcolors .start

/-- Reading tokens is maximal munch. The tokens of a document are the pieces of its cutting that are
not skipped, and one more ends the document; each stands where it says, only white space and block
comments are left out, and a word is a keyword exactly if all of it spells one in any case. -/
theorem scan_is_maximal_munch (source : String) :
    (∀ tokens, scan source = .ok tokens ↔
      ∃ pieces, Cutting source.toList pieces ∧ ColorsComplete pieces ∧
        tokens = tokensOf .start pieces) ∧
    ∀ tokens, scan source = .ok tokens →
      (∃ others stop, tokens = others ++ [⟨.endOfInput, .point stop, ""⟩] ∧
        stop.offset = source.utf8ByteSize ∧ ∀ t ∈ others, t.kind ≠ .endOfInput) ∧
      (∀ t ∈ tokens, StandsAt source t.span.start.offset t.span.stop.offset t.text) ∧
      (∃ t ts, tokens = t :: ts ∧ Skipped source 0 t.span.start.offset ∧
        List.IsChain (SkippedBetween source) (t :: ts)) ∧
      ∀ t ∈ tokens, t.text.toList ∈ Pattern.word →
        (∀ k, t.kind = .keyword k ↔ ∃ s ∈ k.spellings, Text.spelledAlike t.text s = true) ∧
        (t.kind = .identifier ↔
          ∀ k, ∀ s ∈ Keyword.spellings k, Text.spelledAlike t.text s = false) := by
  refine ⟨fun tokens => scan_eq_ok_iff, ?_⟩
  intro tokens h
  obtain ⟨pieces, hcutting, -, rfl⟩ := scan_eq_ok_iff.1 h
  have hsource : source.toList = [] ++ source.toList := rfl
  refine ⟨?_, hcutting.standsAt hsource, ?_, ?_⟩
  · obtain ⟨others, hothers, htokens⟩ := hcutting.endsOnce [] hsource
    refine ⟨others, _, htokens, ?_, hothers⟩
    rw [offset_start_advance, String.ofList_toList]
  · exact hcutting.skippedBetween [] [] hsource (Language.nil_mem_kstar _)
  · intro t ht hword
    rw [hcutting.words .start t ht hword]
    refine ⟨fun k => ?_, ?_⟩
    · rw [wordKind_eq_keyword_iff, String.ofList_toList, ofWord?_eq_some_iff]
    · rw [wordKind_eq_identifier_iff, String.ofList_toList, ofWord?_eq_none_iff]

/-- The tokens of an arrow with a negative number right behind it. -/
def arrowTokens : List Token :=
  [⟨.identifier, ⟨⟨1, 1, 0⟩, ⟨1, 2, 1⟩⟩, "a"⟩, ⟨.mark .lessGreater, ⟨⟨1, 2, 1⟩, ⟨1, 4, 3⟩⟩, "<>"⟩,
    ⟨.number, ⟨⟨1, 4, 3⟩, ⟨1, 8, 7⟩⟩, "-1.5"⟩, ⟨.endOfInput, .point ⟨1, 13, 12⟩, ""⟩]

/-- The arrow takes both its characters, the number its sign and its fraction. -/
theorem scan_arrow_standsAt :
    scan "a<>-1.5/* */" = .ok arrowTokens ∧
      ∀ t ∈ arrowTokens, StandsAt "a<>-1.5/* */" t.span.start.offset t.span.stop.offset t.text := by
  have hscan : scan "a<>-1.5/* */" = .ok arrowTokens := by cbv
  exact ⟨hscan, ((scan_is_maximal_munch "a<>-1.5/* */").2 arrowTokens hscan).2.1⟩

end SchemaDiagram.Token
