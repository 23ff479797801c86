import SchemaDiagram.Proofs.Token.Places

/-!
# Errors are reported at the first bad place

Where a text cannot be cut all the way, the pieces in front of the first bad place are still those of
maximal munch on the whole text (`CutsOff`), and the text in front of that place alone has the same
pieces: cutting a text short makes no piece longer. At the place itself either a `#` literal stands
that is no color, or no pattern matches anything, and the error says which (`IsReportedAt`).

Main statements: `Token.scan_eq_error_iff`, which errors there are, and
`Token.scan_stops_at_first_error`, which adds what is read in front of the error. The first is along
the recursion of `Token.scanFrom` in one direction, and by induction on the pieces in the other.
-/

namespace SchemaDiagram.Lexeme

open Pattern

variable {cs rest w : List Char} {pieces : List Piece}

/-! ## Pieces in front of a place -/

/-- Pieces are cut off the front of a text up to some rest of it. Each is the longest text that a
pattern matches at the front of all that is left. -/
inductive CutsOff : List Char → List Piece → List Char → Prop
  | nil (rest : List Char) : CutsOff rest [] rest
  | cons {piece : Piece} {cs rest : List Char} {pieces : List Piece}
      (longest : IsLongest piece.text (piece.text ++ cs))
      (readAs : ReadAs piece.text piece.kind?) (others : CutsOff cs pieces rest) :
      CutsOff (piece.text ++ cs) (piece :: pieces) rest

/-- The characters of some pieces. -/
def textOf (pieces : List Piece) : List Char := pieces.flatMap (·.text)

/-- The tokens of the pieces that are not skipped. -/
def keptFrom (p : Position) : List Piece → List Token
  | [] => []
  | piece :: pieces =>
    match piece.kind? with
    | none => keptFrom (p.advance piece.text) pieces
    | some kind =>
      ⟨kind, ⟨p, p.advance piece.text⟩, String.ofList piece.text⟩ ::
        keptFrom (p.advance piece.text) pieces

/-- The text of pieces is the first one's and that of the others. -/
theorem textOf_cons (piece : Piece) (pieces : List Piece) :
    textOf (piece :: pieces) = piece.text ++ textOf pieces := rfl

/-- A piece that is skipped gives no token. -/
theorem keptFrom_skipped (p : Position) (w : List Char) (pieces : List Piece) :
    keptFrom p (⟨none, w⟩ :: pieces) = keptFrom (p.advance w) pieces := rfl

/-- A piece that is kept gives a token. -/
theorem keptFrom_kept (p : Position) (kind : TokenKind) (w : List Char) (pieces : List Piece) :
    keptFrom p (⟨some kind, w⟩ :: pieces) =
      ⟨kind, ⟨p, p.advance w⟩, String.ofList w⟩ :: keptFrom (p.advance w) pieces := rfl

/-- Where a text is cut all the way, the token that ends the document comes last. -/
theorem tokensOf_eq (p : Position) (pieces : List Piece) :
    tokensOf p pieces = keptFrom p pieces ++ [Token.endAt (p.advance (textOf pieces))] := by
  induction pieces generalizing p with
  | nil => rfl
  | cons piece pieces ih =>
    rw [textOf_cons, Position.advance_append]
    obtain ⟨_ | kind, w⟩ := piece
    · rw [tokensOf_skipped, keptFrom_skipped, ih]
    · rw [tokensOf_kept, keptFrom_kept, ih, List.cons_append]

/-- The pieces and the rest are the text. -/
theorem CutsOff.append_eq (h : CutsOff cs pieces rest) : textOf pieces ++ rest = cs := by
  induction h with
  | nil => rfl
  | cons _ _ _ ih => rw [textOf_cons, List.append_assoc, ih]

/-- The lexeme that scanning finds is the first piece. -/
theorem CutsOff.cons_of_scan {lexeme : Lexeme} (h : CutsOff lexeme.rest pieces rest)
    (hscan : scan cs = some lexeme) : CutsOff cs (⟨lexeme.kind?, lexeme.text⟩ :: pieces) rest := by
  obtain ⟨happ, -⟩ := scan_eq hscan
  rw [← happ] at hscan ⊢
  obtain ⟨hlongest, hread⟩ := scan_eq_some_iff.1 hscan
  exact @CutsOff.cons ⟨lexeme.kind?, lexeme.text⟩ _ _ _ hlongest hread h

/-- Without pieces, all colors are complete. -/
theorem colorsComplete_nil : ColorsComplete [] := fun _ h => absurd h List.not_mem_nil

/-- A text that is the longest one stays so when the text behind it is cut short. -/
theorem IsLongest.of_append (h : IsLongest w (cs ++ rest)) (hw : w <+: cs) : IsLongest w cs :=
  ⟨hw, h.matched, fun v hv => h.longest v (hv.trans (List.prefix_append _ _))⟩

/-- The text in front of the place alone is cut into the same pieces. -/
theorem CutsOff.cutting (h : CutsOff cs pieces rest) : Cutting (textOf pieces) pieces := by
  induction h with
  | nil => exact .nil
  | cons longest readAs others ih =>
    rw [← others.append_eq, ← List.append_assoc] at longest
    exact .cons (longest.of_append (List.prefix_append _ _)) readAs ih

/-! ## What is reported -/

/-- No pattern matches a text at the front that is not empty. -/
def NoneMatches (cs : List Char) : Prop := ∀ v, v <+: cs → v ≠ [] → ¬ Matched v

/-- Nothing is scanned exactly where no pattern matches. -/
theorem scan_eq_none_iff : scan cs = none ↔ NoneMatches cs := by
  constructor
  · rintro h v ⟨rest, rfl⟩ - hmatched
    obtain ⟨kind?, hread⟩ := hmatched.exists_readAs
    obtain ⟨lexeme, hscan, -⟩ := scan_of_readAs hread rest
    rw [h] at hscan
    cases hscan
  · intro h
    rcases hscan : scan cs with _ | lexeme
    · rfl
    · obtain ⟨happ, hne⟩ := scan_eq hscan
      exact absurd (shape_of_scan hscan).readAs.isMatched (h _ ⟨lexeme.rest, happ⟩ hne)

/-- The longest part of a line at the front of a text that an error can show. -/
structure IsContext (cs : List Char) (context : String) : Prop where
  /-- It stands at the front. -/
  front : context.toList <+: cs
  /-- It is short. -/
  short : context.toList.length ≤ SourceError.contextLength
  /-- It is a part of one line. -/
  line : '\n' ∉ context.toList
  /-- Nothing longer is. -/
  longest : ∀ v, v <+: cs → v.length ≤ SourceError.contextLength → '\n' ∉ v →
    v.length ≤ context.toList.length

/-- What is cut from the text ahead is a context of it. -/
theorem isContext_contextOf (cs : List Char) : IsContext cs (SourceError.contextOf cs) := by
  unfold SourceError.contextOf
  refine ⟨?_, ?_, ?_, ?_⟩ <;> rw [String.toList_ofList]
  · exact (List.take_prefix _ _).trans (List.takeWhile_prefix _)
  · exact List.length_take_le _ _
  · intro hmem
    simpa using List.mem_takeWhile_imp (List.mem_of_mem_take hmem)
  · rintro v ⟨rest, rfl⟩ hshort hline
    have hpos : ∀ c ∈ v, decide (c ≠ '\n') = true := by
      intro c hc
      exact decide_eq_true fun h => hline (h ▸ hc)
    rw [List.takeWhile_append_of_pos hpos, List.length_take, List.length_append]
    omega

/-- There is one such part. -/
theorem IsContext.eq_contextOf {context : String} (h : IsContext cs context) :
    context = SourceError.contextOf cs := by
  have k := isContext_contextOf cs
  refine String.toList_injective (List.prefix_of_prefix_length_le h.front k.front
    (k.longest _ h.front h.short h.line) |>.eq_of_length_le ?_)
  exact h.longest _ k.front k.short k.line

/-- The error for a place with the given text ahead. A `#` literal is taken as far as it goes. -/
inductive IsReportedAt (p : Position) : List Char → SourceError → Prop
  /-- A `#` literal that is not made of three or six hexadecimal digits. -/
  | invalidColor {w rest : List Char} {context : String} (hw : w ∈ colorLiteral)
      (hlongest : ∀ v ∈ colorLiteral, v <+: w ++ rest → v.length ≤ w.length)
      (hcolor : ¬ Color.IsLiteral w) (hcontext : IsContext (w ++ rest) context) :
      IsReportedAt p (w ++ rest) (.invalidColor (String.ofList w) p context)
  /-- No lexeme starts with this quote. -/
  | unterminatedString (q : Text.Quote) {rest : List Char} {context : String}
      (hnone : NoneMatches (q.char :: rest)) (hcontext : IsContext (q.char :: rest) context) :
      IsReportedAt p (q.char :: rest) (.unterminatedString q.char p context)
  /-- No lexeme starts with this character. -/
  | unexpectedCharacter {c : Char} {rest : List Char} {context : String}
      (hquote : ∀ q : Text.Quote, c ≠ q.char) (hnone : NoneMatches (c :: rest))
      (hcontext : IsContext (c :: rest) context) :
      IsReportedAt p (c :: rest) (.unexpectedCharacter c p context)

namespace IsReportedAt

variable {p : Position} {e : SourceError}

/-- An error is reported in front of some character. -/
theorem ne_nil (h : IsReportedAt p cs e) : cs ≠ [] := by
  cases h with
  | invalidColor hw =>
    obtain ⟨ds, rfl, -⟩ := mem_colorLiteral.1 hw
    simp
  | unterminatedString => simp
  | unexpectedCharacter => simp

/-- An error tells the place that it is reported at. -/
theorem position?_eq (h : IsReportedAt p cs e) : e.position? = some p := by
  cases h <;> rfl

end IsReportedAt

/-- A `#` literal is taken as far as it goes. -/
theorem longest_of_scan_hash {ds : List Char} {lexeme : Lexeme}
    (h : scan ('#' :: ds) = some lexeme) : lexeme.text ∈ colorLiteral ∧
      ∀ v ∈ colorLiteral, v <+: '#' :: ds → v.length ≤ lexeme.text.length := by
  have hscan := h
  rw [scan_hash] at hscan
  cases hscan
  refine ⟨mem_colorLiteral.2 ⟨_, rfl, fun d hd => List.mem_takeWhile_imp hd⟩, ?_⟩
  rintro v hv ⟨rest, hrest⟩
  rw [← hrest, scan_colorLiteral hv] at h
  rw [← congrArg Lexeme.text (Option.some.inj h)]
  exact (List.prefix_append _ _).length_le

/-- What the longest `#` literal is, scanning finds. -/
theorem scan_of_longest_color (hw : w ∈ colorLiteral)
    (hlongest : ∀ v ∈ colorLiteral, v <+: w ++ rest → v.length ≤ w.length) :
    scan (w ++ rest) = some ⟨some .color, w, rest⟩ := by
  obtain ⟨ds, rfl, hds⟩ := mem_colorLiteral.1 hw
  have hmem : '#' :: ds ++ rest.takeWhile continuesColor ∈ colorLiteral := by
    refine mem_colorLiteral.2 ⟨_, rfl, fun d hd => ?_⟩
    exact (List.mem_append.1 hd).elim (hds d) fun hd => List.mem_takeWhile_imp hd
  have hle := hlongest _ hmem
    ((List.prefix_append_right_inj _).2 (List.takeWhile_prefix continuesColor))
  have hnil : rest.takeWhile continuesColor = [] := by
    rw [List.length_append] at hle
    exact List.length_eq_zero_iff.1 (by omega)
  have hrest := List.takeWhile_append_dropWhile (p := continuesColor) (l := rest)
  rw [hnil, List.nil_append] at hrest
  rw [scan_colorLiteral hw, hnil, List.append_nil, hrest]

end SchemaDiagram.Lexeme

namespace SchemaDiagram.Token

open Lexeme Lexeme.Pattern

variable {cs rest : List Char} {pieces : List Piece} {e : SourceError}

/-! ## Reading up to a place -/

/-- Tokens that are kept stand in front of what comes behind the pieces. -/
theorem scanFrom_of_cutsOff (h : CutsOff cs pieces rest) (hcolors : ColorsComplete pieces)
    (p : Position) :
    scanFrom p cs = (scanFrom (p.advance (textOf pieces)) rest).map (keptFrom p pieces ++ ·) := by
  induction h generalizing p with
  | nil rest =>
    show scanFrom p rest = (scanFrom p rest).map fun ts => ts
    cases scanFrom p rest <;> rfl
  | @cons piece cs rest pieces longest readAs _ ih =>
    obtain ⟨hcolor, hothers⟩ := (colorsComplete_cons readAs).1 hcolors
    have hscan := scan_eq_some_iff.2 ⟨longest, readAs⟩
    rw [textOf_cons, Position.advance_append]
    obtain ⟨_ | kind, w⟩ := piece
    · rw [scanFrom_skipped hscan, ih hothers, keptFrom_skipped]
    · rw [scanFrom_kept hscan (fun hkind => hcolor (congrArg some hkind)), ih hothers,
        keptFrom_kept]
      cases scanFrom ((p.advance w).advance (textOf pieces)) rest <;> rfl

/-- Where an error is reported, scanning ends with it. -/
theorem scanFrom_of_isReportedAt {p : Position} (h : IsReportedAt p cs e) :
    scanFrom p cs = .error e := by
  cases h with
  | invalidColor hw hlongest hcolor hcontext =>
    rw [scanFrom_invalidColor (scan_of_longest_color hw hlongest) hcolor, hcontext.eq_contextOf]
  | unterminatedString q hnone hcontext =>
    rw [scanFrom_noLexeme (scan_eq_none_iff.2 hnone), SourceError.atNoLexeme,
      Text.Quote.ofChar?_char, hcontext.eq_contextOf]
  | unexpectedCharacter hquote hnone hcontext =>
    have hother := Option.eq_none_iff_forall_ne_some.2 fun q h =>
      hquote q (Text.Quote.ofChar?_eq_some_iff.1 h)
    rw [scanFrom_noLexeme (scan_eq_none_iff.2 hnone), SourceError.atNoLexeme, hother,
      hcontext.eq_contextOf]

/-- A literal that is no color is reported as such. -/
theorem isReportedAt_invalidColor {w : List Char}
    (h : Lexeme.scan cs = some ⟨some .color, w, rest⟩) (hcolor : ¬ Color.IsLiteral w)
    (p : Position) : IsReportedAt p cs
      (.invalidColor (String.ofList w) p (SourceError.contextOf cs)) := by
  have hread := (shape_of_scan h).readAs
  obtain ⟨happ, -⟩ := scan_eq h
  obtain ⟨ds, hds⟩ := List.head?_eq_some_iff.1 (hread.head?_eq_hash_iff.2 rfl)
  have hhash : cs = '#' :: (ds ++ rest) := by rw [← happ, hds, List.cons_append]
  obtain ⟨hw, hlongest⟩ := longest_of_scan_hash (hhash ▸ h)
  rw [← hhash, ← happ] at hlongest
  have hreported := IsReportedAt.invalidColor (p := p) hw hlongest hcolor (isContext_contextOf _)
  rwa [happ] at hreported

/-- A character that no lexeme starts with is reported as such. -/
theorem isReportedAt_atNoLexeme {c : Char} (h : Lexeme.scan (c :: cs) = none) (p : Position) :
    IsReportedAt p (c :: cs) (.atNoLexeme p c cs) := by
  have hnone := scan_eq_none_iff.1 h
  unfold SourceError.atNoLexeme
  cases hquote : Text.Quote.ofChar? c with
  | none =>
    refine .unexpectedCharacter ?_ hnone (isContext_contextOf _)
    rintro q rfl
    rw [Text.Quote.ofChar?_char] at hquote
    cases hquote
  | some q =>
    obtain rfl := Text.Quote.ofChar?_eq_some_iff.1 hquote
    exact .unterminatedString q hnone (isContext_contextOf _)

/-- Reading ends with an error at the first place behind complete pieces where one is reported. -/
theorem scanFrom_eq_error_iff {p : Position} : scanFrom p cs = .error e ↔
    ∃ pieces rest, CutsOff cs pieces rest ∧ ColorsComplete pieces ∧
      IsReportedAt (p.advance (textOf pieces)) rest e := by
  constructor
  · intro h
    induction p, cs using scanFrom_induction with
    | nil p =>
      rw [scanFrom_nil] at h
      cases h
    | skipped p cs w rest hscan ih =>
      rw [scanFrom_skipped hscan] at h
      obtain ⟨pieces, others, hcuts, hcolors, he⟩ := ih h
      have hread := (shape_of_scan hscan).readAs
      refine ⟨⟨none, w⟩ :: pieces, others, hcuts.cons_of_scan hscan, ?_, ?_⟩
      · exact (colorsComplete_cons hread).2 ⟨nofun, hcolors⟩
      · rwa [textOf_cons, Position.advance_append]
    | invalidColor p cs w rest hscan hcolor =>
      rw [scanFrom_invalidColor hscan hcolor] at h
      cases h
      exact ⟨[], cs, .nil cs, colorsComplete_nil, isReportedAt_invalidColor hscan hcolor p⟩
    | kept p cs kind w rest hscan hcolor ih =>
      rw [scanFrom_kept hscan hcolor] at h
      cases hothers : scanFrom (p.advance w) rest with
      | ok others =>
        rw [hothers] at h
        cases h
      | error e' =>
        rw [hothers] at h
        cases h
        obtain ⟨pieces, others, hcuts, hcolors, he⟩ := ih hothers
        have hread := (shape_of_scan hscan).readAs
        refine ⟨⟨some kind, w⟩ :: pieces, others, hcuts.cons_of_scan hscan, ?_, ?_⟩
        · refine (colorsComplete_cons hread).2 ⟨fun hkind => ?_, hcolors⟩
          exact hcolor (Option.some.inj hkind)
        · rwa [textOf_cons, Position.advance_append]
    | noLexeme p c cs hscan =>
      rw [scanFrom_noLexeme hscan] at h
      cases h
      exact ⟨[], c :: cs, .nil _, colorsComplete_nil, isReportedAt_atNoLexeme hscan p⟩
  · rintro ⟨pieces, rest, hcuts, hcolors, he⟩
    rw [scanFrom_of_cutsOff hcuts hcolors, scanFrom_of_isReportedAt he]
    rfl

/-- A document is refused exactly if behind some complete pieces of it a place comes where an error
is reported. -/
theorem scan_eq_error_iff {source : String} : scan source = .error e ↔
    ∃ pieces rest, CutsOff source.toList pieces rest ∧ ColorsComplete pieces ∧
      IsReportedAt (.advance .start (textOf pieces)) rest e :=
  scanFrom_eq_error_iff

/-- Errors are reported at the first bad place and nowhere else. The error of a document stands in
front of one of its characters, at a place `p` where its kind and its context are right; the text in
front of `p` alone has tokens, and these are the tokens of the pieces that maximal munch cuts off the
whole document up to `p`. -/
theorem scan_stops_at_first_error {source : String} (h : scan source = .error e) :
    ∃ (p : Position) (before after : String) (pieces : List Piece),
      source = before ++ after ∧ p = .advance .start before.toList ∧
      p.offset = before.utf8ByteSize ∧ p.offset < source.utf8ByteSize ∧
      CutsOff source.toList pieces after.toList ∧ ColorsComplete pieces ∧
      scan before = .ok (keptFrom .start pieces ++ [endAt p]) ∧
      e.position? = some p ∧ IsReportedAt p after.toList e := by
  obtain ⟨pieces, rest, hcuts, hcolors, he⟩ := scan_eq_error_iff.1 h
  have hsource : source = String.ofList (textOf pieces) ++ String.ofList rest := by
    rw [← String.ofList_append, hcuts.append_eq, String.ofList_toList]
  have hpositive : 0 < (String.ofList rest).utf8ByteSize := by
    have hbefore := (Position.start.before_advance he.ne_nil).1
    rwa [offset_start_advance] at hbefore
  refine ⟨_, String.ofList (textOf pieces), String.ofList rest, pieces, hsource, ?_,
    offset_start_advance _, ?_, ?_, hcolors, ?_, he.position?_eq, ?_⟩
  · rw [String.toList_ofList]
  · rw [offset_start_advance, hsource, String.utf8ByteSize_append]
    omega
  · rwa [String.toList_ofList]
  · rw [scan, String.toList_ofList, scanFrom_of_cutting hcuts.cutting hcolors, tokensOf_eq]
  · rwa [String.toList_ofList]

/-- The quote that is not closed stands behind a word and a comment with longer characters, and the
slash and the star behind it open no comment. -/
theorem scan_open_quote_after_comment :
    scan "表/*é*/ 'b/*" = .error (.unterminatedString '\'' ⟨1, 8, 10⟩ "'b/*") ∧
      ∃ (p : Position) (before after : String) (pieces : List Piece),
        "表/*é*/ 'b/*" = before ++ after ∧ p = .advance .start before.toList ∧
        p.offset = before.utf8ByteSize ∧ p.offset < "表/*é*/ 'b/*".utf8ByteSize ∧
        CutsOff "表/*é*/ 'b/*".toList pieces after.toList ∧ ColorsComplete pieces ∧
        scan before = .ok (keptFrom .start pieces ++ [endAt p]) ∧
        some (⟨1, 8, 10⟩ : Position) = some p ∧
        IsReportedAt p after.toList (.unterminatedString '\'' ⟨1, 8, 10⟩ "'b/*") := by
  have hscan : scan "表/*é*/ 'b/*" =
      .error (.unterminatedString '\'' ⟨1, 8, 10⟩ "'b/*") := by cbv
  exact ⟨hscan, scan_stops_at_first_error hscan⟩

end SchemaDiagram.Token
