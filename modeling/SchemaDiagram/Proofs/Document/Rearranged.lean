import SchemaDiagram.Proofs.Document.Laid
import SchemaDiagram.Proofs.Document.PlaceFree
import SchemaDiagram.Proofs.Document.Transparent

/-!
# The order of settings does not matter

A document in which the entries of one list of settings stand in another order, with any commas
around them, reads as the document with the list as it was. In front of the list the tokens in it do
not matter (`TwoAhead`, `ListsWithin`). In the list both orders make the same changes (`Laid`).
Behind it the two readings have come to the very same cursor, if the line comments among the entries
are the same ones: comments that were passed in the list wait for a construct behind it.

So far each token has kept its place. Tokens that are moved have other places, and those come back
only in spans (`PlaceFree`).

Main statement: `ofTokens_rearranged_settings`.
-/

namespace SchemaDiagram.Document

open SchemaDiagram.Document.Parser

variable {c d e : Cursor} {opening closing : Token} {us bs bs' vs : List Token}
  {comments : List String}

/-! ## Behind the list -/

/-- A mark takes part in the structure. -/
theorem plain_of_mark {t : Token} {m : Mark} (h : t.kind = .mark m) :
    t.kind ≠ .endOfInput ∧ t.kind ≠ .comment := by
  rw [h]
  exact ⟨nofun, nofun⟩

/-- A token that is neither a comment nor the end takes the comments that wait. -/
theorem gatherComments_cons_of_plain (h : closing.kind ≠ .endOfInput ∧ closing.kind ≠ .comment) :
    (gatherComments comments (closing :: vs)).1 =
      ⟨comments, closing⟩ :: (gatherComments [] vs).1 := by
  rw [gatherComments, if_neg h.1, if_neg h.2]

/-- When all tokens are passed, all comments wait for a construct. -/
theorem Cursor.exists_advanceBy_length (c : Cursor) :
    ∃ last, c.advanceBy c.rest.length = ⟨[], c.comments, c.reported, last, c.stop⟩ := by
  have hrest := c.rest_advanceBy (n := c.rest.length)
  have hcomments := comments_advanceBy c.rest.length c
  have hreported := c.reported_advanceBy (n := c.rest.length)
  have hstop := (c.reaches_advanceBy (n := c.rest.length)).stop
  rcases hpassed : c.advanceBy c.rest.length with ⟨rest, pending, reported, last, stop⟩
  rw [hpassed] at hrest hcomments hreported hstop
  obtain rfl : rest = [] := hrest.trans List.drop_length
  obtain rfl : pending = c.comments := by simpa [comments] using hcomments
  obtain rfl : reported = c.reported := hreported
  obtain rfl : stop = c.stop := hstop
  exact ⟨last, rfl⟩

/-- Behind some tokens and the closing one, nothing is left of them but the comments. -/
theorem Cursor.advanceBy_before_gatherComments (hbs : ∀ t ∈ bs, t.kind ≠ .endOfInput)
    (hclosing : closing.kind ≠ .endOfInput ∧ closing.kind ≠ .comment) {n : Nat}
    (hn : n = c.rest.length + (structuralTokens bs).length + 1) :
    (c.before (gatherComments comments (bs ++ closing :: vs)).1).advanceBy n =
      ⟨(gatherComments [] vs).1, c.comments ++ (comments ++ commentTexts bs), c.reported,
        closing.span, c.stop⟩ := by
  have hlength : c.rest.length + (structuralTokens bs).length =
      (c.before (gatherComments comments bs).1).rest.length := by
    rw [length_before, ← tokens_gatherComments comments, List.length_map]
  have hgathered := commentTexts_gatherComments (fun t ht => hbs t (List.mem_of_mem_dropLast ht))
    comments
  obtain ⟨last, hpassed⟩ := (c.before (gatherComments comments bs).1).exists_advanceBy_length
  rw [hn, gatherComments_append hbs, before_append, advanceBy_add, hlength,
    advanceBy_before (Nat.le_refl _), hpassed, gatherComments_cons_of_plain hclosing, ← hgathered]
  simp [advanceBy, advance, before, Cursor.comments]

/-! ## The list -/

/-- The tokens around a list with its closing bracket. -/
theorem structuralTokens_append_cons (hbs : ∀ t ∈ bs, t.kind ≠ .endOfInput)
    (hclosing : closing.kind ≠ .endOfInput ∧ closing.kind ≠ .comment) :
    structuralTokens (bs ++ closing :: vs) =
      structuralTokens bs ++ closing :: structuralTokens vs := by
  rw [structuralTokens_append_of_ne hbs]
  exact congrArg (structuralTokens bs ++ ·)
    (@structuralTokens_append [closing] (by simpa using hclosing) vs)

section List

variable {l : ListKind} {s : l.State} {entries entries' : List (List Token)}

/-- Two lists with the same accepted entries and the same comments are read alike: from a cursor
over the opening bracket with one of them behind it, reading comes to the same settings and the same
cursor as with the other one. -/
theorem run_settings?_before_of_perm (he : e.tokens = [opening])
    (hopening : opening.kind = .mark .leftBracket) (hclosing : closing.kind = .mark .rightBracket)
    (hbs : ∀ t ∈ bs ++ bs', t.kind ≠ .endOfInput) (hlaid : Laid entries (structuralTokens bs))
    (hlaid' : Laid entries' (structuralTokens bs')) (hperm : entries'.Perm entries)
    (haccepted : ∀ entry ∈ entries, Accepts l entry) (hfields : (entries.map l.fieldOf?).Nodup)
    (hcomments : commentTexts bs' = commentTexts bs) :
    (settings? l.apply s).run (e.before (gatherComments comments (bs' ++ closing :: vs)).1) =
      (settings? l.apply s).run (e.before (gatherComments comments (bs ++ closing :: vs)).1) := by
  obtain ⟨hbs, hbs'⟩ := List.forall_mem_append.1 hbs
  have hplain := plain_of_mark hclosing
  have htokens {bs : List Token} (hbs : ∀ t ∈ bs, t.kind ≠ .endOfInput) :
      (e.before (gatherComments comments (bs ++ closing :: vs)).1).tokens =
        opening :: (structuralTokens bs ++ closing :: structuralTokens vs) := by
    rw [← structuralTokens_append_cons hbs hplain, ← tokens_gatherComments comments]
    rw [Cursor.tokens, List.map_eq_singleton_iff] at he
    obtain ⟨u, hrest, rfl⟩ := he
    simp [Cursor.tokens, Cursor.before, hrest]
  have hone : e.rest.length = 1 := by
    have hlength := congrArg List.length he
    rwa [Cursor.tokens, List.length_map] at hlength
  have hlength (bs : List Token) :
      (structuralTokens bs).length + 2 = e.rest.length + (structuralTokens bs).length + 1 := by
    omega
  obtain ⟨changes, -, hread, hread'⟩ := hlaid.exists_run_settings?_of_perm hlaid' hperm haccepted
    hfields hopening hclosing s
  -- the states are the same, and so are the comments that wait behind the lists
  rw [hread _ _ (htokens hbs), hread' _ _ (htokens hbs'),
    Cursor.advanceBy_before_gatherComments hbs hplain (hlength bs),
    Cursor.advanceBy_before_gatherComments hbs' hplain (hlength bs'), hcomments]

end List

/-! ## The document -/

section Document

variable {l : ListKind} {s : l.State} {a : Attempt}

/-- The document reads as it did when its tokens keep their places. -/
theorem ofTokens_of_perm {entries entries' : List (List Token)}
    (hus : ∀ t ∈ us, t.kind ≠ .endOfInput)
    (ha : a ∈ attempts (.ofTokens (us ++ opening :: (bs ++ closing :: vs))))
    (hlist : a.HasList l s d)
    (hd : d.tokens = structuralTokens (opening :: (bs ++ closing :: vs)))
    (hopening : opening.kind = .mark .leftBracket) (hclosing : closing.kind = .mark .rightBracket)
    (hbs : ∀ t ∈ bs ++ bs', t.kind ≠ .endOfInput) (hlaid : Laid entries (structuralTokens bs))
    (hlaid' : Laid entries' (structuralTokens bs')) (hperm : entries'.Perm entries)
    (haccepted : ∀ entry ∈ entries, Accepts l entry) (hfields : (entries.map l.fieldOf?).Nodup)
    (hcomments : commentTexts bs' = commentTexts bs) :
    ofTokens (us ++ opening :: (bs' ++ closing :: vs)) =
      ofTokens (us ++ opening :: (bs ++ closing :: vs)) := by
  have hplain := plain_of_mark hopening
  have hus : ∀ t ∈ us ++ [opening], t.kind ≠ .endOfInput :=
    List.forall_mem_append.2 ⟨hus, by simpa using hplain.1⟩
  obtain ⟨hbs₁, hbs₂⟩ := List.forall_mem_append.1 hbs
  -- the opening bracket is the last token in front of what differs
  obtain ⟨front, comments, hcursor⟩ : ∃ (front : Cursor) (comments : List String),
      ∀ bs, (∀ t ∈ bs, t.kind ≠ .endOfInput) →
        Cursor.ofTokens (us ++ opening :: (bs ++ closing :: vs)) =
          front.before (gatherComments comments (bs ++ closing :: vs)).1 := by
    refine ⟨⟨(gatherComments [] (us ++ [opening])).1, [], [], .point ⟨0, 0, 0⟩,
      endSpan (closing :: vs)⟩, (gatherComments [] (us ++ [opening])).2, fun bs hbs => ?_⟩
    rw [List.append_cons, Cursor.ofTokens_append_eq_before hus (by simp), endSpan_append hbs]
  rw [hcursor bs hbs₁] at ha
  have hgathered := tokens_gatherComments comments (bs ++ closing :: vs)
  rw [← List.singleton_append, structuralTokens_append (by simpa using hplain), ← hgathered] at hd
  have hlength : d.rest.length = (gatherComments comments (bs ++ closing :: vs)).1.length + 1 := by
    have htokens := congrArg List.length hd
    rwa [Cursor.tokens, List.length_map, List.length_append, List.length_map, Nat.add_comm]
      at htokens
  have hlt := hlist.length_lt
  obtain ⟨start, xs, hstart, hread⟩ := attempts_before ha (by omega)
  obtain ⟨hconstructs, ys, zs, hys, hzs⟩ : ReadsAlike []
      (start.before (gatherComments comments (bs ++ closing :: vs)).1)
      (start.before (gatherComments comments (bs' ++ closing :: vs)).1) := by
    refine hlist.readsAlike hstart (by omega) fun e he => ?_
    rw [he, Cursor.tokens, Cursor.before, List.map_append] at hd
    rw [run_settings?_before_of_perm (List.append_cancel_right hd) hopening hclosing hbs hlaid
      hlaid' hperm haccepted hfields hcomments]
    exact Outcome.inserted_nil _
  rw [List.append_nil, ← hys] at hzs
  simp only [ofTokens, hcursor bs hbs₁, hcursor bs' hbs₂, hread, hconstructs, hzs]

/-- The order of independent settings does not matter. Let the tokens of a document have a list of
settings with accepted entries, no two of which set one field. The entries may stand in any other
order, with any commas in front of, between and behind them, as long as line comments among them
stay the same ones; the tokens of such a document have whatever places they have in it. It reads as
the first one, apart from places: the same constructs and the same diagnostics. None of these is
about the list: reading either order only takes its tokens, and makes the changes that the entries
say, one after the other. -/
theorem ofTokens_rearranged_settings {entries entries' : List (List Token)} {ts : List Token}
    (hus : ∀ t ∈ us, t.kind ≠ .endOfInput)
    (ha : a ∈ attempts (.ofTokens (us ++ opening :: (bs ++ closing :: vs))))
    (hlist : a.HasList l s d)
    (hd : d.tokens = structuralTokens (opening :: (bs ++ closing :: vs)))
    (hopening : opening.kind = .mark .leftBracket) (hclosing : closing.kind = .mark .rightBracket)
    (hbs : ∀ t ∈ bs ++ bs', t.kind ≠ .endOfInput) (hlaid : Laid entries (structuralTokens bs))
    (hlaid' : Laid entries' (structuralTokens bs')) (hperm : entries'.Perm entries)
    (haccepted : ∀ entry ∈ entries, Accepts l entry) (hfields : (entries.map l.fieldOf?).Nodup)
    (hcomments : commentTexts bs' = commentTexts bs)
    (hts : ts.map (fun t => (t.kind, t.text)) =
      (us ++ opening :: (bs' ++ closing :: vs)).map fun t => (t.kind, t.text)) :
    (ofTokens ts).unplaced =
        (ofTokens (us ++ opening :: (bs ++ closing :: vs))).unplaced ∧
      ∃ changes, List.Forall₂ (IsEntry l) entries changes ∧
        ∀ list ∈ [structuralTokens bs, structuralTokens bs'], ∀ (c : Cursor) (ws : List Token),
          c.tokens = opening :: (list ++ closing :: ws) →
            (settings? l.apply s).run c =
              .ok (changes.foldl l.set s) (c.advanceBy (list.length + 2)) := by
  obtain ⟨changes, hsaid, hread, hread'⟩ := hlaid.exists_run_settings?_of_perm hlaid' hperm
    haccepted hfields hopening hclosing s
  refine ⟨?_, changes, hsaid, ?_⟩
  · rw [← ofTokens_unplaced, map_unplaced_eq hts, ofTokens_unplaced, ofTokens_of_perm hus ha hlist
      hd hopening hclosing hbs hlaid hlaid' hperm haccepted hfields hcomments]
  · simpa using ⟨hread, hread'⟩

end Document

/-- A table up to the settings of its first column. -/
def openTable : List Token :=
  [⟨.keyword .table, default, "Table"⟩, ⟨.identifier, default, "t"⟩,
    ⟨.mark .leftBrace, default, "\x7b"⟩, ⟨.identifier, default, "id"⟩,
    ⟨.identifier, default, "int"⟩]

/-- An entry that is a flag. -/
def flagEntry : List Token := [⟨.keyword .pk, default, "pk"⟩]

/-- An entry with a call as the default. -/
def callEntry : List Token :=
  [⟨.keyword .default, default, "default"⟩, ⟨.mark .colon, default, ":"⟩,
    ⟨.identifier, default, "now"⟩, ⟨.mark .leftParen, default, "("⟩,
    ⟨.mark .rightParen, default, ")"⟩]

/-- An entry of two words. -/
def wordsEntry : List Token := [⟨.keyword .not, default, "not"⟩, ⟨.keyword .null, default, "null"⟩]

/-- The bracket that opens a list. -/
def leftBracketToken : Token := ⟨.mark .leftBracket, default, "["⟩

/-- The bracket that closes a list. -/
def rightBracketToken : Token := ⟨.mark .rightBracket, default, "]"⟩

/-- The end of a table and of the document. -/
def closingTable : List Token :=
  [⟨.mark .rightBrace, default, "\x7d"⟩, ⟨.endOfInput, default, ""⟩]

/-- The three entries with the commas between them that they need. -/
def orderedList : List Token :=
  flagEntry ++ commaToken :: (callEntry ++ commaToken :: (wordsEntry ++ []))

/-- The three entries in the opposite order, with more commas. -/
def scatteredList : List Token :=
  commaToken :: (wordsEntry ++ commaToken :: commaToken ::
    (callEntry ++ commaToken :: (flagEntry ++ [commaToken])))

/-- The settings in their first order are laid out as a list. -/
theorem laid_orderedList : Laid [flagEntry, callEntry, wordsEntry] orderedList :=
  .entry (.comma rfl (.entry (.comma rfl (.entry .nil nofun)) (by rintro t ⟨⟩; rfl)))
    (by rintro t ⟨⟩; rfl)

/-- The settings in another order, with more commas, are laid out as a list too. -/
theorem laid_scatteredList : Laid [wordsEntry, callEntry, flagEntry] scatteredList := by
  refine .comma rfl (.entry (.comma rfl (.comma rfl (.entry (.comma rfl (.entry
    (.comma rfl .nil) ?_)) ?_))) ?_)
  all_goals
    rintro t ⟨⟩
    rfl

/-- What each of the three entries says. -/
theorem isEntry_entries : List.Forall₂ (IsEntry .column) [flagEntry, callEntry, wordsEntry]
    [.pk, .default ⟨"now()", .expression⟩, .notNull true] :=
  .cons (.intro (Or.inl rfl) rfl .nothing) <|
    .cons (.intro (Or.inl rfl) rfl (.default rfl (.call rfl (.mk rfl .nil rfl)))) <|
      .cons (.intro (Or.inl rfl) rfl (.null rfl)) .nil

/-- The three entries are accepted. -/
theorem accepts_entries : ∀ entry ∈ [flagEntry, callEntry, wordsEntry], Accepts .column entry := by
  obtain _ | ⟨hflag, _ | ⟨hcall, _ | ⟨hwords, -⟩⟩⟩ := isEntry_entries
  simp only [List.mem_cons, List.not_mem_nil, or_false]
  rintro entry (rfl | rfl | rfl)
  · exact hflag.accepts ColumnSettings.none
  · exact hcall.accepts ColumnSettings.none
  · exact hwords.accepts ColumnSettings.none

/-- What the three entries say of a column. -/
def entrySettings : ColumnSettings :=
  { ColumnSettings.none with pk := true, notNull := true, default := some ⟨"now()", .expression⟩ }

/-- A table with the entries in the opposite order and more commas, with its tokens in their places,
reads as the one with the list as it was: its column has the settings that the entries say, and so
has whatever else the lists are read for. -/
theorem ofTokens_rearranged_settings_scattered :
    ∃ ts, Token.scan "Table t\x7bid int[,not null,,default:now(),pk,]\x7d" = .ok ts ∧
      (ofTokens ts).unplaced = (ofTokens (openTable ++ leftBracketToken ::
        (orderedList ++ rightBracketToken :: closingTable))).unplaced ∧
      (ofTokens ts).diagnostics = [] ∧
      (ofTokens ts).document.tables.map (·.columns.map Column.settings) = [[entrySettings]] ∧
      ∀ list ∈ [structuralTokens orderedList, structuralTokens scatteredList],
        ∀ (c : Cursor) (ws : List Token),
          c.tokens = leftBracketToken :: (list ++ rightBracketToken :: ws) →
            (settings? (ListKind.apply .column) ColumnSettings.none).run c =
              .ok entrySettings (c.advanceBy (list.length + 2)) := by
  have hscan : (Token.scan "Table t\x7bid int[,not null,,default:now(),pk,]\x7d").map
      (List.map fun t => (t.kind, t.text)) = .ok ((openTable ++ leftBracketToken ::
        (scatteredList ++ rightBracketToken :: closingTable)).map fun t => (t.kind, t.text)) := by
    cbv
  have hdocument : (Token.scan "Table t\x7bid int[,not null,,default:now(),pk,]\x7d").toOption.map
      (fun ts => ((ofTokens ts).diagnostics,
        (ofTokens ts).document.tables.map (·.columns.map Column.settings))) =
        some ([], [[entrySettings]]) := by
    decide +kernel
  rcases hts : Token.scan "Table t\x7bid int[,not null,,default:now(),pk,]\x7d" with e | ts
  · rw [hts] at hscan
    cases hscan
  · rw [hts] at hscan hdocument
    obtain ⟨hdiagnostics, hsettings⟩ := Prod.mk.inj (Option.some.inj hdocument)
    let tokens := openTable ++ leftBracketToken ::
      (orderedList ++ rightBracketToken :: closingTable)
    let a : Attempt := ⟨.ofTokens tokens,
      (Cursor.ofTokens tokens).construct ⟨.keyword .table, default, "Table"⟩⟩
    obtain ⟨d, hlist, hd⟩ : ∃ d, a.HasList .column .none d ∧
        d.tokens = structuralTokens (leftBracketToken ::
          (orderedList ++ rightBracketToken :: closingTable)) :=
      ⟨_, .intro rfl (.column rfl rfl .refl ⟨rfl, rfl, by decide, by decide⟩ rfl), rfl⟩
    have hends : ∀ t ∈ orderedList ++ scatteredList, t.kind ≠ .endOfInput := by decide
    have hcomments : commentTexts scatteredList = commentTexts orderedList := rfl
    have hlaid : Laid [flagEntry, callEntry, wordsEntry] (structuralTokens orderedList) :=
      laid_orderedList
    have hlaid' : Laid [wordsEntry, callEntry, flagEntry] (structuralTokens scatteredList) :=
      laid_scatteredList
    obtain ⟨hread, changes, -, hlists⟩ := ofTokens_rearranged_settings (by decide)
      (first_mem_attempts rfl) hlist hd rfl rfl hends hlaid hlaid'
      (List.reverse_perm [flagEntry, callEntry, wordsEntry]) accepts_entries (by decide) hcomments
      (Except.ok.inj hscan)
    -- what the changes come to is seen where the list is all there is
    have halone := laid_orderedList.run_settings? isEntry_entries rfl rfl ColumnSettings.none
      (c := .ofTokens (leftBracketToken :: (orderedList ++ [rightBracketToken]))) rfl
    have hchanges : changes.foldl (ListKind.set .column) ColumnSettings.none = entrySettings :=
      (Outcome.ok.inj ((hlists _ List.mem_cons_self _ [] rfl).symm.trans halone)).1
    rw [hchanges] at hlists
    exact ⟨ts, rfl, hread, hdiagnostics, hsettings, hlists⟩

end SchemaDiagram.Document
