import SchemaDiagram.Proofs.Markup.Comments
import SchemaDiagram.Proofs.Token.MaximalMunch

/-!
# What lies ahead in a source text

Wherever reading has come to in a source text, each token ahead is read as what it is, and each
comment is one line without blanks around it. Both hold at the start, where the tokens are those of
`Token.scan`, and reading adds neither tokens nor comments.
-/

namespace SchemaDiagram

open Lexeme Lexeme.Pattern

/-! ## Tokens that were scanned -/

/-- A token that its text is read as. -/
structure Token.IsScanned (t : Token) : Prop where
  /-- The text is read as a token of that kind. -/
  readAs : ReadAs t.text.toList (some t.kind)
  /-- A color is complete. -/
  complete : t.kind = .color → Color.IsLiteral t.text.toList

/-- The tokens of a cutting with complete colors are as a scan leaves them. -/
theorem Lexeme.Cutting.isScanned {cs : List Char} {pieces : List Piece} (h : Cutting cs pieces)
    (hcolors : ColorsComplete pieces) (p : Position) :
    ∀ t ∈ tokensOf p pieces, t.kind ≠ .endOfInput → t.IsScanned := by
  induction h generalizing p with
  | nil =>
    intro t ht hend
    obtain rfl := List.mem_singleton.1 ht
    exact absurd rfl hend
  | @cons piece rest pieces _ readAs _ ih =>
    obtain ⟨hcolor, hothers⟩ := (colorsComplete_cons readAs).1 hcolors
    obtain ⟨_ | kind, w⟩ := piece
    · rw [tokensOf_skipped]
      exact ih hothers _
    · rw [tokensOf_kept]
      refine List.forall_mem_cons.2 ⟨fun _ => ⟨?_, fun hkind => ?_⟩, ih hothers _⟩
      · rw [String.toList_ofList]
        exact readAs
      · rw [String.toList_ofList]
        exact hcolor (congrArg some hkind)

/-- Every token of a scan is as a scan leaves it, the end of the input apart. -/
theorem Token.isScanned_of_scan {source : String} {ts : List Token} (h : scan source = .ok ts) :
    ∀ t ∈ ts, t.kind ≠ .endOfInput → t.IsScanned := by
  obtain ⟨pieces, hcutting, hcolors, rfl⟩ := scan_eq_ok_iff.1 h
  exact hcutting.isScanned hcolors .start

/-- The text of a line comment is one line without blanks around it. -/
theorem Token.IsScanned.isCommentText {t : Token} (h : t.IsScanned) (hkind : t.kind = .comment) :
    Markup.IsCommentText t.commentText := by
  have hline : '\n' ∉ t.text.toList := by
    have hread := h.readAs
    rw [hkind] at hread
    generalize htext : t.text.toList = w, hk : some TokenKind.comment = kind at hread
    cases hread.shape with
    | comment hw =>
      obtain ⟨cs, rfl, hcs⟩ := mem_lineComment.1 hw
      simpa using hcs
    | word =>
      unfold wordKind at hk
      split at hk <;> cases hk
    | _ => cases hk
  have hdrop : (if t.text.toList.take 2 = ['/', '/'] then t.text.toList.drop 2
      else t.text.toList) ⊆ t.text.toList := by
    split
    · exact (List.drop_sublist _ _).subset
    · exact List.Subset.refl _
  unfold commentText
  refine ⟨?_, ?_⟩
  · rw [String.toList_ofList]
    exact fun hmem => hline (hdrop (Text.trim_subset _ hmem))
  · rw [String.toList_ofList]
    exact Text.trim_trim _

/-! ## Cursors over a source text -/

namespace Document

/-- A token with its comments gathered is one of the source, and neither a comment nor the end. -/
theorem mem_gatherComments {comments : List String} {ts : List Token} {u : CommentedToken}
    (h : u ∈ (gatherComments comments ts).1) :
    u.token ∈ ts ∧ u.token.kind ≠ .endOfInput ∧ u.token.kind ≠ .comment := by
  induction ts generalizing comments with
  | nil => cases h
  | cons t ts ih =>
    unfold gatherComments at h
    split at h
    · cases h
    split at h
    · exact (ih h).imp_left (List.mem_cons_of_mem _)
    · next hend hcomment =>
      rcases List.mem_cons.1 h with rfl | h
      · exact ⟨List.mem_cons_self, hend, hcomment⟩
      · exact (ih h).imp_left (List.mem_cons_of_mem _)

/-- A comment gathered in front of a token is the text of one of the source's comments. -/
theorem mem_comments_gatherComments {comments : List String} {ts : List Token} {u : CommentedToken}
    (h : u ∈ (gatherComments comments ts).1) {c : String} (hc : c ∈ u.comments) :
    c ∈ comments ∨ ∃ t ∈ ts, t.kind = .comment ∧ c = t.commentText := by
  induction ts generalizing comments with
  | nil => cases h
  | cons t ts ih =>
    unfold gatherComments at h
    split at h
    · cases h
    split at h
    · next hcomment =>
      rcases ih h with hmem | ⟨v, hv, hkind, hc⟩
      · rcases List.mem_append.1 hmem with hmem | hmem
        · exact Or.inl hmem
        · exact Or.inr ⟨t, List.mem_cons_self, hcomment, List.mem_singleton.1 hmem⟩
      · exact Or.inr ⟨v, List.mem_cons_of_mem _ hv, hkind, hc⟩
    · rcases List.mem_cons.1 h with rfl | h
      · exact Or.inl hc
      · rcases ih h with hmem | ⟨v, hv, hkind, hc⟩
        · cases hmem
        · exact Or.inr ⟨v, List.mem_cons_of_mem _ hv, hkind, hc⟩

namespace Cursor

/-- The cursor is somewhere in a source text that could be cut into tokens. -/
def IsInSource (c : Cursor) : Prop :=
  ∃ source ts, Token.scan source = .ok ts ∧ (ofTokens ts).Reaches c

/-- Moving on stays within the source. -/
theorem IsInSource.reaches {c d : Cursor} (h : c.IsInSource) (hd : c.Reaches d) :
    d.IsInSource := by
  obtain ⟨source, ts, hscan, hc⟩ := h
  exact ⟨source, ts, hscan, hc.trans hd⟩

/-- The tokens ahead are as a scan leaves them, and none is a comment. -/
theorem IsInSource.isScanned {c : Cursor} (h : c.IsInSource) {t : Token} (ht : t ∈ c.tokens) :
    t.IsScanned ∧ t.kind ≠ .comment := by
  obtain ⟨source, ts, hscan, hc⟩ := h
  obtain ⟨u, hu, rfl⟩ := List.mem_map.1 (hc.suffix.subset ht)
  obtain ⟨hmem, hend, hcomment⟩ := mem_gatherComments hu
  exact ⟨Token.isScanned_of_scan hscan _ hmem hend, hcomment⟩

/-- The comments that a cursor holds are comment texts. -/
theorem IsInSource.isCommentText {c : Cursor} (h : c.IsInSource) {s : String}
    (hs : s ∈ c.comments) : Markup.IsCommentText s := by
  obtain ⟨source, ts, hscan, hc⟩ := h
  obtain ⟨u, hu, hs⟩ := List.mem_flatMap.1 (hc.comments hs)
  rcases mem_comments_gatherComments hu hs with hmem | ⟨t, ht, hkind, rfl⟩
  · cases hmem
  · refine (Token.isScanned_of_scan hscan t ht ?_).isCommentText hkind
    rw [hkind]
    simp

end Cursor

end Document

end SchemaDiagram
