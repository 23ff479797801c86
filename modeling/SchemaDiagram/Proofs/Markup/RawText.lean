import SchemaDiagram.Document.Column
import SchemaDiagram.Proofs.Document.Isolated
import SchemaDiagram.Proofs.Document.Scanned
import SchemaDiagram.Proofs.Markup.Settings

/-!
# Texts in parentheses

The text behind a type is kept in the spelling that reading gave it, and printed as it is. In front
of a closing parenthesis this spelling has the tokens that it was made from, one space between them
and none around commas, so it is read as itself. This holds for every text that reading can find in
parentheses (`IsRawText`), and for no other text is it claimed.
-/

namespace SchemaDiagram.Document

open Lexeme Lexeme.Pattern Document.Parser

/-- A text that reading finds in parentheses somewhere in a source text. -/
def IsRawText (text : String) : Prop :=
  ∃ c d : Cursor, c.IsInSource ∧ parenthesized.run c = .ok text d

/-- The tokens of a text in parentheses: all that stand before the parenthesis that closes it. -/
def rawTokens (ts : List CommentedToken) : List Token := (ts.take (rawLength 0 ts).1).map (·.token)

/-- A raw text is made from tokens of some source, up to the parenthesis that closes it. -/
theorem IsRawText.exists_tokens {text : String} (h : IsRawText text) :
    ∃ ts, (rawLength 0 ts).2 = true ∧ text = rawText (rawTokens ts) ∧
      ∀ t ∈ rawTokens ts, t.IsScanned ∧ t.kind ≠ .comment := by
  obtain ⟨c, d, hc, hrun⟩ := h
  have hreaches := (expect (.mark .leftParen)).reaches c
  rw [run_parenthesized] at hrun
  split at hrun
  · next t e hexpect =>
    rw [hexpect] at hreaches
    split at hrun
    · next hclosed =>
      refine ⟨e.rest, hclosed, ?_, fun t ht => ?_⟩
      · rw [run_bind] at hrun
        split at hrun
        · cases hrun
          rfl
        · cases hrun
      · have hmem : t ∈ e.tokens := List.map_subset _ (List.take_subset _ _) ht
        exact (hc.reaches hreaches).isScanned hmem
    · cases hrun
  · cases hrun

/-- Tokens that a text in parentheses can be made from. -/
noncomputable def rawTokensOf (text : String) : List CommentedToken :=
  open Classical in if h : IsRawText text then h.exists_tokens.choose else []

/-- The tokens chosen for a raw text are such tokens. -/
theorem IsRawText.rawTokensOf {text : String} (h : IsRawText text) :
    (rawLength 0 (rawTokensOf text)).2 = true ∧ text = rawText (rawTokens (rawTokensOf text)) ∧
      ∀ t ∈ rawTokens (rawTokensOf text), t.IsScanned ∧ t.kind ≠ .comment := by
  unfold Document.rawTokensOf
  rw [dif_pos h]
  exact h.exists_tokens.choose_spec

/-! ## The words of the text -/

/-- Behind a token that is no comma stands a space, a comma or the closing parenthesis. -/
theorem separated_rawTextAfter {k : TokenKind} (hk : k ≠ .mark .comma) {ts : List Token}
    (hts : ∀ t ∈ ts, t.IsScanned ∧ t.kind ≠ .comment) (rest : List Char) :
    Separated ((rawTextAfter k ts).toList ++ ')' :: rest) := by
  cases ts with
  | nil => exact separated_cons _ rfl
  | cons t ts =>
    simp only [rawTextAfter]
    by_cases hcomma : t.kind = .mark .comma
    · have htext : t.text.toList = [','] := by
        have hread := (hts t List.mem_cons_self).1.readAs
        rw [hcomma] at hread
        exact hread.eq_chars
      rw [if_neg (by simp [hcomma]), String.toList_append, String.toList_append, htext]
      exact separated_cons _ rfl
    · rw [if_pos ⟨hcomma, hk⟩, String.toList_append, String.toList_append]
      exact separated_cons _ rfl

/-- A token of a raw text is scanned as its word, if the tokens behind it follow. -/
theorem Lexes.rawText_token {comments : List String} {rest : List Char} {ws : List Word} {t : Token}
    {ts : List Token} (ht : t.IsScanned ∧ t.kind ≠ .comment)
    (hts : ∀ t ∈ ts, t.IsScanned ∧ t.kind ≠ .comment)
    (h : Lexes [] ((rawTextAfter t.kind ts).toList ++ ')' :: rest) ws) :
    Lexes comments (t.text.toList ++ ((rawTextAfter t.kind ts).toList ++ ')' :: rest))
      ({ tokenWord t with comments } :: ws) := by
  unfold tokenWord
  by_cases hcomma : t.kind = .mark .comma
  · have hread := ht.1.readAs
    rw [hcomma] at hread
    have htext : t.text.toList = [','] := hread.eq_chars
    have hmark : Lexes comments _ _ := Lexes.mark .comma (by decide) h
    rw [hcomma, ← String.ofList_toList (s := t.text), String.toList_ofList, htext]
    rw [hcomma] at hmark
    exact hmark
  · obtain ⟨c, others, hothers, hc⟩ := separated_rawTextAfter hcomma hts rest
    rw [hothers] at h ⊢
    have hword : Lexes comments _ _ := Lexes.token ht.1.readAs ht.2 ht.1.complete hc h
    rwa [String.ofList_toList] at hword

/-- The tokens of a raw text are scanned as their words, with spaces where these are needed. -/
theorem Lexes.rawTextAfter {rest : List Char} {ws : List Word} {ts : List Token}
    (hts : ∀ t ∈ ts, t.IsScanned ∧ t.kind ≠ .comment) (k : TokenKind)
    (h : Lexes [] (')' :: rest) ws) :
    Lexes [] ((rawTextAfter k ts).toList ++ ')' :: rest) (ts.map tokenWord ++ ws) := by
  induction ts generalizing k with
  | nil => exact h
  | cons t ts ih =>
    obtain ⟨ht, hts⟩ := List.forall_mem_cons.1 hts
    have htoken : Lexes [] _ _ := Lexes.rawText_token ht hts (ih hts t.kind)
    simp only [Parser.rawTextAfter]
    rw [String.toList_append, String.toList_append, List.append_assoc, List.append_assoc]
    split
    · exact htoken.space rfl
    · exact htoken

/-- In front of a closing parenthesis the text has the words of its tokens. -/
theorem Lexes.rawText {rest : List Char} {ws : List Word} {ts : List Token}
    (hts : ∀ t ∈ ts, t.IsScanned ∧ t.kind ≠ .comment) (h : Lexes [] (')' :: rest) ws) :
    Lexes [] ((rawText ts).toList ++ ')' :: rest) (ts.map tokenWord ++ ws) := by
  cases ts with
  | nil => exact h
  | cons t ts =>
    obtain ⟨ht, hts⟩ := List.forall_mem_cons.1 hts
    simp only [Parser.rawText]
    rw [String.toList_append, List.append_assoc]
    exact Lexes.rawText_token ht hts (Lexes.rawTextAfter hts t.kind h)

/-! ## Reading the text -/

/-- Where a text in parentheses ends depends on the kinds of its tokens only. -/
theorem rawLength_eq_of_closed {depth : Nat} {ts us : List CommentedToken} (kinds : List TokenKind)
    (h : (rawLength depth ts).2 = true)
    (hus : us.map (·.token.kind) = (ts.take (rawLength depth ts).1).map (·.token.kind) ++
      .mark .rightParen :: kinds) : rawLength depth us = rawLength depth ts := by
  induction ts generalizing depth us with
  | nil => cases h
  | cons t ts ih =>
    simp only [rawLength] at h hus ⊢
    split at h
    · next hclose =>
      rw [if_pos hclose] at hus ⊢
      obtain ⟨u, us, rfl, hu, -⟩ := List.map_eq_cons_iff.1 hus
      simp only [rawLength]
      rw [if_pos ⟨hu, hclose.2⟩]
    split at h
    · cases h
    · next hclose hopens =>
      rw [if_neg hclose, if_neg hopens] at hus ⊢
      rw [List.take_succ_cons, List.map_cons, List.cons_append] at hus
      obtain ⟨u, us, rfl, hu, hus⟩ := List.map_eq_cons_iff.1 hus
      simp only [rawLength, hu]
      rw [if_neg hclose, if_neg hopens, ih h hus]

/-- The raw text depends on the words of its tokens alone. -/
theorem rawText_congr {ts us : List Token} (h : ts.map tokenWord = us.map tokenWord) :
    rawText ts = rawText us := by
  have hafter : ∀ (ts us : List Token) (k : TokenKind), ts.map tokenWord = us.map tokenWord →
      rawTextAfter k ts = rawTextAfter k us := by
    intro ts
    induction ts with
    | nil =>
      intro us k h
      rw [List.map_eq_nil_iff.1 h.symm]
    | cons t ts ih =>
      intro us k h
      obtain ⟨u, us, rfl, hu, hus⟩ := List.map_eq_cons_iff.1 h.symm
      have hkind : u.kind = t.kind := congrArg Word.kind hu
      have htext : u.text = t.text := congrArg Word.text hu
      simp only [Parser.rawTextAfter]
      rw [hkind, htext, ih us t.kind hus.symm]
  cases ts with
  | nil => rw [List.map_eq_nil_iff.1 h.symm]
  | cons t ts =>
    obtain ⟨u, us, rfl, hu, hus⟩ := List.map_eq_cons_iff.1 h.symm
    have hkind : u.kind = t.kind := congrArg Word.kind hu
    have htext : u.text = t.text := congrArg Word.text hu
    simp only [Parser.rawText]
    rw [hkind, htext, hafter ts us t.kind hus.symm]

/-- The words of a text in parentheses. -/
def rawWords (ts : List CommentedToken) : List Word :=
  markWord .leftParen :: ((rawTokens ts).map tokenWord ++ [markWord .rightParen])

/-- The words of a raw text are read as the text. -/
theorem Parser.Reads.parenthesized {ts : List CommentedToken} (h : (rawLength 0 ts).2 = true)
    {ws : List Word} :
    parenthesized.Reads (rawWords ts ++ ws) ws (· = rawText (rawTokens ts)) := by
  unfold Parser.parenthesized rawWords
  rw [List.cons_append, List.append_assoc]
  refine bind (expect rfl rfl) fun _ _ => ?_
  have hcount : ((rawTokens ts).map tokenWord).length = (rawLength 0 ts).1 := by
    rw [List.length_map, rawTokens, List.length_map, List.length_take]
    exact Nat.min_eq_left (rawLength_le 0 ts)
  refine bind (ahead (P := (· = rawLength 0 ts)) fun us hus => ?_) fun r hr => ?_
  · have hkinds := congrArg (List.map Word.kind) hus
    refine rawLength_eq_of_closed (ws.map Word.kind) h ?_
    simpa [rawTokens, CommentedToken.word, tokenWord, markWord, Function.comp_def] using hkinds
  rw [hr]
  refine bind (ahead (P := (rawText · = rawText (rawTokens ts))) fun us hus => ?_) fun r hr => ?_
  · refine rawText_congr ?_
    have htake := congrArg (List.take (rawLength 0 ts).1) hus
    rw [List.take_left' hcount, ← List.map_take] at htake
    have hbare := congrArg (List.map fun w : Word => { w with comments := [] }) htake
    rw [List.map_map, List.map_map] at hbare
    rw [List.map_map]
    exact hbare
  rw [← hcount, h]
  refine bind (skip ?_) fun _ _ => ?_
  · intro w hw
    obtain ⟨t, -, rfl⟩ := List.mem_map.1 hw
    rfl
  · exact bind (any rfl) fun _ _ => pure hr

end SchemaDiagram.Document
